/-
The repeating block copies, upwards and downwards. A copy of BC bytes,
or of 65536 if BC is zero, is as many steps of the CPU, each of which
carries out the same two-byte instruction again, and it copies one byte
after the other: what an earlier round has stored, a later one may read
(`Flat.copies_in_sequence`).

# The rounds

What holds after any number of rounds is told by that number alone
(`Flat.Copied`): HL and DE have moved by it, BC has counted it down,
memory is that many rounds of the copy. While bytes remain, the program
counter is back on the instruction, so one round leads to the next
(`Flat.Copied.round`). A copy may pass over its own instruction, as long
as it leaves the two bytes as they are.
-/
import HomeZ80.Proofs.Cpu.BlockRound

namespace HomeZ80

open Exec (advance)

-- ================================================= copying in sequence

/-- An address moved by a number of bytes. -/
def moved (down : Bool) (addr : UInt16) (i : Nat) : UInt16 :=
  if down then addr - UInt16.ofNat i else addr + UInt16.ofNat i

/-- The first rounds of a copy, one byte after the other. -/
def copyInSequence (down : Bool) (src dst : UInt16) :
    Nat → (UInt16 → UInt8) → UInt16 → UInt8
  | 0, m => m
  | i + 1, m =>
    let m := copyInSequence down src dst i m
    Function.update m (moved down dst i) (m (moved down src i))

/-- The number of bytes that a copy moves. -/
def copyCount (bc : UInt16) : Nat :=
  if bc = 0 then 65536 else bc.toNat

@[simp] theorem moved_zero (down : Bool) (addr : UInt16) :
    moved down addr 0 = addr := by
  unfold moved
  cases down <;> simp

theorem advance_moved (down : Bool) (addr : UInt16) (i : Nat) :
    advance down (moved down addr i) = moved down addr (i + 1) := by
  have hsucc : UInt16.ofNat (i + 1) = UInt16.ofNat i + 1 :=
    UInt16.ofNat_add i 1
  unfold advance moved
  rw [hsucc]
  cases down with
  | true =>
    simp only [if_true]
    grind
  | false =>
    simp only [Bool.false_eq_true, if_false]
    grind

theorem copyCount_pos (bc : UInt16) : 0 < copyCount bc := by
  unfold copyCount
  split
  · decide
  · next h =>
    have hne : bc.toNat ≠ 0 := fun hzero => h (UInt16.toNat_inj.1 hzero)
    omega

/-- BC runs out with the last byte, and not before. -/
theorem moved_eq_zero_iff {bc : UInt16} {i : Nat} (hpos : 0 < i)
    (hi : i ≤ copyCount bc) : moved true bc i = 0 ↔ i = copyCount bc := by
  have hbc := bc.toNat_lt
  unfold copyCount at hi ⊢
  have hzero : moved true bc i = 0 ↔ bc = UInt16.ofNat i := by
    unfold moved
    rw [if_pos rfl]
    constructor
    · intro h
      grind
    · intro h
      grind
  rw [hzero, ← UInt16.toNat_inj]
  have hmod : (UInt16.ofNat i).toNat = i % 65536 := by simp
  rw [hmod]
  split at hi
  · next h =>
    subst h
    have h0 : (0 : UInt16).toNat = 0 := rfl
    rw [h0, if_pos rfl]
    omega
  · next h =>
    rw [if_neg h]
    omega

/-- The next round is the last one if it counts BC down to zero. -/
theorem moved_pred_eq_zero_iff {bc : UInt16} {i : Nat}
    (hi : i < copyCount bc) :
    moved true bc i - 1 = 0 ↔ i + 1 = copyCount bc := by
  show advance true (moved true bc i) = 0 ↔ _
  rw [advance_moved]
  exact moved_eq_zero_iff (Nat.succ_pos i) hi

/-- A byte that every round leaves as it is does not change. -/
theorem copyInSequence_kept {down : Bool} {src dst q : UInt16} {n : Nat}
    {m : UInt16 → UInt8}
    (h : ∀ i < n, moved down dst i = q →
      copyInSequence down src dst i m (moved down src i)
        = copyInSequence down src dst i m q) :
    ∀ i ≤ n, copyInSequence down src dst i m q = m q := by
  intro i hi
  induction i with
  | zero => rfl
  | succ i ih =>
    have hbefore := ih (by omega)
    show Function.update _ (moved down dst i) _ q = _
    by_cases hq : moved down dst i = q
    · subst hq
      rw [Function.update_self, h i (by omega) rfl, hbefore]
    · rw [Function.update_of_ne (Ne.symm hq), hbefore]

namespace Flat

-- ============================================================== rounds

/-- What holds after a number of rounds. -/
structure Copied (down : Bool) (s : Computer Flat) (i : Nat)
    (t : Computer Flat) : Prop where
  fitted : Fitted t.board
  idle : t.board.Idle
  memory : t.board.memory = copyInSequence down s.cpu.regs.hl
    s.cpu.regs.de i s.board.memory
  ports : t.board.decoder = s.board.decoder
  fault : t.board.arena.fault = s.board.arena.fault
  halted : t.cpu.halted = false
  undefinedCount : t.cpu.undefinedCount = s.cpu.undefinedCount
  kept : t.cpu.regs.keptByCopy = s.cpu.regs.keptByCopy
  hl : t.cpu.regs.hl = moved down s.cpu.regs.hl i
  de : t.cpu.regs.de = moved down s.cpu.regs.de i
  bc : t.cpu.regs.bc = moved true s.cpu.regs.bc i
  /-- Two opcode bytes are fetched in every round. -/
  r : t.cpu.regs.r.toNat = 128 * (s.cpu.regs.r.toNat / 128)
    + (s.cpu.regs.r.toNat + 2 * i) % 128

section
variable {s t : Computer Flat} {down : Bool} {i : Nat}

/-- Before the first round nothing has been copied. -/
theorem Copied.start (hs : Fitted s.board) (hidle : s.board.Idle)
    (hhalted : s.cpu.halted = false) : Copied down s 0 s := by
  refine ⟨hs, hidle, rfl, rfl, rfl, hhalted, rfl, rfl, ?_, ?_, ?_, ?_⟩
  · exact (moved_zero down _).symm
  · exact (moved_zero down _).symm
  · exact (moved_zero true _).symm
  · have h := s.cpu.regs.r.toNat_lt
    omega

/-- One more round, if the program counter is on the instruction. -/
theorem Copied.round (h : Copied down s i t)
    (hlead : t.board.memory t.cpu.regs.pc = 0xED)
    (hopcode : t.board.memory (t.cpu.regs.pc + 1) = copyOpcode down) :
    Copied down s (i + 1) t.step.2 := by
  have hwrite := Board.Touch.write t.cpu.regs.de
    (t.board.memory t.cpu.regs.hl) t.board
  have hplain := h.fitted.plain
  have hpoked := h.fitted.touch hwrite
  have hbc : t.cpu.regs.bc - 1 = moved true s.cpu.regs.bc (i + 1) := by
    rw [h.bc]
    exact advance_moved true s.cpu.regs.bc i
  rw [step_copy h.fitted h.idle h.halted hlead hopcode]
  constructor
  · exact hpoked
  · exact h.idle.of_signals_eq hwrite.signals_eq
  · show (Board.poke _ _ t.board).memory = _
    rw [hplain.memory_poke hpoked.plain, h.memory, h.hl, h.de]
    rfl
  · rw [← h.ports]
    exact Board.poke_decoder_of_ok (hplain.target_eq _) _
  · show (Board.poke _ _ t.board).arena.fault = _
    rw [hplain.poke_arena]
    exact h.fault
  · exact h.halted
  · exact h.undefinedCount
  · dsimp only
    rw [Registers.keptByCopy_fetched, Registers.keptByCopy_copyRound]
    exact h.kept
  · dsimp only
    rw [Registers.fetched_hl, Registers.copyRound_hl, h.hl]
    exact advance_moved down s.cpu.regs.hl i
  · dsimp only
    rw [Registers.fetched_de, Registers.copyRound_de, h.de]
    exact advance_moved down s.cpu.regs.de i
  · dsimp only
    rw [Registers.fetched_bc, Registers.copyRound_bc]
    exact hbc
  · dsimp only
    rw [Registers.fetched_r, toNat_refreshed, toNat_refreshed, h.r]
    omega

/-- The instruction is there to be fetched again, if the copy has left
it as it was. -/
theorem Copied.instruction (h : Copied down s i t)
    (hpc : t.cpu.regs.pc = s.cpu.regs.pc)
    (hlead : s.board.memory s.cpu.regs.pc = 0xED)
    (hopcode : s.board.memory (s.cpu.regs.pc + 1) = copyOpcode down)
    (hsafe : ∀ q, q = s.cpu.regs.pc ∨ q = s.cpu.regs.pc + 1 →
      copyInSequence down s.cpu.regs.hl s.cpu.regs.de i s.board.memory q
        = s.board.memory q) :
    t.board.memory t.cpu.regs.pc = 0xED
      ∧ t.board.memory (t.cpu.regs.pc + 1) = copyOpcode down := by
  rw [h.memory, hpc, hsafe _ (.inl rfl), hsafe _ (.inr rfl)]
  exact ⟨hlead, hopcode⟩

/-- BC runs out in the last round and not before. -/
theorem Copied.last_iff (h : Copied down s i t)
    (hi : i < copyCount s.cpu.regs.bc) :
    t.cpu.regs.bc - 1 = 0 ↔ i + 1 = copyCount s.cpu.regs.bc := by
  rw [h.bc]
  exact moved_pred_eq_zero_iff hi

/-- While bytes remain the program counter is on the instruction, and a
round takes 21 T-states. -/
theorem copied_steps (hs : Fitted s.board) (hidle : s.board.Idle)
    (hhalted : s.cpu.halted = false)
    (hthere : ∀ i < copyCount s.cpu.regs.bc, ∀ t, Copied down s i t →
      t.cpu.regs.pc = s.cpu.regs.pc →
      t.board.memory t.cpu.regs.pc = 0xED
        ∧ t.board.memory (t.cpu.regs.pc + 1) = copyOpcode down) :
    ∀ i < copyCount s.cpu.regs.bc, Copied down s i (s.steps i)
      ∧ (s.steps i).cpu.regs.pc = s.cpu.regs.pc
      ∧ (s.steps i).cpu.cost = s.cpu.cost + 21 * i := by
  intro i hi
  refine Computer.rounds (.start hs hidle hhalted) ?_ i
    (Nat.le_sub_one_of_lt hi)
  intro i hi t ht hpc
  obtain ⟨hp, ho⟩ := hthere i (by omega) t ht hpc
  have hmore : ¬ t.cpu.regs.bc - 1 = 0 := by
    rw [ht.last_iff (by omega)]
    omega
  have hstep := step_copy ht.fitted ht.idle ht.halted hp ho
  refine ⟨ht.round hp ho, ?_, ?_⟩
  · rw [hstep]
    dsimp only
    rw [Registers.fetched_pc, if_neg hmore]
  · rw [hstep]
    dsimp only
    rw [if_neg hmore]

end

/-- A repeating copy is a copy in sequence. -/
theorem copies_in_sequence {s : Computer Flat} {down : Bool}
    (hs : Fitted s.board) (hidle : s.board.Idle)
    (hhalted : s.cpu.halted = false)
    (hlead : s.board.memory s.cpu.regs.pc = 0xED)
    (hopcode : s.board.memory (s.cpu.regs.pc + 1) = copyOpcode down)
    (hkeeps : ∀ i < copyCount s.cpu.regs.bc, ∀ q,
      q = s.cpu.regs.pc ∨ q = s.cpu.regs.pc + 1 →
      moved down s.cpu.regs.de i = q →
      let m := copyInSequence down s.cpu.regs.hl s.cpu.regs.de i
        s.board.memory
      m (moved down s.cpu.regs.hl i) = m q) :
    let n := copyCount s.cpu.regs.bc
    let t := s.steps n
    (∀ i < n, (s.steps i).cpu.regs.pc = s.cpu.regs.pc)
      ∧ Copied down s n t
      ∧ t.cpu.regs.pc = s.cpu.regs.pc + 2
      ∧ t.cpu.regs.bc = 0
      ∧ t.cpu.regs.f.pv = false
      ∧ t.cpu.regs.f.h = false
      ∧ t.cpu.regs.f.n = false
      ∧ t.cpu.cost = s.cpu.cost + (21 * (n - 1) + 16) := by
  intro n t
  have hthere : ∀ i < n, ∀ t, Copied down s i t →
      t.cpu.regs.pc = s.cpu.regs.pc →
      t.board.memory t.cpu.regs.pc = 0xED
        ∧ t.board.memory (t.cpu.regs.pc + 1) = copyOpcode down := by
    intro i hi t ht hpc
    refine ht.instruction hpc hlead hopcode fun q hq => ?_
    exact copyInSequence_kept (fun j hj hdst => hkeeps j hj q hq hdst)
      i (Nat.le_of_lt hi)
  have hrounds := copied_steps hs hidle hhalted hthere
  refine ⟨fun i hi => (hrounds i hi).2.1, ?_⟩
  obtain ⟨last, hlast⟩ : ∃ last, n = last + 1 :=
    ⟨n - 1, by have := copyCount_pos s.cpu.regs.bc; omega⟩
  obtain ⟨hcopied, hpc, hcost⟩ := hrounds last (by omega)
  obtain ⟨hp, ho⟩ := hthere last (by omega) _ hcopied hpc
  have hdone : (s.steps last).cpu.regs.bc - 1 = 0 :=
    (hcopied.last_iff (by omega)).2 hlast.symm
  have ht : t = (s.steps last).step.2 := by
    show s.steps n = _
    rw [hlast, Computer.steps_succ]
  have hstep := step_copy hcopied.fitted hcopied.idle hcopied.halted hp ho
  rw [hlast, ht]
  refine ⟨hcopied.round hp ho, ?_, ?_, ?_, ?_, ?_, ?_⟩
  · rw [hstep]
    dsimp only
    rw [Registers.fetched_pc, if_pos hdone, hpc]
  · rw [hstep]
    dsimp only
    rw [Registers.fetched_bc, Registers.copyRound_bc, hdone]
  · rw [hstep]
    show ((s.steps last).cpu.regs.bc - 1 != 0) = false
    rw [hdone]
    rfl
  · rw [hstep]
    rfl
  · rw [hstep]
    rfl
  · rw [hstep]
    dsimp only
    rw [if_pos hdone, hcost]
    omega

def holding (bytes : List (UInt16 × UInt8)) (b : Board Flat) :
    Board Flat :=
  bytes.foldl (fun b byte => b.poke byte.1 byte.2) b

/-- A board that holds a program is fitted, and its memory is the program
over what was there. -/
theorem Fitted.holding {b : Board Flat} (hb : Fitted b)
    (bytes : List (UInt16 × UInt8)) :
    Fitted (holding bytes b)
      ∧ (holding bytes b).signals = b.signals
      ∧ (holding bytes b).memory
        = bytes.foldl (fun m byte => Function.update m byte.1 byte.2)
            b.memory := by
  induction bytes generalizing b with
  | nil => exact ⟨hb, rfl, rfl⟩
  | cons byte rest ih =>
    have hwrite := Board.Touch.write byte.1 byte.2 b
    have hpoked := hb.touch hwrite
    obtain ⟨hfitted, hsignals, hmemory⟩ := ih hpoked
    refine ⟨hfitted, hsignals.trans hwrite.signals_eq,
      hmemory.trans ?_⟩
    rw [hb.plain.memory_poke hpoked.plain]
    rfl

/-- A copy of two bytes, each to the address after its own, so that the
second round reads what the first one has stored. -/
def spreading : Computer Flat where
  cpu.regs :=
    { Registers.powerOn with
      c := 2, h := 0x10, l := 0x00, d := 0x10, e := 0x01 }
  board := holding [(0, 0xED), (1, 0xB0), (0x1000, 7)] board

theorem spreading_board : spreading.board
    = holding [(0, 0xED), (1, 0xB0), (0x1000, 7)] board := by
  unfold spreading
  dsimp only

theorem memory_spreading : spreading.board.memory =
    Function.update (Function.update (Function.update board.memory
      0 0xED) 1 0xB0) 0x1000 7 := by
  rw [spreading_board, (fitted_board.holding _).2.2]
  simp only [List.foldl]

/-- A byte spreads upwards. -/
theorem copies_in_sequence_spreading :
    spreading.board.memory 0 = 0xED
      ∧ spreading.board.memory 1 = copyOpcode false
      ∧ (spreading.steps 2).board.memory 0x1002 = 7
      ∧ (spreading.steps 2).cpu.regs.pc = 2
      ∧ (spreading.steps 2).cpu.cost = 37 := by
  have hlead : spreading.board.memory 0 = 0xED := by
    rw [memory_spreading, Function.update_of_ne (by decide),
      Function.update_of_ne (by decide), Function.update_self]
  have hopcode : spreading.board.memory 1 = copyOpcode false := by
    rw [memory_spreading, Function.update_of_ne (by decide),
      Function.update_self]
    rfl
  have hcount : copyCount spreading.cpu.regs.bc = 2 := by decide
  have hidle : board.Idle := ⟨rfl, rfl⟩
  have hspreading : Fitted spreading.board ∧ spreading.board.Idle := by
    rw [spreading_board]
    obtain ⟨hfitted, hsignals, -⟩ := fitted_board.holding _
    exact ⟨hfitted, hidle.of_signals_eq hsignals⟩
  have hrun := copies_in_sequence (s := spreading) hspreading.1
    hspreading.2 rfl hlead hopcode (by
      intro i hi q hq hdst
      rw [hcount] at hi
      have hround : i = 0 ∨ i = 1 := by omega
      rcases hround with rfl | rfl <;> rcases hq with rfl | rfl <;>
        exact absurd hdst (by decide))
  rw [hcount] at hrun
  obtain ⟨-, hcopied, hpc, -, -, -, -, hcost⟩ := hrun
  have hspread (m : UInt16 → UInt8) :
      copyInSequence false 0x1000 0x1001 2 m 0x1002 = m 0x1000 := rfl
  have hbyte : (spreading.steps 2).board.memory 0x1002
      = spreading.board.memory 0x1000 :=
    (congrFun hcopied.memory 0x1002).trans (hspread _)
  rw [memory_spreading, Function.update_self] at hbyte
  exact ⟨hlead, hopcode, hbyte, hpc, hcost⟩

end Flat
end HomeZ80
