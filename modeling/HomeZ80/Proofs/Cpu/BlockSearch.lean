/-
The repeating block searches, upwards and downwards. A search looks at BC
bytes, or at 65536 if BC is zero, one in each step, and ends with the
first byte that equals the accumulator, or else with the last one
(`Flat.searches_in_sequence`). The two ends can coincide; the zero flag
tells whether the last byte that was looked at is a match, and the
overflow flag whether bytes are left.

# The rounds

A search leaves the board exactly as it is, so the instruction is there
for every round. What changes is told by the number of rounds
(`Flat.Searched`).
-/
import HomeZ80.Proofs.Cpu.BlockCopy

namespace HomeZ80

open Exec (advance)

-- ============================================================ registers

/-- A comparison sets the zero flag if the bytes are equal. -/
theorem Alu.sub8_z (a v : UInt8) :
    (Alu.sub8 a v false).2.z = true ↔ v = a := by
  have ha := a.toNat_lt
  have hv := v.toNat_lt
  show (UInt8.ofNat (512 + a.toNat - v.toNat - 0) == 0) = true ↔ v = a
  rw [beq_iff_eq, ← UInt8.toNat_inj, ← UInt8.toNat_inj, UInt8.toNat_ofNat']
  simp only [UInt8.toNat_zero]
  omega

/-- BC counts down from the number of bytes, modulo 65536. -/
theorem toNat_moved_count {bc : UInt16} {i : Nat}
    (hi : i ≤ copyCount bc) :
    (moved true bc i).toNat = (copyCount bc - i) % 65536 := by
  have hbc := bc.toNat_lt
  have hcount : copyCount bc % 65536 = bc.toNat ∧ copyCount bc ≤ 65536 := by
    unfold copyCount
    split
    · next h => exact ⟨by rw [h]; rfl, Nat.le_refl _⟩
    · exact ⟨Nat.mod_eq_of_lt hbc, Nat.le_of_lt hbc⟩
  unfold moved
  rw [if_pos rfl, UInt16.toNat_sub, UInt16.toNat_ofNat']
  omega

namespace Registers

/-- The registers that a search leaves as they are: all but BC, HL, the
program counter, the refresh register and the flags other than C. -/
def keptBySearch (s : Registers) : Registers :=
  { s with
    f := { c := s.f.c }
    b := 0, c := 0, h := 0, l := 0, pc := 0, r := 0 }

@[simp] theorem keptBySearch_fetched (pc : UInt16) (r : UInt8)
    (s : Registers) : (s.fetched pc r).keptBySearch = s.keptBySearch := rfl

/-- A round changes no more than a search may change. -/
@[simp] theorem keptBySearch_compareRound (down : Bool) (v : UInt8)
    (s : Registers) :
    (s.compareRound down v).keptBySearch = s.keptBySearch := rfl

section
variable (s : Registers) (down : Bool) (v : UInt8)

/-- Zero tells that the byte was found. -/
@[simp] theorem compareRound_z :
    (s.compareRound down v).f.z = true ↔ v = s.a := Alu.sub8_z s.a v

@[simp] theorem compareRound_n : (s.compareRound down v).f.n = true := rfl

/-- Overflow tells that there are bytes left. -/
@[simp] theorem compareRound_pv :
    (s.compareRound down v).f.pv = (s.bc - 1 != 0) := rfl

end
end Registers

namespace Flat

-- ============================================================== rounds

/-- What holds after a number of rounds. -/
structure Searched (down : Bool) (s : Computer Flat) (i : Nat)
    (t : Computer Flat) : Prop where
  board : t.board = s.board
  halted : t.cpu.halted = false
  undefinedCount : t.cpu.undefinedCount = s.cpu.undefinedCount
  kept : t.cpu.regs.keptBySearch = s.cpu.regs.keptBySearch
  hl : t.cpu.regs.hl = moved down s.cpu.regs.hl i
  bc : t.cpu.regs.bc = moved true s.cpu.regs.bc i
  /-- Two opcode bytes are fetched in every round. -/
  r : t.cpu.regs.r.toNat = 128 * (s.cpu.regs.r.toNat / 128)
    + (s.cpu.regs.r.toNat + 2 * i) % 128

/-- A search that has ended, with a match or without one. -/
structure SearchEnded (down : Bool) (s : Computer Flat) (rounds : Nat)
    (found : Bool) (t : Computer Flat) : Prop
    extends Searched down s rounds t where
  pc : t.cpu.regs.pc = s.cpu.regs.pc + 2
  z : t.cpu.regs.f.z = found
  n : t.cpu.regs.f.n = true
  /-- BC holds the number of bytes that are left, of up to 65536. -/
  left : t.cpu.regs.bc.toNat = (copyCount s.cpu.regs.bc - rounds) % 65536
  pv : t.cpu.regs.f.pv = (t.cpu.regs.bc != 0)
  cost : t.cpu.cost = s.cpu.cost + (21 * (rounds - 1) + 16)

section
variable {s t : Computer Flat} {down : Bool} {i : Nat}

/-- Before the first round nothing has been looked at. -/
theorem Searched.start (hhalted : s.cpu.halted = false) :
    Searched down s 0 s := by
  refine ⟨rfl, hhalted, rfl, rfl, ?_, ?_, ?_⟩
  · exact (moved_zero down _).symm
  · exact (moved_zero true _).symm
  · have hr := s.cpu.regs.r.toNat_lt
    omega

/-- The instruction is there for the next round. -/
theorem Searched.atBlock (h : Searched down s i t) {opcode : UInt8}
    (hs : AtBlock opcode s) (hpc : t.cpu.regs.pc = s.cpu.regs.pc) :
    AtBlock opcode t := by
  constructor
  · exact h.board ▸ hs.fitted
  · exact h.board ▸ hs.idle
  · exact h.halted
  · rw [h.board, hpc]
    exact hs.lead
  · rw [h.board, hpc]
    exact hs.opcode

/-- What is searched for stays the same. -/
theorem Searched.a_eq (h : Searched down s i t) :
    t.cpu.regs.a = s.cpu.regs.a := by
  show t.cpu.regs.keptBySearch.a = s.cpu.regs.keptBySearch.a
  rw [h.kept]

/-- The byte that the next round looks at. -/
theorem Searched.byte_eq (h : Searched down s i t) :
    t.board.memory t.cpu.regs.hl
      = s.board.memory (moved down s.cpu.regs.hl i) := by
  rw [h.board, h.hl]

/-- A search goes on while bytes are left and none has matched. -/
theorem Searched.goesOn_iff (h : Searched down s i t)
    (hi : i < copyCount s.cpu.regs.bc) :
    Sweep.compare.goesOn (t.board.memory t.cpu.regs.hl) t.cpu.regs = true
      ↔ i + 1 ≠ copyCount s.cpu.regs.bc
        ∧ s.board.memory (moved down s.cpu.regs.hl i) ≠ s.cpu.regs.a := by
  have hlast : t.cpu.regs.bc - 1 = 0 ↔ i + 1 = copyCount s.cpu.regs.bc := by
    rw [h.bc]
    exact moved_pred_eq_zero_iff hi
  have hmatch := Alu.sub8_z t.cpu.regs.a (t.board.memory t.cpu.regs.hl)
  rw [h.byte_eq, h.a_eq] at hmatch
  unfold Sweep.goesOn
  rw [h.byte_eq, h.a_eq, Bool.and_eq_true, bne_iff_ne, Bool.not_eq_true',
    Ne, hlast, ← Bool.not_eq_true, hmatch]

/-- A step at the instruction looks at one byte, and goes back to it unless
it was found or BC has run out. -/
theorem step_compare (h : AtBlock (Sweep.compare.opcode down) t) :
    t.step.2 =
      let v := t.board.memory t.cpu.regs.hl
      let r := t.cpu.regs
      let again := Sweep.compare.goesOn v r
      { cpu :=
          { t.cpu with
            regs := (r.compareRound down v).fetched
              (if again then r.pc else r.pc + 2) (refreshed (refreshed r.r))
            eiDelay := false
            cost := t.cpu.cost + if again then 21 else 16 }
        board := t.board } := step_sweep h

/-- One more round, if the program counter is on the instruction. -/
theorem Searched.round (h : Searched down s i t)
    (ht : AtBlock (Sweep.compare.opcode down) t) :
    Searched down s (i + 1) t.step.2 := by
  rw [step_compare ht]
  dsimp only
  constructor
  · exact h.board
  · exact h.halted
  · exact h.undefinedCount
  · dsimp only
    rw [Registers.keptBySearch_fetched, Registers.keptBySearch_compareRound]
    exact h.kept
  · dsimp only
    rw [Registers.fetched_hl, Registers.compareRound_hl, h.hl]
    exact advance_moved down s.cpu.regs.hl i
  · dsimp only
    rw [Registers.fetched_bc, Registers.compareRound_bc, h.bc]
    exact advance_moved true s.cpu.regs.bc i
  · dsimp only
    rw [Registers.fetched_r, toNat_refreshed, toNat_refreshed, h.r]
    omega

/-- As long as no byte has matched and bytes are left, the program counter
is on the instruction, and a round takes 21 T-states. -/
theorem searched_steps (hs : AtBlock (Sweep.compare.opcode down) s) {last : Nat}
    (hlast : last < copyCount s.cpu.regs.bc)
    (hnone : ∀ i < last,
      s.board.memory (moved down s.cpu.regs.hl i) ≠ s.cpu.regs.a) :
    ∀ i ≤ last, Searched down s i (s.steps i)
      ∧ (s.steps i).cpu.regs.pc = s.cpu.regs.pc
      ∧ (s.steps i).cpu.cost = s.cpu.cost + 21 * i := by
  refine Computer.rounds (.start hs.running) ?_
  intro i hi t ht hpc
  have hat := ht.atBlock hs hpc
  have hmore := (ht.goesOn_iff (by omega)).2 ⟨by omega, hnone i hi⟩
  refine ⟨ht.round hat, ?_, ?_⟩
  · rw [step_compare hat]
    dsimp only
    rw [Registers.fetched_pc, if_pos hmore]
  · rw [step_compare hat]
    dsimp only
    rw [if_pos hmore]

/-- The round after these is the last one if its byte matches or is the
last that is left. -/
theorem search_ends (hs : AtBlock (Sweep.compare.opcode down) s) {last : Nat}
    (hlast : last < copyCount s.cpu.regs.bc)
    (hnone : ∀ i < last,
      s.board.memory (moved down s.cpu.regs.hl i) ≠ s.cpu.regs.a)
    (hend : last + 1 = copyCount s.cpu.regs.bc
      ∨ s.board.memory (moved down s.cpu.regs.hl last) = s.cpu.regs.a) :
    SearchEnded down s (last + 1)
      (decide (s.board.memory (moved down s.cpu.regs.hl last)
        = s.cpu.regs.a))
      (s.steps (last + 1)) := by
  obtain ⟨ht, hpc, hcost⟩ :=
    searched_steps hs hlast hnone last (Nat.le_refl _)
  have hat := ht.atBlock hs hpc
  have hdone : ¬ Sweep.compare.goesOn
      ((s.steps last).board.memory (s.steps last).cpu.regs.hl)
      (s.steps last).cpu.regs = true := by
    rw [ht.goesOn_iff hlast]
    rintro ⟨hmore, hne⟩
    exact hend.elim hmore hne
  have hround := ht.round hat
  rw [Computer.steps_succ]
  refine ⟨hround, ?_, ?_, ?_, ?_, ?_, ?_⟩
  · rw [step_compare hat]
    dsimp only
    rw [Registers.fetched_pc, if_neg hdone, hpc]
  · rw [step_compare hat, Bool.eq_iff_iff, decide_eq_true_iff, ← ht.byte_eq,
      ← ht.a_eq]
    dsimp only
    rw [Registers.fetched_f]
    exact Registers.compareRound_z _ down _
  · rw [step_compare hat]
    dsimp only
    rw [Registers.fetched_f, Registers.compareRound_n]
  · rw [hround.bc]
    exact toNat_moved_count hlast
  · rw [step_compare hat]
    dsimp only
    rw [Registers.fetched_f, Registers.fetched_bc,
      Registers.compareRound_pv, Registers.compareRound_bc]
  · rw [step_compare hat]
    dsimp only
    rw [if_neg hdone, hcost]
    omega

end

/-- A repeating search ends after the first byte that equals the
accumulator, or after all of them if none does. -/
theorem searches_in_sequence {s : Computer Flat} {down : Bool}
    (hs : AtBlock (Sweep.compare.opcode down) s) :
    let n := copyCount s.cpu.regs.bc
    let byte := fun i => s.board.memory (moved down s.cpu.regs.hl i)
    (∀ j < n, byte j = s.cpu.regs.a →
      (∀ i < j, byte i ≠ s.cpu.regs.a) →
      (∀ i ≤ j, (s.steps i).cpu.regs.pc = s.cpu.regs.pc)
        ∧ SearchEnded down s (j + 1) true (s.steps (j + 1)))
    ∧ ((∀ j < n, byte j ≠ s.cpu.regs.a) →
      (∀ i < n, (s.steps i).cpu.regs.pc = s.cpu.regs.pc)
        ∧ SearchEnded down s n false (s.steps n)
        ∧ (s.steps n).cpu.regs.bc = 0
        ∧ (s.steps n).cpu.regs.f.pv = false) := by
  intro n byte
  constructor
  · intro j hj hmatch hnone
    have hrounds := searched_steps hs hj hnone
    refine ⟨fun i hi => (hrounds i hi).2.1, ?_⟩
    have hended := search_ends hs hj hnone (.inr hmatch)
    rwa [decide_eq_true hmatch] at hended
  · intro hnone
    have hpos := copyCount_pos s.cpu.regs.bc
    obtain ⟨last, hlast⟩ : ∃ last, n = last + 1 := ⟨n - 1, by omega⟩
    have hlt : last < n := by omega
    have hbefore : ∀ i < last, byte i ≠ s.cpu.regs.a :=
      fun i hi => hnone i (by omega)
    have hrounds := searched_steps hs hlt hbefore
    have hended := search_ends hs hlt hbefore (.inl hlast.symm)
    rw [decide_eq_false (hnone last hlt), ← hlast] at hended
    have hbc : (s.steps n).cpu.regs.bc = 0 := by
      rw [← UInt16.toNat_inj, hended.left, Nat.sub_self]
      rfl
    refine ⟨fun i hi => (hrounds i (by omega)).2.1, hended, hbc, ?_⟩
    rw [hended.pv, hbc]
    rfl

/-- A search for the second of three bytes. -/
def seeking : Computer Flat where
  cpu.regs :=
    { Registers.powerOn with a := 7, c := 3, h := 0x10, l := 0x00 }
  board :=
    holding [(0, 0xED), (1, 0xB1), (0x1000, 1), (0x1001, 7)] board

theorem seeking_board : seeking.board
    = holding [(0, 0xED), (1, 0xB1), (0x1000, 1), (0x1001, 7)] board := by
  unfold seeking
  dsimp only

theorem memory_seeking :
    seeking.board.memory 0 = 0xED
      ∧ seeking.board.memory 1 = 0xB1
      ∧ seeking.board.memory 0x1000 = 1
      ∧ seeking.board.memory 0x1001 = 7 := by
  rw [seeking_board, (fitted_board.holding _).2.2]
  refine ⟨?_, ?_, ?_, ?_⟩ <;> simp [Function.update]

theorem seeking_atBlock :
    AtBlock (Sweep.compare.opcode false) seeking := by
  obtain ⟨hlead, hopcode, -⟩ := memory_seeking
  have hidle : board.Idle := ⟨rfl, rfl⟩
  obtain ⟨hfitted, hsignals, -⟩ := fitted_board.holding
    [(0, 0xED), (1, 0xB1), (0x1000, 1), (0x1001, 7)]
  rw [← seeking_board] at hfitted hsignals
  exact ⟨hfitted, hidle.of_signals_eq hsignals, rfl, hlead, hopcode⟩

/-- The search stops at it, with one byte left. -/
theorem searches_in_sequence_seeking :
    AtBlock (Sweep.compare.opcode false) seeking
      ∧ (seeking.steps 1).cpu.regs.pc = 0
      ∧ (seeking.steps 2).cpu.regs.pc = 2
      ∧ (seeking.steps 2).cpu.regs.f.z = true
      ∧ (seeking.steps 2).cpu.regs.hl = 0x1002
      ∧ (seeking.steps 2).cpu.regs.bc = 1
      ∧ (seeking.steps 2).cpu.cost = 37 := by
  obtain ⟨-, -, hfirst, hsecond⟩ := memory_seeking
  have hcount : 1 < copyCount seeking.cpu.regs.bc := by decide
  have hmiss : ∀ i < 1, seeking.board.memory
      (moved false seeking.cpu.regs.hl i) ≠ seeking.cpu.regs.a := by
    intro i hi
    obtain rfl : i = 0 := by omega
    rw [moved_zero, show seeking.cpu.regs.hl = 0x1000 from rfl, hfirst]
    decide
  have hmatch : seeking.board.memory
      (moved false seeking.cpu.regs.hl 1) = seeking.cpu.regs.a := by
    rw [show moved false seeking.cpu.regs.hl 1 = 0x1001 by decide, hsecond]
    rfl
  obtain ⟨hsearch, -⟩ := searches_in_sequence seeking_atBlock
  obtain ⟨hpc, hended⟩ := hsearch 1 hcount hmatch hmiss
  rw [show 1 + 1 = 2 from rfl] at hended
  exact ⟨seeking_atBlock, hpc 1 (Nat.le_refl _), hended.pc, hended.z,
    hended.hl, hended.bc, hended.cost⟩

end Flat
end HomeZ80
