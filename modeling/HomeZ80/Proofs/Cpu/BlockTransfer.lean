/-
The repeating block transfers between memory and a port, upwards and
downwards. A transfer of B bytes, or of 256 if B is zero, is as many
steps of the CPU, and each of them moves one byte: from the port to the
address in HL, or from there to the port
(`Flat.transfers_in_sequence`).

# The rounds

All that a round does to the board is one access: a write to memory, or
a write to the port (`Transfer.access`). A write to memory leaves the
ports alone, and a write to a port leaves memory alone, so each access
can be told from the board as it was at first, and the board after a
number of rounds is the first one with that many accesses performed on
it (`Flat.Transferred`).
-/
import HomeZ80.Proofs.Cpu.BlockCopy
import HomeZ80.Proofs.Cpu.Latch

namespace HomeZ80

open Exec (advance portFlags)

-- =============================================================== counts

/-- The number of bytes that a transfer moves. -/
def transferCount (b : UInt8) : Nat :=
  if b = 0 then 256 else b.toNat

theorem transferCount_pos (b : UInt8) : 0 < transferCount b := by
  unfold transferCount
  split
  · decide
  · next h =>
    have hne : b.toNat ≠ 0 := fun hzero => h (UInt8.toNat_inj.1 hzero)
    omega

/-- B runs out with the last byte, and not before. -/
theorem sub_transferred_eq_zero_iff {b : UInt8} {i : Nat} (hpos : 0 < i)
    (hi : i ≤ transferCount b) :
    b - UInt8.ofNat i = 0 ↔ i = transferCount b := by
  have hb := b.toNat_lt
  unfold transferCount at hi ⊢
  rw [← UInt8.toNat_inj, UInt8.toNat_sub, UInt8.toNat_ofNat',
    UInt8.toNat_zero]
  split at hi
  · next h =>
    subst h
    rw [if_pos rfl, UInt8.toNat_zero]
    omega
  · next h =>
    rw [if_neg h]
    omega

/-- B after one round more. -/
theorem sub_transferred_succ (b : UInt8) (i : Nat) :
    b - UInt8.ofNat i - 1 = b - UInt8.ofNat (i + 1) := by
  have hsucc : UInt8.ofNat (i + 1) = UInt8.ofNat i + 1 :=
    UInt8.ofNat_add i 1
  rw [hsucc]
  grind

-- ============================================================ registers

namespace Registers

/-- The registers after a round. -/
def transferRound (down : Bool) (r : Registers) : Registers :=
  { r.setHl (advance down r.hl) with
    b := r.b - 1, f := portFlags (r.b - 1) r.f }

/-- The registers that a transfer leaves as they are: all but B, HL, the
program counter, the refresh register and the flags other than C. -/
def keptByTransfer (s : Registers) : Registers :=
  { s with
    f := { c := s.f.c }
    b := 0, h := 0, l := 0, pc := 0, r := 0 }

section
variable (s : Registers) (down : Bool) (pc : UInt16) (r : UInt8)

@[simp] theorem transferRound_hl :
    (s.transferRound down).hl = advance down s.hl :=
  word_hiByte_loByte _

@[simp] theorem keptByTransfer_fetched :
    (s.fetched pc r).keptByTransfer = s.keptByTransfer := rfl

@[simp] theorem keptByTransfer_transferRound :
    (s.transferRound down).keptByTransfer = s.keptByTransfer := rfl

end
end Registers

-- ============================================================= accesses

/-- The two ways between memory and a port. -/
inductive Transfer where
  /-- From the port to memory. -/
  | input
  /-- From memory to the port. -/
  | output
  deriving DecidableEq, Repr

/-- An access that stores something, in memory or behind a port. -/
def BusCycle.stores : BusCycle → Bool
  | .write _ _ | .output _ _ => true
  | .read _ | .input _ => false

namespace Transfer

def op : Transfer → BlockOp
  | input => .input
  | output => .output

/-- The second byte of the repeating instruction. -/
def opcode (down : Bool) : Transfer → UInt8
  | input => if down then 0xBA else 0xB2
  | output => if down then 0xBB else 0xB3

/-- How a round gets hold of its byte. -/
def source (addr : UInt16) (port : UInt8) : Transfer → BusCycle
  | input => .input port
  | output => .read addr

/-- What a round does with its byte. -/
def access (addr : UInt16) (port : UInt8) (b : Board Flat) :
    Transfer → BusCycle
  | input => .write addr (b.readPort port)
  | output => .output port (b.memory addr)

/-- What a number of rounds do with their bytes, in their order. -/
def accesses (down : Bool) (hl : UInt16) (port : UInt8) (n : Nat)
    (b : Board Flat) (w : Transfer) : List BusCycle :=
  (List.range n).map fun i => w.access (moved down hl i) port b

/-- One round more is one access more. -/
theorem accesses_succ (down : Bool) (hl : UInt16) (port : UInt8) (n : Nat)
    (b : Board Flat) (w : Transfer) :
    w.accesses down hl port (n + 1) b
      = w.accesses down hl port n b
        ++ [w.access (moved down hl n) port b] := by
  unfold accesses
  rw [List.range_succ, List.map_append, List.map_singleton]

/-- The second bytes of the transfers are those of the four that repeat. -/
theorem extended_opcode (w : Transfer) (down : Bool) :
    Decode.extended (w.opcode down) = .block w.op down true := by
  cases w <;> cases down <;> rfl

end Transfer

namespace Flat

section
variable {b : Board Flat}

/-- A port reads what was last written to it. -/
@[simp] theorem readPort_writePort (port v other : UInt8) :
    (b.writePort port v).readPort other
      = if port = other then v else b.readPort other :=
  Ports.latch_setLatch port other v b.decoder.ports

/-- A write to a port is none to memory. -/
@[simp] theorem memory_writePort (port v : UInt8) :
    (b.writePort port v).memory = b.memory := rfl

/-- A write to memory is none to a port. -/
theorem Fitted.readPort_poke (hb : Fitted b) (addr : UInt16)
    (v port : UInt8) : (b.poke addr v).readPort port = b.readPort port :=
  congrArg (Decoder.readPort · port)
    (Board.poke_decoder_of_ok (hb.plain.target_eq addr) v)

/-- What a round does is an access like any other. -/
theorem touch_access (w : Transfer) (addr : UInt16) (port : UInt8)
    (b c : Board Flat) : c.Touch ((w.access addr port b).act c) := by
  cases w with
  | input => exact .write addr _ c
  | output => exact .output port _ c

/-- What the rounds to come do with their bytes is not changed by a
round. -/
theorem Fitted.access_act (hb : Fitted b) (w : Transfer)
    (addr other : UInt16) (port : UInt8) (c : Board Flat) :
    w.access other port ((w.access addr port c).act b)
      = w.access other port b := by
  cases w with
  | input =>
    exact congrArg (BusCycle.write other) (hb.readPort_poke addr _ port)
  | output => rfl

end

/-- Whatever is done to the board, its memory keeps its form. -/
theorem Fitted.perform {b : Board Flat} (hb : Fitted b)
    (cycles : List BusCycle) : Fitted (b.perform cycles) := by
  induction cycles generalizing b with
  | nil => exact hb
  | cons x rest ih =>
    apply ih
    cases x with
    | read addr => exact hb.touch (.read addr b)
    | write addr v => exact hb.touch (.write addr v b)
    | input port => exact hb
    | output port v => exact hb.touch (.output port v b)

section
variable {b : Board Flat} (down : Bool) (hl : UInt16) (port : UInt8)

/-- A transfer to a port leaves memory as it is. -/
theorem memory_output (n : Nat) :
    (b.perform (Transfer.output.accesses down hl port n b)).memory
      = b.memory := by
  induction n with
  | zero => rfl
  | succ n ih =>
    rw [Transfer.accesses_succ, Board.perform_append]
    exact (memory_writePort _ _).trans ih

/-- The port keeps the last byte, and no other port is written. -/
theorem readPort_output (n : Nat) (other : UInt8) :
    (b.perform (Transfer.output.accesses down hl port (n + 1) b)).readPort
        other
      = if port = other then b.memory (moved down hl n)
        else b.readPort other := by
  induction n with
  | zero => exact readPort_writePort port _ other
  | succ n ih =>
    rw [Transfer.accesses_succ, Board.perform_append]
    show (Board.writePort port _ (_ : Board Flat)).readPort other = _
    rw [readPort_writePort, ih]
    split
    · rfl
    · rfl

/-- A transfer from a port leaves the ports as they are. -/
theorem readPort_input (hb : Fitted b) (n : Nat) (other : UInt8) :
    (b.perform (Transfer.input.accesses down hl port n b)).readPort other
      = b.readPort other := by
  induction n with
  | zero => rfl
  | succ n ih =>
    rw [Transfer.accesses_succ, Board.perform_append]
    exact ((hb.perform _).readPort_poke _ _ other).trans ih

/-- The addresses on the way hold what the port reads, and no other byte
changes. -/
theorem memory_input (hb : Fitted b) (n : Nat) (q : UInt16) :
    (b.perform (Transfer.input.accesses down hl port n b)).memory q
      = if ∃ i < n, moved down hl i = q then b.readPort port
        else b.memory q := by
  induction n with
  | zero => simp [Transfer.accesses]
  | succ n ih =>
    have hbefore := hb.perform (Transfer.input.accesses down hl port n b)
    have hpoked := hbefore.touch
      (.write (moved down hl n) (b.readPort port) _)
    rw [Transfer.accesses_succ, Board.perform_append]
    show (Board.poke _ _ (_ : Board Flat)).memory q = _
    rw [hbefore.plain.memory_poke hpoked.plain]
    by_cases hq : moved down hl n = q
    · have hreached : ∃ i < n + 1, moved down hl i = q :=
        ⟨n, Nat.lt_succ_self n, hq⟩
      rw [if_pos hreached, ← hq, Function.update_self]
    · have hsame : (∃ i < n + 1, moved down hl i = q)
          ↔ ∃ i < n, moved down hl i = q := by
        constructor
        · rintro ⟨i, hi, heq⟩
          rcases Nat.lt_succ_iff_lt_or_eq.1 hi with hlt | rfl
          · exact ⟨i, hlt, heq⟩
          · exact absurd heq hq
        · rintro ⟨i, hi, heq⟩
          exact ⟨i, Nat.lt_succ_of_lt hi, heq⟩
      rw [Function.update_of_ne (Ne.symm hq), ih]
      simp only [hsame]

end

-- ============================================================== rounds

theorem blockRound_transfer {s : Computer Flat} (hs : Fitted s.board)
    (w : Transfer) (down : Bool) (pc : UInt16) (refresh : UInt8) :
    Exec.blockRound w.op down (s.fetched pc refresh) =
      let r := s.cpu.regs
      (r.b - 1 != 0,
        { s with
          cpu.regs := (r.transferRound down).fetched pc refresh
          board := (w.access r.hl r.c s.board).act s.board }) := by
  cases w with
  | input => rfl
  | output =>
    have hround : Exec.blockRound .output down (s.fetched pc refresh) =
        let r := s.cpu.regs
        (r.b - 1 != 0,
          { s with
            cpu.regs := (r.transferRound down).fetched pc refresh
            board := (s.board.afterRead r.hl).writePort r.c
              (s.board.memory r.hl) }) := rfl
    dsimp only at hround
    rw [hs.afterRead_eq] at hround
    exact hround

/-- A step at the instruction is one round, and goes back to it unless B
has run out. -/
theorem step_transfer {s : Computer Flat} {w : Transfer} {down : Bool}
    (h : AtBlock (w.opcode down) s) :
    s.step.2 =
      let r := s.cpu.regs
      { cpu :=
          { s.cpu with
            regs := (r.transferRound down).fetched
              (if r.b - 1 != 0 then r.pc else r.pc + 2)
              (refreshed (refreshed r.r))
            eiDelay := false
            cost := s.cpu.cost + if r.b - 1 != 0 then 21 else 16 }
        board := (w.access r.hl r.c s.board).act s.board } :=
  h.step_eq (w.extended_opcode down) (blockRound_transfer h.fitted w down)

/-- What holds after a number of rounds. -/
structure Transferred (w : Transfer) (down : Bool) (s : Computer Flat)
    (i : Nat) (t : Computer Flat) : Prop where
  board : t.board = s.board.perform
    (w.accesses down s.cpu.regs.hl s.cpu.regs.c i s.board)
  idle : t.board.Idle
  /-- What the rounds to come do with their bytes is what they would have
  done with them at first. -/
  access (addr : UInt16) : w.access addr s.cpu.regs.c t.board
    = w.access addr s.cpu.regs.c s.board
  halted : t.cpu.halted = false
  undefinedCount : t.cpu.undefinedCount = s.cpu.undefinedCount
  kept : t.cpu.regs.keptByTransfer = s.cpu.regs.keptByTransfer
  hl : t.cpu.regs.hl = moved down s.cpu.regs.hl i
  b : t.cpu.regs.b = s.cpu.regs.b - UInt8.ofNat i
  /-- Two opcode bytes are fetched in every round. -/
  r : t.cpu.regs.r.toNat = 128 * (s.cpu.regs.r.toNat / 128)
    + (s.cpu.regs.r.toNat + 2 * i) % 128

section
variable {s t : Computer Flat} {w : Transfer} {down : Bool} {i : Nat}

/-- Before the first round nothing has been moved. -/
theorem Transferred.start (hidle : s.board.Idle)
    (hhalted : s.cpu.halted = false) : Transferred w down s 0 s := by
  refine ⟨rfl, hidle, fun _ => rfl, hhalted, rfl, rfl, ?_, ?_, ?_⟩
  · exact (moved_zero down _).symm
  · exact (UInt8.sub_zero _).symm
  · have hr := s.cpu.regs.r.toNat_lt
    omega

/-- The port is the same in every round. -/
theorem Transferred.c_eq (h : Transferred w down s i t) :
    t.cpu.regs.c = s.cpu.regs.c := by
  show t.cpu.regs.keptByTransfer.c = s.cpu.regs.keptByTransfer.c
  rw [h.kept]

theorem Transferred.access_next (h : Transferred w down s i t) :
    w.access t.cpu.regs.hl t.cpu.regs.c t.board
      = w.access (moved down s.cpu.regs.hl i) s.cpu.regs.c s.board := by
  rw [h.hl, h.c_eq]
  exact h.access _

/-- One more round, if the program counter is on the instruction. -/
theorem Transferred.round (h : Transferred w down s i t)
    (ht : AtBlock (w.opcode down) t) :
    Transferred w down s (i + 1) t.step.2 := by
  have htouch := touch_access w t.cpu.regs.hl t.cpu.regs.c t.board t.board
  rw [step_transfer ht]
  dsimp only
  constructor
  · rw [h.access_next, Transfer.accesses_succ, Board.perform_append,
      ← h.board]
    rfl
  · exact h.idle.of_signals_eq htouch.signals_eq
  · intro addr
    rw [h.c_eq, ht.fitted.access_act, h.access]
  · exact h.halted
  · exact h.undefinedCount
  · dsimp only
    rw [Registers.keptByTransfer_fetched,
      Registers.keptByTransfer_transferRound]
    exact h.kept
  · dsimp only
    rw [Registers.fetched_hl, Registers.transferRound_hl, h.hl]
    exact advance_moved down s.cpu.regs.hl i
  · show t.cpu.regs.b - 1 = _
    rw [h.b]
    exact sub_transferred_succ s.cpu.regs.b i
  · dsimp only
    rw [Registers.fetched_r, toNat_refreshed, toNat_refreshed, h.r]
    omega

/-- The next round is the last one if it counts B down to zero. -/
theorem Transferred.last_iff (h : Transferred w down s i t)
    (hi : i < transferCount s.cpu.regs.b) :
    t.cpu.regs.b - 1 = 0 ↔ i + 1 = transferCount s.cpu.regs.b := by
  rw [h.b, sub_transferred_succ]
  exact sub_transferred_eq_zero_iff (Nat.succ_pos i) hi

/-- The instruction is there for the next round, if no round before it
has stored another byte in its place. -/
theorem Transferred.atBlock (h : Transferred w down s i t)
    {opcode : UInt8} (hs : AtBlock opcode s)
    (hkeeps : w = .input → ∀ j < i, ∀ q,
      q = s.cpu.regs.pc ∨ q = s.cpu.regs.pc + 1 →
      moved down s.cpu.regs.hl j = q →
      s.board.readPort s.cpu.regs.c = s.board.memory q)
    (hpc : t.cpu.regs.pc = s.cpu.regs.pc) : AtBlock opcode t := by
  have hthere : ∀ q, q = s.cpu.regs.pc ∨ q = s.cpu.regs.pc + 1 →
      t.board.memory q = s.board.memory q := by
    intro q hq
    rw [h.board]
    cases w with
    | output => rw [memory_output]
    | input =>
      rw [memory_input _ _ _ hs.fitted]
      split
      · next hreached =>
        obtain ⟨j, hj, heq⟩ := hreached
        exact hkeeps rfl j hj q hq heq
      · rfl
  constructor
  · rw [h.board]
    exact hs.fitted.perform _
  · exact h.idle
  · exact h.halted
  · rw [hpc, hthere _ (.inl rfl)]
    exact hs.lead
  · rw [hpc, hthere _ (.inr rfl)]
    exact hs.opcode

/-- The instruction of a transfer stays as it is until the last round. -/
def KeepsInstruction (w : Transfer) (down : Bool) (s : Computer Flat) :
    Prop :=
  w = .input → ∀ i, i + 1 < transferCount s.cpu.regs.b → ∀ q,
    q = s.cpu.regs.pc ∨ q = s.cpu.regs.pc + 1 →
    moved down s.cpu.regs.hl i = q →
    s.board.readPort s.cpu.regs.c = s.board.memory q

/-- While bytes remain the program counter is on the instruction, and a
round takes 21 T-states. -/
theorem transferred_steps (hs : AtBlock (w.opcode down) s)
    (hkeeps : KeepsInstruction w down s) :
    ∀ i < transferCount s.cpu.regs.b,
      (AtBlock (w.opcode down) (s.steps i)
        ∧ Transferred w down s i (s.steps i))
      ∧ (s.steps i).cpu.regs.pc = s.cpu.regs.pc
      ∧ (s.steps i).cpu.cost = s.cpu.cost + 21 * i := by
  intro i hi
  refine Computer.rounds
    (P := fun i t => AtBlock (w.opcode down) t ∧ Transferred w down s i t)
    ⟨hs, .start hs.idle hs.running⟩ ?_ i (Nat.le_sub_one_of_lt hi)
  rintro i hi t ⟨hat, ht⟩ hpc
  have hmore : (t.cpu.regs.b - 1 != 0) = true := by
    rw [bne_iff_ne, Ne, ht.last_iff (by omega)]
    omega
  have hback : t.step.2.cpu.regs.pc = t.cpu.regs.pc := by
    rw [step_transfer hat]
    dsimp only
    rw [Registers.fetched_pc, if_pos hmore]
  have hround := ht.round hat
  refine ⟨⟨hround.atBlock hs ?_ (hback.trans hpc), hround⟩, hback, ?_⟩
  · exact fun hw j hj => hkeeps hw j (by omega)
  · rw [step_transfer hat]
    dsimp only
    rw [if_pos hmore]

-- =============================================================== trace

/-- The bus cycles of an instruction of the extended page. -/
theorem cycles_extended {s : Computer Flat} (hs : Fitted s.board)
    (hidle : s.board.Idle) (hhalted : s.cpu.halted = false)
    (hlead : s.board.memory s.cpu.regs.pc = 0xED) :
    let op := s.board.memory (s.cpu.regs.pc + 1)
    s.cycles = .read s.cpu.regs.pc :: .read (s.cpu.regs.pc + 1)
      :: (Decode.extended op).cycles
        (s.fetched (s.cpu.regs.pc + 2)
          (refreshed (refreshed s.cpu.regs.r))) := by
  obtain ⟨hfirst, hsecond⟩ := fetchOpcode_extended hs hlead
  unfold Computer.cycles Computer.instructCycles
  rw [Computer.interrupt?_of_idle hidle, hhalted, hfirst]
  dsimp only
  rw [if_neg Bool.false_ne_true, List.append_nil]
  show BusCycle.read _ :: BusCycle.read _ :: (Decode.extended
    (Exec.fetchOpcode _).1).cycles (Exec.fetchOpcode _).2 = _
  rw [hsecond]
  rfl

/-- Both bytes of the instruction are fetched, then the byte is got hold
of, and then it is stored. -/
theorem cycles_transfer (h : AtBlock (w.opcode down) s) :
    s.cycles =
      let r := s.cpu.regs
      [.read r.pc, .read (r.pc + 1), w.source r.hl r.c,
        w.access r.hl r.c s.board] := by
  rw [cycles_extended h.fitted h.idle h.running h.lead, h.opcode,
    w.extended_opcode]
  cases w <;> rfl

/-- What the rounds store, and in which order. -/
theorem trace_transfer (hs : AtBlock (w.opcode down) s)
    (hkeeps : KeepsInstruction w down s) :
    ∀ i ≤ transferCount s.cpu.regs.b,
      (s.trace i).filter BusCycle.stores
        = w.accesses down s.cpu.regs.hl s.cpu.regs.c i s.board := by
  intro i hi
  induction i with
  | zero => rfl
  | succ i ih =>
    obtain ⟨⟨hat, ht⟩, -⟩ := transferred_steps hs hkeeps i (by omega)
    have hround : (s.steps i).cycles.filter BusCycle.stores
        = [w.access (moved down s.cpu.regs.hl i) s.cpu.regs.c s.board] := by
      rw [cycles_transfer hat, ← ht.access_next]
      cases w <;> rfl
    rw [Computer.trace_succ, List.filter_append, ih (by omega), hround,
      Transfer.accesses_succ]

end

-- =========================================================== transfers

/-- A transfer that has ended. -/
structure TransferEnded (w : Transfer) (down : Bool) (s t : Computer Flat) :
    Prop extends
    Transferred w down s (transferCount s.cpu.regs.b) t where
  pc : t.cpu.regs.pc = s.cpu.regs.pc + 2
  cost : t.cpu.cost
    = s.cpu.cost + (21 * (transferCount s.cpu.regs.b - 1) + 16)
  b_zero : t.cpu.regs.b = 0
  c : t.cpu.regs.c = s.cpu.regs.c
  f : t.cpu.regs.f =
    { s := false, z := true, h := false, pv := false, n := true
      c := s.cpu.regs.f.c }

/-- The round that counts B down to zero is the last one. -/
theorem transfer_ends {s : Computer Flat} {w : Transfer} {down : Bool}
    (hs : AtBlock (w.opcode down) s)
    (hkeeps : KeepsInstruction w down s) :
    TransferEnded w down s (s.steps (transferCount s.cpu.regs.b)) := by
  have hpos := transferCount_pos s.cpu.regs.b
  obtain ⟨last, hlast⟩ : ∃ last, transferCount s.cpu.regs.b = last + 1 :=
    ⟨transferCount s.cpu.regs.b - 1, by omega⟩
  obtain ⟨⟨hat, hbefore⟩, hpc, hcost⟩ :=
    transferred_steps hs hkeeps last (by omega)
  have hdone : (s.steps last).cpu.regs.b - 1 = 0 :=
    (hbefore.last_iff (by omega)).2 hlast.symm
  have hstop : ((s.steps last).cpu.regs.b - 1 != 0) = false := by
    rw [hdone]
    rfl
  have hstep := step_transfer hat
  have hafter := hbefore.round hat
  have hcarry : (s.steps last).cpu.regs.f.c = s.cpu.regs.f.c := by
    show (s.steps last).cpu.regs.keptByTransfer.f.c
      = s.cpu.regs.keptByTransfer.f.c
    rw [hbefore.kept]
  rw [hlast, Computer.steps_succ]
  refine ⟨hlast ▸ hafter, ?_, ?_, ?_, hafter.c_eq, ?_⟩
  · rw [hstep]
    dsimp only
    rw [hstop, Registers.fetched_pc, if_neg Bool.false_ne_true, hpc]
  · rw [hstep]
    dsimp only
    rw [hstop, if_neg Bool.false_ne_true, hcost, hlast]
    omega
  · rw [hstep]
    exact hdone
  · rw [hstep]
    show portFlags ((s.steps last).cpu.regs.b - 1) _ = _
    rw [hdone, ← hcarry]
    rfl

/-- A repeating transfer moves as many bytes as B tells, one after the
other, and does nothing else. -/
theorem transfers_in_sequence {s : Computer Flat} {w : Transfer}
    {down : Bool} (hs : AtBlock (w.opcode down) s)
    (hkeeps : KeepsInstruction w down s) :
    let n := transferCount s.cpu.regs.b
    let t := s.steps n
    let addr := moved down s.cpu.regs.hl
    let port := s.cpu.regs.c
    (∀ i < n, (s.steps i).cpu.regs.pc = s.cpu.regs.pc)
    ∧ TransferEnded w down s t
    ∧ (w = .output →
      (s.trace n).filter BusCycle.stores = (List.range n).map
          (fun i => .output port (s.board.memory (addr i)))
        ∧ t.board.memory = s.board.memory
        ∧ ∀ q, t.board.readPort q
          = if port = q then s.board.memory (addr (n - 1))
            else s.board.readPort q)
    ∧ (w = .input →
      (s.trace n).filter BusCycle.stores = (List.range n).map
          (fun i => .write (addr i) (s.board.readPort port))
        ∧ (∀ q, t.board.memory q
          = if ∃ i < n, addr i = q then s.board.readPort port
            else s.board.memory q)
        ∧ ∀ q, t.board.readPort q = s.board.readPort q) := by
  intro n t addr port
  have hrounds := transferred_steps hs hkeeps
  have htrace := trace_transfer hs hkeeps n (Nat.le_refl n)
  have hended : TransferEnded w down s t := transfer_ends hs hkeeps
  refine ⟨fun i hi => (hrounds i hi).2.1, hended, ?_, ?_⟩
  · rintro rfl
    obtain ⟨last, hlast⟩ : ∃ last, n = last + 1 :=
      ⟨n - 1, by have := transferCount_pos s.cpu.regs.b; omega⟩
    refine ⟨htrace, ?_, fun q => ?_⟩
    · rw [hended.board, memory_output]
    · have hboard := hended.board
      rw [show transferCount s.cpu.regs.b = last + 1 from hlast] at hboard
      rw [hboard, readPort_output, hlast]
      rfl
  · rintro rfl
    refine ⟨htrace, fun q => ?_, fun q => ?_⟩
    · rw [hended.board, memory_input _ _ _ hs.fitted]
    · rw [hended.board, readPort_input _ _ _ hs.fitted]

/-- Two bytes from a port that was never written. -/
def receiving : Computer Flat where
  cpu.regs := { Registers.powerOn with b := 2, c := 5, h := 0x10, l := 0x00 }
  board := holding [(0, 0xED), (1, 0xB2)] board

theorem receiving_board :
    receiving.board = holding [(0, 0xED), (1, 0xB2)] board := by
  unfold receiving
  dsimp only

theorem receiving_atBlock :
    AtBlock (Transfer.input.opcode false) receiving := by
  have hidle : board.Idle := ⟨rfl, rfl⟩
  obtain ⟨hfitted, hsignals, hmemory⟩ :=
    fitted_board.holding [(0, 0xED), (1, 0xB2)]
  rw [← receiving_board] at hfitted hsignals hmemory
  refine ⟨hfitted, hidle.of_signals_eq hsignals, rfl, ?_, ?_⟩
  · rw [hmemory]
    simp [Function.update, receiving, Registers.powerOn]
  · rw [hmemory]
    simp [Function.update, receiving, Registers.powerOn, Transfer.opcode]

/-- Both bytes arrive. -/
theorem transfers_in_sequence_receiving :
    AtBlock (Transfer.input.opcode false) receiving
      ∧ KeepsInstruction .input false receiving
      ∧ (receiving.steps 1).cpu.regs.pc = 0
      ∧ (receiving.steps 2).cpu.regs.pc = 2
      ∧ (receiving.steps 2).cpu.cost = 37
      ∧ (receiving.steps 2).cpu.regs.b = 0
      ∧ (receiving.steps 2).board.memory 0x1000
        = receiving.board.readPort 5
      ∧ (receiving.steps 2).board.memory 0x1001
        = receiving.board.readPort 5 := by
  have hcount : transferCount receiving.cpu.regs.b = 2 := by decide
  have hkeeps : KeepsInstruction .input false receiving := by
    intro _ i hi q hq haddr
    rw [hcount] at hi
    obtain rfl : i = 0 := by omega
    rcases hq with rfl | rfl <;> exact absurd haddr (by decide)
  obtain ⟨hback, hended, -, hinput⟩ :=
    transfers_in_sequence receiving_atBlock hkeeps
  have hcost := hended.cost
  rw [hcount] at hback hended hcost hinput
  obtain ⟨-, hmemory, -⟩ := hinput rfl
  refine ⟨receiving_atBlock, hkeeps, hback 1 (by decide), hended.pc, hcost,
    hended.b_zero, ?_, ?_⟩
  · rw [hmemory, if_pos ⟨0, by decide, by decide⟩]
    rfl
  · rw [hmemory, if_pos ⟨1, by decide, by decide⟩]
    rfl

end Flat
end HomeZ80
