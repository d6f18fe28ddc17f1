/-
One round of a repeating block instruction, on the flat board. Both bytes
of the instruction are fetched before its round. If another round
follows, the program counter then goes back over both of them, so that
the next step carries it out (`Flat.instruct_block`). What holds after
any number of such rounds is told by one induction over them
(`Computer.rounds`).

Two of these instructions go through memory alone (`Sweep`): a byte is
read at HL, and a copy stores it at DE while a search compares it with
the accumulator. What becomes of the registers is told by them and by
that byte (`Sweep.round`).
-/
import HomeZ80.Proofs.Cpu.Fetch

namespace HomeZ80

open Exec (advance blockFlags)

-- ============================================================== rounds

/-- The program counter goes back over the instruction if another round
follows. -/
theorem Exec.execute_block {μ : Type} [Decoder μ] (op : BlockOp)
    (down : Bool) (s : Computer μ) :
    execute (.block op down true) s =
      let done := blockRound op down s
      if done.1 then
        (13, { done.2 with cpu.regs.pc := done.2.cpu.regs.pc - 2 })
      else
        (8, done.2) := by
  simp only [execute, Bool.true_and]
  rw [bind_apply]
  split <;> rfl

/-- Both bytes of the instruction are fetched before its round. -/
theorem Flat.instruct_block {s : Computer Flat} {op : BlockOp}
    {down again : Bool} {r : Registers} {b : Board Flat}
    (hs : Fitted s.board) (hhalted : s.cpu.halted = false)
    (hlead : s.board.memory s.cpu.regs.pc = 0xED)
    (hopcode : Decode.extended (s.board.memory (s.cpu.regs.pc + 1))
      = .block op down true)
    (hround : ∀ pc refresh,
      Exec.blockRound op down (s.fetched pc refresh) =
        (again, { s with
          cpu.regs := r.fetched pc refresh
          board := b })) :
    Exec.instruct s =
      (if again then 21 else 16,
        { s with
          cpu.regs := r.fetched
            (if again then s.cpu.regs.pc else s.cpu.regs.pc + 2)
            (refreshed (refreshed s.cpu.regs.r))
          board := b }) := by
  have hback : s.cpu.regs.pc + 2 - 2 = s.cpu.regs.pc := by grind
  rw [instruct_extended hs hhalted hlead]
  dsimp only
  rw [hopcode, Exec.execute_block, hround]
  cases again with
  | true =>
    simp only [if_true, Registers.fetched_pc, hback]
    rfl
  | false => rfl

/-- A computer that is about to carry out a round of a block instruction,
which is given by its second byte. -/
structure Flat.AtBlock (opcode : UInt8) (s : Computer Flat) : Prop where
  fitted : Fitted s.board
  idle : s.board.Idle
  running : s.cpu.halted = false
  lead : s.board.memory s.cpu.regs.pc = 0xED
  opcode : s.board.memory (s.cpu.regs.pc + 1) = opcode

/-- With idle lines a round is a step. -/
theorem Flat.AtBlock.step_eq {opcode : UInt8} {s : Computer Flat}
    {op : BlockOp} {down again : Bool} {r : Registers} {b : Board Flat}
    (h : AtBlock opcode s)
    (hopcode : Decode.extended opcode = .block op down true)
    (hround : ∀ pc refresh,
      Exec.blockRound op down (s.fetched pc refresh) =
        (again, { s with
          cpu.regs := r.fetched pc refresh
          board := b })) :
    s.step.2 =
      { cpu :=
          { s.cpu with
            regs := r.fetched
              (if again then s.cpu.regs.pc else s.cpu.regs.pc + 2)
              (refreshed (refreshed s.cpu.regs.r))
            eiDelay := false
            cost := s.cpu.cost + if again then 21 else 16 }
        board := b } := by
  rw [← h.opcode] at hopcode
  show (Exec.step s).2 = _
  rw [Exec.step_of_idle h.idle]
  unfold Computer.atBoundary
  rw [instruct_block h.fitted h.running h.lead hopcode hround]

/-- Rounds that each end with the program counter back on the
instruction, after 21 T-states: what one round carries on holds after
any number of them. -/
theorem Computer.rounds {μ : Type} [Decoder μ] {s : Computer μ} {n : Nat}
    {P : Nat → Computer μ → Prop} (hstart : P 0 s)
    (hround : ∀ i < n, ∀ t, P i t → t.cpu.regs.pc = s.cpu.regs.pc →
      P (i + 1) t.step.2
        ∧ t.step.2.cpu.regs.pc = t.cpu.regs.pc
        ∧ t.step.2.cpu.cost = t.cpu.cost + 21) :
    ∀ i ≤ n, P i (s.steps i)
      ∧ (s.steps i).cpu.regs.pc = s.cpu.regs.pc
      ∧ (s.steps i).cpu.cost = s.cpu.cost + 21 * i := by
  intro i hi
  induction i with
  | zero => exact ⟨hstart, rfl, rfl⟩
  | succ i ih =>
    obtain ⟨hbefore, hpc, hcost⟩ := ih (by omega)
    obtain ⟨hafter, hback, hspent⟩ := hround i (by omega) _ hbefore hpc
    rw [steps_succ]
    refine ⟨hafter, hback.trans hpc, ?_⟩
    rw [hspent, hcost]
    omega

-- =========================================================== registers

namespace Registers

def copyRound (down : Bool) (v : UInt8) (r : Registers) : Registers :=
  { ((r.setHl (advance down r.hl)).setDe (advance down r.de)).setBc
      (r.bc - 1) with
    f := { blockFlags (v + r.a) (r.bc - 1) r.f with
      h := false, n := false } }

def compareRound (down : Bool) (v : UInt8) (r : Registers) : Registers :=
  let (result, f) := Alu.sub8 r.a v false
  { (r.setHl (advance down r.hl)).setBc (r.bc - 1) with
    f := blockFlags (if f.h then result - 1 else result) (r.bc - 1)
      { f with c := r.f.c } }

section
variable (s : Registers) (down : Bool) (v : UInt8)

@[simp] theorem copyRound_hl :
    (s.copyRound down v).hl = advance down s.hl :=
  word_hiByte_loByte _

@[simp] theorem copyRound_de :
    (s.copyRound down v).de = advance down s.de :=
  word_hiByte_loByte _

@[simp] theorem copyRound_bc : (s.copyRound down v).bc = s.bc - 1 :=
  word_hiByte_loByte _

@[simp] theorem compareRound_hl :
    (s.compareRound down v).hl = advance down s.hl :=
  word_hiByte_loByte _

@[simp] theorem compareRound_bc :
    (s.compareRound down v).bc = s.bc - 1 :=
  word_hiByte_loByte _

end
end Registers

-- ============================================================== sweeps

/-- What a sweep through memory does at each byte. -/
inductive Sweep where
  | copy
  /-- Until a byte equals the accumulator. -/
  | compare
  deriving DecidableEq, Repr

/-- The two-byte instruction that copies until BC is zero. -/
def copyOpcode (down : Bool) : UInt8 := if down then 0xB8 else 0xB0

namespace Sweep

def op : Sweep → BlockOp
  | copy => .copy
  | compare => .compare

/-- The second byte of the repeating instruction. -/
def opcode (down : Bool) : Sweep → UInt8
  | copy => copyOpcode down
  | compare => if down then 0xB9 else 0xB1

/-- The registers after a round at which the byte `v` was read. -/
def round (down : Bool) (v : UInt8) (r : Registers) : Sweep → Registers
  | copy => r.copyRound down v
  | compare => r.compareRound down v

/-- Whether another round follows. -/
def goesOn (v : UInt8) (r : Registers) : Sweep → Bool
  | copy => r.bc - 1 != 0
  | compare => r.bc - 1 != 0 && !(Alu.sub8 r.a v false).2.z

/-- The board after a round. -/
def stored (addr : UInt16) (v : UInt8) (b : Board Flat) :
    Sweep → Board Flat
  | copy => b.poke addr v
  | compare => b

/-- The second bytes of the sweeps are those of the copies and searches
that repeat. -/
theorem extended_opcode (w : Sweep) (down : Bool) :
    Decode.extended (w.opcode down) = .block w.op down true := by
  cases w <;> cases down <;> rfl

section
variable (w : Sweep) (down : Bool) (v : UInt8) (r : Registers)

@[simp] theorem round_hl : (w.round down v r).hl = advance down r.hl := by
  cases w
  · exact r.copyRound_hl down v
  · exact r.compareRound_hl down v

@[simp] theorem round_bc : (w.round down v r).bc = r.bc - 1 := by
  cases w
  · exact r.copyRound_bc down v
  · exact r.compareRound_bc down v

@[simp] theorem round_sp : (w.round down v r).sp = r.sp := by
  cases w <;> rfl

/-- A round has no part in what the fetches do. -/
@[simp] theorem round_fetched (pc : UInt16) (refresh : UInt8) :
    w.round down v (r.fetched pc refresh)
      = (w.round down v r).fetched pc refresh := by
  cases w <;> rfl

/-- Whether there is another round does not depend on the fetches. -/
@[simp] theorem goesOn_fetched (pc : UInt16) (refresh : UInt8) :
    w.goesOn v (r.fetched pc refresh) = w.goesOn v r := by
  cases w <;> rfl

end
end Sweep

namespace Flat

/-- A copy stores its byte, a search stores nothing. -/
theorem Fitted.stored {b : Board Flat} (hb : Fitted b) (w : Sweep)
    (addr : UInt16) (v : UInt8) : Fitted (w.stored addr v b) := by
  cases w with
  | copy => exact hb.touch (.write addr v b)
  | compare => exact hb

/-- A round reads the byte at HL and, if it copies, stores it at DE. -/
theorem blockRound_sweep {s : Computer Flat} (hs : Fitted s.board)
    (w : Sweep) (down : Bool) (pc : UInt16) (refresh : UInt8) :
    Exec.blockRound w.op down (s.fetched pc refresh) =
      let v := s.board.memory s.cpu.regs.hl
      let r := s.cpu.regs
      (w.goesOn v r,
        { s with
          cpu.regs := (w.round down v r).fetched pc refresh
          board := w.stored r.de v s.board }) := by
  have hround : Exec.blockRound w.op down (s.fetched pc refresh) =
      let v := s.board.memory s.cpu.regs.hl
      let r := s.cpu.regs.fetched pc refresh
      (w.goesOn v r,
        { s with
          cpu.regs := w.round down v r
          board := w.stored r.de v (s.board.afterRead r.hl) }) := by
    cases w <;> rfl
  rw [hround]
  simp only [Sweep.goesOn_fetched, Sweep.round_fetched,
    Registers.fetched_hl, Registers.fetched_de, hs.afterRead_eq]

/-- A sweep is carried out as its round tells. -/
theorem instruct_sweep {s : Computer Flat} {w : Sweep} {down : Bool}
    (hs : Fitted s.board) (hhalted : s.cpu.halted = false)
    (hlead : s.board.memory s.cpu.regs.pc = 0xED)
    (hopcode : s.board.memory (s.cpu.regs.pc + 1) = w.opcode down) :
    Exec.instruct s =
      let v := s.board.memory s.cpu.regs.hl
      let r := s.cpu.regs
      (if w.goesOn v r then 21 else 16,
        { s with
          cpu.regs := (w.round down v r).fetched
            (if w.goesOn v r then r.pc else r.pc + 2)
            (refreshed (refreshed r.r))
          board := w.stored r.de v s.board }) := by
  have hextended := w.extended_opcode down
  rw [← hopcode] at hextended
  exact instruct_block hs hhalted hlead hextended
    (blockRound_sweep hs w down)

theorem step_sweep {s : Computer Flat} {w : Sweep} {down : Bool}
    (h : AtBlock (w.opcode down) s) :
    s.step.2 =
      let v := s.board.memory s.cpu.regs.hl
      let r := s.cpu.regs
      { cpu :=
          { s.cpu with
            regs := (w.round down v r).fetched
              (if w.goesOn v r then r.pc else r.pc + 2)
              (refreshed (refreshed r.r))
            eiDelay := false
            cost := s.cpu.cost + if w.goesOn v r then 21 else 16 }
        board := w.stored r.de v s.board } :=
  h.step_eq (w.extended_opcode down) (blockRound_sweep h.fitted w down)

/-- Boards that agree somewhere still do after the same byte was
stored. -/
theorem memory_stored {b c : Board Flat} (hb : Fitted b) (hc : Fitted c)
    {other : UInt16} (h : c.memory other = b.memory other) (w : Sweep)
    (addr : UInt16) (v : UInt8) :
    (w.stored addr v c).memory other = (w.stored addr v b).memory other := by
  cases w with
  | compare => exact h
  | copy =>
    have hb' := (hb.stored .copy addr v).plain
    have hc' := (hc.stored .copy addr v).plain
    show (c.poke addr v).memory other = (b.poke addr v).memory other
    rw [hb.plain.memory_poke hb', hc.plain.memory_poke hc']
    by_cases heq : other = addr
    · rw [heq, Function.update_self, Function.update_self]
    · rw [Function.update_of_ne heq, Function.update_of_ne heq, h]

end Flat

-- ============================================================== copies

namespace Registers

/-- The registers that a copy leaves as they are: all but the pairs that
it counts with, the program counter, the refresh register and the flags
other than S, Z and C. -/
def keptByCopy (s : Registers) : Registers :=
  { s with
    f := { s := s.f.s, z := s.f.z, c := s.f.c }
    b := 0, c := 0, d := 0, e := 0, h := 0, l := 0, pc := 0, r := 0 }

@[simp] theorem keptByCopy_fetched (pc : UInt16) (r : UInt8)
    (s : Registers) : (s.fetched pc r).keptByCopy = s.keptByCopy := rfl

/-- A round changes no more than a copy may change. -/
@[simp] theorem keptByCopy_copyRound (down : Bool) (v : UInt8)
    (s : Registers) :
    (s.copyRound down v).keptByCopy = s.keptByCopy := rfl

end Registers

namespace Flat

/-- A step at the instruction copies one byte, and goes back to it unless
BC has run out. -/
theorem step_copy {s : Computer Flat} {down : Bool} (hs : Fitted s.board)
    (hidle : s.board.Idle) (hhalted : s.cpu.halted = false)
    (hlead : s.board.memory s.cpu.regs.pc = 0xED)
    (hopcode : s.board.memory (s.cpu.regs.pc + 1) = copyOpcode down) :
    s.step.2 =
      let v := s.board.memory s.cpu.regs.hl
      let r := s.cpu.regs
      { cpu :=
          { s.cpu with
            regs := (r.copyRound down v).fetched
              (if r.bc - 1 = 0 then r.pc + 2 else r.pc)
              (refreshed (refreshed r.r))
            eiDelay := false
            cost := s.cpu.cost + if r.bc - 1 = 0 then 16 else 21 }
        board := s.board.poke r.de v } := by
  have hstep := step_sweep (w := .copy)
    ⟨hs, hidle, hhalted, hlead, hopcode⟩
  by_cases hbc : s.cpu.regs.bc - 1 = 0
  · have hlast : Sweep.copy.goesOn (s.board.memory s.cpu.regs.hl)
        s.cpu.regs = false := by simp [Sweep.goesOn, hbc]
    rw [hstep]
    simp only [hlast, hbc, if_true]
    rfl
  · have hmore : Sweep.copy.goesOn (s.board.memory s.cpu.regs.hl)
        s.cpu.regs = true := by simp [Sweep.goesOn, hbc]
    rw [hstep]
    simp only [hmore, hbc, if_false, if_true]
    rfl

end Flat
end HomeZ80
