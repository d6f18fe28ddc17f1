/-
Interrupting a sweep through memory is transparent. Two runs are
compared, of which one is left alone, while the other is interrupted by
any number of non-maskable interrupts after any of its rounds. The
handler does nothing but return, after which it may at once be
interrupted again.

All that a sweep works with is in registers and in memory, and its
program counter is back on the instruction after each round but the
last. So the interrupted computer agrees with the other one whenever the
handler has returned (`Flat.Resumed`): the entry has spoiled the two
bytes below the stack pointer, R has counted further, and the second
flip-flop holds what the first one does. While the handler is running the
stack holds the way back (`Flat.Serving`). A round, an entry and a return
each lead from one of these to one of these, and the runs are compared
by induction over the rounds (`Flat.nmi_transparent`).
-/
import HomeZ80.Proofs.Interrupt.Sweep
import Mathlib.Algebra.GroupWithZero.Nat

namespace HomeZ80

open Computer (stepAfter)

namespace Registers

/-- The registers with other values in R and in the second flip-flop. -/
def marked (r : UInt8) (iff2 : Bool) (s : Registers) : Registers :=
  { s with r, iff2 }

/-- R and the second flip-flop have no part in a round. -/
theorem round_marked (w : Sweep) (down : Bool) (v r : UInt8)
    (iff2 : Bool) (s : Registers) :
    w.round down v (s.marked r iff2) = (w.round down v s).marked r iff2 := by
  cases w <;> rfl

/-- They have none in whether there is another round. -/
theorem goesOn_marked (w : Sweep) (v r : UInt8) (iff2 : Bool)
    (s : Registers) : w.goesOn v (s.marked r iff2) = w.goesOn v s := by
  cases w <;> rfl

end Registers

namespace Flat

-- ==================================================== the two computers

/-- What holds between the computer that is left alone, `u`, and the one
that is interrupted, when the handler has returned: after a round, or
after so many interrupts that have been served. -/
structure Beside (served : Nat) (u t : Computer Flat) : Prop where
  fitted : Fitted t.board
  running : t.cpu.halted = false
  regs : t.cpu.regs = u.cpu.regs.marked t.cpu.regs.r
    (if served = 0 then u.cpu.regs.iff2 else u.cpu.regs.iff1)
  memory : ∀ addr, OffStack u addr →
    t.board.memory addr = u.board.memory addr

/-- What holds at the start of the handler. The stack holds the way
back. -/
structure InHandler (u t : Computer Flat) : Prop where
  fitted : Fitted t.board
  running : t.cpu.halted = false
  regs : t.cpu.regs = { u.cpu.regs.marked t.cpu.regs.r u.cpu.regs.iff1 with
    iff1 := false, pc := Entry.nmiTarget, sp := u.cpu.regs.sp - 2 }
  memory : ∀ addr, OffStack u addr →
    t.board.memory addr = u.board.memory addr
  back : word (t.board.memory (u.cpu.regs.sp - 1))
    (t.board.memory (u.cpu.regs.sp - 2)) = u.cpu.regs.pc

section
variable {w : Sweep} {down : Bool} {u t : Computer Flat} {served : Nat}

/-- The same round in both computers, whatever the lines of the second
one are. -/
theorem Beside.round (h : Beside served u t) (hu : AtSweep w down u)
    (hsource : OffStack u u.cpu.regs.hl) :
    Beside served u.step.2 (Exec.instruct t).2
      ∧ u.step.2.cpu.cost = u.cpu.cost + (Exec.instruct t).1
      ∧ (Exec.instruct t).2.cpu.cost = t.cpu.cost := by
  -- all that the round looks at is the same in both: the registers but R
  -- and the flip-flop, and three bytes that are not on the stack
  have hpc : t.cpu.regs.pc = u.cpu.regs.pc := by rw [h.regs]; rfl
  have hhl : t.cpu.regs.hl = u.cpu.regs.hl := by rw [h.regs]; rfl
  have hde : t.cpu.regs.de = u.cpu.regs.de := by rw [h.regs]; rfl
  have hv : t.board.memory t.cpu.regs.hl = u.board.memory u.cpu.regs.hl := by
    rw [hhl]
    exact h.memory _ hsource
  have hlead : t.board.memory t.cpu.regs.pc = 0xED := by
    rw [hpc, h.memory _ hu.offLead]
    exact hu.lead
  have hopcode : t.board.memory (t.cpu.regs.pc + 1) = w.opcode down := by
    rw [hpc, h.memory _ hu.offOpcode]
    exact hu.opcode
  have hagain (v : UInt8) :
      w.goesOn v t.cpu.regs = w.goesOn v u.cpu.regs := by
    rw [h.regs]
    exact Registers.goesOn_marked w v _ _ _
  have hround (v : UInt8) : w.round down v t.cpu.regs
      = (w.round down v u.cpu.regs).marked t.cpu.regs.r
        (if served = 0 then u.cpu.regs.iff2 else u.cpu.regs.iff1) := by
    rw [h.regs]
    exact Registers.round_marked w down v _ _ _
  rw [hu.step_eq, instruct_sweep h.fitted h.running hlead hopcode, hv]
  dsimp only
  rw [hagain, hround, hde, hpc]
  refine ⟨⟨h.fitted.stored w _ _, h.running, ?_, fun addr hoff => ?_⟩,
    rfl, rfl⟩
  · cases w <;> rfl
  · have hoff : OffStack u addr := by
      unfold OffStack at hoff
      cases w <;> exact hoff
    exact memory_stored hu.fitted h.fitted (h.memory addr hoff) w _ _

/-- The entry leaves the way back on the stack. -/
theorem Beside.entry (h : Beside served u t) :
    InHandler u (Exec.enterNmi t).2 ∧ (Exec.enterNmi t).1 = 11
      ∧ (Exec.enterNmi t).2.cpu.cost = t.cpu.cost := by
  have hsp : t.cpu.regs.sp = u.cpu.regs.sp := by rw [h.regs]; rfl
  have hpc : t.cpu.regs.pc = u.cpu.regs.pc := by rw [h.regs]; rfl
  have hiff : t.cpu.regs.iff1 = u.cpu.regs.iff1 := by rw [h.regs]; rfl
  have hlow : Fitted (t.board.onLines (·.clearNmi)) := h.fitted
  obtain ⟨hfitted, hmemory⟩ :=
    hlow.pokeWord (u.cpu.regs.sp - 2) u.cpu.regs.pc
  have hnext : u.cpu.regs.sp - 2 + 1 = u.cpu.regs.sp - 1 := by grind
  have hne : u.cpu.regs.sp - 2 ≠ u.cpu.regs.sp - 1 := by grind
  rw [memory_onLines, hnext] at hmemory
  rw [Exec.enterNmi_eq h.running]
  dsimp only
  rw [hsp, hpc, hiff]
  refine ⟨⟨hfitted.note _, h.running, ?_, fun addr hoff => ?_, ?_⟩, rfl, rfl⟩
  · dsimp only
    rw [h.regs]
    rfl
  · rw [memory_note, hmemory, Function.update_of_ne hoff.1,
      Function.update_of_ne hoff.2]
    exact h.memory addr hoff
  · rw [memory_note, hmemory, Function.update_self,
      Function.update_of_ne hne, Function.update_self]
    exact word_hiByte_loByte _

theorem InHandler.exit (h : InHandler u t) (hu : ReturnsAtOnce u) :
    Beside (served + 1) u (Exec.instruct t).2 ∧ (Exec.instruct t).1 = 14
      ∧ (Exec.instruct t).2.cpu.cost = t.cpu.cost := by
  have hpc : t.cpu.regs.pc = Entry.nmiTarget := by rw [h.regs]
  have hsp : t.cpu.regs.sp = u.cpu.regs.sp - 2 := by rw [h.regs]
  have hlead : t.board.memory t.cpu.regs.pc = 0xED := by
    rw [hpc, h.memory _ hu.offLead]
    exact hu.lead
  have hopcode : t.board.memory (t.cpu.regs.pc + 1) = 0x45 := by
    rw [hpc, h.memory _ hu.offOpcode]
    exact hu.opcode
  have hnext : u.cpu.regs.sp - 2 + 1 = u.cpu.regs.sp - 1 := by grind
  have hrestored : u.cpu.regs.sp - 2 + 2 = u.cpu.regs.sp := by grind
  rw [instruct_retn h.fitted h.running hlead hopcode]
  dsimp only
  rw [hsp, hnext, hrestored, h.back]
  refine ⟨⟨h.fitted, h.running, ?_, h.memory⟩, rfl, rfl⟩
  dsimp only
  rw [h.regs]
  rfl

end

-- ================================================================ steps

/-- The interrupted computer between two steps, out of the handler. An
interrupt that was served has taken 11 T-states to enter and 14 to
return. -/
structure Resumed (served : Nat) (u t : Computer Flat) : Prop
    extends Beside served u t where
  idle : t.board.Idle
  cost : t.cpu.cost = u.cpu.cost + 25 * served

/-- The interrupted computer between two steps, in the handler. -/
structure Serving (served : Nat) (u t : Computer Flat) : Prop
    extends InHandler u t where
  idle : t.board.Idle
  cost : t.cpu.cost = u.cpu.cost + 25 * served + 11

/-- A non-maskable interrupt is raised. -/
def nmi (b : Board Flat) : Board Flat := b.onLines (·.raiseNmi)

section
variable {w : Sweep} {down : Bool} {u t : Computer Flat} {served : Nat}

/-- Raising the line leaves everything else beside it. -/
theorem Beside.raised (h : Beside served u t) :
    Beside served u (t.onBoard nmi) where
  fitted := h.fitted
  running := h.running
  regs := h.regs
  memory addr hoff := by
    show (t.board.onLines _).memory addr = _
    rw [memory_onLines]
    exact h.memory addr hoff

theorem InHandler.raised (h : InHandler u t) :
    InHandler u (t.onBoard nmi) := by
  have hmemory : (t.onBoard nmi).board.memory = t.board.memory :=
    memory_onLines _ _
  refine ⟨h.fitted, h.running, h.regs, ?_, ?_⟩
  · rw [hmemory]
    exact h.memory
  · rw [hmemory]
    exact h.back

/-- At a boundary without an interrupt the sweep goes on where it was. -/
theorem Beside.resumed (h : Beside served u (Exec.instruct t).2)
    (hidle : t.board.Idle)
    (hcost : (Exec.instruct t).2.cpu.cost + (Exec.instruct t).1
      = u.cpu.cost + 25 * served) : Resumed served u t.step.2 := by
  have hstep : t.step.2 = _ := congrArg Prod.snd (Exec.step_of_idle hidle)
  refine ⟨?_, Computer.idle_step hidle, ?_⟩
  · rw [hstep]
    exact ⟨h.fitted, h.running, h.regs, h.memory⟩
  · rw [hstep]
    exact hcost

/-- At a boundary with one it is put off by an entry. -/
theorem Beside.serving (h : Beside served u (Exec.instruct (t.onBoard nmi)).2)
    (hidle : t.board.Idle)
    (hcost : (Exec.instruct (t.onBoard nmi)).2.cpu.cost
        + (Exec.instruct (t.onBoard nmi)).1
      = u.cpu.cost + 25 * served) : Serving served u (t.stepAfter nmi) := by
  have hat : Beside served u (t.onBoard nmi).atBoundary :=
    ⟨h.fitted, h.running, h.regs, h.memory⟩
  obtain ⟨hin, hentry, hkept⟩ := hat.entry
  have hstep : t.stepAfter nmi = _ := Computer.stepAfter_raiseNmi t
  refine ⟨?_, Computer.idle_stepAfter_raiseNmi hidle, ?_⟩
  · rw [hstep]
    exact ⟨hin.fitted, hin.running, hin.regs, hin.memory, hin.back⟩
  · have hboundary : (t.onBoard nmi).atBoundary.cpu.cost
        = (Exec.instruct (t.onBoard nmi)).2.cpu.cost := rfl
    rw [hstep]
    show (Exec.enterNmi (t.onBoard nmi).atBoundary).2.cpu.cost
      + ((Exec.instruct (t.onBoard nmi)).1
        + (Exec.enterNmi (t.onBoard nmi).atBoundary).1) = _
    rw [hentry, hkept, hboundary]
    omega

/-- A round that is not interrupted. -/
theorem Resumed.step (h : Resumed served u t) (hu : AtSweep w down u)
    (hsource : OffStack u u.cpu.regs.hl) :
    Resumed served u.step.2 t.step.2 := by
  obtain ⟨hround, hcost, hkept⟩ := h.toBeside.round hu hsource
  refine hround.resumed h.idle ?_
  rw [hkept, h.cost, hcost]
  omega

/-- A round with an interrupt after it. -/
theorem Resumed.interrupted (h : Resumed served u t)
    (hu : AtSweep w down u) (hsource : OffStack u u.cpu.regs.hl) :
    Serving served u.step.2 (t.stepAfter nmi) := by
  obtain ⟨hround, hcost, hkept⟩ := h.toBeside.raised.round hu hsource
  refine hround.serving h.idle ?_
  have hraised : (t.onBoard nmi).cpu.cost = t.cpu.cost := rfl
  rw [hkept, hraised, h.cost, hcost]
  omega

theorem Serving.step (h : Serving served u t) (hu : ReturnsAtOnce u) :
    Resumed (served + 1) u t.step.2 := by
  obtain ⟨hreturn, hcost, hkept⟩ := h.toInHandler.exit hu
  refine hreturn.resumed h.idle ?_
  rw [hkept, h.cost, hcost]
  omega

/-- The handler returns, and is entered again at once. -/
theorem Serving.interrupted (h : Serving served u t)
    (hu : ReturnsAtOnce u) :
    Serving (served + 1) u (t.stepAfter nmi) := by
  obtain ⟨hreturn, hcost, hkept⟩ := h.toInHandler.raised.exit hu
  refine hreturn.serving h.idle ?_
  have hraised : (t.onBoard nmi).cpu.cost = t.cpu.cost := rfl
  rw [hkept, hraised, h.cost, hcost]
  omega

end

-- ================================================================= runs

/-- What happens to the board from one round to the next: after the round
and after all returns but the last there is another interrupt. -/
def salvo (count : Nat) : List (Board Flat → Board Flat) :=
  List.replicate count nmi ++ [id]

section
variable {w : Sweep} {down : Bool} {u t : Computer Flat} {served : Nat}

/-- However many interrupts come, each of them is served and returned from
before the sweep goes on. -/
theorem Serving.after_salvo (h : Serving served u t) (hu : ReturnsAtOnce u)
    (count : Nat) :
    Resumed (served + 1 + count) u ((salvo count).foldl stepAfter t) := by
  induction count generalizing served t with
  | zero => exact h.step hu
  | succ count ih =>
    have hnext := ih (h.interrupted hu)
    rw [show served + 1 + (count + 1) = served + 1 + 1 + count by omega]
    exact hnext

/-- So a round with interrupts after it is the round without them. -/
theorem Resumed.after_salvo (h : Resumed served u t) (hu : AtSweep w down u)
    (hkept : Harmless u) (count : Nat) :
    Resumed (served + count) u.step.2
      ((salvo count).foldl stepAfter t) := by
  cases count with
  | zero => exact h.step hu hkept.source
  | succ count =>
    have hserved := (h.interrupted hu hkept.source).after_salvo
      (hu.handler_step hkept) count
    rw [show served + (count + 1) = served + 1 + count by omega]
    exact hserved

/-- So a number of rounds, with any number of interrupts after each, is as
many rounds without. -/
theorem Resumed.run {counts : List Nat} (h : Resumed served u t)
    (hu : ∀ i < counts.length,
      AtSweep w down (u.steps i) ∧ Harmless (u.steps i)) :
    Resumed (served + counts.sum) (u.steps counts.length)
      ((counts.flatMap salvo).foldl stepAfter t) := by
  induction counts generalizing served u t with
  | nil => exact h
  | cons count rest ih =>
    -- one round of `u`, in which `t` makes as many steps more as there
    -- are interrupts
    obtain ⟨hat, hkept⟩ := hu 0 (Nat.succ_pos _)
    have hrest := ih (h.after_salvo hat hkept count) fun i hi =>
      hu (i + 1) (Nat.succ_lt_succ hi)
    rw [List.flatMap_cons, List.foldl_append, List.sum_cons,
      ← Nat.add_assoc]
    exact hrest

end

/-- A sweep that is interrupted after any of its rounds, and as often as
one likes, ends as it would have ended otherwise. Only the two bytes below
the stack pointer, R, the second flip-flop and the time are not the
same. -/
theorem nmi_transparent {w : Sweep} {down : Bool} {s : Computer Flat}
    (h : AtSweep w down s)
    (hharmless : ∀ i, (∀ j ≤ i,
      (s.steps j).cpu.regs.pc = s.cpu.regs.pc) → Harmless (s.steps i)) :
    ∃ n, (∀ i < n, (s.steps i).cpu.regs.pc = s.cpu.regs.pc)
      ∧ (s.steps n).cpu.regs.pc = s.cpu.regs.pc + 2
      ∧ ∀ counts : List Nat, counts.length = n →
        let u := s.steps n
        let t := (counts.flatMap salvo).foldl stepAfter s
        t.cpu.regs = { u.cpu.regs with
          r := t.cpu.regs.r
          iff2 := if counts.sum = 0 then u.cpu.regs.iff2
            else u.cpu.regs.iff1 }
        ∧ (∀ addr, addr ≠ s.cpu.regs.sp - 1 → addr ≠ s.cpu.regs.sp - 2 →
          t.board.memory addr = u.board.memory addr)
        ∧ t.cpu.halted = false
        ∧ t.board.Idle
        ∧ t.cpu.cost = u.cpu.cost + 25 * counts.sum := by
  obtain ⟨n, hrounds, hend, hsp⟩ := exists_rounds h hharmless
  refine ⟨n, fun i hi => (hrounds i hi).2, hend, fun counts hlength => ?_⟩
  have hstart : Resumed 0 s s :=
    { fitted := h.fitted, running := h.running, regs := rfl
      memory := fun _ _ => rfl, idle := h.idle, cost := rfl }
  have hround : ∀ i < counts.length,
      AtSweep w down (s.steps i) ∧ Harmless (s.steps i) := by
    intro i hi
    rw [hlength] at hi
    exact ⟨(hrounds i hi).1, hharmless i fun j hj =>
      (hrounds j (Nat.lt_of_le_of_lt hj hi)).2⟩
  have hrun := hstart.run hround
  rw [hlength, Nat.zero_add] at hrun
  refine ⟨hrun.regs, fun addr h1 h2 => hrun.memory addr ?_, hrun.running,
    hrun.idle, hrun.cost⟩
  unfold OffStack
  rw [hsp]
  exact ⟨h1, h2⟩

-- ============================================================== a copy

/-- A copy of two bytes takes two rounds. -/
theorem AtSweep.pc_two_steps {s : Computer Flat} {down : Bool}
    (h : AtSweep .copy down s) (hkept : Harmless s) (hbc : s.cpu.regs.bc = 2) :
    (s.steps 1).cpu.regs.pc = s.cpu.regs.pc
      ∧ (s.steps 2).cpu.regs.pc = s.cpu.regs.pc + 2 := by
  have hagain (v : UInt8) : Sweep.copy.goesOn v s.cpu.regs = true := by
    unfold Sweep.goesOn
    rw [hbc]
    rfl
  have hback : s.step.2.cpu.regs.pc = s.cpu.regs.pc := by
    rw [h.step_eq]
    dsimp only
    rw [hagain, Registers.fetched_pc, if_pos rfl]
  have hleft : s.step.2.cpu.regs.bc = 1 := by
    rw [h.step_eq]
    refine (Sweep.copy.round_bc down (s.board.memory s.cpu.regs.hl)
      s.cpu.regs).trans ?_
    rw [hbc]
    rfl
  refine ⟨hback, ?_⟩
  rcases (h.step hkept hback).pc_step with ⟨-, hmore, -⟩ | hend
  · rw [hleft] at hmore
    exact absurd rfl hmore
  · exact hend.trans (congrArg (· + 2) hback)

/-- A copy of two bytes, with the stack at the end of memory. -/
def copying : Computer Flat where
  cpu.regs :=
    { Registers.powerOn with
      c := 2, h := 0x10, l := 0x00, d := 0x10, e := 0x01 }
  board := holding [(0, 0xED), (1, 0xB0), (0x66, 0xED), (0x67, 0x45)] board

theorem atSweep_copying : AtSweep .copy false copying := by
  have hboard : copying.board = holding [(0, 0xED), (1, 0xB0),
      (0x66, 0xED), (0x67, 0x45)] board := by
    unfold copying
    dsimp only
  obtain ⟨hfitted, hsignals, hmemory⟩ := fitted_board.holding
    [(0, 0xED), (1, 0xB0), (0x66, 0xED), (0x67, 0x45)]
  have hidle : board.Idle := ⟨rfl, rfl⟩
  rw [← hboard] at hfitted hsignals hmemory
  simp only [List.foldl] at hmemory
  have hbyte : copying.board.memory 0 = 0xED
      ∧ copying.board.memory 1 = 0xB0
      ∧ copying.board.memory 0x66 = 0xED
      ∧ copying.board.memory 0x67 = 0x45 := by
    rw [hmemory]
    simp [Function.update]
  exact
    { fitted := hfitted
      idle := hidle.of_signals_eq hsignals
      running := rfl
      lead := hbyte.1
      opcode := hbyte.2.1
      offLead := by decide
      offOpcode := by decide
      handler := ⟨hbyte.2.2.1, hbyte.2.2.2, by decide, by decide⟩ }

theorem harmless_copying : ∀ i, (∀ j ≤ i,
    (copying.steps j).cpu.regs.pc = copying.cpu.regs.pc) →
      Harmless (copying.steps i) := by
  have hcount : copyCount copying.cpu.regs.bc = 2 := by decide
  refine harmless_of_ranges atSweep_copying (fun i hi => ?_)
    (fun _ i hi => ?_)
  · rw [hcount] at hi
    have hround : i = 0 ∨ i = 1 := by omega
    rcases hround with rfl | rfl <;> decide
  · rw [hcount] at hi
    have hround : i = 0 ∨ i = 1 := by omega
    rcases hround with rfl | rfl <;> decide

/-- The copy is interrupted after its first round, and after its second
one twice. -/
theorem nmi_transparent_copying :
    let u := copying.steps 2
    let t := ([1, 2].flatMap salvo).foldl stepAfter copying
    u.cpu.regs.pc = copying.cpu.regs.pc + 2
      ∧ t.cpu.regs = { u.cpu.regs with
          r := t.cpu.regs.r, iff2 := u.cpu.regs.iff1 }
      ∧ (∀ addr, addr ≠ copying.cpu.regs.sp - 1 →
          addr ≠ copying.cpu.regs.sp - 2 →
          t.board.memory addr = u.board.memory addr)
      ∧ t.cpu.cost = u.cpu.cost + 75 := by
  have h := atSweep_copying
  have hharmless := harmless_copying
  have hbc : copying.cpu.regs.bc = 2 := by decide
  have hne : copying.cpu.regs.pc ≠ copying.cpu.regs.pc + 2 := by decide
  -- no step of it is to be carried out in order to check this
  obtain ⟨s, hs⟩ : ∃ s, s = copying := ⟨copying, rfl⟩
  rw [← hs] at h hharmless hbc hne ⊢
  obtain ⟨n, hrounds, hend, hrun⟩ := nmi_transparent h hharmless
  obtain ⟨hone, htwo⟩ := h.pc_two_steps (hharmless 0 fun j hj =>
    congrArg (fun j => (s.steps j).cpu.regs.pc) (Nat.le_zero.1 hj)) hbc
  have hn : n = 2 := by
    have hzero : n ≠ 0 := by
      rintro rfl
      exact hne hend
    have hmore : n ≠ 1 := by
      rintro rfl
      exact hne (hone.symm.trans hend)
    have hmany : ¬ 2 < n := fun hlt =>
      hne ((hrounds 2 hlt).symm.trans htwo)
    omega
  subst hn
  obtain ⟨hregs, hmemory, -, -, hcost⟩ := hrun [1, 2] rfl
  exact ⟨htwo, hregs, hmemory, hcost⟩

end Flat
end HomeZ80
