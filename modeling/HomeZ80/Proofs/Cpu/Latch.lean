/-
The fault latch over a run. Every access that fails is reported to the
latch, which keeps the first report. What it holds after any number of
steps can be told from the bus cycles of these steps, in their order
(`Computer.latch_steps`).

A loop that looks at the latch after every step finds it full for the
first time after some number of steps, or never
(`Computer.FaultsFirst`). That number depends on nothing but the
computer. The other thing that a loop looks at, the line that asks it to
stop, is out of a program's reach (`Exec.stop_step`).
-/
import HomeZ80.Proofs.Cpu.BusCycles
import HomeZ80.Proofs.Cpu.Steps

namespace HomeZ80

variable {μ : Type}

-- ============================================================ the latch

namespace Computer

def latch (s : Computer μ) : Option Fault := s.board.arena.fault

def unlatched (s : Computer μ) : Computer μ :=
  { s with board.arena.fault := none }

/-- Taking a fault empties the latch. -/
theorem takeFault_of_some {s : Computer μ} {fault : Fault}
    (h : s.latch = some fault) : s.takeFault = (some fault, s.unlatched) := by
  have hlatch : s.board.arena.fault = some fault := h
  unfold takeFault Board.takeFault
  rw [hlatch]
  rfl

theorem takeFault_of_none {s : Computer μ} (h : s.latch = none) :
    s.takeFault = (none, s) := by
  have hlatch : s.board.arena.fault = none := h
  unfold takeFault Board.takeFault
  rw [hlatch]

/-- Taking the fault empties the latch and does nothing else. -/
theorem takeFault_eq (s : Computer μ) :
    s.takeFault = (s.latch, s.unlatched) := by
  cases hlatch : s.latch with
  | some fault => exact takeFault_of_some hlatch
  | none =>
    have hsame : s.unlatched = s := by
      show { s with board.arena.fault := none } = s
      rw [← show s.board.arena.fault = none from hlatch]
    rw [takeFault_of_none hlatch, hsame]

variable [Decoder μ]

/-- The bus cycles of the next `n` steps. -/
def trace : Nat → Computer μ → List BusCycle
  | 0, _ => []
  | n + 1, s => s.cycles ++ trace n s.step.2

theorem trace_succ (n : Nat) (s : Computer μ) :
    s.trace (n + 1) = s.trace n ++ (s.steps n).cycles := by
  induction n generalizing s with
  | zero => exact List.append_nil s.cycles
  | succ n ih =>
    show s.cycles ++ s.step.2.trace (n + 1) = _
    rw [ih, ← List.append_assoc]
    rfl

/-- A number of steps do to the bus what their trace does. -/
theorem sameBus_steps (n : Nat) (s : Computer μ) :
    (s.board.perform (s.trace n)).SameBus (s.steps n).board := by
  induction n generalizing s with
  | zero => exact .refl s.board
  | succ n ih =>
    have hstep : (s.board.perform s.cycles).SameBus s.step.2.board :=
      Exec.sameBus_step s
    show (s.board.perform (s.cycles ++ s.step.2.trace n)).SameBus
      (s.step.2.steps n).board
    rw [Board.perform_append]
    exact (hstep.perform _).trans (ih s.step.2)

/-- The latch holds what it held before, or else the first failure among
the accesses of all the steps. -/
theorem latch_steps (n : Nat) (s : Computer μ) :
    (s.steps n).latch
      = (s.latch <|> (s.board.failures (s.trace n)).head?) := by
  have harena := (sameBus_steps n s).arena
  unfold latch
  rw [harena, Board.fault_perform]

/-- What is latched stays latched until it is taken. -/
theorem latch_steps_of_some {s : Computer μ} {fault : Fault}
    (h : s.latch = some fault) (n : Nat) :
    (s.steps n).latch = some fault := by
  rw [latch_steps, h]
  rfl

-- ============================================================ the limit

/-- The latch is first found full after `k` steps. -/
structure FaultsFirst (s : Computer μ) (k : Nat) (fault : Fault) :
    Prop where
  pos : 0 < k
  latched : (s.steps k).latch = some fault
  clear : ∀ j, 0 < j → j < k → (s.steps j).latch = none

/-- A fault that is latched already is found after one step. -/
theorem faultsFirst_one {s : Computer μ} {fault : Fault}
    (h : s.latch = some fault) : s.FaultsFirst 1 fault where
  pos := Nat.one_pos
  latched := latch_steps_of_some h 1
  clear j hpos hlt := by omega

/-- Unless it is the first step that faults, the rest faults one step
earlier. -/
theorem FaultsFirst.tail {s : Computer μ} {k : Nat} {fault : Fault}
    (h : s.FaultsFirst (k + 1) fault) (hk : 0 < k) :
    s.step.2.latch = none ∧ s.step.2.FaultsFirst k fault := by
  refine ⟨h.clear 1 Nat.one_pos (by omega), hk, h.latched, ?_⟩
  intro j hpos hlt
  exact h.clear (j + 1) (by omega) (by omega)

/-- Either the latch is found full within `n` steps, or it is empty
after each of them. -/
theorem faultsFirst_or_clear (n : Nat) (s : Computer μ) :
    (∃ k fault, k ≤ n ∧ s.FaultsFirst k fault)
      ∨ ∀ j, 0 < j → j ≤ n → (s.steps j).latch = none := by
  induction n with
  | zero =>
    right
    intro j hpos hle
    omega
  | succ n ih =>
    rcases ih with ⟨k, fault, hle, hfirst⟩ | hclear
    · exact .inl ⟨k, fault, by omega, hfirst⟩
    · cases hlast : (s.steps (n + 1)).latch with
      | some fault =>
        refine .inl ⟨n + 1, fault, Nat.le_refl _, Nat.succ_pos n, hlast, ?_⟩
        intro j hpos hlt
        exact hclear j hpos (by omega)
      | none =>
        right
        intro j hpos hle
        rcases Nat.lt_or_eq_of_le hle with hlt | heq
        · exact hclear j hpos (by omega)
        · rw [heq]
          exact hlast

end Computer

-- ===================================================== the other lines

/-- The lines that the controller has no part in. -/
def Lines.others (l : Lines) : Bool × Bool := (l.nmi, l.stop)

/-- A signal moves the maskable line alone. -/
theorem Controller.others_signal (channel : UInt8) (s : WithLines) :
    (signal channel s).1.lines.others = s.lines.others := by
  unfold signal
  cases s.controller.wire <;> rfl

theorem Controller.others_acknowledge (channel : UInt8) (s : WithLines) :
    (acknowledge channel s).1.lines.others = s.lines.others := by
  unfold acknowledge
  split
  · rfl
  · dsimp only
    have hlines : (if s.controller.wire.isSome then s.lines.clearIrq
        else s.lines).others = s.lines.others := by
      split <;> rfl
    split
    · rw [others_signal]
      exact hlines
    · exact hlines

namespace Exec

/-- The CPU acknowledges a channel through the maskable line alone, with a
controller or without. -/
theorem others_acknowledge (channel : UInt8) (s : Computer μ) :
    (acknowledge channel s).2.board.lines.others
      = s.board.lines.others := by
  cases hc : s.board.controller with
  | none =>
    rw [acknowledge_of_none hc]
    rfl
  | some c =>
    rw [acknowledge_of_some hc]
    unfold Board.acknowledge Board.onController
    rw [hc]
    dsimp only
    rw [Board.note_lines]
    exact Controller.others_acknowledge channel _

variable [Decoder μ]

/-- A step moves these lines in one way only: the non-maskable entry
lowers its own. -/
theorem others_step (s : Computer μ) :
    (step s).2.board.lines.others = s.board.lines.others
      ∨ (step s).2.board.lines.others = (false, s.board.lines.stop) := by
  have hat : s.atBoundary.board.lines = s.board.lines :=
    (touches_instruct s).lines_eq
  cases hentry : s.interrupt? with
  | none =>
    rw [step_of_no_entry hentry]
    exact .inl (congrArg Lines.others hat)
  | some entry =>
    rw [step_of_entry hentry, ← hat]
    cases entry with
    | nmi =>
      exact .inr (congrArg Lines.others
        (touches_enterNmi s.atBoundary).lines_eq)
    | maskable channel =>
      rw [← others_acknowledge channel s.atBoundary]
      exact .inl (congrArg Lines.others
        (touches_enterMaskable channel s.atBoundary).lines_eq)

/-- No step moves the line that asks the loops to stop. -/
theorem stop_step (s : Computer μ) :
    (step s).2.board.lines.stop = s.board.lines.stop := by
  rcases others_step s with h | h <;> exact congrArg Prod.snd h

/-- No step raises the line of the non-maskable interrupt. -/
theorem nmi_step {s : Computer μ} (h : s.board.lines.nmi = false) :
    (step s).2.board.lines.nmi = false := by
  rcases others_step s with hstep | hstep
  · exact (congrArg Prod.fst hstep).trans h
  · exact congrArg Prod.fst hstep

end Exec

end HomeZ80
