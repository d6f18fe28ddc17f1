/-
Steps one after the other. Between two steps the board may be acted on
from outside, as by a device that raises an interrupt line
(`Computer.stepAfter`).

No program can raise a line, so on a board that is left to itself lines
that are idle stay idle (`Computer.idle_step`), and a step is then the
instruction alone (`Exec.step_of_idle`).
-/
import HomeZ80.Cpu.Run
import HomeZ80.Proofs.Cpu.Entry

namespace HomeZ80

variable {μ : Type}

def Computer.onBoard (f : Board μ → Board μ) (s : Computer μ) :
    Computer μ :=
  { s with board := f s.board }

structure Board.Idle (b : Board μ) : Prop where
  nmi : b.lines.nmi = false
  irq : b.lines.irq = false

/-- Whether anything is asserted is told by the signals. -/
theorem Board.Idle.of_signals_eq {b b' : Board μ}
    (h : b'.signals = b.signals) (hb : b.Idle) : b'.Idle := by
  have hlines : b'.lines = b.lines := Board.lines_eq_of_signals_eq h
  constructor
  · rw [hlines]
    exact hb.nmi
  · rw [hlines]
    exact hb.irq

variable [Decoder μ]

theorem Board.Touches.idle {b b' : Board μ} (h : b.Touches b')
    (hb : b.Idle) : b'.Idle :=
  hb.of_signals_eq h.signals_eq

namespace Computer

/-- With nothing asserted no interrupt is taken. -/
theorem interrupt?_of_idle {s : Computer μ} (h : s.board.Idle) :
    s.interrupt? = none := by
  have hat : s.atBoundary.board.Idle := (Exec.touches_instruct s).idle h
  unfold interrupt? accepted?
  rw [hat.nmi, hat.irq]
  simp

end Computer

/-- With idle lines a step is an instruction. -/
theorem Exec.step_of_idle {s : Computer μ} (h : s.board.Idle) :
    step s =
      ((instruct s).1, { s.atBoundary with
        cpu.cost := s.atBoundary.cpu.cost + (instruct s).1 }) :=
  step_of_no_entry (Computer.interrupt?_of_idle h)

namespace Computer

/-- A step with nothing asserted leaves it so. -/
theorem idle_step {s : Computer μ} (h : s.board.Idle) :
    s.step.2.board.Idle := by
  show (Exec.step s).2.board.Idle
  rw [Exec.step_of_idle h]
  exact (Exec.touches_instruct s).idle h

def steps : Nat → Computer μ → Computer μ
  | 0, s => s
  | n + 1, s => steps n s.step.2

@[simp] theorem steps_zero (s : Computer μ) : s.steps 0 = s := rfl

theorem steps_succ (n : Nat) (s : Computer μ) :
    s.steps (n + 1) = (s.steps n).step.2 := by
  induction n generalizing s with
  | zero => rfl
  | succ n ih => exact ih s.step.2

/-- Steps add up. -/
theorem steps_add (m n : Nat) (s : Computer μ) :
    s.steps (m + n) = (s.steps m).steps n := by
  induction n with
  | zero => rfl
  | succ n ih => rw [← Nat.add_assoc, steps_succ, steps_succ, ih]

/-- A step that comes after an action on the board. -/
def stepAfter (s : Computer μ) (act : Board μ → Board μ) : Computer μ :=
  (s.onBoard act).step.2

theorem idle_steps {s : Computer μ} (h : s.board.Idle) (n : Nat) :
    (s.steps n).board.Idle := by
  induction n with
  | zero => exact h
  | succ n ih =>
    rw [steps_succ]
    exact idle_step ih

end Computer
end HomeZ80
