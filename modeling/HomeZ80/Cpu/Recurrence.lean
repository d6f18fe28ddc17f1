/-
Recognising a state that comes back. A computer that is in a state for
the second time, with nothing having acted on it from outside meanwhile,
goes the same way again and again until something does act on it.

A `Watch` finds this out. It keeps one state that the run was in, the
mark, and compares it with the states that follow. The mark is replaced
now and then, and every mark is kept twice as long as the one before. So
in a run that goes in circles there comes a mark on the circle that is
kept for a whole round.
-/
import HomeZ80.Cpu.State

namespace HomeZ80

-- =========================================================== agreement

/-- Two boards agree if they differ at most in their logs. -/
def Board.agrees {μ : Type} [DecidableEq μ] (a b : Board μ) : Bool :=
  a.lines = b.lines && a.controller = b.controller
    && a.timers = b.timers && a.decoder = b.decoder && a.arena = b.arena

/-- Two CPUs agree if they differ at most in what they counted. -/
@[inline] def Cpu.agrees (a b : Cpu) : Bool :=
  a.regs.pc == b.regs.pc && a.regs = b.regs && a.halted == b.halted
    && a.eiDelay == b.eiDelay

-- =============================================================== watch

/-- A watch over a run. Its time is counted by whoever uses it. -/
structure Watch (μ : Type) where
  /-- A state that the run was in. -/
  mark : Option (Computer μ) := none
  /-- When the mark is to be replaced. -/
  expiry : Nat := 0
  /-- How long the next mark is kept. -/
  span : Nat := 128
  deriving Inhabited

namespace Watch

variable {μ : Type}

/-- A watch that begins at a given time. -/
def startingAt (time : Nat) : Watch μ := { expiry := time }

/-- Whether a CPU is as it was at the mark. -/
@[inline] def recalls (cpu : Cpu) (w : Watch μ) : Bool :=
  match w.mark with
  | some m => m.cpu.agrees cpu
  | none => false

/-- Whether a board is as it was at the mark. -/
def recallsBoard [DecidableEq μ] (b : Board μ) (w : Watch μ) : Bool :=
  match w.mark with
  | some m => m.board.agrees b
  | none => false

/-- The watch without its mark until the next one is due. -/
def unmarked (w : Watch μ) : Watch μ := { w with mark := none }

/-- The watch with a new mark, and the time for which marks are kept
doubled. -/
def marked (time : Nat) (s : Computer μ) (w : Watch μ) : Watch μ where
  mark := some s
  expiry := time + w.span
  span := 2 * w.span

end Watch
end HomeZ80
