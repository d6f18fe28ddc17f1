/-
Running the CPU step after step. Two loops exist: a bounded one for a
debugger, which returns the T-states spent, and the run loop proper,
which goes on until it is asked to stop or the board faults. Both look
at the stop request before every step and at the fault latch after it,
so nothing is executed beyond the first fault.

What goes on around the CPU meanwhile is an `Attendant`: it is called
before every opcode fetch and after every turn of the run loop, and it
may act on the board. The plain loops have an attendant that does
nothing.

The run loop need not end; it is given a number of turns and returns
nothing if they were not enough.
-/
import HomeZ80.Cpu.Step

namespace HomeZ80

/-- What goes on around the CPU, with its own state of type `σ`. -/
class Attendant (σ μ : Type) where
  /-- Called with the registers before an opcode fetch. -/
  beforeFetch : Registers → σ → Board μ → σ × Board μ
  /-- Called after a turn of the run loop, with the CPU and whether it
  is halted with nothing to wake it. -/
  afterTurn : Cpu → Bool → σ → Board μ → σ × Board μ

/-- An attendant that does nothing. -/
instance {μ : Type} : Attendant Unit μ where
  beforeFetch _ u b := (u, b)
  afterTurn _ _ u b := (u, b)

/-- A computer with the state of its attendant. -/
structure Attended (σ μ : Type) where
  attendant : σ
  computer : Computer μ
  deriving Inhabited

namespace Computer

variable {μ : Type} [Decoder μ]

/-- One step. Returns the T-states spent. -/
@[inline] def step (s : Computer μ) : Nat × Computer μ := Exec.step s

/-- The latched fault, and the computer with an empty latch. -/
@[inline] def takeFault (s : Computer μ) : Option Fault × Computer μ :=
  let (fault, board) := s.board.takeFault
  (fault, { s with board })

/-- The computer with one more note. -/
def note (n : Note) (s : Computer μ) : Computer μ :=
  { s with board := s.board.note [n] }

end Computer

namespace Attended

variable {σ μ : Type}

/-- The computer with one more note. -/
def note (n : Note) (s : Attended σ μ) : Attended σ μ :=
  ⟨s.attendant, s.computer.note n⟩

variable [Decoder μ] [Attendant σ μ]

/-- What the attendant does before an opcode fetch. A halted CPU
fetches nothing. -/
@[inline] def beforeStep (s : Attended σ μ) : Attended σ μ :=
  let ⟨a, c⟩ := s
  if c.cpu.halted then ⟨a, c⟩
  else
    let (a, board) := Attendant.beforeFetch c.cpu.regs a c.board
    ⟨a, { c with board }⟩

/-- One step, with the attendant called before an opcode fetch. -/
@[inline] def step (s : Attended σ μ) : Nat × Attended σ μ :=
  let ⟨a, c⟩ := s.beforeStep
  let (cycles, c) := c.step
  (cycles, ⟨a, c⟩)

/-- What the attendant does after a turn of the run loop. -/
@[inline] def afterTurn (s : Attended σ μ) : Attended σ μ :=
  let ⟨a, c⟩ := s
  let waits := c.cpu.halted && !c.interruptReady
  let (a, board) := Attendant.afterTurn c.cpu waits a c.board
  ⟨a, { c with board }⟩

/-- Up to `n` steps, after `spent` T-states. -/
def stepNFrom (spent : Nat) : Nat → Attended σ μ →
    Except Fault Nat × Attended σ μ
  | 0, s => (.ok spent, s)
  | n + 1, s =>
    if s.computer.board.lines.stop then (.ok spent, s)
    else
      let (cycles, ⟨a, c⟩) := s.step
      match c.takeFault with
      | (some fault, c) => (.error fault, ⟨a, c⟩)
      | (none, c) => stepNFrom (spent + cycles) n ⟨a, c⟩

/-- Up to `n` steps, fewer when a stop is requested. Returns the
T-states spent, or the first fault. -/
def stepN (n : Nat) (s : Attended σ μ) :
    Except Fault Nat × Attended σ μ :=
  s.stepNFrom 0 n

/-- How a turn of the run loop leaves it. -/
inductive Turn (σ μ : Type) where
  | ended (result : Except Fault Unit) (s : Attended σ μ)
  | further (s : Attended σ μ)

/-- One turn of the run loop. -/
@[inline] def turn (s : Attended σ μ) : Turn σ μ :=
  if s.computer.board.lines.stop then
    let cpu := s.computer.cpu
    .ended (.ok ()) (s.note (.runStopped cpu.regs.pc cpu.cost))
  else
    let (_, ⟨a, c⟩) := s.step
    match c.takeFault with
    | (some fault, c) =>
      .ended (.error fault)
        ⟨a, c.note (.runFaulted c.cpu.regs.pc fault)⟩
    | (none, c) => .further (afterTurn ⟨a, c⟩)

/-- Turns of the run loop, up to a number of them. -/
def turns : Nat → Attended σ μ →
    Option (Except Fault Unit × Attended σ μ)
  | 0, _ => none
  | n + 1, s =>
    match s.turn with
    | .ended result s => some (result, s)
    | .further s => turns n s

/-- Run until a stop is requested or the board faults, for at most
`limit` turns. -/
def run (limit : Nat) (s : Attended σ μ) :
    Option (Except Fault Unit × Attended σ μ) :=
  (s.note (.runEntered s.computer.cpu.regs.pc)).turns limit

end Attended

namespace Computer

variable {μ : Type} [Decoder μ]

/-- Up to `n` steps with nothing going on around the CPU. -/
def stepN (n : Nat) (s : Computer μ) :
    Except Fault Nat × Computer μ :=
  let (result, s) := (⟨(), s⟩ : Attended Unit μ).stepN n
  (result, s.computer)

/-- Run with nothing going on around the CPU. -/
def run (limit : Nat) (s : Computer μ) :
    Option (Except Fault Unit × Computer μ) :=
  ((⟨(), s⟩ : Attended Unit μ).run limit).map fun (result, s) =>
    (result, s.computer)

end Computer
end HomeZ80
