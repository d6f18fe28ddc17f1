/-
A session: an attendant that drives the lines by a script and keeps
track of what it sees. Cues say what happens just before the opcode
fetch of a given number. Each fetch can be recorded, with the program
counter and the refresh register, and can be noted in the log.

A session also has a clock. A turn of the run loop takes the same time
whatever it executes, since nothing holds the CPU to the speed of its
T-states. A CPU that waits rests for a given length after the turn.
Running timers tick by this clock, and when a deadline has come the CPU
is asked to stop.

Two things keep runs short. A computer whose state has come back would
go in circles until something from outside disturbs it, so the time is
let pass until then (`idle`); only what is counted and noted on the way
is lost. And a CPU that has been busy for very long is slowed down
(`patience`).
-/
import HomeZ80.Cpu.Recurrence
import HomeZ80.Cpu.Run

namespace HomeZ80

/-- What a script can do. -/
inductive CueAction where
  | stop
  | nmi
  /-- Assert the CPU's line for a channel, past the controller. -/
  | irq (channel : UInt8)
  /-- Request a channel of the controller, if there is one. -/
  | request (channel : UInt8)
  deriving DecidableEq, Repr, Inhabited

/-- An action before the opcode fetch of a given number, from 1. -/
structure Cue where
  fetch : Nat
  action : CueAction
  deriving DecidableEq, Repr, Inhabited

/-- Act on a board. -/
def CueAction.act {μ : Type} (b : Board μ) : CueAction → Board μ
  | .stop => b.onLines (·.requestStop)
  | .nmi => b.onLines (·.raiseNmi)
  | .irq channel => b.onLines (·.assertIrq channel)
  | .request channel => b.request channel

/-- The state of a session. -/
structure Session (μ : Type) where
  cues : List Cue := []
  /-- Opcode fetches so far. -/
  fetches : Nat := 0
  /-- Whether fetches are recorded. -/
  records : Bool := false
  /-- Program counter and refresh register at each recorded fetch. -/
  seen : Array (UInt16 × UInt8) := #[]
  /-- Whether fetches are noted in the log. -/
  notesFetches : Bool := false
  /-- The time, and when the timers of the board tick. -/
  clock : Clock := {}
  /-- How long the CPU rests after a turn in which it waits. -/
  haltPoll : Duration := .ofMillis 1
  /-- When the CPU is asked to stop. -/
  deadline : Option Nat := none
  /-- The watch for a state that comes back, by the number of fetches. -/
  watch : Watch μ := {}
  deriving Inhabited

namespace Session

variable {μ : Type}

/-- What a session does before an opcode fetch. -/
@[inline] def beforeFetch (r : Registers) (w : Session μ)
    (b : Board μ) : Session μ × Board μ :=
  let fetches := w.fetches + 1
  let b := if w.notesFetches then b.note [.fetching r] else b
  let seen := if w.records then w.seen.push (r.pc, r.r) else w.seen
  let b := w.cues.foldl
    (fun b cue => if cue.fetch = fetches then cue.action.act b else b) b
  ({ w with fetches, seen }, b)

/-- Whether a cue is still to come. -/
def cuesLeft (w : Session μ) : Bool :=
  w.cues.any fun cue => w.fetches < cue.fetch

-- ======================================================= passing time

/-- How many fetches a CPU may make before it is slowed down. -/
def patience : Nat := 16000000

/-- Nanoseconds that any turn takes at least. -/
def leastTime : Nat := 50

/-- Nanoseconds that a turn of this session takes at least. -/
@[inline] def turnTime (w : Session μ) : Nat :=
  if w.fetches < patience then leastTime else 500

/-- When the present turn is over. -/
@[inline] def turnEnd (waits : Bool) (w : Session μ) : Nat :=
  let ended := w.clock.now + w.turnTime
  if waits && w.haltPoll.nanos != 0 then
    max ended (w.clock.now + Clock.rest w.haltPoll)
  else
    ended

/-- The next moment at which a timer ticks or the deadline comes. -/
def nextEvent? (w : Session μ) : Option Nat :=
  match w.clock.next?, w.deadline with
  | some due, some deadline => some (min due deadline)
  | some due, none => some due
  | none, deadline? => deadline?

/-- Whether a timer ticks up to `t` or the deadline comes. -/
@[inline] def eventBy (t : Nat) (w : Session μ) : Bool :=
  (match w.clock.next? with
    | some due => due ≤ t
    | none => false)
  || match w.deadline with
    | some deadline => deadline ≤ t
    | none => false

/-- Ask the CPU to stop when the deadline has come. -/
@[inline] def observeDeadline (w : Session μ) (b : Board μ) : Board μ :=
  match w.deadline with
  | some deadline =>
    if deadline ≤ w.clock.now then b.onLines (·.requestStop) else b
  | none => b

/-- Whether what happened to a board is nothing to the CPU. Only lines
and controller are ever acted on from outside. -/
def undisturbed (before after : Board μ) : Bool :=
  after.lines = before.lines && after.controller = before.controller

/-- Let the time come to `t`. A state from before a disturbance need not
come back after it, so the watch begins anew. -/
def pass (t : Nat) (w : Session μ) (b : Board μ) :
    Session μ × Board μ :=
  let (clock, after) := w.clock.advance Board.tick t b
  let w := { w with clock }
  let after := w.observeDeadline after
  if undisturbed b after then (w, after)
  else ({ w with watch := .startingAt w.fetches }, after)

/-- Let the time pass until the board is disturbed, but over no more
than a number of events. The steps that there would be time for are not
carried out, so they are neither counted nor noted, and add nothing to
the cost of the CPU. -/
def idle : Nat → Session μ → Board μ → Session μ × Board μ
  | 0, w, b => (w, b)
  | n + 1, w, b =>
    match w.nextEvent? with
    | some t =>
      let (w, after) := w.pass t b
      if undisturbed b after then idle n w after else (w, after)
    | none => (w, b)

/-- The number of events that a CPU may idle over in one turn. -/
def idleEvents : Nat := 1000

/-- What a session does after a turn of the run loop. -/
@[inline] def afterTurn [DecidableEq μ] (cpu : Cpu) (waits : Bool)
    (w : Session μ) (b : Board μ) : Session μ × Board μ :=
  let ended := w.turnEnd waits
  if w.eventBy ended then w.pass ended b
  else
    let w := { w with clock.now := ended }
    if waits && w.haltPoll.nanos == 0 then
      if b.lines.stop then (w, b) else w.idle idleEvents b
    else if w.watch.recalls cpu then
      if w.watch.recallsBoard b then w.idle idleEvents b
      else ({ w with watch := w.watch.unmarked }, b)
    else if w.fetches < w.watch.expiry || w.cuesLeft then (w, b)
    else
      ({ w with watch := w.watch.marked w.fetches ⟨cpu, b⟩ }, b)

instance [DecidableEq μ] : Attendant (Session μ) μ where
  beforeFetch := beforeFetch
  afterTurn := afterTurn

end Session
end HomeZ80
