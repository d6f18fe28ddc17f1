/-
Periodic tick sources. A running timer rests for a period, requests its
channel of the controller that it was first attached to, and rests
again. Its ticks are the ringing of an alarm, which is set when the
timer starts. A timer that is stopped does not tick any more, but who
stops it waits until its last rest is over.
-/
import HomeZ80.Log

namespace HomeZ80

/-- A tick source. -/
structure Timer where
  key : DeviceKey
  channel : UInt8
  period : Duration
  /-- The device whose controller receives the ticks. -/
  wire : Option Nat := none
  running : Bool := false
  deriving DecidableEq, Repr, Inhabited

namespace Timer

/-- A timer that ticks `hz` times a second; zero counts as one. -/
def ofRate (key : DeviceKey) (channel : UInt8) (hz : Nat) : Timer :=
  { key, channel, period := ⟨Duration.nanosPerSecond / max hz 1⟩ }

/-- Whether the timer can be started and is not running yet. -/
def starts (t : Timer) : Bool := t.wire.isSome && !t.running

/-- Start ticking, which needs a controller to tick into. -/
def start (t : Timer) : Timer × List Note :=
  if t.wire.isNone then (t, [.timerUnattached t.key])
  else if t.running then (t, [])
  else
    ({ t with running := true },
      [.timerStarted t.key t.channel t.period])

/-- Stop ticking. -/
def stop (t : Timer) : Timer × List Note :=
  if t.running then
    ({ t with running := false }, [.timerStopped t.key])
  else
    (t, [])

/-- What attaching does, with the controller found among the devices:
the first controller ever found is kept. -/
def attach (found : Option Nat) (t : Timer) : Timer × List Note :=
  match found, t.wire with
  | none, _ => (t, [.timerWithoutController t.key])
  | some slot, none => ({ t with wire := some slot }, [])
  | some slot, some current =>
    if slot = current then (t, [.timerAlreadyWired t.key])
    else (t, [.timerKeepsController t.key])

end Timer
end HomeZ80
