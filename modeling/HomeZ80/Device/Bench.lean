/-
A bench of devices, and registries over it. Devices live in numbered
slots and refer to one another by slot. A registry lists the slots that
are wired together, at most one under each key, in the order in which
they were last registered.

Attaching a device lets it look for its partners in a registry: a
controller for the lines it is to drive, a timer for the controller it
is to tick. A partner must be found under its key and must be of the
right kind. Two further devices only take part in this: an inert one,
and an observer, which writes down how many devices it was attached
among.

A bench has a clock, by which its running timers tick. Time passes while
a controller is waited for and while a timer that was stopped ends its
last rest.
-/
import HomeZ80.Interrupt.Controller
import HomeZ80.Interrupt.Timer
import HomeZ80.Time.Clock

namespace HomeZ80

/-- A device in a slot. -/
inductive Device where
  | lines (state : Lines)
  | controller (state : Controller)
  | timer (state : Timer)
  | observer (key : DeviceKey)
  | inert (key : DeviceKey)
  deriving DecidableEq, Repr, Inhabited

/-- What a device is, apart from the key it answers to. -/
inductive DeviceKind where
  | lines | controller | timer | observer | inert
  deriving DecidableEq, Repr, Inhabited

namespace Device

/-- The key under which a device is registered. -/
def key : Device → DeviceKey
  | .lines _ => .lines
  | .controller _ => .controller
  | .timer t => t.key
  | .observer key => key
  | .inert key => key

def kind : Device → DeviceKind
  | .lines _ => .lines
  | .controller _ => .controller
  | .timer _ => .timer
  | .observer _ => .observer
  | .inert _ => .inert

end Device

-- ========================================================== registries

/-- The slots that are wired together, each under its key. -/
structure Registry where
  entries : List (DeviceKey × Nat) := []
  deriving DecidableEq, Repr, Inhabited

namespace Registry

/-- Enter a slot last, in place of any earlier one with its key. -/
def register (key : DeviceKey) (slot : Nat) (r : Registry) : Registry :=
  ⟨r.entries.filter (fun e => e.1 != key) ++ [(key, slot)]⟩

/-- The slot under a key. -/
def slot? (key : DeviceKey) (r : Registry) : Option Nat :=
  r.entries.find? (fun e => e.1 == key) |>.map (·.2)

def contains (key : DeviceKey) (r : Registry) : Bool :=
  r.entries.any fun e => e.1 == key

def size (r : Registry) : Nat := r.entries.length

/-- The slots, in the order of the registry. -/
def slots (r : Registry) : List Nat := r.entries.map (·.2)

/-- The order in which devices are put away. They are held by a list of
slots, then by registries; these let go of them one after the other, and
the last to hold a device puts it away. -/
def release (held : List Nat) : List Registry → List Nat
  | [] => held
  | r :: later =>
    let still := (r :: later).flatMap slots
    held.filter (!still.contains ·) ++ release r.slots later

end Registry

-- =============================================================== bench

/-- All devices, their clock, what observers wrote down, and the log. -/
structure Bench where
  devices : Array Device := #[]
  /-- The time, and when the running timers tick. -/
  clock : Clock := {}
  /-- Slot of an observer and number of devices registered, once for
  each time it was attached. -/
  journal : Array (Nat × Nat) := #[]
  log : Log := {}
  deriving Inhabited

namespace Bench

/-- One more device; its slot is the number of devices before. -/
def add (d : Device) (b : Bench) : Bench :=
  { b with devices := b.devices.push d }

/-- The bench with the device in a slot replaced. -/
def put (slot : Nat) (d : Device) (b : Bench) : Bench :=
  { b with devices := b.devices.setIfInBounds slot d }

/-- The bench with further notes. -/
def note (notes : List Note) (b : Bench) : Bench :=
  { b with log := b.log.append notes }

/-- The slot registered under a key, if the device there is of the kind
asked for. -/
def lookup (key : DeviceKey) (kind : DeviceKind) (r : Registry)
    (b : Bench) : Option Nat :=
  match r.slot? key with
  | none => none
  | some slot =>
    match b.devices[slot]? with
    | some d => if d.kind = kind then some slot else none
    | none => none

/-- Attach the device in a slot among the devices of a registry. -/
def attach (slot : Nat) (r : Registry) (b : Bench) : Bench :=
  match b.devices[slot]? with
  | some (.lines l) => b.put slot (.lines l.attach)
  | some (.controller c) =>
    let (c, notes) := c.attach (b.lookup .lines .lines r)
    (b.put slot (.controller c)).note notes
  | some (.timer t) =>
    let (t, notes) := t.attach (b.lookup .controller .controller r)
    (b.put slot (.timer t)).note notes
  | some (.observer _) =>
    { b with journal := b.journal.push (slot, r.size) }
  | some (.inert _) | none => b

/-- Attach every device of a registry, in its order. -/
def attachAll (r : Registry) (b : Bench) : Bench :=
  r.entries.foldl
    (fun b e => (b.note [.attaching e.1]).attach e.2 r) b

-- ================================================ controllers in slots

/-- The lines in a slot. -/
def lines? (slot : Nat) (b : Bench) : Option Lines :=
  match b.devices[slot]? with
  | some (.lines l) => some l
  | _ => none

/-- Act on the controller in a slot and on the lines that it drives. -/
def onController (slot : Nat)
    (act : Controller.WithLines → Controller.WithLines × List Note)
    (b : Bench) : Bench :=
  match b.devices[slot]? with
  | some (.controller c) =>
    let (after, notes) := act ⟨c, (c.wire.bind b.lines?).getD {}⟩
    let b := (b.put slot (.controller after.controller)).note notes
    match c.wire with
    | some s => b.put s (.lines after.lines)
    | none => b
  | _ => b

/-- Act on the lines in a slot. -/
def onLines (slot : Nat) (act : Lines → Lines) (b : Bench) : Bench :=
  match b.lines? slot with
  | some l => b.put slot (.lines (act l))
  | none => b

/-- A request to the controller in a slot. -/
def request (slot : Nat) (channel : UInt8) : Bench → Bench :=
  onController slot (Controller.request channel)

/-- An acknowledgement to the controller in a slot. -/
def acknowledge (slot : Nat) (channel : UInt8) : Bench → Bench :=
  onController slot (Controller.acknowledge channel)

-- ====================================================== timers in slots

/-- The timer in a slot. -/
def timer? (slot : Nat) (b : Bench) : Option Timer :=
  match b.devices[slot]? with
  | some (.timer t) => some t
  | _ => none

/-- One tick of the timer in a slot, if it runs. -/
def tick (slot : Nat) (b : Bench) : Bench :=
  match b.timer? slot with
  | some t =>
    match t.running, t.wire with
    | true, some controller => b.request controller t.channel
    | _, _ => b
  | none => b

/-- Start the timer in a slot, and set its alarm. -/
def startTimer (slot : Nat) (b : Bench) : Bench :=
  match b.timer? slot with
  | some t =>
    let (started, notes) := t.start
    let clock := if t.starts then b.clock.set slot t.period else b.clock
    ({ b with clock }.put slot (.timer started)).note notes
  | none => b

/-- Stop the timer in a slot, and wait for the end of its rest; the
timers that still run tick meanwhile. -/
def stopTimer (slot : Nat) (b : Bench) : Bench :=
  match b.timer? slot with
  | some t =>
    let (stopped, notes) := t.stop
    let b := b.put slot (.timer stopped)
    let (clock, b) := b.clock.finish tick slot b
    { b with clock }.note notes
  | none => b

/-- Put the devices away, first those that no registry lists. A timer is
stopped when it is put away. -/
def close (registries : List Registry) (b : Bench) : Bench :=
  (Registry.release (List.range b.devices.size) registries).foldl
    (fun b slot => b.stopTimer slot) b

/-- Let the time come to `t`, with the running timers ticking. -/
def waitUntil (t : Nat) (b : Bench) : Bench :=
  let (clock, b) := b.clock.advance tick t b
  { b with clock }

/-- The pending channels of the controller in a slot. -/
def pending (slot : Nat) (b : Bench) : UInt8 :=
  match b.devices[slot]? with
  | some (.controller c) => c.pending
  | _ => 0

/-- Wait until the controller in a slot has a pending channel. A tick
that was refused once would be refused again, so nothing more comes once
every running timer has ticked. -/
def awaitPending (slot : Nat) (b : Bench) : Bench :=
  b.clock.alarms.foldl
    (fun b alarm =>
      if b.pending slot = 0 then b.waitUntil alarm.due else b)
    b

end Bench
end HomeZ80
