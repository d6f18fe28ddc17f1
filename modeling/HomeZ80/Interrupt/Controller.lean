/-
The interrupt controller: eight channels in front of the CPU's one
maskable line. A request for a channel is judged against the mask and
against the priority rule in force; one that passes is pending until it
is acknowledged, and pending at most once.

Two priority rules can be chosen. Under the first a request waits while
a lower channel is pending; under the second it must not be above a
compare level.

The controller drives the line: it asserts it for every request that
becomes pending, and when one is acknowledged it lowers the line and
asserts it again for the lowest channel left. `request` and
`acknowledge` therefore act on the controller and the lines together.
Which lines it drives is settled when it is first attached to some
(`wire`), and until then it records requests without passing them on.
-/
import HomeZ80.Interrupt.Lines
import HomeZ80.Log

namespace HomeZ80

/-- The registers of the controller, and its connection. -/
structure Controller where
  /-- A bit for each channel with a request that waits. -/
  pending : UInt8 := 0
  /-- A bit for each channel that may request. -/
  enabled : UInt8 := 248
  /-- The highest channel accepted under the compare rule. -/
  level : UInt8 := 7
  /-- The lowest pending channel holds off all above it; otherwise the
  compare level decides. -/
  priorityOnly : Bool := true
  /-- The channel last passed on to the CPU. -/
  current : UInt8 := 0
  /-- The device whose lines the controller drives. -/
  wire : Option Nat := none
  deriving DecidableEq, Repr, Inhabited

/-- What becomes of a request. -/
inductive Verdict where
  /-- There is no such channel. -/
  | unknown
  /-- The channel is masked. -/
  | masked
  /-- A lower channel is pending. -/
  | heldOff
  /-- The channel is above the compare level. -/
  | aboveLevel
  /-- The channel is pending already. -/
  | repeated
  | accepted
  deriving DecidableEq, Repr, Inhabited

namespace Controller

/-- The number of channels. -/
def channels : UInt8 := 8

/-- The bit of a channel. -/
@[inline] def channelBit (channel : UInt8) : UInt8 := 1 <<< channel

/-- Whether a channel is pending. -/
@[inline] def isPending (channel : UInt8) (c : Controller) : Bool :=
  bitOf c.pending channel.toNat

/-- Whether some channel below this one is pending. -/
@[inline] def lowerPending (channel : UInt8) (c : Controller) : Bool :=
  c.pending.toNat % (1 <<< channel.toNat) != 0

/-- The lowest pending channel. -/
def lowest? (c : Controller) : Option UInt8 :=
  (List.range 8).find? (bitOf c.pending) |>.map UInt8.ofNat

/-- How a request for a channel is judged. -/
def judge (channel : UInt8) (c : Controller) : Verdict :=
  if channels ≤ channel then .unknown
  else if !bitOf c.enabled channel.toNat then .masked
  else if c.priorityOnly && c.lowerPending channel then .heldOff
  else if !c.priorityOnly && c.level < channel then .aboveLevel
  else if c.isPending channel then .repeated
  else .accepted

/-- What there is to report about a verdict. -/
def verdictNotes (channel : UInt8) (c : Controller) :
    Verdict → List Note
  | .masked => [.channelMasked channel]
  | .heldOff => [.channelHeldOff channel c.pending]
  | .aboveLevel => [.channelAboveLevel channel]
  | .unknown | .repeated | .accepted => []

-- =========================================== controller and its lines

/-- A controller with the lines that it drives once it is wired. -/
structure WithLines where
  controller : Controller
  lines : Lines
  deriving DecidableEq, Repr, Inhabited

/-- Pass a channel on to the CPU. -/
def signal (channel : UInt8) (s : WithLines) : WithLines × List Note :=
  let controller := { s.controller with current := channel }
  match s.controller.wire with
  | some _ => (⟨controller, s.lines.assertIrq channel⟩, [])
  | none => (⟨controller, s.lines⟩, [.channelUnheard channel])

/-- A request for a channel. -/
def request (channel : UInt8) (s : WithLines) :
    WithLines × List Note :=
  match s.controller.judge channel with
  | .accepted =>
    signal channel
      { s with controller.pending :=
          s.controller.pending ||| channelBit channel }
  | verdict => (s, s.controller.verdictNotes channel verdict)

/-- The CPU took the interrupt of a channel: its pending bit and the
line are cleared, then the lowest channel left is passed on. -/
def acknowledge (channel : UInt8) (s : WithLines) :
    WithLines × List Note :=
  if channels ≤ channel then (s, [])
  else
    let controller :=
      { s.controller with
        pending := s.controller.pending &&& ~~~channelBit channel }
    let lines :=
      if controller.wire.isSome then s.lines.clearIrq else s.lines
    match controller.lowest? with
    | some next => signal next ⟨controller, lines⟩
    | none => (⟨controller, lines⟩, [])

-- ========================================================== registers

/-- The registers that a port can reach. -/
inductive Port where
  | priority | mask
  deriving DecidableEq, Repr, Inhabited

/-- Write of the mask: bits 0, 1 and 2 enable channels 2, 1 and 0; the
other channels are always enabled. -/
def writeMask (v : UInt8) (c : Controller) : Controller :=
  { c with
    enabled := 248 + Flags.weigh (bitOf v 0) 4
      + Flags.weigh (bitOf v 1) 2 + Flags.weigh (bitOf v 2) 1 }

/-- Write of the priority register: bit 3 chooses the rule, the low
three bits are the compare level. -/
def writePriority (v : UInt8) (c : Controller) : Controller :=
  { c with priorityOnly := bitOf v 3, level := v % 8 }

/-- Write of either register. -/
def writePort (port : Port) (v : UInt8) (c : Controller) : Controller :=
  match port with
  | .priority => c.writePriority v
  | .mask => c.writeMask v

/-- The offset of a channel in the table of vectors. -/
def offsetOf (channel : UInt8) : UInt16 := channel.toUInt16 * 2

/-- The offset of the channel last passed on. -/
def offsetVector (c : Controller) : UInt16 := offsetOf c.current

-- ========================================================== attaching

/-- The registers at power-on; the connection stays. -/
def reset (c : Controller) : Controller := { wire := c.wire }

/-- What attaching does, with the lines found among the devices: the
registers are reset, and the first lines ever found are kept. -/
def attach (found : Option Nat) (c : Controller) :
    Controller × List Note :=
  match found, c.wire with
  | none, _ => (c.reset, [.controllerWithoutLines])
  | some _, some _ => (c.reset, [.controllerAlreadyWired])
  | some slot, none => ({ c.reset with wire := some slot }, [])

end Controller
end HomeZ80
