/-
The lines into the CPU that others may drive: the maskable request with
the channel it was raised for, the non-maskable request, and the request
to stop. The CPU only looks at them between instructions.
-/
namespace HomeZ80

/-- The state of the lines. -/
structure Lines where
  /-- The maskable request is asserted. -/
  irq : Bool := false
  /-- The channel of the most recent maskable request. -/
  channel : UInt8 := 0
  /-- A non-maskable interrupt is pending. -/
  nmi : Bool := false
  /-- The run loop is asked to return. -/
  stop : Bool := false
  deriving DecidableEq, Repr, Inhabited

namespace Lines

/-- Assert the maskable request for a channel. -/
def assertIrq (channel : UInt8) (l : Lines) : Lines :=
  { l with irq := true, channel }

/-- Lower the maskable request; the channel stays recorded. -/
def clearIrq (l : Lines) : Lines := { l with irq := false }

def raiseNmi (l : Lines) : Lines := { l with nmi := true }

def clearNmi (l : Lines) : Lines := { l with nmi := false }

def requestStop (l : Lines) : Lines := { l with stop := true }

def clearStop (l : Lines) : Lines := { l with stop := false }

/-- What attaching does: both interrupt lines drop, a stop request
survives. -/
def attach (l : Lines) : Lines := l.clearIrq.clearNmi

end Lines
end HomeZ80
