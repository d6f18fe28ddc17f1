/-
Bus faults: the three ways in which a memory access can fail. Each is a
cause with the data that identifies it; the wording of a fault is one
function, `Fault.message`.
-/
import HomeZ80.Text.Hex

namespace HomeZ80

/-- The direction of one memory access. A bank-switched machine may send
reads and writes of one address to different storage. -/
inductive Access where
  | read | write
  deriving DecidableEq, Repr, Inhabited

/-- Why a memory access failed. -/
inductive Fault where
  /-- No storage answers this address in the current bank state. -/
  | unmapped (addr : UInt16) (access : Access)
  /-- The address was sent to an offset its region does not have. -/
  | outOfRange (region : String) (offset : Nat)
  /-- A write was sent to a read-only region. -/
  | readOnly (region : String) (offset : Nat)
  deriving DecidableEq, Repr, Inhabited

/-- The name of a direction, as messages show it. -/
def Access.name : Access → String
  | .read => "Read"
  | .write => "Write"

/-- The text of a fault: addresses in four hexadecimal digits, offsets
in as many as they need. -/
def Fault.message : Fault → String
  | .unmapped addr access =>
    "no storage region mapped for " ++ access.name ++ " at 0x"
      ++ Text.hexWord addr
  | .outOfRange region offset =>
    "offset 0x" ++ Text.hex offset ++ " is outside region `"
      ++ region ++ "`"
  | .readOnly region offset =>
    "write to read-only region `" ++ region ++ "` at offset 0x"
      ++ Text.hex offset

end HomeZ80
