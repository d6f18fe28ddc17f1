/-
Boards described by a table of windows. A window sends a range of
addresses, for reads, for writes or for both, to a stretch of one
region; the first window that covers an access decides. Windows may
reach past the end of their region and may cover read-only storage for
writing, which is when faults arise.
-/
import HomeZ80.Board.Basic

namespace HomeZ80

/-- A range of addresses and the storage behind it. -/
structure Window where
  lo : Nat
  hi : Nat
  reads : Bool
  writes : Bool
  region : Nat
  base : Nat
  deriving DecidableEq, Repr, Inhabited

namespace Window

/-- Whether a window decides an access. -/
def covers (access : Access) (addr : UInt16) (w : Window) : Bool :=
  w.lo ≤ addr.toNat && addr.toNat ≤ w.hi &&
    match access with
    | .read => w.reads
    | .write => w.writes

/-- The place behind an address of the window. -/
def place (addr : UInt16) (w : Window) : Place :=
  ⟨w.region, w.base + addr.toNat - w.lo⟩

end Window

/-- Decoding by a table of windows, with a latch behind every port. -/
structure Windowed where
  windows : List Window := []
  ports : Ports := .powerOn
  deriving Inhabited, DecidableEq

namespace Windowed

instance : Decoder Windowed where
  resolve m access addr :=
    match m.windows.find? (·.covers access addr) with
    | some w => .ok (w.place addr)
    | none => .error (.unmapped addr access)
  readPort m port := m.ports.latch port
  writePort port v m := { m with ports := m.ports.setLatch port v }

end Windowed
end HomeZ80
