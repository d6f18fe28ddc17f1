/-
The flat board: 64 KiB of RAM and a latch behind every port. Every
address reaches the byte of its own number, so no access ever fails.
-/
import HomeZ80.Board.Basic

namespace HomeZ80

/-- Decoding of the flat board. -/
structure Flat where
  ports : Ports := .powerOn
  deriving Inhabited, DecidableEq

namespace Flat

instance : Decoder Flat where
  resolve _ _ addr := .ok ⟨0, addr.toNat⟩
  readPort m port := m.ports.latch port
  writePort port v m := { m with ports := m.ports.setLatch port v }

/-- A flat board at power-on. -/
def board : Board Flat :=
  { arena := ({} : Arena).addRam "ram" 65536, decoder := {} }

/-- Copy a program to an address; what does not fit below the end of
memory is left out. -/
def load (addr : UInt16) (program : List UInt8) (b : Board Flat) :
    Board Flat :=
  b.pokeBlock addr (program.take (65536 - addr.toNat))

end Flat
end HomeZ80
