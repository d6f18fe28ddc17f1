/-
Rotates and shifts of one bit, and the two rotates that move a whole
digit between the accumulator and memory.

A one-bit operation to the left is a doubling, one to the right a
halving; they differ in what fills the freed bit. Carry takes the bit
that fell out.
-/
import HomeZ80.Registers

namespace HomeZ80

/-- The eight rotates and shifts, in the order of their opcodes. -/
inductive Rotation where
  | rlc | rrc | rl | rr | sla | sra | sll | srl
  deriving DecidableEq, Repr, Inhabited

namespace Rotation

/-- Whether bits move towards bit 7. -/
def goesLeft : Rotation → Bool
  | .rlc | .rl | .sla | .sll => true
  | .rrc | .rr | .sra | .srl => false

/-- The bit that fills the freed place. -/
def fill (v : UInt8) (carry : Bool) : Rotation → Bool
  | .rlc => bitOf v 7
  | .rrc => bitOf v 0
  | .rl | .rr => carry
  | .sla | .srl => false
  | .sra => bitOf v 7
  | .sll => true

end Rotation

namespace Alu

/-- One rotate or shift: the new byte and the bit that fell out. -/
def shift (op : Rotation) (v : UInt8) (carry : Bool) : UInt8 × Bool :=
  if op.goesLeft then
    (v * 2 + Flags.weigh (op.fill v carry) 1, bitOf v 7)
  else
    (v / 2 + Flags.weigh (op.fill v carry) 128, bitOf v 0)

/-- A rotate or shift with the flags of its result. -/
def rotateShift (op : Rotation) (v : UInt8) (carry : Bool) :
    UInt8 × Flags :=
  let (result, out) := shift op v carry
  (result, { Flags.ofResultParity result with c := out })

/-- The one-byte rotates of the accumulator: sign, zero and parity are
kept. -/
def rotateA (op : Rotation) (a : UInt8) (f : Flags) : UInt8 × Flags :=
  let (result, out) := shift op a f.c
  (result, { f.copyXY result with h := false, n := false, c := out })

-- ================================================== digits in memory

/-- The high digit of one byte with the low digit of another. -/
@[inline] def joinDigits (high low : UInt8) : UInt8 :=
  high / 16 * 16 + low % 16

/-- Rotate left through the three digits A-low, memory-high,
memory-low. Returns the accumulator, the memory byte and the flags. -/
def rld (a mem : UInt8) (f : Flags) : UInt8 × UInt8 × Flags :=
  let mem' := mem * 16 + a % 16
  let a' := joinDigits a (mem / 16)
  (a', mem', { Flags.ofResultParity a' with c := f.c })

/-- Rotate right through the same three digits. -/
def rrd (a mem : UInt8) (f : Flags) : UInt8 × UInt8 × Flags :=
  let mem' := a * 16 + mem / 16
  let a' := joinDigits a mem
  (a', mem', { Flags.ofResultParity a' with c := f.c })

end Alu
end HomeZ80
