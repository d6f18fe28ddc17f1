/-
Decimal adjustment. After an addition or a subtraction of packed decimal
bytes the accumulator is off by six in each digit that left the decimal
range; the half carry and carry flags together with the digits
themselves tell which.
-/
import HomeZ80.Registers

namespace HomeZ80.Alu

/-- What decimal adjustment adds to or takes from the accumulator: six
in the low digit, and six in the high digit. -/
def decimalCorrection (a : UInt8) (f : Flags) : UInt8 :=
  (if f.h || 9 < a % 16 then 6 else 0)
    + (if f.c || 153 < a then 96 else 0)

/-- Decimal adjustment of the accumulator. -/
def daa (a : UInt8) (f : Flags) : UInt8 × Flags :=
  let correction := decimalCorrection a f
  let result := if f.n then a - correction else a + correction
  (result,
    { Flags.ofResultParity result with
      h := if f.n then f.h && a % 16 < 6 else 9 < a % 16
      n := f.n
      c := f.c || 153 < a })

end HomeZ80.Alu
