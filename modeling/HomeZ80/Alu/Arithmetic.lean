/-
Addition and subtraction on bytes and words. Every operation returns
its result with the flags it leaves. Carries are read off the sum of the
operands as natural numbers: out of the top digit for carry, out of the
low four (or twelve) bits for half carry. Overflow is told by signs
alone: two operands of one sign gave a result of the other.

Compare and the word operations differ from the byte ones only in where
the two copied bits come from and in what they keep, and are written as
such.
-/
import HomeZ80.Registers

namespace HomeZ80.Alu

-- ====================================================== byte operands

/-- `a + v`, and one more with a carry in. -/
def add8 (a v : UInt8) (carry : Bool) : UInt8 × Flags :=
  let sum := a.toNat + v.toNat + carry.toNat
  let result := UInt8.ofNat sum
  (result,
    { Flags.ofResult result with
      h := 16 ≤ a.toNat % 16 + v.toNat % 16 + carry.toNat
      pv := negative a == negative v && negative a != negative result
      c := 256 ≤ sum })

/-- `a - v`, and one less with a borrow in. -/
def sub8 (a v : UInt8) (carry : Bool) : UInt8 × Flags :=
  let result := UInt8.ofNat (512 + a.toNat - v.toNat - carry.toNat)
  (result,
    { Flags.ofResult result with
      h := a.toNat % 16 < v.toNat % 16 + carry.toNat
      pv := negative a != negative v && negative a != negative result
      n := true
      c := a.toNat < v.toNat + carry.toNat })

/-- Compare: the flags of a subtraction, with bits 5 and 3 of the
operand in place of the result's. -/
def cp8 (a v : UInt8) : Flags :=
  (sub8 a v false).2.copyXY v

/-- One more; carry is kept. -/
def inc8 (v : UInt8) (f : Flags) : UInt8 × Flags :=
  let result := v + 1
  (result,
    { Flags.ofResult result with
      h := v.toNat % 16 = 15
      pv := v == 127
      c := f.c })

/-- One less; carry is kept. -/
def dec8 (v : UInt8) (f : Flags) : UInt8 × Flags :=
  let result := v - 1
  (result,
    { Flags.ofResult result with
      h := v.toNat % 16 = 0
      pv := v == 128
      n := true
      c := f.c })

/-- Zero minus `a`. -/
def neg (a : UInt8) : UInt8 × Flags :=
  sub8 0 a false

-- ====================================================== word operands

/-- Addition that keeps sign, zero and overflow. Bits 5 and 3 come from
the high byte of the result, half carry out of bit 11. -/
def add16 (a v : UInt16) (f : Flags) : UInt16 × Flags :=
  let sum := a.toNat + v.toNat
  let result := UInt16.ofNat sum
  (result,
    { f.copyXY (hiByte result) with
      h := 4096 ≤ a.toNat % 4096 + v.toNat % 4096
      n := false
      c := 65536 ≤ sum })

/-- `a + v`, and one more with a carry in; every flag is set. -/
def adc16 (a v : UInt16) (carry : Bool) : UInt16 × Flags :=
  let sum := a.toNat + v.toNat + carry.toNat
  let result := UInt16.ofNat sum
  (result,
    { Flags.ofResult (hiByte result) with
      z := result == 0
      h := 4096 ≤ a.toNat % 4096 + v.toNat % 4096 + carry.toNat
      pv := negativeWord a == negativeWord v
        && negativeWord a != negativeWord result
      c := 65536 ≤ sum })

/-- `a - v`, and one less with a borrow in; every flag is set. -/
def sbc16 (a v : UInt16) (carry : Bool) : UInt16 × Flags :=
  let result := UInt16.ofNat (131072 + a.toNat - v.toNat - carry.toNat)
  (result,
    { Flags.ofResult (hiByte result) with
      z := result == 0
      h := a.toNat % 4096 < v.toNat % 4096 + carry.toNat
      pv := negativeWord a != negativeWord v
        && negativeWord a != negativeWord result
      n := true
      c := a.toNat < v.toNat + carry.toNat })

end HomeZ80.Alu
