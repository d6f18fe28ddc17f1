/-
Bytes and words. A byte is a `UInt8`, a word a `UInt16`; this module
joins two bytes into a word, splits a word again, and adds a signed
displacement to an address. All three are written with the arithmetic
of the words themselves, so their values in `Nat` are one `simp` away
and every address calculation wraps at 65536 on its own.
-/
namespace HomeZ80

/-- The word whose high byte is `hi` and whose low byte is `lo`. -/
@[inline] def word (hi lo : UInt8) : UInt16 :=
  hi.toUInt16 * 256 + lo.toUInt16

/-- The high byte of a word. -/
@[inline] def hiByte (w : UInt16) : UInt8 :=
  (w / 256).toUInt8

/-- The low byte of a word. -/
@[inline] def loByte (w : UInt16) : UInt8 :=
  w.toUInt8

/-- An address moved by a signed byte: 0 to 127 go forward, 128 to 255
stand for -128 to -1. -/
@[inline] def displace (base : UInt16) (d : UInt8) : UInt16 :=
  if d < 128 then base + d.toUInt16 else base + d.toUInt16 - 256

/-- There are eight bits in a byte. -/
instance eightBits : @NeZero Nat Zero.ofOfNat0 8 := Nat.instNeZeroSucc

/-- Whether bit `n` of a byte is set. -/
@[inline] def bitOf (v : UInt8) (n : Nat) : Bool :=
  v.toNat.testBit n

/-- Whether a byte is negative when read in two's complement. -/
@[inline] def negative (v : UInt8) : Bool :=
  128 ≤ v

/-- Whether a word is negative when read in two's complement. -/
@[inline] def negativeWord (v : UInt16) : Bool :=
  32768 ≤ v

@[simp] theorem toNat_word (hi lo : UInt8) :
    (word hi lo).toNat = 256 * hi.toNat + lo.toNat := by
  have h := hi.toNat_lt
  have l := lo.toNat_lt
  simp [word]
  omega

@[simp] theorem hiByte_word (hi lo : UInt8) : hiByte (word hi lo) = hi := by
  have l := lo.toNat_lt
  have h := hi.toNat_lt
  apply UInt8.toNat_inj.1
  simp [hiByte]
  omega

@[simp] theorem loByte_word (hi lo : UInt8) : loByte (word hi lo) = lo := by
  apply UInt8.toNat_inj.1
  simp [loByte]

@[simp] theorem word_hiByte_loByte (w : UInt16) :
    word (hiByte w) (loByte w) = w := by
  have h := w.toNat_lt
  apply UInt16.toNat_inj.1
  simp [hiByte, loByte]
  omega

end HomeZ80
