/-
Numbers held in strings of bytes, lowest byte first. A byte of such a
string is a digit, to base 256 or, where it holds two decimal digits, to
base 100; a `Reading` says which.

A string to base 256 can also be read in two's complement (`signed`).
All of its sign is in the last byte: the bytes below are read as before
(`signed_append`), and too small together to take a number out of range
that the last byte leaves in it, or to bring one back (`fits_append`).
-/
import Mathlib.Data.Nat.Digits.Defs
import Mathlib.Tactic.LinearCombination
import HomeZ80.Word

namespace HomeZ80

theorem toNat_decide (p : Prop) [Decidable p] :
    (decide p).toNat = if p then 1 else 0 :=
  apply_ite Bool.toNat p true false

theorem eq_of_toNat_eq {c d : Bool} (h : c.toNat = d.toNat) : c = d := by
  rw [Bool.eq_iff_iff, ← Bool.toNat_eq_one, h, Bool.toNat_eq_one]

/-- What a byte stands for as a digit of a longer number. -/
structure Reading where
  base : ℕ
  digit : UInt8 → ℕ
  /-- The bytes that are digits. -/
  IsDigit : UInt8 → Prop
  digit_lt {b : UInt8} (h : IsDigit b) : digit b < base
  one_lt_base : 1 < base

namespace Reading

/-- Every byte is a digit. -/
def binary : Reading where
  base := 256
  digit := UInt8.toNat
  IsDigit _ := True
  digit_lt _ := UInt8.toNat_lt _
  one_lt_base := by decide

/-- A byte holds two decimal digits, the high one first. -/
def decimal : Reading where
  base := 100
  digit b := 10 * (b.toNat / 16) + b.toNat % 16
  IsDigit b := b.toNat / 16 < 10 ∧ b.toNat % 16 < 10
  digit_lt h := by omega
  one_lt_base := by decide

instance (b : UInt8) : Decidable (decimal.IsDigit b) :=
  inferInstanceAs (Decidable (_ ∧ _))

variable {d : Reading}

/-- The number that a string of bytes stands for. -/
def number (d : Reading) (x : List UInt8) : ℕ :=
  Nat.ofDigits d.base (x.map d.digit)

@[simp] theorem number_nil : d.number [] = 0 := rfl

/-- The first byte weighs least. -/
@[simp] theorem number_cons (b : UInt8) (x : List UInt8) :
    d.number (b :: x) = d.digit b + d.base * d.number x :=
  Nat.ofDigits_cons

/-- The bytes above weigh as much more as there are bytes below. -/
theorem number_append (x y : List UInt8) :
    d.number (x ++ y) = d.number x + d.base ^ x.length * d.number y := by
  rw [number, List.map_append, Nat.ofDigits_append, List.length_map]
  rfl

/-- A number of so many digits is below that power of the base. -/
theorem number_lt {x : List UInt8} (hx : ∀ b ∈ x, d.IsDigit b) :
    d.number x < d.base ^ x.length := by
  have hdigits : ∀ n ∈ x.map d.digit, n < d.base := by
    intro n hn
    obtain ⟨b, hb, rfl⟩ := List.mem_map.1 hn
    exact d.digit_lt (hx b hb)
  have hlength : (x.map d.digit).length = x.length :=
    List.length_map d.digit
  rw [← hlength]
  exact Nat.ofDigits_lt_base_pow_length d.one_lt_base hdigits

/-- Every byte is a digit of base 256. -/
theorem binary_number_lt (x : List UInt8) :
    binary.number x < 256 ^ x.length :=
  number_lt fun _ _ => trivial

theorem binary_number_cons (b : UInt8) (x : List UInt8) :
    binary.number (b :: x) = b.toNat + 256 * binary.number x :=
  number_cons b x

/-- The last byte is on top. -/
theorem binary_number_concat (x : List UInt8) (b : UInt8) :
    binary.number (x ++ [b])
      = binary.number x + 256 ^ x.length * b.toNat := by
  have hb : binary.number [b] = b.toNat := by simp [binary]
  rw [number_append, hb]
  rfl

/-- Strings of one length that are the same number are the same. -/
theorem binary_number_inj {x y : List UInt8} (hlen : x.length = y.length)
    (h : binary.number x = binary.number y) : x = y := by
  have hdigits (x : List UInt8) : ∀ n ∈ x.map UInt8.toNat, n < 256 := by
    intro n hn
    obtain ⟨b, -, rfl⟩ := List.mem_map.1 hn
    exact b.toNat_lt
  have hlist : x.map UInt8.toNat = y.map UInt8.toNat :=
    Nat.ofDigits_inj_of_len_eq (by decide) (by simpa using hlen)
      (hdigits x) (hdigits y) h
  exact (List.map_inj_right fun _ _ => UInt8.toNat_inj.1).1 hlist

end Reading

open Reading

-- ===================================================== two's complement

/-- The number that a string of bytes stands for in two's complement. -/
def signed (x : List UInt8) : ℤ :=
  Int.bmod (binary.number x) (256 ^ x.length)

/-- A number that has a two's complement of `n` bytes. -/
def Fits (n : ℕ) (t : ℤ) : Prop :=
  -256 ^ n ≤ 2 * t ∧ 2 * t < 256 ^ n

instance (n : ℕ) (t : ℤ) : Decidable (Fits n t) :=
  inferInstanceAs (Decidable (_ ∧ _))

/-- What fits in a byte in two's complement. -/
theorem fits_one {t : ℤ} : Fits 1 t ↔ -128 ≤ t ∧ t < 128 := by
  unfold Fits
  rw [pow_one]
  omega

theorem bitOf_seven (b : UInt8) : bitOf b 7 = negative b := by
  have h := b.toNat_lt
  have hneg : negative b = decide (128 ≤ b.toNat) := rfl
  rw [bitOf, Nat.testBit_eq_decide_div_mod_eq, hneg, decide_eq_decide]
  omega

theorem toNat_negative (b : UInt8) :
    (negative b).toNat = b.toNat / 128 := by
  have hb := b.toNat_lt
  rw [← bitOf_seven, bitOf, Nat.toNat_testBit]
  omega

/-- A byte in two's complement is 256 less if it is negative. -/
theorem toInt_toInt8 (b : UInt8) :
    b.toInt8.toInt = b.toNat - 256 * (negative b).toNat := by
  have hlt := b.toNat_lt
  have hb : b.toInt8.toInt =
      if 2 * b.toNat < 256 then (b.toNat : ℤ) else b.toNat - 256 :=
    BitVec.toInt_eq_toNat_cond _
  rw [hb, toNat_negative]
  split
  · omega
  · omega

/-- The range of a byte in two's complement. -/
theorem toInt8_bounds (b : UInt8) :
    -128 ≤ b.toInt8.toInt ∧ b.toInt8.toInt < 128 :=
  ⟨Int8.le_toInt _, Int8.toInt_lt _⟩

/-- The sign bit tells negative bytes. -/
theorem negative_iff {b : UInt8} :
    negative b = true ↔ b.toInt8.toInt < 0 := by
  have h := b.toNat_lt
  rw [toInt_toInt8]
  cases negative b with
  | false => simp
  | true => simp; omega

/-- Bytes have the same sign bit if both are negative or neither is. -/
theorem negative_eq_iff {a b : UInt8} : negative a = negative b ↔
    (a.toInt8.toInt < 0 ↔ b.toInt8.toInt < 0) := by
  rw [Bool.eq_iff_iff, negative_iff, negative_iff]

/-- The bytes below the last have no sign. -/
theorem signed_append (x : List UInt8) (b : UInt8) :
    signed (x ++ [b])
      = binary.number x + 256 ^ x.length * b.toInt8.toInt := by
  have hlow : (binary.number x : ℤ) < 256 ^ x.length := by
    exact_mod_cast binary_number_lt x
  obtain ⟨hge, hlt⟩ := toInt8_bounds b
  have hlength : (256 : ℕ) ^ (x ++ [b]).length = 256 ^ x.length * 256 := by
    rw [List.length_append, List.length_singleton, pow_succ]
  have hwhole : (binary.number (x ++ [b]) : ℤ) =
      binary.number x + 256 ^ x.length * b.toInt8.toInt
        + (256 ^ x.length * 256 : ℕ) * (negative b).toNat := by
    rw [binary_number_concat, toInt_toInt8]
    push_cast
    ring
  rw [signed, hlength, hwhole, Int.add_mul_bmod_self_left]
  apply Int.bmod_eq_of_le_mul_two
  · push_cast
    nlinarith
  · push_cast
    nlinarith

section

variable {n : ℕ} {low top : ℤ} (hlow : 0 ≤ low) (hlt : low < 256 ^ n)

include hlow hlt

/-- The last byte is the quotient of the whole by its weight, and what
the bytes below it come to is the remainder. -/
theorem append_ediv : (low + 256 ^ n * top) / 256 ^ n = top := by
  have hpos : (0 : ℤ) < 256 ^ n := by positivity
  rw [Int.add_mul_ediv_left _ _ hpos.ne', Int.ediv_eq_zero_of_lt hlow hlt,
    zero_add]

/-- The bytes below do not matter to a comparison with a multiple of their
weight. -/
theorem append_lt_iff (top k : ℤ) :
    low + 256 ^ n * top < k * 256 ^ n ↔ top < k := by
  rw [← Int.ediv_lt_iff_lt_mul (by positivity), append_ediv hlow hlt]

/-- So whether all of it is in range is told by the top. -/
theorem fits_append :
    Fits (n + 1) (low + 256 ^ n * top) ↔ Fits 1 top := by
  have hge := append_lt_iff hlow hlt top (-128)
  have hlt := append_lt_iff hlow hlt top 128
  rw [fits_one, Fits, pow_succ]
  omega

theorem append_neg_iff : low + 256 ^ n * top < 0 ↔ top < 0 := by
  have h := append_lt_iff hlow hlt top 0
  rwa [zero_mul] at h

end

end HomeZ80
