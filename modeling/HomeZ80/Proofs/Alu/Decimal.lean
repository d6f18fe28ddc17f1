/-
Addition and subtraction of decimal operands of any length: byte by byte,
as for binary operands, but with a decimal adjustment after each byte,
whose carry is the one that the next byte takes in.

# One byte

Adding or subtracting takes the two digits of a byte for one number to
base 16. A digit that comes to more than nine should pass ten on to the
next one, and one that comes to less than nothing should borrow ten, but
it is sixteen that is passed on, if anything: six more in the direction of
the operation make up for it (`Adjusts.digits`). What remains is to tell
such digits by the result and its flags. Two digits and a carry come to
nineteen at most, so an excess either is in the half carry or can still
be seen (`adjustsLow_add8`, `adjustsHigh_add8`); a shortage always borrows
(`adjustsLow_sub8`, `adjustsHigh_sub8`).

So an adjusted byte is exact in decimal, and operands of any length are
by `Exact.number_ripple`.
-/
import HomeZ80.Alu.Decimal
import HomeZ80.Proofs.Alu.Carry

namespace HomeZ80.Alu

open Reading

/-- An operation on a byte with a decimal adjustment after it. -/
def adjusted (op : UInt8 → UInt8 → Cell) (a v : UInt8) : Cell :=
  fun c => daa (op a v c).1 (op a v c).2

-- ============================================================ adjustment

/-- Whether the low digit is adjusted. -/
def adjustsLow (r : UInt8 × Flags) : Bool :=
  r.2.h || decide (9 < r.1.toNat % 16)

/-- Whether the high digit is adjusted. -/
def adjustsHigh (r : UInt8 × Flags) : Bool :=
  r.2.c || decide (153 < r.1.toNat)

/-- The adjustment is 6 for each digit that needs one. -/
theorem toNat_decimalCorrection (r : UInt8 × Flags) :
    (decimalCorrection r.1 r.2).toNat
      = 6 * (adjustsLow r).toNat + 96 * (adjustsHigh r).toNat := by
  have hlow : (r.2.h || 9 < r.1 % 16) = adjustsLow r := rfl
  have hhigh : (r.2.c || 153 < r.1) = adjustsHigh r := rfl
  rw [decimalCorrection, hlow, hhigh]
  cases adjustsLow r <;> cases adjustsHigh r <;> rfl

variable {sign : ℤ} {op : UInt8 → UInt8 → Cell}

/-- Adjustment goes on in the direction of the operation before it. -/
theorem exists_daa_eq {r : UInt8 × Flags}
    (hsign : sign = 1 ∧ r.2.n = false ∨ sign = -1 ∧ r.2.n = true) :
    ∃ k : ℤ, ((daa r.1 r.2).1.toNat : ℤ) = r.1.toNat
      + sign * (6 * (adjustsLow r).toNat + 96 * (adjustsHigh r).toNat)
      + 256 * k := by
  have hcorrection := toNat_decimalCorrection r
  have hlt := (decimalCorrection r.1 r.2).toNat_lt
  rcases hsign with ⟨rfl, hn⟩ | ⟨rfl, hn⟩
  · have hdaa : (daa r.1 r.2).1 = r.1 + decimalCorrection r.1 r.2 := by
      rw [daa, hn]
      rfl
    rw [hdaa, UInt8.toNat_add]
    exact ⟨-((r.1.toNat + (decimalCorrection r.1 r.2).toNat) / 256 : ℕ),
      by omega⟩
  · have hdaa : (daa r.1 r.2).1 = r.1 - decimalCorrection r.1 r.2 := by
      rw [daa, hn]
      rfl
    rw [hdaa, UInt8.toNat_sub]
    exact ⟨1 - ((256 - (decimalCorrection r.1 r.2).toNat
      + r.1.toNat) / 256 : ℕ), by omega⟩

-- ============================================================= one digit

/-- A number that can stand as one digit. -/
def OneDigit (t : ℤ) : Prop :=
  0 ≤ t ∧ t < 10

/-- Two digits and a carry are at most ten away from being one digit. -/
theorem oneDigit_carried {x y : ℕ} (hx : x < 10) (hy : y < 10)
    {c carry : Bool} (hsign : sign = 1 ∨ sign = -1)
    (hcarry : carry = false ↔ OneDigit (x + sign * (y + c.toNat))) :
    OneDigit (x + sign * (y + c.toNat) - sign * (10 * carry.toNat)) := by
  have hc := Bool.toNat_le c
  cases carry with
  | false => simpa using hcarry.1 rfl
  | true =>
    have hout : ¬ OneDigit (x + sign * (y + c.toNat)) :=
      fun h => Bool.noConfusion (hcarry.2 h)
    rw [OneDigit] at hout ⊢
    rw [Bool.toNat_true]
    rcases hsign with rfl | rfl <;> omega

theorem split_digits (b : UInt8) :
    (b.toNat : ℤ) = 16 * (b.toNat / 16 : ℕ) + (b.toNat % 16 : ℕ) := by
  omega

/-- A byte that comes to two digits and a multiple of 256 has these
digits. -/
theorem digits_of_eq {z : ℕ} {high low k : ℤ} (hz : z < 256)
    (hhigh : OneDigit high) (hlow : OneDigit low)
    (h : (z : ℤ) = 16 * high + low + 256 * k) :
    (z / 16 : ℕ) = high ∧ (z % 16 : ℕ) = low := by
  unfold OneDigit at *
  omega

-- =============================================================== one byte

/-- After the operation a digit is adjusted just if it did not come to
one digit, the low one with the carry in and the high one with what the
low one passes on. -/
structure Adjusts (sign : ℤ) (op : UInt8 → UInt8 → Cell) : Prop where
  exact : Exact binary sign op
  direction (a v : UInt8) (c : Bool) :
    sign = 1 ∧ (op a v c).2.n = false ∨ sign = -1 ∧ (op a v c).2.n = true
  low_iff {a v : UInt8} (ha : decimal.IsDigit a) (hv : decimal.IsDigit v)
    (c : Bool) : adjustsLow (op a v c) = false ↔
      OneDigit ((a.toNat % 16 : ℕ)
        + sign * ((v.toNat % 16 : ℕ) + c.toNat))
  high_iff {a v : UInt8} (ha : decimal.IsDigit a)
    (hv : decimal.IsDigit v) (c : Bool) :
    adjustsHigh (op a v c) = false ↔
      OneDigit ((a.toNat / 16 : ℕ)
        + sign * ((v.toNat / 16 : ℕ) + (adjustsLow (op a v c)).toNat))

/-- The low digit's carry goes into the high one, and the high digit's
is that of the byte. -/
theorem Adjusts.digits (h : Adjusts sign op) {a v : UInt8}
    (ha : decimal.IsDigit a) (hv : decimal.IsDigit v) (c : Bool) :
    let z := (adjusted op a v c).1.toNat
    let half := adjustsLow (op a v c)
    let carry := (adjusted op a v c).2.c
    (z / 16 < 10 ∧ z % 16 < 10)
      ∧ (z % 16 : ℕ) + sign * (10 * half.toNat)
        = (a.toNat % 16 : ℕ) + sign * ((v.toNat % 16 : ℕ) + c.toNat)
      ∧ (z / 16 : ℕ) + sign * (10 * carry.toNat)
        = (a.toNat / 16 : ℕ)
          + sign * ((v.toNat / 16 : ℕ) + half.toNat) := by
  intro z half carry
  have hsign : sign = 1 ∨ sign = -1 :=
    (h.direction a v c).imp And.left And.left
  have hlow := oneDigit_carried ha.2 hv.2 hsign (h.low_iff ha hv c)
  have hhigh := oneDigit_carried ha.1 hv.1 hsign (h.high_iff ha hv c)
  have hbalance : ((op a v c).1.toNat : ℤ)
      + sign * (256 * (op a v c).2.c.toNat)
      = a.toNat + sign * (v.toNat + c.toNat) :=
    h.exact.balance trivial trivial c
  obtain ⟨k, hk⟩ := exists_daa_eq (h.direction a v c)
  have ha' := split_digits a
  have hv' := split_digits v
  obtain ⟨htop, hbottom⟩ := digits_of_eq
    (k := k - sign * (op a v c).2.c.toNat
      + sign * (adjustsHigh (op a v c)).toNat)
    (UInt8.toNat_lt _) hhigh hlow (by
      rw [hk]
      linear_combination hbalance + ha' + sign * hv')
  have htop : ((z / 16 : ℕ) : ℤ) = _ := htop
  have hbottom : ((z % 16 : ℕ) : ℤ) = _ := hbottom
  rw [OneDigit, ← htop] at hhigh
  rw [OneDigit, ← hbottom] at hlow
  have hcarry : carry = adjustsHigh (op a v c) := rfl
  rw [hcarry]
  exact ⟨⟨by omega, by omega⟩, by linear_combination hbottom,
    by linear_combination htop⟩

/-- The carry between the digits cancels. -/
theorem Adjusts.exact_adjusted (h : Adjusts sign op) :
    Exact decimal sign (adjusted op) := by
  refine ⟨fun ha hv c => (h.digits ha hv c).1, fun {a v} ha hv c => ?_⟩
  obtain ⟨-, hlow, hhigh⟩ := h.digits ha hv c
  have hdigit (b : UInt8) : (decimal.digit b : ℤ)
      = 10 * (b.toNat / 16 : ℕ) + (b.toNat % 16 : ℕ) :=
    Nat.cast_add _ _
  have hbase : (decimal.base : ℤ) = 100 := rfl
  rw [hdigit, hdigit, hdigit, hbase]
  linear_combination hlow + 10 * hhigh

-- ============================================== sums and differences

section

variable {a v : UInt8} (ha : decimal.IsDigit a) (c : Bool)

include ha

/-- Two digits and a carry come to nineteen at most. What goes beyond
fifteen of them is in the half carry, and an excess that is not can still
be seen in the result. -/
theorem adjustsLow_add8 (hv : decimal.IsDigit v) :
    adjustsLow (add8 a v c)
      = decide (9 < a.toNat % 16 + v.toNat % 16 + c.toNat) := by
  obtain ⟨-, ha⟩ := ha
  obtain ⟨-, hv⟩ := hv
  have hc := Bool.toNat_le c
  rw [adjustsLow, half_add8, toNat_add8, ← Bool.decide_or,
    decide_eq_decide]
  omega

/-- After an addition the upper digit is adjusted if it is past 9 with what
the lower one carries. -/
theorem adjustsHigh_add8 (hv : decimal.IsDigit v) :
    adjustsHigh (add8 a v c) = decide (9 < a.toNat / 16 + v.toNat / 16
      + (adjustsLow (add8 a v c)).toNat) := by
  rw [adjustsLow_add8 ha c hv]
  obtain ⟨hahigh, halow⟩ := ha
  obtain ⟨hvhigh, hvlow⟩ := hv
  have hc := Bool.toNat_le c
  rw [adjustsHigh, carry_add8, toNat_add8, ← Bool.decide_or,
    decide_eq_decide, toNat_decide]
  split
  · omega
  · omega

/-- A shortage always borrows. Where there is none, the result is no
greater than the first digit. -/
theorem adjustsLow_sub8 : adjustsLow (sub8 a v c)
    = decide (a.toNat % 16 < v.toNat % 16 + c.toNat) := by
  obtain ⟨-, ha⟩ := ha
  have hc := Bool.toNat_le c
  rw [adjustsLow, half_sub8, toNat_sub8, ← Bool.decide_or,
    decide_eq_decide]
  omega

/-- After a subtraction it is adjusted if it borrows. -/
theorem adjustsHigh_sub8 : adjustsHigh (sub8 a v c)
    = decide (a.toNat / 16 < v.toNat / 16
      + (adjustsLow (sub8 a v c)).toNat) := by
  rw [adjustsLow_sub8 ha]
  obtain ⟨hahigh, halow⟩ := ha
  have hc := Bool.toNat_le c
  rw [adjustsHigh, carry_sub8, toNat_sub8, ← Bool.decide_or,
    decide_eq_decide, toNat_decide]
  split
  · omega
  · omega

end

theorem adjusts_add8 : Adjusts 1 add8 := by
  refine ⟨exact_add8, fun _ _ _ => .inl ⟨rfl, rfl⟩,
    fun {a v} ha hv c => ?_, fun {a v} ha hv c => ?_⟩
  · rw [adjustsLow_add8 ha c hv, decide_eq_false_iff_not, OneDigit]
    omega
  · rw [adjustsHigh_add8 ha c hv, decide_eq_false_iff_not, OneDigit]
    omega

theorem adjusts_sub8 : Adjusts (-1) sub8 := by
  refine ⟨exact_sub8, fun _ _ _ => .inr ⟨rfl, rfl⟩,
    fun {a v} ha hv c => ?_, fun {a v} ha hv c => ?_⟩
  · have halow := ha.2
    rw [adjustsLow_sub8 ha, decide_eq_false_iff_not, OneDigit]
    omega
  · have hahigh := ha.1
    rw [adjustsHigh_sub8 ha, decide_eq_false_iff_not, OneDigit]
    omega

/-- Decimal addition and subtraction from byte to byte, each byte
adjusted and its carry taken in by the next, are those of the whole
operands. -/
theorem decimal_carries_compose {x y : List UInt8}
    (hlen : y.length = x.length) (hx : ∀ b ∈ x, decimal.IsDigit b)
    (hy : ∀ b ∈ y, decimal.IsDigit b) (f : Flags) :
    let sum := ripple (List.zipWith (adjusted add8) x y) f
    let difference := ripple (List.zipWith (adjusted sub8) x y) f
    sum.1.length = x.length ∧ (∀ b ∈ sum.1, decimal.IsDigit b)
      ∧ decimal.number sum.1 + 100 ^ x.length * sum.2.c.toNat
        = decimal.number x + decimal.number y + f.c.toNat
      ∧ difference.1.length = x.length
      ∧ (∀ b ∈ difference.1, decimal.IsDigit b)
      ∧ (decimal.number difference.1 : ℤ)
        = decimal.number x - decimal.number y - f.c.toNat
          + 100 ^ x.length * difference.2.c.toNat := by
  have hadd := adjusts_add8.exact_adjusted
  have hsub := adjusts_sub8.exact_adjusted
  intro sum difference
  have hsum : (decimal.number sum.1 : ℤ)
      + 1 * (100 ^ x.length * sum.2.c.toNat)
      = decimal.number x + 1 * (decimal.number y + f.c.toNat) :=
    hadd.number_ripple hlen hx hy f
  have hdifference : (decimal.number difference.1 : ℤ)
      + -1 * (100 ^ x.length * difference.2.c.toNat)
      = decimal.number x + -1 * (decimal.number y + f.c.toNat) :=
    hsub.number_ripple hlen hx hy f
  rw [one_mul, one_mul, ← add_assoc] at hsum
  exact ⟨length_ripple_zipWith hlen f, hadd.isDigit_ripple hx hy f,
    by exact_mod_cast hsum, length_ripple_zipWith hlen f,
    hsub.isDigit_ripple hx hy f, by linear_combination hdifference⟩

/-- 495005 + 504995 + 1 carries out of the top, and 495005 - 504995 - 1
borrows there, both of them after digits that carry and digits that do
not. -/
theorem decimal_carries_compose_overflowing :
    let x : List UInt8 := [0x05, 0x50, 0x49]
    let y : List UInt8 := [0x95, 0x49, 0x50]
    let f : Flags := { c := true }
    let sum := ripple (List.zipWith (adjusted add8) x y) f
    let difference := ripple (List.zipWith (adjusted sub8) x y) f
    y.length = x.length ∧ (∀ b ∈ x, decimal.IsDigit b)
      ∧ (∀ b ∈ y, decimal.IsDigit b)
      ∧ sum.1 = [0x01, 0x00, 0x00] ∧ sum.2.c = true
      ∧ decimal.number sum.1 + 100 ^ x.length * sum.2.c.toNat
        = decimal.number x + decimal.number y + f.c.toNat
      ∧ difference.1 = [0x09, 0x00, 0x99] ∧ difference.2.c = true
      ∧ (decimal.number difference.1 : ℤ)
        = decimal.number x - decimal.number y - f.c.toNat
          + 100 ^ x.length * difference.2.c.toNat := by
  intro x y f sum difference
  have hx : ∀ b ∈ x, decimal.IsDigit b :=
    List.forall_iff_forall_mem.1 (by decide)
  have hy : ∀ b ∈ y, decimal.IsDigit b :=
    List.forall_iff_forall_mem.1 (by decide)
  obtain ⟨-, -, hsum, -, -, hdifference⟩ :=
    decimal_carries_compose (x := x) (y := y) rfl hx hy f
  exact ⟨rfl, hx, hy, by decide, by decide, hsum, by decide, by decide,
    hdifference⟩

end HomeZ80.Alu
