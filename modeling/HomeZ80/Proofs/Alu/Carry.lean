/-
Addition and subtraction of operands longer than a byte, and the flags
they end with.

Carry is settled by exactness (`Exact.binary_ripple`). Sign and overflow
are told by the last byte alone, and that is enough: without a bound on
its range the result is what the last byte comes to, with its carry in,
over the bytes below it (`IsSigned.exact_result`), and these change
neither its sign nor whether it is in range.
-/
import Mathlib.Data.List.Basic
import HomeZ80.Cpu.Execute
import HomeZ80.Proofs.Alu.Ripple

namespace HomeZ80.Alu

open Reading

variable {sign : ℤ} {op : UInt8 → UInt8 → Cell} {x y : List UInt8}

-- =========================================================== whole bytes

section

variable (a v : UInt8) (c : Bool)

/-- The sum of two bytes and a carry, modulo 256. -/
theorem toNat_add8 : (add8 a v c).1.toNat
    = (a.toNat + v.toNat + c.toNat) % 256 :=
  UInt8.toNat_ofNat'

/-- Carry tells that the sum is no byte. -/
theorem carry_add8 : (add8 a v c).2.c
    = decide (256 ≤ a.toNat + v.toNat + c.toNat) :=
  rfl

/-- Half carry tells so of the lower digits. -/
theorem half_add8 : (add8 a v c).2.h
    = decide (16 ≤ a.toNat % 16 + v.toNat % 16 + c.toNat) :=
  rfl

/-- The difference of two bytes and a borrow, modulo 256. -/
theorem toNat_sub8 : (sub8 a v c).1.toNat
    = (512 + a.toNat - v.toNat - c.toNat) % 256 :=
  UInt8.toNat_ofNat'

/-- Carry tells that the difference is below zero. -/
theorem carry_sub8 : (sub8 a v c).2.c
    = decide (a.toNat < v.toNat + c.toNat) :=
  rfl

/-- Half carry tells so of the lower digits. -/
theorem half_sub8 : (sub8 a v c).2.h
    = decide (a.toNat % 16 < v.toNat % 16 + c.toNat) :=
  rfl

end

/-- What a byte operation starts from. -/
theorem toNat_bounds (a v : UInt8) (c : Bool) :
    a.toNat < 256 ∧ v.toNat < 256 ∧ c.toNat ≤ 1 :=
  ⟨a.toNat_lt, v.toNat_lt, Bool.toNat_le c⟩

/-- What a byte operation should come to, without a bound. -/
def unbounded (sign : ℤ) (a v : UInt8) (c : Bool) : ℤ :=
  a.toNat + sign * (v.toNat + c.toNat)

/-- A byte operation is exact if its result is right modulo 256 and its
carry tells that no byte would be right. -/
theorem Exact.of_byte (hsign : sign = 1 ∨ sign = -1)
    (hvalue : ∀ a v c,
      ((op a v c).1.toNat : ℤ) = unbounded sign a v c % 256)
    (hcarry : ∀ a v c, (op a v c).2.c
      = decide (unbounded sign a v c < 0 ∨ 256 ≤ unbounded sign a v c)) :
    Exact binary sign op := by
  refine ⟨fun _ _ _ => trivial, fun {a v} _ _ c => ?_⟩
  have hbounds := toNat_bounds a v c
  show ((op a v c).1.toNat : ℤ) + sign * (256 * (op a v c).2.c.toNat)
    = a.toNat + sign * (v.toNat + c.toNat)
  rw [hvalue, hcarry, toNat_decide]
  unfold unbounded
  rcases hsign with rfl | rfl <;> split <;> omega

/-- Addition gives up 256 for a carry. -/
theorem exact_add8 : Exact binary 1 add8 := by
  refine .of_byte (.inl rfl) (fun a v c => ?_) fun a v c => ?_
  · rw [toNat_add8, unbounded]
    omega
  · rw [carry_add8, decide_eq_decide, unbounded]
    omega

/-- Subtraction borrows 256 for one. -/
theorem exact_sub8 : Exact binary (-1) sub8 := by
  refine .of_byte (.inr rfl) (fun a v c => ?_) fun a v c => ?_
  · have hbounds := toNat_bounds a v c
    rw [toNat_sub8, unbounded]
    omega
  · have hbounds := toNat_bounds a v c
    rw [carry_sub8, decide_eq_decide, unbounded]
    omega

/-- How the result of a byte operation in two's complement relates to
the number it should be: equal in range, and out of range of the other
sign. -/
def Wraps (exact result : ℤ) : Prop :=
  Fits 1 exact ∧ result = exact ∨ exact < -128 ∧ 0 ≤ result
    ∨ 128 ≤ exact ∧ result < 0

/-- Result and exact result differ by a multiple of 256, of which only
three are near enough. -/
theorem Exact.wraps (h : Exact binary sign op)
    (hsign : sign = 1 ∨ sign = -1) (a v : UInt8) (c : Bool) :
    Wraps (a.toInt8.toInt + sign * (v.toInt8.toInt + c.toNat))
      (op a v c).1.toInt8.toInt := by
  have hbalance : ((op a v c).1.toNat : ℤ)
      + sign * (256 * (op a v c).2.c.toNat)
      = a.toNat + sign * (v.toNat + c.toNat) := h.balance trivial trivial c
  obtain ⟨k, hk⟩ : ∃ k : ℤ, (op a v c).1.toInt8.toInt
      = a.toInt8.toInt + sign * (v.toInt8.toInt + c.toNat) + 256 * k := by
    refine ⟨(negative a).toNat + sign * (negative v).toNat
      - (negative (op a v c).1).toNat - sign * (op a v c).2.c.toNat, ?_⟩
    simp only [toInt_toInt8]
    linear_combination hbalance
  have ha := toInt8_bounds a
  have hv := toInt8_bounds v
  have hbounds := toInt8_bounds (op a v c).1
  have hc := Bool.toNat_le c
  have hnear : k = 0 ∨ k = 1 ∨ k = -1 := by
    rcases hsign with rfl | rfl <;> omega
  rw [Wraps, fits_one]
  rcases hsign with rfl | rfl <;>
    rcases hnear with rfl | rfl | rfl <;> omega

/-- The flags of an operation tell of its operands in two's
complement. -/
structure IsSigned (sign : ℤ) (op : UInt8 → UInt8 → Cell) : Prop where
  exact : Exact binary sign op
  sign_eq : sign = 1 ∨ sign = -1
  sign_iff (a v : UInt8) (c : Bool) :
    (op a v c).2.s = true ↔ (op a v c).1.toInt8.toInt < 0
  overflow_iff (a v : UInt8) (c : Bool) : (op a v c).2.pv = true ↔
    ¬ Fits 1 (a.toInt8.toInt + sign * (v.toInt8.toInt + c.toNat))

/-- Operands of which the second is turned to the sign of the operation
overflow if they are of one sign and the result is of the other. -/
theorem Exact.isSigned (h : Exact binary sign op)
    (hsign : sign = 1 ∨ sign = -1)
    (hs : ∀ a v c, (op a v c).2.s = bitOf (op a v c).1 7)
    (hpv : ∀ a v c, (op a v c).2.pv = true ↔
      (negative a = negative v ↔ sign = 1)
        ∧ negative a ≠ negative (op a v c).1) : IsSigned sign op := by
  refine ⟨h, hsign, fun a v c => ?_, fun a v c => ?_⟩
  · rw [← negative_iff, ← bitOf_seven, hs]
  · have ha := toInt8_bounds a
    have hv := toInt8_bounds v
    have hc := Bool.toNat_le c
    have hwraps := h.wraps hsign a v c
    rw [Wraps, fits_one] at hwraps
    rw [hpv, Ne, negative_eq_iff, negative_eq_iff, fits_one]
    rcases hsign with rfl | rfl <;> omega

/-- A sum overflows if operands of one sign give the other. -/
theorem isSigned_add8 : IsSigned 1 add8 := by
  refine exact_add8.isSigned (.inl rfl) (fun _ _ _ => rfl)
    fun a v c => ?_
  show (negative a == negative v
    && negative a != negative (add8 a v c).1) = true ↔ _
  rw [Bool.and_eq_true_iff, beq_iff_eq, bne_iff_ne, iff_true_right rfl]

/-- A difference overflows if the operands differ in sign and the result
differs from the first. -/
theorem isSigned_sub8 : IsSigned (-1) sub8 := by
  refine exact_sub8.isSigned (.inr rfl) (fun _ _ _ => rfl)
    fun a v c => ?_
  show (negative a != negative v
    && negative a != negative (sub8 a v c).1) = true ↔ _
  rw [Bool.and_eq_true_iff, bne_iff_ne, bne_iff_ne,
    iff_false_right (by decide : ¬ (-1 : ℤ) = 1)]

namespace IsSigned

/-- On overflow the sign is the wrong one, so the two flags together tell
the right one. -/
theorem negative_byte_iff (h : IsSigned sign op) (a v : UInt8)
    (c : Bool) : ((op a v c).2.s != (op a v c).2.pv) = true ↔
      a.toInt8.toInt + sign * (v.toInt8.toInt + c.toNat) < 0 := by
  rw [bne_iff_ne, Ne, Bool.eq_iff_iff, h.sign_iff, h.overflow_iff,
    fits_one]
  rcases h.exact.wraps h.sign_eq a v c with ⟨hfits, hz⟩ | ht | ht
  · rw [fits_one] at hfits
    omega
  · omega
  · omega

-- ============================================================ whole rows

/-- The last bytes decide over what the bytes below them leave. -/
theorem exact_result (h : IsSigned sign op) (hlen : y.length = x.length)
    (a v : UInt8) (f : Flags) :
    let low := ripple (List.zipWith op x y) f
    signed (x ++ [a]) + sign * (signed (y ++ [v]) + f.c.toNat)
      = binary.number low.1 + 256 ^ x.length
        * (a.toInt8.toInt + sign * (v.toInt8.toInt + low.2.c.toNat)) := by
  intro low
  have hlow := h.exact.binary_ripple hlen f
  rw [signed_append, signed_append, hlen]
  linear_combination -hlow

/-- Sign and overflow of the last byte are those of the whole. -/
theorem flags_ripple (h : IsSigned sign op) (hx : x ≠ [])
    (hlen : y.length = x.length) (f : Flags) :
    let r := ripple (List.zipWith op x y) f
    let exact := signed x + sign * (signed y + f.c.toNat)
    (r.2.s = true ↔ signed r.1 < 0)
      ∧ (r.2.pv = true ↔ ¬ Fits x.length exact)
      ∧ ((r.2.s != r.2.pv) = true ↔ exact < 0) := by
  rcases List.eq_nil_or_concat' x with rfl | ⟨x, a, rfl⟩
  · exact absurd rfl hx
  rcases List.eq_nil_or_concat' y with rfl | ⟨y, v, rfl⟩
  · simp at hlen
  have hlen : y.length = x.length := by simpa using hlen
  have hresult := h.exact_result hlen a v f
  have hlength : (ripple (List.zipWith op x y) f).1.length = x.length :=
    length_ripple_zipWith hlen f
  rw [ripple_zipWith_append hlen, List.length_append]
  generalize ripple (List.zipWith op x y) f = low at hresult hlength
  intro r exact
  have hlow : (0 : ℤ) ≤ binary.number low.1 := Int.natCast_nonneg _
  have hlt : (binary.number low.1 : ℤ) < 256 ^ low.1.length := by
    exact_mod_cast binary_number_lt low.1
  have hexact : exact = _ := hresult
  refine ⟨?_, ?_, ?_⟩
  · show (op a v low.2.c).2.s = true
      ↔ signed (low.1 ++ [(op a v low.2.c).1]) < 0
    rw [signed_append, append_neg_iff hlow hlt]
    exact h.sign_iff a v low.2.c
  · rw [hexact, ← hlength]
    refine Iff.trans ?_ (not_congr (fits_append hlow hlt)).symm
    exact h.overflow_iff a v low.2.c
  · rw [hexact, ← hlength, append_neg_iff hlow hlt]
    exact h.negative_byte_iff a v low.2.c

end IsSigned

-- ============================================== sums and differences

/-- Bytes and flags are those of `x + y + c`. -/
structure IsSum (x y : List UInt8) (c : Bool) (r : List UInt8 × Flags) :
    Prop where
  length : r.1.length = x.length
  number : binary.number r.1 + 256 ^ x.length * r.2.c.toNat
    = binary.number x + binary.number y + c.toNat
  overflow_iff : r.2.pv = true ↔
    ¬ Fits x.length (signed x + signed y + c.toNat)
  sign_iff : r.2.s = true ↔ signed r.1 < 0

/-- Bytes and flags are those of `x - y - c`. -/
structure IsDifference (x y : List UInt8) (c : Bool)
    (r : List UInt8 × Flags) : Prop where
  length : r.1.length = x.length
  number : (binary.number r.1 : ℤ) = binary.number x - binary.number y
    - c.toNat + 256 ^ x.length * r.2.c.toNat
  overflow_iff : r.2.pv = true ↔
    ¬ Fits x.length (signed x - signed y - c.toNat)
  sign_iff : r.2.s = true ↔ signed r.1 < 0
  /-- Carry tells that the first operand is the lower one. -/
  carry_iff : r.2.c = true ↔
    binary.number x < binary.number y + c.toNat
  /-- Sign and overflow tell so of signed operands. -/
  less_iff : (r.2.s != r.2.pv) = true ↔ signed x < signed y + c.toNat

section

variable (hx : x ≠ []) (hlen : y.length = x.length) (f : Flags)

include hx hlen

/-- Byte by byte with the carry handed on, the bytes add up. -/
theorem isSum_ripple :
    IsSum x y f.c (ripple (List.zipWith add8 x y) f) := by
  have hnumber := exact_add8.binary_ripple hlen f
  obtain ⟨hsign, hoverflow, -⟩ := isSigned_add8.flags_ripple hx hlen f
  simp only [one_mul, ← add_assoc] at hnumber hoverflow
  exact ⟨length_ripple_zipWith hlen f, by exact_mod_cast hnumber,
    hoverflow, hsign⟩

/-- Byte by byte with the borrow handed on, they make the difference. -/
theorem isDifference_ripple :
    IsDifference x y f.c (ripple (List.zipWith sub8 x y) f) := by
  have hnumber := exact_sub8.binary_ripple hlen f
  have hlength : (ripple (List.zipWith sub8 x y) f).1.length = x.length :=
    length_ripple_zipWith hlen f
  obtain ⟨hsign, hoverflow, hless⟩ :=
    isSigned_sub8.flags_ripple hx hlen f
  have hexact : signed x + -1 * (signed y + f.c.toNat)
      = signed x - signed y - f.c.toNat := by ring
  rw [hexact] at hoverflow hless
  generalize ripple (List.zipWith sub8 x y) f = r at *
  have hlt : (binary.number r.1 : ℤ) < 256 ^ x.length := by
    rw [← hlength]
    exact_mod_cast binary_number_lt r.1
  refine ⟨hlength, by linear_combination hnumber, hoverflow, hsign, ?_,
    hless.trans (by omega)⟩
  cases hc : r.2.c with
  | false =>
    rw [hc, Bool.toNat_false] at hnumber
    simp only [Bool.false_eq_true, false_iff]
    omega
  | true =>
    rw [hc, Bool.toNat_true] at hnumber
    simp only [true_iff]
    omega

end

/-- An operation of the accumulator, on its value and an operand. -/
def accumulator (op : AluOp) (p : UInt8 × UInt8) : Cell :=
  fun c => op.apply p.1 p.2 c

/-- The first operation without the carry and the others with it are all
with it, from no carry. -/
theorem ripple_accumulator (op : UInt8 → UInt8 → Cell)
    {first next : AluOp}
    (hfirst : ∀ p c, accumulator first p c = op p.1 p.2 false)
    (hnext : accumulator next = fun p => op p.1 p.2)
    (hx : x ≠ []) (hlen : y.length = x.length) (f : Flags) :
    ripple (led (accumulator first) (accumulator next) (x.zip y)) f
      = ripple (List.zipWith op x y) { f with c := false } := by
  have hzip : x.zip y ≠ [] := by
    rw [← List.length_pos_iff, List.length_zip, hlen, Nat.min_self]
    exact List.length_pos_iff.2 hx
  rw [ripple_led (fun p c => (hfirst p c).trans
    (congrFun (congrFun hnext p) false).symm) hzip, hnext,
    List.map_zip_eq_zipWith]
  rfl

/-- Addition and subtraction from byte to byte, each taking the carry of
the one before it, are those of the whole operands, with the flags of the
whole result. In a program the lowest bytes are added without carry and
the others with it, which is the same with no carry to begin with. -/
theorem carries_compose (hx : x ≠ []) (hlen : y.length = x.length)
    (f : Flags) :
    IsSum x y f.c (ripple (List.zipWith add8 x y) f)
      ∧ IsDifference x y f.c (ripple (List.zipWith sub8 x y) f)
      ∧ IsSum x y false (ripple
        (led (accumulator .add) (accumulator .adc) (x.zip y)) f)
      ∧ IsDifference x y false (ripple
        (led (accumulator .sub) (accumulator .sbc) (x.zip y)) f) := by
  refine ⟨isSum_ripple hx hlen f, isDifference_ripple hx hlen f, ?_, ?_⟩
  · rw [ripple_accumulator add8 (fun _ _ => rfl) rfl hx hlen]
    exact isSum_ripple hx hlen { f with c := false }
  · rw [ripple_accumulator sub8 (fun _ _ => rfl) rfl hx hlen]
    exact isDifference_ripple hx hlen { f with c := false }

/-- The most negative number of three bytes, less one: both lower bytes
borrow, and the sign is lost. -/
theorem carries_compose_overflowing :
    let x : List UInt8 := [0x00, 0x00, 0x80]
    let y : List UInt8 := [0x01, 0x00, 0x00]
    x ≠ [] ∧ y.length = x.length
      ∧ signed x = -8388608 ∧ signed y = 1
      ∧ (ripple (List.zipWith sub8 x y) {}).1 = [0xFF, 0xFF, 0x7F]
      ∧ (ripple (List.zipWith sub8 x y) {}).2.pv = true
      ∧ IsSum x y false (ripple (List.zipWith add8 x y) {})
      ∧ IsDifference x y false (ripple (List.zipWith sub8 x y) {}) := by
  intro x y
  have h := carries_compose (x := x) (y := y) (by decide) rfl {}
  exact ⟨by decide, rfl, by decide, by decide, by decide, by decide,
    h.1, h.2.1⟩

end HomeZ80.Alu
