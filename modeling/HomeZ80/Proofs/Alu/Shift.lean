/-
Shifts and rotates by one bit of operands longer than a byte. Each byte
gives the bit that falls out of it to the next one as the carry, upwards
from the lowest byte or downwards from the highest.

# The carry above the bytes

A shift upwards leaves in the carry what fell out of the top, and it is
worth as much as a bit standing there (`number_shiftUp`). A shift
downwards takes the carry in at the top, where it is again worth as much
(`number_shiftDown`). So the second undoes the first. A shift that takes
no carry is a rotation with a clear one; one that keeps the sign takes
the sign in, but only the highest byte is aware of it (`signed_sra`).

# The ring

Read as one number with the carry on top (`joined`), an operand of `n`
bytes goes round in `8 * n + 1` bits. A rotation doubles that number
modulo `2 * 256 ^ n - 1`, and after as many rotations as there are bits
the factor is one. Residues tell the numbers of a ring apart, but for the
least and the greatest: and a rotation leaves 0 alone
(`Turned.zero_iff`).
-/
import Mathlib.Data.Nat.Digits.Lemmas
import Mathlib.Data.Int.ModEq
import HomeZ80.Alu.Shift
import HomeZ80.Proofs.Alu.Ripple

namespace HomeZ80.Alu

open Reading

-- ============================================================ whole bytes

/-- A rotation up through carry doubles, and takes the carry in below. -/
theorem rl_byte (v : UInt8) (c : Bool) :
    (rotateShift .rl v c).1.toNat
      + 256 * (rotateShift .rl v c).2.c.toNat = 2 * v.toNat + c.toNat := by
  have hv := v.toNat_lt
  have hresult : (rotateShift .rl v c).1.toNat
      = (2 * v.toNat + c.toNat) % 256 := by
    have hbyte : (rotateShift .rl v c).1 = v * 2 + Flags.weigh c 1 := rfl
    rw [hbyte, UInt8.toNat_add, UInt8.toNat_mul]
    cases c <;> simp [Flags.weigh] <;> omega
  have hout : (rotateShift .rl v c).2.c = negative v := bitOf_seven v
  have hc := Bool.toNat_le c
  rw [hresult, hout, toNat_negative]
  omega

/-- A rotation down through carry halves, and takes the carry in on top. -/
theorem rr_byte (v : UInt8) (c : Bool) :
    2 * (rotateShift .rr v c).1.toNat
      + (rotateShift .rr v c).2.c.toNat = v.toNat + 256 * c.toNat := by
  have hv := v.toNat_lt
  have hresult : (rotateShift .rr v c).1.toNat
      = v.toNat / 2 + 128 * c.toNat := by
    have hbyte : (rotateShift .rr v c).1 = v / 2 + Flags.weigh c 128 := rfl
    rw [hbyte, UInt8.toNat_add, UInt8.toNat_div]
    cases c <;> simp [Flags.weigh] <;> omega
  have hout : (rotateShift .rr v c).2.c.toNat = v.toNat % 2 := by
    have hbit : (rotateShift .rr v c).2.c = v.toNat.testBit 0 := rfl
    rw [hbit, Nat.toNat_testBit, pow_zero, Nat.div_one]
  rw [hresult, hout]
  omega

/-- A shift that keeps the sign halves a signed byte. -/
theorem sra_byte (v : UInt8) (c : Bool) :
    2 * (rotateShift .sra v c).1.toInt8.toInt
      + (rotateShift .sra v c).2.c.toNat = v.toInt8.toInt := by
  have hrow : rotateShift .sra v c = rotateShift .rr v (bitOf v 7) := rfl
  have hbyte := rr_byte v (negative v)
  have hv := toNat_negative v
  have hresult := toNat_negative (rotateShift .rr v (negative v)).1
  have hv' := v.toNat_lt
  have hc := Bool.toNat_le (rotateShift .rr v (negative v)).2.c
  rw [hrow, bitOf_seven, toInt_toInt8, toInt_toInt8]
  omega

-- ============================================================ whole rows

variable {x : List UInt8}

/-- One bit upwards, from the lowest byte. The others rotate the carry
through. -/
def shiftUp (first : Rotation) (x : List UInt8) (f : Flags) :
    List UInt8 × Flags :=
  ripple (led (rotateShift first) (rotateShift .rl) x) f

/-- One bit downwards, from the highest byte. -/
def shiftDown (first : Rotation) (x : List UInt8) (f : Flags) :
    List UInt8 × Flags :=
  let r := ripple (led (rotateShift first) (rotateShift .rr) x.reverse) f
  (r.1.reverse, r.2)

/-- A shift moves bits between the bytes and loses none of the bytes. -/
theorem length_shiftUp (first : Rotation) (x : List UInt8) (f : Flags) :
    (shiftUp first x f).1.length = x.length := by
  rw [shiftUp, length_ripple, length_led]

/-- A shift down loses none of the bytes. -/
theorem length_shiftDown (first : Rotation) (x : List UInt8)
    (f : Flags) : (shiftDown first x f).1.length = x.length := by
  rw [shiftDown, List.length_reverse, length_ripple, length_led,
    List.length_reverse]

/-- A shift up begins with the lowest byte and hands its carry to the
next. -/
theorem shiftUp_cons (first : Rotation) (b : UInt8) (x : List UInt8)
    (f : Flags) :
    let low := rotateShift first b f.c
    let rest := shiftUp .rl x low.2
    shiftUp first (b :: x) f = (low.1 :: rest.1, rest.2) := by
  intro low rest
  rw [shiftUp, led, ripple, ← led_self]
  rfl

/-- A shift down begins with the highest byte. -/
theorem shiftDown_concat (first : Rotation) (x : List UInt8) (b : UInt8)
    (f : Flags) :
    let top := rotateShift first b f.c
    let rest := shiftDown .rr x top.2
    shiftDown first (x ++ [b]) f = (rest.1 ++ [top.1], rest.2) := by
  intro top rest
  rw [shiftDown, List.reverse_concat, led, ripple, ← led_self,
    List.reverse_cons]
  rfl

/-- The carry that is left stands above the bytes. -/
theorem number_shiftUp (x : List UInt8) (f : Flags) :
    binary.number (shiftUp .rl x f).1
      + 256 ^ x.length * (shiftUp .rl x f).2.c.toNat
      = 2 * binary.number x + f.c.toNat := by
  induction x generalizing f with
  | nil => simp [shiftUp, led, ripple]
  | cons b x ih =>
    have hlow := rl_byte b f.c
    have hrest := ih (rotateShift .rl b f.c).2
    rw [shiftUp_cons, binary_number_cons, binary_number_cons,
      List.length_cons, pow_succ']
    zify at hlow hrest ⊢
    linear_combination hlow + 256 * hrest

/-- The carry that is taken in stands above the bytes. -/
theorem number_shiftDown (x : List UInt8) (f : Flags) :
    2 * binary.number (shiftDown .rr x f).1
      + (shiftDown .rr x f).2.c.toNat
      = binary.number x + 256 ^ x.length * f.c.toNat := by
  induction x using List.reverseRecOn generalizing f with
  | nil => simp [shiftDown, led, ripple]
  | append_singleton x b ih =>
    have htop := rr_byte b f.c
    have hrest := ih (rotateShift .rr b f.c).2
    rw [shiftDown_concat, binary_number_concat, binary_number_concat,
      length_shiftDown, List.length_append, List.length_singleton,
      pow_succ]
    zify at htop hrest ⊢
    linear_combination hrest + 256 ^ x.length * htop

/-- Only the highest byte has a sign, and the bytes below it take its
lowest bit in. -/
theorem signed_sra (hx : x ≠ []) (f : Flags) :
    2 * signed (shiftDown .sra x f).1
      + (shiftDown .sra x f).2.c.toNat = signed x := by
  obtain ⟨x, b, rfl⟩ := (List.eq_nil_or_concat' x).resolve_left hx
  have htop := sra_byte b f.c
  have hrest := number_shiftDown x (rotateShift .sra b f.c).2
  rw [shiftDown_concat, signed_append, signed_append, length_shiftDown]
  zify at hrest
  linear_combination hrest + 256 ^ x.length * htop

/-- A shift that takes no carry is one that rotates a clear carry. -/
theorem number_sla (hx : x ≠ []) (f : Flags) :
    binary.number (shiftUp .sla x f).1
      + 256 ^ x.length * (shiftUp .sla x f).2.c.toNat
      = 2 * binary.number x := by
  have hsla (b : UInt8) (c : Bool) :
      rotateShift .sla b c = rotateShift .rl b false := rfl
  have hrow : shiftUp .sla x f = shiftUp .rl x { f with c := false } := by
    rw [shiftUp, shiftUp, led_self, ripple_led hsla hx]
  rw [hrow]
  exact number_shiftUp x { f with c := false }

/-- A shift down halves, and the carry is the rest. -/
theorem number_srl (hx : x ≠ []) (f : Flags) :
    2 * binary.number (shiftDown .srl x f).1
      + (shiftDown .srl x f).2.c.toNat = binary.number x := by
  have hsrl (b : UInt8) (c : Bool) :
      rotateShift .srl b c = rotateShift .rr b false := rfl
  have hreverse : x.reverse ≠ [] := by simpa using hx
  have hrow : shiftDown .srl x f
      = shiftDown .rr x { f with c := false } := by
    rw [shiftDown, shiftDown, led_self, ripple_led hsrl hreverse]
  rw [hrow]
  exact number_shiftDown x { f with c := false }

/-- A shift downwards takes the one upwards back. -/
theorem shiftDown_shiftUp (x : List UInt8) (f : Flags) :
    let up := shiftUp .rl x f
    let down := shiftDown .rr up.1 up.2
    down.1 = x ∧ down.2.c = f.c := by
  intro up down
  have hlength : up.1.length = x.length := length_shiftUp .rl x f
  have hup : binary.number up.1 + 256 ^ x.length * up.2.c.toNat
      = 2 * binary.number x + f.c.toNat := number_shiftUp x f
  have hdown : 2 * binary.number down.1 + down.2.c.toNat
      = binary.number up.1 + 256 ^ up.1.length * up.2.c.toNat :=
    number_shiftDown up.1 up.2
  rw [hlength, hup] at hdown
  have hcarry := Bool.toNat_le f.c
  have hcarry' := Bool.toNat_le down.2.c
  refine ⟨binary_number_inj ?_ (by omega), eq_of_toNat_eq (by omega)⟩
  exact (length_shiftDown .rr up.1 up.2).trans hlength

-- ============================================================== the ring

/-- One rotation of the bytes with the carry. -/
def turn (s : List UInt8 × Flags) : List UInt8 × Flags :=
  shiftUp .rl s.1 s.2

/-- Bytes and carry as one number, with the carry on top. -/
def joined (s : List UInt8 × Flags) : ℕ :=
  binary.number s.1 + 256 ^ s.1.length * s.2.c.toNat

variable {s t : List UInt8 × Flags} {k : ℕ}

/-- The carry is on top of the bytes. -/
theorem joined_div (s : List UInt8 × Flags) :
    joined s / 256 ^ s.1.length = s.2.c.toNat := by
  rw [joined, Nat.add_mul_div_left _ _ (by positivity),
    Nat.div_eq_of_lt (binary_number_lt s.1), zero_add]

/-- Bytes and carry have one bit more than the bytes. -/
theorem joined_lt (s : List UInt8 × Flags) :
    joined s < 2 * 256 ^ s.1.length := by
  have hpos : 0 < 256 ^ s.1.length := by positivity
  have hcarry := Bool.toNat_lt s.2.c
  rw [← joined_div] at hcarry
  exact (Nat.div_lt_iff_lt_mul hpos).1 hcarry

/-- Bytes and carry are told by the joined number. -/
theorem joined_inj (hlen : s.1.length = t.1.length)
    (h : joined s = joined t) : s.1 = t.1 ∧ s.2.c = t.2.c := by
  have hcarry : s.2.c = t.2.c := by
    apply eq_of_toNat_eq
    rw [← joined_div, ← joined_div, h, hlen]
  rw [joined, joined, hlen, hcarry] at h
  exact ⟨binary_number_inj hlen (Nat.add_right_cancel h), hcarry⟩

/-- A turn doubles the number and takes the carry in below. -/
theorem joined_turn (s : List UInt8 × Flags) :
    joined (turn s) = 2 * binary.number s.1 + s.2.c.toNat := by
  rw [joined, turn, length_shiftUp, number_shiftUp]

/-- `t` is `s` after `k` rotations. -/
structure Turned (s t : List UInt8 × Flags) (k : ℕ) : Prop where
  length : t.1.length = s.1.length
  modEq : (joined t : ℤ) ≡ 2 ^ k * joined s [ZMOD 2 * 256 ^ s.1.length - 1]
  zero_iff : joined t = 0 ↔ joined s = 0

namespace Turned

theorem refl (s : List UInt8 × Flags) : Turned s s 0 :=
  ⟨rfl, by rw [pow_zero, one_mul], Iff.rfl⟩

/-- The carry moves from the top to the bottom, where it is worth
`2 * 256 ^ n - 1` less than twice as much. -/
theorem turn (h : Turned s t k) : Turned s (turn t) (k + 1) := by
  have hturn := joined_turn t
  refine ⟨(length_shiftUp .rl t.1 t.2).trans h.length, ?_, ?_⟩
  · have hdouble : (2 * joined t : ℤ) = joined (Alu.turn t)
        + (2 * 256 ^ s.1.length - 1) * t.2.c.toNat := by
      rw [hturn, joined, h.length]
      push_cast
      ring
    have hstep : (joined (Alu.turn t) : ℤ) ≡ 2 * joined t
        [ZMOD 2 * 256 ^ s.1.length - 1] :=
      Int.modEq_iff_add_fac.2 ⟨_, hdouble⟩
    rw [pow_succ', mul_assoc]
    exact hstep.trans (h.modEq.mul_left 2)
  · rw [← h.zero_iff, hturn, joined]
    simp

/-- A number of turns have turned that far. -/
theorem iterate (s : List UInt8 × Flags) (k : ℕ) :
    Turned s (Alu.turn^[k] s) k := by
  induction k with
  | zero => exact refl s
  | succ k ih =>
    rw [Function.iterate_succ_apply']
    exact ih.turn

/-- There are `8 * n + 1` bits in the ring. -/
theorem round (h : Turned s t (8 * s.1.length + 1)) :
    t.1 = s.1 ∧ t.2.c = s.2.c := by
  have hs := joined_lt s
  have ht := joined_lt t
  have hzero := h.zero_iff
  rw [h.length] at ht
  have hfull : (2 : ℤ) ^ (8 * s.1.length + 1) * joined s
      = joined s + (2 * 256 ^ s.1.length - 1) * joined s := by
    rw [pow_succ, pow_mul]
    ring
  have hdvd : (2 * 256 ^ s.1.length - 1 : ℤ) ∣ joined s - joined t := by
    refine Int.ModEq.dvd (h.modEq.trans ?_)
    exact (Int.modEq_iff_add_fac.2 ⟨_, hfull⟩).symm
  refine joined_inj h.length ?_
  -- Apart from 0, the numbers of a ring are fewer than the modulus.
  by_cases hs0 : joined s = 0
  · rw [hs0, hzero.2 hs0]
  · have ht0 : joined t ≠ 0 := fun h => hs0 (hzero.1 h)
    have hnear : |(joined s - joined t : ℤ)|
        < 2 * 256 ^ s.1.length - 1 := by
      zify at hs ht
      rw [abs_lt]
      omega
    have hequal := Int.eq_zero_of_abs_lt_dvd hdvd hnear
    omega

end Turned

/-- Shifts from byte to byte through carry are those of the whole
operand. Two that rotate the carry are inverse to each other, and one
comes round after as many steps as there are bits with the carry. -/
theorem shifts_compose (hx : x ≠ []) (f : Flags) :
    let doubled := shiftUp .sla x f
    let rotated := shiftUp .rl x f
    let halved := shiftDown .srl x f
    let halvedSigned := shiftDown .sra x f
    let restored := shiftDown .rr rotated.1 rotated.2
    let round := turn^[8 * x.length + 1] (x, f)
    (doubled.1.length = x.length
      ∧ binary.number doubled.1 + 256 ^ x.length * doubled.2.c.toNat
        = 2 * binary.number x)
    ∧ (rotated.1.length = x.length
      ∧ binary.number rotated.1 + 256 ^ x.length * rotated.2.c.toNat
        = 2 * binary.number x + f.c.toNat)
    ∧ (halved.1.length = x.length
      ∧ binary.number halved.1 = binary.number x / 2
      ∧ halved.2.c.toNat = binary.number x % 2)
    ∧ (halvedSigned.1.length = x.length
      ∧ signed halvedSigned.1 = signed x / 2
      ∧ (halvedSigned.2.c.toNat : ℤ) = signed x % 2)
    ∧ (restored.1 = x ∧ restored.2.c = f.c)
    ∧ (round.1 = x ∧ round.2.c = f.c) := by
  intro doubled rotated halved halvedSigned restored round
  have hunsigned : 2 * binary.number halved.1 + halved.2.c.toNat
      = binary.number x := number_srl hx f
  have hsigned : 2 * signed halvedSigned.1 + halvedSigned.2.c.toNat
      = signed x := signed_sra hx f
  have hlowest := Bool.toNat_le halved.2.c
  have hlowest' := Bool.toNat_le halvedSigned.2.c
  exact ⟨⟨length_shiftUp _ x f, number_sla hx f⟩,
    ⟨length_shiftUp _ x f, number_shiftUp x f⟩,
    ⟨length_shiftDown _ x f, by omega, by omega⟩,
    ⟨length_shiftDown _ x f, by omega, by omega⟩,
    shiftDown_shiftUp x f, (Turned.iterate (x, f) _).round⟩

/-- A negative operand whose lowest and highest bits are set, and fall
out. -/
theorem shifts_compose_falling_out :
    let x : List UInt8 := [0x81, 0x80]
    let f : Flags := { c := true }
    let rotated := shiftUp .rl x f
    let restored := shiftDown .rr rotated.1 rotated.2
    x ≠ [] ∧ (shiftUp .sla x f).1 = [0x02, 0x01]
      ∧ rotated.1 = [0x03, 0x01] ∧ rotated.2.c = true
      ∧ (shiftDown .srl x f).1 = [0x40, 0x40]
      ∧ (shiftDown .sra x f).1 = [0x40, 0xC0]
      ∧ signed (shiftDown .sra x f).1 = signed x / 2
      ∧ restored.1 = x ∧ restored.2.c = true
      ∧ (turn^[8 * x.length + 1] (x, f)).1 = x
      ∧ (turn^[8 * x.length + 1] (x, f)).2.c = f.c := by
  intro x f rotated restored
  have hx : x ≠ [] := by decide
  obtain ⟨-, -, -, ⟨-, hsigned, -⟩, hrestored, hround⟩ :=
    shifts_compose hx f
  exact ⟨hx, by decide, by decide, by decide, by decide, by decide,
    hsigned, hrestored.1, hrestored.2, hround.1, hround.2⟩

end HomeZ80.Alu
