/-
Arithmetic on words is arithmetic on their two bytes, the low one first
and the high one with its carry. So what is known of rows of bytes holds
of words: for the result and its sign, overflow and carry a word is a row
of two (`ripple_bytes`). Half carry is the high byte's, since bit 12 is
bit 4 of that byte and the carry into the byte is the one that the word's
low bits leave. Zero alone is not a flag of the last byte.
-/
import HomeZ80.Proofs.Alu.Carry

namespace HomeZ80.Alu

open Reading

-- ========================================================= words as bytes

/-- The bytes of a word, in the order they are added in. -/
def bytes (w : UInt16) : List UInt8 :=
  [loByte w, hiByte w]

theorem toNat_hiByte (w : UInt16) : (hiByte w).toNat = w.toNat / 256 := by
  have h := w.toNat_lt
  simp [hiByte]
  omega

theorem toNat_loByte (w : UInt16) : (loByte w).toNat = w.toNat % 256 := by
  simp [loByte]

/-- A word is put together from its bytes. -/
theorem bytes_word (hi lo : UInt8) : bytes (word hi lo) = [lo, hi] := by
  rw [bytes, loByte_word, hiByte_word]

/-- A word is the number of its bytes, low one first. -/
theorem number_bytes (w : UInt16) : binary.number (bytes w) = w.toNat := by
  have hbytes : binary.number (bytes w)
      = (loByte w).toNat + 256 * ((hiByte w).toNat + 256 * 0) := by
    rw [bytes, number_cons, number_cons, number_nil]
    rfl
  rw [hbytes, toNat_hiByte, toNat_loByte]
  omega

/-- In two's complement, too, a word is the number of its bytes. -/
theorem signed_bytes (w : UInt16) :
    signed (bytes w) = w.toInt16.toInt := by
  have hw : w.toInt16.toInt = Int.bmod w.toNat 65536 :=
    BitVec.toInt_eq_toNat_bmod _
  have hsize : 256 ^ (bytes w).length = 65536 := by norm_num [bytes]
  rw [signed, number_bytes, hsize, hw]

/-- The sign of a word is that of its high byte. -/
theorem negativeWord_eq (w : UInt16) :
    negativeWord w = negative (hiByte w) := by
  have hword : negativeWord w = decide (32768 ≤ w.toNat) := rfl
  have hbyte : negative (hiByte w) = decide (128 ≤ (hiByte w).toNat) := rfl
  rw [hword, hbyte, toNat_hiByte, decide_eq_decide]
  omega

-- ======================================================= byte after byte

variable {sign : ℤ} {op : UInt8 → UInt8 → Cell}

/-- A byte operation on the low bytes, and then with its carry on the
high ones. The flags are those of the high bytes, but for zero, which is
told of the whole word. -/
def onBytes (op : UInt8 → UInt8 → Cell) (a v : UInt16) (c : Bool) :
    UInt16 × Flags :=
  let low := op (loByte a) (loByte v) c
  let high := op (hiByte a) (hiByte v) low.2.c
  let result := word high.1 low.1
  (result, { high.2 with z := result == 0 })

/-- Two rounds of a byte operation give the two bytes of a word. -/
theorem ripple_bytes (op : UInt8 → UInt8 → Cell) (a v : UInt16)
    (c : Bool) :
    ∃ z, ripple (List.zipWith op (bytes a) (bytes v)) { c := c }
      = (bytes (onBytes op a v c).1,
        { (onBytes op a v c).2 with z := z }) := by
  refine ⟨(op (hiByte a) (hiByte v)
    (op (loByte a) (loByte v) c).2.c).2.z, ?_⟩
  rw [onBytes, bytes_word]
  rfl

/-- What is exact on bytes is exact on words, with a carry of 65536. -/
theorem Exact.onBytes (h : Exact binary sign op) (a v : UInt16)
    (c : Bool) :
    ((onBytes op a v c).1.toNat : ℤ)
      + sign * (65536 * (onBytes op a v c).2.c.toNat)
      = a.toNat + sign * (v.toNat + c.toNat) := by
  obtain ⟨z, hr⟩ := ripple_bytes op a v c
  have hnumber := h.binary_ripple (x := bytes a) (y := bytes v) rfl
    { c := c }
  have hsize : (256 : ℤ) ^ (bytes a).length = 65536 := by norm_num [bytes]
  rw [hr, number_bytes, number_bytes, number_bytes, hsize] at hnumber
  exact hnumber

/-- A result modulo 65536 and the flags that tell of it: its sign, and
whether the numbers it stands for, read without and with a sign, are out
of range. -/
structure IsWord (unsigned signed : ℤ) (r : UInt16 × Flags) : Prop where
  result : (r.1.toNat : ℤ) = unsigned % 65536
  sign_iff : r.2.s = true ↔ r.1.toInt16.toInt < 0
  overflow_iff : r.2.pv = true ↔ ¬ (-32768 ≤ signed ∧ signed < 32768)
  carry_iff : r.2.c = true ↔ ¬ (0 ≤ unsigned ∧ unsigned < 65536)

/-- What fits in a word in two's complement. -/
theorem fits_two {t : ℤ} : Fits 2 t ↔ -32768 ≤ t ∧ t < 32768 := by
  rw [Fits]
  omega

theorem IsSigned.isWord (h : IsSigned sign op) (a v : UInt16) (c : Bool) :
    IsWord (a.toNat + sign * (v.toNat + c.toNat))
      (a.toInt16.toInt + sign * (v.toInt16.toInt + c.toNat))
      (onBytes op a v c) := by
  have hnumber := h.exact.onBytes a v c
  have hresult := (onBytes op a v c).1.toNat_lt
  obtain ⟨z, hr⟩ := ripple_bytes op a v c
  obtain ⟨hsign, hoverflow, -⟩ := h.flags_ripple (x := bytes a)
    (y := bytes v) (List.cons_ne_nil _ _) rfl { c := c }
  have hlength : (bytes a).length = 2 := rfl
  rw [hr, signed_bytes] at hsign
  rw [hr, signed_bytes, signed_bytes, hlength, fits_two] at hoverflow
  generalize (a.toNat + sign * (v.toNat + c.toNat) : ℤ) = unsigned at *
  refine ⟨?_, hsign, hoverflow, ?_⟩
  · rcases h.sign_eq with rfl | rfl <;> omega
  · have hcarry := Bool.toNat_le (onBytes op a v c).2.c
    rw [← Bool.toNat_eq_one]
    rcases h.sign_eq with rfl | rfl <;> omega

-- ============================================== sums and differences

/-- Two bytes added with carry are a word added. -/
theorem isWord_add (a v : UInt16) (c : Bool) :
    IsWord (a.toNat + v.toNat + c.toNat)
      (a.toInt16.toInt + v.toInt16.toInt + c.toNat)
      (onBytes add8 a v c) := by
  have h := isSigned_add8.isWord a v c
  simpa only [one_mul, ← add_assoc] using h

/-- Two bytes subtracted with borrow are a word subtracted. -/
theorem isWord_sub (a v : UInt16) (c : Bool) :
    IsWord (a.toNat - v.toNat - c.toNat)
      (a.toInt16.toInt - v.toInt16.toInt - c.toNat)
      (onBytes sub8 a v c) := by
  have h := isSigned_sub8.isWord a v c
  simpa only [neg_one_mul, ← sub_eq_add_neg, ← sub_sub] using h

/-- A carry out of the low bytes is worth one in the low digits of the
high ones. -/
theorem half_add (a v : UInt16) (c : Bool) :
    (onBytes add8 a v c).2.h
      = decide (4096 ≤ a.toNat % 4096 + v.toNat % 4096 + c.toNat) := by
  have hhigh : (onBytes add8 a v c).2.h = (add8 (hiByte a) (hiByte v)
      (add8 (loByte a) (loByte v) c).2.c).2.h := rfl
  have hc := Bool.toNat_le c
  rw [hhigh, half_add8, carry_add8, toNat_decide, decide_eq_decide,
    toNat_hiByte, toNat_hiByte, toNat_loByte, toNat_loByte]
  split
  · omega
  · omega

/-- The half carry of the high bytes is the borrow of the lower twelve
bits. -/
theorem half_sub (a v : UInt16) (c : Bool) :
    (onBytes sub8 a v c).2.h
      = decide (a.toNat % 4096 < v.toNat % 4096 + c.toNat) := by
  have hhigh : (onBytes sub8 a v c).2.h = (sub8 (hiByte a) (hiByte v)
      (sub8 (loByte a) (loByte v) c).2.c).2.h := rfl
  have hc := Bool.toNat_le c
  rw [hhigh, half_sub8, carry_sub8, toNat_decide, decide_eq_decide,
    toNat_hiByte, toNat_hiByte, toNat_loByte, toNat_loByte]
  split
  · omega
  · omega

/-- Sign, overflow and the two copied bits are read off the high bytes,
so they agree once the words do. -/
theorem adc16_eq (a v : UInt16) (c : Bool) :
    adc16 a v c = onBytes add8 a v c := by
  have hbytes := isWord_add a v c
  have hword : UInt16.ofNat (a.toNat + v.toNat + c.toNat)
      = (onBytes add8 a v c).1 := by
    have hresult := hbytes.result
    apply UInt16.toNat_inj.1
    rw [UInt16.toNat_ofNat']
    omega
  have hcarry : decide (65536 ≤ a.toNat + v.toNat + c.toNat)
      = (onBytes add8 a v c).2.c := by
    rw [Bool.eq_iff_iff, hbytes.carry_iff, decide_eq_true_iff]
    omega
  have hhigh : hiByte (onBytes add8 a v c).1 = (add8 (hiByte a)
      (hiByte v) (add8 (loByte a) (loByte v) c).2.c).1 := hiByte_word _ _
  rw [adc16, hword, hcarry, ← half_add, negativeWord_eq,
    negativeWord_eq, negativeWord_eq, hhigh]
  rfl

/-- Subtraction of words is that of their bytes, flags included. -/
theorem sbc16_eq (a v : UInt16) (c : Bool) :
    sbc16 a v c = onBytes sub8 a v c := by
  have hbytes := isWord_sub a v c
  have hc := Bool.toNat_le c
  have hv := v.toNat_lt
  have hword : UInt16.ofNat (131072 + a.toNat - v.toNat - c.toNat)
      = (onBytes sub8 a v c).1 := by
    have hresult := hbytes.result
    apply UInt16.toNat_inj.1
    rw [UInt16.toNat_ofNat']
    omega
  have hcarry : decide (a.toNat < v.toNat + c.toNat)
      = (onBytes sub8 a v c).2.c := by
    have ha := a.toNat_lt
    rw [Bool.eq_iff_iff, hbytes.carry_iff, decide_eq_true_iff]
    omega
  have hhigh : hiByte (onBytes sub8 a v c).1 = (sub8 (hiByte a)
      (hiByte v) (sub8 (loByte a) (loByte v) c).2.c).1 := hiByte_word _ _
  rw [sbc16, hword, hcarry, ← half_sub, negativeWord_eq,
    negativeWord_eq, negativeWord_eq, hhigh]
  rfl

/-- Addition that keeps some flags is addition without a carry, and the
rest of its flags. -/
theorem add16_eq (a v : UInt16) (f : Flags) :
    add16 a v f = ((adc16 a v false).1,
      { (adc16 a v false).2 with
        s := f.s, z := f.z, pv := f.pv, n := false }) :=
  rfl

/-- Word arithmetic is byte arithmetic, low byte first. Sign, overflow
and carry are those of the whole words. -/
theorem words_by_bytes (a v : UInt16) (c : Bool) (f : Flags) :
    adc16 a v c = onBytes add8 a v c
      ∧ sbc16 a v c = onBytes sub8 a v c
      ∧ add16 a v f = ((adc16 a v false).1,
        { (adc16 a v false).2 with
          s := f.s, z := f.z, pv := f.pv, n := false })
      ∧ IsWord (a.toNat + v.toNat + c.toNat)
        (a.toInt16.toInt + v.toInt16.toInt + c.toNat) (adc16 a v c)
      ∧ IsWord (a.toNat - v.toNat - c.toNat)
        (a.toInt16.toInt - v.toInt16.toInt - c.toNat) (sbc16 a v c) := by
  refine ⟨adc16_eq a v c, sbc16_eq a v c, add16_eq a v f, ?_, ?_⟩
  · rw [adc16_eq]
    exact isWord_add a v c
  · rw [sbc16_eq]
    exact isWord_sub a v c

end HomeZ80.Alu
