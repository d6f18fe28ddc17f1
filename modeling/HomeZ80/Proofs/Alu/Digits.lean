/-
Strings of bytes as rows of hexadecimal digits, two to a byte and the
lowest first, and the rotations that pass a digit through the
accumulator.

# One row

A byte and the low digit of the accumulator are three digits in a ring.
To the left, the accumulator's digit goes in at the low end of the byte,
and the byte's high digit comes out into the accumulator; to the right it
is the other way round (`rld_digits`, `rrd_digits`). The high digit of
the accumulator takes no part.

So from byte to byte upwards, each byte takes in what the one below it
has put out, and nothing comes between them: the whole row moves up by
one digit (`hexDigits_rollLeft`). From byte to byte downwards, each byte
takes back what it has put out (`rollRight_rollLeft`). The flags on the
way back may be any, since no digit depends on them.
-/
import HomeZ80.Alu.Shift
import HomeZ80.Proofs.Alu.Reading

namespace HomeZ80.Alu

open Reading

-- =============================================================== one byte

theorem toNat_joinDigits (high low : UInt8) :
    (joinDigits high low).toNat
      = 16 * (high.toNat / 16) + low.toNat % 16 := by
  have hhigh := high.toNat_lt
  simp [joinDigits]
  omega

/-- The digits of the byte, and then those of the accumulator. -/
theorem rld_digits (a v : UInt8) (f : Flags) :
    (rld a v f).2.1.toNat = 16 * (v.toNat % 16) + a.toNat % 16
      ∧ (rld a v f).1.toNat = 16 * (a.toNat / 16) + v.toNat / 16 := by
  have hv := v.toNat_lt
  have hbyte : (rld a v f).2.1 = v * 16 + a % 16 := rfl
  have haccumulator : (rld a v f).1 = joinDigits a (v / 16) := rfl
  rw [hbyte, haccumulator, toNat_joinDigits, UInt8.toNat_add,
    UInt8.toNat_mul, UInt8.toNat_mod, UInt8.toNat_div]
  have hsixteen : (16 : UInt8).toNat = 16 := rfl
  rw [hsixteen]
  omega

/-- The digits that a rotation to the right moves. -/
theorem rrd_digits (a v : UInt8) (f : Flags) :
    (rrd a v f).2.1.toNat = 16 * (a.toNat % 16) + v.toNat / 16
      ∧ (rrd a v f).1.toNat = 16 * (a.toNat / 16) + v.toNat % 16 := by
  have hv := v.toNat_lt
  have hbyte : (rrd a v f).2.1 = a * 16 + v / 16 := rfl
  have haccumulator : (rrd a v f).1 = joinDigits a v := rfl
  rw [hbyte, haccumulator, toNat_joinDigits, UInt8.toNat_add,
    UInt8.toNat_mul, UInt8.toNat_div]
  have hsixteen : (16 : UInt8).toNat = 16 := rfl
  rw [hsixteen]
  omega

theorem rrd_rld (a v : UInt8) (f g : Flags) :
    let left := rld a v f
    let back := rrd left.1 left.2.1 g
    back.1 = a ∧ back.2.1 = v := by
  intro left back
  obtain ⟨hbyte, haccumulator⟩ := rld_digits a v f
  obtain ⟨hbyte', haccumulator'⟩ := rrd_digits left.1 left.2.1 g
  have hv := v.toNat_lt
  constructor
  · apply UInt8.toNat_inj.1
    rw [haccumulator', haccumulator, hbyte]
    omega
  · apply UInt8.toNat_inj.1
    rw [hbyte', haccumulator, hbyte]
    omega

-- ============================================================= whole rows

/-- A rotation of digits between the accumulator and a byte. -/
abbrev DigitRotation :=
  UInt8 → UInt8 → Flags → UInt8 × UInt8 × Flags

/-- A rotation from byte to byte, in the order of the list. The
accumulator and the flags go on to the next byte. -/
def roll (rotate : DigitRotation) :
    List UInt8 → UInt8 → Flags → List UInt8 × UInt8 × Flags
  | [], a, f => ([], a, f)
  | v :: x, a, f =>
    let first := rotate a v f
    let rest := roll rotate x first.1 first.2.2
    (first.2.1 :: rest.1, rest.2)

/-- To the left, from the lowest byte upwards. -/
def rollLeft (x : List UInt8) (a : UInt8) (f : Flags) :
    List UInt8 × UInt8 × Flags :=
  roll rld x a f

/-- To the right, from the highest byte downwards. -/
def rollRight (x : List UInt8) (a : UInt8) (f : Flags) :
    List UInt8 × UInt8 × Flags :=
  let r := roll rrd x.reverse a f
  (r.1.reverse, r.2)

variable {rotate : DigitRotation}

/-- The digits move between bytes, and no byte is lost. -/
theorem length_roll (x : List UInt8) (a : UInt8) (f : Flags) :
    (roll rotate x a f).1.length = x.length := by
  induction x generalizing a f with
  | nil => rfl
  | cons v x ih => exact congrArg (· + 1) (ih _ _)

/-- A string may be rolled in two parts, with the accumulator handed on. -/
theorem roll_append (x y : List UInt8) (a : UInt8) (f : Flags) :
    let first := roll rotate x a f
    let rest := roll rotate y first.2.1 first.2.2
    roll rotate (x ++ y) a f = (first.1 ++ rest.1, rest.2) := by
  induction x generalizing a f with
  | nil => rfl
  | cons v x ih =>
    intro first rest
    rw [List.cons_append, roll, ih]
    rfl

/-- To the right the highest byte comes first. -/
theorem rollRight_cons (v : UInt8) (x : List UInt8) (a : UInt8)
    (f : Flags) :
    let above := rollRight x a f
    let last := rrd above.2.1 v above.2.2
    rollRight (v :: x) a f = (last.2.1 :: above.1, last.1, last.2.2) := by
  intro above last
  rw [rollRight, List.reverse_cons, roll_append, List.reverse_append]
  rfl

/-- A rotation that leaves the carry alone does so all the way. -/
theorem carry_roll (h : ∀ a v f, (rotate a v f).2.2.c = f.c)
    (x : List UInt8) (a : UInt8) (f : Flags) :
    (roll rotate x a f).2.2.c = f.c := by
  induction x generalizing a f with
  | nil => rfl
  | cons v x ih => exact (ih _ _).trans (h a v f)

/-- Carry has no part in it. -/
theorem carry_rollLeft (x : List UInt8) (a : UInt8) (f : Flags) :
    (rollLeft x a f).2.2.c = f.c :=
  carry_roll (fun _ _ _ => rfl) x a f

theorem carry_rollRight (x : List UInt8) (a : UInt8) (f : Flags) :
    (rollRight x a f).2.2.c = f.c :=
  carry_roll (fun _ _ _ => rfl) x.reverse a f

/-- The upper digit of the accumulator stays. -/
theorem high_rollLeft (x : List UInt8) (a : UInt8) (f : Flags) :
    (rollLeft x a f).2.1.toNat / 16 = a.toNat / 16 := by
  induction x generalizing a f with
  | nil => rfl
  | cons v x ih =>
    have hfirst := (rld_digits a v f).2
    have hrest := ih (rld a v f).1 (rld a v f).2.2
    have hv := v.toNat_lt
    have hroll : (rollLeft (v :: x) a f).2
        = (rollLeft x (rld a v f).1 (rld a v f).2.2).2 := rfl
    rw [hroll, hrest, hfirst]
    omega

-- ============================================================ the digits

/-- The hexadecimal digits of a string of bytes, the lowest first. -/
def hexDigits (x : List UInt8) : List ℕ :=
  x.flatMap fun b => [b.toNat % 16, b.toNat / 16]

/-- The lower digit of a byte comes first. -/
theorem hexDigits_cons (b : UInt8) (x : List UInt8) :
    hexDigits (b :: x) = b.toNat % 16 :: b.toNat / 16 :: hexDigits x :=
  rfl

theorem length_hexDigits (x : List UInt8) :
    (hexDigits x).length = 2 * x.length := by
  induction x with
  | nil => rfl
  | cons b x ih =>
    rw [hexDigits_cons, List.length_cons, List.length_cons, ih,
      List.length_cons]
    omega

/-- Read by digits or by bytes, a string is the same number. -/
theorem ofDigits_hexDigits (x : List UInt8) :
    Nat.ofDigits 16 (hexDigits x) = binary.number x := by
  induction x with
  | nil => rfl
  | cons b x ih =>
    rw [hexDigits_cons, Nat.ofDigits_cons, Nat.ofDigits_cons, ih,
      binary_number_cons]
    omega

/-- The row moves up by one digit: the accumulator's comes first, and the
last one goes to the accumulator. -/
theorem hexDigits_rollLeft (x : List UInt8) (a : UInt8) (f : Flags) :
    let left := rollLeft x a f
    hexDigits left.1 ++ [left.2.1.toNat % 16]
      = a.toNat % 16 :: hexDigits x := by
  induction x generalizing a f with
  | nil => rfl
  | cons v x ih =>
    intro left
    let first := rld a v f
    let rest := rollLeft x first.1 first.2.2
    have hbyte : first.2.1.toNat = 16 * (v.toNat % 16) + a.toNat % 16 :=
      (rld_digits a v f).1
    have haccumulator : first.1.toNat
        = 16 * (a.toNat / 16) + v.toNat / 16 := (rld_digits a v f).2
    have hv := v.toNat_lt
    have hleft : left = (first.2.1 :: rest.1, rest.2) := rfl
    have hrest : hexDigits rest.1 ++ [rest.2.1.toNat % 16]
        = first.1.toNat % 16 :: hexDigits x := ih first.1 first.2.2
    have hin : first.2.1.toNat % 16 = a.toNat % 16 := by omega
    have hmoved : first.2.1.toNat / 16 = v.toNat % 16 := by omega
    have hout : first.1.toNat % 16 = v.toNat / 16 := by omega
    rw [hleft, hexDigits_cons, List.cons_append, List.cons_append, hrest,
      hexDigits_cons, hin, hmoved, hout]

/-- A string rolled to the left is 16 times what it was, with the digit
that comes in, and the one that goes out on top. -/
theorem number_rollLeft (x : List UInt8) (a : UInt8) (f : Flags) :
    let left := rollLeft x a f
    binary.number left.1 + 16 ^ (2 * x.length) * (left.2.1.toNat % 16)
      = 16 * binary.number x + a.toNat % 16 := by
  intro left
  have hlength : (hexDigits left.1).length = 2 * x.length :=
    (length_hexDigits left.1).trans (congrArg (2 * ·) (length_roll x a f))
  have hrow := congrArg (Nat.ofDigits 16) (hexDigits_rollLeft x a f)
  rw [Nat.ofDigits_append, Nat.ofDigits_singleton, Nat.ofDigits_cons,
    ofDigits_hexDigits, ofDigits_hexDigits, hlength] at hrow
  rw [hrow, Nat.add_comm]

/-- To the right takes the row back, whatever the flags. -/
theorem rollRight_rollLeft (x : List UInt8) (a : UInt8) (f g : Flags) :
    let left := rollLeft x a f
    let back := rollRight left.1 left.2.1 g
    back.1 = x ∧ back.2.1 = a := by
  induction x generalizing a f with
  | nil => exact ⟨rfl, rfl⟩
  | cons v x ih =>
    intro left back
    let first := rld a v f
    let rest := rollLeft x first.1 first.2.2
    let above := rollRight rest.1 rest.2.1 g
    obtain ⟨hbytes, haccumulator⟩ : above.1 = x ∧ above.2.1 = first.1 :=
      ih first.1 first.2.2
    have hback : back = ((rrd above.2.1 first.2.1 above.2.2).2.1
        :: above.1, (rrd above.2.1 first.2.1 above.2.2).1,
          (rrd above.2.1 first.2.1 above.2.2).2.2) :=
      rollRight_cons first.2.1 rest.1 rest.2.1 g
    obtain ⟨ha, hv⟩ := rrd_rld a v f above.2.2
    rw [hback, hbytes, haccumulator]
    exact ⟨congrArg (· :: x) hv, ha⟩

end HomeZ80.Alu
