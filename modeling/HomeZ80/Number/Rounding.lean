/-
Rounding to nearest, a half going to the even neighbour: of a quotient
to a natural number, and of a quotient to a binary number of 53
significant bits, as floating-point numbers of 64 bits have.

The binary numbers are counted in units of 2 ^ -1074, the smallest one
above zero. In that unit every one of them is a natural number, so a
rounded value is exact and can be computed with.
-/
namespace HomeZ80.Number

/-- The natural number nearest to `num / den`; a half goes to the even
one. -/
def roundDiv (num den : Nat) : Nat :=
  let q := num / den
  let twice := 2 * (num % den)
  if twice < den ∨ (twice = den ∧ q % 2 = 0) then q else q + 1

/-- The unit of the binary numbers is `1 / unitsPerOne`. -/
def unitsPerOne : Nat := 1 <<< 1074

/-- The binary number nearest to `num / den`, in units. The precision is
53 bits, less below `2 ^ 53` units. Nothing is too large here. -/
def roundBinary (num den : Nat) : Nat :=
  let scaled := num * unitsPerOne
  let spare := (scaled / den).log2 - 52
  roundDiv scaled (den <<< spare) <<< spare

/-- The first magnitude that is too large for 64 bits, in units. -/
def overflow : Nat := unitsPerOne <<< 1024

/-- Rounding is at most half a unit off. -/
theorem roundDiv_near (num : Nat) {den : Nat} (h : 0 < den) :
    2 * num ≤ 2 * (roundDiv num den * den) + den
      ∧ 2 * (roundDiv num den * den) ≤ 2 * num + den := by
  have hd := Nat.div_add_mod num den
  have hm := Nat.mod_lt num h
  rw [Nat.mul_comm] at hd
  simp only [roundDiv]
  split
  · omega
  · rw [Nat.add_mul, Nat.one_mul]
    omega

/-- A number that needs no rounding stays as it is. -/
theorem roundDiv_mul (n : Nat) {den : Nat} (h : 0 < den) :
    roundDiv (n * den) den = n := by
  simp [roundDiv, Nat.mul_div_cancel n h, h]

end HomeZ80.Number
