/-
Operations on operands longer than a byte. They are carried out byte by
byte, each byte taking the carry that the one before it left in the
flags; `ripple` is that loop, and the flags at its end are those of the
last byte.

Nothing is lost on the way: the carry out of a digit is worth one of the
next, which takes it in. So if an operation is exact on single digits
(`Exact`), then it is exact along operands of any length
(`Exact.number_ripple`). Addition and subtraction are treated as one,
with a sign before the second operand and the carries.
-/
import HomeZ80.Flags
import HomeZ80.Proofs.Alu.Reading

namespace HomeZ80.Alu

open Reading

/-- An operation on a byte that waits for its carry. -/
abbrev Cell := Bool → UInt8 × Flags

/-- Operations one after the other, each with the carry of the one
before it. -/
def ripple : List Cell → Flags → List UInt8 × Flags
  | [], f => ([], f)
  | cell :: cells, f =>
    let first := cell f.c
    let rest := ripple cells first.2
    (first.1 :: rest.1, rest.2)

theorem length_ripple (cells : List Cell) (f : Flags) :
    (ripple cells f).1.length = cells.length := by
  induction cells generalizing f with
  | nil => rfl
  | cons cell cells ih => exact congrArg (· + 1) (ih (cell f.c).2)

/-- A row may be cut, with the flags handed on. -/
theorem ripple_append (low high : List Cell) (f : Flags) :
    ripple (low ++ high) f =
      ((ripple low f).1 ++ (ripple high (ripple low f).2).1,
        (ripple high (ripple low f).2).2) := by
  induction low generalizing f with
  | nil => rfl
  | cons cell low ih =>
    rw [List.cons_append, ripple, ih]
    rfl

/-- A row that begins with an operation of its own. -/
def led {α : Type} (first next : α → Cell) : List α → List Cell
  | [] => []
  | a :: rest => first a :: rest.map next

/-- A row that begins as it goes on. -/
theorem led_self {α : Type} (next : α → Cell) (as : List α) :
    led next next as = as.map next := by
  cases as <;> rfl

/-- There is a cell for each operand. -/
theorem length_led {α : Type} (first next : α → Cell) (as : List α) :
    (led first next as).length = as.length := by
  cases as with
  | nil => rfl
  | cons a rest => exact congrArg (· + 1) (List.length_map next)

/-- An operation that takes no carry can begin a row in place of one that
does, if the carry is then left out. -/
theorem ripple_led {α : Type} {first next : α → Cell}
    (h : ∀ a c, first a c = next a false) {as : List α} (has : as ≠ [])
    (f : Flags) :
    ripple (led first next as) f
      = ripple (as.map next) { f with c := false } := by
  obtain ⟨a, rest, rfl⟩ := List.exists_cons_of_ne_nil has
  rw [led, List.map_cons, ripple, ripple, h]

-- ============================================================ exactness

variable {d : Reading} {sign : ℤ} {op : UInt8 → UInt8 → Cell}
  {x y : List UInt8}

/-- Operands of one length give a result of that length. -/
theorem length_ripple_zipWith (hlen : y.length = x.length) (f : Flags) :
    (ripple (List.zipWith op x y) f).1.length = x.length := by
  rw [length_ripple, List.length_zipWith, hlen, Nat.min_self]

theorem ripple_zipWith_append (hlen : y.length = x.length) (a v : UInt8)
    (f : Flags) :
    let low := ripple (List.zipWith op x y) f
    ripple (List.zipWith op (x ++ [a]) (y ++ [v])) f
      = (low.1 ++ [(op a v low.2.c).1], (op a v low.2.c).2) := by
  rw [List.zipWith_append hlen.symm, ripple_append]
  rfl

/-- On single digits an operation is addition (`sign` is 1) or
subtraction (`sign` is -1) of the second operand and the carry in. What
the result has beyond a digit, or lacks, is told by the carry out. -/
structure Exact (d : Reading) (sign : ℤ) (op : UInt8 → UInt8 → Cell) :
    Prop where
  isDigit {a v : UInt8} (ha : d.IsDigit a) (hv : d.IsDigit v)
    (c : Bool) : d.IsDigit (op a v c).1
  balance {a v : UInt8} (ha : d.IsDigit a) (hv : d.IsDigit v)
    (c : Bool) :
    (d.digit (op a v c).1 : ℤ) + sign * (d.base * (op a v c).2.c.toNat)
      = d.digit a + sign * (d.digit v + c.toNat)

namespace Exact

/-- Digits give digits. -/
theorem isDigit_ripple (h : Exact d sign op)
    (hx : ∀ b ∈ x, d.IsDigit b) (hy : ∀ b ∈ y, d.IsDigit b)
    (f : Flags) :
    ∀ b ∈ (ripple (List.zipWith op x y) f).1, d.IsDigit b := by
  induction x generalizing y f with
  | nil => exact fun b hb => absurd hb List.not_mem_nil
  | cons a x ih =>
    cases y with
    | nil => exact fun b hb => absurd hb List.not_mem_nil
    | cons v y =>
      obtain ⟨ha, hx⟩ := List.forall_mem_cons.1 hx
      obtain ⟨hv, hy⟩ := List.forall_mem_cons.1 hy
      exact List.forall_mem_cons.2 ⟨h.isDigit ha hv f.c, ih hx hy _⟩

/-- The carry out of each digit cancels against the carry that the next
one takes in. -/
theorem number_ripple (h : Exact d sign op)
    (hlen : y.length = x.length)
    (hx : ∀ b ∈ x, d.IsDigit b) (hy : ∀ b ∈ y, d.IsDigit b)
    (f : Flags) :
    let r := ripple (List.zipWith op x y) f
    (d.number r.1 : ℤ) + sign * (d.base ^ x.length * r.2.c.toNat)
      = d.number x + sign * (d.number y + f.c.toNat) := by
  intro r
  induction x generalizing y f with
  | nil =>
    obtain rfl := List.length_eq_zero_iff.1 hlen
    simp [r, ripple]
  | cons a x ih =>
    obtain ⟨v, y, rfl⟩ := List.exists_cons_of_length_eq_add_one hlen
    obtain ⟨ha, hx⟩ := List.forall_mem_cons.1 hx
    obtain ⟨hv, hy⟩ := List.forall_mem_cons.1 hy
    have hfirst := h.balance ha hv f.c
    have hrest := ih (Nat.succ.inj hlen) hx hy (op a v f.c).2
    have hr : r = ((op a v f.c).1
      :: (ripple (List.zipWith op x y) (op a v f.c).2).1,
        (ripple (List.zipWith op x y) (op a v f.c).2).2) := rfl
    rw [hr, List.length_cons, pow_succ']
    simp only [number_cons, Nat.cast_add, Nat.cast_mul]
    linear_combination hfirst + d.base * hrest

/-- What is exact on bytes is exact on rows of bytes. -/
theorem binary_ripple (h : Exact binary sign op)
    (hlen : y.length = x.length) (f : Flags) :
    (binary.number (ripple (List.zipWith op x y) f).1 : ℤ)
      + sign * (256 ^ x.length
        * (ripple (List.zipWith op x y) f).2.c.toNat)
      = binary.number x + sign * (binary.number y + f.c.toNat) :=
  h.number_ripple hlen (fun _ _ => trivial) (fun _ _ => trivial) f

end Exact

end HomeZ80.Alu
