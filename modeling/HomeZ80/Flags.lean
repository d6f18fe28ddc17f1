/-
The flag register. Its eight bits are kept apart, one Boolean each, so
an operation that sets some of them and leaves the rest says exactly
that; the byte form is needed only where F is stored, loaded or shown.
Every bit has a name, the two copies of result bits 5 and 3 included,
so the byte form and this one carry the same information
(`toByte_ofByte`, `ofByte_toByte`).
-/
import HomeZ80.Word

namespace HomeZ80

/-- The eight flags, from bit 7 of F down to bit 0. -/
structure Flags where
  /-- Sign. -/
  s : Bool := false
  /-- Zero. -/
  z : Bool := false
  /-- Copy of result bit 5. -/
  y : Bool := false
  /-- Half carry. -/
  h : Bool := false
  /-- Copy of result bit 3. -/
  x : Bool := false
  /-- Parity or overflow. -/
  pv : Bool := false
  /-- The last operation subtracted. -/
  n : Bool := false
  /-- Carry. -/
  c : Bool := false
  deriving DecidableEq, Repr, Inhabited

/-- The flags by name. -/
inductive Flag where
  | s | z | y | h | x | pv | n | c
  deriving DecidableEq, Repr, Inhabited

namespace Flags

/-- The value of one flag bit in the byte form. -/
@[inline] def weigh (flag : Bool) (weight : UInt8) : UInt8 :=
  if flag then weight else 0

/-- F as a byte. -/
def toByte (f : Flags) : UInt8 :=
  weigh f.s 128 + weigh f.z 64 + weigh f.y 32 + weigh f.h 16
    + weigh f.x 8 + weigh f.pv 4 + weigh f.n 2 + weigh f.c 1

/-- The flags held in a byte. -/
def ofByte (v : UInt8) : Flags where
  s := bitOf v 7
  z := bitOf v 6
  y := bitOf v 5
  h := bitOf v 4
  x := bitOf v 3
  pv := bitOf v 2
  n := bitOf v 1
  c := bitOf v 0

/-- The flag of a given name. -/
def get (f : Flags) : Flag → Bool
  | .s => f.s
  | .z => f.z
  | .y => f.y
  | .h => f.h
  | .x => f.x
  | .pv => f.pv
  | .n => f.n
  | .c => f.c

/-- The flags with the one named set to `value`. -/
def put (f : Flags) (value : Bool) : Flag → Flags
  | .s => { f with s := value }
  | .z => { f with z := value }
  | .y => { f with y := value }
  | .h => { f with h := value }
  | .x => { f with x := value }
  | .pv => { f with pv := value }
  | .n => { f with n := value }
  | .c => { f with c := value }

/-- The flags with bits 5 and 3 taken from `v`. -/
@[inline] def copyXY (f : Flags) (v : UInt8) : Flags :=
  { f with y := bitOf v 5, x := bitOf v 3 }

theorem ofByte_toByte (f : Flags) : ofByte f.toByte = f := by
  obtain ⟨s, z, y, h, x, pv, n, c⟩ := f
  revert s z y h x pv n c
  decide

theorem toByte_ofByte (v : UInt8) : (ofByte v).toByte = v := by
  obtain ⟨⟨v⟩⟩ := v
  revert v
  decide +kernel

end Flags

/-- Whether a byte has an even number of set bits. -/
def evenParity (v : UInt8) : Bool :=
  !(bitOf v 7 ^^ bitOf v 6 ^^ bitOf v 5 ^^ bitOf v 4
    ^^ bitOf v 3 ^^ bitOf v 2 ^^ bitOf v 1 ^^ bitOf v 0)

/-- Even parity of every byte, indexed by the byte. -/
def parityTable : Vector Bool 256 :=
  Vector.ofFn fun i => evenParity (UInt8.ofNat i)

/-- Even parity read off the table. -/
@[inline] def parity (v : UInt8) : Bool :=
  parityTable.get ⟨v.toNat, v.toNat_lt⟩

namespace Flags

/-- Sign, zero and bits 5 and 3 of a result; all other flags clear. -/
@[inline] def ofResult (v : UInt8) : Flags :=
  { s := bitOf v 7, z := v == 0, y := bitOf v 5, x := bitOf v 3 }

/-- `ofResult` with the parity of the result. -/
@[inline] def ofResultParity (v : UInt8) : Flags :=
  { ofResult v with pv := parity v }

end Flags

theorem parity_eq (v : UInt8) : parity v = evenParity v := by
  have h := v.toNat_lt
  show parityTable[v.toNat] = _
  simp [parityTable]

end HomeZ80
