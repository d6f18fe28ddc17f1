/-
The arena: every byte the machine can map into its address space, in
named regions of fixed size. A region is either writable or read-only;
loading an image ignores the difference, writing respects it.

The arena also holds the fault latch. The first fault raised stays
there until it is taken, later ones leave it alone.

The two laws that everything about memory comes back to are
`Arena.byte?_put`, what a byte reads as after a store, and
`Arena.refusal?_put`, that a store changes no access right and no size.
-/
import HomeZ80.Log

namespace HomeZ80

/-- One byte of storage: a region and an offset into it. -/
structure Place where
  region : Nat
  offset : Nat
  deriving DecidableEq, Repr, Inhabited

/-- Byte arrays are compared as the core library compares them. -/
instance byteArrayDecEq : DecidableEq ByteArray := ByteArray.decEq

/-- A run of bytes with a name. -/
structure Region where
  name : String
  data : ByteArray
  writable : Bool
  deriving Inhabited, DecidableEq

namespace Region

/-- The byte at an offset, if there is one. -/
@[inline] def byte? (r : Region) (offset : Nat) : Option UInt8 :=
  if h : offset < r.data.size then some r.data[offset] else none

/-- The region with one byte replaced; an offset beyond the end changes
nothing. -/
@[inline] def put (offset : Nat) (v : UInt8) (r : Region) : Region :=
  { r with data := r.data.set! offset v }

/-- The region with its first bytes replaced by an image; what does not
fit is ignored. -/
def load (image : ByteArray) (r : Region) : Region :=
  let kept := min image.size r.data.size
  { r with
    data := image.extract 0 kept ++ r.data.extract kept r.data.size }

theorem byte?_eq_getElem? (r : Region) (offset : Nat) :
    r.byte? offset = r.data.data[offset]? := by
  unfold byte?
  split
  · next h => exact (Array.getElem?_eq_getElem h).symm
  · next h => exact (Array.getElem?_eq_none (by exact Nat.not_lt.1 h)).symm

@[simp] theorem size_put (r : Region) (offset : Nat) (v : UInt8) :
    (r.put offset v).data.size = r.data.size :=
  Array.size_setIfInBounds

theorem byte?_put (r : Region) (i j : Nat) (v : UInt8) :
    (r.put i v).byte? j
      = if i = j then (r.byte? j).map fun _ => v else r.byte? j := by
  rw [byte?_eq_getElem?, byte?_eq_getElem?]
  show (r.data.data.setIfInBounds i v)[j]? = _
  rw [Array.getElem?_setIfInBounds]
  split
  · next h =>
    subst h
    split
    · next hi => simp [Array.getElem?_eq_getElem hi]
    · next hi => simp [Array.getElem?_eq_none (Nat.not_lt.1 hi)]
  · rfl

end Region

/-- All regions, and the latch for the first fault. -/
structure Arena where
  regions : Array Region := #[]
  fault : Option Fault := none
  deriving Inhabited, DecidableEq

namespace Arena

-- ============================================================ regions

/-- One more region of `size` bytes, all equal to `fill`. -/
def add (name : String) (size : Nat) (fill : UInt8) (writable : Bool)
    (a : Arena) : Arena :=
  { a with
    regions := a.regions.push
      { name, data := ⟨Array.replicate size fill⟩, writable } }

/-- One more writable region, all zero. -/
def addRam (name : String) (size : Nat) (a : Arena) : Arena :=
  a.add name size 0 true

/-- One more read-only region, all ones. -/
def addRom (name : String) (size : Nat) (a : Arena) : Arena :=
  a.add name size 255 false

/-- The name of a region; a region that does not exist has none. -/
def name (id : Nat) (a : Arena) : String :=
  match a.regions[id]? with
  | some r => r.name
  | none => ""

/-- The bytes of a region. -/
def contents (id : Nat) (a : Arena) : ByteArray :=
  match a.regions[id]? with
  | some r => r.data
  | none => .empty

/-- Copy an image to the start of a region, read-only or not. -/
def load (id : Nat) (image : ByteArray) (a : Arena) : Arena :=
  { a with regions := a.regions.modify id (·.load image) }

/-- What there is to report about loading an image: that it was too
long. -/
def loadNotes (id : Nat) (image : ByteArray) (a : Arena) : List Note :=
  let size := (a.contents id).size
  if size < image.size then
    [.imageTruncated image.size size (a.name id)]
  else
    []

-- ============================================================= access

/-- The byte at a place, if there is one. -/
@[inline] def byte? (p : Place) (a : Arena) : Option UInt8 :=
  match a.regions[p.region]? with
  | some r => r.byte? p.offset
  | none => none

/-- The byte at a place. -/
@[inline] def read (p : Place) (a : Arena) : Except Fault UInt8 :=
  match a.byte? p with
  | some v => .ok v
  | none => .error (.outOfRange (a.name p.region) p.offset)

/-- Why a write to a place would fail, if it would. A read-only region
refuses every write, also one beyond its end. -/
@[inline] def refusal? (p : Place) (a : Arena) : Option Fault :=
  match a.regions[p.region]? with
  | some r =>
    if !r.writable then some (.readOnly r.name p.offset)
    else if p.offset < r.data.size then none
    else some (.outOfRange r.name p.offset)
  | none => some (.outOfRange "" p.offset)

/-- The arena with one byte replaced, whatever the region allows. -/
@[inline] def put (p : Place) (v : UInt8) (a : Arena) : Arena :=
  { a with regions := a.regions.modify p.region (·.put p.offset v) }

/-- The arena after a write, or why the write failed. -/
def write (p : Place) (v : UInt8) (a : Arena) : Except Fault Arena :=
  match a.refusal? p with
  | some fault => .error fault
  | none => .ok (a.put p v)

-- ======================================================== fault latch

/-- Latch a fault unless one is latched already. -/
def raise (fault : Fault) (a : Arena) : Arena :=
  { a with fault := a.fault <|> some fault }

/-- The latched fault, and the arena with an empty latch. -/
def takeFault (a : Arena) : Option Fault × Arena :=
  (a.fault, { a with fault := none })

-- =============================================================== laws

/-- A store is read back at its own place and nowhere else. -/
theorem byte?_put (p q : Place) (v : UInt8) (a : Arena) :
    (a.put p v).byte? q
      = if p = q then (a.byte? q).map fun _ => v else a.byte? q := by
  obtain ⟨i, j⟩ := p
  obtain ⟨k, l⟩ := q
  simp only [byte?, put, Array.getElem?_modify]
  by_cases hik : i = k
  · subst hik
    cases a.regions[i]? with
    | none => simp
    | some r => simp [Region.byte?_put]
  · simp [hik]

/-- A store changes neither the size of a region nor whether it may be
written. -/
theorem refusal?_put (p q : Place) (v : UInt8) (a : Arena) :
    (a.put p v).refusal? q = a.refusal? q := by
  simp only [refusal?, put, Array.getElem?_modify]
  by_cases h : p.region = q.region
  · cases a.regions[q.region]? with
    | none => simp [h]
    | some r =>
      simp only [h, if_true, Option.map_some, Region.size_put]
      rfl
  · simp only [h, if_false]

end Arena
end HomeZ80
