/-
The layout of an arena: what its regions are called, how large they are,
and which of them may be written. Nothing that happens to an arena once
its regions are made changes any of it; bytes move, regions do not.

Whether a read or a write of a place succeeds is a matter of the layout
alone (`Arena.byte?_isSome_iff`, `Arena.refusal?_eq_none_iff`). A fact
about which accesses can fail therefore needs to look at a new arena
once, and holds of it ever after.
-/
import HomeZ80.Memory.Arena
import Mathlib.Logic.Function.Basic

namespace HomeZ80

-- ============================================================== regions

/-- What never changes about a region. -/
structure Region.Form where
  name : String
  size : Nat
  writable : Bool
  deriving DecidableEq, Repr

namespace Region

def form (r : Region) : Form := ⟨r.name, r.data.size, r.writable⟩

/-- A stored byte does not change the form of a region. -/
@[simp] theorem form_put (offset : Nat) (v : UInt8) (r : Region) :
    (r.put offset v).form = r.form := by
  show Form.mk r.name (r.put offset v).data.size r.writable = _
  rw [size_put]
  rfl

@[simp] theorem form_load (image : ByteArray) (r : Region) :
    (r.load image).form = r.form := by
  have hsize : (r.load image).data.size = r.data.size := by
    simp only [load, ByteArray.size_append, ByteArray.size_extract]
    omega
  unfold form
  rw [hsize]
  rfl

/-- A region has the bytes below its size and no others. -/
theorem byte?_isSome_iff (r : Region) (offset : Nat) :
    (r.byte? offset).isSome = true ↔ offset < r.form.size := by
  unfold byte?
  split
  · next h => exact ⟨fun _ => h, fun _ => rfl⟩
  · next h => exact ⟨nofun, fun hlt => absurd hlt h⟩

/-- An image that is as large as the region is all that it holds then. -/
theorem load_whole {image : ByteArray} {r : Region}
    (h : image.size = r.data.size) :
    r.load image = { r with data := image } := by
  have hkept : min image.size r.data.size = image.size := by omega
  have hnone : r.data.extract image.size r.data.size = .empty := by
    rw [h, ByteArray.extract_eq_empty_iff]
    omega
  unfold load
  dsimp only
  rw [hkept, hnone, ByteArray.extract_zero_size, ByteArray.append_empty]

/-- An image lies over the bytes at the start, as far as it reaches and
there is room for it. -/
theorem byte?_load (image : ByteArray) (r : Region) (offset : Nat) :
    (r.load image).byte? offset
      = if offset < min image.size r.data.size
        then image.data[offset]? else r.byte? offset := by
  have hdata : (r.load image).data.data
      = image.data.extract 0 (min image.size r.data.size)
        ++ r.data.data.extract (min image.size r.data.size)
          r.data.size := by
    simp only [load, ByteArray.data_append, ByteArray.data_extract]
  have himage : image.data.size = image.size := rfl
  have hregion : r.data.data.size = r.data.size := rfl
  rw [byte?_eq_getElem?, byte?_eq_getElem?, hdata,
    Array.getElem?_append, Array.size_extract, Array.getElem?_extract,
    Array.getElem?_extract, himage, hregion]
  by_cases h : offset < min image.size r.data.size
  · rw [if_pos (by omega), if_pos (by omega), if_pos h, Nat.zero_add]
  · rw [if_neg (by omega), if_neg h]
    split
    · congr 1
      omega
    · next hlt =>
      exact (Array.getElem?_eq_none (by omega)).symm

end Region

namespace Arena

-- =============================================================== layout

def layout (a : Arena) : Array Region.Form := a.regions.map Region.form

/-- The layout has a form for each region. -/
theorem layout_getElem? (a : Arena) (id : Nat) :
    a.layout[id]? = a.regions[id]?.map Region.form :=
  Array.getElem?_map

/-- A region is as long as its form says. -/
theorem size_contents {a : Arena} {id : Nat} {form : Region.Form}
    (h : a.layout[id]? = some form) : (a.contents id).size = form.size := by
  rw [layout_getElem?] at h
  obtain ⟨r, hr, rfl⟩ := Option.map_eq_some_iff.1 h
  unfold contents
  rw [hr]
  rfl

/-- A region that there is not is read as empty. -/
theorem contents_of_missing {a : Arena} {id : Nat}
    (h : a.layout[id]? = none) : a.contents id = .empty := by
  rw [layout_getElem?, Option.map_eq_none_iff] at h
  unfold contents
  rw [h]

/-- Regions of one layout have one size. -/
theorem size_contents_eq {a a' : Arena} (h : a'.layout = a.layout)
    (id : Nat) : (a'.contents id).size = (a.contents id).size := by
  cases hform : a.layout[id]? with
  | some form => rw [size_contents hform, size_contents (h ▸ hform)]
  | none => rw [contents_of_missing hform, contents_of_missing (h ▸ hform)]

/-- What keeps the form of a region keeps the layout. -/
theorem layout_modify (id : Nat) {f : Region → Region}
    (hf : ∀ r, (f r).form = r.form) (a : Arena) :
    ({ a with regions := a.regions.modify id f } : Arena).layout
      = a.layout := by
  apply Array.ext_getElem?
  intro i
  simp only [layout_getElem?, Array.getElem?_modify]
  split
  · cases a.regions[i]? with
    | none => rfl
    | some r => exact congrArg some (hf r)
  · rfl

/-- Storing a byte keeps the layout. -/
@[simp] theorem layout_put (p : Place) (v : UInt8) (a : Arena) :
    (a.put p v).layout = a.layout :=
  layout_modify p.region (Region.form_put p.offset v) a

@[simp] theorem layout_load (id : Nat) (image : ByteArray) (a : Arena) :
    (a.load id image).layout = a.layout :=
  layout_modify id (Region.form_load image) a

@[simp] theorem layout_raise (fault : Fault) (a : Arena) :
    (a.raise fault).layout = a.layout := rfl

/-- Without regions there is no layout. -/
@[simp] theorem layout_empty : ({} : Arena).layout = #[] :=
  Array.map_empty

/-- A new region comes after the others. -/
@[simp] theorem layout_add (name : String) (size : Nat) (fill : UInt8)
    (writable : Bool) (a : Arena) :
    (a.add name size fill writable).layout
      = a.layout.push ⟨name, size, writable⟩ := by
  have hsize : (⟨Array.replicate size fill⟩ : ByteArray).size = size :=
    Array.size_replicate
  simp only [layout, add, Array.map_push, Region.form, hsize]

-- ============================================================ accesses

/-- A place has a byte if its region reaches that far. -/
theorem byte?_isSome_iff (p : Place) (a : Arena) :
    (a.byte? p).isSome = true
      ↔ ∃ form, a.layout[p.region]? = some form ∧ p.offset < form.size := by
  rw [layout_getElem?]
  unfold byte?
  cases a.regions[p.region]? with
  | none => simp
  | some r => simp [Region.byte?_isSome_iff]

/-- A write succeeds where there is a byte, in a region that may be
written. -/
theorem refusal?_eq_none_iff (p : Place) (a : Arena) :
    a.refusal? p = none
      ↔ ∃ form, a.layout[p.region]? = some form
          ∧ form.writable = true ∧ p.offset < form.size := by
  rw [layout_getElem?]
  unfold refusal?
  cases a.regions[p.region]? with
  | none => simp
  | some r =>
    have hform : r.form = ⟨r.name, r.data.size, r.writable⟩ := rfl
    cases hw : r.writable <;> simp [hform, hw]

/-- A place that has a byte can be read. -/
theorem read_eq_ok {p : Place} {v : UInt8} {a : Arena}
    (h : a.byte? p = some v) : a.read p = .ok v := by
  unfold read
  rw [h]

-- ============================================================= contents

/-- An arena is told by its layout, its contents and its latch. -/
theorem eq_of_contents {a a' : Arena} (hlayout : a'.layout = a.layout)
    (hcontents : ∀ id, a'.contents id = a.contents id)
    (hfault : a'.fault = a.fault) : a' = a := by
  have hregion (id : Nat) : a'.regions[id]? = a.regions[id]? := by
    have hform : a'.regions[id]?.map Region.form
        = a.regions[id]?.map Region.form := by
      rw [← layout_getElem?, ← layout_getElem?, hlayout]
    have hdata := hcontents id
    unfold contents at hdata
    cases hr : a.regions[id]? with
    | none =>
      rw [hr] at hform
      exact Option.map_eq_none_iff.1 hform
    | some r =>
      rw [hr] at hform hdata
      obtain ⟨r', hr', hsame⟩ := Option.map_eq_some_iff.1 hform
      rw [hr'] at hdata ⊢
      obtain ⟨hname, -, hwritable⟩ := Region.Form.mk.inj hsame
      exact congrArg some (Region.mk.injEq .. ▸ ⟨hname, hdata, hwritable⟩)
  obtain ⟨regions, fault⟩ := a
  obtain ⟨regions', fault'⟩ := a'
  rw [Arena.mk.injEq]
  exact ⟨Array.ext_getElem? hregion, hfault⟩

/-- An image is loaded into one region and no other. -/
theorem contents_load_of_ne {id other : Nat} (h : other ≠ id)
    (image : ByteArray) (a : Arena) :
    (a.load id image).contents other = a.contents other := by
  simp only [contents, load, Array.getElem?_modify, Ne.symm h, if_false]

/-- An image of the size of a region takes its place. -/
theorem contents_load_whole {id : Nat} {image : ByteArray} {a : Arena}
    (h : image.size = (a.contents id).size) :
    (a.load id image).contents id = image := by
  simp only [contents, load, Array.getElem?_modify, if_true]
  unfold contents at h
  cases hr : a.regions[id]? with
  | none =>
    rw [hr] at h
    exact (ByteArray.size_eq_zero_iff.1 h).symm
  | some r =>
    rw [hr] at h
    exact congrArg Region.data (Region.load_whole h)

/-- Copy regions from another arena. -/
def copy (ids : List Nat) (a source : Arena) : Arena :=
  ids.foldl (fun a id => a.load id (source.contents id)) a

/-- Copying contents keeps the layout. -/
@[simp] theorem layout_copy (ids : List Nat) (a source : Arena) :
    (a.copy ids source).layout = a.layout := by
  induction ids generalizing a with
  | nil => rfl
  | cons id rest ih => exact (ih _).trans (layout_load id _ a)

@[simp] theorem fault_copy (ids : List Nat) (a source : Arena) :
    (a.copy ids source).fault = a.fault := by
  induction ids generalizing a with
  | nil => rfl
  | cons id rest ih => exact ih _

/-- Between arenas of one layout regions are copied whole. -/
theorem contents_copy {a source : Arena} (h : a.layout = source.layout)
    (ids : List Nat) (id : Nat) :
    (a.copy ids source).contents id
      = if id ∈ ids then source.contents id else a.contents id := by
  induction ids generalizing a with
  | nil => rfl
  | cons first rest ih =>
    have hsize := size_contents_eq h.symm first
    show ((a.load first _).copy rest source).contents id = _
    rw [ih ((layout_load first _ a).trans h)]
    by_cases hrest : id ∈ rest
    · rw [if_pos hrest, if_pos (.tail _ hrest)]
    · rw [if_neg hrest]
      by_cases hfirst : id = first
      · subst hfirst
        rw [if_pos (.head _), contents_load_whole hsize]
      · have hnot : id ∉ first :: rest := by
          rw [List.mem_cons]
          rintro (heq | hmem)
          · exact hfirst heq
          · exact hrest hmem
        rw [if_neg hnot, contents_load_of_ne hfirst]

-- ================================================================ bytes

def bytes (a : Arena) (p : Place) : Option UInt8 := a.byte? p

/-- A store that is not refused is read back at its place, and nowhere
else. -/
theorem bytes_put_of_accepted {p : Place} {a : Arena}
    (h : a.refusal? p = none) (v : UInt8) :
    (a.put p v).bytes = Function.update a.bytes p (some v) := by
  obtain ⟨form, hform, -, hlt⟩ := (refusal?_eq_none_iff p a).1 h
  obtain ⟨old, hold⟩ := Option.isSome_iff_exists.1
    ((byte?_isSome_iff p a).2 ⟨form, hform, hlt⟩)
  funext q
  show (a.put p v).byte? q = _
  rw [byte?_put]
  by_cases hpq : p = q
  · subst hpq
    simp [hold]
  · rw [if_neg hpq, Function.update_of_ne (Ne.symm hpq)]
    rfl

/-- A loaded image is found at the start of its region. -/
theorem byte?_load (id : Nat) (image : ByteArray) (p : Place)
    (a : Arena) :
    (a.load id image).byte? p
      = if p.region = id ∧ p.offset < min image.size (a.contents id).size
        then image.data[p.offset]? else a.byte? p := by
  obtain ⟨region, offset⟩ := p
  simp only [byte?, load, contents, Array.getElem?_modify]
  by_cases hid : id = region
  · subst hid
    simp only [if_true, true_and]
    cases hr : a.regions[id]? with
    | none => simp
    | some r => exact r.byte?_load image offset
  · have hne : region ≠ id := Ne.symm hid
    simp [hid, hne]

end Arena
end HomeZ80
