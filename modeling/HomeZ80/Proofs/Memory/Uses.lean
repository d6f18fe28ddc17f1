/-
An arena in use. Regions are made, loaded, written into past their
protection, read and written, and faults are raised and taken, in any
order (`Arena.Use`). Two facts are told of each use and carried through
any number of them.

The layout only grows at its end (`layout_act`), so that a region, once
made, keeps its number, its name, its size and whether it may be
written. And a byte is what the last use that put something there has
put there (`byte?_act`). A use puts something at a place only if the
layout lets it: what is refused, or falls beyond the end of a region, is
put nowhere (`Use.puts?`). A place that nothing was put at is as its
region was when it was made (`Region.Form.fill`).
-/
import HomeZ80.Proofs.Memory.Layout

namespace HomeZ80

/-- The byte that a region is full of when it is made. -/
def Region.Form.fill (form : Region.Form) : UInt8 :=
  if form.writable then 0 else 255

namespace Arena

-- ================================================================ uses

/-- What can be done with an arena. -/
inductive Use where
  | addRam (name : String) (size : Nat)
  | addRom (name : String) (size : Nat)
  | load (id : Nat) (image : ByteArray)
  /-- Set a byte of a region, whatever the region allows. -/
  | set (p : Place) (v : UInt8)
  | read (p : Place)
  | write (p : Place) (v : UInt8)
  | raise (fault : Fault)
  | takeFault
  deriving DecidableEq

/-- The arena after a use. A write that fails leaves it as it is. -/
def Use.act (a : Arena) : Use → Arena
  | .addRam name size => a.addRam name size
  | .addRom name size => a.addRom name size
  | .load id image => a.load id image
  | .set p v => a.put p v
  | .read _ => a
  | .write p v =>
    match a.write p v with
    | .ok written => written
    | .error _ => a
  | .raise fault => a.raise fault
  | .takeFault => a.takeFault.2

/-- The region that a use makes, if it makes one. -/
def Use.made? : Use → Option Region.Form
  | .addRam name size => some ⟨name, size, true⟩
  | .addRom name size => some ⟨name, size, false⟩
  | .load .. | .set .. | .read _ | .write .. | .raise _ | .takeFault =>
    none

/-- The byte that a use puts at a place, if it puts one there. -/
def Use.puts? (a : Arena) (p : Place) : Use → Option UInt8
  | .load id image =>
    if p.region = id
        ∧ p.offset < min image.size (a.contents id).size then
      image.data[p.offset]?
    else none
  | .set q v => if q = p ∧ (a.byte? p).isSome then some v else none
  | .write q v => if q = p ∧ a.refusal? p = none then some v else none
  | .addRam .. | .addRom .. | .read _ | .raise _ | .takeFault => none

/-- The arena after any number of uses, the first one first. -/
def after (uses : List Use) (a : Arena) : Arena :=
  uses.foldl Use.act a

/-- What was put last at a place. -/
def lastPut? (p : Place) : List Use → Arena → Option UInt8
  | [], _ => none
  | u :: later, a => (lastPut? p later (u.act a)).or (u.puts? a p)

-- ============================================================== layout

/-- A write that is refused changes no byte. -/
theorem act_write (p : Place) (v : UInt8) (a : Arena) :
    (Use.write p v).act a
      = if a.refusal? p = none then a.put p v else a := by
  simp only [Use.act, write]
  cases a.refusal? p <;> rfl

/-- A use adds at most one region, after all there are. -/
theorem layout_act (u : Use) (a : Arena) :
    (u.act a).layout.toList = a.layout.toList ++ u.made?.toList := by
  have hkept {a' : Arena} (h : a'.layout = a.layout) :
      a'.layout.toList = a.layout.toList ++ [] := by
    rw [h, List.append_nil]
  cases u with
  | addRam name size | addRom name size =>
    exact (congrArg Array.toList (layout_add ..)).trans Array.toList_push
  | load id image => exact hkept (layout_load id image a)
  | set p v => exact hkept (layout_put p v a)
  | read p => exact hkept rfl
  | write p v =>
    rw [act_write]
    split
    · exact hkept (layout_put p v a)
    · exact hkept rfl
  | raise fault => exact hkept (layout_raise fault a)
  | takeFault => exact hkept rfl

/-- The regions that were made come after those that were there. -/
theorem layout_after (uses : List Use) (a : Arena) :
    (a.after uses).layout.toList
      = a.layout.toList ++ uses.filterMap Use.made? := by
  induction uses generalizing a with
  | nil => exact (List.append_nil _).symm
  | cons u later ih =>
    have hfirst : a.after (u :: later) = (u.act a).after later := rfl
    rw [hfirst, ih, layout_act, List.append_assoc, List.filterMap_cons]
    cases u.made? <;> rfl

/-- A region that there is stays as it was made. -/
theorem form_after {a : Arena} {id : Nat} {form : Region.Form}
    (h : a.layout[id]? = some form) (uses : List Use) :
    (a.after uses).layout[id]? = some form := by
  rw [← Array.getElem?_toList] at h ⊢
  obtain ⟨hlt, -⟩ := List.getElem?_eq_some_iff.1 h
  rw [layout_after, List.getElem?_append_left hlt, h]

-- =============================================================== bytes

/-- A region that was not made has no byte. -/
theorem byte?_eq_none {a : Arena} {p : Place}
    (h : a.layout[p.region]? = none) : a.byte? p = none := by
  rw [layout_getElem?, Option.map_eq_none_iff] at h
  unfold byte?
  rw [h]

/-- A new region is filled throughout, and leaves the others. -/
theorem byte?_add (name : String) (size : Nat) (fill : UInt8)
    (writable : Bool) (a : Arena) (p : Place) :
    (a.add name size fill writable).byte? p
      = if p.region = a.layout.size then
          if p.offset < size then some fill else none
        else a.byte? p := by
  have hsize : a.layout.size = a.regions.size := Array.size_map
  simp only [byte?, add, Array.getElem?_push, hsize]
  by_cases hnew : p.region = a.regions.size
  · rw [if_pos hnew, if_pos hnew]
    dsimp only
    rw [Region.byte?_eq_getElem?, Array.getElem?_replicate]
  · rw [if_neg hnew, if_neg hnew]

/-- A new region is full of its fill, the others stay as they are. -/
theorem byte?_made (new : Region.Form) {a a' : Arena}
    {form : Region.Form} {p : Place}
    (h : a' = a.add new.name new.size new.fill new.writable)
    (hform : ∀ f, a'.layout[p.region]? = some f → f = form) :
    (a'.byte? p).getD form.fill = (a.byte? p).getD form.fill := by
  rw [h, byte?_add]
  by_cases hnew : p.region = a.layout.size
  · have hnone : a.layout[p.region]? = none := by
      rw [hnew]
      exact Array.getElem?_size
    have hfill : new = form := by
      refine hform new ?_
      rw [h, layout_add, hnew]
      exact Array.getElem?_push_size
    rw [if_pos hnew, byte?_eq_none hnone, ← hfill]
    split <;> rfl
  · rw [if_neg hnew]

/-- A byte is as a use has put it, or as it was. -/
theorem byte?_act (u : Use) (a : Arena) {p : Place} {form : Region.Form}
    (hform : ∀ f, (u.act a).layout[p.region]? = some f → f = form) :
    ((u.act a).byte? p).getD form.fill
      = ((u.puts? a p).or (a.byte? p)).getD form.fill := by
  have hput (q : Place) (v : UInt8) :
      (a.put q v).byte? p
        = (if q = p ∧ (a.byte? p).isSome then some v else none).or
            (a.byte? p) := by
    rw [byte?_put]
    by_cases hq : q = p <;> cases a.byte? p <;> simp [hq]
  cases u with
  | addRam name size =>
    exact byte?_made ⟨name, size, true⟩ rfl hform
  | addRom name size =>
    exact byte?_made ⟨name, size, false⟩ rfl hform
  | load id image =>
    show ((a.load id image).byte? p).getD _ = _
    rw [byte?_load]
    unfold Use.puts?
    dsimp only
    split
    · next hin =>
      have hlt : p.offset < image.data.size :=
        Nat.lt_of_lt_of_le hin.2 (Nat.min_le_left _ _)
      rw [Array.getElem?_eq_getElem hlt, Option.some_or]
    · rw [Option.none_or]
  | set q v =>
    show ((a.put q v).byte? p).getD _ = _
    rw [hput]
    rfl
  | write q v =>
    rw [act_write]
    unfold Use.puts?
    dsimp only
    by_cases hq : q = p
    · subst hq
      by_cases haccepted : a.refusal? q = none
      · have hstored : (a.put q v).byte? q = some v := by
          refine (congrFun (bytes_put_of_accepted haccepted v) q).trans ?_
          rw [Function.update_self]
        rw [if_pos haccepted, if_pos ⟨rfl, haccepted⟩, hstored]
        rfl
      · have hrefused : ¬(q = q ∧ a.refusal? q = none) :=
          fun h => haccepted h.2
        rw [if_neg haccepted, if_neg hrefused]
        rfl
    · have hother : ¬(q = p ∧ a.refusal? p = none) := fun h => hq h.1
      rw [if_neg hother]
      split
      · rw [byte?_put, if_neg hq]
        rfl
      · rfl
  | read q => rfl
  | raise fault => rfl
  | takeFault => rfl

/-- **Every byte is what was put there last**, or what it was before, or,
in a region made meanwhile, its fill. -/
theorem byte?_after (uses : List Use) (a : Arena) {p : Place}
    {form : Region.Form}
    (hform : (a.after uses).layout[p.region]? = some form)
    (hlt : p.offset < form.size) :
    (a.after uses).byte? p
      = some (((lastPut? p uses a).or (a.byte? p)).getD form.fill) := by
  induction uses generalizing a with
  | nil =>
    obtain ⟨v, hv⟩ := Option.isSome_iff_exists.1
      ((byte?_isSome_iff p a).2 ⟨form, hform, hlt⟩)
    have hlast : lastPut? p [] a = none := rfl
    have hafter : a.after [] = a := rfl
    rw [hlast, hafter, hv]
    rfl
  | cons u later ih =>
    have hfinal (f : Region.Form)
        (hf : (u.act a).layout[p.region]? = some f) : f = form :=
      Option.some.inj ((form_after hf later).symm.trans hform)
    have hstep := byte?_act u a hfinal
    refine (ih (u.act a) hform).trans (congrArg some ?_)
    rw [lastPut?, Option.or_assoc]
    cases lastPut? p later (u.act a) with
    | some v => rfl
    | none =>
      rw [Option.none_or, Option.none_or]
      exact hstep

-- ============================================================== access

variable {a : Arena} {p : Place} {form : Region.Form}

/-- How a write to a region comes out. -/
theorem write_of_form (h : a.layout[p.region]? = some form) (v : UInt8) :
    a.write p v
      = if form.writable then
          if p.offset < form.size then .ok (a.put p v)
          else .error (.outOfRange form.name p.offset)
        else .error (.readOnly form.name p.offset) := by
  rw [layout_getElem?] at h
  obtain ⟨r, hr, rfl⟩ := Option.map_eq_some_iff.1 h
  have hform : r.form = ⟨r.name, r.data.size, r.writable⟩ := rfl
  unfold write refusal?
  rw [hr, hform]
  cases hw : r.writable with
  | false => simp [hw]
  | true => by_cases hlt : p.offset < r.data.size <;> simp [hw, hlt]

theorem read_of_form (h : a.layout[p.region]? = some form)
    (hlt : ¬ p.offset < form.size) :
    a.read p = .error (.outOfRange form.name p.offset) := by
  have hnone : a.byte? p = none := by
    refine Option.eq_none_iff_forall_ne_some.2 fun v hv => hlt ?_
    obtain ⟨form', hform', hlt'⟩ :=
      (byte?_isSome_iff p a).1 (Option.isSome_iff_exists.2 ⟨v, hv⟩)
    rw [h] at hform'
    cases hform'
    exact hlt'
  have hname : a.name p.region = form.name := by
    rw [layout_getElem?] at h
    obtain ⟨r, hr, rfl⟩ := Option.map_eq_some_iff.1 h
    unfold name
    rw [hr]
    rfl
  unfold read
  rw [hnone, hname]

/-- What a region allows at one of its places. -/
structure Obeys (a : Arena) (p : Place) (form : Region.Form) : Prop where
  /-- A write succeeds inside a region that may be written. -/
  accepts (v : UInt8) :
    (∃ written, a.write p v = .ok written)
      ↔ form.writable = true ∧ p.offset < form.size
  /-- A write that succeeds changes one byte and nothing else. -/
  stores (v : UInt8) (written : Arena) : a.write p v = .ok written →
    written.layout = a.layout ∧ written.fault = a.fault
      ∧ written.bytes = Function.update a.bytes p (some v)
  /-- A write that fails changes nothing. A region that may not be
  written refuses it also beyond its end. -/
  refuses (v : UInt8) (fault : Fault) : a.write p v = .error fault →
    (Use.write p v).act a = a
      ∧ fault = if form.writable then .outOfRange form.name p.offset
          else .readOnly form.name p.offset
  /-- A read changes nothing and fails only beyond the end; what may not
  be written may still be read. -/
  misses (fault : Fault) : a.read p = .error fault →
    (Use.read p).act a = a ∧ fault = .outOfRange form.name p.offset
  /-- An image replaces as many bytes as it has and as there are. -/
  loads (id : Nat) (image : ByteArray) :
    (a.load id image).layout = a.layout
      ∧ (a.load id image).fault = a.fault
      ∧ (a.load id image).byte? p
          = if p.region = id ∧ p.offset < min image.size form.size then
              image.data[p.offset]?
            else a.byte? p

/-- The form of a region tells what may be done in it. -/
theorem obeys_of_form (h : a.layout[p.region]? = some form) :
    a.Obeys p form where
  accepts v := by
    rw [write_of_form h]
    cases form.writable with
    | false => simp
    | true => by_cases hlt : p.offset < form.size <;> simp [hlt]
  stores v written hwritten := by
    cases href : a.refusal? p with
    | some fault =>
      unfold write at hwritten
      rw [href] at hwritten
      cases hwritten
    | none =>
      unfold write at hwritten
      rw [href] at hwritten
      cases hwritten
      exact ⟨layout_put p v a, rfl, bytes_put_of_accepted href v⟩
  refuses v fault hfault := by
    refine ⟨?_, ?_⟩
    · unfold Use.act
      dsimp only
      rw [hfault]
    · rw [write_of_form h] at hfault
      cases hw : form.writable with
      | false =>
        rw [hw] at hfault
        cases hfault
        rfl
      | true =>
        rw [hw, if_pos rfl] at hfault
        split at hfault
        · cases hfault
        · cases hfault
          rfl
  misses fault hfault := by
    refine ⟨rfl, ?_⟩
    by_cases hlt : p.offset < form.size
    · obtain ⟨v, hv⟩ := Option.isSome_iff_exists.1
        ((byte?_isSome_iff p a).2 ⟨form, h, hlt⟩)
      rw [read_eq_ok hv] at hfault
      cases hfault
    · rw [read_of_form h hlt] at hfault
      cases hfault
      rfl
  loads id image := by
    refine ⟨layout_load id image a, rfl, ?_⟩
    rw [byte?_load]
    by_cases hid : p.region = id
    · rw [← hid, size_contents h]
    · rw [if_neg fun h => hid h.1, if_neg fun h => hid h.1]

/-- Whether an arena holds what another holds in its regions that may
not be written. -/
structure KeepsReadOnly (a b : Arena) : Prop where
  layout : b.layout = a.layout
  byte? (p : Place) (form : Region.Form) :
    a.layout[p.region]? = some form → form.writable = false →
    b.byte? p = a.byte? p

namespace KeepsReadOnly

theorem refl (a : Arena) : a.KeepsReadOnly a :=
  ⟨rfl, fun _ _ _ _ => rfl⟩

/-- Only the regions matter to this. -/
theorem of_regions_eq {a b c : Arena} (h : a.KeepsReadOnly b)
    (hregions : c.regions = b.regions) : a.KeepsReadOnly c := by
  refine ⟨?_, fun p form hform hw => ?_⟩
  · unfold Arena.layout
    rw [hregions]
    exact h.layout
  · rw [← h.byte? p form hform hw]
    unfold Arena.byte?
    rw [hregions]

/-- A write that is accepted goes to a region that may be written. -/
theorem put {a b : Arena} (h : a.KeepsReadOnly b) {p : Place}
    (haccepted : b.refusal? p = none) (v : UInt8) :
    a.KeepsReadOnly (b.put p v) := by
  refine ⟨(layout_put p v b).trans h.layout, fun q form hform hw => ?_⟩
  obtain ⟨target, htarget, hwritable, -⟩ :=
    (refusal?_eq_none_iff p b).1 haccepted
  have hne : p ≠ q := by
    rintro rfl
    rw [h.layout, hform] at htarget
    cases htarget
    rw [hw] at hwritable
    cases hwritable
  rw [byte?_put, if_neg hne, h.byte? q form hform hw]

end KeepsReadOnly

end Arena
end HomeZ80
