/-
Registering and attaching devices, told without the order of events
where the order does not matter.

A registry is told by the calls that made it: of the calls under one key
the last one stands, and the standing calls in their order are the
entries (`entries_registered`). Everything about looking up, counting
and attaching in order comes from that equation.

What attaching leaves behind is told device by device
(`device_attachAll`). A hook reads nothing of the other devices but
their kinds, which no hook changes, and a hook that runs twice does no
more than a hook that runs once. So a device is attached or it is not,
and when is of no account. The same equation followed through a series
of registries gives the partner a device keeps: the first that was found
for it.
-/
import Mathlib.Data.List.Nodup
import Mathlib.Data.Finset.Card
import HomeZ80.Device.Bench
import HomeZ80.Proofs.Interrupt.Pending

namespace HomeZ80

-- ========================================================== one device

/-- The first controller found is kept, and the rest stays. -/
theorem Timer.attach_fst (found : Option Nat) (t : Timer) :
    (t.attach found).1 = { t with wire := t.wire.or found } := by
  obtain ⟨key, channel, period, wire, running⟩ := t
  cases found with
  | none => simp [Timer.attach]
  | some slot =>
    cases wire with
    | none => rfl
    | some current => exact apply_ite Prod.fst _ _ _ |>.trans (ite_self _)

/-- The partner that a device of a kind is to keep, of the lines and the
controller that a registry has. -/
def DeviceKind.partner? (lines controller : Option Nat) :
    DeviceKind → Option Nat
  | .controller => lines
  | .timer => controller
  | .lines | .observer | .inert => none

namespace Device

/-- A device after its hook ran, with the lines and the controller that
the registry has for it. -/
def attached (lines controller : Option Nat) : Device → Device
  | .lines l => .lines l.attach
  | .controller c => .controller (c.attach lines).1
  | .timer t => .timer (t.attach controller).1
  | .observer key => .observer key
  | .inert key => .inert key

/-- The partner that a device keeps. -/
def wire? : Device → Option Nat
  | .controller c => c.wire
  | .timer t => t.wire
  | .lines _ | .observer _ | .inert _ => none

variable {lines controller : Option Nat}

/-- Attaching a device does not make another of it. -/
@[simp]
theorem kind_attached (d : Device) :
    (d.attached lines controller).kind = d.kind := by
  cases d <;> rfl

/-- A device that is attached twice in a row is as if attached once. -/
theorem attached_attached (d : Device) :
    (d.attached lines controller).attached lines controller
      = d.attached lines controller := by
  have hkept (w found : Option Nat) :
      (w.or found).or found = w.or found := by
    rw [Option.or_assoc, Option.or_self]
  cases d with
  | lines l => rfl
  | controller c => simp only [attached, Controller.attach_fst, hkept]
  | timer t => simp only [attached, Timer.attach_fst, hkept]
  | observer key => rfl
  | inert key => rfl

/-- A partner is kept; a device without one takes the one found. -/
theorem wire?_attached (d : Device) :
    (d.attached lines controller).wire?
      = d.wire?.or (d.kind.partner? lines controller) := by
  cases d with
  | lines l => rfl
  | controller c => exact congrArg Controller.wire (c.attach_fst lines)
  | timer t => exact congrArg Timer.wire (t.attach_fst controller)
  | observer key => rfl
  | inert key => rfl

end Device

-- ========================================================== registries

namespace Registry

/-- Where no key stands twice, the slot under a key is the one entered
with it. -/
theorem slot?_eq_some_iff {r : Registry}
    (h : (r.entries.map (·.1)).Nodup) {key : DeviceKey} {slot : Nat} :
    r.slot? key = some slot ↔ (key, slot) ∈ r.entries := by
  unfold slot?
  constructor
  · intro hfound
    obtain ⟨e, he, hslot⟩ := Option.map_eq_some_iff.mp hfound
    have hkey : e.1 = key := by simpa using List.find?_some he
    have hmem := List.mem_of_find?_eq_some he
    rw [← hkey, ← hslot]
    exact hmem
  · intro hmem
    obtain ⟨e, he⟩ : ∃ e, r.entries.find? (·.1 == key) = some e :=
      Option.isSome_iff_exists.mp
        (List.find?_isSome.mpr ⟨(key, slot), hmem, by simp⟩)
    have hkey : e.1 = key := by simpa using List.find?_some he
    have heq : e = (key, slot) :=
      List.inj_on_of_nodup_map h (List.mem_of_find?_eq_some he) hmem hkey
    rw [he, heq]
    rfl

/-- The order of the entries does not show in what is found. -/
theorem slot?_eq_of_perm {r r' : Registry}
    (h : (r.entries.map (·.1)).Nodup) (hperm : r.entries.Perm r'.entries)
    (key : DeviceKey) : r.slot? key = r'.slot? key := by
  have h' : (r'.entries.map (·.1)).Nodup :=
    (hperm.map _).nodup_iff.mp h
  refine Option.ext fun slot => ?_
  rw [slot?_eq_some_iff h, slot?_eq_some_iff h', hperm.mem_iff]

end Registry

namespace Bench

variable {b : Bench}

/-- The key of the device in a slot. -/
def keyOf (b : Bench) (slot : Fin b.devices.size) : DeviceKey :=
  b.devices[slot].key

/-- The kind of the device in a slot. -/
def kindOf (b : Bench) (slot : Fin b.devices.size) : DeviceKind :=
  b.devices[slot].kind

/-- The registry that registering these devices gives, each under its
own key. -/
def registered (b : Bench) (calls : List (Fin b.devices.size)) :
    Registry :=
  calls.foldl (fun r slot => r.register (b.keyOf slot) slot) {}

/-- The calls that stand: those after which no call has the same key. -/
def standing (b : Bench) :
    List (Fin b.devices.size) → List (Fin b.devices.size)
  | [] => []
  | slot :: later =>
    if b.keyOf slot ∈ later.map b.keyOf then b.standing later
    else slot :: b.standing later

/-- The device that was registered last under a key. -/
def latest? (b : Bench) (key : DeviceKey)
    (calls : List (Fin b.devices.size)) : Option (Fin b.devices.size) :=
  calls.reverse.find? fun slot => b.keyOf slot == key

/-- Calls register one after the other. -/
theorem registered_concat (calls : List (Fin b.devices.size))
    (slot : Fin b.devices.size) :
    b.registered (calls ++ [slot])
      = (b.registered calls).register (b.keyOf slot) slot := by
  simp [registered]

/-- One more call pushes out the one with its key, and stands last. -/
theorem standing_concat (calls : List (Fin b.devices.size))
    (slot : Fin b.devices.size) :
    b.standing (calls ++ [slot])
      = (b.standing calls).filter (fun s => b.keyOf s != b.keyOf slot)
        ++ [slot] := by
  induction calls with
  | nil => simp [standing]
  | cons s later ih =>
    rw [List.cons_append, standing, standing, ih]
    by_cases hlater : b.keyOf s ∈ later.map b.keyOf
    · have hmore : b.keyOf s ∈ (later ++ [slot]).map b.keyOf := by
        rw [List.map_append]
        exact List.mem_append_left _ hlater
      rw [if_pos hlater, if_pos hmore]
    · rw [if_neg hlater, List.filter_cons]
      by_cases hkey : b.keyOf s = b.keyOf slot
      · simp [hkey]
      · have hmore : b.keyOf s ∉ (later ++ [slot]).map b.keyOf := by
          rw [List.map_append, List.mem_append]
          exact not_or_intro hlater (by simpa using hkey)
        rw [if_neg hmore, if_pos (by simpa using hkey)]
        rfl

/-- The entries of a registry are the calls that stand. -/
theorem entries_registered (calls : List (Fin b.devices.size)) :
    (b.registered calls).entries
      = (b.standing calls).map fun slot => (b.keyOf slot, slot.val) := by
  induction calls using List.reverseRecOn with
  | nil => rfl
  | append_singleton calls slot ih =>
    rw [registered_concat, standing_concat, List.map_append,
      Registry.register, ih, List.filter_map]
    rfl

/-- The registry has a key for each registration that stands. -/
theorem keys_registered (calls : List (Fin b.devices.size)) :
    (b.registered calls).entries.map (·.1)
      = (b.standing calls).map b.keyOf := by
  rw [entries_registered, List.map_map]
  rfl

/-- Every key that was called stands exactly once. -/
theorem keys_standing (calls : List (Fin b.devices.size)) :
    (b.standing calls).map b.keyOf = (calls.map b.keyOf).dedup := by
  induction calls with
  | nil => rfl
  | cons slot later ih =>
    rw [standing, List.map_cons]
    by_cases hlater : b.keyOf slot ∈ later.map b.keyOf
    · rw [if_pos hlater, List.dedup_cons_of_mem hlater, ih]
    · rw [if_neg hlater, List.dedup_cons_of_notMem hlater,
        List.map_cons, ih]

/-- No two that stand have one key. -/
theorem nodup_keys_standing (calls : List (Fin b.devices.size)) :
    ((b.standing calls).map b.keyOf).Nodup := by
  rw [keys_standing]
  exact List.nodup_dedup _

/-- The registry has as many entries as there are keys in the calls. -/
theorem size_registered (calls : List (Fin b.devices.size)) :
    (b.registered calls).size = (calls.map b.keyOf).toFinset.card := by
  rw [List.card_toFinset, ← keys_standing, List.length_map,
    Registry.size, entries_registered, List.length_map]

/-- Calls under keys that all differ stand as they are. -/
theorem standing_of_nodup {calls : List (Fin b.devices.size)}
    (h : (calls.map b.keyOf).Nodup) : b.standing calls = calls := by
  induction calls with
  | nil => rfl
  | cons slot later ih =>
    obtain ⟨hnew, hrest⟩ := List.nodup_cons.mp h
    rw [standing, if_neg hnew, ih hrest]

/-- Of the standing calls, the one under a key is the last under it. -/
theorem find?_standing (key : DeviceKey)
    (calls : List (Fin b.devices.size)) :
    (b.standing calls).find? (fun s => b.keyOf s == key)
      = b.latest? key calls := by
  induction calls using List.reverseRecOn with
  | nil => rfl
  | append_singleton calls slot ih =>
    rw [standing_concat, latest?, List.reverse_concat, List.find?_append]
    by_cases hkey : b.keyOf slot = key
    · have hnone : ((b.standing calls).filter fun s =>
          b.keyOf s != b.keyOf slot).find? (fun s => b.keyOf s == key)
            = none := by
        refine List.find?_eq_none.mpr fun s hs => ?_
        have hother := (List.mem_filter.mp hs).2
        simpa [hkey] using hother
      rw [hnone]
      simp [hkey]
    · have hsame : ((b.standing calls).filter fun s =>
          b.keyOf s != b.keyOf slot).find? (fun s => b.keyOf s == key)
            = b.latest? key calls := by
        rw [List.find?_filter, ← ih]
        congr 1
        funext s
        by_cases hs : b.keyOf s = key
        · simpa [hs] using Ne.symm hkey
        · simp [hs]
      rw [hsame]
      simp [hkey, latest?]

/-- What a registry has under a key is the device registered last under
it. -/
theorem slot?_registered (key : DeviceKey)
    (calls : List (Fin b.devices.size)) :
    (b.registered calls).slot? key
      = (b.latest? key calls).map Fin.val := by
  rw [Registry.slot?, entries_registered, List.find?_map, Option.map_map,
    ← find?_standing]
  rfl

-- =========================================================== attaching

/-- The kind of the device in a slot, if there is one. -/
def kind? (b : Bench) (slot : Nat) : Option DeviceKind :=
  b.devices[slot]?.map Device.kind

/-- A lookup reads nothing of the devices but their kinds. -/
theorem lookup_eq (key : DeviceKey) (kind : DeviceKind) (r : Registry)
    (b : Bench) :
    b.lookup key kind r
      = (r.slot? key).filter fun slot => b.kind? slot == some kind := by
  unfold lookup kind?
  cases r.slot? key with
  | none => rfl
  | some slot =>
    rw [Option.filter_some]
    dsimp only
    cases b.devices[slot]? with
    | none => rfl
    | some d => by_cases hkind : d.kind = kind <;> simp [hkind]

/-- What the hook of a device makes of it, in a registry. -/
def wiredIn (r : Registry) (b : Bench) : Device → Device :=
  Device.attached (b.lookup .lines .lines r)
    (b.lookup .controller .controller r)

/-- A hook changes the device that it belongs to and no other. -/
theorem device_attach (slot : Nat) (r : Registry) (b : Bench) (i : Nat) :
    (b.attach slot r).devices[i]?
      = if i = slot then b.devices[i]?.map (b.wiredIn r)
        else b.devices[i]? := by
  have hput (d d' : Device) (hd : b.devices[slot]? = some d)
      (hd' : b.wiredIn r d = d') :
      (b.devices.setIfInBounds slot d')[i]?
        = if i = slot then b.devices[i]?.map (b.wiredIn r)
          else b.devices[i]? := by
    by_cases hi : i = slot
    · subst hi
      obtain ⟨hlt, -⟩ := Array.getElem?_eq_some_iff.mp hd
      rw [if_pos rfl, hd, Option.map_some, hd',
        Array.getElem?_setIfInBounds_self_of_lt hlt]
    · rw [if_neg hi, Array.getElem?_setIfInBounds_ne (Ne.symm hi)]
  have hkeep (h : b.devices[slot]?.map (b.wiredIn r) = b.devices[slot]?) :
      b.devices[i]? = if i = slot then b.devices[i]?.map (b.wiredIn r)
        else b.devices[i]? := by
    by_cases hi : i = slot
    · rw [if_pos hi, hi, h]
    · rw [if_neg hi]
  unfold attach
  split
  · next l hl => exact hput _ _ hl rfl
  · next c hc => exact hput _ _ hc rfl
  · next t ht => exact hput _ _ ht rfl
  · next key hobserver =>
    refine hkeep ?_
    rw [hobserver]
    rfl
  · next key hinert =>
    refine hkeep ?_
    rw [hinert]
    rfl
  · next hnone =>
    refine hkeep ?_
    rw [hnone]
    rfl

/-- A device that is attached stays the device that it is. -/
@[simp]
theorem kind?_attach (slot : Nat) (r : Registry) (b : Bench) :
    (b.attach slot r).kind? = b.kind? := by
  funext i
  unfold kind?
  rw [device_attach]
  split
  · rw [Option.map_map]
    exact congrArg (Option.map · _) (funext Device.kind_attached)
  · rfl

/-- A hook of one device does not change what another is to become. -/
theorem wiredIn_of_kind?_eq {b b' : Bench} (h : b'.kind? = b.kind?)
    (r : Registry) : b'.wiredIn r = b.wiredIn r := by
  unfold wiredIn
  rw [lookup_eq, lookup_eq, lookup_eq, lookup_eq, h]

/-- Attach the devices of some entries among those of a registry. -/
def attachEntries (r : Registry) (entries : List (DeviceKey × Nat))
    (b : Bench) : Bench :=
  entries.foldl (fun b e => (b.note [.attaching e.1]).attach e.2 r) b

/-- After the hooks of some entries each device is either as attached or
as before. Running a hook a second time changes nothing. -/
theorem device_attachEntries (r : Registry)
    (entries : List (DeviceKey × Nat)) (b : Bench) :
    (b.attachEntries r entries).kind? = b.kind? ∧
      ∀ i, (b.attachEntries r entries).devices[i]?
        = if i ∈ entries.map (·.2) then b.devices[i]?.map (b.wiredIn r)
          else b.devices[i]? := by
  induction entries generalizing b with
  | nil => exact ⟨rfl, fun i => rfl⟩
  | cons e later ih =>
    obtain ⟨hkinds, hdevices⟩ :=
      ih ((b.note [.attaching e.1]).attach e.2 r)
    have hfirst : ((b.note [.attaching e.1]).attach e.2 r).kind?
        = b.kind? := kind?_attach ..
    refine ⟨hkinds.trans hfirst, fun i => ?_⟩
    have hone : ((b.note [.attaching e.1]).attach e.2 r).devices[i]?
        = if i = e.2 then b.devices[i]?.map (b.wiredIn r)
          else b.devices[i]? := device_attach ..
    have hidem : (b.wiredIn r ∘ b.wiredIn r) = b.wiredIn r :=
      funext Device.attached_attached
    refine (hdevices i).trans ?_
    rw [wiredIn_of_kind?_eq hfirst, hone, List.map_cons]
    by_cases hi : i = e.2
    · have hmem : i ∈ e.2 :: later.map (·.2) :=
        hi ▸ List.mem_cons_self
      rw [if_pos hi, if_pos hmem, Option.map_map, hidem, ite_self]
    · simp only [List.mem_cons, hi, false_or, if_false]

theorem kind?_attachAll (r : Registry) (b : Bench) :
    (b.attachAll r).kind? = b.kind? :=
  (device_attachEntries r r.entries b).1

/-- What attaching all devices of a registry leaves in a slot. -/
theorem device_attachAll (r : Registry) (b : Bench) (i : Nat) :
    (b.attachAll r).devices[i]?
      = if i ∈ r.slots then b.devices[i]?.map (b.wiredIn r)
        else b.devices[i]? :=
  (device_attachEntries r r.entries b).2 i

/-- Registries with the same entries in another order wire the same. -/
theorem devices_attachAll_of_perm {r r' : Registry}
    (h : (r.entries.map (·.1)).Nodup)
    (hperm : r.entries.Perm r'.entries) (b : Bench) :
    (b.attachAll r).devices = (b.attachAll r').devices := by
  have hslots (i : Nat) : i ∈ r.slots ↔ i ∈ r'.slots :=
    (hperm.map _).mem_iff
  have hwired : b.wiredIn r = b.wiredIn r' := by
    unfold wiredIn
    rw [lookup_eq, lookup_eq, lookup_eq, lookup_eq,
      Registry.slot?_eq_of_perm h hperm .lines,
      Registry.slot?_eq_of_perm h hperm .controller]
  refine Array.ext_getElem? fun i => ?_
  simp only [device_attachAll, hslots, hwired]

-- =========================================================== observers

/-- An observer writes one entry when its hook runs, and nothing else is
written. -/
theorem journal_attach (slot : Fin b.devices.size) (r : Registry)
    {b' : Bench} (h : b'.kind? = b.kind?) :
    (b'.attach slot r).journal.toList
      = b'.journal.toList
        ++ if b.kindOf slot = .observer then [(slot.val, r.size)]
          else [] := by
  have hkind : b'.devices[slot.val]?.map Device.kind
      = some (b.kindOf slot) := by
    refine (congrFun h slot.val).trans ?_
    simp [kind?, kindOf]
  obtain ⟨d, hd, hkind⟩ := Option.map_eq_some_iff.mp hkind
  rw [← hkind]
  cases d <;> simp [attach, hd, Device.kind, put, note]

-- ============================================================ partners

/-- The partner that the device in a slot keeps. -/
def wire? (slot : Nat) (b : Bench) : Option Nat :=
  b.devices[slot]?.bind Device.wire?

/-- The partner that a registry has for the device in a slot, if the
device is in it. -/
def partner? (slot : Nat) (b : Bench) (r : Registry) : Option Nat :=
  if slot ∈ r.slots then
    (b.kind? slot).bind
      (DeviceKind.partner? (b.lookup .lines .lines r)
        (b.lookup .controller .controller r))
  else none

/-- A device keeps the partner that it has, or gets that of the
registry. -/
theorem wire?_attachAll (slot : Nat) (r : Registry) (b : Bench) :
    (b.attachAll r).wire? slot
      = (b.wire? slot).or (b.partner? slot r) := by
  unfold wire? partner? kind?
  rw [device_attachAll]
  split
  · cases b.devices[slot]? with
    | none => rfl
    | some d => exact Device.wire?_attached d
  · exact Option.or_none.symm

/-- Attaching does not change which partners there are to be found. -/
theorem partner?_attachAll (slot : Nat) (r : Registry) (b : Bench) :
    (b.attachAll r).partner? slot = b.partner? slot := by
  funext r'
  unfold partner?
  rw [lookup_eq, lookup_eq, lookup_eq .lines, lookup_eq .controller,
    kind?_attachAll]

/-- Attach all devices of one registry after the other. -/
def attachAlls (rs : List Registry) (b : Bench) : Bench :=
  rs.foldl (fun b r => b.attachAll r) b

theorem kind?_attachAlls (rs : List Registry) (b : Bench) :
    (b.attachAlls rs).kind? = b.kind? := by
  induction rs generalizing b with
  | nil => rfl
  | cons r later ih => exact (ih _).trans (kind?_attachAll r b)

/-- A device keeps the first partner that was found for it. -/
theorem wire?_attachAlls (slot : Nat) (rs : List Registry) (b : Bench) :
    (b.attachAlls rs).wire? slot
      = (b.wire? slot).or (rs.findSome? (b.partner? slot)) := by
  induction rs generalizing b with
  | nil => exact Option.or_none.symm
  | cons r later ih =>
    have hfirst : b.attachAlls (r :: later)
        = (b.attachAll r).attachAlls later := rfl
    rw [hfirst, ih, wire?_attachAll, partner?_attachAll,
      Option.or_assoc, List.findSome?_cons]
    cases b.partner? slot r <;> rfl

-- ========================================================== the result

/-- Run the hooks of some devices one after the other, each noted under
its key, among the devices of a registry. -/
def runHooks (b : Bench) (r : Registry)
    (slots : List (Fin b.devices.size)) (b' : Bench) : Bench :=
  slots.foldl
    (fun b' slot => (b'.note [.attaching (b.keyOf slot)]).attach slot r) b'

/-- What registering devices one after the other comes to. -/
structure ListsLatest (b : Bench) (calls : List (Fin b.devices.size))
    (r : Registry) : Prop where
  /-- No key is listed twice. -/
  keys : (r.entries.map (·.1)).Nodup
  /-- There are as many entries as keys were called. -/
  size : r.size = (calls.map b.keyOf).toFinset.card
  /-- What is found under a key is the device registered last under it,
  if it is of the kind asked for. -/
  lookup (key : DeviceKey) (kind : DeviceKind) :
    b.lookup key kind r
      = ((b.latest? key calls).filter fun slot =>
          b.kindOf slot == kind).map Fin.val
  /-- Attaching runs the hooks of the standing calls in their order. -/
  attachAll : b.attachAll r = b.runHooks r (b.standing calls) b
  /-- No device stands twice. -/
  once : (b.standing calls).Nodup
  /-- Each observer that stands writes one entry, in that order. -/
  journal :
    (b.attachAll r).journal.toList
      = b.journal.toList
        ++ ((b.standing calls).filter fun slot =>
            b.kindOf slot == .observer).map fun slot => (slot.val, r.size)

/-- The hooks are run in the order in which the registrations that stand
were made. -/
theorem attachAll_registered (calls : List (Fin b.devices.size)) :
    b.attachAll (b.registered calls)
      = b.runHooks (b.registered calls) (b.standing calls) b := by
  unfold attachAll runHooks
  rw [entries_registered, List.foldl_map]

/-- What the observers write while the hooks run. -/
theorem journal_runHooks (r : Registry)
    (slots : List (Fin b.devices.size)) {b' : Bench}
    (h : b'.kind? = b.kind?) :
    (b.runHooks r slots b').journal.toList
      = b'.journal.toList
        ++ (slots.filter fun slot =>
            b.kindOf slot == .observer).map fun slot =>
              (slot.val, r.size) := by
  induction slots generalizing b' with
  | nil => simp [runHooks]
  | cons slot later ih =>
    let noted := b'.note [.attaching (b.keyOf slot)]
    have hkinds : (noted.attach slot r).kind? = b.kind? :=
      (kind?_attach ..).trans h
    have hnoted : noted.kind? = b.kind? := h
    have hfirst : b.runHooks r (slot :: later) b'
        = b.runHooks r later (noted.attach slot r) := rfl
    rw [hfirst, ih hkinds, journal_attach slot r hnoted]
    by_cases hkind : b.kindOf slot = .observer <;>
      simp [hkind, noted, note]

/-- The registry lists the latest call for each key. -/
theorem listsLatest_registered (calls : List (Fin b.devices.size)) :
    b.ListsLatest calls (b.registered calls) where
  keys := by
    rw [keys_registered]
    exact nodup_keys_standing calls
  size := size_registered calls
  lookup key kind := by
    rw [lookup_eq, slot?_registered, Option.filter_map]
    congr 2
    funext slot
    simp [kind?, kindOf]
  attachAll := attachAll_registered calls
  once := List.Nodup.of_map _ (nodup_keys_standing calls)
  journal := by
    rw [attachAll_registered]
    exact journal_runHooks _ _ rfl

/-- Registries list devices by their keys, and what attaching wires does
not depend on the order: a registry is what the last calls under each
key make of it, devices with different keys are wired the same in
whichever order they are registered, and a device that is attached again
and again, in whichever registries, keeps the first partner found. -/
theorem wired_by_key (b : Bench) :
    (∀ calls : List (Fin b.devices.size),
      b.ListsLatest calls (b.registered calls))
    ∧ (∀ calls calls' : List (Fin b.devices.size),
        (calls.map b.keyOf).Nodup → calls.Perm calls' →
        (b.attachAll (b.registered calls)).devices
          = (b.attachAll (b.registered calls')).devices)
    ∧ (∀ (rs : List Registry) (slot : Nat),
        (b.attachAlls rs).kind? slot = b.kind? slot
        ∧ (b.attachAlls rs).wire? slot
            = (b.wire? slot).or (rs.findSome? (b.partner? slot)))
    ∧ ∀ (rs later : List Registry) (slot partner : Nat),
        (b.attachAlls rs).wire? slot = some partner →
        (b.attachAlls (rs ++ later)).wire? slot
          = some partner := by
  refine ⟨listsLatest_registered, ?order, ?partner, ?kept⟩
  case order =>
    intro calls calls' hkeys hperm
    have hkeys' : (calls'.map b.keyOf).Nodup :=
      (hperm.map _).nodup_iff.mp hkeys
    have hlisted := (listsLatest_registered calls).keys
    refine devices_attachAll_of_perm hlisted ?_ b
    rw [entries_registered, entries_registered, standing_of_nodup hkeys,
      standing_of_nodup hkeys']
    exact hperm.map _
  case partner =>
    intro rs slot
    exact ⟨congrFun (kind?_attachAlls rs b) slot,
      wire?_attachAlls slot rs b⟩
  case kept =>
    intro rs later slot partner hwire
    have hsplit : b.attachAlls (rs ++ later)
        = (b.attachAlls rs).attachAlls later := List.foldl_append
    rw [hsplit, wire?_attachAlls, hwire, Option.some_or]

/-- Lines that are asserted, a controller with a channel pending and a
timer, none of them wired. -/
def unwired : Bench :=
  { devices := #[.lines { irq := true, stop := true },
      .controller { pending := 4 },
      .timer
        { key := .retraceTimer, channel := 2, period := ⟨1000⟩ }] }

/-- The three are registered from the first to the last and from the
last to the first, and the controller is attached once more alone. -/
theorem wired_by_key_reversed :
    ((List.finRange 3).map unwired.keyOf).Nodup
    ∧ (unwired.attachAll (unwired.registered (List.finRange 3))).devices
        = (unwired.attachAll
            (unwired.registered (List.finRange 3).reverse)).devices
    ∧ (unwired.attachAlls
        [unwired.registered (List.finRange 3)]).wire? 1 = some 0
    ∧ (unwired.attachAlls
        ([unwired.registered (List.finRange 3)]
          ++ [Registry.register .controller 1 {}])).wire? 1 = some 0 := by
  obtain ⟨-, horder, -, hkept⟩ := wired_by_key unwired
  have hkeys : ((List.finRange 3).map unwired.keyOf).Nodup := by decide
  have hwire : (unwired.attachAlls
      [unwired.registered (List.finRange 3)]).wire? 1 = some 0 := by rfl
  exact ⟨hkeys, horder _ _ hkeys (List.reverse_perm _).symm, hwire,
    hkept _ _ 1 0 hwire⟩

end Bench
end HomeZ80
