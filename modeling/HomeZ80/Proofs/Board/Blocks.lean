/-
Blocks of bytes. A block is stored by a loop of its own, which does not
write its bytes in the way in which a single byte is written. It comes to
the same as if it did: as if its bytes were written to consecutive
addresses, one after the other, until a write fails, and none after that
one (`Board.upToFailure`).

What the two ways may differ in is what a board notices of a byte that is
written. It is kept by the decoder and has no part in where an access
leads (`Decoder.StoresAside`), so along both ways the same bytes come to
the same places, the same write is the first to fail, and one induction
along the block settles all the rest of the board
(`Board.pokeBlock_eq_of_sameMap`). A board that notices nothing is then
exactly the same after either (`Board.pokeBlock_eq`), and on the
bank-switched board, where no write fails, a block is the same as all its
bytes but for the picture lines (`Banked.Fitted.pokeBlock_eq`).
-/
import HomeZ80.Board.Windowed
import HomeZ80.Proofs.Board.BusCycle
import HomeZ80.Proofs.Board.Faithful

namespace HomeZ80

-- =============================================================== writes

namespace BusCycle

/-- The writes of bytes to consecutive addresses, which come back to zero
after the last one. -/
def byteWrites (addr : UInt16) (bytes : List UInt8) : List BusCycle :=
  bytes.mapIdx fun i v => .write (addr + UInt16.ofNat i) v

/-- The addresses of the rest of a block, counted from its start. -/
theorem add_one_add_ofNat (addr : UInt16) (i : Nat) :
    addr + 1 + UInt16.ofNat i = addr + UInt16.ofNat (i + 1) := by
  have hsucc : UInt16.ofNat (i + 1) = UInt16.ofNat i + 1 :=
    UInt16.ofNat_add i 1
  rw [hsucc, UInt16.add_assoc, UInt16.add_comm 1]

/-- The first byte is written first, and the rest from the next address
on. -/
theorem byteWrites_cons (addr : UInt16) (v : UInt8) (rest : List UInt8) :
    byteWrites addr (v :: rest)
      = .write addr v :: byteWrites (addr + 1) rest := by
  have hzero : addr + UInt16.ofNat 0 = addr := UInt16.add_zero addr
  unfold byteWrites
  rw [List.mapIdx_cons, hzero]
  simp only [add_one_add_ofNat]

/-- Each byte is written to its own address, modulo 65536. -/
theorem getElem?_byteWrites (addr : UInt16) (bytes : List UInt8)
    (i : Nat) :
    (byteWrites addr bytes)[i]?
      = bytes[i]?.map (.write (addr + UInt16.ofNat i)) :=
  List.getElem?_mapIdx

/-- The first writes are those of the first bytes. -/
theorem take_byteWrites (addr : UInt16) (bytes : List UInt8) (i : Nat) :
    (byteWrites addr bytes).take i = byteWrites addr (bytes.take i) := by
  induction bytes generalizing addr i with
  | nil => simp [byteWrites]
  | cons v rest ih =>
    cases i with
    | zero => rfl
    | succ i =>
      rw [byteWrites_cons, List.take_succ_cons, List.take_succ_cons,
        byteWrites_cons, ih]

end BusCycle

-- ======================================================== first failures

namespace Board

variable {μ : Type} [Decoder μ]

/-- A series of cycles up to the first that fails; that one is the
last. -/
def upToFailure : List BusCycle → Board μ → List BusCycle
  | [], _ => []
  | x :: rest, b =>
    match x.failure? b with
    | some _ => [x]
    | none => x :: upToFailure rest (x.act b)

/-- Nothing fails if the first cycle does not and none of the rest does. -/
theorem failures_cons_eq_nil_iff {x : BusCycle} {rest : List BusCycle}
    {b : Board μ} : b.failures (x :: rest) = []
      ↔ x.failure? b = none ∧ (x.act b).failures rest = [] := by
  show (x.failure? b).toList ++ (x.act b).failures rest = [] ↔ _
  rw [List.append_eq_nil_iff, Option.toList_eq_nil_iff]

/-- A cycle that succeeds is kept, and the rest is looked at. -/
theorem upToFailure_of_none {x : BusCycle} {b : Board μ}
    (h : x.failure? b = none) (rest : List BusCycle) :
    b.upToFailure (x :: rest) = x :: (x.act b).upToFailure rest := by
  rw [upToFailure, h]

/-- A cycle that fails is the last one. -/
theorem upToFailure_of_some {x : BusCycle} {b : Board μ} {fault : Fault}
    (h : x.failure? b = some fault) (rest : List BusCycle) :
    b.upToFailure (x :: rest) = [x] := by
  rw [upToFailure, h]

/-- A series in which nothing fails is made in full. -/
theorem upToFailure_of_clear {cycles : List BusCycle} {b : Board μ}
    (h : b.failures cycles = []) : b.upToFailure cycles = cycles := by
  induction cycles generalizing b with
  | nil => rfl
  | cons x rest ih =>
    obtain ⟨hx, hrest⟩ := failures_cons_eq_nil_iff.1 h
    rw [upToFailure_of_none hx, ih hrest]

/-- Any other is made up to the first cycle that fails, and this one is
made. -/
theorem upToFailure_of_failure {cycles : List BusCycle} {i : Nat}
    {x : BusCycle} {b : Board μ} {fault : Fault}
    (hx : cycles[i]? = some x) (hclear : b.failures (cycles.take i) = [])
    (hfails : x.failure? (b.perform (cycles.take i)) = some fault) :
    b.upToFailure cycles = cycles.take i ++ [x] := by
  induction cycles generalizing b i with
  | nil => cases hx
  | cons y rest ih =>
    cases i with
    | zero =>
      obtain rfl := Option.some.inj hx
      exact upToFailure_of_some hfails rest
    | succ i =>
      obtain ⟨hy, hrest⟩ := failures_cons_eq_nil_iff.1 hclear
      rw [upToFailure_of_none hy, ih hx hrest hfails]
      rfl

/-- A series without a failure leaves the latch alone. -/
theorem fault_of_clear {cycles : List BusCycle} {b : Board μ}
    (h : b.failures cycles = []) :
    (b.perform cycles).arena.fault = b.arena.fault := by
  rw [fault_perform, h]
  simp

/-- Either no cycle of a series fails, or there is a first that does. -/
theorem failures_eq_nil_or (cycles : List BusCycle) (b : Board μ) :
    b.failures cycles = []
      ∨ ∃ i x fault, cycles[i]? = some x
        ∧ b.failures (cycles.take i) = []
        ∧ x.failure? (b.perform (cycles.take i)) = some fault := by
  induction cycles generalizing b with
  | nil => exact .inl rfl
  | cons x rest ih =>
    cases hx : x.failure? b with
    | some fault => exact .inr ⟨0, x, fault, rfl, rfl, hx⟩
    | none =>
      rcases ih (x.act b) with hclear | ⟨i, y, fault, hy, hclear, hfails⟩
      · exact .inl (failures_cons_eq_nil_iff.2 ⟨hx, hclear⟩)
      · exact .inr ⟨i + 1, y, fault, hy,
          failures_cons_eq_nil_iff.2 ⟨hx, hclear⟩, hfails⟩

end Board

-- =============================================================== blocks

namespace Decoder

variable {μ : Type} [Decoder μ]

/-- Two states of a decoder in which accesses lead to the same places and
are reported on alike. -/
structure SameMap (d m : μ) : Prop where
  resolve : Decoder.resolve d = Decoder.resolve m
  remark : Decoder.remark d = Decoder.remark m

variable (μ) in
/-- What a decoder notices of a stored byte has no part in where accesses
lead. -/
def StoresAside : Prop :=
  ∀ (addr : UInt16) (m : μ), SameMap (Decoder.stored addr m) m

variable (μ) in
/-- A decoder that takes no notice of stored bytes. -/
def StoresUnnoticed : Prop :=
  ∀ (addr : UInt16) (m : μ), Decoder.stored addr m = m

/-- If nothing is noticed, nothing that is noticed matters to the map. -/
theorem StoresUnnoticed.storesAside (h : StoresUnnoticed μ) :
    StoresAside μ := by
  intro addr m
  rw [h addr m]
  exact ⟨rfl, rfl⟩

end Decoder

namespace Board

open BusCycle (byteWrites byteWrites_cons getElem?_byteWrites
  take_byteWrites)
open Decoder (SameMap StoresAside StoresUnnoticed)

variable {μ : Type}

/-- The board with its decoder in another state. -/
def withDecoder (d : μ) (b : Board μ) : Board μ := { b with decoder := d }

theorem withDecoder_self {d : μ} {b : Board μ} (h : b.decoder = d) :
    b.withDecoder d = b := by
  rw [← h]
  rfl

/-- Notes and the decoder are changed independently. -/
theorem note_withDecoder (notes : List Note) (d : μ) (b : Board μ) :
    (b.withDecoder d).note notes = (b.note notes).withDecoder d := by
  cases notes <;> rfl

variable [Decoder μ]

section
variable {d : μ} {b : Board μ} {addr : UInt16} {p : Place} {fault : Fault}

-- a single byte, and the first byte of a block

/-- The board with a byte of a block in its place. -/
def wrote (addr : UInt16) (p : Place) (v : UInt8) (b : Board μ) :
    Board μ :=
  { b.remarked .write addr with arena := b.arena.put p v }

/-- Without the announcement a stored byte leaves the decoder alone. -/
@[simp] theorem wrote_decoder (addr : UInt16) (p : Place) (v : UInt8)
    (b : Board μ) : (b.wrote addr p v).decoder = b.decoder :=
  remarked_decoder .write addr b

/-- A byte written where it can be is stored and announced. -/
theorem poke_of_ok (h : b.target addr = .ok p) (v : UInt8) :
    b.poke addr v
      = (b.wrote addr p v).withDecoder (Decoder.stored addr b.decoder) := by
  unfold poke
  rw [h]
  show ({ b.remarked .write addr with
    arena := (b.remarked .write addr).arena.put p v
    decoder := Decoder.stored addr (b.remarked .write addr).decoder }
    : Board μ) = _
  rw [remarked_arena, remarked_decoder]
  rfl

/-- A byte that cannot be stored is reported. -/
theorem poke_of_error (h : b.target addr = .error fault) (v : UInt8) :
    b.poke addr v = (b.remarked .write addr).raise fault := by
  unfold poke
  rw [h]

/-- A block whose first byte can be stored goes on with the rest, without
an announcement. -/
theorem pokeBlock_of_ok (h : b.target addr = .ok p) (v : UInt8)
    (rest : List UInt8) :
    b.pokeBlock addr (v :: rest)
      = (b.wrote addr p v).pokeBlock (addr + 1) rest := by
  rw [pokeBlock, h]
  show pokeBlock (addr + 1) rest { b.remarked .write addr with
    arena := (b.remarked .write addr).arena.put p v } = _
  rw [remarked_arena]
  rfl

/-- A block whose first byte cannot be stored ends there. -/
theorem pokeBlock_of_error (h : b.target addr = .error fault) (v : UInt8)
    (rest : List UInt8) :
    b.pokeBlock addr (v :: rest)
      = (b.remarked .write addr).raise fault := by
  rw [pokeBlock, h]

/-- A write that has a place to store at does not fail. -/
theorem failure?_write_of_ok (h : b.target addr = .ok p) (v : UInt8) :
    (BusCycle.write addr v).failure? b = none := by
  simp only [BusCycle.failure?, h]

/-- A write that has none fails for this reason. -/
theorem failure?_write_of_error (h : b.target addr = .error fault)
    (v : UInt8) : (BusCycle.write addr v).failure? b = some fault := by
  simp only [BusCycle.failure?, h]

/-- Why a write fails is why it has no place to store at. -/
theorem target_of_failure?_write {v : UInt8}
    (h : (BusCycle.write addr v).failure? b = some fault) :
    b.target addr = .error fault := by
  cases ht : b.target addr with
  | ok p =>
    rw [failure?_write_of_ok ht] at h
    cases h
  | error other =>
    rw [failure?_write_of_error ht] at h
    rw [Option.some.inj h]

-- what the decoder has noticed

/-- Decoders with one map send a write to the same place. -/
theorem target_withDecoder (h : SameMap d b.decoder) (addr : UInt16) :
    (b.withDecoder d).target addr = b.target addr := by
  unfold target resolve
  rw [show (b.withDecoder d).decoder = d from rfl, h.resolve]
  rfl

theorem remarked_withDecoder (h : SameMap d b.decoder) (access : Access)
    (addr : UInt16) :
    (b.withDecoder d).remarked access addr
      = (b.remarked access addr).withDecoder d := by
  unfold remarked
  rw [show (b.withDecoder d).decoder = d from rfl, h.remark,
    show (b.withDecoder d).log = b.log from rfl, note_withDecoder]
  split <;> rfl

/-- Under decoders with one map a byte is stored the same. -/
theorem wrote_withDecoder (h : SameMap d b.decoder) (addr : UInt16)
    (p : Place) (v : UInt8) :
    (b.withDecoder d).wrote addr p v
      = (b.wrote addr p v).withDecoder d := by
  unfold wrote
  rw [remarked_withDecoder h]
  rfl

/-- A block on one board, and its bytes on another that is the same but
for what its decoder has noticed. -/
theorem pokeBlock_eq_of_sameMap (haside : StoresAside μ)
    (h : SameMap d b.decoder) (addr : UInt16) (bytes : List UInt8) :
    let c := b.withDecoder d
    b.pokeBlock addr bytes
      = (c.perform (c.upToFailure (byteWrites addr bytes))).withDecoder
        b.decoder := by
  induction bytes generalizing addr b d with
  | nil => rfl
  | cons v rest ih =>
    intro c
    have htarget : c.target addr = b.target addr :=
      target_withDecoder h addr
    rw [byteWrites_cons]
    cases ht : b.target addr with
    | ok p =>
      rw [ht] at htarget
      have hpoke : c.poke addr v
          = (b.wrote addr p v).withDecoder (Decoder.stored addr d) := by
        rw [poke_of_ok htarget, wrote_withDecoder h]
        rfl
      have hnext : SameMap (Decoder.stored addr d)
          (b.wrote addr p v).decoder := by
        have hstored := haside addr d
        rw [wrote_decoder]
        exact ⟨hstored.resolve.trans h.resolve,
          hstored.remark.trans h.remark⟩
      rw [pokeBlock_of_ok ht,
        upToFailure_of_none (failure?_write_of_ok htarget v), perform_cons,
        show (BusCycle.write addr v).act c = _ from hpoke, ih hnext,
        wrote_decoder]
    | error fault =>
      rw [ht] at htarget
      rw [pokeBlock_of_error ht,
        upToFailure_of_some (failure?_write_of_error htarget v),
        show c.perform [.write addr v] = c.poke addr v from rfl,
        poke_of_error htarget, remarked_withDecoder h]
      have hdecoder : ((b.remarked .write addr).raise fault).decoder
          = b.decoder := remarked_decoder .write addr b
      exact (withDecoder_self hdecoder).symm

end

/-- A block is the same as its bytes, up to the first that fails, except
that nothing is noticed of it. -/
theorem pokeBlock_eq_withDecoder (haside : StoresAside μ) (addr : UInt16)
    (bytes : List UInt8) (b : Board μ) :
    b.pokeBlock addr bytes
      = (b.perform (b.upToFailure (byteWrites addr bytes))).withDecoder
        b.decoder :=
  pokeBlock_eq_of_sameMap haside ⟨rfl, rfl⟩ addr bytes

/-- A write that goes unnoticed leaves the decoder as it was. -/
theorem poke_decoder (h : StoresUnnoticed μ) (addr : UInt16) (v : UInt8)
    (b : Board μ) : (b.poke addr v).decoder = b.decoder := by
  cases ht : b.target addr with
  | ok p => rw [poke_of_ok ht, h addr]; rfl
  | error fault =>
    rw [poke_of_error ht]
    exact remarked_decoder .write addr b

/-- So do all the writes of a block, up to the one that fails. -/
theorem upToFailure_decoder (h : StoresUnnoticed μ) (addr : UInt16)
    (bytes : List UInt8) (b : Board μ) :
    (b.perform (b.upToFailure (byteWrites addr bytes))).decoder
      = b.decoder := by
  induction bytes generalizing addr b with
  | nil => rfl
  | cons v rest ih =>
    rw [byteWrites_cons]
    cases hx : (BusCycle.write addr v).failure? b with
    | none =>
      rw [upToFailure_of_none hx, perform_cons, ih]
      exact poke_decoder h addr v b
    | some fault =>
      rw [upToFailure_of_some hx]
      exact poke_decoder h addr v b

/-- A board that takes no notice of stored bytes is the same after a
block and after its bytes, log and all. -/
theorem pokeBlock_eq (h : StoresUnnoticed μ) (addr : UInt16)
    (bytes : List UInt8) (b : Board μ) :
    b.pokeBlock addr bytes
      = b.perform (b.upToFailure (byteWrites addr bytes)) := by
  rw [pokeBlock_eq_withDecoder h.storesAside,
    withDecoder_self (upToFailure_decoder h addr bytes b)]

-- ============================================================= outcomes

/-- What becomes of a block on a board that takes no notice of stored
bytes. -/
structure StoredAsBytes (addr : UInt16) (bytes : List UInt8)
    (b : Board μ) : Prop where
  eq : b.pokeBlock addr bytes
    = b.perform (b.upToFailure (byteWrites addr bytes))
  /-- Either no write fails, or there is a first that does. -/
  either : b.failures (byteWrites addr bytes) = []
    ∨ ∃ i v fault, bytes[i]? = some v
      ∧ b.failures (byteWrites addr (bytes.take i)) = []
      ∧ (BusCycle.write (addr + UInt16.ofNat i) v).failure?
        (b.perform (byteWrites addr (bytes.take i))) = some fault
  /-- If none does, all bytes are stored and nothing is latched. -/
  whole (h : b.failures (byteWrites addr bytes) = []) :
    b.pokeBlock addr bytes = b.perform (byteWrites addr bytes)
      ∧ (b.pokeBlock addr bytes).arena.fault = b.arena.fault
  /-- At the first that does, the bytes before it have been stored. It
  stores nothing, and no other byte after it; and the failure is latched
  if nothing else is. -/
  cut (i : Nat) (v : UInt8) (fault : Fault) (hv : bytes[i]? = some v)
      (hclear : b.failures (byteWrites addr (bytes.take i)) = [])
      (hfails : (BusCycle.write (addr + UInt16.ofNat i) v).failure?
        (b.perform (byteWrites addr (bytes.take i))) = some fault) :
    let before := b.perform (byteWrites addr (bytes.take i))
    b.pokeBlock addr bytes = before.poke (addr + UInt16.ofNat i) v
      ∧ (b.pokeBlock addr bytes).arena
        = { before.arena with fault := b.arena.fault <|> some fault }

/-- On a board that notices nothing a block is stored as its bytes are. -/
theorem storedAsBytes (h : StoresUnnoticed μ) (addr : UInt16)
    (bytes : List UInt8) (b : Board μ) : StoredAsBytes addr bytes b where
  eq := pokeBlock_eq h addr bytes b
  either := by
    rcases failures_eq_nil_or (byteWrites addr bytes) b
      with hclear | ⟨i, x, fault, hx, hclear, hfails⟩
    · exact .inl hclear
    · rw [getElem?_byteWrites, Option.map_eq_some_iff] at hx
      obtain ⟨v, hv, rfl⟩ := hx
      rw [take_byteWrites] at hclear hfails
      exact .inr ⟨i, v, fault, hv, hclear, hfails⟩
  whole hclear := by
    have heq := pokeBlock_eq h addr bytes b
    rw [upToFailure_of_clear hclear] at heq
    refine ⟨heq, ?_⟩
    rw [heq, fault_of_clear hclear]
  cut i v fault hv hclear hfails := by
    intro before
    have hx : (byteWrites addr bytes)[i]?
        = some (.write (addr + UInt16.ofNat i) v) := by
      rw [getElem?_byteWrites, hv]
      rfl
    have heq := pokeBlock_eq h addr bytes b
    have hlatch : before.arena.fault = b.arena.fault :=
      fault_of_clear hclear
    rw [upToFailure_of_failure hx (by rwa [take_byteWrites])
      (by rw [take_byteWrites]; exact hfails), take_byteWrites,
      perform_append] at heq
    refine ⟨heq, ?_⟩
    rw [heq, ← hlatch]
    exact poke_arena_of_error (target_of_failure?_write hfails) v

end Board

-- ======================================================= the bank switch

namespace Banked

open Board (failures_cons_eq_nil_iff upToFailure_of_clear)
open BusCycle (byteWrites byteWrites_cons)
open Decoder (StoresAside)

/-- The decoder keeps picture lines, and these are no part of its map. -/
theorem storesAside : StoresAside Banked := by
  intro addr m
  obtain ⟨dirty, h⟩ := m.stored_eq addr
  rw [show Decoder.stored addr m = _ from h]
  exact ⟨rfl, rfl⟩

variable {b : Board Banked}

theorem Fitted.failures_byteWrites (hb : Fitted b) (addr : UInt16)
    (bytes : List UInt8) : b.failures (byteWrites addr bytes) = [] := by
  induction bytes generalizing addr b with
  | nil => rfl
  | cons v rest ih =>
    obtain ⟨p, hp⟩ := hb.exists_target addr
    rw [byteWrites_cons]
    refine failures_cons_eq_nil_iff.2
      ⟨Board.failure?_write_of_ok hp v, ih ?_ (addr + 1)⟩
    exact (hb.moves_poke addr v).layout_eq.trans hb

/-- Bytes that are written mark picture lines at most. -/
theorem Fitted.decoder_byteWrites (hb : Fitted b) (addr : UInt16)
    (bytes : List UInt8) :
    ∃ dirty, (b.perform (byteWrites addr bytes)).decoder
      = { b.decoder with dirty } := by
  induction bytes generalizing addr b with
  | nil => exact ⟨b.decoder.dirty, rfl⟩
  | cons v rest ih =>
    obtain ⟨p, hp⟩ := hb.exists_target addr
    obtain ⟨marked, hmarked⟩ := b.decoder.stored_eq addr
    have hfitted : Fitted (b.poke addr v) :=
      (hb.moves_poke addr v).layout_eq.trans hb
    obtain ⟨dirty, hdirty⟩ := ih hfitted (addr + 1)
    refine ⟨dirty, ?_⟩
    rw [byteWrites_cons, Board.perform_cons]
    show ((b.poke addr v).perform _).decoder = _
    rw [hdirty, Board.poke_decoder_of_ok hp]
    show { stored addr b.decoder with dirty } = _
    rw [hmarked]

/-- No write fails on this board, and a block is the same as all its
bytes, except that it marks no picture line. -/
theorem Fitted.pokeBlock_eq (hb : Fitted b) (addr : UInt16)
    (bytes : List UInt8) :
    let written := b.perform (byteWrites addr bytes)
    b.pokeBlock addr bytes
      = { written with
          decoder := { written.decoder with dirty := b.decoder.dirty } } := by
  intro written
  obtain ⟨dirty, hdirty⟩ := hb.decoder_byteWrites addr bytes
  rw [Board.pokeBlock_eq_withDecoder storesAside,
    upToFailure_of_clear (hb.failures_byteWrites addr bytes)]
  show written.withDecoder b.decoder = written.withDecoder
    { written.decoder with dirty := b.decoder.dirty }
  rw [hdirty]

end Banked
end HomeZ80
