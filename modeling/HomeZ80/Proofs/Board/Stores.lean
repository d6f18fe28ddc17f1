/-
What a program makes of the memory of a board. Two kinds of access
matter to it: a byte is written, or a port is used, which may change the
way to the bytes (`Board.Change`). Each written byte comes to one
place, or to none if the write fails, and the bytes of the board after
any number of changes are the bytes before with the stores replayed over
them in their order (`Board.bytes_after`). A byte is therefore always
the last one that was stored at its place.

Every access amounts to changes (`Board.ChangesTo.touch`), and so does a
step of the CPU with the interrupt that it may take
(`Exec.changes_step`): lines and controller are no memory.
-/
import HomeZ80.Proofs.Board.Memory
import HomeZ80.Proofs.Cpu.Entry
import HomeZ80.Proofs.Memory.Layout

namespace HomeZ80

/-- A byte with the place that it is stored at. -/
abbrev Store := Place × UInt8

/-- Bytes with a series of stores made over them, the first one
first. -/
def replay (stores : List Store) (bytes : Place → Option UInt8) :
    Place → Option UInt8 :=
  stores.foldl (fun bytes s => Function.update bytes s.1 (some s.2))
    bytes

namespace Board

variable {μ : Type} [Decoder μ]

-- ============================================================= one byte

/-- A write is stored where the decoder sends it, if the region takes
it. -/
theorem target_eq_ok_iff {b : Board μ} {addr : UInt16} {p : Place} :
    b.target addr = .ok p
      ↔ b.resolve .write addr = .ok p ∧ b.arena.refusal? p = none := by
  unfold target
  cases hr : b.resolve .write addr with
  | error fault => simp
  | ok q =>
    obtain ⟨region, offset⟩ := q
    dsimp only
    cases hf : b.arena.refusal? ⟨region, offset⟩ with
    | none =>
      constructor
      · intro h
        cases h
        exact ⟨rfl, hf⟩
      · intro h
        exact h.1
    | some fault =>
      constructor
      · nofun
      · intro h
        cases h.1
        rw [hf] at h
        cases h.2

/-- A read that is sent to a byte gives this byte, and does not fail. -/
theorem byte?_of_resolve {b : Board μ} {addr : UInt16} {p : Place}
    (hresolve : b.resolve .read addr = .ok p)
    (hform : ∃ form, b.arena.layout[p.region]? = some form
      ∧ p.offset < form.size) :
    b.arena.byte? p = some (b.valueAt addr) ∧ b.failureAt addr = none := by
  obtain ⟨v, hv⟩ := Option.isSome_iff_exists.1
    ((Arena.byte?_isSome_iff p b.arena).2 hform)
  have hfetch : b.arena.read p = .ok v := Arena.read_eq_ok hv
  constructor
  · have hvalue : b.valueAt addr = v := by
      simp only [valueAt, fetch, hresolve, hfetch]
    rw [hvalue, hv]
  · simp only [failureAt, fetch, hresolve, hfetch]

@[simp] theorem remarked_arena (access : Access) (addr : UInt16)
    (b : Board μ) : (b.remarked access addr).arena = b.arena := by
  unfold remarked
  split
  · exact note_arena _ b
  · rfl

@[simp] theorem remarked_decoder (access : Access) (addr : UInt16)
    (b : Board μ) : (b.remarked access addr).decoder = b.decoder :=
  (SameDevices.remarked access addr b).decoder

/-- A write that is stored changes one byte of the arena. -/
theorem poke_arena_of_ok {b : Board μ} {addr : UInt16} {p : Place}
    (h : b.target addr = .ok p) (v : UInt8) :
    (b.poke addr v).arena = b.arena.put p v := by
  unfold poke
  rw [h]
  show ((b.remarked .write addr).arena.put p v) = _
  rw [remarked_arena]

theorem poke_decoder_of_ok {b : Board μ} {addr : UInt16} {p : Place}
    (h : b.target addr = .ok p) (v : UInt8) :
    (b.poke addr v).decoder = Decoder.stored addr b.decoder := by
  unfold poke
  rw [h]
  show Decoder.stored addr (b.remarked .write addr).decoder = _
  rw [remarked_decoder]

/-- A write that fails changes the latch at most. -/
theorem poke_arena_of_error {b : Board μ} {addr : UInt16} {fault : Fault}
    (h : b.target addr = .error fault) (v : UInt8) :
    (b.poke addr v).arena = b.arena.raise fault := by
  unfold poke
  rw [h]
  show (b.remarked .write addr).arena.raise fault = _
  rw [remarked_arena]

/-- A write to a port is none to memory. -/
@[simp] theorem writePort_arena (port v : UInt8) (b : Board μ) :
    (b.writePort port v).arena = b.arena := by
  unfold writePort
  dsimp only
  split
  · exact note_arena _ _
  · exact note_arena _ _

@[simp] theorem writePort_decoder (port v : UInt8) (b : Board μ) :
    (b.writePort port v).decoder = Decoder.writePort port v b.decoder := by
  unfold writePort
  dsimp only
  split
  · exact note_decoder _ _
  · exact note_decoder _ _

-- =============================================================== layout

/-- No access changes the layout of the memory. -/
theorem Touch.layout_eq {b b' : Board μ} (h : Touch b b') :
    b'.arena.layout = b.arena.layout := by
  cases h with
  | read addr =>
    have hsame := (SameMemory.afterRead addr b).regions
    unfold Arena.layout
    rw [hsame]
  | write addr v =>
    cases ht : b.target addr with
    | ok p => rw [poke_arena_of_ok ht, Arena.layout_put]
    | error fault => rw [poke_arena_of_error ht, Arena.layout_raise]
  | input port => rfl
  | output port v => rw [writePort_arena]
  | note n => rw [note_arena]

-- ============================================================== changes

/-- What can change the memory of a board, or the way to it. -/
inductive Change where
  | write (addr : UInt16) (v : UInt8)
  | input (port : UInt8)
  | output (port v : UInt8)
  deriving DecidableEq, Repr

def Change.act (b : Board μ) : Change → Board μ
  | .write addr v => b.poke addr v
  | .input port => b.afterInput port
  | .output port v => b.writePort port v

/-- The store that a change makes, if it makes one. -/
def Change.store? (b : Board μ) : Change → Option Store
  | .write addr v =>
    match b.target addr with
    | .ok p => some (p, v)
    | .error _ => none
  | .input _ | .output _ _ => none

/-- The board after a series of changes, the first one first. -/
def after (changes : List Change) (b : Board μ) : Board μ :=
  changes.foldl Change.act b

def stores : List Change → Board μ → List Store
  | [], _ => []
  | x :: rest, b => (x.store? b).toList ++ stores rest (x.act b)

/-- Each change makes its store over the bytes before, if it makes one. -/
theorem Change.bytes_act (x : Change) (b : Board μ) :
    (x.act b).arena.bytes = replay (x.store? b).toList b.arena.bytes := by
  cases x with
  | write addr v =>
    simp only [act, store?]
    cases ht : b.target addr with
    | ok p =>
      rw [poke_arena_of_ok ht]
      exact Arena.bytes_put_of_accepted (target_eq_ok_iff.1 ht).2 v
    | error fault =>
      rw [poke_arena_of_error ht]
      rfl
  | input port => rfl
  | output port v =>
    simp only [act, store?, writePort_arena]
    rfl

/-- The bytes after any number of changes are the bytes before with the
stores made over them. -/
theorem bytes_after (changes : List Change) (b : Board μ) :
    (b.after changes).arena.bytes
      = replay (b.stores changes) b.arena.bytes := by
  induction changes generalizing b with
  | nil => rfl
  | cons x rest ih =>
    show ((x.act b).after rest).arena.bytes = _
    rw [ih, x.bytes_act]
    exact (List.foldl_append ..).symm

-- ================================================== only memory matters

/-- What a change makes of the memory does not depend on the rest of the
board. -/
theorem SameMemory.act {b b' : Board μ} (h : b.SameMemory b')
    (x : Change) : (x.act b).SameMemory (x.act b') := by
  cases x with
  | write addr v =>
    have htarget : b'.target addr = b.target addr := by
      simp only [target, resolve, Arena.refusal?, h.regions, h.decoder]
    show (b.poke addr v).SameMemory (b'.poke addr v)
    cases ht : b.target addr with
    | ok p =>
      rw [ht] at htarget
      constructor
      · rw [poke_arena_of_ok ht, poke_arena_of_ok htarget]
        show b'.arena.regions.modify _ _ = b.arena.regions.modify _ _
        rw [h.regions]
      · rw [poke_decoder_of_ok ht, poke_decoder_of_ok htarget, h.decoder]
    | error fault =>
      rw [ht] at htarget
      have hraised : ∀ {c : Board μ}, c.target addr = .error fault →
          c.SameMemory (c.poke addr v) := by
        intro c hc
        unfold poke
        rw [hc]
        exact (SameMemory.remarked .write addr c).trans (.raise _ _)
      have hb := hraised ht
      have hb' := hraised htarget
      exact ⟨by rw [hb'.regions, h.regions, hb.regions],
        by rw [hb'.decoder, h.decoder, hb.decoder]⟩
  | input port =>
    refine ⟨h.regions, ?_⟩
    show Decoder.afterInput port b'.decoder
      = Decoder.afterInput port b.decoder
    rw [h.decoder]
  | output port v =>
    show (b.writePort port v).SameMemory (b'.writePort port v)
    exact ⟨by rw [writePort_arena, writePort_arena, h.regions],
      by rw [writePort_decoder, writePort_decoder, h.decoder]⟩

/-- Whether changes lead from the memory of one board to that of
another. -/
def ChangesTo (b b' : Board μ) : Prop :=
  ∃ changes, (b.after changes).SameMemory b'

namespace ChangesTo

/-- No change at all leads to the same memory. -/
theorem refl (b : Board μ) : b.ChangesTo b := ⟨[], .refl b⟩

/-- What has no part in memory can be left out. -/
theorem same {b b' b'' : Board μ} (h : b.ChangesTo b')
    (hsame : b'.SameMemory b'') : b.ChangesTo b'' := by
  obtain ⟨changes, hchanges⟩ := h
  exact ⟨changes, hchanges.trans hsame⟩

theorem act {b b' : Board μ} (h : b.ChangesTo b') (x : Change) :
    b.ChangesTo (x.act b') := by
  obtain ⟨changes, hchanges⟩ := h
  refine ⟨changes ++ [x], ?_⟩
  have hlast : b.after (changes ++ [x]) = x.act (b.after changes) :=
    List.foldl_append
  rw [hlast]
  exact hchanges.act x

/-- Every access amounts to a change, or to none. -/
theorem touch {b b' b'' : Board μ} (h : b.ChangesTo b')
    (ht : Touch b' b'') : b.ChangesTo b'' := by
  cases ht with
  | read addr => exact h.same (.afterRead addr b')
  | write addr v => exact h.act (.write addr v)
  | input port => exact h.act (.input port)
  | output port v => exact h.act (.output port v)
  | note n => exact h.same (.note [n] b')

end ChangesTo

end Board

-- ================================================================ steps

namespace Exec

variable {μ : Type}

/-- An acknowledgement leaves memory alone. -/
theorem acknowledge_arena (channel : UInt8) (s : Computer μ) :
    (acknowledge channel s).2.board.arena = s.board.arena := by
  cases hc : s.board.controller with
  | none =>
    rw [acknowledge_of_none hc]
    rfl
  | some c =>
    rw [acknowledge_of_some hc]
    exact Board.onController_arena _ _

theorem acknowledge_decoder (channel : UInt8) (s : Computer μ) :
    (acknowledge channel s).2.board.decoder = s.board.decoder := by
  rw [← heed_board]
  exact (sameMemory_heed channel s).decoder

variable [Decoder μ]

/-- What every access preserves, and what is a matter of arena and
decoder alone, a step preserves, whatever it executes and whichever
interrupt it takes. -/
theorem preserved_step {P : Board μ → Prop}
    (htouch : ∀ {b b' : Board μ}, b.Touch b' → P b → P b')
    (hstill : ∀ {b b' : Board μ}, b'.arena = b.arena →
      b'.decoder = b.decoder → P b → P b')
    {s : Computer μ} (h : P s.board) : P (step s).2.board := by
  apply step_preserves htouch _ _ h
  · intro b hb
    exact @hstill b _ rfl rfl hb
  · intro t channel ht
    exact hstill (acknowledge_arena channel t)
      (acknowledge_decoder channel t) ht

/-- All that a step does to memory is a series of changes. -/
theorem changes_step (s : Computer μ) :
    s.board.ChangesTo (step s).2.board :=
  preserved_step (fun ht h => h.touch ht)
    (fun harena hdecoder h => h.same ⟨by rw [harena], hdecoder⟩)
    (.refl s.board)

end Exec
end HomeZ80
