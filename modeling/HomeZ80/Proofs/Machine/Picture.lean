/-
The picture of a machine. Between two times that its dirty lines are
taken, a line becomes dirty if and only if a byte is written to it: by
an instruction, by the push of an interrupt or from outside, but not
with a block (`dirty_lines_exact`). What was written to is told from the
bus cycles of the events, each at the moment when it is made.

A word is written as two bytes, so a word that straddles two lines
belongs to both (`pokePair_eq_after`). A block is loaded behind the back
of the decoder, and is not followed (`loadRam_eq_after`).
-/
import HomeZ80.Proofs.Board.Picture
import HomeZ80.Proofs.Cpu.BusCycles
import HomeZ80.Proofs.Machine.Memory

namespace HomeZ80

open Banked (videoPlane mainRam lineCount Fitted)

namespace Machine

-- =============================================================== events

/-- The bus cycles of an event. A block is not made of any. -/
def Event.cycles (s : Computer Banked) : Event → List BusCycle
  | .step => s.cycles
  | .peek addr => [.read addr]
  | .poke addr v => [.write addr v]
  | .output port v => [.output port v]
  | _ => []

/-- Whether an event unmarks the picture lines. -/
def Event.isTake : Event → Bool
  | .takeDirty | .resetBanks => true
  | _ => false

def Event.isBlock : Event → Bool
  | .pokeBlock _ _ => true
  | _ => false

/-- A word is written as two bytes. -/
theorem pokePair_eq_after (addr : UInt16) (hi lo : UInt8)
    (s : Computer Banked) :
    s.onBoard (·.pokePair addr hi lo)
      = after [.poke addr lo, .poke (addr + 1) hi] s := rfl

/-- Loading a block is one event, and the latch is taken after it. -/
theorem loadRam_eq_after (addr : UInt16) (bytes : List UInt8)
    (m : Machine) :
    (m.loadRam addr bytes).2.computer
      = after [.pokeBlock addr bytes, .takeFault] m.computer := by
  unfold Machine.loadRam
  dsimp only
  split
  · next heq => exact (congrArg Prod.snd heq).symm
  · next heq => exact (congrArg Prod.snd heq).symm

/-- Every event leaves the regions as they are. -/
theorem fitted_act (e : Event) {s : Computer Banked}
    (hs : Fitted s.board) : Fitted (e.act s).board := by
  cases he : e.isInstall with
  | false => exact (calm_act he hs).fitted hs
  | true =>
    cases e with
    | install rom image =>
      show (Banked.install rom image s.board).arena.layout = _
      rw [install_arena, Arena.layout_load]
      exact hs
    | _ => cases he

theorem fitted_after (events : List Event) {s : Computer Banked}
    (hs : Fitted s.board) : Fitted (after events s).board := by
  induction events generalizing s with
  | nil => exact hs
  | cons e rest ih => exact ih (fitted_act e hs)

/-- An event marks what its bus cycles mark, and unmarks nothing unless
it takes the lines. -/
theorem isDirty_event {e : Event} (he : e.isTake = false)
    {s : Computer Banked} (hs : Fitted s.board) {line : Nat}
    (hline : line < lineCount) :
    (e.act s).board.decoder.isDirty line = true
      ↔ s.board.decoder.isDirty line = true
        ∨ s.board.Marks line (e.cycles s) := by
  have hperform := hs.isDirty_perform hline (e.cycles s)
  rw [← hperform]
  have still : (e.act s).board.decoder.dirty
      = (s.board.perform (e.cycles s)).decoder.dirty →
      ((e.act s).board.decoder.isDirty line = true ↔
        (s.board.perform (e.cycles s)).decoder.isDirty line = true) := by
    intro h
    unfold Banked.isDirty
    rw [h]
  apply still
  cases e with
  | takeDirty | resetBanks => cases he
  | step => exact congrArg Banked.dirty (Exec.sameBus_step s).decoder
  | pokeBlock addr bytes =>
    exact congrArg Banked.dirty
      (Board.SameDevices.pokeBlock addr bytes _).decoder
  | request channel | acknowledge channel =>
    exact congrArg Banked.dirty
      (Board.SameMemory.onController _ s.board).decoder
  | install rom image =>
    show (Banked.install rom image s.board).decoder.dirty = _
    unfold Banked.install
    rw [Board.note_decoder]
    cases rom <;> rfl
  | takeFault =>
    show s.board.takeFault.2.decoder.dirty = _
    unfold Board.takeFault
    split <;> rfl
  | note notes =>
    exact congrArg Banked.dirty (Board.note_decoder notes s.board)
  | _ => rfl

/-- A byte of a plane that an event changes, other than a block, lies in
a line that it marks. -/
theorem marks_of_changed_event {e : Event} (he : e.isBlock = false)
    {s : Computer Banked} (hs : Fitted s.board) {k : Fin 3}
    {offset : Nat}
    (h : (e.act s).board.arena.byte? ⟨videoPlane k, offset⟩
      ≠ s.board.arena.byte? ⟨videoPlane k, offset⟩) :
    s.board.Marks (offset / 80) (e.cycles s) := by
  cases hstoring : e.isStoring with
  | false => exact absurd (congrFun (still_act hstoring s) _) h
  | true =>
    cases e with
    | step =>
      have harena := (Exec.sameBus_step s).arena
      have hstep : (Exec.step s).2.board.arena.byte? ⟨videoPlane k, offset⟩
          ≠ s.board.arena.byte? ⟨videoPlane k, offset⟩ := h
      rw [harena] at hstep
      exact hs.marks_of_changed_perform s.cycles hstep
    | poke addr v => exact hs.marks_of_changed_perform [.write addr v] h
    | pokeBlock addr bytes => cases he
    | install rom image =>
      have hregion : videoPlane k ≠ rom.region :=
        (Banked.ne_videoPlane_of_lt rom.region_lt k).symm
      refine absurd ?_ h
      show (Banked.install rom image s.board).arena.byte? _ = _
      rw [install_arena, Arena.byte?_load, if_neg]
      exact fun hplace => hregion hplace.1
    | _ => cases hstoring

-- ============================================================== history

/-- Whether one of a series of events marks a picture line, when its turn
comes. -/
def Marks (line : Nat) (events : List Event) (s : Computer Banked) :
    Prop :=
  Sometime Event.act
    (fun (s : Computer Banked) e => s.board.Marks line (e.cycles s))
    events s

/-- After a history without a take those lines are dirty that were, or that
it marked. -/
theorem isDirty_after {events : List Event}
    (hevents : ∀ e ∈ events, e.isTake = false) {s : Computer Banked}
    (hs : Fitted s.board) {line : Nat} (hline : line < lineCount) :
    (after events s).board.decoder.isDirty line = true
      ↔ s.board.decoder.isDirty line = true ∨ Marks line events s := by
  refine Sometime.iff_of_step (I := fun s : Computer Banked => Fitted s.board)
    (Q := fun e => e.isTake = false)
    (D := fun s : Computer Banked =>
      s.board.decoder.isDirty line = true)
    ?_ ?_ hevents hs
  · exact fun s e hs => fitted_act e hs
  · exact fun s e hs he => isDirty_event he hs hline

/-- A history without a block marks the line of every byte of a plane that
it changes. -/
theorem marks_of_changed {events : List Event}
    (hevents : ∀ e ∈ events, e.isBlock = false) {s : Computer Banked}
    (hs : Fitted s.board) {k : Fin 3} {offset : Nat}
    (h : (after events s).board.arena.byte? ⟨videoPlane k, offset⟩
      ≠ s.board.arena.byte? ⟨videoPlane k, offset⟩) :
    Marks (offset / 80) events s := by
  refine Sometime.of_changed (I := fun s : Computer Banked => Fitted s.board)
    (Q := fun e => e.isBlock = false)
    (f := fun s : Computer Banked =>
      s.board.arena.byte? ⟨videoPlane k, offset⟩)
    ?_ ?_ hevents hs h
  · exact fun s e hs => fitted_act e hs
  · exact fun s e hs he hchanged => marks_of_changed_event he hs hchanged

-- ============================================================== picture

/-- Whatever takes the dirty lines clears them. -/
theorem isDirty_take {take : Event} (h : take.isTake = true)
    (s : Computer Banked) (line : Nat) :
    (take.act s).board.decoder.isDirty line = false := by
  cases take with
  | takeDirty => exact Banked.isDirty_takeDirty _ line
  | resetBanks => exact Banked.isDirty_reset _ line
  | _ => cases h

/-- After the dirty lines of a machine were taken, or the banks reset,
and whatever happened since, those lines are dirty that a byte was
written to while a plane was selected, and no others. Of the lines that
are then taken, in ascending order and leaving none dirty, none is
missing that has a byte changed, unless by a block. Writes to RAM mark
nothing, and neither do those beyond the last line. -/
theorem dirty_lines_exact {config : MachineConfig} {log : Log}
    {m : Machine} (h : Reached config log m) {take : Event}
    (htake : take.isTake = true) {events : List Event}
    (hevents : ∀ e ∈ events, e.isTake = false) :
    let s := take.act m.computer
    let t := after events s
    let taken := ({ m with computer := t } : Machine).takeDirty
    (∀ line < 200,
      t.board.decoder.isDirty line = true ↔ Marks line events s)
    ∧ ((∀ e ∈ events, e.isBlock = false) →
      ∀ (k : Fin 3) (offset : Nat), offset < 16000 →
        t.board.arena.byte? ⟨videoPlane k, offset⟩
          ≠ s.board.arena.byte? ⟨videoPlane k, offset⟩ →
        offset / 80 ∈ taken.1)
    ∧ (∀ addr v p, t.board.target addr = .ok p → p.region = mainRam →
      (t.board.poke addr v).decoder = t.board.decoder)
    ∧ (∀ addr v, 0xC000 + 16000 ≤ addr.toNat →
      (t.board.poke addr v).decoder = t.board.decoder)
    ∧ taken.1.Pairwise (· < ·)
    ∧ (∀ line, line ∈ taken.1
      ↔ line < 200 ∧ t.board.decoder.isDirty line = true)
    ∧ ∀ line,
      taken.2.computer.board.decoder.isDirty line = false := by
  intro s t taken
  have hs : Fitted s.board := fitted_act take h.sound.fitted
  have ht : Fitted t.board := fitted_after events hs
  obtain ⟨hascending, hmem⟩ := t.board.decoder.takeDirty_fst
  have hdirty : ∀ line < 200,
      t.board.decoder.isDirty line = true ↔ Marks line events s := by
    intro line hline
    have hiff := isDirty_after hevents hs hline
    rw [isDirty_take htake] at hiff
    simpa using hiff
  refine ⟨hdirty, ?_, ?_, ?_, hascending, hmem, ?_⟩
  · intro hblocks k offset hoffset hchanged
    have hline : offset / 80 < 200 := by omega
    have hmarks := marks_of_changed hblocks hs hchanged
    exact (hmem _).2 ⟨hline, (hdirty _ hline).2 hmarks⟩
  · intro addr v p hp hregion
    exact ht.decoder_poke_ram hp hregion v
  · intro addr v hbeyond
    obtain ⟨p, hp⟩ := ht.exists_target addr
    rw [Board.poke_decoder_of_ok hp]
    exact Banked.stored_of_beyond hbeyond _
  · exact t.board.decoder.isDirty_takeDirty

/-- A byte written to the fourth line of plane 0 of a new machine. -/
theorem dirty_lines_exact_poke :
    let events : List Event := [.output 0x5C 0, .poke 0xC0F7 0x42]
    let t := after events (Event.takeDirty.act (new {} {}).computer)
    Reached {} {} (new {} {})
      ∧ t.board.decoder.isDirty 3 = true
      ∧ 3 ∈ (({ (new {} {}) with computer := t } : Machine).takeDirty).1 := by
  intro events t
  have hreached : Reached {} {} (new {} {}) := .new
  have hall := @dirty_lines_exact _ _ _ hreached .takeDirty rfl
    events (by decide)
  have hmarks : Marks 3 events
      (Event.takeDirty.act (new {} {}).computer) := by
    refine ⟨[.output 0x5C 0], .poke 0xC0F7 0x42, [], rfl,
      [], .write 0xC0F7 0x42, [], rfl, by decide, ?_, by decide⟩
    decide +kernel
  have hdirty := (hall.1 3 (by decide)).2 hmarks
  exact ⟨hreached, hdirty, (hall.2.2.2.2.2.1 3).2 ⟨by decide, hdirty⟩⟩

end Machine
end HomeZ80
