/-
The picture lines of the bank-switched board. A line is marked dirty
exactly when a byte is written to an address of the video range that
lies in the line, while a plane is selected (`BusCycle.Marks`). Nothing
else marks a line and nothing but taking the lines unmarks one, so after
a series of bus cycles those lines are dirty that were dirty before, and
those that one of the cycles marked at its moment
(`Banked.Fitted.isDirty_perform`).

A byte of a plane changes only by a write that goes to the plane, and
such a write marks the line of the byte. So the bytes of the lines that
are not dirty are those of the last time that the lines were taken
(`Banked.Fitted.marks_of_changed`).
-/
import HomeZ80.Proofs.Board.BusCycle
import HomeZ80.Proofs.Board.MemoryMap
import HomeZ80.Proofs.Sometime

namespace HomeZ80

open Banked (videoPlane mainRam lineCount Fitted)

-- ========================================================== dirty lines

namespace Banked

/-- The planes come after all other regions. -/
theorem ne_videoPlane_of_lt {region : Nat} (h : region < 7) (k : Fin 3) :
    region ≠ videoPlane k := by
  intro heq
  have hk : region = 7 + k := heq
  omega

/-- The ROMs are before the planes. -/
theorem Rom.region_lt (rom : Rom) : rom.region < 7 := by
  cases rom with
  | n88 | nBasic => decide
  | ext page => exact show 3 + (page : Nat) < 7 by omega

/-- A line of the picture has a mark. -/
theorem isDirty_of_lt {line : Nat} (h : line < lineCount) (m : Banked) :
    m.isDirty line = m.dirty[line] := by
  unfold isDirty
  rw [Vector.getElem?_eq_getElem h]
  rfl

/-- A byte stored at an address of the video range marks its line, if a
plane is selected. -/
theorem isDirty_stored {line : Nat} (hline : line < lineCount)
    (addr : UInt16) (m : Banked) :
    (m.stored addr).isDirty line = true
      ↔ m.isDirty line = true
        ∨ 0xC000 ≤ addr ∧ m.bank.plane.isSome = true
          ∧ lineOf addr = line := by
  unfold stored
  split
  · next hlow =>
    have hnot : ¬ (0xC000 : UInt16) ≤ addr := UInt16.not_le.2 hlow
    simp [hnot]
  · next hlow =>
    have hvideo : (0xC000 : UInt16) ≤ addr := UInt16.not_lt.1 hlow
    cases hplane : m.bank.plane with
    | none => simp
    | some k =>
      dsimp only
      rw [isDirty_of_lt hline, isDirty_of_lt hline]
      rw [Vector.getElem_setIfInBounds]
      by_cases heq : lineOf addr = line
      · simp [heq, hvideo]
      · simp [heq]

/-- Beyond the last line nothing is marked. -/
theorem stored_of_beyond {addr : UInt16}
    (h : 0xC000 + 16000 ≤ addr.toNat) (m : Banked) :
    m.stored addr = m := by
  have hbeyond : ¬ lineOf addr < lineCount := by
    show ¬ (addr.toNat - 0xC000) / 80 < 200
    omega
  unfold stored
  split
  · rfl
  · split
    · rw [Vector.setIfInBounds_eq_of_size_le (Nat.not_lt.1 hbeyond)]
    · rfl

/-- The lines taken are the dirty ones, in ascending order. -/
theorem takeDirty_fst (m : Banked) :
    m.takeDirty.1.Pairwise (· < ·)
      ∧ ∀ line, line ∈ m.takeDirty.1
        ↔ line < lineCount ∧ m.isDirty line = true := by
  constructor
  · exact List.pairwise_lt_range.filter _
  · intro line
    unfold takeDirty
    rw [List.mem_filter, List.mem_range]

/-- Taking the dirty lines clears them all. -/
theorem isDirty_takeDirty (m : Banked) (line : Nat) :
    m.takeDirty.2.isDirty line = false := by
  show ((Vector.replicate lineCount false)[line]?).getD false = false
  rw [Vector.getElem?_replicate]
  split <;> rfl

theorem isDirty_reset (m : Banked) (line : Nat) :
    m.reset.isDirty line = false := m.isDirty_takeDirty line

end Banked

-- =============================================================== cycles

/-- Whether a cycle marks a picture line. -/
def BusCycle.Marks (line : Nat) (b : Board Banked) : BusCycle → Prop
  | .write addr _ =>
    0xC000 ≤ addr ∧ b.decoder.bank.plane.isSome = true
      ∧ (addr.toNat - 0xC000) / 80 = line
  | .read _ | .input _ | .output _ _ => False

/-- Whether one of a series of cycles marks a picture line, when its
turn comes. -/
def Board.Marks (line : Nat) (cycles : List BusCycle)
    (b : Board Banked) : Prop :=
  Sometime BusCycle.act (fun b x => x.Marks line b) cycles b

namespace Banked.Fitted

variable {b : Board Banked}

theorem act (hb : Fitted b) (x : BusCycle) : Fitted (x.act b) := by
  cases x with
  | read addr => exact (Board.Touch.read addr b).layout_eq.trans hb
  | write addr v => exact (Board.Touch.write addr v b).layout_eq.trans hb
  | input port => exact hb
  | output port v =>
    exact (Board.Touch.output port v b).layout_eq.trans hb

/-- A cycle leaves those lines dirty that were, and marks at most its
own. -/
theorem isDirty_act (hb : Fitted b) {line : Nat}
    (hline : line < lineCount) (x : BusCycle) :
    (x.act b).decoder.isDirty line = true
      ↔ b.decoder.isDirty line = true ∨ x.Marks line b := by
  cases x with
  | read addr =>
    show (b.afterRead addr).decoder.isDirty line = true ↔ _
    rw [(Board.SameMemory.afterRead addr b).decoder]
    simp [BusCycle.Marks]
  | write addr v =>
    obtain ⟨p, hp⟩ := hb.exists_target addr
    show (b.poke addr v).decoder.isDirty line = true ↔ _
    rw [Board.poke_decoder_of_ok hp]
    exact isDirty_stored hline addr b.decoder
  | input port => exact (or_iff_left id).symm
  | output port v =>
    show (b.writePort port v).decoder.isDirty line = true ↔ _
    rw [Board.writePort_decoder]
    simp only [BusCycle.Marks, or_false]
    rfl

/-- After a series of cycles those lines are dirty that were dirty
before, or that one of the cycles marked. -/
theorem isDirty_perform (hb : Fitted b) {line : Nat}
    (hline : line < lineCount) (cycles : List BusCycle) :
    (b.perform cycles).decoder.isDirty line = true
      ↔ b.decoder.isDirty line = true ∨ b.Marks line cycles := by
  refine Sometime.iff_of_step (I := Fitted) (Q := fun _ => True)
    (D := fun b => b.decoder.isDirty line = true) ?_ ?_ ?_ hb
  · exact fun b x hb => hb.act x
  · exact fun b x hb _ => hb.isDirty_act hline x
  · exact fun _ _ => trivial

-- ===================================================== bytes of a plane

/-- A write that goes to a plane is a write to the video range while the
plane is selected. -/
theorem plane_of_target (hb : Fitted b) {addr : UInt16} {p : Place}
    {k : Fin 3} (h : b.target addr = .ok p) (hp : p.region = videoPlane k) :
    0xC000 ≤ addr ∧ b.decoder.bank.plane.isSome = true
      ∧ addr.toNat - 0xC000 = p.offset := by
  have hother : ∀ region < 7, region ≠ videoPlane k :=
    fun _ hlt => ne_videoPlane_of_lt hlt k
  cases hb.target_eq_ok_iff.1 h with
  | low => exact absurd hp (hother mainRam (by decide))
  | shown hhigh hshows =>
    cases hshows with
    | lowRam | window | ram | highRam =>
      exact absurd hp (hother mainRam (by decide))
    | nBasic => exact absurd hp (hother nRom (by decide))
    | n88 => exact absurd hp (hother n88Rom (by decide))
    | ext => exact absurd hp (hother _ (Rom.ext _).region_lt)
    | plane k' hvideo hplane =>
      exact ⟨hvideo, by rw [hplane]; rfl, rfl⟩

/-- A byte of a plane that a cycle changes lies in a line that the cycle
marks. -/
theorem marks_of_changed (hb : Fitted b) {k : Fin 3} {offset : Nat}
    (x : BusCycle)
    (h : (x.act b).arena.byte? ⟨videoPlane k, offset⟩
      ≠ b.arena.byte? ⟨videoPlane k, offset⟩) :
    x.Marks (offset / 80) b := by
  cases x with
  | read addr =>
    have hsame := (Board.SameMemory.afterRead addr b).regions
    refine absurd ?_ h
    show (b.afterRead addr).arena.byte? _ = _
    simp only [Arena.byte?, hsame]
  | write addr v =>
    obtain ⟨p, hp⟩ := hb.exists_target addr
    have hbyte : (b.poke addr v).arena.byte? ⟨videoPlane k, offset⟩
        ≠ b.arena.byte? ⟨videoPlane k, offset⟩ := h
    rw [Board.poke_arena_of_ok hp, Arena.byte?_put] at hbyte
    by_cases heq : p = ⟨videoPlane k, offset⟩
    · obtain ⟨hvideo, hplane, hoffset⟩ :=
        hb.plane_of_target hp (congrArg Place.region heq)
      rw [heq] at hoffset
      exact ⟨hvideo, hplane, congrArg (· / 80) hoffset⟩
    · rw [if_neg heq] at hbyte
      exact absurd rfl hbyte
  | input port => exact absurd rfl h
  | output port v =>
    refine absurd ?_ h
    show (b.writePort port v).arena.byte? _ = _
    rw [Board.writePort_arena]

/-- A byte of a plane that a series of cycles changes lies in a line that
one of them marks. -/
theorem marks_of_changed_perform (hb : Fitted b) {k : Fin 3}
    {offset : Nat} (cycles : List BusCycle)
    (h : (b.perform cycles).arena.byte? ⟨videoPlane k, offset⟩
      ≠ b.arena.byte? ⟨videoPlane k, offset⟩) :
    b.Marks (offset / 80) cycles := by
  refine Sometime.of_changed (I := Fitted) (Q := fun _ => True)
    (f := fun b => b.arena.byte? ⟨videoPlane k, offset⟩) ?_ ?_ ?_ hb h
  · exact fun b x hb => hb.act x
  · exact fun b x hb _ hx => hb.marks_of_changed x hx
  · exact fun _ _ => trivial

/-- A write that does not go to a plane marks nothing. -/
theorem decoder_poke_ram (hb : Fitted b) {addr : UInt16} {p : Place}
    (h : b.target addr = .ok p) (hp : p.region = mainRam) (v : UInt8) :
    (b.poke addr v).decoder = b.decoder := by
  have hplane : (0xC000 : UInt16) ≤ addr →
      b.decoder.bank.plane = none := by
    intro hvideo
    cases hk : b.decoder.bank.plane with
    | none => rfl
    | some k =>
      have hhigh : (0x8000 : UInt16) ≤ addr :=
        UInt16.le_trans (by decide) hvideo
      have hstores := hb.target_eq_ok_iff.1 h
      rw [hstores.unique (.shown hhigh (.plane k hvideo hk))] at hp
      exact absurd hp.symm (ne_videoPlane_of_lt (by decide) k)
  rw [Board.poke_decoder_of_ok h]
  show stored addr b.decoder = b.decoder
  unfold stored
  split
  · rfl
  · next hlow =>
    rw [hplane (UInt16.not_lt.1 hlow)]

end Banked.Fitted
end HomeZ80
