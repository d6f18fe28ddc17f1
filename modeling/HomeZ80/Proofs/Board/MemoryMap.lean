/-
The memory map of the bank-switched board, as a table: one row for each
kind of place that an address can show (`Banked.Shows`), and where a
byte written to an address goes (`Banked.Stores`). The decoding of
addresses follows the table exactly: a read finds the place of its row,
or no row applies, and then a BASIC ROM is selected that was never
installed (`Banked.LacksRom`).

# Why no place is ever out of range

A place of the table lies within its region as long as the regions are
those of power-on (`Banked.Fitted`), and a place that is stored to lies
in a region that may be written. Nothing changes the regions once they
are made, so of the three faults two cannot arise, and the third arises
from reads alone (`Banked.Fitted.failureAt_eq_some_iff`).
-/
import HomeZ80.Board.Banked
import HomeZ80.Proofs.Board.Stores

namespace HomeZ80

namespace Banked

-- ============================================================ the table

/-- The extension page covers the N88 ROM at an address. -/
def ExtCovers (m : Banked) (addr : UInt16) : Prop :=
  0x6000 ≤ addr ∧ m.bank.extEnabled = true
    ∧ m.hasExtRom.get m.bank.extPage = true

/-- The place that an address shows to a read. -/
inductive Shows (m : Banked) (addr : UInt16) : Place → Prop
  | lowRam : addr < 0x8000 → m.bank.allRam = true →
      Shows m addr ⟨mainRam, addr.toNat⟩
  | nBasic : addr < 0x8000 → m.bank.allRam = false →
      m.bank.rom = .nBasic → m.hasNRom = true →
      Shows m addr ⟨nRom, addr.toNat⟩
  | ext : addr < 0x8000 → m.bank.allRam = false →
      m.bank.rom = .n88 → m.ExtCovers addr →
      Shows m addr ⟨extRom m.bank.extPage, addr.toNat - 0x6000⟩
  | n88 : addr < 0x8000 → m.bank.allRam = false →
      m.bank.rom = .n88 → ¬ m.ExtCovers addr → m.hasN88Rom = true →
      Shows m addr ⟨n88Rom, addr.toNat⟩
  | window : 0x8000 ≤ addr → addr < 0x8400 → m.bank.allRam = false →
      Shows m addr ⟨mainRam,
        (256 * m.bank.textWindow.toNat + addr.toNat % 1024) % 65536⟩
  | ram : 0x8000 ≤ addr → addr < 0xC000 →
      (addr < 0x8400 → m.bank.allRam = true) →
      Shows m addr ⟨mainRam, addr.toNat⟩
  | plane (k : Fin 3) : 0xC000 ≤ addr → m.bank.plane = some k →
      Shows m addr ⟨videoPlane k, addr.toNat - 0xC000⟩
  | highRam : 0xC000 ≤ addr → m.bank.plane = none →
      Shows m addr ⟨mainRam, addr.toNat⟩

/-- The place that a byte written to an address goes to: RAM in the low
half, whatever is shown there, and the place that is shown above it. -/
inductive Stores (m : Banked) (addr : UInt16) : Place → Prop
  | low : addr < 0x8000 → Stores m addr ⟨mainRam, addr.toNat⟩
  | shown {p : Place} : 0x8000 ≤ addr → m.Shows addr p →
      Stores m addr p

/-- A read of the address would need a BASIC ROM that is not there. -/
structure LacksRom (m : Banked) (addr : UInt16) : Prop where
  low : addr < 0x8000
  romMode : m.bank.allRam = false
  missing : m.bank.rom = .nBasic ∧ m.hasNRom = false
    ∨ m.bank.rom = .n88 ∧ m.hasN88Rom = false ∧ ¬ m.ExtCovers addr

-- ============================================================= decoding

/-- The window begins at a multiple of 256 and is one kilobyte long. -/
theorem toNat_windowed (m : Banked) (addr : UInt16) :
    (m.windowed addr).toNat
      = (256 * m.bank.textWindow.toNat + addr.toNat % 1024) % 65536 := by
  simp [windowed]

/-- When the extension ROM is shown, as the decoder tests it. -/
theorem extCovers_iff (m : Banked) (addr : UInt16) :
    m.ExtCovers addr
      ↔ (m.bank.extEnabled && decide (extBase ≤ addr) && m.extFilled)
        = true := by
  simp only [ExtCovers, Bool.and_eq_true, decide_eq_true_eq]
  constructor
  · rintro ⟨hbase, hon, hfilled⟩
    exact ⟨⟨hon, hbase⟩, hfilled⟩
  · rintro ⟨⟨hon, hbase⟩, hfilled⟩
    exact ⟨hbase, hon, hfilled⟩

/-- A read of the lower half finds a place, or lacks a ROM. -/
theorem readLow_cases (m : Banked) {addr : UInt16}
    (h : addr < 0x8000) :
    (∃ p, m.readLow addr = .ok p ∧ m.Shows addr p)
      ∨ m.readLow addr = .error (.unmapped addr .read)
        ∧ m.LacksRom addr := by
  unfold readLow
  cases hall : m.bank.allRam with
  | true => exact .inl ⟨_, rfl, .lowRam h hall⟩
  | false =>
    simp only [Bool.false_eq_true, if_false]
    cases hrom : m.bank.rom with
    | nBasic =>
      dsimp only
      split
      · next hn => exact .inl ⟨_, rfl, .nBasic h hall hrom hn⟩
      · next hn =>
        exact .inr ⟨rfl, h, hall, .inl ⟨hrom, Bool.eq_false_iff.2 hn⟩⟩
    | n88 =>
      dsimp only
      split
      · next hext =>
        exact .inl ⟨_, rfl, .ext h hall hrom ((extCovers_iff m _).2 hext)⟩
      · next hext =>
        have hcovers : ¬ m.ExtCovers addr := fun hc =>
          hext ((extCovers_iff m addr).1 hc)
        split
        · next hn => exact .inl ⟨_, rfl, .n88 h hall hrom hcovers hn⟩
        · next hn =>
          exact .inr ⟨rfl, h, hall,
            .inr ⟨hrom, Bool.eq_false_iff.2 hn, hcovers⟩⟩

/-- Above the low half reads and writes go the same way. -/
theorem resolve_high (m : Banked) (access : Access) {addr : UInt16}
    (h : 0x8000 ≤ addr) :
    ∃ p, m.resolve access addr = .ok p ∧ m.Shows addr p := by
  unfold resolve
  rw [if_neg (UInt16.not_lt.2 h)]
  split
  · next hwindow =>
    simp only [Bool.and_eq_true, decide_eq_true_eq,
      Bool.not_eq_eq_eq_not, Bool.not_true] at hwindow
    rw [toNat_windowed]
    exact ⟨_, rfl, .window h hwindow.1 hwindow.2⟩
  · next hwindow =>
    simp only [Bool.and_eq_true, decide_eq_true_eq,
      Bool.not_eq_eq_eq_not, Bool.not_true, not_and,
      Bool.not_eq_false] at hwindow
    split
    · next hlt => exact ⟨_, rfl, .ram h hlt hwindow⟩
    · next hlt =>
      have hvideo : 0xC000 ≤ addr := UInt16.not_lt.1 hlt
      split
      · next k hk => exact ⟨_, rfl, .plane k hvideo hk⟩
      · next hk => exact ⟨_, rfl, .highRam hvideo hk⟩

/-- A read of any address finds the place that is shown there, or no ROM
where one is missing. -/
theorem resolve_read_cases (m : Banked) (addr : UInt16) :
    (∃ p, m.resolve .read addr = .ok p ∧ m.Shows addr p)
      ∨ m.resolve .read addr = .error (.unmapped addr .read)
        ∧ m.LacksRom addr := by
  by_cases h : addr < 0x8000
  · have hlow : m.resolve .read addr = m.readLow addr := by
      unfold resolve
      rw [if_pos h]
    rw [hlow]
    exact m.readLow_cases h
  · exact .inl (m.resolve_high .read (UInt16.not_lt.1 h))

/-- A write has a place at every address. -/
theorem resolve_write (m : Banked) (addr : UInt16) :
    ∃ p, m.resolve .write addr = .ok p ∧ m.Stores addr p := by
  by_cases h : addr < 0x8000
  · have hlow : m.resolve .write addr = .ok ⟨mainRam, addr.toNat⟩ := by
      unfold resolve
      rw [if_pos h]
    exact ⟨_, hlow, .low h⟩
  · have hhigh := UInt16.not_lt.1 h
    obtain ⟨p, hp, hshows⟩ := m.resolve_high .write hhigh
    exact ⟨p, hp, .shown hhigh hshows⟩

-- ============================================== the table is the decoding

/-- What is above a bound is above every lower one. -/
theorem not_lt_of_le {a b addr : UInt16} (hab : a ≤ b) (h : b ≤ addr) :
    ¬ addr < a :=
  UInt16.not_lt.2 (UInt16.le_trans hab h)

/-- The place that an address shows is the one that a read is sent to. -/
theorem Shows.resolve_eq {m : Banked} {addr : UInt16} {p : Place}
    (h : m.Shows addr p) : m.resolve .read addr = .ok p := by
  unfold resolve
  cases h with
  | lowRam hlow hall => simp [hlow, readLow, hall]
  | nBasic hlow hall hrom hn => simp [hlow, readLow, hall, hrom, hn]
  | ext hlow hall hrom hcovers =>
    have hext := (extCovers_iff m addr).1 hcovers
    simp only [hlow, if_true, readLow, hall, Bool.false_eq_true,
      if_false, hrom, hext]
    rfl
  | n88 hlow hall hrom hcovers hn =>
    have hext := mt (extCovers_iff m addr).2 hcovers
    simp only [hlow, if_true, readLow, hall, Bool.false_eq_true,
      if_false, hrom, hext, hn]
  | window hge hlt hall =>
    simp [UInt16.not_lt.2 hge, hlt, hall, toNat_windowed]
  | ram hge hlt hmode =>
    have hdirect : ¬ (addr < 0x8400 ∧ m.bank.allRam = false) := by
      rintro ⟨hwindow, hall⟩
      rw [hmode hwindow] at hall
      cases hall
    simp only [UInt16.not_lt.2 hge, if_false, Bool.and_eq_true,
      decide_eq_true_eq, Bool.not_eq_eq_eq_not, Bool.not_true, hdirect]
    exact if_pos hlt
  | plane k hge hk =>
    have hlow : ¬ addr < 0x8000 := not_lt_of_le (by decide) hge
    have hwindow : ¬ addr < 0x8400 := not_lt_of_le (by decide) hge
    have hvideo : ¬ addr < videoBase := UInt16.not_lt.2 hge
    simp only [hlow, hwindow, hvideo, if_false, decide_false,
      Bool.false_and, Bool.false_eq_true, hk]
    rfl
  | highRam hge hk =>
    have hlow : ¬ addr < 0x8000 := not_lt_of_le (by decide) hge
    have hwindow : ¬ addr < 0x8400 := not_lt_of_le (by decide) hge
    have hvideo : ¬ addr < videoBase := UInt16.not_lt.2 hge
    simp only [hlow, hwindow, hvideo, if_false, decide_false,
      Bool.false_and, Bool.false_eq_true, hk]

/-- An address that lacks its ROM is not mapped. -/
theorem LacksRom.resolve_eq {m : Banked} {addr : UInt16}
    (h : m.LacksRom addr) :
    m.resolve .read addr = .error (.unmapped addr .read) := by
  obtain ⟨hlow, hall, hmissing⟩ := h
  unfold resolve
  rcases hmissing with ⟨hrom, hn⟩ | ⟨hrom, hn, hcovers⟩
  · simp [hlow, readLow, hall, hrom, hn]
  · have hext := mt (extCovers_iff m addr).2 hcovers
    simp only [hlow, if_true, readLow, hall, Bool.false_eq_true,
      if_false, hrom, hext, hn]

/-- At most one row of the table applies to an address. -/
theorem Shows.unique {m : Banked} {addr : UInt16} {p q : Place}
    (hp : m.Shows addr p) (hq : m.Shows addr q) : p = q :=
  Except.ok.inj (hp.resolve_eq.symm.trans hq.resolve_eq)

/-- A write is stored at one place. -/
theorem Stores.unique {m : Banked} {addr : UInt16} {p q : Place}
    (hp : m.Stores addr p) (hq : m.Stores addr q) : p = q := by
  cases hp with
  | low hlow =>
    cases hq with
    | low _ => rfl
    | shown hhigh _ => exact absurd hlow (UInt16.not_lt.2 hhigh)
  | shown hhigh hp =>
    cases hq with
    | low hlow => exact absurd hlow (UInt16.not_lt.2 hhigh)
    | shown _ hq => exact hp.unique hq

/-- The decoder sends reads where the map says. -/
theorem resolve_read_eq_ok_iff {m : Banked} {addr : UInt16}
    {p : Place} : m.resolve .read addr = .ok p ↔ m.Shows addr p := by
  constructor
  · intro h
    rcases m.resolve_read_cases addr with ⟨q, hq, hshows⟩ | ⟨herror, -⟩
    · rw [hq] at h
      cases h
      exact hshows
    · rw [herror] at h
      cases h
  · exact Shows.resolve_eq

theorem resolve_write_eq_ok_iff {m : Banked} {addr : UInt16}
    {p : Place} : m.resolve .write addr = .ok p ↔ m.Stores addr p := by
  obtain ⟨q, hq, hstores⟩ := m.resolve_write addr
  rw [hq]
  constructor
  · intro h
    cases h
    exact hstores
  · intro h
    rw [hstores.unique h]

-- ============================================================== regions

def layout : Array Region.Form :=
  #[⟨"main-ram", 65536, true⟩, ⟨"n88-rom", 32768, false⟩,
    ⟨"n-rom", 32768, false⟩, ⟨"ext-rom-0", 8192, false⟩,
    ⟨"ext-rom-1", 8192, false⟩, ⟨"ext-rom-2", 8192, false⟩,
    ⟨"ext-rom-3", 8192, false⟩, ⟨"vram-0", 16384, true⟩,
    ⟨"vram-1", 16384, true⟩, ⟨"vram-2", 16384, true⟩]

/-- The regions at power-on have this layout. -/
theorem layout_regions : regions.layout = layout := by
  simp only [regions, Arena.addRam, Arena.addRom, Arena.layout_add,
    Arena.layout_empty]
  rfl

/-- Each page of the extension ROM is 8 KiB and cannot be written. -/
theorem layout_extRom (page : Fin 4) :
    ∃ name, layout[extRom page]? = some ⟨name, 8192, false⟩ :=
  match page with
  | 0 | 1 | 2 | 3 => ⟨_, rfl⟩

/-- Each video plane is 16 KiB. -/
theorem layout_videoPlane (k : Fin 3) :
    ∃ name, layout[videoPlane k]? = some ⟨name, 16384, true⟩ :=
  match k with
  | 0 | 1 | 2 => ⟨_, rfl⟩

theorem layout_rom (rom : Rom) :
    ∃ form, layout[rom.region]? = some form ∧ form.writable = false := by
  cases rom with
  | n88 => exact ⟨_, rfl, rfl⟩
  | nBasic => exact ⟨_, rfl, rfl⟩
  | ext page =>
    obtain ⟨name, h⟩ := layout_extRom page
    exact ⟨_, h, rfl⟩

/-- No address shows a place outside its region. -/
theorem Shows.in_range {m : Banked} {addr : UInt16} {p : Place}
    (h : m.Shows addr p) :
    ∃ form, layout[p.region]? = some form ∧ p.offset < form.size := by
  have haddr := addr.toNat_lt
  cases h with
  | lowRam => exact ⟨_, rfl, haddr⟩
  | nBasic hlow => exact ⟨_, rfl, hlow⟩
  | ext hlow _ _ hcovers =>
    obtain ⟨name, hform⟩ := layout_extRom m.bank.extPage
    have hlt : addr.toNat < 0x8000 := hlow
    exact ⟨_, hform, show addr.toNat - 0x6000 < 8192 by omega⟩
  | n88 hlow => exact ⟨_, rfl, hlow⟩
  | window => exact ⟨_, rfl, Nat.mod_lt _ (by decide)⟩
  | ram => exact ⟨_, rfl, haddr⟩
  | plane k =>
    obtain ⟨name, hform⟩ := layout_videoPlane k
    exact ⟨_, hform, show addr.toNat - 0xC000 < 16384 by omega⟩
  | highRam => exact ⟨_, rfl, haddr⟩

/-- The place that a write stores at does, too, and its region may be
written: above the low half nothing but RAM is shown. -/
theorem Stores.in_range {m : Banked} {addr : UInt16} {p : Place}
    (h : m.Stores addr p) :
    ∃ form, layout[p.region]? = some form
      ∧ form.writable = true ∧ p.offset < form.size := by
  have haddr := addr.toNat_lt
  cases h with
  | low => exact ⟨_, rfl, rfl, haddr⟩
  | shown hhigh hshows =>
    obtain ⟨form, hform, hlt⟩ := hshows.in_range
    refine ⟨form, hform, ?_, hlt⟩
    cases hshows with
    | lowRam hlow => exact absurd hlow (UInt16.not_lt.2 hhigh)
    | nBasic hlow => exact absurd hlow (UInt16.not_lt.2 hhigh)
    | ext hlow => exact absurd hlow (UInt16.not_lt.2 hhigh)
    | n88 hlow => exact absurd hlow (UInt16.not_lt.2 hhigh)
    | window | ram | highRam =>
      cases hform
      rfl
    | plane k =>
      obtain ⟨name, hplane⟩ := layout_videoPlane k
      rw [hplane] at hform
      cases hform
      rfl

/-- No write is stored in a ROM. -/
theorem Stores.region_ne_rom {m : Banked} {addr : UInt16} {p : Place}
    (h : m.Stores addr p) (rom : Rom) : p.region ≠ rom.region := by
  intro hregion
  obtain ⟨form, hform, hwritable, -⟩ := h.in_range
  obtain ⟨romForm, hrom, hreadOnly⟩ := layout_rom rom
  rw [hregion, hrom] at hform
  cases hform
  rw [hreadOnly] at hwritable
  cases hwritable

end Banked

-- ============================================================ the board

/-- The board has the regions of power-on, with whatever bytes. -/
def Banked.Fitted (b : Board Banked) : Prop :=
  b.arena.layout = Banked.layout

namespace Banked.Fitted

variable {b : Board Banked} {addr : UInt16} {p : Place}

/-- A read gives the byte at the place that the address shows, and does not
fail. -/
theorem byte?_of_shows (hb : Fitted b) (h : b.decoder.Shows addr p) :
    b.arena.byte? p = some (b.valueAt addr)
      ∧ b.failureAt addr = none := by
  refine Board.byte?_of_resolve h.resolve_eq ?_
  rw [hb]
  exact h.in_range

/-- A read fails for want of a BASIC ROM, and for no other reason. -/
theorem failureAt_eq_some_iff (hb : Fitted b) {fault : Fault} :
    b.failureAt addr = some fault
      ↔ fault = .unmapped addr .read ∧ b.decoder.LacksRom addr := by
  rcases b.decoder.resolve_read_cases addr with
    ⟨p, hp, hshows⟩ | ⟨herror, hlacks⟩
  · rw [(hb.byte?_of_shows hshows).2]
    constructor
    · nofun
    · rintro ⟨-, hlacks⟩
      rw [hlacks.resolve_eq] at hp
      cases hp
  · have hresolve : b.resolve .read addr = .error _ := herror
    simp only [Board.failureAt, Board.fetch, hresolve, Option.some.injEq]
    constructor
    · rintro rfl
      exact ⟨rfl, hlacks⟩
    · rintro ⟨rfl, -⟩
      rfl

/-- No write is refused where the map sends it. -/
theorem target_eq_ok_iff (hb : Fitted b) :
    b.target addr = .ok p ↔ b.decoder.Stores addr p := by
  rw [Board.target_eq_ok_iff]
  constructor
  · intro h
    exact resolve_write_eq_ok_iff.1 h.1
  · intro h
    refine ⟨resolve_write_eq_ok_iff.2 h, ?_⟩
    rw [Arena.refusal?_eq_none_iff, hb]
    exact h.in_range

theorem exists_target (hb : Fitted b) (addr : UInt16) :
    ∃ p, b.target addr = .ok p := by
  obtain ⟨p, -, hstores⟩ := b.decoder.resolve_write addr
  exact ⟨p, hb.target_eq_ok_iff.2 hstores⟩

theorem fault_poke (hb : Fitted b) (addr : UInt16) (v : UInt8) :
    (b.poke addr v).arena.fault = b.arena.fault := by
  obtain ⟨p, hp⟩ := hb.exists_target addr
  rw [Board.poke_arena_of_ok hp]
  rfl

end Banked.Fitted
end HomeZ80
