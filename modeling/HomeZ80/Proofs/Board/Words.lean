/-
Words in memory. A word that is written is read back if both of its bytes
may be written, are shown where they are stored, and do not lie at the
same place (`Board.WordAt.survives`). All that is asked of the decoder is
that a byte which was stored leaves the way to the others as it was.
Whether an address recalls words (`Board.Recalls`) is a matter of regions
and decoding alone.

On the bank-switched board the two bytes of a word may lie in different
regions, or far apart in RAM, when a border of the memory map or of the
text window runs between them. They never lie at the same place, for the
map moves addresses by whole pages of 256 bytes: a place has the low byte
of the address that leads to it (`Banked.Shows.low_eq`), and neighbours
differ in that byte. Where reads and writes agree
(`Banked.Transparent`), a word therefore survives, and a push is undone
by a pop.
-/
import HomeZ80.Proofs.Board.Faithful

namespace HomeZ80

namespace Board

variable {μ : Type} [Decoder μ] {b b' : Board μ} {addr v : UInt16}
  {p q : Place}

-- ============================================================== recalling

/-- A word that is written at an address is read there again. -/
def Recalls (addr : UInt16) (b : Board μ) : Prop :=
  ∀ v, ((b.pokeWord addr v).peekWord addr).1 = v

/-- A word is written to the same places of both. -/
theorem SameMemory.pokeWord (h : b.SameMemory b') (addr v : UInt16) :
    (b.pokeWord addr v).SameMemory (b'.pokeWord addr v) :=
  (h.act (.write addr (loByte v))).act (.write (addr + 1) (hiByte v))

theorem SameMemory.peekWord_eq (h : b.SameMemory b') (addr : UInt16) :
    (b'.peekWord addr).1 = (b.peekWord addr).1 := by
  rw [peekWord_fst, peekWord_fst, h.valueAt_eq, h.valueAt_eq]

/-- What is recalled from one memory is recalled from the other. -/
theorem Recalls.of_sameMemory (hb : b.Recalls addr)
    (h : b.SameMemory b') : b'.Recalls addr := by
  intro v
  rw [(h.pokeWord addr v).peekWord_eq]
  exact hb v

-- ============================================================ the places

/-- The places of a word whose bytes are stored where they are shown. -/
structure WordAt (addr : UInt16) (p q : Place) (b : Board μ) : Prop where
  low : b.target addr = .ok p
  high : b.target (addr + 1) = .ok q
  lowShown : b.resolve .read addr = .ok p
  highShown : b.resolve .read (addr + 1) = .ok q
  ne : p ≠ q

/-- A word that was written survives at two places, and nothing else was
touched. -/
structure Survives (addr v : UInt16) (p q : Place) (b : Board μ) :
    Prop where
  pair : b.pokePair addr (hiByte v) (loByte v) = b.pokeWord addr v
  read : ((b.pokeWord addr v).peekWord addr).1 = v
  bytes : (b.pokeWord addr v).arena.bytes = Function.update
    (Function.update b.arena.bytes p (some (loByte v)))
    q (some (hiByte v))
  /-- Neither the write nor the read latches a fault. -/
  faultless : (b.pokeWord addr v).arena.fault = b.arena.fault
    ∧ ((b.pokeWord addr v).peekWord addr).2.arena.fault = b.arena.fault

/-- A place that is stored to can be read. -/
theorem form_of_target (h : b.target addr = .ok p) :
    ∃ form, b.arena.layout[p.region]? = some form
      ∧ p.offset < form.size := by
  obtain ⟨form, hform, -, hlt⟩ := (Arena.refusal?_eq_none_iff p b.arena).1
    (target_eq_ok_iff.1 h).2
  exact ⟨form, hform, hlt⟩

section
variable (hstored : ∀ (addr : UInt16) (m : μ),
  Decoder.resolve (Decoder.stored addr m) = Decoder.resolve m)
include hstored

/-- A byte that was stored leaves the way to the others as it was. -/
theorem resolve_poke (h : b.target addr = .ok p) (v : UInt8)
    (access : Access) (other : UInt16) :
    (b.poke addr v).resolve access other = b.resolve access other := by
  unfold resolve
  rw [poke_decoder_of_ok h, hstored]

/-- A write does not move the place of another one. -/
theorem target_poke (h : b.target addr = .ok p) (v : UInt8)
    {other : UInt16} (hother : b.target other = .ok q) :
    (b.poke addr v).target other = .ok q := by
  rw [target_eq_ok_iff] at hother ⊢
  obtain ⟨hresolve, haccepted⟩ := hother
  rw [resolve_poke hstored h]
  refine ⟨hresolve, ?_⟩
  rw [Arena.refusal?_eq_none_iff] at haccepted ⊢
  rw [(Touch.write addr v b).layout_eq]
  exact haccepted

theorem WordAt.arena_pokeWord (h : b.WordAt addr p q) (v : UInt16) :
    (b.pokeWord addr v).arena
      = (b.arena.put p (loByte v)).put q (hiByte v) := by
  have hhigh := target_poke hstored h.low (loByte v) h.high
  show ((b.poke addr (loByte v)).poke (addr + 1) (hiByte v)).arena = _
  rw [poke_arena_of_ok hhigh, poke_arena_of_ok h.low]

/-- Two bytes are replaced, and no other. -/
theorem WordAt.bytes_pokeWord (h : b.WordAt addr p q) (v : UInt16) :
    (b.pokeWord addr v).arena.bytes = Function.update
      (Function.update b.arena.bytes p (some (loByte v)))
      q (some (hiByte v)) := by
  have hlow := (target_eq_ok_iff.1 h.low).2
  have hhigh : (b.arena.put p (loByte v)).refusal? q = none := by
    have haccepted := (target_eq_ok_iff.1 h.high).2
    rw [Arena.refusal?_eq_none_iff] at haccepted ⊢
    rw [Arena.layout_put]
    exact haccepted
  rw [h.arena_pokeWord hstored, Arena.bytes_put_of_accepted hhigh,
    Arena.bytes_put_of_accepted hlow]

/-- What is shown at the places of a word that was written. -/
theorem WordAt.shown_pokeWord (h : b.WordAt addr p q) (v : UInt16)
    {other : UInt16} {r : Place} (hr : b.resolve .read other = .ok r)
    (hform : ∃ form, b.arena.layout[r.region]? = some form
      ∧ r.offset < form.size) :
    (b.pokeWord addr v).arena.bytes r
        = some ((b.pokeWord addr v).valueAt other)
      ∧ (b.pokeWord addr v).failureAt other = none := by
  have hhigh := target_poke hstored h.low (loByte v) h.high
  apply byte?_of_resolve
  · show ((b.poke addr _).poke (addr + 1) _).resolve .read other = _
    rw [resolve_poke hstored hhigh, resolve_poke hstored h.low, hr]
  · rw [h.arena_pokeWord hstored, Arena.layout_put, Arena.layout_put]
    exact hform

/-- Of all bytes these two change, and they read what was written. -/
theorem WordAt.survives (h : b.WordAt addr p q) (v : UInt16) :
    b.Survives addr v p q := by
  let c := b.pokeWord addr v
  have hbytes := h.bytes_pokeWord hstored v
  obtain ⟨hlow, hlowFault⟩ :=
    h.shown_pokeWord hstored v h.lowShown (form_of_target h.low)
  obtain ⟨hhigh, hhighFault⟩ :=
    h.shown_pokeWord hstored v h.highShown (form_of_target h.high)
  rw [hbytes, Function.update_of_ne h.ne, Function.update_self] at hlow
  rw [hbytes, Function.update_self] at hhigh
  have hwritten : c.arena.fault = b.arena.fault := by
    show (b.pokeWord addr v).arena.fault = _
    rw [h.arena_pokeWord hstored]
    rfl
  refine ⟨rfl, ?_, hbytes, hwritten, ?_⟩
  · rw [peekWord_fst, ← Option.some.inj hlow, ← Option.some.inj hhigh]
    exact word_hiByte_loByte v
  · have hsecond : (c.afterRead addr).failureAt (addr + 1) = none := by
      unfold failureAt
      rw [(SameMemory.afterRead addr c).fetch_eq]
      exact hhighFault
    show ((c.afterRead addr).afterRead (addr + 1)).arena.fault = _
    rw [afterRead_arena, hsecond, afterRead_arena, hlowFault]
    exact hwritten

theorem WordAt.recalls (h : b.WordAt addr p q) : b.Recalls addr :=
  fun v => (h.survives hstored v).read

end
end Board

/-- A pop undoes a push, where words are recalled. -/
theorem Exec.pop_push {μ : Type} [Decoder μ] {s : Computer μ}
    (h : s.board.Recalls (s.cpu.regs.sp - 2)) (v : UInt16) :
    (pop (push v s).2).1 = v ∧ (pop (push v s).2).2.cpu = s.cpu := by
  constructor
  · exact h v
  · have hback : s.cpu.regs.sp - 2 + 2 = s.cpu.regs.sp := by grind
    show ({ s.cpu with regs :=
      { s.cpu.regs with sp := s.cpu.regs.sp - 2 + 2 } } : Cpu) = s.cpu
    rw [hback]

namespace Banked

variable {m : Banked} {addr : UInt16} {p q : Place}

-- ============================================================== low bytes

/-- The map moves addresses by whole pages. -/
theorem Shows.low_eq (h : m.Shows addr p) :
    p.offset % 256 = addr.toNat % 256 := by
  cases h with
  | lowRam | nBasic | n88 | ram | highRam => rfl
  | ext hlow hall hrom hcovers =>
    have hbase : 0x6000 ≤ addr.toNat := hcovers.1
    show (addr.toNat - 0x6000) % 256 = _
    omega
  | window =>
    show (256 * m.bank.textWindow.toNat + addr.toNat % 1024) % 65536 % 256
      = _
    omega
  | plane k hvideo =>
    have hbase : 0xC000 ≤ addr.toNat := hvideo
    show (addr.toNat - 0xC000) % 256 = _
    omega

/-- The map never moves the low byte of an address to which a byte is
written. -/
theorem Stores.low_eq (h : m.Stores addr p) :
    p.offset % 256 = addr.toNat % 256 := by
  cases h with
  | low => rfl
  | shown _ hshows => exact hshows.low_eq

/-- Nor does it move that of an address from which one is read. -/
theorem low_eq_of_resolve {access : Access}
    (h : m.resolve access addr = .ok p) :
    p.offset % 256 = addr.toNat % 256 := by
  cases access with
  | read => exact (resolve_read_eq_ok_iff.1 h).low_eq
  | write => exact (resolve_write_eq_ok_iff.1 h).low_eq

/-- An address and the next one never lead to the same place, whatever
is done there. -/
theorem ne_of_resolve_succ {access access' : Access}
    (hp : m.resolve access addr = .ok p)
    (hq : m.resolve access' (addr + 1) = .ok q) : p ≠ q := by
  have hplow := low_eq_of_resolve hp
  have hqlow := low_eq_of_resolve hq
  have hsucc : (addr + 1).toNat = (addr.toNat + 1) % 65536 := rfl
  rintro rfl
  omega

-- =========================================================== transparency

/-- Reads and writes of an address go to the same RAM. -/
def Transparent (m : Banked) (addr : UInt16) : Prop :=
  0x8000 ≤ addr ∨ m.bank.allRam = true

/-- Where writes go through to what is read, the two places are one. -/
theorem Transparent.shows_iff (h : m.Transparent addr) :
    m.Shows addr p ↔ m.Stores addr p := by
  by_cases hhigh : 0x8000 ≤ addr
  · constructor
    · exact .shown hhigh
    · intro hstores
      cases hstores with
      | low hlow => exact absurd hlow (UInt16.not_lt.2 hhigh)
      | shown _ hshows => exact hshows
  · have hlow : addr < 0x8000 := UInt16.not_le.1 hhigh
    have hshows := Shows.lowRam hlow (h.resolve_left hhigh)
    constructor
    · intro hp
      rw [hp.unique hshows]
      exact .low hlow
    · intro hp
      rw [hp.unique (.low hlow)]
      exact hshows

/-- So a word written at transparent addresses has places for both its
bytes. -/
theorem Fitted.exists_wordAt {b : Board Banked} (hb : Fitted b)
    (hlow : b.decoder.Transparent addr)
    (hhigh : b.decoder.Transparent (addr + 1)) :
    ∃ p q, b.WordAt addr p q := by
  obtain ⟨p, hp⟩ := hb.exists_target addr
  obtain ⟨q, hq⟩ := hb.exists_target (addr + 1)
  have hpshows := hlow.shows_iff.2 (hb.target_eq_ok_iff.1 hp)
  have hqshows := hhigh.shows_iff.2 (hb.target_eq_ok_iff.1 hq)
  exact ⟨p, q, hp, hq, hpshows.resolve_eq, hqshows.resolve_eq,
    ne_of_resolve_succ hpshows.resolve_eq hqshows.resolve_eq⟩

end Banked
end HomeZ80
