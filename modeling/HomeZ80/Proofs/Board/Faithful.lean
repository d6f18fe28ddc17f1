/-
The bank-switched board as a memory. Its bytes lie at fixed places; bank
registers only choose which place an address leads to. A read gives the
byte of the one place that the memory map shows, a write replaces the
byte of one place and no other, and after any number of writes and port
writes an address reads the last byte stored at the place that it then
shows, through whichever address it was stored (`Banked.Faithful`).

# What the arena can go through

Whatever reaches the memory of this board comes down to three moves: a
byte is stored outside the ROMs, a read that found nothing is latched,
the latch is emptied (`Banked.Move`). None of them touches a ROM, none
changes the regions, and the latch never holds anything but a read that
found nothing. A board on which this is so is `Banked.Sound`.
-/
import HomeZ80.Proofs.Board.MemoryMap

namespace HomeZ80

-- ============================================================== regions

/-- A stored byte is in one region and changes no other. -/
theorem Arena.contents_put {p : Place} {id : Nat} (h : p.region ≠ id)
    (v : UInt8) (a : Arena) : (a.put p v).contents id = a.contents id := by
  simp only [Arena.contents, Arena.put, Array.getElem?_modify, h,
    if_false]

/-- A read that fails is latched, and is all that a read does to the
arena. -/
theorem Board.afterRead_arena {μ : Type} [Decoder μ] (addr : UInt16)
    (b : Board μ) :
    (b.afterRead addr).arena =
      match b.failureAt addr with
      | none => b.arena
      | some fault => b.arena.raise fault := by
  unfold afterRead
  cases b.failureAt addr with
  | none => exact remarked_arena .read addr b
  | some fault =>
    exact congrArg (·.raise fault) (remarked_arena .read addr b)

namespace Banked

-- ================================================================ moves

inductive Move : Arena → Arena → Prop
  | store {p : Place} (v : UInt8) (a : Arena)
      (h : ∀ rom : Rom, p.region ≠ rom.region) : Move a (a.put p v)
  | miss (addr : UInt16) (a : Arena) :
      Move a (a.raise (.unmapped addr .read))
  | takeFault (a : Arena) : Move a a.takeFault.2

def Moves : Arena → Arena → Prop := Relation.ReflTransGen Move

section
variable {a a' : Arena}

/-- No move adds a region, or changes the size of one. -/
theorem Move.layout_eq (h : Move a a') : a'.layout = a.layout := by
  cases h with
  | store v => exact Arena.layout_put _ v a
  | miss => rfl
  | takeFault => rfl

theorem Move.contents_rom (h : Move a a') (rom : Rom) :
    a'.contents rom.region = a.contents rom.region := by
  cases h with
  | store v _ hp => exact Arena.contents_put (hp rom) v a
  | miss => rfl
  | takeFault => rfl

/-- The latch holds a read that found nothing, if it holds anything. -/
def OnlyMisses (a : Arena) : Prop :=
  ∀ fault, a.fault = some fault → ∃ addr, fault = .unmapped addr .read

/-- The only fault that a move may report is a read that finds nothing. -/
theorem Move.onlyMisses (h : Move a a') (ha : OnlyMisses a) :
    OnlyMisses a' := by
  cases h with
  | store => exact ha
  | takeFault => nofun
  | miss addr =>
    intro fault hfault
    have hlatch : (a.fault <|> some (.unmapped addr .read))
        = some fault := hfault
    -- the first fault stays, so it matters whether there was one
    cases hold : a.fault with
    | some old =>
      rw [hold] at hlatch
      exact ha fault (hold.trans hlatch)
    | none =>
      rw [hold] at hlatch
      exact ⟨addr, (Option.some.inj hlatch).symm⟩

/-- Any number of moves keep the layout. -/
theorem Moves.layout_eq (h : Moves a a') : a'.layout = a.layout := by
  induction h with
  | refl => rfl
  | tail _ hlast ih => exact hlast.layout_eq.trans ih

/-- Any number of moves keep the ROMs. -/
theorem Moves.contents_rom (h : Moves a a') (rom : Rom) :
    a'.contents rom.region = a.contents rom.region := by
  induction h with
  | refl => rfl
  | tail _ hlast ih => exact (hlast.contents_rom rom).trans ih

/-- No number of moves puts another kind of fault into the latch. -/
theorem Moves.onlyMisses (h : Moves a a') (ha : OnlyMisses a) :
    OnlyMisses a' := by
  induction h with
  | refl => exact ha
  | tail _ hlast ih => exact hlast.onlyMisses ih

end

/-- The regions are those of power-on, and nothing is latched but reads
that found nothing. -/
structure Sound (b : Board Banked) : Prop where
  fitted : Fitted b
  latch : OnlyMisses b.arena

theorem Sound.moves {b b' : Board Banked} (hb : Sound b)
    (h : Moves b.arena b'.arena) : Sound b' :=
  ⟨h.layout_eq.trans hb.fitted, h.onlyMisses hb.latch⟩

section
variable {b : Board Banked}

/-- A read that fails is a move; any other does nothing to the arena. -/
theorem Fitted.moves_read (hb : Fitted b) (addr : UInt16) :
    Moves b.arena (b.afterRead addr).arena := by
  rw [Board.afterRead_arena]
  cases hf : b.failureAt addr with
  | none => exact .refl
  | some fault =>
    obtain ⟨rfl, -⟩ := hb.failureAt_eq_some_iff.1 hf
    exact .single (.miss addr _)

/-- Every write finds a place to store at, and it is in no ROM. -/
theorem Fitted.moves_poke (hb : Fitted b) (addr : UInt16) (v : UInt8) :
    Moves b.arena (b.poke addr v).arena := by
  obtain ⟨p, hp⟩ := hb.exists_target addr
  rw [Board.poke_arena_of_ok hp]
  exact .single (.store v _ (hb.target_eq_ok_iff.1 hp).region_ne_rom)

/-- Of the accesses that a CPU can make these are the only moves. -/
theorem Fitted.moves_touch (hb : Fitted b) {b' : Board Banked}
    (h : b.Touch b') : Moves b.arena b'.arena := by
  cases h with
  | read addr => exact hb.moves_read addr
  | write addr v => exact hb.moves_poke addr v
  | input port => exact .refl
  | output port v =>
    rw [Board.writePort_arena]
    exact .refl
  | note n =>
    rw [Board.note_arena]
    exact .refl

-- =============================================================== blocks

/-- The writes that store a block. -/
def blockWrites (addr : UInt16) : List UInt8 → List Board.Change
  | [] => []
  | v :: rest => .write addr v :: blockWrites (addr + 1) rest

/-- A byte that was stored marks a picture line at most. -/
theorem stored_eq (addr : UInt16) (m : Banked) :
    ∃ dirty, m.stored addr = { m with dirty } := by
  unfold stored
  split
  · exact ⟨m.dirty, rfl⟩
  · split
    · exact ⟨_, rfl⟩
    · exact ⟨m.dirty, rfl⟩

/-- The addresses show the same places after a byte was announced. -/
theorem resolve_stored (addr : UInt16) (m : Banked) :
    (m.stored addr).resolve = m.resolve := by
  obtain ⟨dirty, h⟩ := m.stored_eq addr
  rw [h]
  rfl

/-- A block is stored as its bytes are, one after the other. All that
differs is which picture lines are marked. -/
theorem Fitted.pokeBlock_arena (hb : Fitted b) {b' : Board Banked}
    (harena : b'.arena = b.arena)
    (hmap : b'.decoder.resolve = b.decoder.resolve) (addr : UInt16)
    (bytes : List UInt8) :
    (b.pokeBlock addr bytes).arena
      = (b'.after (blockWrites addr bytes)).arena := by
  induction bytes generalizing addr b b' with
  | nil => exact harena.symm
  | cons v rest ih =>
    obtain ⟨p, hp⟩ := hb.exists_target addr
    have htarget : b'.target addr = .ok p := by
      rw [← hp]
      show b'.target addr = b.target addr
      unfold Board.target
      have hresolve : b'.resolve .write addr = b.resolve .write addr :=
        congrFun (congrFun hmap .write) addr
      rw [hresolve, harena]
    unfold Board.pokeBlock
    rw [hp]
    show (Board.pokeBlock (addr + 1) rest _).arena
      = ((b'.poke addr v).after (blockWrites (addr + 1) rest)).arena
    apply ih
    · show (Arena.put p v (b.remarked .write addr).arena).layout = _
      rw [Arena.layout_put, Board.remarked_arena]
      exact hb
    · rw [Board.poke_arena_of_ok htarget, harena]
      exact congrArg (·.put p v) (Board.remarked_arena .write addr b).symm
    · rw [Board.poke_decoder_of_ok htarget]
      show (Banked.stored addr b'.decoder).resolve
        = (b.remarked .write addr).decoder.resolve
      rw [resolve_stored, hmap, Board.remarked_decoder]

/-- Any number of changes leave a board fitted, by moves only. -/
theorem Fitted.after (hb : Fitted b) (changes : List Board.Change) :
    Fitted (b.after changes) ∧ Moves b.arena (b.after changes).arena := by
  induction changes generalizing b with
  | nil => exact ⟨hb, .refl⟩
  | cons x rest ih =>
    have hx : b.Touch (x.act b) := by
      cases x with
      | write addr v => exact .write addr v b
      | input port => exact .input port b
      | output port v => exact .output port v b
    have hmoves := hb.moves_touch hx
    obtain ⟨hfitted, hrest⟩ := ih (b := x.act b)
      (hmoves.layout_eq.trans hb)
    exact ⟨hfitted, hmoves.trans hrest⟩

/-- A block is stored by moves, as its bytes are. -/
theorem Fitted.moves_pokeBlock (hb : Fitted b) (addr : UInt16)
    (bytes : List UInt8) :
    Moves b.arena (b.pokeBlock addr bytes).arena := by
  rw [hb.pokeBlock_arena rfl rfl]
  exact (hb.after _).2

end

-- ================================================================ slots

def filled (m : Banked) : Rom → Bool
  | .n88 => m.hasN88Rom
  | .nBasic => m.hasNRom
  | .ext page => m.hasExtRom.get page

theorem filled_installed (m : Banked) (rom other : Rom) :
    (m.installed rom).filled other = (m.filled other || rom == other) := by
  cases rom with
  | n88 => cases other <;> simp [installed, filled]
  | nBasic => cases other <;> simp [installed, filled]
  | ext page =>
    cases other with
    | n88 | nBasic => simp [installed, filled]
    | ext other =>
      show (m.hasExtRom.set page true)[(other : Nat)]
        = (m.hasExtRom[(other : Nat)] || Rom.ext page == Rom.ext other)
      rw [Vector.getElem_set]
      by_cases hpage : page = other
      · simp [hpage]
      · have hval : (page : Nat) ≠ other := fun h => hpage (Fin.ext h)
        simp [hval, hpage]

/-- No access of the CPU fills a slot. -/
theorem Fitted.filled_touch {b b' : Board Banked} (hb : Fitted b)
    (h : b.Touch b') : b'.decoder.filled = b.decoder.filled := by
  cases h with
  | read addr => rw [(Board.SameMemory.afterRead addr b).decoder]
  | note n => rw [Board.note_decoder]
  | input port => rfl
  | output port v =>
    rw [Board.writePort_decoder]
    funext rom
    cases rom <;> rfl
  | write addr v =>
    obtain ⟨p, hp⟩ := hb.exists_target addr
    rw [Board.poke_decoder_of_ok hp]
    obtain ⟨dirty, hdirty⟩ := b.decoder.stored_eq addr
    show (stored addr b.decoder).filled = _
    rw [hdirty]
    funext rom
    cases rom <;> rfl

-- ================================================================= calm

/-- What may become of a board as long as no image is loaded. -/
structure Calm (b b' : Board Banked) : Prop where
  moves : Moves b.arena b'.arena
  filled : b'.decoder.filled = b.decoder.filled

/-- A board with the same arena and the same slots is calm. -/
theorem Calm.still {b b' : Board Banked} (harena : b'.arena = b.arena)
    (hfilled : b'.decoder.filled = b.decoder.filled) : Calm b b' := by
  refine ⟨?_, hfilled⟩
  rw [harena]
  exact .refl

theorem Calm.trans {b b' b'' : Board Banked} (h : Calm b b')
    (h' : Calm b' b'') : Calm b b'' :=
  ⟨h.moves.trans h'.moves, h'.filled.trans h.filled⟩

theorem Calm.fitted {b b' : Board Banked} (h : Calm b b')
    (hb : Fitted b) : Fitted b' :=
  h.moves.layout_eq.trans hb

/-- Nothing that a CPU does to the board disturbs the calm. -/
theorem Fitted.calm_touch {b b' : Board Banked} (hb : Fitted b)
    (h : b.Touch b') : Calm b b' :=
  ⟨hb.moves_touch h, hb.filled_touch h⟩

/-- Whatever a step executes and whichever interrupt it takes. -/
theorem Fitted.calm_step {s : Computer Banked} (hs : Fitted s.board) :
    Calm s.board (Exec.step s).2.board := by
  apply Exec.preserved_step (P := Calm s.board)
  · intro b b' htouch hb
    exact hb.trans ((hb.fitted hs).calm_touch htouch)
  · intro b b' harena hdecoder hb
    exact hb.trans (.still harena (congrArg filled hdecoder))
  · exact .still rfl rfl

-- =============================================================== faults

/-- Which accesses fail, and how. -/
structure FaultsExact (b : Board Banked) : Prop where
  extPage : (b.decoder.bank.extPage : Nat) < 4
  plane (k : Fin 3) (h : b.decoder.bank.plane = some k) : (k : Nat) < 3
  /-- No access leaves the region that it is sent to, -/
  inRange (access : Access) (addr : UInt16) (p : Place)
    (h : b.resolve access addr = .ok p) :
    p.offset < (b.arena.contents p.region).size
  /-- and no write is sent to a ROM. -/
  noRom (addr : UInt16) (p : Place) (h : b.resolve .write addr = .ok p)
    (rom : Rom) : p.region ≠ rom.region
  /-- Neither of these two faults is ever latched, therefore. -/
  latch : OnlyMisses b.arena
  /-- Every write succeeds. -/
  write (addr : UInt16) (v : UInt8) :
    (∃ p, b.target addr = .ok p)
      ∧ (b.poke addr v).arena.fault = b.arena.fault
  block (addr : UInt16) (bytes : List UInt8) :
    (b.pokeBlock addr bytes).arena.fault = b.arena.fault
  /-- A read fails if it lacks a BASIC ROM, and then for this reason; the
  reason is latched. -/
  read (addr : UInt16) (fault : Fault) :
    b.failureAt addr = some fault
      ↔ fault = .unmapped addr .read ∧ b.decoder.LacksRom addr
  latched (addr : UInt16) :
    (b.afterRead addr).arena.fault
      = (b.arena.fault <|> b.failureAt addr)

/-- Storing a block reports nothing, since none of its bytes does. -/
theorem Fitted.fault_pokeBlock {b : Board Banked} (hb : Fitted b)
    (addr : UInt16) (bytes : List UInt8) :
    (b.pokeBlock addr bytes).arena.fault = b.arena.fault := by
  rw [hb.pokeBlock_arena rfl rfl]
  induction bytes generalizing addr b with
  | nil => rfl
  | cons v rest ih =>
    show ((b.poke addr v).after (blockWrites (addr + 1) rest)).arena.fault
      = _
    rw [ih ((hb.moves_poke addr v).layout_eq.trans hb), hb.fault_poke]

/-- On a sound board the map tells which reads fail, and nothing else
does. -/
theorem Sound.faultsExact {b : Board Banked} (hb : Sound b) :
    FaultsExact b where
  extPage := b.decoder.bank.extPage.isLt
  plane k _ := k.isLt
  inRange access addr p h := by
    have hform : ∃ form, layout[p.region]? = some form
        ∧ p.offset < form.size := by
      cases access with
      | read => exact (resolve_read_eq_ok_iff.1 h).in_range
      | write =>
        obtain ⟨form, hform, -, hlt⟩ :=
          (resolve_write_eq_ok_iff.1 h).in_range
        exact ⟨form, hform, hlt⟩
    obtain ⟨form, hform, hlt⟩ := hform
    rw [← hb.fitted] at hform
    rw [Arena.size_contents hform]
    exact hlt
  noRom addr p h := (resolve_write_eq_ok_iff.1 h).region_ne_rom
  latch := hb.latch
  write addr v :=
    ⟨hb.fitted.exists_target addr, hb.fitted.fault_poke addr v⟩
  block addr bytes := hb.fitted.fault_pokeBlock addr bytes
  read addr fault := hb.fitted.failureAt_eq_some_iff
  latched addr := by
    rw [Board.afterRead_arena]
    cases b.failureAt addr with
    | none => simp
    | some fault => rfl

-- ============================================================= faithful

/-- A memory with banks, seen from outside. -/
structure Faithful (b : Board Banked) : Prop where
  /-- An address that lacks no ROM is read without a fault, and gives
  the byte of the one place that it shows. -/
  shown (addr : UInt16) (h : ¬ b.decoder.LacksRom addr) :
    b.failureAt addr = none
      ∧ ∃ p, b.decoder.Shows addr p ∧ (∀ q, b.decoder.Shows addr q → q = p)
        ∧ b.arena.byte? p = some (b.valueAt addr)
  /-- A write replaces the byte of one place, which is in no ROM, and no
  other byte of any region. -/
  stored (addr : UInt16) (v : UInt8) :
    ∃ p, b.decoder.Stores addr p
      ∧ (∀ q, b.decoder.Stores addr q → q = p)
      ∧ (∀ rom : Rom, p.region ≠ rom.region)
      ∧ (b.poke addr v).arena.bytes
        = Function.update b.arena.bytes p (some v)
  /-- A word is two bytes, at consecutive addresses. -/
  word (addr v : UInt16) :
    b.pokeWord addr v
      = b.after [.write addr (loByte v), .write (addr + 1) (hiByte v)]
  /-- A block is its bytes, at consecutive addresses. -/
  block (addr : UInt16) (bytes : List UInt8) :
    (b.pokeBlock addr bytes).arena
      = (b.after (blockWrites addr bytes)).arena
  /-- After any number of writes and uses of ports every place that can be
  read holds the last byte stored there, or else what it held before. -/
  recalls (changes : List Board.Change) (addr : UInt16) (p : Place)
    (h : (b.after changes).decoder.Shows addr p) :
    some ((b.after changes).valueAt addr)
      = replay (b.stores changes) b.arena.bytes p

/-- A fitted board is a faithful memory. -/
theorem Fitted.faithful {b : Board Banked} (hb : Fitted b) :
    Faithful b where
  shown addr h := by
    rcases b.decoder.resolve_read_cases addr with
      ⟨p, -, hshows⟩ | ⟨-, hlacks⟩
    · obtain ⟨hbyte, hnone⟩ := hb.byte?_of_shows hshows
      exact ⟨hnone, p, hshows, fun q hq => hq.unique hshows, hbyte⟩
    · exact absurd hlacks h
  stored addr v := by
    obtain ⟨p, hp⟩ := hb.exists_target addr
    have hstores := hb.target_eq_ok_iff.1 hp
    refine ⟨p, hstores, fun q hq => hq.unique hstores,
      hstores.region_ne_rom, ?_⟩
    rw [Board.poke_arena_of_ok hp]
    exact Arena.bytes_put_of_accepted (Board.target_eq_ok_iff.1 hp).2 v
  word addr v := rfl
  block addr bytes := hb.pokeBlock_arena rfl rfl addr bytes
  recalls changes addr p h := by
    obtain ⟨hfitted, -⟩ := hb.after changes
    rw [← Board.bytes_after]
    exact (hfitted.byte?_of_shows h).1.symm

end Banked
end HomeZ80
