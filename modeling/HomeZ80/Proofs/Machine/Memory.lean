/-
The memory of a machine, in every state that the machine can come to.

Two things are shown of it. The board stays a faithful memory with
banks, whatever is executed on it: an instruction is a series of writes
and port writes, an image changes the ROM that it is made for, and
everything else leaves all bytes alone (`memory_faithful`). And of the
three faults that a memory access may raise, only a read that finds
nothing can occur here, which happens exactly where a BASIC ROM is
selected that was never installed (`faults_exact`).

Both follow from one invariant, that the board is sound. It holds of a
new machine, and every event keeps it: an image keeps the regions, and
all other events come down to the moves of the arena (`calm_act`).
-/
import HomeZ80.Proofs.Board.Faithful
import HomeZ80.Proofs.Machine.Reached

namespace HomeZ80

open Banked (Moves Calm Fitted Sound Faithful)

namespace Machine

-- =============================================================== events

def Event.isInstall : Event → Bool
  | .install _ _ => true
  | _ => false

/-- Whether an event may store bytes. -/
def Event.isStoring : Event → Bool
  | .step | .poke _ _ | .pokeBlock _ _ | .install _ _ => true
  | _ => false

/-- Taking a fault touches the latch alone. -/
theorem takeFault_arena (s : Computer Banked) :
    s.takeFault.2.board.arena = s.board.arena.takeFault.2 := by
  show s.board.takeFault.2.arena = _
  unfold Board.takeFault
  split
  · next hnone => exact congrArg (Arena.mk _) hnone
  · rfl

/-- No event but an image does more than the board's moves. -/
theorem calm_act {e : Event} (he : e.isInstall = false)
    {s : Computer Banked} (hs : Fitted s.board) :
    Calm s.board (e.act s).board := by
  cases e with
  | install rom image => cases he
  | step => exact hs.calm_step
  | peek addr => exact hs.calm_touch (.read addr _)
  | poke addr v => exact hs.calm_touch (.write addr v _)
  | output port v => exact hs.calm_touch (.output port v _)
  | pokeBlock addr bytes =>
    refine ⟨hs.moves_pokeBlock addr bytes, ?_⟩
    exact congrArg Banked.filled
      (Board.SameDevices.pokeBlock addr bytes _).decoder
  | request channel =>
    have hsame := Board.SameMemory.onController
      (Controller.request channel) s.board
    exact .still (Board.onController_arena _ _)
      (congrArg Banked.filled hsame.decoder)
  | acknowledge channel =>
    have hsame := Board.SameMemory.onController
      (Controller.acknowledge channel) s.board
    exact .still (Board.onController_arena _ _)
      (congrArg Banked.filled hsame.decoder)
  | note notes =>
    exact .still (Board.note_arena notes _)
      (congrArg Banked.filled (Board.note_decoder notes _))
  | takeFault =>
    constructor
    · show Moves _ s.takeFault.2.board.arena
      rw [takeFault_arena]
      exact .single (.takeFault _)
    · show s.board.takeFault.2.decoder.filled = _
      unfold Board.takeFault
      split <;> rfl
  | resetBanks | takeDirty =>
    refine .still rfl ?_
    funext rom
    cases rom <;> rfl
  | _ => exact .still rfl rfl

/-- Installing an image loads it into the region of its ROM. -/
theorem install_arena (rom : Banked.Rom) (image : ByteArray)
    (b : Board Banked) :
    (Banked.install rom image b).arena
      = b.arena.load rom.region image :=
  Board.note_arena _ _

/-- Every event leaves a sound board sound. -/
theorem sound_act (e : Event) {s : Computer Banked}
    (hs : Sound s.board) : Sound (e.act s).board := by
  cases he : e.isInstall with
  | false => exact hs.moves (calm_act he hs.fitted).moves
  | true =>
    cases e with
    | install rom image =>
      show Sound (Banked.install rom image s.board)
      constructor
      · show (Banked.install rom image s.board).arena.layout = _
        rw [install_arena, Arena.layout_load]
        exact hs.fitted
      · rw [install_arena]
        exact hs.latch
    | _ => cases he

/-- A reset leaves the memory, and the latch. -/
theorem reset_arena (m : Machine) :
    m.reset.computer.board.arena = m.computer.board.arena := by
  have hattached (b : Board Banked) : b.attachAll.arena = b.arena := by
    unfold Board.attachAll
    split
    · dsimp only
      unfold Board.attachTimers
      rw [Board.note_arena]
      exact Board.note_arena _ _
    · rfl
  unfold reset
  show (Board.note _ _).arena = _
  rw [Board.note_arena]
  exact hattached m.resetBanks.computer.board

/-- So the board of every machine that is reached is sound. -/
theorem Reached.sound {config : MachineConfig} {log : Log}
    {m : Machine} (h : Reached config log m) :
    Sound m.computer.board := by
  have hlead {s t : Computer Banked} (hst : Leads s t)
      (hs : Sound s.board) : Sound t.board :=
    hst.preserves (P := fun s => Sound s.board)
      (fun e _ hs => sound_act e hs) hs
  induction h with
  | new =>
    constructor
    · show (Machine.new config log).computer.board.arena.layout = _
      unfold Machine.new
      rw [reset_arena]
      exact Banked.layout_regions
    · unfold Machine.new
      rw [reset_arena]
      nofun
  | event e _ ih => exact sound_act e ih
  | @reset m _ ih =>
    constructor
    · show m.reset.computer.board.arena.layout = _
      rw [reset_arena]
      exact ih.fitted
    · rw [reset_arena]
      exact ih.latch
  | stepN n _ ih => exact hlead (leads_stepN n _) ih
  | run hw hrun _ ih => exact hlead (leads_run hw hrun) ih

/-- A ROM may be installed at any time. -/
theorem Reached.install {config : MachineConfig} {log : Log}
    {m : Machine} (h : Reached config log m) (rom : Banked.Rom)
    (image : ByteArray) : Reached config log (m.install rom image) :=
  h.after [.install rom image, .note [installedNote image.size rom]]

-- =============================================================== slots

def Event.installs (rom : Banked.Rom) : Event → Bool
  | .install other _ => other == rom
  | _ => false

/-- A slot is filled by an image for it, and never emptied. -/
theorem filled_act (e : Event) {s : Computer Banked}
    (hs : Fitted s.board) (rom : Banked.Rom) :
    (e.act s).board.decoder.filled rom
      = (s.board.decoder.filled rom || e.installs rom) := by
  cases he : e.isInstall with
  | false =>
    have hnone : e.installs rom = false := by
      cases e with
      | install => cases he
      | _ => rfl
    rw [(calm_act he hs).filled, hnone, Bool.or_false]
  | true =>
    cases e with
    | install other image =>
      show (Banked.install other image s.board).decoder.filled rom = _
      unfold Banked.install
      rw [Board.note_decoder]
      exact Banked.filled_installed _ other rom
    | _ => cases he

-- ============================================================== memory

/-- A computer whose board is a faithful memory and stays it, whatever
happens next. -/
structure MemoryFaithful (s : Computer Banked) : Prop where
  board : Faithful s.board
  /-- A step stores and switches banks as a series of writes and port
  writes does. -/
  step : ∃ changes, (s.board.after changes).SameMemory s.step.2.board
  /-- An image takes the place of the first bytes of its ROM. -/
  install (rom : Banked.Rom) (image : ByteArray) (p : Place) :
    (Event.act s (.install rom image)).board.arena.byte? p
      = if p.region = rom.region
          ∧ p.offset < min image.size
            (s.board.arena.contents rom.region).size
        then image.data[p.offset]? else s.board.arena.byte? p
  /-- No other event changes a ROM. -/
  roms (e : Event) (he : e.isInstall = false) (rom : Banked.Rom) :
    (e.act s).board.arena.contents rom.region
      = s.board.arena.contents rom.region
  /-- The slot of a ROM is filled once an image was installed in it. -/
  slots (e : Event) (rom : Banked.Rom) :
    (e.act s).board.decoder.filled rom
      = (s.board.decoder.filled rom || e.installs rom)
  /-- Steps, writes and images aside, no event changes any byte. -/
  still (e : Event) (he : e.isStoring = false) :
    (e.act s).board.arena.bytes = s.board.arena.bytes

/-- An event that stores nothing leaves all bytes. -/
theorem still_act {e : Event} (he : e.isStoring = false)
    (s : Computer Banked) :
    (e.act s).board.arena.bytes = s.board.arena.bytes := by
  have still : (e.act s).board.arena = s.board.arena →
      (e.act s).board.arena.bytes = s.board.arena.bytes := by
    intro h
    rw [h]
  cases e with
  | step | poke | pokeBlock | install => cases he
  | peek addr =>
    show (s.board.afterRead addr).arena.bytes = _
    rw [Board.afterRead_arena]
    split <;> rfl
  | output port v => exact still (Board.writePort_arena port v _)
  | request channel => exact still (Board.onController_arena _ _)
  | acknowledge channel => exact still (Board.onController_arena _ _)
  | note notes => exact still (Board.note_arena notes _)
  | takeFault =>
    show s.takeFault.2.board.arena.bytes = _
    rw [takeFault_arena]
    rfl
  | _ => exact still rfl

/-- In every state of a machine its board is a faithful memory. -/
theorem memory_faithful {config : MachineConfig} {log : Log}
    {m : Machine} (h : Reached config log m) :
    MemoryFaithful m.computer := by
  have hfitted := h.sound.fitted
  constructor
  · exact hfitted.faithful
  · exact Exec.changes_step m.computer
  · intro rom image p
    show (Banked.install rom image m.computer.board).arena.byte? p = _
    rw [install_arena]
    exact Arena.byte?_load rom.region image p _
  · intro e he rom
    exact (calm_act he hfitted).moves.contents_rom rom
  · intro e rom
    exact filled_act e hfitted rom
  · intro e he
    exact still_act he m.computer

/-- A machine with its text window moved. -/
def windowed : Machine :=
  let m := new {} {}
  { m with computer := after [.output 0x70 0x12] m.computer }

/-- Its window shows another part of RAM. -/
theorem memory_faithful_windowed :
    Reached {} {} windowed
      ∧ windowed.computer.board.decoder.Shows 0x8005
          ⟨Banked.mainRam, 0x1205⟩
      ∧ MemoryFaithful windowed.computer := by
  have hreached : Reached {} {} windowed := Reached.new.after _
  have hallRam : windowed.computer.board.decoder.bank.allRam = false := by
    decide +kernel
  have hwindow :
      windowed.computer.board.decoder.bank.textWindow = 0x12 := by
    decide +kernel
  have hshows : windowed.computer.board.decoder.Shows 0x8005 _ :=
    .window (by decide) (by decide) hallRam
  rw [hwindow] at hshows
  exact ⟨hreached, hshows, memory_faithful hreached⟩

-- ============================================================== faults

/-- In every state of a machine a read faults exactly if it would need a
BASIC ROM that is not there, a write never does, and no access leaves
its region. -/
theorem faults_exact {config : MachineConfig} {log : Log} {m : Machine}
    (h : Reached config log m) :
    Banked.FaultsExact m.computer.board :=
  h.sound.faultsExact

/-- A machine with no BASIC ROM, but with an extension page that is
installed, chosen and switched on. -/
def extended : Machine :=
  let m := (new {} {}).install (.ext 1) ⟨#[0x52, 0x34]⟩
  { m with
    computer := after [.output 0x32 1, .output 0x71 0] m.computer }

/-- The page begins at address 6000, and below it there is nothing to
read. -/
theorem faults_exact_extended :
    Reached {} {} extended
      ∧ Banked.FaultsExact extended.computer.board
      ∧ extended.computer.board.failureAt 0x5FFF
        = some (.unmapped 0x5FFF .read)
      ∧ extended.computer.board.failureAt 0x6000 = none := by
  have hreached : Reached {} {} extended := (Reached.new.install _ _).after _
  have hfaults := faults_exact hreached
  have hlacks : extended.computer.board.decoder.LacksRom 0x5FFF := by
    refine ⟨by decide, by decide +kernel, .inr ⟨?_, ?_, ?_⟩⟩
    · decide +kernel
    · decide +kernel
    · intro hcovers
      exact absurd hcovers.1 (by decide)
  refine ⟨hreached, hfaults, (hfaults.read 0x5FFF _).2 ⟨rfl, hlacks⟩, ?_⟩
  cases hread : extended.computer.board.failureAt 0x6000 with
  | none => rfl
  | some fault =>
    obtain ⟨-, -, -, hmissing⟩ := (hfaults.read 0x6000 fault).1 hread
    rcases hmissing with ⟨hrom, -⟩ | ⟨-, -, huncovered⟩
    · exact absurd hrom (by decide +kernel)
    · refine absurd ⟨by decide, ?_, ?_⟩ huncovered
      · decide +kernel
      · decide +kernel

end Machine
end HomeZ80
