/-
Loading bytes into a machine. On every board that takes no notice of
stored bytes a block is its bytes, up to the first write that fails; and
on the board of a machine, where none does, a block is all its bytes,
except that it marks no picture line (`blocks_as_bytes`).

A machine that is asked to load bytes stores them as a block and then
takes the fault latch. The block never fills the latch, so what is taken
is what was there before: a read that found nothing, some time ago
(`Driven.loadRam_loaded`). All bytes are stored nevertheless. The machine
answers for its own writes only when the latch was empty.
-/
import HomeZ80.Proofs.Board.Blocks
import HomeZ80.Proofs.Cpu.Latch
import HomeZ80.Proofs.Machine.Driven

namespace HomeZ80

open Banked (Fitted)
open BusCycle (byteWrites)

namespace Machine

-- =============================================================== blocks

/-- A block is its bytes. -/
theorem blocks_as_bytes :
    (∀ (μ : Type) [Decoder μ], Decoder.StoresUnnoticed μ →
      ∀ (addr : UInt16) (bytes : List UInt8) (b : Board μ),
        b.StoredAsBytes addr bytes)
    ∧ (∀ b : Board Banked, Fitted b →
      ∀ (addr : UInt16) (bytes : List UInt8),
        let written := b.perform (byteWrites addr bytes)
        b.failures (byteWrites addr bytes) = []
          ∧ b.pokeBlock addr bytes
            = { written with decoder :=
                { written.decoder with dirty := b.decoder.dirty } })
    ∧ ∀ (config : MachineConfig) (log : Log) (m : Machine),
      Driven config log m → Fitted m.computer.board :=
  ⟨fun _ _ h => Board.storedAsBytes h,
    fun _ hb addr bytes =>
      ⟨hb.failures_byteWrites addr bytes, hb.pokeBlock_eq addr bytes⟩,
    fun _ _ _ h => h.built.sound.fitted⟩

/-- Two bytes of memory behind three addresses, the last address before
the wrap and the first two after it, and a fault that was latched some
time ago. -/
def aliased : Board Windowed where
  arena :=
    { regions := #[⟨"memory", ⟨#[0, 0]⟩, true⟩]
      fault := some (.unmapped 7 .read) }
  decoder :=
    { windows :=
        [⟨0xFFFF, 0xFFFF, true, true, 0, 0⟩, ⟨0, 0, true, true, 0, 1⟩,
          ⟨1, 1, true, true, 0, 0⟩] }

/-- A machine that shows a video plane. -/
def showing : Machine :=
  let m := new {} {}
  { m with computer := after [.output 0x5C 0] m.computer }

/-- The third byte comes to where the first was, and the fourth to
nothing; the old fault stays. And a byte that is loaded into a video plane
is the same as one that is written, except that its line is unmarked. -/
theorem blocks_as_bytes_wrapping :
    let b := aliased
    let block := b.pokeBlock 0xFFFF [5, 6, 7, 8]
    let c := showing.computer.board
    b.StoredAsBytes 0xFFFF [5, 6, 7, 8]
      ∧ block.arena.regions = #[⟨"memory", ⟨#[7, 6]⟩, true⟩]
      ∧ block.arena.fault = some (.unmapped 7 .read)
      ∧ (c.pokeBlock 0xC000 [1]).arena = (c.poke 0xC000 1).arena
      ∧ (c.poke 0xC000 1).decoder.isDirty 0 = true
      ∧ (c.pokeBlock 0xC000 [1]).decoder.isDirty 0 = false := by
  intro b block c
  obtain ⟨hbytes, hbanked, hdriven⟩ := blocks_as_bytes
  have hblock : b.StoredAsBytes 0xFFFF [5, 6, 7, 8] :=
    hbytes Windowed (fun _ _ => rfl) _ _ _
  have hcut := (hblock.cut 3 8 (.unmapped 2 .write) rfl
    (by decide +kernel) (by decide +kernel)).2
  have hfitted : Fitted c :=
    hdriven {} {} showing ((Reached.new.after _).driven)
  have hone : ∀ d : Board Banked, Fitted d →
      (d.pokeBlock 0xC000 [1]).arena = (d.poke 0xC000 1).arena
        ∧ (d.pokeBlock 0xC000 [1]).decoder.dirty = d.decoder.dirty := by
    intro d hd
    have hline := (hbanked d hd 0xC000 [1]).2
    rw [show byteWrites 0xC000 [1] = [.write 0xC000 1] from rfl] at hline
    rw [hline]
    exact ⟨rfl, rfl⟩
  obtain ⟨harena, hdirty⟩ := hone c hfitted
  refine ⟨hblock, ?_, ?_, harena, by decide +kernel, ?_⟩
  · rw [hcut]
    decide +kernel
  · rw [hcut]
    decide +kernel
  · unfold Banked.isDirty
    rw [hdirty]
    decide +kernel

-- ============================================================== loading

/-- What a machine answers when it has taken the latch. -/
def answer : Option Fault → Except Fault Unit
  | none => .ok ()
  | some fault => .error fault

/-- A block is stored, and then the latch is asked. -/
theorem loadRam_eq (addr : UInt16) (bytes : List UInt8) (m : Machine) :
    let stored := m.onBoard (·.pokeBlock addr bytes)
    m.loadRam addr bytes
      = (answer stored.computer.latch,
        { stored with computer := stored.computer.unlatched }) := by
  intro stored
  unfold Machine.loadRam
  dsimp only
  rw [Computer.takeFault_eq]
  cases stored.computer.latch <;> rfl

/-- What loading does to a machine, and what the machine answers. -/
structure Loaded (addr : UInt16) (bytes : List UInt8) (m : Machine)
    (done : Except Fault Unit × Machine) : Prop where
  /-- None of the writes fails, -/
  clear : m.computer.board.failures (byteWrites addr bytes) = []
  /-- and all bytes are stored. -/
  stored : done.2.computer.board.arena.regions
    = (m.computer.board.perform (byteWrites addr bytes)).arena.regions
  /-- The answer is the fault that was latched before, -/
  answered : done.1 = answer m.computer.latch
  /-- which was a read that found nothing and no write. -/
  old (fault : Fault) (h : done.1 = .error fault) :
    m.computer.latch = some fault
      ∧ ∃ missed, fault = .unmapped missed .read
  emptied : done.2.computer.latch = none
  cpu : done.2.computer.cpu = m.computer.cpu
  decoder : done.2.computer.board.decoder = m.computer.board.decoder

variable {config : MachineConfig} {log : Log} {m : Machine}

/-- So a load does what is told of it, whatever became of the machine
before. -/
theorem Driven.loadRam_loaded (h : Driven config log m) (addr : UInt16)
    (bytes : List UInt8) : Loaded addr bytes m (m.loadRam addr bytes) := by
  have hsound := h.built.sound
  have hlatch : (m.onBoard (·.pokeBlock addr bytes)).computer.latch
      = m.computer.latch := hsound.fitted.fault_pokeBlock addr bytes
  have hblock := hsound.fitted.pokeBlock_eq addr bytes
  have hanswered : (m.loadRam addr bytes).1 = answer m.computer.latch := by
    rw [loadRam_eq, ← hlatch]
  refine ⟨hsound.fitted.failures_byteWrites addr bytes, ?_, hanswered,
    fun fault herror => ?_, ?_, ?_, ?_⟩
  · rw [loadRam_eq]
    exact congrArg (·.arena.regions) hblock
  · rw [hanswered] at herror
    cases hheld : m.computer.latch with
    | none =>
      rw [hheld] at herror
      cases herror
    | some held =>
      rw [hheld] at herror
      obtain rfl := Except.error.inj herror
      exact ⟨rfl, hsound.latch held hheld⟩
  · rw [loadRam_eq]
    rfl
  · rw [loadRam_eq]
    rfl
  · rw [loadRam_eq]
    exact (Board.SameDevices.pokeBlock addr bytes m.computer.board).decoder

/-- A machine can be driven on after a load. -/
theorem Driven.loadRam (h : Driven config log m) (addr : UInt16)
    (bytes : List UInt8) : Driven config log (m.loadRam addr bytes).2 := by
  have hevents := (h.event (.pokeBlock addr bytes)).event .takeFault
  let stored := m.onBoard (·.pokeBlock addr bytes)
  have htaken : stored.computer.takeFault.2 = stored.computer.unlatched :=
    congrArg Prod.snd (Computer.takeFault_eq _)
  rw [loadRam_eq]
  show Driven config log
    { stored with computer := stored.computer.unlatched }
  rw [← htaken]
  exact hevents

/-- A machine that is asked to load bytes stores every one of them, and
answers with the fault that was latched before, if there was one: its own
writes never fail. So there is no fault in the answer if and only if the
latch was empty, and there is none when the machine is asked again. -/
theorem Driven.loadRam_answers_latch (h : Driven config log m)
    (addr : UInt16) (bytes : List UInt8) :
    Loaded addr bytes m (m.loadRam addr bytes)
      ∧ ((m.loadRam addr bytes).1 = .ok () ↔ m.computer.latch = none)
      ∧ ∀ (addr' : UInt16) (bytes' : List UInt8),
        ((m.loadRam addr bytes).2.loadRam addr' bytes').1 = .ok () := by
  have hloaded := h.loadRam_loaded addr bytes
  refine ⟨hloaded, ?_, fun addr' bytes' => ?_⟩
  · rw [hloaded.answered]
    cases m.computer.latch with
    | none => exact ⟨fun _ => rfl, fun _ => rfl⟩
    | some fault => exact ⟨nofun, nofun⟩
  · have hagain := (h.loadRam addr bytes).loadRam_loaded addr' bytes'
    rw [hagain.answered, hloaded.emptied]
    rfl

/-- A machine without ROMs whose first byte was looked at. -/
def missed : Machine :=
  let m := new {} {}
  { m with computer := after [.peek 0] m.computer }

theorem missed_latch :
    missed.computer.latch = some (.unmapped 0 .read) := by
  decide +kernel

/-- The machine answers for that read when it is asked to load a byte,
although the byte is stored. -/
theorem loadRam_answers_missed :
    Driven {} {} missed
      ∧ Loaded 0x8000 [1] missed (missed.loadRam 0x8000 [1])
      ∧ (missed.loadRam 0x8000 [1]).1 = .error (.unmapped 0 .read)
      ∧ ((missed.loadRam 0x8000 [1]).2.loadRam 0x8000 [1]).1 = .ok () := by
  have hdriven : Driven {} {} missed := (Reached.new.after _).driven
  obtain ⟨hloaded, -, hagain⟩ := hdriven.loadRam_answers_latch 0x8000 [1]
  refine ⟨hdriven, hloaded, ?_, hagain 0x8000 [1]⟩
  rw [hloaded.answered, missed_latch]
  rfl

/-- So there may be a fault in the answer even if no write of the machine
has failed. -/
theorem loadRam_answers_although_stored :
    ¬ ∀ (m : Machine), Driven {} {} m → ∀ (addr : UInt16)
      (bytes : List UInt8),
      m.computer.board.failures (byteWrites addr bytes) = [] →
        (m.loadRam addr bytes).1 = .ok () := by
  intro hall
  have hdriven : Driven {} {} missed := (Reached.new.after _).driven
  have hloaded := hdriven.loadRam_loaded 0x8000 [1]
  have hok := hall missed hdriven 0x8000 [1] hloaded.clear
  rw [hloaded.answered, missed_latch] at hok
  cases hok

end Machine
end HomeZ80
