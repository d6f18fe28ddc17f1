/-
A reset machine is a new machine with the old memory.

The new machine to compare with is made from nothing but the memory of
the old one (`Machine.renewed`): it is built, the ROMs that the old
machine has are installed in it, and RAM and video planes are filled.
Right after the reset the two are alike in everything that can matter
(`Machine.alike_renewed`): registers, latches, requests and lines are
those of power-on in both. What they may differ in is who listens to
their logs, what their tick sources are doing, and the channel recorded
on the maskable line, which a reset does not erase.

No call tells them apart afterwards. Every call gives the same answer on
machines that are alike and leaves them alike (`Call.alike_perform`), so
a series of calls does (`alike_perform`). And once the line has been
asserted again, the channel is the same as well.
-/
import HomeZ80.Proofs.Board.Alike
import HomeZ80.Proofs.Machine.Driven

namespace HomeZ80

open Banked (Rom Built)

-- ============================================================ the memory

namespace Banked

/-- All ROMs that there can be. -/
def Rom.all : List Rom :=
  [.n88, .nBasic, .ext 0, .ext 1, .ext 2, .ext 3]

theorem Rom.mem_all (rom : Rom) : rom ∈ all := by
  cases rom with
  | n88 | nBasic => simp [all]
  | ext page =>
    match page with
    | 0 | 1 | 2 | 3 => simp [all]

/-- The regions that programs may write. -/
def ramRegions : List Nat := mainRam :: List.ofFn videoPlane

/-- The ROMs installed. -/
def roms (m : Banked) : List Rom := Rom.all.filter m.filled

/-- The ROMs of a machine are those whose slot is filled. -/
theorem mem_roms {m : Banked} {rom : Rom} :
    rom ∈ m.roms ↔ m.filled rom = true := by
  unfold roms
  rw [List.mem_filter]
  exact and_iff_right rom.mem_all

/-- A region is one of a ROM, or may be written, or does not exist. -/
theorem region_cases (id : Nat) :
    (∃ rom : Rom, id = rom.region) ∨ id ∈ ramRegions
      ∨ layout[id]? = none := by
  match id with
  | 0 | 7 | 8 | 9 => exact .inr (.inl (by decide))
  | 1 => exact .inl ⟨.n88, rfl⟩
  | 2 => exact .inl ⟨.nBasic, rfl⟩
  | 3 => exact .inl ⟨.ext 0, rfl⟩
  | 4 => exact .inl ⟨.ext 1, rfl⟩
  | 5 => exact .inl ⟨.ext 2, rfl⟩
  | 6 => exact .inl ⟨.ext 3, rfl⟩
  | n + 10 => exact .inr (.inr rfl)

/-- Apart from the slots a decoder is its registers, latches and dirty
lines. -/
theorem eq_of_filled {m m' : Banked} (hbank : m'.bank = m.bank)
    (hports : m'.ports = m.ports) (hdirty : m'.dirty = m.dirty)
    (hfilled : m'.filled = m.filled) : m' = m := by
  obtain ⟨bank, ports, dirty, n88, nBasic, ext⟩ := m
  obtain ⟨bank', ports', dirty', n88', nBasic', ext'⟩ := m'
  have hext : ext' = ext := by
    apply Vector.ext
    intro i hi
    exact congrFun hfilled (.ext ⟨i, hi⟩)
  have hn88 : n88' = n88 := congrFun hfilled .n88
  have hnBasic : nBasic' = nBasic := congrFun hfilled .nBasic
  simp only at hbank hports hdirty
  rw [hbank, hports, hdirty, hext, hn88, hnBasic]

/-- Installing ROMs changes no more than their slots. -/
theorem foldl_installed (roms : List Rom) (m : Banked) :
    let after := roms.foldl installed m
    after.bank = m.bank ∧ after.ports = m.ports ∧ after.dirty = m.dirty
      ∧ ∀ rom, after.filled rom = true
        ↔ m.filled rom = true ∨ rom ∈ roms := by
  induction roms generalizing m with
  | nil => exact ⟨rfl, rfl, rfl, fun rom => by simp⟩
  | cons first rest ih =>
    obtain ⟨hbank, hports, hdirty, hfilled⟩ := ih (m.installed first)
    refine ⟨hbank.trans ?_, hports.trans ?_, hdirty.trans ?_, ?_⟩
    · cases first <;> rfl
    · cases first <;> rfl
    · cases first <;> rfl
    · intro rom
      rw [List.foldl_cons, hfilled, filled_installed, Bool.or_eq_true,
        beq_iff_eq, or_assoc, List.mem_cons, eq_comm (a := first)]

/-- The ROMs of a decoder, installed in a new one, make of it the old one
after a reset. -/
theorem foldl_roms (m : Banked) :
    m.roms.foldl installed {} = m.reset := by
  obtain ⟨hbank, hports, hdirty, hfilled⟩ := foldl_installed m.roms {}
  have hempty (rom : Rom) : ¬ ({} : Banked).filled rom = true := by
    match rom with
    | .n88 | .nBasic | .ext 0 | .ext 1 | .ext 2 | .ext 3 => nofun
  refine eq_of_filled hbank hports hdirty (funext fun rom => ?_)
  rw [filled_reset, Bool.eq_iff_iff, hfilled, mem_roms]
  exact or_iff_right (hempty rom)

end Banked

namespace Machine

/-- Install ROMs with the contents that they have in an arena. -/
def installAll (roms : List Rom) (source : Arena) (m : Machine) :
    Machine :=
  roms.foldl (fun m rom => m.install rom (source.contents rom.region)) m

/-- A new machine with the memory of another: the same ROMs installed,
and the same bytes in RAM and in the video planes. -/
def renewed (log : Log) (m : Machine) : Machine :=
  let memory := m.computer.board.arena
  let installed :=
    (new m.config log).installAll m.computer.board.decoder.roms memory
  installed.onBoard fun b =>
    { b with arena := b.arena.copy Banked.ramRegions memory }

/-- Installing ROMs fills their slots and regions. -/
theorem installAll_computer (roms : List Rom) (source : Arena)
    (m : Machine) :
    ∃ log, (m.installAll roms source).computer =
      { m.computer with board :=
        { m.computer.board with
          arena := m.computer.board.arena.copy (roms.map Rom.region) source
          decoder := roms.foldl Banked.installed m.computer.board.decoder
          log } } := by
  induction roms generalizing m with
  | nil => exact ⟨_, rfl⟩
  | cons rom rest ih =>
    obtain ⟨log, hlog⟩ := ih (m.install rom (source.contents rom.region))
    refine ⟨log, hlog.trans ?_⟩
    unfold install Banked.install onBoard
    dsimp only
    rw [Board.note_eq]
    rfl

/-- The new machine, written out: all as at power-on but for the memory
that was copied. -/
theorem renewed_computer (log : Log) (m : Machine) :
    let memory := m.computer.board.arena
    let roms := m.computer.board.decoder.roms
    ∃ timers log', (m.renewed log).computer =
      { cpu := {}
        board :=
          { arena := (Banked.regions.copy (roms.map Rom.region) memory).copy
              Banked.ramRegions memory
            decoder := roms.foldl Banked.installed {}
            controller := some { wire := some Board.linesSlot }
            timers
            log := log' } } := by
  intro memory roms
  obtain ⟨timers, log', hnew⟩ := new_board m.config log
  obtain ⟨log'', hinstalled⟩ :=
    installAll_computer roms memory (new m.config log)
  rw [hnew] at hinstalled
  refine ⟨timers, log'', ?_⟩
  unfold renewed onBoard
  dsimp only
  rw [hinstalled]
  rfl

variable {m : Machine}

/-- Nothing is missing from the memory of the new machine, and it has
nothing else in it: an empty slot is as blank in the old one. -/
theorem copied_memory (hm : Built m.computer.board)
    (hfault : m.computer.latch = none) :
    (Banked.regions.copy (m.computer.board.decoder.roms.map Rom.region)
        m.computer.board.arena).copy Banked.ramRegions
      m.computer.board.arena = m.computer.board.arena := by
  have hlayout : Banked.regions.layout = m.computer.board.arena.layout :=
    Banked.layout_regions.trans hm.sound.fitted.symm
  have hroms := (Arena.layout_copy
    (m.computer.board.decoder.roms.map Rom.region) Banked.regions
    m.computer.board.arena).trans hlayout
  apply Arena.eq_of_contents
  · rw [Arena.layout_copy, hroms]
  · intro id
    rw [Arena.contents_copy hroms, Arena.contents_copy hlayout]
    split
    · rfl
    · next hnotRam =>
      split
      · rfl
      · next hnotCopied =>
        rcases Banked.region_cases id with ⟨rom, rfl⟩ | hram | hnone
        · have hempty : rom ∉ m.computer.board.decoder.roms :=
            fun hmem => hnotCopied (List.mem_map_of_mem hmem)
          rw [Banked.mem_roms, Bool.not_eq_true] at hempty
          exact (hm.blank rom hempty).symm
        · exact absurd hram hnotRam
        · have hnew := hnone
          rw [← Banked.layout_regions] at hnew
          rw [← hm.sound.fitted] at hnone
          rw [Arena.contents_of_missing hnew,
            Arena.contents_of_missing hnone]
  · rw [Arena.fault_copy, Arena.fault_copy]
    exact hfault.symm

/-- Right after a reset a machine is like a new one, except for the
channel on its line. -/
theorem alike_renewed (log : Log) (hm : Built m.computer.board)
    (hfault : m.computer.latch = none)
    (hstop : m.computer.board.lines.stop = false) :
    Twins (Board.Alike false) m.reset.computer
      (m.renewed log).computer := by
  obtain ⟨c, hc, hwire⟩ := hm.exists_controller
  obtain ⟨timers, log', hreset⟩ := reset_board hc (.inr hwire)
  obtain ⟨timers', log'', hrenewed⟩ := renewed_computer log m
  rw [copied_memory hm hfault, Banked.foldl_roms] at hrenewed
  rw [hrenewed]
  refine ⟨rfl, ?_⟩
  rw [hreset]
  apply Board.Alike.of_eq
  · rfl
  · rfl
  · rfl
  · exact ⟨rfl, rfl, hstop.symm, nofun⟩

-- =============================================================== calls

/-- What a machine can be asked to do. -/
inductive Call where
  | step
  | stepN (n : Nat)
  /-- A channel is requested of the controller. -/
  | request (channel : UInt8)
  /-- A channel is acknowledged, but not by the CPU. -/
  | acknowledge (channel : UInt8)
  /-- A register of the controller is written directly. -/
  | register (reg : Controller.Port) (v : UInt8)
  | requestNmi
  -- the bus, from outside the CPU
  | input (port : UInt8)
  | output (port v : UInt8)
  | peek (addr : UInt16)
  | poke (addr : UInt16) (v : UInt8)
  | pokeBlock (addr : UInt16) (bytes : List UInt8)
  deriving DecidableEq, Repr

/-- What a call returns. -/
inductive Answer where
  | done
  /-- The T-states of a step. -/
  | spent (cycles : Nat)
  /-- The T-states of a number of steps, or the first fault. -/
  | ended (result : Except Fault Nat)
  | byte (v : UInt8)

def Call.perform (m : Machine) : Call → Answer × Machine
  | .step => (.spent m.step.1, m.step.2)
  | .stepN n => (.ended (m.stepN n).1, (m.stepN n).2)
  | .request channel => (.done, m.onBoard (·.request channel))
  | .acknowledge channel => (.done, m.onBoard (·.acknowledge channel))
  | .register reg v =>
    (.done, m.onBoard fun b =>
      { b with controller := b.controller.map (·.writePort reg v) })
  | .requestNmi => (.done, m.requestNmi)
  | .input port =>
    (.byte (m.computer.board.readPort port), m.onBoard (·.afterInput port))
  | .output port v => (.done, m.onBoard (·.writePort port v))
  | .peek addr =>
    (.byte (m.computer.board.peek addr).1, m.onBoard (·.peek addr |>.2))
  | .poke addr v => (.done, m.onBoard (·.poke addr v))
  | .pokeBlock addr bytes => (.done, m.onBoard (·.pokeBlock addr bytes))

/-- Calls one after the other, with what each of them returns. -/
def perform : List Call → Machine → List Answer × Machine
  | [], m => ([], m)
  | call :: rest, m =>
    let (answer, m) := call.perform m
    let (answers, m) := perform rest m
    (answer :: answers, m)

/-- Calls may be made in two parts. -/
theorem perform_append (earlier later : List Call) (m : Machine) :
    (m.perform (earlier ++ later)).2
      = ((m.perform earlier).2.perform later).2 := by
  induction earlier generalizing m with
  | nil => rfl
  | cons call rest ih => exact ih (call.perform m).2

end Machine

section
variable {μ : Type} [Decoder μ] {heard : Bool} {s t : Computer μ}

/-- The bounded loop ends the same on boards that are alike. -/
theorem Attended.alike_stepNFrom (h : Twins (Board.Alike heard) s t)
    (spent n : Nat) :
    let after := stepNFrom spent n (⟨(), s⟩ : Attended Unit μ)
    let after' := stepNFrom spent n (⟨(), t⟩ : Attended Unit μ)
    after'.1 = after.1
      ∧ Twins (Board.Alike heard) after.2.computer after'.2.computer := by
  induction n generalizing s t spent with
  | zero => exact ⟨rfl, h⟩
  | succ n ih =>
    have hstop := h.board.lines.stop
    cases hs : s.board.lines.stop with
    | true =>
      rw [stepNFrom_stopped (s := ⟨(), s⟩) hs,
        stepNFrom_stopped (s := ⟨(), t⟩) (hstop.trans hs)]
      exact ⟨rfl, h⟩
    | false =>
      obtain ⟨hcycles, hnext⟩ := Exec.agree_step_lockstep h
      have hlatch : t.step.2.latch = s.step.2.latch :=
        congrArg Arena.fault hnext.board.arena
      rw [stepNFrom_unit hs, stepNFrom_unit (hstop.trans hs), hlatch]
      cases s.step.2.latch with
      | some fault => exact ⟨rfl, hnext.cpu, hnext.board.unlatched none⟩
      | none =>
        rw [show t.step.1 = s.step.1 from hcycles]
        exact ih hnext _

end

namespace Machine

variable {heard : Bool} {m m' : Machine}

/-- A call gives the same answer on machines that are alike, and leaves
them alike. -/
theorem Call.alike_perform
    (h : Twins (Board.Alike heard) m.computer m'.computer) (call : Call) :
    (call.perform m').1 = (call.perform m).1
      ∧ Twins (Board.Alike heard) (call.perform m).2.computer
        (call.perform m').2.computer := by
  obtain ⟨hcpu, hboard⟩ := h
  cases call with
  | step =>
    obtain ⟨hcycles, hnext⟩ := Exec.agree_step_lockstep ⟨hcpu, hboard⟩
    exact ⟨congrArg Answer.spent hcycles, hnext⟩
  | stepN n =>
    obtain ⟨hresult, hnext⟩ :=
      Attended.alike_stepNFrom ⟨hcpu, hboard⟩ 0 n
    exact ⟨congrArg Answer.ended hresult, hnext⟩
  | request channel => exact ⟨rfl, hcpu, hboard.request channel⟩
  | acknowledge channel => exact ⟨rfl, hcpu, hboard.acknowledge channel⟩
  | register reg v => exact ⟨rfl, hcpu, hboard.register _⟩
  | requestNmi =>
    exact ⟨rfl, hcpu, hboard.onLines fun hl => hl.raiseNmi⟩
  | input port =>
    have hvalue := congrArg (Banked.readPort · port) hboard.decoder
    exact ⟨congrArg Answer.byte hvalue, hcpu, hboard.afterInput port⟩
  | output port v => exact ⟨rfl, hcpu, hboard.writePort port v⟩
  | peek addr =>
    have hvalue := hboard.sameMemory.valueAt_eq addr
    exact ⟨congrArg Answer.byte hvalue, hcpu, hboard.afterRead addr⟩
  | poke addr v => exact ⟨rfl, hcpu, hboard.poke addr v⟩
  | pokeBlock addr bytes =>
    exact ⟨rfl, hcpu, hboard.pokeBlock addr bytes⟩

theorem alike_perform
    (h : Twins (Board.Alike heard) m.computer m'.computer)
    (calls : List Call) :
    (m'.perform calls).1 = (m.perform calls).1
      ∧ Twins (Board.Alike heard) (m.perform calls).2.computer
        (m'.perform calls).2.computer := by
  induction calls generalizing m m' with
  | nil => exact ⟨rfl, h⟩
  | cons call rest ih =>
    obtain ⟨hanswer, hnext⟩ := call.alike_perform h
    obtain ⟨hanswers, hlast⟩ := ih hnext
    exact ⟨congrArg₂ List.cons hanswer hanswers, hlast⟩

-- ============================================================== renewal

/-- Two machines that differ in nothing but their logs, their tick
sources, and the channel recorded on the maskable line. -/
structure SameButChannel (m m' : Machine) : Prop where
  /-- Registers, halted state, delayed enabling, cost, and the number of
  opcodes without a meaning. -/
  cpu : m'.computer.cpu = m.computer.cpu
  /-- The bytes of all regions, and the fault latch. -/
  arena : m'.computer.board.arena = m.computer.board.arena
  /-- Bank registers, port latches, dirty lines and filled slots. -/
  decoder : m'.computer.board.decoder = m.computer.board.decoder
  /-- The registers of the controller, and its requests. -/
  controller : m'.computer.board.controller = m.computer.board.controller
  irq : m'.computer.board.lines.irq = m.computer.board.lines.irq
  nmi : m'.computer.board.lines.nmi = m.computer.board.lines.nmi
  stop : m'.computer.board.lines.stop = m.computer.board.lines.stop

/-- What is alike differs in no more than the channel. -/
theorem sameButChannel_of_alike
    (h : Twins (Board.Alike heard) m.computer m'.computer) :
    SameButChannel m m' where
  cpu := h.cpu
  arena := h.board.arena
  decoder := h.board.decoder
  controller := h.board.controller
  irq := h.board.lines.irq
  nmi := h.board.lines.nmi
  stop := h.board.lines.stop

/-- A series of calls does not tell two machines apart. -/
structure Indistinct (m m' : Machine) (calls : List Call) : Prop where
  answers : (m'.perform calls).1 = (m.perform calls).1
  state : SameButChannel (m.perform calls).2 (m'.perform calls).2
  /-- Once the maskable line was asserted, the channel recorded on it is
  the same, too. -/
  channel (earlier : List Call) (hbegins : earlier <+: calls)
    (hup : (m.perform earlier).2.computer.board.lines.irq = true) :
    (m'.perform calls).2.computer.board.lines.channel
      = (m.perform calls).2.computer.board.lines.channel

/-- So no series of calls tells machines apart that are alike. -/
theorem indistinct_of_alike
    (h : Twins (Board.Alike false) m.computer m'.computer)
    (calls : List Call) : Indistinct m m' calls where
  answers := (alike_perform h calls).1
  state := sameButChannel_of_alike (alike_perform h calls).2
  channel := by
    rintro earlier ⟨later, rfl⟩ hup
    -- from here on the channel is among what is the same
    have hearlier := (alike_perform h earlier).2
    have hheard : Twins (Board.Alike true) _ _ :=
      ⟨hearlier.cpu, hearlier.board.hear hup⟩
    have hlater := (alike_perform hheard later).2
    rw [perform_append, perform_append]
    exact hlater.board.lines.channel (.inl rfl)

/-- A reset makes of a machine a new one with the old memory. Whatever
became of the machine before, as long as no fault is latched and no stop
requested: whichever calls follow the reset, they have the same answers
on the new machine and leave the two in the same state. -/
theorem reset_renews {config : MachineConfig} {log : Log} {m : Machine}
    (h : Driven config log m) (hfault : m.computer.latch = none)
    (hstop : m.computer.board.lines.stop = false) (log' : Log)
    (calls : List Call) :
    Indistinct m.reset (m.renewed log') calls :=
  indistinct_of_alike (alike_renewed log' h.built hfault hstop) calls

/-- A machine in use: banks switched, requests waiting and a non-maskable
interrupt raised, and then its maskable line lowered and raised again
past the controller. -/
def worn : Machine :=
  let m := new {} {}
  let events : List Event :=
    [.output 0x31 2, .output 0x5C 0, .request 3, .output 0xE4 7,
      .request 5, .raiseNmi]
  let used := { m with computer := after events m.computer }
  used.onBoard (·.onLines fun l => l.clearIrq.assertIrq 6)

/-- The channel on its line outlives the reset, so that the new machine
differs from it there until the line is asserted. -/
theorem reset_renews_worn :
    let calls : List Call :=
      [.request 4, .output 0x31 2, .stepN 2, .peek 0x8005]
    Driven {} {} worn
      ∧ worn.reset.computer.board.lines.channel = 6
      ∧ (worn.renewed {}).computer.board.lines.channel = 0
      ∧ (worn.reset.perform [.request 4]).2.computer.board.lines.irq
        = true
      ∧ Indistinct worn.reset (worn.renewed {}) calls := by
  intro calls
  have hdriven : Driven {} {} worn :=
    (Reached.new.after _).driven.lines _
  have hfault : worn.computer.latch = none := by decide +kernel
  have hstop : worn.computer.board.lines.stop = false := by
    decide +kernel
  exact ⟨hdriven, by decide +kernel, by decide +kernel, by decide +kernel,
    reset_renews hdriven hfault hstop {} calls⟩

end Machine
end HomeZ80
