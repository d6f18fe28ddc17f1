/-
The machine: a CPU on the bank-switched board, with the interrupt
controller and two tick sources. Resetting it returns the bank
registers, the devices and the CPU to power-on in this order; memory and
installed ROMs survive. A new machine is an unwired one that was reset
once.
-/
import HomeZ80.Board.Banked
import HomeZ80.Cpu.Session

namespace HomeZ80

/-- What can be chosen about a machine. -/
structure MachineConfig where
  /-- Ticks of the vertical retrace in a second. -/
  retraceRate : Nat := 60
  /-- Ticks of the real-time clock in a second. -/
  clockRate : Nat := 600
  /-- How long a halted CPU rests before it looks at its lines again. -/
  haltPoll : Duration := .ofMillis 1
  /-- Whether the tick sources run while the machine runs. -/
  timersEnabled : Bool := true
  deriving DecidableEq, Repr, Inhabited

/-- Why a machine refuses a request. -/
inductive MachineError where
  /-- There are only four extension pages. -/
  | noSuchPage (page : Nat)
  deriving DecidableEq, Repr, Inhabited

def MachineError.message : MachineError → String
  | .noSuchPage page =>
    s!"extension ROM page {page} does not exist (pages 0-3)"

/-- A machine. -/
structure Machine where
  config : MachineConfig
  computer : Computer Banked
  deriving Inhabited

namespace Machine

/-- The interrupt channel of the vertical retrace. -/
def retraceChannel : UInt8 := 1

/-- The interrupt channel of the real-time clock. -/
def clockChannel : UInt8 := 2

/-- The machine with further notes. -/
def note (n : Note) (m : Machine) : Machine :=
  { m with computer := m.computer.note n }

/-- Change the board. -/
def onBoard (f : Board Banked → Board Banked) (m : Machine) : Machine :=
  { m with computer.board := f m.computer.board }

-- =============================================================== reset

/-- Return bank registers, port latches and dirty lines to power-on. -/
def resetBanks (m : Machine) : Machine :=
  m.onBoard fun b => { b with decoder := b.decoder.reset }

/-- Reset: bank registers, then devices, then the CPU. -/
def reset (m : Machine) : Machine :=
  let m := m.resetBanks.onBoard (·.attachAll)
  let m := { m with computer.cpu := {} }
  m.note (.machineReset m.computer.board.deviceCount)

/-- The board of a machine before it is reset for the first time. -/
def unwired (config : MachineConfig) (log : Log) : Board Banked where
  arena := Banked.regions
  decoder := {}
  controller := some {}
  timers :=
    [.ofRate .retraceTimer retraceChannel config.retraceRate,
      .ofRate .clockTimer clockChannel config.clockRate]
  log := log

/-- A new machine, which reports to a log. -/
def new (config : MachineConfig) (log : Log) : Machine :=
  reset { config, computer := { board := unwired config log } }

-- =================================================== images and memory

/-- What there is to report about an installed ROM. -/
def installedNote (size : Nat) : Banked.Rom → Note
  | .n88 => .n88RomInstalled size
  | .nBasic => .nRomInstalled size
  | .ext page => .extRomInstalled page size

/-- Install a ROM. -/
def install (rom : Banked.Rom) (image : ByteArray) (m : Machine) :
    Machine :=
  (m.onBoard (Banked.install rom image)).note
    (installedNote image.size rom)

/-- Install an extension page given by its number. -/
def installPage (page : Nat) (image : ByteArray) (m : Machine) :
    Except MachineError Machine :=
  if h : page < 4 then .ok (m.install (.ext ⟨page, h⟩) image)
  else .error (.noSuchPage page)

/-- Copy bytes to whatever the bank registers map for writing. Marks no
picture line. Takes the fault latch. -/
def loadRam (addr : UInt16) (bytes : List UInt8) (m : Machine) :
    Except Fault Unit × Machine :=
  let m := m.onBoard (·.pokeBlock addr bytes)
  match m.computer.takeFault with
  | (some fault, computer) => (.error fault, { m with computer })
  | (none, computer) => (.ok (), { m with computer })

/-- Bytes of a video plane; there are three planes. -/
def plane? (plane : Nat) (m : Machine) : Option ByteArray :=
  if h : plane < 3 then
    some (m.computer.board.arena.contents (Banked.videoPlane ⟨plane, h⟩))
  else
    none

/-- The dirty picture lines, none of which is dirty afterwards. -/
def takeDirty (m : Machine) : List Nat × Machine :=
  let (lines, decoder) := m.computer.board.decoder.takeDirty
  (lines, { m with computer.board.decoder := decoder })

-- ============================================================= running

/-- One step. Returns the T-states spent. -/
def step (m : Machine) : Nat × Machine :=
  let (cycles, computer) := m.computer.step
  (cycles, { m with computer })

/-- Up to `n` steps. -/
def stepN (n : Nat) (m : Machine) : Except Fault Nat × Machine :=
  let (result, computer) := m.computer.stepN n
  (result, { m with computer })

/-- Request the non-maskable interrupt. -/
def requestNmi (m : Machine) : Machine :=
  m.onBoard (·.onLines (·.raiseNmi))

/-- Start the tick sources if the machine is to have them. -/
def startTimers (clock : Clock) (m : Machine) : Clock × Machine :=
  if m.config.timersEnabled then
    let (clock, board) := m.computer.board.startTimers clock
    (clock, { m with computer.board := board })
  else
    (clock, m)

/-- Stop the tick sources, and wait until they are still. -/
def stopTimers (clock : Clock) (m : Machine) : Machine :=
  m.onBoard fun b => (b.stopTimers clock).2

/-- The run loop in a session, for at most `limit` turns. -/
def runLoop (limit : Nat) (w : Session Banked) (m : Machine) :
    Option (Except Fault Unit × Session Banked × Machine) :=
  let s : Attended (Session Banked) Banked :=
    ⟨{ w with haltPoll := m.config.haltPoll }, m.computer⟩
  (s.run limit).map fun (result, s) =>
    (result, s.attendant, { m with computer := s.computer })

/-- Run until a stop is requested or the board faults, with the tick
sources running meanwhile. A tick is a whole request and comes between
two turns of the loop; for ticks that are cut up by what the CPU does see
`Machine.race`.

While the state of the machine comes back again and again, time passes
without steps (`Session.idle`). What is left at the end is therefore what
the steps that were carried out have left. In particular the cost of the
CPU, and its number of opcodes without a meaning, are those of these steps
and not of all that the run had time for. -/
def run (limit : Nat) (w : Session Banked) (m : Machine) :
    Option (Except Fault Unit × Session Banked × Machine) :=
  let (clock, m) := m.startTimers w.clock
  (m.runLoop limit { w with clock }).map fun (result, w, m) =>
    (result, w, m.stopTimers w.clock)

/-- A machine that ran by itself and was then collected. -/
structure Collected where
  result : Except Fault Unit
  session : Session Banked
  machine : Machine
  /-- Whether a stop had been requested when the run ended. -/
  stopped : Bool

/-- Let the machine run by itself until it ends, then collect it. A stop
request from before is dropped at the start, and one that is still there
at the end is dropped then. -/
def spawn (limit : Nat) (w : Session Banked) (nmi : Bool) (m : Machine) :
    Option Collected :=
  let (clock, m) :=
    (m.onBoard (·.onLines (·.clearStop))).startTimers w.clock
  let m := if nmi then m.requestNmi else m
  (m.runLoop limit { w with clock }).map fun (result, session, m) =>
    { result
      session
      stopped := m.computer.board.lines.stop
      machine :=
        (m.stopTimers session.clock).onBoard
          (·.onLines (·.clearStop)) }

end Machine
end HomeZ80
