/-
The board: everything on the bus besides the CPU. It carries the arena,
the interrupt lines, the controller and the timers, and the part that
differs from machine to machine: the decoder, which sends addresses to
places and ports to latches.

A decoder says where an access goes; the accesses themselves are the
same for all. A failed read gives 255 and a failed write stores nothing;
either way the fault is latched, and nothing stops by itself. A byte
stored by `poke` is announced to the decoder, which may keep track of
it; a block stored by `pokeBlock` is not. Reading a port gives a value
and may change the decoder as well (`readPort`, `afterInput`).

Words are little-endian, and their second byte lies at the next address
modulo 65536.
-/
import HomeZ80.Interrupt.Controller
import HomeZ80.Interrupt.Timer
import HomeZ80.Memory.Arena
import HomeZ80.Time.Clock

namespace HomeZ80

/-- The port latches: what was last written to each port, 255 at
power-on. -/
abbrev Ports := Vector UInt8 256

namespace Ports

def powerOn : Ports := Vector.replicate 256 255

@[inline] def latch (port : UInt8) (p : Ports) : UInt8 :=
  p.get ⟨port.toNat, port.toNat_lt⟩

@[inline] def setLatch (port v : UInt8) (p : Ports) : Ports :=
  p.set port.toNat v port.toNat_lt

end Ports

/-- Address and port decoding of one machine. -/
class Decoder (μ : Type) where
  /-- The place that an access at an address reaches. -/
  resolve : μ → Access → UInt16 → Except Fault Place
  /-- What there is to report when an access is resolved. -/
  remark : μ → Access → UInt16 → List Note := fun _ _ _ => []
  /-- The value that a port reads. -/
  readPort : μ → UInt8 → UInt8
  /-- The decoder after a port was read. -/
  afterInput : UInt8 → μ → μ := fun _ m => m
  /-- The decoder after a write to a port. -/
  writePort : UInt8 → UInt8 → μ → μ
  /-- What there is to report after a write to a port. -/
  portRemark : μ → UInt8 → List Note := fun _ _ => []
  /-- The register of the interrupt controller behind a port. -/
  controllerPort : μ → UInt8 → Option Controller.Port :=
    fun _ _ => none
  /-- The decoder after a byte was stored at an address. -/
  stored : UInt16 → μ → μ := fun _ m => m

/-- Everything on the bus besides the CPU. -/
structure Board (μ : Type) where
  arena : Arena
  decoder : μ
  lines : Lines := {}
  controller : Option Controller := none
  timers : List Timer := []
  log : Log := {}
  deriving Inhabited

namespace Board

variable {μ : Type}

/-- The board with further notes. -/
@[inline] def note (notes : List Note) (b : Board μ) : Board μ :=
  match notes with
  | [] => b
  | _ => { b with log := b.log.append notes }

/-- Report a fault and latch it, unless one is latched already. -/
def raise (fault : Fault) (b : Board μ) : Board μ :=
  { b with
    arena := b.arena.raise fault
    log := b.log.push (.busFault fault) }

/-- The latched fault, and the board with an empty latch. -/
@[inline] def takeFault (b : Board μ) : Option Fault × Board μ :=
  match b.arena.fault with
  | none => (none, b)
  | some fault => (some fault, { b with arena := b.arena.takeFault.2 })

-- ============================================================== memory

section
variable [Decoder μ]

/-- The place that an access reaches. -/
@[inline] def resolve (access : Access) (addr : UInt16)
    (b : Board μ) : Except Fault Place :=
  Decoder.resolve b.decoder access addr

/-- The board after the decoder reported on an access. -/
@[inline] def remarked (access : Access) (addr : UInt16)
    (b : Board μ) : Board μ :=
  if b.log.keeps then b.note (Decoder.remark b.decoder access addr)
  else b

/-- What a read of an address finds. -/
@[inline] def fetch (addr : UInt16) (b : Board μ) :
    Except Fault UInt8 :=
  match b.resolve .read addr with
  | .ok ⟨region, offset⟩ => b.arena.read ⟨region, offset⟩
  | .error fault => .error fault

/-- The place at which a write to an address would store. -/
@[inline] def target (addr : UInt16) (b : Board μ) :
    Except Fault Place :=
  match b.resolve .write addr with
  | .ok ⟨region, offset⟩ =>
    match b.arena.refusal? ⟨region, offset⟩ with
    | some fault => .error fault
    | none => .ok ⟨region, offset⟩
  | .error fault => .error fault

/-- The byte that a read of an address gives; a failed read gives
255. -/
def valueAt (addr : UInt16) (b : Board μ) : UInt8 :=
  match b.fetch addr with
  | .ok v => v
  | .error _ => 255

/-- Why a read of an address fails, if it does. -/
def failureAt (addr : UInt16) (b : Board μ) : Option Fault :=
  match b.fetch addr with
  | .ok _ => none
  | .error fault => some fault

/-- The board after a read of an address. -/
@[inline] def afterRead (addr : UInt16) (b : Board μ) : Board μ :=
  match b.failureAt addr with
  | none => b.remarked .read addr
  | some fault => (b.remarked .read addr).raise fault

/-- Read a byte. -/
@[inline] def peek (addr : UInt16) (b : Board μ) : UInt8 × Board μ :=
  (b.valueAt addr, b.afterRead addr)

/-- Store a byte at the place of an address, and announce it. -/
def store (addr : UInt16) (p : Place) (v : UInt8) (b : Board μ) :
    Board μ :=
  { b with
    arena := b.arena.put p v
    decoder := Decoder.stored addr b.decoder }

/-- Write a byte. -/
def poke (addr : UInt16) (v : UInt8) (b : Board μ) : Board μ :=
  match b.target addr with
  | .ok p => (b.remarked .write addr).store addr p v
  | .error fault => (b.remarked .write addr).raise fault

/-- Read a word. -/
def peekWord (addr : UInt16) (b : Board μ) : UInt16 × Board μ :=
  let (lo, b) := b.peek addr
  let (hi, b) := b.peek (addr + 1)
  (word hi lo, b)

/-- Write a word given by its bytes, the low one first. -/
def pokePair (addr : UInt16) (hi lo : UInt8) (b : Board μ) : Board μ :=
  (b.poke addr lo).poke (addr + 1) hi

/-- Write a word. -/
def pokeWord (addr v : UInt16) (b : Board μ) : Board μ :=
  b.pokePair addr (hiByte v) (loByte v)

/-- Store bytes at consecutive addresses modulo 65536, up to the first
that fails. -/
def pokeBlock (addr : UInt16) : List UInt8 → Board μ → Board μ
  | [], b => b
  | v :: rest, b =>
    match b.target addr with
    | .ok p =>
      let b := b.remarked .write addr
      pokeBlock (addr + 1) rest { b with arena := b.arena.put p v }
    | .error fault => (b.remarked .write addr).raise fault

-- =============================================================== ports

/-- The value that a port reads. -/
@[inline] def readPort (port : UInt8) (b : Board μ) : UInt8 :=
  Decoder.readPort b.decoder port

/-- The board after a port was read. -/
@[inline] def afterInput (port : UInt8) (b : Board μ) : Board μ :=
  { b with decoder := Decoder.afterInput port b.decoder }

/-- Write a port; a register of the interrupt controller may lie behind
it. -/
def writePort (port v : UInt8) (b : Board μ) : Board μ :=
  let decoder := Decoder.writePort port v b.decoder
  let b := ({ b with decoder } : Board μ).note
    (Decoder.portRemark decoder port)
  match Decoder.controllerPort b.decoder port with
  | some reg =>
    { b with controller := b.controller.map (·.writePort reg v) }
  | none => b

end

-- ========================================================== interrupts

/-- Act on the lines. -/
@[inline] def onLines (act : Lines → Lines) (b : Board μ) : Board μ :=
  { b with lines := act b.lines }

/-- Act on the controller and the lines, if there is a controller. -/
def onController
    (act : Controller.WithLines → Controller.WithLines × List Note)
    (b : Board μ) : Board μ :=
  match b.controller with
  | some c =>
    let (after, notes) := act ⟨c, b.lines⟩
    ({ b with
        controller := some after.controller
        lines := after.lines } : Board μ).note notes
  | none => b

/-- A request for a channel. -/
def request (channel : UInt8) : Board μ → Board μ :=
  onController (Controller.request channel)

/-- An acknowledgement of a channel. -/
def acknowledge (channel : UInt8) : Board μ → Board μ :=
  onController (Controller.acknowledge channel)

-- ============================================================== timers

/-- One tick of a timer, given by its number, if it runs. -/
def tick (number : Nat) (b : Board μ) : Board μ :=
  match b.timers[number]? with
  | some t => if t.running then b.request t.channel else b
  | none => b

/-- The board with a timer replaced. -/
def setTimer (number : Nat) (t : Timer) (b : Board μ) : Board μ :=
  { b with timers := b.timers.set number t }

/-- Start a timer, and set its alarm. -/
def startTimer (number : Nat) (clock : Clock) (b : Board μ) :
    Clock × Board μ :=
  match b.timers[number]? with
  | some t =>
    let (started, notes) := t.start
    (if t.starts then clock.set number t.period else clock,
      (b.setTimer number started).note notes)
  | none => (clock, b)

/-- Stop a timer, and wait for the end of its rest; the timers that
still run tick meanwhile. -/
def stopTimer (number : Nat) (clock : Clock) (b : Board μ) :
    Clock × Board μ :=
  match b.timers[number]? with
  | some t =>
    let (stopped, notes) := t.stop
    let (clock, b) := clock.finish tick number (b.setTimer number stopped)
    (clock, b.note notes)
  | none => (clock, b)

/-- Start all timers, in their order. -/
def startTimers (clock : Clock) (b : Board μ) : Clock × Board μ :=
  (List.range b.timers.length).foldl
    (fun (clock, b) number => b.startTimer number clock) (clock, b)

/-- Stop all timers, in their order. -/
def stopTimers (clock : Clock) (b : Board μ) : Clock × Board μ :=
  (List.range b.timers.length).foldl
    (fun (clock, b) number => b.stopTimer number clock) (clock, b)

-- =========================================================== attaching

/-- The slot of the lines among the devices of a board. -/
def linesSlot : Nat := 0

/-- The slot of the controller. -/
def controllerSlot : Nat := 1

/-- The number of devices registered: a board with a controller has it,
the lines and the timers. -/
def deviceCount (b : Board μ) : Nat :=
  match b.controller with
  | some _ => 2 + b.timers.length
  | none => 0

/-- Attach the timers in turn. -/
def attachTimers (b : Board μ) : Board μ :=
  let attached :=
    b.timers.map fun t => (t.key, t.attach (some controllerSlot))
  ({ b with timers := attached.map (·.2.1) } : Board μ).note
    (attached.flatMap fun t => .attaching t.1 :: t.2.2)

/-- Attach all devices: the lines, the controller and the timers. -/
def attachAll (b : Board μ) : Board μ :=
  match b.controller with
  | some c =>
    let (c, notes) := c.attach (some linesSlot)
    let b : Board μ :=
      { b with lines := b.lines.attach, controller := some c }
    (b.note
      (.attaching .lines :: .attaching .controller :: notes)).attachTimers
  | none => b

end Board
end HomeZ80
