/-
The bank-switched board. Its address space has five parts:

  0000-5FFF  BASIC ROM when read, or RAM in all-RAM mode; RAM when
             written
  6000-7FFF  the same, except that an extension page may cover the
             N88 ROM
  8000-83FF  RAM seen through the text window, or RAM itself in all-RAM
             mode
  8400-BFFF  RAM
  C000-FFFF  a video plane, or RAM

The bank registers sit behind ports. Every port reads back what was
last written to it, except the text window, which reads its current
value.

A byte stored at C000 or above while a plane is shown marks the line of
the picture it lies in as dirty. A line is 80 bytes; the last 384 bytes
of a plane are not shown and mark nothing.
-/
import HomeZ80.Board.Basic

namespace HomeZ80

namespace Banked

-- ============================================================= regions

/-- The number of picture lines. -/
def lineCount : Nat := 200

/-- The number of bytes in a picture line. -/
def lineBytes : Nat := 80

def mainRam : Nat := 0
def n88Rom : Nat := 1
def nRom : Nat := 2

/-- The region of an extension page. -/
def extRom (page : Fin 4) : Nat := 3 + page

/-- The region of a video plane. -/
def videoPlane (plane : Fin 3) : Nat := 7 + plane

/-- All regions at power-on. -/
def regions : Arena :=
  ({} : Arena)
    |>.addRam "main-ram" 65536
    |>.addRom "n88-rom" 32768
    |>.addRom "n-rom" 32768
    |>.addRom "ext-rom-0" 8192
    |>.addRom "ext-rom-1" 8192
    |>.addRom "ext-rom-2" 8192
    |>.addRom "ext-rom-3" 8192
    |>.addRam "vram-0" 16384
    |>.addRam "vram-1" 16384
    |>.addRam "vram-2" 16384

end Banked

/-- Decoding of the bank-switched board. -/
structure Banked where
  bank : Bank := {}
  ports : Ports := .powerOn
  /-- Picture lines written to since they were last taken. -/
  dirty : Vector Bool Banked.lineCount := Vector.replicate _ false
  hasN88Rom : Bool := false
  hasNRom : Bool := false
  hasExtRom : Vector Bool 4 := Vector.replicate _ false
  deriving Inhabited, DecidableEq

namespace Banked

-- ========================================================== memory map

/-- The start of the extension page's range. -/
def extBase : UInt16 := 0x6000

/-- The start of the video range. -/
def videoBase : UInt16 := 0xC000

/-- Whether the extension page is shown at an address, or would be if
its slot were filled. -/
@[inline] def extSelected (m : Banked) (addr : UInt16) : Bool :=
  !m.bank.allRam && m.bank.rom == .n88 && m.bank.extEnabled
    && extBase ≤ addr && addr < 0x8000

/-- Whether the slot of the chosen extension page is filled. -/
@[inline] def extFilled (m : Banked) : Bool := m.hasExtRom[m.bank.extPage]

/-- Where a read in the low half goes. -/
@[inline] def readLow (m : Banked) (addr : UInt16) : Except Fault Place :=
  if m.bank.allRam then .ok ⟨mainRam, addr.toNat⟩
  else
    match m.bank.rom with
    | .nBasic =>
      if m.hasNRom then .ok ⟨nRom, addr.toNat⟩
      else .error (.unmapped addr .read)
    | .n88 =>
      if m.bank.extEnabled && extBase ≤ addr && m.extFilled then
        .ok ⟨extRom m.bank.extPage, addr.toNat - extBase.toNat⟩
      else if m.hasN88Rom then .ok ⟨n88Rom, addr.toNat⟩
      else .error (.unmapped addr .read)

/-- The RAM address seen through the text window. -/
@[inline] def windowed (m : Banked) (addr : UInt16) : UInt16 :=
  word m.bank.textWindow 0 + addr % 1024

/-- Where an access goes. -/
@[inline] def resolve (m : Banked) (access : Access) (addr : UInt16) :
    Except Fault Place :=
  if addr < 0x8000 then
    match access with
    | .read => m.readLow addr
    | .write => .ok ⟨mainRam, addr.toNat⟩
  else if addr < 0x8400 && !m.bank.allRam then
    .ok ⟨mainRam, (m.windowed addr).toNat⟩
  else if addr < videoBase then .ok ⟨mainRam, addr.toNat⟩
  else
    match m.bank.plane with
    | some plane =>
      .ok ⟨videoPlane plane, addr.toNat - videoBase.toNat⟩
    | none => .ok ⟨mainRam, addr.toNat⟩

/-- An empty extension slot that is selected is reported on every
read that it would serve. -/
def remark (m : Banked) (access : Access) (addr : UInt16) :
    List Note :=
  if access == .read && m.extSelected addr && !m.extFilled then
    [.extPageEmpty m.bank.extPage addr]
  else
    []

/-- The picture line of an address in the video range. -/
def lineOf (addr : UInt16) : Nat :=
  (addr.toNat - videoBase.toNat) / lineBytes

/-- A byte was stored: its line becomes dirty if it is shown. -/
def stored (addr : UInt16) (m : Banked) : Banked :=
  if addr < videoBase then m
  else
    match m.bank.plane with
    | some _ =>
      { m with dirty := m.dirty.setIfInBounds (lineOf addr) true }
    | none => m

/-- Whether a line is dirty. -/
def isDirty (line : Nat) (m : Banked) : Bool :=
  m.dirty[line]?.getD false

/-- The dirty lines in ascending order, and none dirty afterwards. -/
def takeDirty (m : Banked) : List Nat × Banked :=
  ((List.range lineCount).filter m.isDirty,
    { m with dirty := Vector.replicate _ false })

-- =============================================================== ports

/-- What the ports of the board stand for. -/
inductive PortRole where
  | memoryMode
  | extPage
  | plane (plane : Fin 3)
  | mainRam
  | textWindow
  | extEnable
  | textWindowStep
  | controller (reg : Controller.Port)
  /-- A latch and nothing more. -/
  | latch
  deriving DecidableEq, Repr, Inhabited

/-- The role of a port. -/
def portRole (port : UInt8) : PortRole :=
  match port with
  | 0x31 => .memoryMode
  | 0x32 => .extPage
  | 0x5C => .plane 0
  | 0x5D => .plane 1
  | 0x5E => .plane 2
  | 0x5F => .mainRam
  | 0x70 => .textWindow
  | 0x71 => .extEnable
  | 0x78 => .textWindowStep
  | 0xE4 => .controller .priority
  | 0xE6 => .controller .mask
  | _ => .latch

/-- The bank registers after a write in a role. -/
def PortRole.act (v : UInt8) (b : Bank) : PortRole → Bank
  | .memoryMode => b.writeMode v
  | .extPage => b.writeExtPage v
  | .plane p => b.selectPlane (some p)
  | .mainRam => b.selectPlane none
  | .textWindow => b.writeTextWindow v
  | .extEnable => b.writeExtEnable v
  | .textWindowStep => b.stepTextWindow
  | .controller _ | .latch => b

/-- What there is to report after a write in a role. -/
def PortRole.notes (b : Bank) : PortRole → List Note
  | .memoryMode => [.memoryMode b.allRam b.rom]
  | .extPage => [.extPage b.extPage]
  | .plane p => [.planeMapped p]
  | .mainRam => [.ramMapped]
  | .textWindow | .textWindowStep => [.textWindow b.textWindow]
  | .extEnable => [.extEnabled b.extEnabled]
  | .controller _ | .latch => []

/-- The value that a port reads. -/
def readPort (m : Banked) (port : UInt8) : UInt8 :=
  match portRole port with
  | .textWindow => m.bank.textWindow
  | _ => m.ports.latch port

/-- A write to a port: its latch takes the value, and the bank
registers follow the port's role. -/
def writePort (port v : UInt8) (m : Banked) : Banked :=
  { m with
    ports := m.ports.setLatch port v
    bank := (portRole port).act v m.bank }

/-- The controller register behind a port. -/
def controllerPort (port : UInt8) : Option Controller.Port :=
  match portRole port with
  | .controller reg => some reg
  | _ => none

instance : Decoder Banked where
  resolve := resolve
  remark := remark
  readPort := readPort
  writePort := writePort
  portRemark m port := (portRole port).notes m.bank
  controllerPort _ := controllerPort
  stored := stored

-- ==================================================== reset and images

/-- Bank registers, latches and dirty lines at power-on; installed ROMs
stay. -/
def reset (m : Banked) : Banked :=
  { m with
    bank := {}
    ports := .powerOn
    dirty := Vector.replicate _ false }

/-- A ROM that can be installed. -/
inductive Rom where
  | n88
  | nBasic
  | ext (page : Fin 4)
  deriving DecidableEq, Repr, Inhabited

/-- The region that holds a ROM. -/
def Rom.region : Rom → Nat
  | .n88 => n88Rom
  | .nBasic => nRom
  | .ext page => extRom page

/-- The decoder with a ROM marked as installed. -/
def installed (m : Banked) : Rom → Banked
  | .n88 => { m with hasN88Rom := true }
  | .nBasic => { m with hasNRom := true }
  | .ext page => { m with hasExtRom := m.hasExtRom.set page true }

/-- Install a ROM: its image goes to the start of its region. -/
def install (rom : Rom) (image : ByteArray) (b : Board Banked) :
    Board Banked :=
  let notes := b.arena.loadNotes rom.region image
  ({ b with
      arena := b.arena.load rom.region image
      decoder := b.decoder.installed rom } : Board Banked).note notes

end Banked
end HomeZ80
