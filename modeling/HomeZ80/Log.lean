/-
What the machine reports about itself. A `Note` is one report: it keeps
what happened and the values involved, and has a level and a text. A
`Log` holds the notes in the order in which they were made, or none at
all when it is switched off.
-/
import HomeZ80.Device.Key
import HomeZ80.Memory.Bank
import HomeZ80.Memory.Fault
import HomeZ80.Time.Duration
import HomeZ80.Registers

namespace HomeZ80

/-- How much a note matters. -/
inductive Level where
  | error | warn | info | debug | trace
  deriving DecidableEq, Repr, Inhabited

/-- The name of a level. -/
def Level.name : Level → String
  | .error => "ERROR"
  | .warn => "WARN"
  | .info => "INFO"
  | .debug => "DEBUG"
  | .trace => "TRACE"

/-- One report. -/
inductive Note where
  -- memory
  | busFault (fault : Fault)
  | imageTruncated (given kept : Nat) (region : String)
  -- devices
  | attaching (key : DeviceKey)
  | controllerAlreadyWired
  | controllerWithoutLines
  | timerAlreadyWired (key : DeviceKey)
  | timerKeepsController (key : DeviceKey)
  | timerWithoutController (key : DeviceKey)
  | timerUnattached (key : DeviceKey)
  | timerStarted (key : DeviceKey) (channel : UInt8) (period : Duration)
  | timerStopped (key : DeviceKey)
  -- interrupt requests
  | channelMasked (channel : UInt8)
  | channelHeldOff (channel pending : UInt8)
  | channelAboveLevel (channel : UInt8)
  | channelUnheard (channel : UInt8)
  -- bank registers
  | memoryMode (allRam : Bool) (rom : BasicRom)
  | extPage (page : Nat)
  | extEnabled (on : Bool)
  | extPageEmpty (page : Nat) (addr : UInt16)
  | planeMapped (plane : Nat)
  | ramMapped
  | textWindow (page : UInt8)
  -- machine
  | machineReset (devices : Nat)
  | n88RomInstalled (size : Nat)
  | nRomInstalled (size : Nat)
  | extRomInstalled (page size : Nat)
  | runningFor (span : Duration)
  | stoppedEarly
  -- processor
  | fetching (regs : Registers)
  | undefinedOpcode (opcode : UInt8) (addr : UInt16)
  | halted (addr : UInt16)
  | nmiTaken (pc sp : UInt16)
  | im0Taken (channel opcode : UInt8) (pc : UInt16)
  | im1Taken (channel : UInt8) (vector pc sp : UInt16)
  | im2Taken (channel : UInt8) (table target pc sp : UInt16)
  | runEntered (pc : UInt16)
  | runStopped (pc : UInt16) (cost : Nat)
  | runFaulted (pc : UInt16) (fault : Fault)
  deriving Repr, Inhabited, DecidableEq

namespace Note

/-- How much a note matters. -/
def level : Note → Level
  | .busFault _ | .runFaulted .. => .error
  | .imageTruncated .. | .controllerWithoutLines
  | .timerKeepsController _ | .timerWithoutController _
  | .timerUnattached _ | .undefinedOpcode .. | .stoppedEarly => .warn
  | .machineReset _ | .n88RomInstalled _ | .nRomInstalled _
  | .extRomInstalled .. | .runningFor _ => .info
  | .attaching _ | .timerStarted .. | .timerStopped _
  | .memoryMode .. | .extPage _ | .extEnabled _ | .planeMapped _
  | .ramMapped | .textWindow _ | .nmiTaken .. | .im0Taken ..
  | .im1Taken .. | .im2Taken .. | .runEntered _ | .runStopped .. =>
    .debug
  | .controllerAlreadyWired | .timerAlreadyWired _
  | .channelMasked _ | .channelHeldOff .. | .channelAboveLevel _
  | .channelUnheard _ | .extPageEmpty .. | .fetching _
  | .halted _ => .trace

/-- A word as messages show it. -/
def hexOf (v : UInt16) : String := "0x" ++ Text.hexWord v

/-- A byte as messages show it. -/
def hexOfByte (v : UInt8) : String := "0x" ++ Text.hexByte v

/-- The text of a note. -/
def text : Note → String
  | .busFault fault => "bus fault: " ++ fault.message
  | .imageTruncated given kept region =>
    s!"image of {given} bytes truncated to {kept} for region `{region}`"
  | .attaching key => "attaching device " ++ key.name
  | .controllerAlreadyWired =>
    "interrupt controller already wired to the CPU"
  | .controllerWithoutLines =>
    "interrupt controller attached without CPU signal lines"
  | .timerAlreadyWired key =>
    key.name ++ " already wired to the interrupt controller"
  | .timerKeepsController key =>
    key.name
      ++ " keeps its first interrupt controller; re-attach ignored"
  | .timerWithoutController key =>
    key.name ++ " attached without an interrupt controller"
  | .timerUnattached key =>
    key.name ++ " started before attach; no interrupt controller"
  | .timerStarted key channel period =>
    s!"{key.name} started: channel {channel} every {period.text}"
  | .timerStopped key => key.name ++ " stopped"
  | .channelMasked channel => s!"interrupt channel {channel} masked"
  | .channelHeldOff channel pending =>
    s!"interrupt channel {channel} held off by pending "
      ++ hexOfByte pending
  | .channelAboveLevel channel =>
    s!"interrupt channel {channel} above compare level"
  | .channelUnheard channel =>
    s!"interrupt channel {channel} pending with no CPU attached"
  | .memoryMode allRam rom =>
    s!"memory mode: all_ram={allRam} rom={rom.name}"
  | .extPage page => s!"ext ROM page {page}"
  | .extEnabled on => s!"ext ROM enabled={on}"
  | .extPageEmpty page addr =>
    s!"ext ROM page {page} empty at " ++ hexOf addr
  | .planeMapped plane => s!"VRAM plane {plane} mapped"
  | .ramMapped => "main RAM mapped at 0xC000"
  | .textWindow page => "text window " ++ hexOfByte page ++ "00"
  | .machineReset devices => s!"machine reset ({devices} devices)"
  | .n88RomInstalled size => s!"N88 ROM installed ({size} bytes)"
  | .nRomInstalled size => s!"N ROM installed ({size} bytes)"
  | .extRomInstalled page size =>
    s!"extension ROM page {page} installed ({size} bytes)"
  | .runningFor span => "running for " ++ span.text
  | .stoppedEarly => "CPU thread stopped before the deadline"
  | .fetching r =>
    "PC=" ++ Text.hexWord r.pc ++ " AF=" ++ Text.hexWord r.af
      ++ " BC=" ++ Text.hexWord r.bc ++ " DE=" ++ Text.hexWord r.de
      ++ " HL=" ++ Text.hexWord r.hl ++ " SP=" ++ Text.hexWord r.sp
  | .undefinedOpcode opcode addr =>
    "unimplemented opcode ED " ++ Text.hexByte opcode ++ " at PC="
      ++ hexOf addr ++ ", treated as NOP"
  | .halted addr => "HALT at PC=" ++ hexOf addr
  | .nmiTaken pc sp =>
    "NMI taken: pc=" ++ hexOf pc ++ " sp=" ++ hexOf sp
  | .im0Taken channel opcode pc =>
    s!"IM0 interrupt: channel={channel} opcode="
      ++ hexOfByte opcode ++ " pc=" ++ hexOf pc
  | .im1Taken channel vector pc sp =>
    s!"IM1 interrupt: channel={channel} vector="
      ++ hexOf vector ++ " pc=" ++ hexOf pc ++ " sp=" ++ hexOf sp
  | .im2Taken channel table target pc sp =>
    s!"IM2 interrupt: channel={channel} table=" ++ hexOf table
      ++ " target=" ++ hexOf target ++ " pc=" ++ hexOf pc
      ++ " sp=" ++ hexOf sp
  | .runEntered pc => "CPU run loop entered at PC=" ++ hexOf pc
  | .runStopped pc cost =>
    "CPU stop requested at PC=" ++ hexOf pc
      ++ s!" after {cost} T-states"
  | .runFaulted pc fault =>
    "CPU halted on bus fault at PC=" ++ hexOf pc ++ ": "
      ++ fault.message

end Note

/-- The notes made so far, if they are kept at all. -/
structure Log where
  keeps : Bool := false
  notes : Array Note := #[]
  deriving Repr, Inhabited

namespace Log

/-- One more note. -/
def push (note : Note) (log : Log) : Log :=
  if log.keeps then { log with notes := log.notes.push note } else log

/-- Several more notes, in order. -/
def append (notes : List Note) (log : Log) : Log :=
  notes.foldl (fun l n => l.push n) log

end Log
end HomeZ80
