/-
One step of the CPU: an instruction, or an idle cycle while it is
halted, and then the interrupt that is taken at the boundary, if any.

Which interrupt that is depends only on the lines, the controller and
the flip-flops (`accepted?`). The non-maskable one comes first and is
always taken; the maskable one needs the first flip-flop, and waits for
one more instruction after interrupts have been enabled. Taking either
ends the halted state, and the return address is then the instruction
after the halt.
-/
import HomeZ80.Cpu.Execute

namespace HomeZ80

/-- An interrupt that is taken. -/
inductive Entry where
  | nmi
  /-- A maskable interrupt, for the channel sampled at the boundary. -/
  | maskable (channel : UInt8)
  deriving DecidableEq, Repr, Inhabited

namespace Entry

/-- Where a non-maskable interrupt goes. -/
def nmiTarget : UInt16 := 0x0066

/-- Where a maskable interrupt goes in mode 1. -/
def im1Target : UInt16 := 0x0038

end Entry

namespace Computer

variable {μ : Type}

/-- The channel on whose behalf the maskable line is asserted: the
controller knows, and without one the lines do. -/
def requestedChannel (s : Computer μ) : UInt8 :=
  match s.board.controller with
  | some c => c.current
  | none => s.board.lines.channel

/-- The interrupt taken at an instruction boundary; `maskable` tells
whether a maskable one may be. -/
@[inline] def accepted? (maskable : Bool) (s : Computer μ) :
    Option Entry :=
  if s.board.lines.nmi then some .nmi
  else if maskable && s.cpu.regs.iff1 && s.board.lines.irq then
    some (.maskable s.requestedChannel)
  else
    none

/-- Whether the next boundary would take an interrupt. -/
@[inline] def interruptReady (s : Computer μ) : Bool :=
  s.board.lines.nmi || (s.cpu.regs.iff1 && s.board.lines.irq)

end Computer

namespace Exec

variable {μ : Type}

/-- End the halted state; the program counter moves past the
instruction that began it. -/
def leaveHalt : Exec μ Unit :=
  modifyCpu fun c =>
    if c.halted then
      { c with halted := false, regs.pc := c.regs.pc + 1 }
    else
      c

/-- Tell the source of a maskable interrupt that it was taken. -/
def acknowledge (channel : UInt8) : Exec μ Unit :=
  modifyBoard fun b =>
    match b.controller with
    | some _ => b.acknowledge channel
    | none => b.onLines (·.clearIrq)

variable [Decoder μ]

/-- Take the non-maskable interrupt. The first flip-flop is saved in
the second. -/
def enterNmi : Exec μ Nat := do
  modifyBoard (·.onLines (·.clearNmi))
  leaveHalt
  modifyRegs fun r => { r.refresh with iff2 := r.iff1, iff1 := false }
  let pc ← get16 .pc
  call Entry.nmiTarget
  note (.nmiTaken pc (← get16 .sp))
  return 11

/-- End the halted state, and accept no further interrupt. -/
def deafen : Exec μ Unit := do
  leaveHalt
  modifyRegs fun r => { r.refresh with iff1 := false, iff2 := false }

/-- Heed a maskable interrupt; its source is told first. -/
def heed (channel : UInt8) : Exec μ Unit := do
  acknowledge channel
  deafen

/-- Go where a channel leads. In mode 0 the low byte of the channel's
offset is carried out as an opcode; in mode 2 the offset selects an
entry of the table that register I points at. -/
def vector (channel : UInt8) : Exec μ Nat := do
  let r ← regs
  let offset := Controller.offsetOf channel
  match r.im with
  | .im0 =>
    note (.im0Taken channel (loByte offset) r.pc)
    return 2 + (← opcode (loByte offset))
  | .im1 =>
    call Entry.im1Target
    note (.im1Taken channel Entry.im1Target r.pc (← get16 .sp))
    return 13
  | .im2 =>
    let table := word r.i 0 ||| offset
    let target ← peekWord table
    call target
    note (.im2Taken channel table target r.pc (← get16 .sp))
    return 19

/-- Take a maskable interrupt. -/
def enterMaskable (channel : UInt8) : Exec μ Nat := do
  heed channel
  vector channel

/-- Take an interrupt. Returns the T-states of the entry. -/
def enter : Entry → Exec μ Nat
  | .nmi => enterNmi
  | .maskable channel => enterMaskable channel

/-- One instruction, or one idle cycle while halted. -/
@[inline] def instruct : Exec μ Nat := fun s =>
  if s.cpu.halted then
    (modifyRegs (·.refresh) s).map (fun _ => 4) id
  else
    (do opcode (← fetchOpcode) : Exec μ Nat) s

/-- The boundary after an instruction: the interrupt that is accepted is
taken. Returns the T-states of the entry, if there is one. -/
@[inline] def boundary : Exec μ Nat := fun s =>
  let maskable := !s.cpu.eiDelay
  let s := { s with cpu.eiDelay := false }
  match s.accepted? maskable with
  | some entry => enter entry s
  | none => (0, s)

/-- One step. Returns the T-states spent, which are also added to the
CPU's account. -/
@[inline] def step : Exec μ Nat := do
  let cycles := (← instruct) + (← boundary)
  modifyCpu fun c => { c with cost := c.cost + cycles }
  return cycles

end Exec
end HomeZ80
