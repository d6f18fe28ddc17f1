/-
The CPU and the computer it is part of. A `Computer` is a CPU with a
board; what the CPU does is a computation `Exec` on it, and every
access to memory and ports is one of the few operations defined here.

Code is read through the program counter. An opcode byte counts as a
fetch for the refresh register; the bytes that follow it do not.
-/
import HomeZ80.Board.Basic

namespace HomeZ80

/-- The CPU, apart from what it is connected to. -/
structure Cpu where
  regs : Registers := .powerOn
  /-- The CPU waits for an interrupt, with the program counter on the
  instruction that stopped it. -/
  halted : Bool := false
  /-- The last instruction enabled interrupts, so that none is accepted
  before the next one is done. -/
  eiDelay : Bool := false
  /-- T-states spent since reset. A number without a bound; a step adds
  42 to it at most, so that 64 bits last for 2 ^ 58 steps. -/
  cost : Nat := 0
  /-- Opcodes without a meaning executed since reset, at most one for
  each step. -/
  undefinedCount : Nat := 0
  deriving DecidableEq, Repr, Inhabited

/-- A CPU on a board. -/
structure Computer (μ : Type) where
  cpu : Cpu := {}
  board : Board μ
  deriving Inhabited

/-- A computation of the CPU. -/
abbrev Exec (μ : Type) := StateM (Computer μ)

namespace Exec

variable {μ : Type}

/-- What follows a computation starts from its result and the computer
that it leaves. -/
theorem bind_apply {α β : Type} (m : Exec μ α) (f : α → Exec μ β)
    (s : Computer μ) : (m >>= f) s = f (m s).1 (m s).2 := rfl

/-- The registers. -/
@[inline] def regs : Exec μ Registers :=
  fun s => (s.cpu.regs, s)

/-- Change the registers. -/
@[inline] def modifyRegs (f : Registers → Registers) : Exec μ Unit :=
  fun s => ((), { s with cpu.regs := f s.cpu.regs })

/-- Change the CPU. -/
@[inline] def modifyCpu (f : Cpu → Cpu) : Exec μ Unit :=
  fun s => ((), { s with cpu := f s.cpu })

/-- Change the board. -/
@[inline] def modifyBoard (f : Board μ → Board μ) : Exec μ Unit :=
  fun s => ((), { s with board := f s.board })

/-- Make a note. -/
@[inline] def note (n : Note) : Exec μ Unit :=
  modifyBoard (·.note [n])

@[inline] def get8 (reg : Reg8) : Exec μ UInt8 :=
  fun s => (s.cpu.regs.get8 reg, s)

@[inline] def set8 (reg : Reg8) (v : UInt8) : Exec μ Unit :=
  modifyRegs (·.set8 reg v)

@[inline] def get16 (reg : Reg16) : Exec μ UInt16 :=
  fun s => (s.cpu.regs.get16 reg, s)

@[inline] def set16 (reg : Reg16) (v : UInt16) : Exec μ Unit :=
  modifyRegs (·.set16 reg v)

@[inline] def flags : Exec μ Flags :=
  fun s => (s.cpu.regs.f, s)

@[inline] def setFlags (f : Flags) : Exec μ Unit :=
  modifyRegs fun r => { r with f }

variable [Decoder μ]

-- ==================================================== memory and ports

/-- Read a byte of memory. -/
@[inline] def peek (addr : UInt16) : Exec μ UInt8 := fun s =>
  let (v, board) := s.board.peek addr
  (v, { s with board })

/-- Write a byte of memory. -/
@[inline] def poke (addr : UInt16) (v : UInt8) : Exec μ Unit :=
  modifyBoard (·.poke addr v)

/-- Read a word of memory. -/
def peekWord (addr : UInt16) : Exec μ UInt16 := fun s =>
  let (v, board) := s.board.peekWord addr
  (v, { s with board })

/-- Write a word of memory. -/
@[inline] def pokeWord (addr v : UInt16) : Exec μ Unit :=
  modifyBoard (·.pokeWord addr v)

/-- Read a port. -/
@[inline] def readPort (port : UInt8) : Exec μ UInt8 := fun s =>
  (s.board.readPort port, { s with board := s.board.afterInput port })

/-- Write a port. -/
@[inline] def writePort (port v : UInt8) : Exec μ Unit :=
  modifyBoard (·.writePort port v)

-- ================================================================ code

/-- The byte at the program counter, which moves past it. -/
@[inline] def fetchByte : Exec μ UInt8 := do
  let pc := (← regs).pc
  let v ← peek pc
  modifyRegs fun r => { r with pc := pc + 1 }
  return v

/-- The next opcode byte. -/
@[inline] def fetchOpcode : Exec μ UInt8 := do
  modifyRegs (·.refresh)
  fetchByte

/-- The next two bytes as a word, low byte first. -/
def fetchWord : Exec μ UInt16 := do
  let lo ← fetchByte
  let hi ← fetchByte
  return word hi lo

/-- An address moved by the displacement that comes next. -/
def fetchDisplaced (base : UInt16) : Exec μ UInt16 := do
  let d ← fetchByte
  return displace base d

-- =============================================================== stack

/-- Push a word. -/
def push (v : UInt16) : Exec μ Unit := do
  let sp ← get16 .sp
  set16 .sp (sp - 2)
  pokeWord (sp - 2) v

/-- Pop a word. -/
def pop : Exec μ UInt16 := do
  let sp ← get16 .sp
  let v ← peekWord sp
  set16 .sp (sp + 2)
  return v

/-- Push the program counter and go elsewhere. -/
def call (target : UInt16) : Exec μ Unit := do
  push (← get16 .pc)
  set16 .pc target

end Exec
end HomeZ80
