/-
Execution of one instruction. `execute` carries an instruction out and
returns the T-states it takes beyond its opcode fetches; each fetch takes
four more, which are counted where the fetch is made. With this split
an instruction costs the same whether or not an index register stands
in for HL, except for the displacement of a memory operand.

A memory operand is settled once, as a `Site`, before it is read: that
is when a displacement is fetched, so an operand that is read and
written back keeps its address.
-/
import HomeZ80.Alu.Arithmetic
import HomeZ80.Alu.Decimal
import HomeZ80.Alu.Logic
import HomeZ80.Cpu.Decode
import HomeZ80.Cpu.State

namespace HomeZ80

/-- Whether a condition holds of the flags. -/
def Condition.holds (f : Flags) : Condition → Bool
  | .nz => !f.z
  | .z => f.z
  | .nc => !f.c
  | .c => f.c
  | .po => !f.pv
  | .pe => f.pv
  | .p => !f.s
  | .m => f.s

/-- An operation of the accumulator: its new value and the flags. -/
def AluOp.apply (a v : UInt8) (carry : Bool) : AluOp → UInt8 × Flags
  | .add => Alu.add8 a v false
  | .adc => Alu.add8 a v carry
  | .sub => Alu.sub8 a v false
  | .sbc => Alu.sub8 a v carry
  | .and => Alu.and8 a v
  | .xor => Alu.xor8 a v
  | .or => Alu.or8 a v
  | .cp => (a, Alu.cp8 a v)

/-- A byte that can be read and written: a register or a memory
address. -/
inductive Site where
  | reg (name : Reg8)
  | cell (addr : UInt16)
  deriving DecidableEq, Repr, Inhabited

/-- Where a test of a byte takes bits 5 and 3 of the flags from: the
byte itself if it is in a register, or else the high byte of its
address. -/
def Site.shown (v : UInt8) : Site → UInt8
  | .reg _ => v
  | .cell addr => hiByte addr

namespace Exec

variable {μ : Type} [Decoder μ]

-- =========================================================== operands

/-- Settle an operand; a displacement is fetched here. -/
def site : Operand → Exec μ Site
  | .reg name => return .reg name
  | .mem .hl => return .cell (← get16 .hl)
  | .mem role => return .cell (← fetchDisplaced (← get16 role.pair))

def readSite : Site → Exec μ UInt8
  | .reg name => get8 name
  | .cell addr => peek addr

def writeSite (v : UInt8) : Site → Exec μ Unit
  | .reg name => set8 name v
  | .cell addr => poke addr v

/-- Whether a condition holds; no condition always does. -/
def taken : Option Condition → Exec μ Bool
  | none => return true
  | some cond => return cond.holds (← flags)

-- =================================================== accumulator, bits

/-- Apply an operation of the accumulator. -/
def alu (op : AluOp) (v : UInt8) : Exec μ Unit :=
  modifyRegs fun r =>
    let (a, f) := op.apply r.a v r.f.c
    { r with a, f }

/-- Apply an operation of the bit page to a site. A new value may also
be copied to a register. -/
def bits (op : BitOp) (target : Site) (copy : Option Reg8) :
    Exec μ Unit := do
  let v ← readSite target
  match op with
  | .test n =>
    setFlags (Alu.testBit n v (target.shown v) (← flags))
  | .rotate op =>
    let (result, f) := Alu.rotateShift op v (← flags).c
    setFlags f
    store result
  | .reset n => store (Alu.resetBit n v)
  | .set n => store (Alu.setBit n v)
where
  /-- Write the result back, and to the register named. -/
  store (result : UInt8) : Exec μ Unit := do
    writeSite result target
    match copy with
    | some name => set8 name result
    | none => return ()

-- ============================================================== blocks

/-- One further, in the direction of a block instruction. -/
@[inline] def advance (down : Bool) (addr : UInt16) : UInt16 :=
  if down then addr - 1 else addr + 1

/-- Flags after a byte was moved: bits 5 and 3 are bits 1 and 3 of `n`,
and overflow tells that BC has not run out. -/
def blockFlags (n : UInt8) (bc : UInt16) (f : Flags) : Flags :=
  { f with y := bitOf n 1, x := bitOf n 3, pv := bc != 0 }

/-- Flags after a byte went through a port. -/
def portFlags (b : UInt8) (f : Flags) : Flags :=
  { Flags.ofResult b with n := true, c := f.c }

/-- One round of a block instruction; tells whether a repeating one
goes on. -/
def blockRound (op : BlockOp) (down : Bool) : Exec μ Bool := do
  let hl ← get16 .hl
  match op with
  | .copy =>
    let de ← get16 .de
    let v ← peek hl
    poke de v
    set16 .hl (advance down hl)
    set16 .de (advance down de)
    let bc := (← get16 .bc) - 1
    set16 .bc bc
    modifyRegs fun r =>
      { r with f :=
          { blockFlags (v + r.a) bc r.f with h := false, n := false } }
    return bc != 0
  | .compare =>
    let v ← peek hl
    set16 .hl (advance down hl)
    let bc := (← get16 .bc) - 1
    set16 .bc bc
    let r ← regs
    let (result, f) := Alu.sub8 r.a v false
    let n := if f.h then result - 1 else result
    setFlags (blockFlags n bc { f with c := r.f.c })
    return bc != 0 && !f.z
  | .input =>
    let v ← readPort (← get8 .c)
    poke hl v
    set16 .hl (advance down hl)
    let b := (← get8 .b) - 1
    modifyRegs fun r => { r with b, f := portFlags b r.f }
    return b != 0
  | .output =>
    let v ← peek hl
    set16 .hl (advance down hl)
    let b := (← get8 .b) - 1
    writePort (← get8 .c) v
    modifyRegs fun r => { r with b, f := portFlags b r.f }
    return b != 0

-- ========================================================== all of them

/-- The part of a cost that depends on an operand: nothing for a
register, `inMemory` for the byte at HL, and eight more where the
address takes a displacement. -/
def operandCost (inMemory : Nat) : Operand → Nat
  | .reg _ => 0
  | .mem .hl => inMemory
  | .mem _ => inMemory + 8

/-- A cost that depends on the branch. -/
@[inline] def branchCost (taken : Bool) (yes no : Nat) : Nat :=
  if taken then yes else no

/-- Carry out an instruction. Returns the T-states beyond its opcode
fetches. -/
def execute : Instruction → Exec μ Nat
  | .nop => return 0
  | .halt => do
    let pc := (← get16 .pc) - 1
    set16 .pc pc
    modifyCpu ({ · with halted := true })
    note (.halted pc)
    return 0
  | .di => do
    modifyRegs ({ · with iff1 := false, iff2 := false })
    return 0
  | .ei => do
    modifyRegs ({ · with iff1 := true, iff2 := true })
    modifyCpu ({ · with eiDelay := true })
    return 0
  | .im mode => do
    modifyRegs ({ · with im := mode })
    return 0
  -- byte loads
  | .load dst src => do
    let dest ← site dst
    let v ← readSite (← site src)
    writeSite v dest
    return operandCost 3 dst + operandCost 3 src
  | .loadByte dst => do
    let dest ← site dst
    let v ← fetchByte
    writeSite v dest
    -- the value is fetched while the displacement is added
    return match dst with
      | .reg _ => 3
      | .mem .hl => 6
      | .mem _ => 11
  | .loadA via => do
    set8 .a (← peek (← get16 via))
    return 3
  | .storeA via => do
    poke (← get16 via) (← get8 .a)
    return 3
  | .loadADirect => do
    set8 .a (← peek (← fetchWord))
    return 9
  | .storeADirect => do
    poke (← fetchWord) (← get8 .a)
    return 9
  | .loadASpecial src => do
    modifyRegs fun r =>
      let v := match src with
        | .i => r.i
        | .r => r.r
      { r with a := v, f := Alu.loadedSpecial v r.iff2 r.f }
    return 1
  | .storeASpecial dst => do
    modifyRegs fun r =>
      match dst with
      | .i => { r with i := r.a }
      | .r => { r with r := r.a }
    return 1
  -- word loads
  | .loadWord dst => do
    set16 dst (← fetchWord)
    return 6
  | .loadDirect dst => do
    set16 dst (← peekWord (← fetchWord))
    return 12
  | .storeDirect src => do
    pokeWord (← fetchWord) (← get16 src)
    return 12
  | .loadSp src => do
    set16 .sp (← get16 src)
    return 2
  | .push src => do
    push (← get16 src)
    return 7
  | .pop dst => do
    set16 dst (← pop)
    return 6
  -- exchanges
  | .exAf => do
    modifyRegs (·.exAf)
    return 0
  | .exx => do
    modifyRegs (·.exx)
    return 0
  | .exDeHl => do
    modifyRegs (·.exDeHl)
    return 0
  | .exStack reg => do
    let sp ← get16 .sp
    let top ← peekWord sp
    pokeWord sp (← get16 reg)
    set16 reg top
    return 15
  -- byte arithmetic
  | .alu op src => do
    alu op (← readSite (← site src))
    return operandCost 3 src
  | .aluByte op => do
    alu op (← fetchByte)
    return 3
  | .inc target => do
    let dest ← site target
    let (v, f) := Alu.inc8 (← readSite dest) (← flags)
    writeSite v dest
    setFlags f
    return operandCost 7 target
  | .dec target => do
    let dest ← site target
    let (v, f) := Alu.dec8 (← readSite dest) (← flags)
    writeSite v dest
    setFlags f
    return operandCost 7 target
  | .daa => do
    modifyRegs fun r =>
      let (a, f) := Alu.daa r.a r.f
      { r with a, f }
    return 0
  | .cpl => do
    modifyRegs fun r =>
      let (a, f) := Alu.cpl r.a r.f
      { r with a, f }
    return 0
  | .scf => do
    modifyRegs fun r => { r with f := Alu.scf r.a r.f }
    return 0
  | .ccf => do
    modifyRegs fun r => { r with f := Alu.ccf r.a r.f }
    return 0
  | .neg => do
    modifyRegs fun r =>
      let (a, f) := Alu.neg r.a
      { r with a, f }
    return 0
  -- word arithmetic
  | .incWord reg => do
    set16 reg ((← get16 reg) + 1)
    return 2
  | .decWord reg => do
    set16 reg ((← get16 reg) - 1)
    return 2
  | .addWord dst src => do
    let (v, f) := Alu.add16 (← get16 dst) (← get16 src) (← flags)
    set16 dst v
    setFlags f
    return 7
  | .adcHl src => do
    let (v, f) := Alu.adc16 (← get16 .hl) (← get16 src) (← flags).c
    set16 .hl v
    setFlags f
    return 7
  | .sbcHl src => do
    let (v, f) := Alu.sbc16 (← get16 .hl) (← get16 src) (← flags).c
    set16 .hl v
    setFlags f
    return 7
  -- rotates and bits
  | .rotateA op => do
    modifyRegs fun r =>
      let (a, f) := Alu.rotateA op r.a r.f
      { r with a, f }
    return 0
  | .digitsLeft => do
    digits Alu.rld
    return 10
  | .digitsRight => do
    digits Alu.rrd
    return 10
  | .bits op target => do
    bits op (← site target) none
    return match op with
      | .test _ => operandCost 4 target
      | _ => operandCost 7 target
  -- jumps
  | .jump cond => do
    let target ← fetchWord
    if ← taken cond then set16 .pc target
    return 6
  | .jumpTo reg => do
    set16 .pc (← get16 reg)
    return 0
  | .jumpRelative cond => do
    let go ← taken cond
    jumpRelative go
    return branchCost go 8 3
  | .djnz => do
    let b := (← get8 .b) - 1
    set8 .b b
    jumpRelative (b != 0)
    return branchCost (b != 0) 9 4
  | .call cond => do
    let target ← fetchWord
    let go ← taken cond
    if go then call target
    return branchCost go 13 6
  | .ret none => do
    set16 .pc (← pop)
    return 6
  | .ret (some cond) => do
    let go := cond.holds (← flags)
    if go then set16 .pc (← pop)
    return branchCost go 7 1
  | .retn => do
    set16 .pc (← pop)
    modifyRegs fun r => { r with iff1 := r.iff2 }
    return 6
  | .rst target => do
    call (UInt16.ofNat (8 * target))
    return 7
  -- ports
  | .inA => do
    set8 .a (← readPort (← fetchByte))
    return 7
  | .outA => do
    writePort (← fetchByte) (← get8 .a)
    return 7
  | .inC dst => do
    let v ← readPort (← get8 .c)
    modifyRegs fun r => { r with f := Alu.loaded v r.f }
    match dst with
    | some name => set8 name v
    | none => pure ()
    return 4
  | .outC src => do
    let v ← match src with
      | some name => get8 name
      | none => pure 0
    writePort (← get8 .c) v
    return 4
  -- blocks
  | .block op down repeats => do
    let again ← blockRound op down
    if repeats && again then
      set16 .pc ((← get16 .pc) - 2)
      return 13
    else
      return 8
  | .undefined opcode => do
    let addr := (← get16 .pc) - 2
    modifyCpu fun c => { c with undefinedCount := c.undefinedCount + 1 }
    note (.undefinedOpcode opcode addr)
    return 0
where
  /-- Rotate a digit between the accumulator and the byte at HL. -/
  digits (rotate : UInt8 → UInt8 → Flags → UInt8 × UInt8 × Flags) :
      Exec μ Unit := do
    let addr ← get16 .hl
    let v ← peek addr
    let r ← regs
    let (a, v, f) := rotate r.a v r.f
    poke addr v
    modifyRegs fun r => { r with a, f }
  /-- Go to the displacement that comes next, or skip it. -/
  jumpRelative (go : Bool) : Exec μ Unit := do
    let d ← fetchByte
    if go then modifyRegs fun r => { r with pc := displace r.pc d }

-- =========================================================== opcodes

/-- An operation of the bit page on a displaced byte: the displacement
comes before the operation, which is not an opcode fetch, and a new
value is also copied to the register that the operation names. -/
def indexedBits (role : Role) : Exec μ Nat := do
  let addr ← fetchDisplaced (← get16 role.pair)
  let op ← fetchByte
  bits (Decode.bitOp op) (.cell addr)
    (Decode.register? (op.toNat % 8))
  return match Decode.bitOp op with
    | .test _ => 12
    | _ => 15

/-- The opcode after an index byte. One that leads to a page of its own
is left for the next step: the index byte then did nothing. -/
def indexed (role : Role) : Exec μ Nat := do
  let op ← fetchOpcode
  match Decode.main role op with
  | .instruction i => return 8 + (← execute i)
  | .bitPage => return 8 + (← indexedBits role)
  | .extendedPage | .indexPage _ =>
    modifyRegs fun r => { r.unrefresh with pc := r.pc - 1 }
    return 4

/-- Carry out the instruction that begins with an opcode byte, already
fetched. Returns its T-states, fetches included. -/
def opcode (op : UInt8) : Exec μ Nat := do
  match Decode.main .hl op with
  | .instruction i => return 4 + (← execute i)
  | .bitPage => return 8 + (← execute (Decode.bit (← fetchOpcode)))
  | .extendedPage =>
    return 8 + (← execute (Decode.extended (← fetchOpcode)))
  | .indexPage role => indexed role

end Exec
end HomeZ80
