/-
Instructions, after decoding. An instruction says what is done and to
which operands; the bytes that follow its opcode (an immediate value, an
address, a displacement) are not part of it and are fetched when it is
executed. There are therefore finitely many instructions, and facts
about all of them can be decided.

Half of the instruction set exists three times: once for HL, and once
each for the index registers IX and IY, which then stand in for HL. A
`Role` says which of the three is meant, and the operand names carry it.
-/
import HomeZ80.Alu.Shift

namespace HomeZ80

/-- The register pair that plays the part of HL. -/
inductive Role where
  | hl | ix | iy
  deriving DecidableEq, Repr, Inhabited

namespace Role

def pair : Role → Reg16
  | .hl => .hl
  | .ix => .ix
  | .iy => .iy

def high : Role → Reg8
  | .hl => .h
  | .ix => .ixh
  | .iy => .iyh

def low : Role → Reg8
  | .hl => .l
  | .ix => .ixl
  | .iy => .iyl

end Role

/-- An eight-bit operand: a register, or the memory byte that the pair
points at. An index register points with a displacement, which follows
the opcode. -/
inductive Operand where
  | reg (name : Reg8)
  | mem (via : Role)
  deriving DecidableEq, Repr, Inhabited

/-- The eight operations of the accumulator, in the order of their
opcodes. -/
inductive AluOp where
  | add | adc | sub | sbc | and | xor | or | cp
  deriving DecidableEq, Repr, Inhabited

/-- The branch conditions, in the order of their opcodes. -/
inductive Condition where
  | nz | z | nc | c | po | pe | p | m
  deriving DecidableEq, Repr, Inhabited

/-- What one byte undergoes on the bit page of the opcodes. -/
inductive BitOp where
  | rotate (op : Rotation)
  | test (bit : Fin 8)
  | reset (bit : Fin 8)
  | set (bit : Fin 8)
  deriving DecidableEq, Repr, Inhabited

/-- The four kinds of block instruction. -/
inductive BlockOp where
  /-- Memory to memory. -/
  | copy
  /-- Memory against the accumulator. -/
  | compare
  /-- Port to memory. -/
  | input
  /-- Memory to port. -/
  | output
  deriving DecidableEq, Repr, Inhabited

/-- The registers that only the accumulator can be exchanged with. -/
inductive SpecialReg where
  | i | r
  deriving DecidableEq, Repr, Inhabited

inductive Instruction where
  | nop
  | halt
  | di
  | ei
  | im (mode : InterruptMode)
  -- byte loads
  | load (dst src : Operand)
  | loadByte (dst : Operand)
  | loadA (via : Reg16)
  | storeA (via : Reg16)
  | loadADirect
  | storeADirect
  | loadASpecial (src : SpecialReg)
  | storeASpecial (dst : SpecialReg)
  -- word loads
  | loadWord (dst : Reg16)
  | loadDirect (dst : Reg16)
  | storeDirect (src : Reg16)
  | loadSp (src : Reg16)
  | push (src : Reg16)
  | pop (dst : Reg16)
  -- exchanges
  | exAf
  | exx
  | exDeHl
  | exStack (reg : Reg16)
  -- byte arithmetic
  | alu (op : AluOp) (src : Operand)
  | aluByte (op : AluOp)
  | inc (target : Operand)
  | dec (target : Operand)
  | daa
  | cpl
  | scf
  | ccf
  | neg
  -- word arithmetic
  | incWord (reg : Reg16)
  | decWord (reg : Reg16)
  | addWord (dst src : Reg16)
  | adcHl (src : Reg16)
  | sbcHl (src : Reg16)
  -- rotates and bits
  | rotateA (op : Rotation)
  | digitsLeft
  | digitsRight
  | bits (op : BitOp) (target : Operand)
  -- jumps; without a condition they are always taken
  | jump (cond : Option Condition)
  | jumpTo (reg : Reg16)
  | jumpRelative (cond : Option Condition)
  | djnz
  | call (cond : Option Condition)
  | ret (cond : Option Condition)
  | retn
  | rst (target : Fin 8)
  -- ports
  | inA
  | outA
  /-- Without a register the byte read only sets flags. -/
  | inC (dst : Option Reg8)
  /-- Without a register zero is written. -/
  | outC (src : Option Reg8)
  -- blocks
  | block (op : BlockOp) (down repeats : Bool)
  /-- An opcode of the extended page that stands for nothing. -/
  | undefined (opcode : UInt8)
  deriving DecidableEq, Repr, Inhabited

end HomeZ80
