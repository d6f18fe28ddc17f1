/-
Decoding. An opcode byte falls into three fields of two, three and three
bits; the first chooses a quarter of the table, the others an operation
and its operands within it. Four bytes are no instructions themselves
but lead to a further byte: one to the bit page, one to the extended
page, and two to the main page again with an index register in the
part of HL.

Decoding is a function of the opcode byte (and of the part of HL) alone,
it is total, and it never looks at the machine.
-/
import HomeZ80.Cpu.Instruction

namespace HomeZ80

/-- What an opcode byte stands for. -/
inductive Opcode where
  | instruction (i : Instruction)
  /-- The next byte is on the bit page. -/
  | bitPage
  /-- The next byte is on the extended page. -/
  | extendedPage
  /-- The next byte is on the main page, with another pair in the part
  of HL. -/
  | indexPage (role : Role)
  deriving DecidableEq, Repr, Inhabited

namespace Decode

-- ============================================================= operands

/-- The operand of a three-bit field. -/
def operand (role : Role) : Nat → Operand
  | 0 => .reg .b
  | 1 => .reg .c
  | 2 => .reg .d
  | 3 => .reg .e
  | 4 => .reg role.high
  | 5 => .reg role.low
  | 6 => .mem role
  | _ => .reg .a

/-- The register of a three-bit field; field 6 names none. -/
def register? (field : Nat) : Option Reg8 :=
  match operand .hl field with
  | .reg name => some name
  | .mem _ => none

/-- The pair of a two-bit field. -/
def pair (role : Role) : Nat → Reg16
  | 0 => .bc
  | 1 => .de
  | 2 => role.pair
  | _ => .sp

/-- The pair of a two-bit field where it is pushed or popped. -/
def stackPair (role : Role) : Nat → Reg16
  | 3 => .af
  | field => pair role field

def aluOp : Nat → AluOp
  | 0 => .add
  | 1 => .adc
  | 2 => .sub
  | 3 => .sbc
  | 4 => .and
  | 5 => .xor
  | 6 => .or
  | _ => .cp

def condition : Nat → Condition
  | 0 => .nz
  | 1 => .z
  | 2 => .nc
  | 3 => .c
  | 4 => .po
  | 5 => .pe
  | 6 => .p
  | _ => .m

def rotation : Nat → Rotation
  | 0 => .rlc
  | 1 => .rrc
  | 2 => .rl
  | 3 => .rr
  | 4 => .sla
  | 5 => .sra
  | 6 => .sll
  | _ => .srl

-- ============================================================ main page

/-- First quarter: loads of immediates, counting, and what is left
over. -/
def quarter0 (role : Role) (y z : Nat) : Instruction :=
  match z with
  | 0 =>
    match y with
    | 0 => .nop
    | 1 => .exAf
    | 2 => .djnz
    | 3 => .jumpRelative none
    | _ => .jumpRelative (some (condition (y - 4)))
  | 1 =>
    if y % 2 = 0 then .loadWord (pair role (y / 2))
    else .addWord role.pair (pair role (y / 2))
  | 2 =>
    match y with
    | 0 => .storeA .bc
    | 1 => .loadA .bc
    | 2 => .storeA .de
    | 3 => .loadA .de
    | 4 => .storeDirect role.pair
    | 5 => .loadDirect role.pair
    | 6 => .storeADirect
    | _ => .loadADirect
  | 3 =>
    if y % 2 = 0 then .incWord (pair role (y / 2))
    else .decWord (pair role (y / 2))
  | 4 => .inc (operand role y)
  | 5 => .dec (operand role y)
  | 6 => .loadByte (operand role y)
  | _ =>
    match y with
    | 4 => .daa
    | 5 => .cpl
    | 6 => .scf
    | 7 => .ccf
    | _ => .rotateA (rotation y)

/-- Second quarter: loads between operands. Where one of them is in
memory, the other is the real H or L even if an index register stands
in for HL. -/
def quarter1 (role : Role) (y z : Nat) : Instruction :=
  if y = 6 ∧ z = 6 then .halt
  else if y = 6 then .load (.mem role) (operand .hl z)
  else if z = 6 then .load (operand .hl y) (.mem role)
  else .load (operand role y) (operand role z)

/-- Last quarter: jumps, calls, the stack, immediates, and the bytes
that lead to other pages. -/
def quarter3 (role : Role) (y z : Nat) : Opcode :=
  match z with
  | 0 => .instruction (.ret (some (condition y)))
  | 1 =>
    match y with
    | 1 => .instruction (.ret none)
    | 3 => .instruction .exx
    | 5 => .instruction (.jumpTo role.pair)
    | 7 => .instruction (.loadSp role.pair)
    | _ => .instruction (.pop (stackPair role (y / 2)))
  | 2 => .instruction (.jump (some (condition y)))
  | 3 =>
    match y with
    | 0 => .instruction (.jump none)
    | 1 => .bitPage
    | 2 => .instruction .outA
    | 3 => .instruction .inA
    | 4 => .instruction (.exStack role.pair)
    | 5 => .instruction .exDeHl
    | 6 => .instruction .di
    | _ => .instruction .ei
  | 4 => .instruction (.call (some (condition y)))
  | 5 =>
    match y with
    | 1 => .instruction (.call none)
    | 3 => .indexPage .ix
    | 5 => .extendedPage
    | 7 => .indexPage .iy
    | _ => .instruction (.push (stackPair role (y / 2)))
  | 6 => .instruction (.aluByte (aluOp y))
  | _ => .instruction (.rst (Fin.ofNat 8 y))

/-- An opcode byte of the main page. -/
def main (role : Role) (op : UInt8) : Opcode :=
  let y := op.toNat / 8 % 8
  let z := op.toNat % 8
  match op.toNat / 64 with
  | 0 => .instruction (quarter0 role y z)
  | 1 => .instruction (quarter1 role y z)
  | 2 => .instruction (.alu (aluOp y) (operand role z))
  | _ => quarter3 role y z

-- ========================================================== other pages

/-- What a byte of the bit page does. -/
def bitOp (op : UInt8) : BitOp :=
  let y := op.toNat / 8 % 8
  match op.toNat / 64 with
  | 0 => .rotate (rotation y)
  | 1 => .test (Fin.ofNat 8 y)
  | 2 => .reset (Fin.ofNat 8 y)
  | _ => .set (Fin.ofNat 8 y)

/-- An opcode byte of the bit page. -/
def bit (op : UInt8) : Instruction :=
  .bits (bitOp op) (operand .hl (op.toNat % 8))

def interruptMode : Nat → InterruptMode
  | 2 => .im1
  | 3 => .im2
  | _ => .im0

/-- The second quarter of the extended page. -/
def extendedQuarter1 (op : UInt8) (y z : Nat) : Instruction :=
  match z with
  | 0 => .inC (register? y)
  | 1 => .outC (register? y)
  | 2 =>
    if y % 2 = 0 then .sbcHl (pair .hl (y / 2))
    else .adcHl (pair .hl (y / 2))
  | 3 =>
    if y % 2 = 0 then .storeDirect (pair .hl (y / 2))
    else .loadDirect (pair .hl (y / 2))
  | 4 => .neg
  | 5 => .retn
  | 6 => .im (interruptMode (y % 4))
  | _ =>
    match y with
    | 0 => .storeASpecial .i
    | 1 => .storeASpecial .r
    | 2 => .loadASpecial .i
    | 3 => .loadASpecial .r
    | 4 => .digitsRight
    | 5 => .digitsLeft
    | _ => .undefined op

def blockOp : Nat → BlockOp
  | 0 => .copy
  | 1 => .compare
  | 2 => .input
  | _ => .output

/-- An opcode byte of the extended page. -/
def extended (op : UInt8) : Instruction :=
  let y := op.toNat / 8 % 8
  let z := op.toNat % 8
  match op.toNat / 64 with
  | 1 => extendedQuarter1 op y z
  | 2 =>
    if 4 ≤ y ∧ z < 4 then .block (blockOp z) (y % 2 = 1) (6 ≤ y)
    else .undefined op
  | _ => .undefined op

end Decode
end HomeZ80
