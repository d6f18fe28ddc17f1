/-
The register file. The main set is eight bytes, of which the second is
the flag register; the shadow set is four opaque words that are only
ever exchanged with the main set as a whole. `Reg8` and `Reg16` name
what a program or a debugger may read and write, and `get8`/`set8`,
`get16`/`set16` are the only way the rest of the library reaches a
register by name.

The refresh register counts opcode fetches in its low seven bits; bit 7
is whatever was last loaded.
-/
import HomeZ80.Flags

namespace HomeZ80

/-- How a maskable interrupt is acknowledged. -/
inductive InterruptMode where
  /-- Execute the opcode that the device supplies. -/
  | im0
  /-- Call a fixed address. -/
  | im1
  /-- Call through a table of vectors. -/
  | im2
  deriving DecidableEq, Repr, Inhabited

/-- The byte registers that have a name. -/
inductive Reg8 where
  | a | f | b | c | d | e | h | l | i | r | ixh | ixl | iyh | iyl
  deriving DecidableEq, Repr, Inhabited

/-- The word registers that have a name; the last four are the shadow
set. -/
inductive Reg16 where
  | af | bc | de | hl | sp | pc | ix | iy
  | afAlt | bcAlt | deAlt | hlAlt
  deriving DecidableEq, Repr, Inhabited

/-- The whole state of the register file. -/
structure Registers where
  a : UInt8 := 0
  f : Flags := {}
  b : UInt8 := 0
  c : UInt8 := 0
  d : UInt8 := 0
  e : UInt8 := 0
  h : UInt8 := 0
  l : UInt8 := 0
  /-- High byte of the interrupt vector table. -/
  i : UInt8 := 0
  /-- Refresh register. -/
  r : UInt8 := 0
  sp : UInt16 := 0
  pc : UInt16 := 0
  ix : UInt16 := 0
  iy : UInt16 := 0
  afAlt : UInt16 := 0
  bcAlt : UInt16 := 0
  deAlt : UInt16 := 0
  hlAlt : UInt16 := 0
  /-- Maskable interrupts are accepted. -/
  iff1 : Bool := false
  /-- What `iff1` returns to after a non-maskable interrupt. -/
  iff2 : Bool := false
  im : InterruptMode := .im2
  deriving DecidableEq, Repr, Inhabited

namespace Registers

/-- The registers after power-on or reset: all zero, both interrupt
flip-flops set, interrupt mode 2. -/
def powerOn : Registers :=
  { iff1 := true, iff2 := true, im := .im2 }

-- ==================================================== register pairs

@[inline] def af (r : Registers) : UInt16 := word r.a r.f.toByte
@[inline] def bc (r : Registers) : UInt16 := word r.b r.c
@[inline] def de (r : Registers) : UInt16 := word r.d r.e
@[inline] def hl (r : Registers) : UInt16 := word r.h r.l

@[inline] def setAf (v : UInt16) (r : Registers) : Registers :=
  { r with a := hiByte v, f := .ofByte (loByte v) }

@[inline] def setBc (v : UInt16) (r : Registers) : Registers :=
  { r with b := hiByte v, c := loByte v }

@[inline] def setDe (v : UInt16) (r : Registers) : Registers :=
  { r with d := hiByte v, e := loByte v }

@[inline] def setHl (v : UInt16) (r : Registers) : Registers :=
  { r with h := hiByte v, l := loByte v }

-- ================================================= registers by name

/-- The byte held in a named register. -/
def get8 (r : Registers) : Reg8 → UInt8
  | .a => r.a
  | .f => r.f.toByte
  | .b => r.b
  | .c => r.c
  | .d => r.d
  | .e => r.e
  | .h => r.h
  | .l => r.l
  | .i => r.i
  | .r => r.r
  | .ixh => hiByte r.ix
  | .ixl => loByte r.ix
  | .iyh => hiByte r.iy
  | .iyl => loByte r.iy

/-- The file with a named byte register set to `v`. -/
def set8 (reg : Reg8) (v : UInt8) (r : Registers) : Registers :=
  match reg with
  | .a => { r with a := v }
  | .f => { r with f := .ofByte v }
  | .b => { r with b := v }
  | .c => { r with c := v }
  | .d => { r with d := v }
  | .e => { r with e := v }
  | .h => { r with h := v }
  | .l => { r with l := v }
  | .i => { r with i := v }
  | .r => { r with r := v }
  | .ixh => { r with ix := word v (loByte r.ix) }
  | .ixl => { r with ix := word (hiByte r.ix) v }
  | .iyh => { r with iy := word v (loByte r.iy) }
  | .iyl => { r with iy := word (hiByte r.iy) v }

/-- The word held in a named register. -/
def get16 (r : Registers) : Reg16 → UInt16
  | .af => r.af
  | .bc => r.bc
  | .de => r.de
  | .hl => r.hl
  | .sp => r.sp
  | .pc => r.pc
  | .ix => r.ix
  | .iy => r.iy
  | .afAlt => r.afAlt
  | .bcAlt => r.bcAlt
  | .deAlt => r.deAlt
  | .hlAlt => r.hlAlt

/-- The file with a named word register set to `v`. -/
def set16 (reg : Reg16) (v : UInt16) (r : Registers) : Registers :=
  match reg with
  | .af => r.setAf v
  | .bc => r.setBc v
  | .de => r.setDe v
  | .hl => r.setHl v
  | .sp => { r with sp := v }
  | .pc => { r with pc := v }
  | .ix => { r with ix := v }
  | .iy => { r with iy := v }
  | .afAlt => { r with afAlt := v }
  | .bcAlt => { r with bcAlt := v }
  | .deAlt => { r with deAlt := v }
  | .hlAlt => { r with hlAlt := v }

-- ================================================ exchange, refresh

/-- Exchange AF with its shadow. -/
def exAf (r : Registers) : Registers :=
  { r.setAf r.afAlt with afAlt := r.af }

/-- Exchange BC, DE and HL with their shadows. -/
def exx (r : Registers) : Registers :=
  { ((r.setBc r.bcAlt).setDe r.deAlt).setHl r.hlAlt with
    bcAlt := r.bc, deAlt := r.de, hlAlt := r.hl }

/-- Exchange DE and HL. -/
def exDeHl (r : Registers) : Registers :=
  { r with d := r.h, e := r.l, h := r.d, l := r.e }

/-- One opcode fetch: the low seven bits of R count up, bit 7 stays. -/
@[inline] def refresh (r : Registers) : Registers :=
  { r with r := if r.r % 128 = 127 then r.r - 127 else r.r + 1 }

/-- Take back one opcode fetch, of a byte that will be fetched again. -/
@[inline] def unrefresh (r : Registers) : Registers :=
  { r with r := if r.r % 128 = 0 then r.r + 127 else r.r - 1 }

end Registers
end HomeZ80
