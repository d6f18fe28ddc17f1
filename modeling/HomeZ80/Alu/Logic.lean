/-
Operations that work bit by bit: the three Boolean operations, the
complement, setting and clearing of carry, the test, set and reset of a
single bit, and the flags of a value that is merely loaded.
-/
import HomeZ80.Registers

namespace HomeZ80.Alu

def and8 (a v : UInt8) : UInt8 × Flags :=
  let result := a &&& v
  (result, { Flags.ofResultParity result with h := true })

def or8 (a v : UInt8) : UInt8 × Flags :=
  let result := a ||| v
  (result, Flags.ofResultParity result)

def xor8 (a v : UInt8) : UInt8 × Flags :=
  let result := a ^^^ v
  (result, Flags.ofResultParity result)

/-- Complement of the accumulator. -/
def cpl (a : UInt8) (f : Flags) : UInt8 × Flags :=
  let result := ~~~a
  (result, { f.copyXY result with h := true, n := true })

/-- Set carry; bits 5 and 3 come from the accumulator. -/
def scf (a : UInt8) (f : Flags) : Flags :=
  { f.copyXY a with h := false, n := false, c := true }

/-- Complement carry; half carry takes the old carry. -/
def ccf (a : UInt8) (f : Flags) : Flags :=
  { f.copyXY a with h := f.c, n := false, c := !f.c }

-- ======================================================= single bits

/-- Test of bit `n`. Bits 5 and 3 are copied from `source`, which is not
always the tested value; sign is set only by bit 7. -/
def testBit (n : Fin 8) (v source : UInt8) (f : Flags) : Flags :=
  let isSet := bitOf v n
  { ({} : Flags).copyXY source with
    s := n = 7 && isSet
    z := !isSet
    h := true
    pv := !isSet
    c := f.c }

/-- The byte with bit `n` set. -/
def setBit (n : Fin 8) (v : UInt8) : UInt8 :=
  v ||| (1 <<< UInt8.ofNat n)

/-- The byte with bit `n` clear. -/
def resetBit (n : Fin 8) (v : UInt8) : UInt8 :=
  v &&& ~~~(1 <<< UInt8.ofNat n)

-- ===================================================== loaded values

/-- Flags of a byte read from a port: its sign, zero and parity; carry
is kept. -/
def loaded (v : UInt8) (f : Flags) : Flags :=
  { Flags.ofResultParity v with c := f.c }

/-- Flags of a byte loaded from I or R: the interrupt flip-flop takes
the place of parity. -/
def loadedSpecial (v : UInt8) (iff2 : Bool) (f : Flags) : Flags :=
  { Flags.ofResult v with pv := iff2, c := f.c }

end HomeZ80.Alu
