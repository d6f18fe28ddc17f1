/-
Bank registers: the state that decides which storage an address of the
bank-switched machine reaches. Each write to one of its registers
depends on the value written alone, except that the text window can
also be stepped.
-/
namespace HomeZ80

/-- The BASIC ROM shown in the low half of the address space. -/
inductive BasicRom where
  | n88 | nBasic
  deriving DecidableEq, Repr, Inhabited

/-- The name of a ROM, as messages show it. -/
def BasicRom.name : BasicRom → String
  | .n88 => "N88"
  | .nBasic => "NBasic"

/-- There are four extension pages. -/
instance fourPages : @NeZero Nat Zero.ofOfNat0 4 := Nat.instNeZeroSucc

/-- The bank registers. -/
structure Bank where
  /-- The low half reads RAM. -/
  allRam : Bool := false
  /-- The ROM that the low half reads otherwise. -/
  rom : BasicRom := .n88
  /-- The extension page that covers the top quarter of the N88 ROM. -/
  extPage : Fin 4 := 0
  /-- Whether an extension page covers it at all. -/
  extEnabled : Bool := false
  /-- The video plane in the top quarter of the address space; `none`
  shows RAM there. -/
  plane : Option (Fin 3) := none
  /-- High byte of the RAM address seen through the text window. -/
  textWindow : UInt8 := 0
  deriving DecidableEq, Repr, Inhabited

namespace Bank

/-- Write of the memory mode: bit 1 selects RAM throughout, bit 2 the
N-BASIC ROM. -/
def writeMode (v : UInt8) (b : Bank) : Bank :=
  { b with
    allRam := v / 2 % 2 = 1
    rom := if v / 4 % 2 = 1 then .nBasic else .n88 }

/-- Write of the extension page: the low two bits choose it. -/
def writeExtPage (v : UInt8) (b : Bank) : Bank :=
  { b with extPage := Fin.ofNat 4 v.toNat }

/-- Write of the extension switch: a clear bit 0 turns it on. -/
def writeExtEnable (v : UInt8) (b : Bank) : Bank :=
  { b with extEnabled := v % 2 = 0 }

/-- Show a video plane in the top quarter, or RAM. -/
def selectPlane (plane : Option (Fin 3)) (b : Bank) : Bank :=
  { b with plane }

/-- Write of the text window. -/
def writeTextWindow (v : UInt8) (b : Bank) : Bank :=
  { b with textWindow := v }

/-- One page further with the text window. -/
def stepTextWindow (b : Bank) : Bank :=
  { b with textWindow := b.textWindow + 1 }

end Bank
end HomeZ80
