/-
Hexadecimal text: upper-case digits, either as many as the number needs
or padded with zeros to a given width. Messages print opcodes with two
digits, addresses with four and offsets with as many as it takes.
-/
namespace HomeZ80.Text

/-- A number in upper-case hexadecimal, without padding. -/
def hex (n : Nat) : String :=
  String.ofList ((Nat.toDigits 16 n).map Char.toUpper)

/-- A number in upper-case hexadecimal, padded with zeros to `width`
digits. -/
def hexPadded (width n : Nat) : String :=
  let digits := (Nat.toDigits 16 n).map Char.toUpper
  String.ofList (List.replicate (width - digits.length) '0' ++ digits)

/-- A byte in two hexadecimal digits. -/
def hexByte (v : UInt8) : String :=
  hexPadded 2 v.toNat

/-- A word in four hexadecimal digits. -/
def hexWord (v : UInt16) : String :=
  hexPadded 4 v.toNat

end HomeZ80.Text
