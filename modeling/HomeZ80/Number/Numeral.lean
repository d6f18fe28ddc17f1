/-
Decimal numerals: an optional sign, digits with at most one point among
or beside them, and an optional exponent; or one of the words for an
infinite number and for no number, in any case of letters. Nothing may
stand before or after, and digits are those of ASCII alone.

A numeral is read exactly, as a number of units of a power of ten; only
`magnitude` rounds it to a binary number.
-/
import HomeZ80.Number.Rounding

namespace HomeZ80.Number

/-- A numeral that was read. -/
inductive Numeral where
  /-- `digits * 10 ^ exponent`, negated if so marked. -/
  | decimal (negated : Bool) (digits : Nat) (exponent : Int)
  | infinite (negated : Bool)
  | notANumber
  deriving DecidableEq, Repr, Inhabited

/-- Why a text is no numeral. -/
inductive NumeralError where
  | empty
  | malformed
  deriving DecidableEq, Repr, Inhabited

def NumeralError.message : NumeralError → String
  | .empty => "cannot parse float from empty string"
  | .malformed => "invalid float literal"

namespace Numeral

/-- The leading digits and what follows them. -/
def splitDigits (cs : List Char) : List Char × List Char :=
  (cs.takeWhile Char.isDigit, cs.dropWhile Char.isDigit)

/-- The value of digits. -/
def ofDigits (ds : List Char) : Nat :=
  ds.foldl (fun n d => 10 * n + (d.toNat - '0'.toNat)) 0

/-- The value of the digits of an exponent. Once it has reached 65536 it
stops growing, whatever digits follow. -/
def ofExponentDigits (ds : List Char) : Nat :=
  ds.foldl
    (fun n d => if n < 65536 then 10 * n + (d.toNat - '0'.toNat) else n)
    0

/-- A sign, if there is one, and what follows; `true` is minus. -/
def splitSign : List Char → Bool × List Char
  | '-' :: cs => (true, cs)
  | '+' :: cs => (false, cs)
  | cs => (false, cs)

/-- An exponent up to the end of the text; none counts as zero. -/
def exponent? : List Char → Option Int
  | [] => some 0
  | e :: cs =>
    if e = 'e' ∨ e = 'E' then
      let (negated, cs) := splitSign cs
      match splitDigits cs with
      | ([], _) | (_, _ :: _) => none
      | (ds, []) =>
        let n : Int := ofExponentDigits ds
        some (if negated then -n else n)
    else none

/-- The digits after the point, and what follows them. -/
def splitFraction : List Char → List Char × List Char
  | '.' :: cs => splitDigits cs
  | cs => ([], cs)

/-- A numeral without its sign, made of digits. -/
def decimal? (negated : Bool) (cs : List Char) : Option Numeral :=
  let (whole, cs) := splitDigits cs
  let (fraction, cs) := splitFraction cs
  match whole ++ fraction with
  | [] => none
  | ds => (exponent? cs).map fun e =>
    .decimal negated (ofDigits ds) (e - fraction.length)

/-- A numeral without its sign, made of letters. -/
def word? (negated : Bool) (cs : List Char) : Option Numeral :=
  match String.ofList (cs.map Char.toLower) with
  | "inf" | "infinity" => some (.infinite negated)
  | "nan" => some .notANumber
  | _ => none

/-- Read a numeral. -/
def read (cs : List Char) : Except NumeralError Numeral :=
  match cs with
  | [] => .error .empty
  | _ =>
    let (negated, rest) := splitSign cs
    match decimal? negated rest <|> word? negated rest with
    | some n => .ok n
    | none => .error .malformed

/-- The binary number nearest to `digits * 10 ^ exponent`, in units;
`none` if it is too large. Powers of ten far outside the range are not
worked out. -/
def magnitude (digits : Nat) (exponent : Int) : Option Nat :=
  let places : Int := (Nat.toDigits 10 digits).length
  if digits = 0 then some 0
  else if 400 < places + exponent then none
  else if places + exponent < -400 then some 0
  else
    let rounded :=
      roundBinary (digits * Nat.pow 10 exponent.toNat)
        (Nat.pow 10 (-exponent).toNat)
    if rounded < overflow then some rounded else none

end Numeral
end HomeZ80.Number
