/-
Run times. A run time is written as a number of seconds, with blanks
around it if need be. The number is the binary one nearest to what is
written; the span is that number to the nearest nanosecond, a half going
to the even one. It must be neither negative nor as large as 2 ^ 64
seconds.
-/
import HomeZ80.Number.Numeral
import HomeZ80.Text.Blank
import HomeZ80.Time.Duration

namespace HomeZ80

/-- Why a text is no run time. -/
inductive RunTimeError where
  | numeral (cause : Number.NumeralError)
  | negative
  /-- Too large, or not a number at all. -/
  | unbounded
  deriving DecidableEq, Repr, Inhabited

/-- What is wrong with a text that is no run time. -/
def RunTimeError.message : RunTimeError → String
  | .numeral cause => cause.message
  | .negative =>
    "cannot convert float seconds to Duration: value is negative"
  | .unbounded =>
    "cannot convert float seconds to Duration: "
      ++ "value is either too big or NaN"

namespace RunTime

/-- Spans of this many seconds and more are too long. -/
def limit : Nat := 1 <<< 64

/-- The span of a binary number of seconds, counted in units. -/
def ofUnits (units : Nat) : Except RunTimeError Duration :=
  if limit * Number.unitsPerOne ≤ units then .error .unbounded
  else
    .ok ⟨Number.roundDiv (units * Duration.nanosPerSecond)
      Number.unitsPerOne⟩

/-- The span of a numeral. A negative number that rounds to zero is no
longer negative. -/
def ofNumeral : Number.Numeral → Except RunTimeError Duration
  | .notANumber => .error .unbounded
  | .infinite negated =>
    .error (if negated then .negative else .unbounded)
  | .decimal negated digits exponent =>
    match Number.Numeral.magnitude digits exponent with
    | none => .error (if negated then .negative else .unbounded)
    | some units =>
      if negated && units != 0 then .error .negative
      else ofUnits units

/-- Read a run time. -/
def read (text : String) : Except RunTimeError Duration :=
  match Number.Numeral.read (Text.trim text.toList) with
  | .error cause => .error (.numeral cause)
  | .ok n => ofNumeral n

/-- What is reported of a text that is no run time. -/
def complaint (text : String) : String :=
  "invalid run time '" ++ text ++ "'"

end RunTime
end HomeZ80
