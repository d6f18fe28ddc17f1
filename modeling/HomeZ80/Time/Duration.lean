/-
Spans of time, counted in nanoseconds, and their text. The text uses the
largest unit of which the span holds at least one, with the rest as
decimals and no trailing zeros: `16.666666ms`, `1s`, `250ns`.
-/
namespace HomeZ80

/-- A span of time. -/
structure Duration where
  nanos : Nat
  deriving DecidableEq, Repr, Inhabited, Ord

namespace Duration

/-- Nanoseconds in a second. -/
def nanosPerSecond : Nat := 1000000000

def ofMillis (n : Nat) : Duration := ⟨n * 1000000⟩

def ofSeconds (n : Nat) : Duration := ⟨n * nanosPerSecond⟩

/-- Whole seconds. -/
def seconds (d : Duration) : Nat := d.nanos / nanosPerSecond

/-- What is left beyond the whole seconds, in nanoseconds. -/
def subsecond (d : Duration) : Nat := d.nanos % nanosPerSecond

/-- The decimals of `rest / 10 ^ places`, without trailing zeros. -/
def decimals (places rest : Nat) : List Char :=
  let digits := Nat.toDigits 10 rest
  let padded := List.replicate (places - digits.length) '0' ++ digits
  (padded.reverse.dropWhile (· == '0')).reverse

/-- The span `d` in a unit of `10 ^ places` nanoseconds. -/
def inUnit (d : Duration) (places : Nat) (unit : String) : String :=
  let size := Nat.pow 10 places
  let whole := toString (d.nanos / size)
  match decimals places (d.nanos % size) with
  | [] => whole ++ unit
  | ds => whole ++ "." ++ String.ofList ds ++ unit

/-- The text of a span. -/
def text (d : Duration) : String :=
  if 1000000000 ≤ d.nanos then d.inUnit 9 "s"
  else if 1000000 ≤ d.nanos then d.inUnit 6 "ms"
  else if 1000 ≤ d.nanos then d.inUnit 3 "µs"
  else d.inUnit 0 "ns"

end Duration
end HomeZ80
