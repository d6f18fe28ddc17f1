/-
A clock with alarms. An alarm belongs to a source, given by its number,
and rings again and again at a fixed period. The alarms are kept in the
order in which they ring (`Alarm.place` keeps it), and of alarms due at
the same time the one placed first rings first.

Whoever rests for a span of time gets up a little after it has passed
(`overrun`). Alarms ring after such rests, so a period is never empty,
and only finitely many alarms ring in any time (`Clock.ringings`).
Setting an alarm takes a moment too (`settingTime`), which keeps sources
with equal periods from ringing at the same time.
-/
import HomeZ80.Time.Duration

namespace HomeZ80

/-- An alarm that rings again and again. Times are in nanoseconds. -/
structure Alarm where
  /-- The number of the source it belongs to. -/
  source : Nat
  /-- When it rings next. -/
  due : Nat
  /-- The time from one ringing to the next. -/
  period : Nat
  deriving DecidableEq, Repr, Inhabited

namespace Alarm

/-- The alarm after it rang. -/
def rung (a : Alarm) : Alarm := { a with due := a.due + a.period }

/-- Place an alarm among others, after all that ring no later. -/
def place (a : Alarm) : List Alarm → List Alarm
  | [] => [a]
  | b :: rest => if a.due < b.due then a :: b :: rest else b :: place a rest

/-- The alarms are those given and the one placed. -/
theorem place_perm (a : Alarm) (l : List Alarm) :
    (place a l).Perm (a :: l) := by
  induction l with
  | nil => exact .refl _
  | cons b rest ih =>
    unfold place
    split
    · exact .refl _
    · exact (ih.cons b).trans (.swap a b rest)

/-- Placing an alarm keeps the order in which alarms ring. -/
theorem place_pairwise (a : Alarm) {l : List Alarm}
    (h : l.Pairwise (·.due ≤ ·.due)) :
    (place a l).Pairwise (·.due ≤ ·.due) := by
  induction l with
  | nil => exact List.pairwise_singleton _ a
  | cons b rest ih =>
    obtain ⟨hb, hrest⟩ := List.pairwise_cons.1 h
    unfold place
    split
    · next hlt =>
      refine List.pairwise_cons.2 ⟨fun c hc => ?_, h⟩
      cases hc with
      | head => exact Nat.le_of_lt hlt
      | tail _ hc => exact Nat.le_trans (Nat.le_of_lt hlt) (hb c hc)
    · next hge =>
      refine List.pairwise_cons.2 ⟨fun c hc => ?_, ih hrest⟩
      cases (place_perm a rest).mem_iff.1 hc with
      | head => exact Nat.le_of_not_lt hge
      | tail _ hc => exact hb c hc

end Alarm

/-- The time, and the alarms in the order in which they ring. -/
structure Clock where
  now : Nat := 0
  alarms : List Alarm := []
  deriving DecidableEq, Repr, Inhabited

namespace Clock

/-- How late after its end a rest is over. -/
def overrun : Nat := 60000

/-- The time until a rest of a given length is over. -/
def rest (d : Duration) : Nat := d.nanos + overrun

/-- How long it takes to set an alarm. -/
def settingTime : Nat := 20000

/-- Set the alarm of a source; it rings first after one period. -/
def set (source : Nat) (period : Duration) (c : Clock) : Clock :=
  let now := c.now + settingTime
  let period := rest period
  let alarm : Alarm := ⟨source, now + period, period⟩
  ⟨now, alarm.place c.alarms⟩

/-- Clear the alarm of a source. -/
def clear (source : Nat) (c : Clock) : Clock :=
  { c with alarms := c.alarms.filter fun a => a.source != source }

/-- When the alarm of a source rings next. -/
def due? (source : Nat) (c : Clock) : Option Nat :=
  c.alarms.find? (fun a => a.source == source) |>.map (·.due)

/-- When any alarm rings next. -/
@[inline] def next? (c : Clock) : Option Nat :=
  match c.alarms with
  | [] => none
  | a :: _ => some a.due

-- ======================================================== passing time

/-- A number of times that alarms ring up to `t` at most: each alarm
rings at most once in a nanosecond. -/
def ringings (t : Nat) (c : Clock) : Nat := c.alarms.length * (t + 1)

/-- Let alarms ring up to `t`, up to a number of times. What happens
when the alarm of a source rings is given (`act`). -/
def ringUpTo {σ : Type} (act : Nat → σ → σ) (t : Nat) :
    Nat → List Alarm → σ → List Alarm × σ
  | n + 1, a :: rest, s =>
    if a.due ≤ t then ringUpTo act t n (a.rung.place rest) (act a.source s)
    else (a :: rest, s)
  | _, alarms, s => (alarms, s)

/-- Let the time come to `t`. -/
@[inline] def advance {σ : Type} (act : Nat → σ → σ) (t : Nat)
    (c : Clock) (s : σ) : Clock × σ :=
  let (alarms, s) := ringUpTo act t (c.ringings t) c.alarms s
  (⟨max c.now t, alarms⟩, s)

/-- Let the time come to the next ringing of a source, and clear its
alarm. -/
def finish {σ : Type} (act : Nat → σ → σ) (source : Nat) (c : Clock)
    (s : σ) : Clock × σ :=
  match c.due? source with
  | some due =>
    let (c, s) := c.advance act due s
    (c.clear source, s)
  | none => (c, s)

end Clock
end HomeZ80
