/-
The states that a machine can come to when nobody waits: between runs its
controller is called by one party at a time, and during a run the tick
sources make their accesses while the CPU makes its own (`Raced`).

# What the line says there

While something is pending the line is up, in all of these states. That
the line is up only while something is pending is another matter. A tick
source that has added its channel and is overtaken before it passes it on
raises the line for a channel that the CPU has acknowledged in the
meantime, and if it writes its channel to the controller and to the line
while another request does so, the two need not agree
(`line_raised_late`). As long as no request overlaps another call neither
can happen, and with the tick sources switched off there is none that
could (`irq_of_pending`). A reset puts an end to what was before.
-/
import HomeZ80.Proofs.Machine.Race

namespace HomeZ80
namespace Machine

-- ================================================================= runs

/-- The machine at the start of a run, with its tick sources started. -/
def racing (m : Machine) : Race Banked where
  computer :=
    (m.startTimers {}).2.computer.note
      (.runEntered m.computer.cpu.regs.pc)

/-- A run along a schedule. It is over when the CPU has returned from the
loop and no request is in progress any more, because the tick sources are
waited for. -/
def race (schedule : List Race.Move) (m : Machine) :
    Option (Except Fault Unit × Machine) :=
  let t := schedule.foldl Race.act m.racing
  match t.phase, t.requests with
  | .returned result, [] =>
    some (result, ({ m with computer := t.computer } :
      Machine).stopTimers {})
  | _, _ => none

/-- The states that a machine comes to when it is built and then used in
any way that leaves the maskable line to the controller, and whether a
request of a tick source has overlapped another call since the last
reset. -/
inductive Raced (config : MachineConfig) (log : Log) :
    Bool → Machine → Prop
  | new : Raced config log false (new config log)
  | event {overlapped : Bool} {m : Machine} (e : Event) :
      Raced config log overlapped m →
      Raced config log overlapped { m with computer := e.act m.computer }
  | reset {overlapped : Bool} {m : Machine} :
      Raced config log overlapped m → Raced config log false m.reset
  | stepN {overlapped : Bool} {m : Machine} (n : Nat) :
      Raced config log overlapped m →
      Raced config log overlapped (m.stepN n).2
  | run {overlapped : Bool} {m m' : Machine} {schedule : List Race.Move}
      {result : Except Fault Unit}
      (hticks : config.timersEnabled = true
        ∨ ∀ move ∈ schedule, move.isRequest = false)
      (hrun : m.race schedule = some (result, m')) :
      Raced config log overlapped m →
      Raced config log (overlapped || !m.racing.apart schedule) m'

section
variable {config : MachineConfig} {log : Log} {overlapped : Bool}
  {m m' : Machine} {schedule : List Race.Move}
  {result : Except Fault Unit}

/-- Histories of whole events go on between the races. -/
theorem Raced.after (h : Raced config log overlapped m)
    (events : List Event) :
    Raced config log overlapped
      { m with computer := Machine.after events m.computer } := by
  induction events generalizing m with
  | nil => exact h
  | cons e rest ih => exact ih (h.event e)

/-- A run does not change what the machine was built from. -/
theorem config_run {limit : Nat} {w w' : Session Banked}
    (h : m.run limit w = some (result, w', m')) : m'.config = m.config := by
  obtain ⟨⟨_, _, m₁⟩, hloop, heq⟩ := Option.map_eq_some_iff.1 h
  cases heq
  obtain ⟨_, -, heq⟩ := Option.map_eq_some_iff.1 hloop
  cases heq
  show (m.startTimers w.clock).2.config = m.config
  unfold startTimers
  split <;> rfl

/-- Runs in which every tick comes as a whole between two turns are made
of events, and overlap nothing. -/
theorem Reached.raced (h : Reached config log m) :
    Raced config log false m := by
  induction h with
  | new => exact .new
  | event e _ ih => exact ih.event e
  | reset _ ih => exact ih.reset
  | stepN n _ ih => exact ih.stepN n
  | run hw hrun _ ih =>
    obtain ⟨events, hevents⟩ := leads_run hw hrun
    have hafter := ih.after events
    rw [← hevents, ← config_run hrun] at hafter
    exact hafter

-- =========================================================== invariants

/-- A run preserves what every access preserves. -/
theorem during_race {strict : Bool} {I : Controller.InFlight → Prop}
    (hI : Controller.InFlight.Kept strict I)
    (h : m.computer.board.During I [] none)
    (hrun : m.race schedule = some (result, m'))
    (ht : strict = true → m.racing.apart schedule = true) :
    m'.computer.board.During I [] none := by
  have hstarted := (leads_start {} m).during hI h
  have hracing : m.racing.Holds I :=
    hstarted.of_signals_eq hI (Board.signals_note _ _)
  have hraced := Race.holds_run hI hracing schedule ht
  unfold race at hrun
  dsimp only at hrun
  split at hrun
  · next hphase hrequests =>
    obtain ⟨-, rfl⟩ := Prod.mk.inj (Option.some.inj hrun)
    unfold Race.Holds at hraced
    rw [hphase, hrequests] at hraced
    exact (leads_stopTimers _ {} _).during hI hraced
  · cases hrun

/-- A reset brings about what holds of a controller at power-on. -/
theorem during_reset {I : Controller.InFlight → Prop}
    (hon : ∀ {s : Controller.WithLines}, s.PoweredOn → I ⟨s, [], none⟩)
    (h : m.computer.board.controller.isSome = true) :
    m.reset.computer.board.During I [] none := by
  obtain ⟨c, hc, hpowered⟩ :=
    Board.poweredOn_attachAll (b := m.resetBanks.computer.board) h
  refine ⟨c, (Board.note_controller _ _).trans hc, ?_⟩
  have hlines : m.reset.computer.board.lines
      = m.resetBanks.computer.board.attachAll.lines :=
    Board.note_lines _ _
  rw [hlines]
  exact hon hpowered

/-- There is a controller all along. -/
theorem Raced.exists_controller (h : Raced config log overlapped m) :
    m.computer.board.controller.isSome = true := by
  have hkept : Controller.InFlight.Kept false fun _ => True :=
    { same := fun _ _ _ _ _ _ => trivial, act := fun _ _ _ => trivial }
  suffices m.computer.board.During (fun _ => True) [] none by
    obtain ⟨c, hc, -⟩ := this
    rw [hc]
    rfl
  induction h with
  | new => exact during_reset (fun _ => trivial) rfl
  | event e _ ih => exact during_act hkept e ih
  | reset _ ih =>
    obtain ⟨c, hc, -⟩ := ih
    exact during_reset (fun _ => trivial) (by rw [hc]; rfl)
  | stepN n _ ih => exact (leads_stepN n _).during hkept ih
  | run _ hrun _ ih => exact during_race hkept ih hrun nofun

/-- In every state of a machine the controller and its lines are as every
access keeps them. What needs the calls apart holds as long as none has
been overlapped, and always if no tick source runs. -/
theorem Raced.during {strict : Bool} {I : Controller.InFlight → Prop}
    (hI : Controller.InFlight.Kept strict I)
    (hon : ∀ {s : Controller.WithLines}, s.PoweredOn → I ⟨s, [], none⟩)
    (h : Raced config log overlapped m)
    (ht : strict = true →
      overlapped = false ∨ config.timersEnabled = false) :
    m.computer.board.During I [] none := by
  induction h with
  | new => exact during_reset hon rfl
  | event e _ ih => exact during_act hI e (ih ht)
  | reset h _ => exact during_reset hon h.exists_controller
  | stepN n _ ih => exact (leads_stepN n _).during hI (ih ht)
  | run hticks hrun _ ih =>
    refine during_race hI (ih fun hs => ?_) hrun fun hs => ?_
    · rcases ht hs with hapart | hoff
      · exact .inl (Bool.or_eq_false_iff.1 hapart).1
      · exact .inr hoff
    · rcases ht hs with hapart | hoff
      · simpa using (Bool.or_eq_false_iff.1 hapart).2
      · rcases hticks with hon | hstill
        · rw [hoff] at hon
          cases hon
        · exact Race.apart_of_still rfl hstill

/-- In every state of a machine the maskable line is asserted if the
pending set has a member, and the current channel is one of the eight. As
long as no request of a tick source has overlapped another call since the
last reset, and always if the tick sources are switched off, the line is
asserted only if the pending set has a member, and the current channel is
then one of the members and the channel recorded on the line. -/
theorem irq_of_pending (h : Raced config log overlapped m) :
    ∃ c, m.computer.board.controller = some c
      ∧ (c.pending ≠ 0 → m.computer.board.lines.irq = true)
      ∧ c.current < 8
      ∧ (overlapped = false ∨ config.timersEnabled = false →
        (m.computer.board.lines.irq = true → c.pending ≠ 0)
          ∧ (c.pending ≠ 0 →
              c.isPending c.current = true
                ∧ c.current = m.computer.board.lines.channel)) := by
  obtain ⟨c, hc, hheard⟩ := h.during Controller.InFlight.kept_heard
    (fun hs => ⟨hs.wired, fun hne => absurd hs.pending hne⟩) nofun
  obtain ⟨c₁, hc₁, hbounded⟩ := h.during Controller.InFlight.kept_bounded
    (fun hs => ⟨by rw [hs.current]; decide, nofun, nofun⟩) nofun
  obtain rfl : c = c₁ := Option.some.inj (hc.symm.trans hc₁)
  refine ⟨c, hc, fun hne => ?_, hbounded.current, fun hapart => ?_⟩
  · rcases hheard.heard hne with hup | ⟨_, hr, -⟩ | ⟨_, ha, -⟩
    · exact hup
    · cases hr
    · cases ha
  · obtain ⟨c₂, hc₂, hsolo⟩ := h.during Controller.InFlight.kept_solo
      (fun hs => .still hs.coherent) fun _ => hapart
    obtain rfl : c = c₂ := Option.some.inj (hc.symm.trans hc₂)
    have hcoh := hsolo.coherent
    exact ⟨hcoh.asserted_iff.1, fun hne =>
      ⟨hcoh.current_pending hne, (hcoh.channel_eq hne).symm⟩⟩

end

-- ========================================================= three schedules

/-- A machine with all channels enabled. Its CPU accepts interrupts in
mode 0, and runs through a plane of zeros with an instruction at the
second address that enables them again. -/
def accepting : Machine :=
  let m := new {} {}
  let events : List Event :=
    [.output 0xE6 7, .output 0x5C 0, .poke 0xC001 0xFB,
      .setCpu
        { regs := { b := 0xC0, pc := 0xC000, iff1 := true, im := .im0 } }]
  { m with computer := after events m.computer }

theorem raced_accepting : Raced {} {} false accepting :=
  Raced.new.after _

/-- A request with nobody in between, as the newest one. -/
def wholly (channel : UInt8) : List Race.Move :=
  .request channel :: List.replicate 7 (.access 0)

/-- Channels 2 and 1 are requested, one after the other, and the CPU takes
the interrupt of channel 1. Then it is asked to stop. -/
def oneByOne : List Race.Move :=
  wholly 2 ++ wholly 1 ++ List.replicate 10 .cpu ++ [.requestStop, .cpu]

/-- The source of channel 2 is overtaken when it has added its channel.
The other source requests channel 1, and the CPU takes the interrupts of
both. -/
def overtaken : List Race.Move :=
  .request 2 :: List.replicate 4 (.access 0)
    ++ wholly 1 ++ List.replicate 19 .cpu

/-- The CPU is asked to stop, and the overtaken request is finished. -/
def late : List Race.Move :=
  overtaken ++ [.requestStop, .cpu] ++ List.replicate 3 (.access 0)

/-- The overtaken request is finished in the middle of another request of
channel 1. -/
def crossing : List Race.Move :=
  overtaken ++ .request 1 :: List.replicate 5 (.access 0)
    ++ List.replicate 3 (.access 1) ++ List.replicate 2 (.access 0)
    ++ [.requestStop, .cpu]

/-- After a run in which the calls were kept apart the line is up for the
channel that is left. -/
theorem irq_of_pending_oneByOne :
    ∃ result m, accepting.race oneByOne = some (result, m)
      ∧ Raced {} {} false m
      ∧ m.computer.board.lines.irq = true
      ∧ ∃ c, m.computer.board.controller = some c
        ∧ (c.pending ≠ 0 → m.computer.board.lines.irq = true)
        ∧ c.current < 8
        ∧ (m.computer.board.lines.irq = true → c.pending ≠ 0)
        ∧ (c.pending ≠ 0 →
            c.isPending c.current = true
              ∧ c.current = m.computer.board.lines.channel) := by
  have hup : (accepting.race oneByOne).any
      (·.2.computer.board.lines.irq) = true := by decide +kernel
  have hapart : accepting.racing.apart oneByOne = true := by
    decide +kernel
  obtain ⟨⟨result, m⟩, hrun, hup⟩ := (Option.any_eq_true _ _).1 hup
  have hraced := raced_accepting.run (.inl rfl) hrun
  rw [hapart] at hraced
  obtain ⟨c, hc, hheard, hknown, hconverse⟩ := irq_of_pending hraced
  exact ⟨result, m, hrun, hraced, hup, c, hc, hheard, hknown,
    hconverse (.inl rfl)⟩

/-- A request that was overtaken raises the line with nothing pending.
Finished in the middle of another one, it leaves a current channel that
is not pending and is not the channel recorded on the line. -/
theorem line_raised_late :
    (∃ result m, accepting.race late = some (result, m)
      ∧ Raced {} {} true m
      ∧ m.computer.board.lines.irq = true
      ∧ ∃ c, m.computer.board.controller = some c ∧ c.pending = 0)
    ∧ ∃ result m, accepting.race crossing = some (result, m)
      ∧ Raced {} {} true m
      ∧ ∃ c, m.computer.board.controller = some c
        ∧ c.pending ≠ 0
        ∧ c.isPending c.current = false
        ∧ c.current ≠ m.computer.board.lines.channel := by
  constructor
  · have hup : (accepting.race late).any (fun r =>
        r.2.computer.board.lines.irq
          && r.2.computer.board.controller.any (·.pending == 0))
        = true := by decide +kernel
    have hover : accepting.racing.apart late = false := by decide +kernel
    obtain ⟨⟨result, m⟩, hrun, hup⟩ := (Option.any_eq_true _ _).1 hup
    have hraced := raced_accepting.run (.inl rfl) hrun
    rw [hover] at hraced
    obtain ⟨hirq, hnone⟩ := Bool.and_eq_true_iff.1 hup
    obtain ⟨c, hc, hzero⟩ := (Option.any_eq_true _ _).1 hnone
    exact ⟨result, m, hrun, hraced, hirq, c, hc, beq_iff_eq.1 hzero⟩
  · have hleft : (accepting.race crossing).any (fun r =>
        r.2.computer.board.controller.any fun c =>
          c.pending != 0 && !c.isPending c.current
            && c.current != r.2.computer.board.lines.channel)
        = true := by decide +kernel
    have hover : accepting.racing.apart crossing = false := by
      decide +kernel
    obtain ⟨⟨result, m⟩, hrun, hleft⟩ := (Option.any_eq_true _ _).1 hleft
    have hraced := raced_accepting.run (.inl rfl) hrun
    rw [hover] at hraced
    obtain ⟨c, hc, hall⟩ := (Option.any_eq_true _ _).1 hleft
    simp only [Bool.and_eq_true, bne_iff_ne, Bool.not_eq_true'] at hall
    obtain ⟨⟨hne, hgone⟩, hdiffer⟩ := hall
    exact ⟨result, m, hrun, hraced, c, hc, hne, hgone, hdiffer⟩

end Machine
end HomeZ80
