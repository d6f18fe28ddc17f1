/-
Histories: everything that can happen to a machine, as a list of
events. An event is the smallest thing that the owner of a machine can
do to it or that another party can do to its devices: a step, a request
or an acknowledgement of a channel, a register of the controller
written directly, an access to the bus from outside, and so on.

Not among the events is moving the maskable line itself. It belongs to
the controller, and only a script can go past the controller
(`CueAction.irq`); a session whose script does not is `Orderly.session`.

# Runs are histories

The bounded loop and the run loop do many things: they step, take
faults, call their attendant, let timers tick and watch a deadline. All
of these come down to events (`Leads`), so a fact that every event
preserves survives a run of any length, whatever the session around it
is like (`leads_stepN`, `leads_run`).
-/
import HomeZ80.Machine.Basic
import HomeZ80.Proofs.Cpu.Steps

namespace HomeZ80
namespace Machine

-- ============================================================== events

/-- What can happen to a machine. -/
inductive Event where
  | step
  /-- A channel is requested of the controller. -/
  | request (channel : UInt8)
  /-- A channel is acknowledged, but not by the CPU. -/
  | acknowledge (channel : UInt8)
  /-- A register of the controller is written directly. -/
  | register (reg : Controller.Port) (v : UInt8)
  | raiseNmi
  | clearNmi
  | requestStop
  | clearStop
  -- the bus, from outside the CPU
  | peek (addr : UInt16)
  | poke (addr : UInt16) (v : UInt8)
  | pokeBlock (addr : UInt16) (bytes : List UInt8)
  | output (port v : UInt8)
  | install (rom : Banked.Rom) (image : ByteArray)
  | resetBanks
  | takeDirty
  | takeFault
  /-- The registers or the other state of the CPU are set. -/
  | setCpu (cpu : Cpu)
  /-- Tick sources are started or stopped. -/
  | setTimers (timers : List Timer)
  | note (notes : List Note)

/-- The computer after an event. -/
def Event.act (s : Computer Banked) : Event → Computer Banked
  | .step => s.step.2
  | .request channel => s.onBoard (·.request channel)
  | .acknowledge channel => s.onBoard (·.acknowledge channel)
  | .register reg v => s.onBoard fun b =>
      { b with controller := b.controller.map (·.writePort reg v) }
  | .raiseNmi => s.onBoard (·.onLines (·.raiseNmi))
  | .clearNmi => s.onBoard (·.onLines (·.clearNmi))
  | .requestStop => s.onBoard (·.onLines (·.requestStop))
  | .clearStop => s.onBoard (·.onLines (·.clearStop))
  | .peek addr => s.onBoard (·.afterRead addr)
  | .poke addr v => s.onBoard (·.poke addr v)
  | .pokeBlock addr bytes => s.onBoard (·.pokeBlock addr bytes)
  | .output port v => s.onBoard (·.writePort port v)
  | .install rom image => s.onBoard (Banked.install rom image)
  | .resetBanks => s.onBoard fun b =>
      { b with decoder := b.decoder.reset }
  | .takeDirty => s.onBoard fun b =>
      { b with decoder := b.decoder.takeDirty.2 }
  | .takeFault => s.takeFault.2
  | .setCpu cpu => { s with cpu }
  | .setTimers timers => s.onBoard fun b => { b with timers }
  | .note notes => s.onBoard (·.note notes)

/-- The computer after a series of events, the first one first. -/
def after (events : List Event) (s : Computer Banked) :
    Computer Banked :=
  events.foldl Event.act s

@[simp] theorem after_nil (s : Computer Banked) : after [] s = s := rfl

@[simp] theorem after_cons (e : Event) (events : List Event)
    (s : Computer Banked) :
    after (e :: events) s = after events (e.act s) := rfl

theorem after_append (before events : List Event)
    (s : Computer Banked) :
    after (before ++ events) s = after events (after before s) :=
  List.foldl_append

-- ============================================================== leading

/-- One state leads to another if events make the second of the
first. -/
def Leads (s t : Computer Banked) : Prop :=
  ∃ events, t = after events s

namespace Leads

/-- No event at all leads to where one is. -/
theorem refl (s : Computer Banked) : Leads s s := ⟨[], rfl⟩

/-- One event leads to what it does. -/
theorem single (s : Computer Banked) (e : Event) :
    Leads s (e.act s) :=
  ⟨[e], rfl⟩

theorem trans {s t u : Computer Banked} (hst : Leads s t)
    (htu : Leads t u) : Leads s u := by
  obtain ⟨first, rfl⟩ := hst
  obtain ⟨second, rfl⟩ := htu
  exact ⟨first ++ second, (after_append first second s).symm⟩

/-- What every event preserves, a series of events preserves. -/
theorem preserves {P : Computer Banked → Prop}
    (hstep : ∀ (e : Event) s, P s → P (e.act s))
    {s t : Computer Banked} (h : Leads s t) (hs : P s) : P t := by
  obtain ⟨events, rfl⟩ := h
  induction events generalizing s with
  | nil => exact hs
  | cons e rest ih => exact ih (hstep e s hs)

end Leads

-- ============================================== timers and their clocks

section timers

variable (cpu : Cpu)

/-- A tick of a timer is a request, or nothing if it does not run. -/
theorem leads_tick (number : Nat) (b : Board Banked) :
    Leads ⟨cpu, b⟩ ⟨cpu, b.tick number⟩ := by
  unfold Board.tick
  split
  · next t _ =>
    split
    · exact .single ⟨cpu, b⟩ (.request t.channel)
    · exact .refl _
  · exact .refl _

/-- Alarms that ring are ticks of their timers. -/
theorem leads_ringUpTo (t n : Nat) (alarms : List Alarm)
    (b : Board Banked) :
    Leads ⟨cpu, b⟩
      ⟨cpu, (Clock.ringUpTo Board.tick t n alarms b).2⟩ := by
  induction n generalizing alarms b with
  | zero => exact .refl _
  | succ n ih =>
    cases alarms with
    | nil => exact .refl _
    | cons a rest =>
      unfold Clock.ringUpTo
      split
      · exact (leads_tick cpu a.source b).trans (ih _ _)
      · exact .refl _

/-- The time that passes is made of ticks. -/
theorem leads_advance (t : Nat) (clock : Clock) (b : Board Banked) :
    Leads ⟨cpu, b⟩ ⟨cpu, (clock.advance Board.tick t b).2⟩ :=
  leads_ringUpTo cpu t _ _ b

/-- Waiting for a tick source to end its rest is the ticks of the others,
which are requests. -/
theorem leads_finish (source : Nat) (clock : Clock)
    (b : Board Banked) :
    Leads ⟨cpu, b⟩ ⟨cpu, (clock.finish Board.tick source b).2⟩ := by
  unfold Clock.finish
  split
  · next due _ => exact leads_advance cpu due clock b
  · exact .refl _

/-- Starting a tick source is no more than its notes and its state. -/
theorem leads_startTimer (number : Nat) (clock : Clock)
    (b : Board Banked) :
    Leads ⟨cpu, b⟩ ⟨cpu, (b.startTimer number clock).2⟩ := by
  unfold Board.startTimer
  split
  · next t _ =>
    have hset : Leads ⟨cpu, b⟩ ⟨cpu, b.setTimer number t.start.1⟩ :=
      .single ⟨cpu, b⟩ (.setTimers (b.timers.set number t.start.1))
    exact hset.trans (.single _ (.note t.start.2))
  · exact .refl _

/-- Stopping one is that, and the ticks of the others meanwhile. -/
theorem leads_stopTimer (number : Nat) (clock : Clock)
    (b : Board Banked) :
    Leads ⟨cpu, b⟩ ⟨cpu, (b.stopTimer number clock).2⟩ := by
  unfold Board.stopTimer
  split
  · next t _ =>
    have hset : Leads ⟨cpu, b⟩ ⟨cpu, b.setTimer number t.stop.1⟩ :=
      .single ⟨cpu, b⟩ (.setTimers (b.timers.set number t.stop.1))
    have hrest := leads_finish cpu number clock
      (b.setTimer number t.stop.1)
    exact (hset.trans hrest).trans (.single _ (.note t.stop.2))
  · exact .refl _

/-- Doing something to a board for one number after the other leads
where each of the doings leads. -/
theorem leads_foldl
    {act : Clock × Board Banked → Nat → Clock × Board Banked}
    (hact : ∀ p number, Leads ⟨cpu, p.2⟩ ⟨cpu, (act p number).2⟩)
    (numbers : List Nat) (p : Clock × Board Banked) :
    Leads ⟨cpu, p.2⟩ ⟨cpu, (numbers.foldl act p).2⟩ := by
  induction numbers generalizing p with
  | nil => exact .refl _
  | cons number rest ih => exact (hact p number).trans (ih _)

theorem leads_startTimers (clock : Clock) (b : Board Banked) :
    Leads ⟨cpu, b⟩ ⟨cpu, (b.startTimers clock).2⟩ :=
  leads_foldl cpu (fun p number => leads_startTimer cpu number p.1 p.2)
    _ (clock, b)

/-- Stopping all timers is a series of events, with the ticks of those
that still run. -/
theorem leads_stopTimers (clock : Clock) (b : Board Banked) :
    Leads ⟨cpu, b⟩ ⟨cpu, (b.stopTimers clock).2⟩ :=
  leads_foldl cpu (fun p number => leads_stopTimer cpu number p.1 p.2)
    _ (clock, b)

end timers

-- =========================================================== attendants

/-- An attendant that acts on the board through events only, and whose
own state stays of a certain kind meanwhile. -/
structure Orderly {σ : Type} [Attendant σ Banked] (Kind : σ → Prop) :
    Prop where
  beforeFetch (cpu : Cpu) (r : Registers) (b : Board Banked) {a : σ}
    (ha : Kind a) :
    Kind (Attendant.beforeFetch r a b).1
      ∧ Leads ⟨cpu, b⟩ ⟨cpu, (Attendant.beforeFetch r a b).2⟩
  afterTurn (cpu : Cpu) (waits : Bool) (b : Board Banked) {a : σ}
    (ha : Kind a) :
    Kind (Attendant.afterTurn cpu waits a b).1
      ∧ Leads ⟨cpu, b⟩ ⟨cpu, (Attendant.afterTurn cpu waits a b).2⟩

/-- With nobody around the CPU there is nothing to be disorderly. -/
theorem Orderly.unit : Orderly fun _ : Unit => True where
  beforeFetch _ _ _ _ ha := ⟨ha, .refl _⟩
  afterTurn _ _ _ _ ha := ⟨ha, .refl _⟩

/-- A session that leaves the maskable line to the controller. -/
def LeavesLine (w : Session Banked) : Prop :=
  ∀ cue ∈ w.cues, ∀ channel, cue.action ≠ .irq channel

section sessions

variable (cpu : Cpu)

/-- Every cue is an event, unless it goes past the controller. -/
theorem leads_cue (b : Board Banked) {action : CueAction}
    (h : ∀ channel, action ≠ .irq channel) :
    Leads ⟨cpu, b⟩ ⟨cpu, action.act b⟩ := by
  cases action with
  | stop => exact .single ⟨cpu, b⟩ .requestStop
  | nmi => exact .single ⟨cpu, b⟩ .raiseNmi
  | irq channel => exact absurd rfl (h channel)
  | request channel => exact .single ⟨cpu, b⟩ (.request channel)

/-- Cues that do not assert the line past the controller are events like
any other. -/
theorem leads_cues (fetches : Nat) (b : Board Banked) {cues : List Cue}
    (h : ∀ cue ∈ cues, ∀ channel, cue.action ≠ .irq channel) :
    Leads ⟨cpu, b⟩ ⟨cpu, cues.foldl
      (fun b cue => if cue.fetch = fetches then cue.action.act b else b)
      b⟩ := by
  induction cues generalizing b with
  | nil => exact .refl _
  | cons cue rest ih =>
    have hrest := fun b => ih b fun c hc => h c (.tail _ hc)
    rw [List.foldl_cons]
    split
    · exact (leads_cue cpu b (h cue (.head _))).trans (hrest _)
    · exact hrest b

/-- When the deadline comes a stop is requested, or nothing happens. -/
theorem leads_observeDeadline (w : Session Banked)
    (b : Board Banked) :
    Leads ⟨cpu, b⟩ ⟨cpu, w.observeDeadline b⟩ := by
  unfold Session.observeDeadline
  split
  · split
    · exact .single ⟨cpu, b⟩ .requestStop
    · exact .refl _
  · exact .refl _

/-- A session with another clock or watch has the same script, and what
it does meanwhile is made of events. -/
def Passes (p q : Session Banked × Board Banked) : Prop :=
  q.1.cues = p.1.cues ∧ Leads ⟨cpu, p.2⟩ ⟨cpu, q.2⟩

theorem Passes.trans {p q r : Session Banked × Board Banked}
    (hpq : Passes cpu p q) (hqr : Passes cpu q r) : Passes cpu p r :=
  ⟨hqr.1.trans hpq.1, hpq.2.trans hqr.2⟩

/-- While time passes there are ticks, and maybe the deadline. -/
theorem passes_pass (t : Nat) (w : Session Banked) (b : Board Banked) :
    Passes cpu (w, b) (w.pass t b) := by
  have hboard := (leads_advance cpu t w.clock b).trans
    (leads_observeDeadline cpu
      { w with clock := (w.clock.advance Board.tick t b).1 } _)
  unfold Session.pass
  dsimp only
  split
  · exact ⟨rfl, hboard⟩
  · exact ⟨rfl, hboard⟩

/-- Idling is passing time, from event to event. -/
theorem passes_idle (n : Nat) (w : Session Banked)
    (b : Board Banked) : Passes cpu (w, b) (w.idle n b) := by
  induction n generalizing w b with
  | zero => exact ⟨rfl, .refl _⟩
  | succ n ih =>
    unfold Session.idle
    split
    · next t _ =>
      dsimp only
      split
      · exact (passes_pass cpu t w b).trans cpu (ih _ _)
      · exact passes_pass cpu t w b
    · exact ⟨rfl, .refl _⟩

/-- All that a session does after a turn is to let time pass. -/
theorem passes_afterTurn (waits : Bool) (w : Session Banked)
    (b : Board Banked) : Passes cpu (w, b) (w.afterTurn cpu waits b) := by
  -- whatever becomes of clock and watch, the board waits at most
  have hrest : ∀ w' : Session Banked, w'.cues = w.cues →
      Passes cpu (w, b) (w', b) := fun _ h => ⟨h, .refl _⟩
  unfold Session.afterTurn
  dsimp only
  split
  · exact passes_pass cpu _ w b
  · split
    · split
      · exact hrest _ rfl
      · exact (hrest _ rfl).trans cpu (passes_idle cpu _ _ b)
    · split
      · split
        · exact (hrest _ rfl).trans cpu (passes_idle cpu _ _ b)
        · exact hrest _ rfl
      · split
        · exact hrest _ rfl
        · exact hrest _ rfl

end sessions

/-- A session is orderly unless its script goes past the controller. -/
theorem Orderly.session : Orderly LeavesLine where
  beforeFetch cpu r b w hw := by
    refine ⟨hw, ?_⟩
    show Leads ⟨cpu, b⟩ ⟨cpu, (w.beforeFetch r b).2⟩
    have hnote : Leads ⟨cpu, b⟩
        ⟨cpu, if w.notesFetches then b.note [.fetching r] else b⟩ := by
      split
      · exact .single ⟨cpu, b⟩ (.note [.fetching r])
      · exact .refl _
    exact hnote.trans (leads_cues cpu (w.fetches + 1) _ hw)
  afterTurn cpu waits b w hw := by
    obtain ⟨hcues, hleads⟩ := passes_afterTurn cpu waits w b
    refine ⟨?_, hleads⟩
    show ∀ cue ∈ (w.afterTurn cpu waits b).1.cues, _
    rw [hcues]
    exact hw

-- ================================================================ loops

section loops

variable {σ : Type} [Attendant σ Banked] {Kind : σ → Prop}

/-- What a stretch of a loop does to a computer and its attendant. -/
def Stretch (Kind : σ → Prop) (s t : Attended σ Banked) : Prop :=
  Kind t.attendant ∧ Leads s.computer t.computer

/-- What happens before a fetch is a piece of history. -/
theorem Orderly.beforeStep (ho : Orderly Kind) {s : Attended σ Banked}
    (hs : Kind s.attendant) : Stretch Kind s s.beforeStep := by
  unfold Attended.beforeStep
  dsimp only
  split
  · exact ⟨hs, .refl _⟩
  · exact ho.beforeFetch _ _ _ hs

theorem Orderly.step (ho : Orderly Kind) {s : Attended σ Banked}
    (hs : Kind s.attendant) : Stretch Kind s s.step.2 := by
  obtain ⟨hkind, hleads⟩ := ho.beforeStep hs
  exact ⟨hkind, hleads.trans (.single _ .step)⟩

/-- The bounded loop of any length is a series of events. -/
theorem Orderly.stepNFrom (ho : Orderly Kind) (spent n : Nat)
    {s : Attended σ Banked} (hs : Kind s.attendant) :
    Stretch Kind s (s.stepNFrom spent n).2 := by
  induction n generalizing spent s with
  | zero => exact ⟨hs, .refl _⟩
  | succ n ih =>
    unfold Attended.stepNFrom
    split
    · exact ⟨hs, .refl _⟩
    · obtain ⟨hkind, hleads⟩ := ho.step hs
      have hfault := hleads.trans (.single _ .takeFault)
      dsimp only
      split
      · next heq =>
        refine ⟨hkind, ?_⟩
        rw [Event.act, heq] at hfault
        exact hfault
      · next c heq =>
        rw [Event.act, heq] at hfault
        have hmore : Stretch Kind ⟨s.step.2.attendant, c⟩ _ :=
          ih (spent + s.step.1) hkind
        exact ⟨hmore.1, hfault.trans hmore.2⟩

/-- How a turn may leave the run loop. -/
def TurnLeads (Kind : σ → Prop) (s : Attended σ Banked) :
    Attended.Turn σ Banked → Prop
  | .ended _ t => Stretch Kind s t
  | .further t => Stretch Kind s t

/-- A turn of the run loop is a series of events, whether it ends the run
or not. -/
theorem Orderly.turn (ho : Orderly Kind) {s : Attended σ Banked}
    (hs : Kind s.attendant) : TurnLeads Kind s s.turn := by
  unfold Attended.turn
  split
  · exact ⟨hs, .single _ (.note _)⟩
  · obtain ⟨hkind, hleads⟩ := ho.step hs
    have hfault := hleads.trans (.single _ .takeFault)
    dsimp only
    split
    · next heq =>
      rw [Event.act, heq] at hfault
      exact ⟨hkind, hfault.trans (.single _ (.note _))⟩
    · next heq =>
      rw [Event.act, heq] at hfault
      obtain ⟨hkind', hafter⟩ := ho.afterTurn _ _ _ hkind
      exact ⟨hkind', hfault.trans hafter⟩

/-- The run loop, if it ends, has been a series of events. -/
theorem Orderly.turns (ho : Orderly Kind) (limit : Nat)
    {s t : Attended σ Banked} {result : Except Fault Unit}
    (hs : Kind s.attendant) (h : s.turns limit = some (result, t)) :
    Stretch Kind s t := by
  induction limit generalizing s with
  | zero => cases h
  | succ n ih =>
    have hturn := ho.turn hs
    unfold Attended.turns at h
    split at h
    · next heq =>
      cases h
      rw [heq] at hturn
      exact hturn
    · next heq =>
      rw [heq] at hturn
      obtain ⟨hkind, hleads⟩ := hturn
      obtain ⟨hkind', hleads'⟩ := ih hkind h
      exact ⟨hkind', hleads.trans hleads'⟩

/-- A whole run is a series of events. -/
theorem Orderly.run (ho : Orderly Kind) {limit : Nat}
    {s t : Attended σ Banked} {result : Except Fault Unit}
    (hs : Kind s.attendant) (h : s.run limit = some (result, t)) :
    Stretch Kind s t := by
  let entered := s.note (.runEntered s.computer.cpu.regs.pc)
  have hentered : Leads s.computer entered.computer :=
    .single _ (.note _)
  have hturns : Stretch Kind entered t := ho.turns limit hs h
  exact ⟨hturns.1, hentered.trans hturns.2⟩

end loops

-- ============================================================= machines

/-- The bounded loop of a machine is a series of events. -/
theorem leads_stepN (n : Nat) (m : Machine) :
    Leads m.computer (m.stepN n).2.computer :=
  (Orderly.unit.stepNFrom 0 n trivial).2

/-- A run begins with the tick sources being started, if they are
enabled. -/
theorem leads_start (clock : Clock) (m : Machine) :
    Leads m.computer (m.startTimers clock).2.computer := by
  unfold Machine.startTimers
  split
  · exact leads_startTimers _ clock _
  · exact .refl _

/-- The run loop of a machine is a piece of history if its session leaves
the line to the controller. -/
theorem leads_runLoop {limit : Nat} {w w' : Session Banked}
    {m m' : Machine} {result : Except Fault Unit} (hw : LeavesLine w)
    (h : m.runLoop limit w = some (result, w', m')) :
    Leads m.computer m'.computer := by
  unfold Machine.runLoop at h
  obtain ⟨⟨_, t⟩, hrun, heq⟩ := Option.map_eq_some_iff.1 h
  cases heq
  exact (Orderly.session.run hw hrun).2

/-- A run of a machine, with its tick sources and in any session that
leaves the line to the controller, is a series of events. -/
theorem leads_run {limit : Nat} {w w' : Session Banked}
    {m m' : Machine} {result : Except Fault Unit} (hw : LeavesLine w)
    (h : m.run limit w = some (result, w', m')) :
    Leads m.computer m'.computer := by
  obtain ⟨⟨_, _, m₁⟩, hloop, heq⟩ := Option.map_eq_some_iff.1 h
  cases heq
  let started := m.startTimers w.clock
  have hstart : Leads m.computer started.2.computer :=
    leads_start w.clock m
  have hran : Leads started.2.computer m₁.computer :=
    leads_runLoop (show LeavesLine { w with clock := started.1 } from hw)
      hloop
  have hstop : Leads m₁.computer _ :=
    leads_stopTimers m₁.computer.cpu w'.clock m₁.computer.board
  exact (hstart.trans hran).trans hstop

end Machine
end HomeZ80
