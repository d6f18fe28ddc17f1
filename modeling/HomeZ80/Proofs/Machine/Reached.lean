/-
The states that a machine can come to while the calls to its controller
follow each other. A machine is built and then events happen to it, it is
reset, and it is run, in any order. Every event keeps what every access
to controller and lines keeps (`during_act`), and a run is a series of
events.

In all of these states the controller agrees with its lines
(`Reached.coherent`). A reset brings that about whatever was before.
-/
import HomeZ80.Proofs.Interrupt.Overlap
import HomeZ80.Proofs.Machine.History

namespace HomeZ80

namespace Machine

/-- The states that a machine comes to when it is built and then used
in any way that leaves the maskable line to the controller. A single
step is an event. -/
inductive Reached (config : MachineConfig) (log : Log) : Machine → Prop
  | new : Reached config log (new config log)
  | event {m : Machine} (e : Event) : Reached config log m →
      Reached config log { m with computer := e.act m.computer }
  | reset {m : Machine} : Reached config log m →
      Reached config log m.reset
  | stepN {m : Machine} (n : Nat) : Reached config log m →
      Reached config log (m.stepN n).2
  | run {m m' : Machine} {limit : Nat} {w w' : Session Banked}
      {result : Except Fault Unit} (hw : LeavesLine w)
      (hrun : m.run limit w = some (result, w', m')) :
      Reached config log m → Reached config log m'

/-- Events lead from what is reached to what is reached. -/
theorem Reached.after {config : MachineConfig} {log : Log}
    {m : Machine} (h : Reached config log m) (events : List Event) :
    Reached config log
      { m with computer := Machine.after events m.computer } := by
  induction events generalizing m with
  | nil => exact h
  | cons e rest ih => exact ih (h.event e)

-- ============================================================ coherence

/-- Whether an event leaves it to others to serve, make or withdraw a
request. -/
def Event.isAside : Event → Bool
  | .step | .request _ | .acknowledge _ => false
  | _ => true

/-- Such an event leaves the requests as they are, and moves no line but
those that are not the controller's. -/
theorem signals_act {e : Event} (he : e.isAside = true)
    (s : Computer Banked) :
    ∃ move : Lines → Lines,
      (∀ l, (move l).irq = l.irq) ∧ (∀ l, (move l).channel = l.channel)
        ∧ (e.act s).board.signals = (s.board.onLines move).signals := by
  have still : (e.act s).board.signals = s.board.signals →
      ∃ move : Lines → Lines,
        (∀ l, (move l).irq = l.irq)
          ∧ (∀ l, (move l).channel = l.channel)
          ∧ (e.act s).board.signals = (s.board.onLines move).signals :=
    fun h => ⟨id, fun _ => rfl, fun _ => rfl, h⟩
  cases e with
  | step => cases he
  | request channel => cases he
  | acknowledge channel => cases he
  | register reg v =>
    apply still
    show (s.board.lines, Option.map _ (Option.map _ _)) = _
    rw [Option.map_map]
    exact congrArg (s.board.lines, Option.map · s.board.controller)
      (funext fun c => Controller.requests_writePort reg v c)
  | raiseNmi => exact ⟨(·.raiseNmi), fun _ => rfl, fun _ => rfl, rfl⟩
  | clearNmi => exact ⟨(·.clearNmi), fun _ => rfl, fun _ => rfl, rfl⟩
  | requestStop =>
    exact ⟨(·.requestStop), fun _ => rfl, fun _ => rfl, rfl⟩
  | clearStop => exact ⟨(·.clearStop), fun _ => rfl, fun _ => rfl, rfl⟩
  | peek addr => exact still (Board.signals_afterRead addr _)
  | poke addr v => exact still (Board.signals_poke addr v _)
  | pokeBlock addr bytes =>
    exact still (Board.SameDevices.pokeBlock addr bytes _).signals_eq
  | output port v => exact still (Board.signals_writePort port v _)
  | install rom image => exact still (Board.signals_note _ _)
  | resetBanks => exact still rfl
  | takeDirty => exact still rfl
  | takeFault =>
    apply still
    show (s.board.takeFault.2).signals = _
    unfold Board.takeFault
    split <;> rfl
  | setCpu cpu => exact still rfl
  | setTimers timers => exact still rfl
  | note notes => exact still (Board.signals_note notes _)

/-- What survives every access to controller and lines survives every
event. -/
theorem during_act {strict : Bool} {I : Controller.InFlight → Prop}
    (hI : Controller.InFlight.Kept strict I) (e : Event)
    {s : Computer Banked} (h : s.board.During I [] none) :
    (e.act s).board.During I [] none := by
  have aside (he : e.isAside = true) :
      (e.act s).board.During I [] none := by
    obtain ⟨move, hirq, hchannel, hsignals⟩ := signals_act he s
    have hmoved : (s.board.onLines move).During I [] none :=
      h.same hI rfl (hirq _) (hchannel _)
    exact hmoved.of_signals_eq hI hsignals
  cases e with
  | step => exact h.step hI
  | request channel => exact h.request hI channel
  | acknowledge channel => exact h.acknowledge hI channel
  | _ => exact aside rfl

/-- What calls one after the other keep, a history keeps. -/
theorem Leads.during {strict : Bool} {I : Controller.InFlight → Prop}
    (hI : Controller.InFlight.Kept strict I) {s t : Computer Banked}
    (hst : Leads s t) (h : s.board.During I [] none) :
    t.board.During I [] none :=
  hst.preserves (P := fun s => s.board.During I [] none)
    (fun e _ => during_act hI e) h

/-- No event breaks the agreement of controller and lines. -/
theorem coherent_act (e : Event) (s : Computer Banked)
    (h : s.board.Coherent) : (e.act s).board.Coherent :=
  Board.during_solo.1
    (during_act Controller.InFlight.kept_solo e (Board.during_solo.2 h))

theorem Leads.coherent {s t : Computer Banked} (hst : Leads s t)
    (h : s.board.Coherent) : t.board.Coherent :=
  hst.preserves (P := fun s => s.board.Coherent) coherent_act h

/-- After a reset controller and lines agree, whatever was before. -/
theorem coherent_reset {m : Machine}
    (h : m.computer.board.controller.isSome = true) :
    m.reset.computer.board.Coherent := by
  have hattached : (m.resetBanks.computer.board.attachAll).Coherent :=
    Board.coherent_attachAll h
  exact hattached.of_signals_eq (Board.signals_note _ _)

/-- Controller and lines agree in every state of a machine. -/
theorem Reached.coherent {config : MachineConfig} {log : Log}
    {m : Machine} (h : Reached config log m) :
    m.computer.board.Coherent := by
  induction h with
  | new => exact coherent_reset rfl
  | event e _ ih => exact coherent_act e _ ih
  | reset _ ih =>
    obtain ⟨c, hc, -⟩ := ih
    exact coherent_reset (by rw [hc]; rfl)
  | stepN n _ ih => exact (leads_stepN n _).coherent ih
  | run hw hrun _ ih => exact (leads_run hw hrun).coherent ih

end Machine
end HomeZ80
