/-
Runs in which nobody waits. While the run loop goes on, tick sources
request their channels, and between two accesses of a request there may
be any number of turns of the CPU. A `Race` is a computer in such a run:
how far the CPU has come with its turn, and which requests are in
progress. A schedule says who makes an access next.

A CPU with nobody in between makes the turns of the run loop
(`Race.turn_alone`), and a request with nobody in between is the whole
request that a tick is in `Machine.run` (`Race.tick_alone`). So a run in
which every tick comes between two turns is one schedule of many.

# What every schedule keeps

A fact about calls in flight that survives every access survives every
move, because what the CPU does is an access of its acknowledgement, or
else it stays away from the line and the requests behind it
(`Race.holds_act`). A fact that needs the calls apart survives the
schedules that keep them apart (`Race.apart`); a schedule without requests
does.
-/
import HomeZ80.Proofs.Interrupt.Overlap
import HomeZ80.Proofs.Machine.Reached
import Mathlib.Logic.Function.Iterate

namespace HomeZ80

open Controller (RequestCall AcknowledgeCall WithLines InFlight)

-- =============================================================== the CPU

/-- How far the CPU has come with a turn of the run loop. -/
inductive Phase where
  | ready
  /-- The instruction is done, at a cost, and the boundary comes next. -/
  | executed (cycles : Nat)
  /-- The line was found up. The channel is looked up next. -/
  | sampled (cycles : Nat)
  /-- The channel is being acknowledged, and this is left of it. -/
  | heeding (cycles : Nat) (channel : UInt8)
      (left : Option AcknowledgeCall)
  | returned (result : Except Fault Unit)

/-- The acknowledgement in progress. -/
def Phase.call? : Phase → Option AcknowledgeCall
  | .heeding _ _ left => left
  | _ => none

namespace Board

variable {μ : Type}

/-- The board with its controller and lines replaced. -/
def writeBack (u : WithLines) (b : Board μ) : Board μ :=
  { b with controller := some u.controller, lines := u.lines }

/-- What was there may be written back. -/
theorem writeBack_self {b : Board μ} {c : Controller}
    (h : b.controller = some c) : b.writeBack ⟨c, b.lines⟩ = b := by
  unfold writeBack
  rw [← h]

/-- A call to the controller writes both back, and makes its notes. -/
theorem onController_of_some {b : Board μ} {c : Controller}
    (h : b.controller = some c)
    (act : WithLines → WithLines × List Note) :
    b.onController act =
      let after := act ⟨c, b.lines⟩
      (b.writeBack after.1).note after.2 := by
  unfold onController
  rw [h]
  rfl

/-- One access to the controller and the lines of a board. -/
def accessed {α : Type} (access : WithLines → Option α × WithLines)
    (b : Board μ) : Option α × Board μ :=
  match b.controller with
  | some c =>
    let after := access ⟨c, b.lines⟩
    (after.1, b.writeBack after.2)
  | none => (none, b)

/-- With a controller an access is made, and written back. -/
theorem accessed_of_some {α : Type} {b : Board μ} {c : Controller}
    (h : b.controller = some c)
    (access : WithLines → Option α × WithLines) :
    b.accessed access =
      let after := access ⟨c, b.lines⟩
      (after.1, b.writeBack after.2) := by
  unfold accessed
  rw [h]

end Board

/-- A computer in a run, with the requests of others in progress. -/
structure Race (μ : Type) where
  computer : Computer μ
  requests : List RequestCall := []
  phase : Phase := .ready

/-- What may happen next. -/
inductive Race.Move where
  /-- The CPU makes its next access, or executes an instruction. -/
  | cpu
  /-- Somebody begins to request a channel: a tick source does. -/
  | request (channel : UInt8)
  /-- The request with a number makes an access. -/
  | access (i : Nat)
  /-- The registers that requests are judged by are written. Half of a
  write is seen as well. -/
  | configure (enabled level : UInt8) (priorityOnly : Bool)
  | raiseNmi
  | requestStop
  deriving DecidableEq, Repr

def Race.Move.isRequest : Move → Bool
  | .request _ => true
  | _ => false

namespace Race

variable {μ : Type} [Decoder μ]

omit [Decoder μ] in
/-- The end of a turn. The cost is added up, and a fault ends the run. -/
def close (t : Race μ) (cycles : Nat) (s : Computer μ) : Race μ :=
  let s := { s with cpu.cost := s.cpu.cost + cycles }
  match s.takeFault with
  | (some fault, s) =>
    { t with
      computer := s.note (.runFaulted s.cpu.regs.pc fault)
      phase := .returned (.error fault) }
  | (none, s) => { t with computer := s, phase := .ready }

/-- What the CPU does next. Of the accesses that it makes at a boundary
each is a move by itself; its instructions keep away from what the others
access, but for the registers that requests are judged by. -/
def advance (t : Race μ) : Race μ :=
  let s := t.computer
  match t.phase with
  | .ready =>
    if s.board.lines.stop then
      { t with
        computer := s.note (.runStopped s.cpu.regs.pc s.cpu.cost)
        phase := .returned (.ok ()) }
    else
      let done := Exec.instruct s
      { t with computer := done.2, phase := .executed done.1 }
  | .executed cycles =>
    let there := { s with cpu.eiDelay := false }
    match there.accepted? (!s.cpu.eiDelay) with
    | some .nmi =>
      let entry := Exec.enterNmi there
      t.close (cycles + entry.1) entry.2
    | some (.maskable _) =>
      { t with computer := there, phase := .sampled cycles }
    | none => t.close (cycles + 0) there
  | .sampled cycles =>
    let channel := s.requestedChannel
    { t with
      phase := .heeding cycles channel (AcknowledgeCall.begin? channel) }
  | .heeding cycles channel (some call) =>
    let after := s.board.accessed (AcknowledgeCall.access · call)
    { t with
      computer.board := after.2
      phase := .heeding cycles channel after.1 }
  | .heeding cycles channel none =>
    let entry := Exec.vector channel (Exec.deafen s).2
    t.close (cycles + entry.1) entry.2
  | .returned _ => t

/-- The state after a move. -/
def act (t : Race μ) : Move → Race μ
  | .cpu => t.advance
  | .request channel =>
    { t with
      requests := (RequestCall.begin? channel).toList ++ t.requests }
  | .access i =>
    match t.requests[i]? with
    | some r =>
      let after := t.computer.board.accessed (RequestCall.access · r)
      { t with
        computer.board := after.2
        requests := t.requests.take i ++ after.1.toList
          ++ t.requests.drop (i + 1) }
    | none => t
  | .configure enabled level priorityOnly =>
    { t with computer := t.computer.onBoard fun b =>
        { b with controller := b.controller.map fun c =>
            { c with enabled, level, priorityOnly } } }
  | .raiseNmi =>
    { t with computer := t.computer.onBoard (·.onLines (·.raiseNmi)) }
  | .requestStop =>
    { t with computer := t.computer.onBoard (·.onLines (·.requestStop)) }

/-- Whether a move begins no call while another is in progress. -/
def admits (t : Race μ) : Move → Bool
  | .cpu =>
    match t.phase with
    | .sampled _ => t.requests.isEmpty
    | _ => true
  | .request _ => t.requests.isEmpty && t.phase.call?.isNone
  | _ => true

/-- Whether no request overlaps another call along a schedule. -/
def apart : Race μ → List Move → Bool
  | _, [] => true
  | t, move :: rest => t.admits move && (t.act move).apart rest

-- ======================================================= nobody between

/-- A turn begins with a look at the stop, and then the instruction. -/
theorem advance_ready (s : Computer μ) (requests : List RequestCall) :
    advance ⟨s, requests, .ready⟩ =
      if s.board.lines.stop then
        ⟨s.note (.runStopped s.cpu.regs.pc s.cpu.cost), requests,
          .returned (.ok ())⟩
      else
        ⟨(Exec.instruct s).2, requests, .executed (Exec.instruct s).1⟩ :=
  rfl

/-- A controller stays wired whatever is executed. -/
theorem wired_atBoundary {s : Computer μ} {c : Controller}
    (hc : s.board.controller = some c) (hwired : c.wire.isSome = true) :
    ∃ c', s.atBoundary.board.controller = some c'
      ∧ c'.wire.isSome = true := by
  have hsame := congrArg Prod.snd (Exec.touches_instruct s).signals_eq
  have hmap : s.atBoundary.board.controller.map Controller.requests
      = some c.requests := hsame.trans (congrArg (Option.map _) hc)
  obtain ⟨c', hc', hrequests⟩ := Option.map_eq_some_iff.1 hmap
  refine ⟨c', hc', ?_⟩
  rw [(Controller.Requests.mk.inj hrequests).2.2]
  exact hwired

/-- A race whose CPU has made a turn of the run loop. -/
def ofTurn (requests : List RequestCall) : Attended.Turn Unit μ → Race μ
  | .ended result s => ⟨s.computer, requests, .returned result⟩
  | .further s => ⟨s.computer, requests, .ready⟩

/-- The end of a turn is the end of a turn of the run loop. -/
theorem close_eq_ofTurn {s s' : Computer μ} {cycles : Nat}
    (hstop : s.board.lines.stop = false)
    (hstep : s.step.2 = { s' with cpu.cost := s'.cpu.cost + cycles })
    (t : Race μ) :
    t.close cycles s'
      = ofTurn t.requests (⟨(), s⟩ : Attended Unit μ).turn := by
  have hbefore : (⟨(), s⟩ : Attended Unit μ).beforeStep = ⟨(), s⟩ := by
    unfold Attended.beforeStep
    dsimp only
    split <;> rfl
  have hturn : (⟨(), s⟩ : Attended Unit μ).turn
      = match s.step.2.takeFault with
        | (some fault, c) => .ended (.error fault)
            ⟨(), c.note (.runFaulted c.cpu.regs.pc fault)⟩
        | (none, c) => .further ⟨(), c⟩ := by
    unfold Attended.turn Attended.step
    rw [hbefore, hstop]
    rfl
  rw [hturn, hstep]
  unfold close
  dsimp only
  cases heq : ({ s' with cpu.cost := s'.cpu.cost + cycles } :
    Computer μ).takeFault with
  | mk fault c => cases fault <;> rfl

/-- An acknowledgement that the CPU makes with nobody in between. -/
theorem heeding_alone (requests : List RequestCall) (cycles : Nat)
    (channel : UInt8) (n : Nat) {call? : Option AcknowledgeCall}
    {s : Computer μ} {c : Controller} {u : WithLines}
    (hc : s.board.controller = some c)
    (h : Controller.uninterrupted AcknowledgeCall.access n call?
      ⟨c, s.board.lines⟩ = (none, u)) :
    ∃ k, advance^[k] ⟨s, requests, .heeding cycles channel call?⟩
      = ⟨s.onBoard (·.writeBack u), requests,
          .heeding cycles channel none⟩ := by
  induction n generalizing s c call? with
  | zero =>
    obtain ⟨rfl, rfl⟩ := Prod.mk.inj h
    refine ⟨0, ?_⟩
    rw [Computer.onBoard, Board.writeBack_self hc]
    rfl
  | succ n ih =>
    cases call? with
    | none =>
      obtain ⟨-, rfl⟩ := Prod.mk.inj h
      refine ⟨0, ?_⟩
      rw [Computer.onBoard, Board.writeBack_self hc]
      rfl
    | some a =>
      let after := AcknowledgeCall.access ⟨c, s.board.lines⟩ a
      have hnext : advance ⟨s, requests, .heeding cycles channel (some a)⟩
          = ⟨s.onBoard (·.writeBack after.2), requests,
              .heeding cycles channel after.1⟩ := by
        unfold advance
        dsimp only
        rw [Board.accessed_of_some hc]
        rfl
      obtain ⟨k, hk⟩ := ih
        (s := s.onBoard (·.writeBack after.2)) rfl h
      refine ⟨k + 1, ?_⟩
      rw [Function.iterate_succ_apply, hnext, hk]
      rfl

omit [Decoder μ] in
/-- A wired controller has nothing to report when the CPU acknowledges. -/
theorem acknowledge_eq {s : Computer μ} {c : Controller}
    (hc : s.board.controller = some c) (hwired : c.wire.isSome = true)
    (channel : UInt8) :
    (Exec.acknowledge channel s).2 = s.onBoard
      (·.writeBack
        (Controller.acknowledge channel ⟨c, s.board.lines⟩).1) := by
  have hquiet : (Controller.acknowledge channel ⟨c, s.board.lines⟩).2
      = [] := by
    unfold Controller.acknowledge
    split
    · rfl
    · dsimp only
      split
      · exact Controller.signal_notes hwired _
      · rfl
  have hboard : (Exec.acknowledge channel s).2.board = s.board.writeBack
      (Controller.acknowledge channel ⟨c, s.board.lines⟩).1 := by
    rw [Exec.acknowledge_of_some hc, Board.acknowledge,
      Board.onController_of_some hc]
    dsimp only
    rw [hquiet]
    rfl
  exact congrArg (Computer.mk s.cpu) hboard

/-- A CPU that nobody interrupts makes a turn of the run loop, whatever
requests are in progress meanwhile. -/
theorem turn_alone {s : Computer μ} {c : Controller}
    (hc : s.board.controller = some c) (hwired : c.wire.isSome = true)
    (requests : List RequestCall) :
    ∃ k, advance^[k] ⟨s, requests, .ready⟩
      = ofTurn requests (⟨(), s⟩ : Attended Unit μ).turn := by
  cases hstop : s.board.lines.stop with
  | true =>
    refine ⟨1, ?_⟩
    rw [Function.iterate_one, advance_ready]
    unfold Attended.turn
    dsimp only
    rw [hstop]
    rfl
  | false =>
    let cycles := (Exec.instruct s).1
    let done : Race μ := ⟨(Exec.instruct s).2, requests, .executed cycles⟩
    have hready : advance ⟨s, requests, .ready⟩ = done := by
      rw [advance_ready, hstop]
      rfl
    have hexecuted : done.advance
        = match s.interrupt? with
          | some .nmi =>
            let entry := Exec.enterNmi s.atBoundary
            done.close (cycles + entry.1) entry.2
          | some (.maskable _) => ⟨s.atBoundary, requests, .sampled cycles⟩
          | none => done.close (cycles + 0) s.atBoundary := rfl
    cases hentry : s.interrupt? with
    | none =>
      rw [hentry] at hexecuted
      refine ⟨2, ?_⟩
      show (advance ⟨s, requests, .ready⟩).advance = _
      rw [hready, hexecuted]
      refine close_eq_ofTurn hstop ?_ _
      rw [Computer.step, Exec.step_of_no_entry hentry]
      rfl
    | some entry =>
      rw [hentry] at hexecuted
      have hstep := congrArg Prod.snd (Exec.step_of_entry hentry)
      cases entry with
      | nmi =>
        refine ⟨2, ?_⟩
        show (advance ⟨s, requests, .ready⟩).advance = _
        rw [hready, hexecuted]
        exact close_eq_ofTurn hstop hstep _
      | maskable channel =>
        have hasked := (Computer.interrupt?_eq_maskable hentry).2.2.2
        have hsampled : advance ⟨s.atBoundary, requests, .sampled cycles⟩
            = ⟨s.atBoundary, requests, .heeding cycles channel
                (AcknowledgeCall.begin? channel)⟩ := by
          rw [← hasked]
          rfl
        obtain ⟨c', hc', hwired'⟩ := wired_atBoundary hc hwired
        obtain ⟨k, hk⟩ := heeding_alone requests cycles channel 6 hc'
          (Controller.acknowledge_alone channel _)
        rw [← acknowledge_eq hc' hwired'] at hk
        refine ⟨k + 1 + 3, ?_⟩
        show (advance^[k + 1]) (advance ⟨s, requests, .ready⟩).advance.advance
          = _
        rw [hready, hexecuted, Function.iterate_succ_apply']
        dsimp only
        rw [hsampled, hk]
        exact close_eq_ofTurn hstop hstep _

/-- The accesses of a request with nobody in between. -/
theorem accesses_alone (phase : Phase) (n : Nat)
    {r? : Option RequestCall} {s : Computer μ} {c : Controller}
    {u : WithLines} (hc : s.board.controller = some c)
    (h : Controller.uninterrupted RequestCall.access n r?
      ⟨c, s.board.lines⟩ = (none, u)) :
    (List.replicate n (.access 0)).foldl act ⟨s, r?.toList, phase⟩
      = ⟨s.onBoard (·.writeBack u), [], phase⟩ := by
  induction n generalizing s c r? with
  | zero =>
    obtain ⟨rfl, rfl⟩ := Prod.mk.inj h
    rw [Computer.onBoard, Board.writeBack_self hc]
    rfl
  | succ n ih =>
    rw [List.replicate_succ, List.foldl_cons]
    cases r? with
    | none =>
      refine ih hc (Eq.trans ?_ h)
      rw [Controller.uninterrupted_none, Controller.uninterrupted_none]
    | some r =>
      let after := RequestCall.access ⟨c, s.board.lines⟩ r
      have hnext : act ⟨s, [r], phase⟩ (.access 0)
          = ⟨s.onBoard (·.writeBack after.2), after.1.toList, phase⟩ := by
        unfold act
        dsimp only [List.getElem?_cons_zero]
        rw [Board.accessed_of_some hc]
        dsimp only
        rw [List.take_zero, List.nil_append, List.drop_succ_cons,
          List.drop_zero, List.append_nil]
        rfl
      rw [Option.toList_some, hnext]
      exact ih (s := s.onBoard (·.writeBack after.2)) rfl h

/-- A tick that nobody interrupts is a request as a whole, but for what it
notes. -/
theorem tick_alone {s : Computer μ} {c : Controller}
    (hc : s.board.controller = some c) (phase : Phase)
    (channel : UInt8) :
    ∃ u notes, s.board.request channel = (s.board.writeBack u).note notes
      ∧ (.request channel :: List.replicate 8 (.access 0)).foldl act
          ⟨s, [], phase⟩
        = ⟨s.onBoard (·.writeBack u), [], phase⟩ := by
  refine ⟨_, _, Board.onController_of_some hc _, ?_⟩
  have hbegun : act ⟨s, [], phase⟩ (.request channel)
      = ⟨s, (RequestCall.begin? channel).toList, phase⟩ := by
    unfold act
    dsimp only
    rw [List.append_nil]
  rw [List.foldl_cons, hbegun]
  exact accesses_alone phase 8 hc (Controller.request_alone channel _)

-- ========================================================== invariants

variable {strict : Bool} {I : InFlight → Prop} {t : Race μ}

omit [Decoder μ] in
/-- A fact about calls in flight holds of the controller, the lines and
the calls of a race. -/
def Holds (I : InFlight → Prop) (t : Race μ) : Prop :=
  t.computer.board.During I t.requests t.phase.call?

omit [Decoder μ] in
/-- The end of a turn is no access. -/
theorem holds_close (hI : InFlight.Kept strict I) {s : Computer μ}
    (h : s.board.During I t.requests none) (cycles : Nat) :
    (t.close cycles s).Holds I := by
  have htaken : s.board.takeFault.2.During I t.requests none := by
    refine h.of_signals_eq hI ?_
    unfold Board.takeFault
    split <;> rfl
  unfold close
  dsimp only [Computer.takeFault]
  split
  · next heq =>
    obtain ⟨-, rfl⟩ := Prod.mk.inj heq
    exact htaken.of_signals_eq hI (Board.signals_note _ _)
  · next heq =>
    obtain ⟨-, rfl⟩ := Prod.mk.inj heq
    exact htaken

/-- What survives every access survives whatever the CPU does next. -/
theorem holds_advance (hI : InFlight.Kept strict I) (h : t.Holds I)
    (ht : strict = true → t.admits .cpu = true) : t.advance.Holds I := by
  obtain ⟨s, requests, phase⟩ := t
  cases phase with
  | ready =>
    unfold advance
    dsimp only
    split
    · exact h.of_signals_eq hI (Board.signals_note _ _)
    · exact h.of_signals_eq hI (Exec.touches_instruct s).signals_eq
  | executed cycles =>
    unfold advance
    dsimp only
    split
    · refine holds_close hI ?_ _
      have hlowered :
          (s.board.onLines (·.clearNmi)).During I requests none :=
        h.same hI rfl rfl rfl
      exact hlowered.of_signals_eq hI
        (Exec.touches_enterNmi _).signals_eq
    · exact h
    · refine holds_close hI ?_ _
      exact h
  | sampled cycles =>
    obtain ⟨c, hc, hholds⟩ := h
    exact ⟨c, hc, hI.act hholds (.acknowledge s.requestedChannel) ht⟩
  | heeding cycles channel left =>
    cases left with
    | some call =>
      obtain ⟨c, hc, hholds⟩ := h
      have hnext := hI.act hholds .accessAcknowledge fun _ => rfl
      unfold advance
      dsimp only
      unfold Holds
      dsimp only
      rw [Board.accessed_of_some hc]
      exact ⟨_, rfl, hnext⟩
    | none =>
      refine holds_close hI ?_ _
      have hdeaf : s.board.Touches (Exec.deafen s).2.board :=
        Exec.OnBus.touches s
      have hvector : (Exec.deafen s).2.board.Touches
          (Exec.vector channel (Exec.deafen s).2).2.board :=
        Exec.OnBus.touches _
      exact h.of_signals_eq hI
        (hvector.signals_eq.trans hdeaf.signals_eq)
  | returned result => exact h

theorem holds_act (hI : InFlight.Kept strict I) (h : t.Holds I)
    (move : Move) (ht : strict = true → t.admits move = true) :
    (t.act move).Holds I := by
  cases move with
  | cpu => exact holds_advance hI h ht
  | request channel =>
    obtain ⟨c, hc, hholds⟩ := h
    exact ⟨c, hc, hI.act hholds (.request channel) ht⟩
  | access i =>
    obtain ⟨c, hc, hholds⟩ := h
    have hnext := hI.act hholds (.access i) fun _ => rfl
    unfold InFlight.act at hnext
    unfold act
    dsimp only at hnext ⊢
    cases hr : t.requests[i]? with
    | none => exact ⟨c, hc, hholds⟩
    | some r =>
      rw [hr] at hnext
      unfold Holds
      dsimp only
      rw [Board.accessed_of_some hc]
      exact ⟨_, rfl, hnext⟩
  | configure enabled level priorityOnly =>
    obtain ⟨c, hc, hholds⟩ := h
    refine ⟨_, congrArg (Option.map _) hc,
      hI.same hholds rfl rfl rfl rfl rfl⟩
  | raiseNmi => exact h.same hI rfl rfl rfl
  | requestStop => exact h.same hI rfl rfl rfl

/-- A fact survives a schedule, which has to keep calls apart if the fact
needs them apart. -/
theorem holds_run (hI : InFlight.Kept strict I) (h : t.Holds I)
    (schedule : List Move)
    (ht : strict = true → t.apart schedule = true) :
    (schedule.foldl act t).Holds I := by
  induction schedule generalizing t with
  | nil => exact h
  | cons move rest ih =>
    refine ih (holds_act hI h move fun hs => ?_) fun hs => ?_
    · exact (Bool.and_eq_true_iff.1 (ht hs)).1
    · exact (Bool.and_eq_true_iff.1 (ht hs)).2

omit [Decoder μ] in
theorem requests_close (t : Race μ) (cycles : Nat) (s : Computer μ) :
    (t.close cycles s).requests = t.requests := by
  unfold close
  dsimp only
  split <;> rfl

/-- The CPU makes no request. -/
theorem requests_advance (t : Race μ) :
    t.advance.requests = t.requests := by
  unfold advance
  dsimp only
  split
  · split <;> rfl
  · split
    · exact requests_close _ _ _
    · rfl
    · exact requests_close _ _ _
  · rfl
  · rfl
  · exact requests_close _ _ _
  · rfl

/-- With no request there is nothing to overlap. -/
theorem apart_of_still (hrequests : t.requests = [])
    {schedule : List Move}
    (h : ∀ move ∈ schedule, move.isRequest = false) :
    t.apart schedule = true := by
  induction schedule generalizing t with
  | nil => rfl
  | cons move rest ih =>
    have hmove := h move (.head _)
    have hstill : (t.act move).requests = [] := by
      cases move with
      | request => cases hmove
      | cpu => exact (requests_advance t).trans hrequests
      | access i =>
        unfold act
        dsimp only
        rw [hrequests]
        exact hrequests
      | configure | raiseNmi | requestStop => exact hrequests
    refine Bool.and_eq_true_iff.2
      ⟨?_, ih hstill fun m hm => h m (.tail _ hm)⟩
    cases move with
    | request => cases hmove
    | cpu =>
      unfold admits
      dsimp only
      rw [hrequests]
      split <;> rfl
    | access | configure | raiseNmi | requestStop => rfl

end Race
end HomeZ80
