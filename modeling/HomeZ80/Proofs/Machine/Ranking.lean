/-
The lowest pending channel first, along the histories of a machine. From
a reset on, and as long as nothing is written to the priority register
but values with bit 3 set, the controller has the lowest pending channel
on the line after every event, and every maskable interrupt that the CPU
takes is for the lowest pending channel (`lowest_served_first`).

A history may write the priority register in three ways: directly, with
a write to its port from outside, or with an instruction that writes the
port. Which instruction does is told before it is carried out
(`Computer.portUse?`), so the values written are a matter of the events
and of the states they find (`priorityWrites`).

The loops of a machine are histories (`leads_stepN`, `leads_run`).
-/
import HomeZ80.Proofs.Interrupt.Ranking
import HomeZ80.Proofs.Machine.Ledger

namespace HomeZ80

namespace Banked

/-- The rule has one port. -/
theorem portRole_eq_priority {port : UInt8}
    (h : portRole port = .controller .priority) : port = 0xE4 := by
  unfold portRole at h
  split at h <;> first | rfl | cases h

/-- A write to a port keeps the rule unless the port is that of the
priority register and bit 3 is clear. -/
theorem priorityOnly_writePort {b : Board Banked} (h : b.PriorityOnly)
    {port v : UInt8} (hport : port = 0xE4 → bitOf v 3 = true) :
    (b.writePort port v).PriorityOnly := by
  let decoder := Decoder.writePort port v b.decoder
  let noted := ({ b with decoder } : Board Banked).note
    (Decoder.portRemark decoder port)
  have hnoted : noted.PriorityOnly :=
    h.of_controller_eq (Board.note_controller _ _)
  have hbehind : Decoder.controllerPort noted.decoder port
      = controllerPort port := rfl
  unfold Board.writePort
  dsimp only
  rw [hbehind]
  cases hreg : controllerPort port with
  | none => exact hnoted
  | some reg =>
    apply hnoted.register
    cases reg with
    | mask => rfl
    | priority =>
      apply hport
      apply portRole_eq_priority
      unfold controllerPort at hreg
      split at hreg
      · next reg hrole =>
        rw [hrole, Option.some.inj hreg]
      · cases hreg

end Banked

namespace Machine

-- ================================================ the priority register

/-- The values that an event writes to the priority register. -/
def Event.priorityWrites (s : Computer Banked) : Event → List UInt8
  | .register .priority v => [v]
  | .output 0xE4 v => [v]
  | .step =>
    match s.portUse? with
    | some (.output 0xE4 v) => [v]
    | _ => []
  | _ => []

/-- The values that a series of events writes there, in their order. -/
def priorityWrites : List Event → Computer Banked → List UInt8
  | [], _ => []
  | e :: rest, s => e.priorityWrites s ++ priorityWrites rest (e.act s)

/-- An instruction that writes it is among the writes of its step. -/
theorem mem_priorityWrites_of_portUse? {s : Computer Banked}
    {port v : UInt8} (h : s.portUse? = some (.output port v))
    (hport : port = 0xE4) : v ∈ Event.step.priorityWrites s := by
  subst hport
  unfold Event.priorityWrites
  rw [h]
  exact List.mem_singleton.2 rfl

/-- Only these writes can end the first rule. -/
theorem priorityOnly_act {e : Event} {s : Computer Banked}
    (h : s.board.PriorityOnly)
    (hwrites : ∀ v ∈ e.priorityWrites s, bitOf v 3 = true) :
    (e.act s).board.PriorityOnly := by
  cases e with
  | step =>
    refine Exec.lasting_step Exec.lasting_priorityOnly h fun use huse => ?_
    cases use with
    | input port => trivial
    | output port v =>
      exact fun b hb => Banked.priorityOnly_writePort hb fun hport =>
        hwrites v (mem_priorityWrites_of_portUse? huse hport)
  | request channel =>
    exact h.of_standing_eq (Board.standing_request channel _)
  | acknowledge channel =>
    exact h.of_standing_eq (Board.standing_acknowledge channel _)
  | register reg v =>
    apply h.register
    cases reg with
    | mask => rfl
    | priority => exact hwrites v (List.mem_singleton.2 rfl)
  | output port v =>
    apply Banked.priorityOnly_writePort h
    rintro rfl
    exact hwrites v (List.mem_singleton.2 rfl)
  | peek addr =>
    exact h.of_controller_eq (Board.SameDevices.afterRead _ _).controller
  | poke addr v => exact h.of_controller_eq (Board.controller_poke _ _ _)
  | pokeBlock addr bytes =>
    exact h.of_controller_eq (Board.SameDevices.pokeBlock _ _ _).controller
  | install rom image =>
    exact h.of_controller_eq (Board.note_controller _ _)
  | takeFault =>
    apply h.of_controller_eq
    show (s.board.takeFault.2).controller = _
    unfold Board.takeFault
    split <;> rfl
  | note notes => exact h.of_controller_eq (Board.note_controller _ _)
  | _ => exact h.of_controller_eq rfl

/-- While the rule holds every event keeps the lowest channel first. -/
theorem lowestFirst_act (e : Event) {s : Computer Banked}
    (hrule : s.board.PriorityOnly) (h : s.board.LowestFirst) :
    (e.act s).board.LowestFirst := by
  cases he : e.isAside with
  | true =>
    obtain ⟨move, -, hchannel, hsignals⟩ := signals_act he s
    have hmoved : (s.board.onLines move).LowestFirst :=
      h.of_requests_eq rfl (hchannel s.board.lines)
    exact hmoved.of_signals_eq hsignals
  | false =>
    cases e with
    | step => exact Exec.lowestFirst_step h
    | request channel => exact h.request hrule channel
    | acknowledge channel => exact h.acknowledge channel
    | _ => cases he

/-- So does every history whose writes to the port keep the rule. -/
theorem lowestFirst_after {events : List Event} {s : Computer Banked}
    (hrule : s.board.PriorityOnly) (h : s.board.LowestFirst)
    (hwrites : ∀ v ∈ priorityWrites events s, bitOf v 3 = true) :
    (after events s).board.LowestFirst := by
  induction events generalizing s with
  | nil => exact h
  | cons e rest ih =>
    obtain ⟨hfirst, hrest⟩ := List.forall_mem_append.1 hwrites
    exact ih (priorityOnly_act hrule hfirst) (lowestFirst_act e hrule h)
      hrest

-- ===================================================== since the reset

/-- A reset brings the rule back, with nothing pending. -/
theorem lowestFirst_reset {m : Machine}
    (h : m.computer.board.controller.isSome = true) :
    m.reset.computer.board.LowestFirst
      ∧ m.reset.computer.board.PriorityOnly := by
  obtain ⟨hfirst, hrule⟩ : (m.resetBanks.computer.board.attachAll).LowestFirst
      ∧ (m.resetBanks.computer.board.attachAll).PriorityOnly :=
    Board.lowestFirst_attachAll h
  exact ⟨hfirst.of_signals_eq (Board.signals_note _ _),
    hrule.of_controller_eq (Board.note_controller _ _)⟩

/-- As long as the first priority rule stays in force, the channel passed
on is the lowest that is pending: for a controller that was attached to
its lines and is then used in any way, and for the controller of a
machine after any reset, whatever happens to the machine and whatever it
executes. So no maskable interrupt is taken for a channel while a lower
one is pending. -/
theorem lowest_served_first :
    (∀ (c : Controller) (lines : Lines) (slot : Nat)
        (ops : List Controller.Operation),
      (∀ op ∈ ops, op.keepsRule = true) →
      let s := ops.foldl Controller.Operation.act
        ⟨(c.attach (some slot)).1, lines⟩
      s.controller.pending ≠ 0 →
        s.controller.IsLowest s.controller.current
          ∧ s.lines.channel = s.controller.current)
    ∧ ∀ (m : Machine), m.computer.board.controller.isSome = true →
      ∀ events : List Event,
      (∀ v ∈ priorityWrites events m.reset.computer, bitOf v 3 = true) →
      let s := after events m.reset.computer
      (∃ c, s.board.controller = some c
        ∧ (c.pending ≠ 0 →
          c.IsLowest c.current ∧ s.board.lines.channel = c.current))
      ∧ ∀ channel, s.interrupt? = some (.maskable channel) →
        s.board.isPending channel = true
          ∧ ∀ k, k < channel → s.board.isPending k = false := by
  constructor
  · intro c lines slot ops hops s hne
    obtain ⟨hwired, hzero, hrule⟩ := Controller.attach_fresh slot c
    have hattached : (⟨(c.attach (some slot)).1, lines⟩ :
        Controller.WithLines).LowestFirst :=
      Controller.lowestFirst_of_idle hwired hzero
    have hrun : s.LowestFirst :=
      Controller.lowestFirst_run hops hrule hattached
    exact ⟨hrun.lowest hne, hrun.channel_eq hne⟩
  · intro m hm events hwrites s
    obtain ⟨hfirst, hrule⟩ := lowestFirst_reset hm
    have hcoh : s.board.Coherent :=
      Leads.coherent ⟨events, rfl⟩ (coherent_reset hm)
    have hs : s.board.LowestFirst := lowestFirst_after hrule hfirst hwrites
    refine ⟨?_, fun channel hentry => ⟨?_, fun k hk => ?_⟩⟩
    · obtain ⟨c, hc, hlowest⟩ := hs
      exact ⟨c, hc, fun hne => ⟨hlowest.lowest hne, hlowest.channel_eq hne⟩⟩
    · exact (Exec.pending_of_entry hcoh hentry).2
    · obtain ⟨c, hc, hnone⟩ := Exec.lowest_of_entry hs hentry
      rw [← Exec.isPending_atBoundary, Board.isPending, hc]
      exact hnone k hk

/-- Channel 1 overtakes channel 5, channel 3 is held off, and a halted CPU
is about to serve channel 1. -/
theorem lowest_served_first_overtaking :
    let m : Machine := new {} {}
    let events : List Event :=
      [.output 0xE6 7, .request 5, .request 1, .output 0xE4 0x0A,
        .request 3, .setCpu { regs.iff1 := true, halted := true }]
    let s := after events m.reset.computer
    (∀ v ∈ priorityWrites events m.reset.computer, bitOf v 3 = true)
      ∧ s.interrupt? = some (.maskable 1)
      ∧ s.board.isPending 5 = true
      ∧ s.board.isPending 1 = true
      ∧ ∀ k, k < 1 → s.board.isPending k = false := by
  intro m events s
  have hwrites : ∀ v ∈ priorityWrites events m.reset.computer,
      bitOf v 3 = true := by
    decide +kernel
  have hentry : s.interrupt? = some (.maskable 1) := by decide +kernel
  obtain ⟨-, hserved⟩ := lowest_served_first.2 m rfl events hwrites
  exact ⟨hwrites, hentry, by decide +kernel, hserved 1 hentry⟩

end Machine
end HomeZ80
