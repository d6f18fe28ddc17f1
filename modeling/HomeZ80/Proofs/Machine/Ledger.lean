/-
The ledger of requests: every request that is accepted is served exactly
once.

Three things are counted for each channel along a history: requests
that made it pending, entries of the CPU on its behalf, and
acknowledgements from elsewhere that took it back. What was accepted is
always what was served, what was taken back, and what still waits
(`requests_served_once`).

# Why the books balance

A single event moves at most one count, and the pending bit of the
channel with it (`balance_act`). The case with an argument in it is the
step. An entry acknowledges the channel that the controller names at
the boundary, and that this channel is pending then, so that the entry
clears a bit that was really set, is the coherence of line and requests
(`pending_of_entry`). A step that takes the non-maskable interrupt
instead, or none, reaches no request at all.

The loops of a machine are histories too (`leads_stepN`, `leads_run`),
so the books balance over them as well.
-/
import HomeZ80.Proofs.Cpu.Entry
import HomeZ80.Proofs.Machine.Reached

namespace HomeZ80

-- ==================================================== pending on a board

namespace Board

variable {μ : Type}

/-- Whether a channel is pending at the controller of a board. -/
def isPending (channel : UInt8) (b : Board μ) : Bool :=
  b.controller.any (·.isPending channel)

/-- Who is pending is told by the signals. -/
theorem isPending_of_signals_eq {b b' : Board μ}
    (h : b'.signals = b.signals) (channel : UInt8) :
    b'.isPending channel = b.isPending channel := by
  have hrequests : ∀ b : Board μ, b.isPending channel
      = b.signals.2.any fun r => bitOf r.pending channel.toNat := by
    intro b
    unfold isPending signals
    cases b.controller <;> rfl
  rw [hrequests b', hrequests b, h]

/-- A request never takes another one back. -/
theorem isPending_request {k : UInt8} {b : Board μ}
    (h : b.isPending k = true) (channel : UInt8) :
    (b.request channel).isPending k = true := by
  unfold request onController
  cases hc : b.controller with
  | none => exact h
  | some c =>
    rw [isPending, hc] at h
    rw [isPending_of_signals_eq (signals_note _ _)]
    show (Controller.request channel ⟨c, b.lines⟩).1.controller.isPending
      k = true
    rw [Controller.isPending_request]
    show (c.isPending k || _) = true
    rw [show c.isPending k = true from h, Bool.true_or]

/-- An acknowledgement takes back its own channel and no other. -/
theorem isPending_acknowledge (channel k : UInt8) (b : Board μ) :
    (b.acknowledge channel).isPending k
      = (b.isPending k && k != channel) := by
  unfold acknowledge onController
  cases hc : b.controller with
  | none => simp [isPending, hc]
  | some c =>
    rw [isPending_of_signals_eq (signals_note _ _), isPending, isPending,
      hc]
    exact Controller.isPending_acknowledge channel k ⟨c, b.lines⟩

variable [Decoder μ]

theorem Touches.isPending_eq {b b' : Board μ} (h : b.Touches b')
    (channel : UInt8) : b'.isPending channel = b.isPending channel :=
  isPending_of_signals_eq h.signals_eq channel

end Board

-- ================================================================ steps

namespace Exec

variable {μ : Type}

/-- An acknowledgement by the CPU takes away the one channel that it is
given. -/
theorem isPending_acknowledge (channel k : UInt8) (s : Computer μ) :
    (acknowledge channel s).2.board.isPending k
      = (s.board.isPending k && k != channel) := by
  cases hc : s.board.controller with
  | none =>
    rw [acknowledge_of_none hc]
    simp [Board.isPending, Board.onLines, hc]
  | some c =>
    rw [acknowledge_of_some hc]
    exact Board.isPending_acknowledge channel k s.board

variable [Decoder μ]

/-- No instruction reaches a request. -/
theorem isPending_atBoundary (k : UInt8) (s : Computer μ) :
    s.atBoundary.board.isPending k = s.board.isPending k :=
  (touches_instruct s).isPending_eq k

/-- A step that takes the maskable interrupt of a channel serves the
request of this channel, and no other. -/
theorem isPending_step_of_maskable {s : Computer μ} {channel : UInt8}
    (h : s.interrupt? = some (.maskable channel)) (k : UInt8) :
    (step s).2.board.isPending k
      = (s.board.isPending k && k != channel) := by
  rw [step_of_entry h, ← isPending_atBoundary k s,
    ← isPending_acknowledge channel k s.atBoundary]
  exact (touches_enterMaskable channel s.atBoundary).isPending_eq k

theorem isPending_step_of_not_maskable {s : Computer μ}
    (h : ∀ channel, s.interrupt? ≠ some (.maskable channel)) (k : UInt8) :
    (step s).2.board.isPending k = s.board.isPending k := by
  rw [← isPending_atBoundary k s]
  cases he : s.interrupt? with
  | none => rw [step_of_no_entry he]
  | some entry =>
    cases entry with
    | nmi =>
      rw [step_of_entry he]
      exact (touches_enterNmi s.atBoundary).isPending_eq k
    | maskable channel => exact absurd he (h channel)

/-- A maskable interrupt is only ever taken for a channel that is
pending. -/
theorem pending_of_entry {s : Computer μ} {channel : UInt8}
    (hcoh : s.board.Coherent)
    (h : s.interrupt? = some (.maskable channel)) :
    channel < Controller.channels
      ∧ s.board.isPending channel = true := by
  obtain ⟨-, -, hirq, hrequested⟩ := Computer.interrupt?_eq_maskable h
  obtain ⟨c, hc, hat⟩ :=
    hcoh.of_signals_eq (touches_instruct s).signals_eq
  have hatc : s.atBoundary.board.controller = some c := hc
  have hmem : c.isPending c.current = true :=
    hat.current_pending (hat.asserted_iff.1 hirq)
  have hchannel : c.current = channel := by
    rw [← hrequested, Computer.requestedChannel, hatc]
  rw [hchannel] at hmem
  refine ⟨Controller.lt_channels_of_isPending hmem, ?_⟩
  rw [← isPending_atBoundary, Board.isPending, hatc]
  exact hmem

end Exec

namespace Computer

variable {μ : Type} [Decoder μ]

/-- The next step serves a channel: the request of just this channel is
taken off the pending set, and it is this channel that the mode turns
into a place to go. -/
structure Serves (channel : UInt8) (s : Computer μ) : Prop where
  one_of_eight : channel < 8
  waiting : s.board.isPending channel = true
  removed (k : UInt8) :
    s.step.2.board.isPending k = (s.board.isPending k && k != channel)
  /-- Mode 0 carries out twice the channel as an opcode. -/
  opcode : s.atBoundary.cpu.regs.im = .im0 →
    let t := (Exec.heed channel s.atBoundary).2
    let n := Note.im0Taken channel (2 * channel) t.cpu.regs.pc
    ∃ cost, s.step.2 =
      { (Exec.opcode (2 * channel) (Exec.note n t).2).2 with
        cpu.cost := cost }
  /-- Mode 1 goes to a fixed address. -/
  fixed : s.atBoundary.cpu.regs.im = .im1 →
    s.step.2.cpu.regs.pc = 0x0038
  /-- Mode 2 goes where the entry of the channel in the table says. -/
  table : s.atBoundary.cpu.regs.im = .im2 →
    let entry := word s.atBoundary.cpu.regs.i (2 * channel)
    s.step.2.cpu.regs.pc =
      word (s.atBoundary.board.valueAt (entry + 1))
        (s.atBoundary.board.valueAt entry)

/-- A step that takes a maskable interrupt serves its channel. -/
theorem serves_of_entry {s : Computer μ} {channel : UInt8}
    (hcoh : s.board.Coherent)
    (h : s.interrupt? = some (.maskable channel)) : s.Serves channel := by
  obtain ⟨hlt, hwaiting⟩ := Exec.pending_of_entry hcoh h
  -- the state in which the mode is looked at
  let t := (Exec.heed channel s.atBoundary).2
  have hstep : ∃ cost, s.step.2 =
      { (Exec.vector channel t).2 with cpu.cost := cost } := by
    rw [step, Exec.step_of_entry h]
    exact ⟨_, rfl⟩
  obtain ⟨cost, hstep⟩ := hstep
  have him : t.cpu.regs.im = s.atBoundary.cpu.regs.im :=
    Exec.heed_im channel s.atBoundary
  exact
    { one_of_eight := hlt
      waiting := hwaiting
      removed := Exec.isPending_step_of_maskable h
      opcode := fun hmode => by
        refine ⟨cost, ?_⟩
        rw [hstep, Exec.vector_im0 channel (him.trans hmode)]
      fixed := fun hmode => by
        rw [hstep]
        exact Exec.vector_im1 channel (him.trans hmode)
      table := fun hmode => by
        have hsame := Exec.sameMemory_heed channel s.atBoundary
        rw [hstep]
        show (Exec.vector channel t).2.cpu.regs.pc = _
        rw [Exec.vector_im2 hlt (him.trans hmode)]
        simp only [t, hsame.valueAt_eq, Exec.heed_i] }

end Computer

namespace Machine

-- ============================================================== counting

/-- A request that makes a channel pending. -/
def accepts (channel : UInt8) (s : Computer Banked) (e : Event) : Bool :=
  match e with
  | .request _ =>
    !s.board.isPending channel && (e.act s).board.isPending channel
  | _ => false

/-- A step that takes the maskable interrupt of a channel. -/
def enters (channel : UInt8) (s : Computer Banked) (e : Event) : Bool :=
  match e with
  | .step => s.interrupt? == some (.maskable channel)
  | _ => false

/-- An acknowledgement from outside the CPU that takes a channel off the
pending set. -/
def withdraws (channel : UInt8) (s : Computer Banked) (e : Event) :
    Bool :=
  match e with
  | .acknowledge _ =>
    s.board.isPending channel && !(e.act s).board.isPending channel
  | _ => false

/-- How many of the events that happen to a computer are of a kind,
which may depend on the state that each of them finds. -/
def tally (kind : Computer Banked → Event → Bool) :
    List Event → Computer Banked → Nat
  | [], _ => 0
  | e :: rest, s => (kind s e).toNat + tally kind rest (e.act s)

/-- An event that leaves requests to others leaves the channel too. -/
theorem isPending_aside {e : Event} (he : e.isAside = true)
    (channel : UInt8) (s : Computer Banked) :
    (e.act s).board.isPending channel = s.board.isPending channel := by
  obtain ⟨move, -, -, hsignals⟩ := signals_act he s
  rw [Board.isPending_of_signals_eq hsignals]
  rfl

/-- The books balance over a step: the bit of a channel falls when the
CPU enters on its behalf, and only then. -/
theorem balance_step (channel : UInt8) {s : Computer Banked}
    (h : s.board.Coherent) :
    (s.board.isPending channel).toNat
      = (enters channel s .step).toNat
        + (s.step.2.board.isPending channel).toNat := by
  by_cases hmaskable : ∃ k, s.interrupt? = some (.maskable k)
  · obtain ⟨k, hk⟩ := hmaskable
    have hafter := Exec.isPending_step_of_maskable hk channel
    rw [enters, hk, Computer.step, hafter]
    by_cases hsame : k = channel
    · subst hsame
      rw [(Exec.pending_of_entry h hk).2]
      simp
    · have hentry : (some (Entry.maskable k)
          == some (Entry.maskable channel)) = false := by
        simpa using hsame
      have hkeeps : (channel != k) = true := by
        simpa using fun heq : channel = k => hsame heq.symm
      rw [hentry, hkeeps]
      simp
  · have hnone : ∀ k, s.interrupt? ≠ some (.maskable k) := fun k hk =>
      hmaskable ⟨k, hk⟩
    have hafter := Exec.isPending_step_of_not_maskable hnone channel
    rw [enters, Computer.step, hafter]
    simp [hnone channel]

/-- An event balances: what was pending or is accepted is served,
withdrawn, or still pending. -/
theorem balance_act (channel : UInt8) (e : Event) {s : Computer Banked}
    (h : s.board.Coherent) :
    (s.board.isPending channel).toNat + (accepts channel s e).toNat
      = (enters channel s e).toNat + (withdraws channel s e).toNat
        + ((e.act s).board.isPending channel).toNat := by
  cases e with
  | step => exact balance_step channel h
  | request k =>
    have hkeeps : s.board.isPending channel = true →
        ((Event.request k).act s).board.isPending channel = true :=
      fun hp => Board.isPending_request hp k
    simp only [accepts, enters, withdraws]
    cases hp : s.board.isPending channel with
    | false => simp
    | true => simp [hkeeps hp]
  | acknowledge k =>
    have hfalls : ((Event.acknowledge k).act s).board.isPending channel
        = (s.board.isPending channel && channel != k) :=
      Board.isPending_acknowledge k channel s.board
    simp only [accepts, enters, withdraws, hfalls]
    cases s.board.isPending channel <;> cases channel != k <;> rfl
  | _ =>
    rw [isPending_aside rfl]
    show _ + 0 = 0 + 0 + _
    omega

/-- The books balance over a history of any length. -/
theorem balance_after (channel : UInt8) (events : List Event)
    {s : Computer Banked} (h : s.board.Coherent) :
    (s.board.isPending channel).toNat
        + tally (accepts channel) events s
      = tally (enters channel) events s
        + tally (withdraws channel) events s
        + ((after events s).board.isPending channel).toNat := by
  induction events generalizing s with
  | nil => simp [tally]
  | cons e rest ih =>
    have hfirst := balance_act channel e h
    have hrest := ih (coherent_act e s h)
    simp only [tally, after_cons]
    omega

-- ======================================================= since the reset

/-- A machine that was just built or reset. -/
inductive JustReset (config : MachineConfig) (log : Log) :
    Machine → Prop
  | new : JustReset config log (new config log)
  | reset {m : Machine} : Reached config log m →
      JustReset config log m.reset

/-- After a reset line and requests agree. -/
theorem JustReset.coherent {config : MachineConfig} {log : Log}
    {m : Machine} (h : JustReset config log m) :
    m.computer.board.Coherent := by
  cases h with
  | new => exact Reached.new.coherent
  | reset hm => exact hm.reset.coherent

theorem isPending_reset (m : Machine) (channel : UInt8) :
    m.reset.computer.board.isPending channel = false := by
  have hattached :
      (m.resetBanks.computer.board.attachAll).isPending channel
        = false := by
    unfold Board.attachAll
    cases hc : m.resetBanks.computer.board.controller with
    | none => simp [Board.isPending, hc]
    | some c =>
      rw [Board.isPending_of_signals_eq
        ((Board.signals_attachTimers _).trans (Board.signals_note _ _))]
      unfold Controller.attach
      cases c.wire <;> simp [Board.isPending, Controller.isPending,
        Controller.reset, bitOf]
  exact (Board.isPending_of_signals_eq (Board.signals_note _ _) _).trans
    hattached

/-- After a reset nobody waits. -/
theorem JustReset.isPending_eq_false {config : MachineConfig}
    {log : Log} {m : Machine} (h : JustReset config log m)
    (channel : UInt8) :
    m.computer.board.isPending channel = false := by
  cases h with
  | new => exact isPending_reset _ channel
  | reset _ => exact isPending_reset _ channel

/-- Whatever happens to a machine after a reset, every accepted request
is served exactly once or taken back, unless it still waits; each entry
of the CPU serves just the channel that it takes off the pending set;
and a step without a maskable entry, be it for a non-maskable interrupt
or because none may be taken, leaves all requests waiting. -/
theorem requests_served_once {config : MachineConfig} {log : Log}
    {m : Machine} (hm : JustReset config log m)
    (events : List Event) :
    let s := after events m.computer
    (∀ channel,
      tally (accepts channel) events m.computer
        = tally (enters channel) events m.computer
          + tally (withdraws channel) events m.computer
          + (s.board.isPending channel).toNat)
      ∧ (∀ channel, s.interrupt? = some (.maskable channel) →
          s.Serves channel)
      ∧ ((∀ channel, s.interrupt? ≠ some (.maskable channel)) →
          ∀ k, s.step.2.board.isPending k = s.board.isPending k) := by
  intro s
  have hcoh : s.board.Coherent :=
    Leads.coherent ⟨events, rfl⟩ hm.coherent
  refine ⟨fun channel => ?_, fun channel => ?_, fun hnone k => ?_⟩
  · have hbalance := balance_after channel events hm.coherent
    rw [hm.isPending_eq_false channel] at hbalance
    simpa using hbalance
  · exact Computer.serves_of_entry hcoh
  · exact Exec.isPending_step_of_not_maskable hnone k

/-- A halted CPU is woken by channel 3, which was requested once and is
about to be served. -/
theorem requests_served_once_halted :
    let events : List Event :=
      [.setCpu { regs.iff1 := true, halted := true }, .request 3]
    let m := new {} {}
    let s := after events m.computer
    JustReset {} {} m
      ∧ s.interrupt? = some (.maskable 3)
      ∧ tally (accepts 3) events m.computer = 1
      ∧ tally (accepts 3) events m.computer
        = tally (enters 3) events m.computer
          + tally (withdraws 3) events m.computer
          + (s.board.isPending 3).toNat
      ∧ s.Serves 3 := by
  have hentry : (after
      [.setCpu { regs.iff1 := true, halted := true }, .request 3]
      (new {} {}).computer).interrupt? = some (.maskable 3) := by
    decide +kernel
  have hnew : JustReset {} {} (new {} {}) := .new
  obtain ⟨hbalance, hserves, -⟩ := requests_served_once hnew
    [.setCpu { regs.iff1 := true, halted := true }, .request 3]
  exact ⟨hnew, hentry, by decide +kernel, hbalance 3, hserves 3 hentry⟩

end Machine
end HomeZ80
