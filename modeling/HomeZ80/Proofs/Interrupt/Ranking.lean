/-
Under the first priority rule the lowest pending channel always comes
first. The controller never sorts: it passes on each channel as it is
accepted, and remembers no order. What holds nevertheless is that the
channel passed on last is the lowest of those pending, as long as
anything is (`WithLines.LowestFirst`).

# Who keeps it

- An acknowledgement passes on the lowest channel left, whatever channel
  it was for and whatever was passed on before. It needs no rule.
- A request is held off while a lower channel is pending, so a channel
  that is accepted has none below it. This is the one place where the
  rule comes in: under the compare rule a channel may be accepted, and
  passed on, above one that waits.
- Writes to the mask and the priority register, and all that a program
  does, leave the pending set alone.

So the rule has to be in force whenever a request is made. Only a write
to the priority register can change it, and the writes that do are those
with bit 3 clear (`Controller.keepsRule`).
-/
import HomeZ80.Proofs.Cpu.Lasting
import HomeZ80.Proofs.Interrupt.Coherence

namespace HomeZ80

-- ============================================== a controller and lines

namespace Controller

/-- A channel is pending, and no lower one is. -/
structure IsLowest (channel : UInt8) (c : Controller) : Prop where
  pending : c.isPending channel = true
  least (k : UInt8) (h : k < channel) : c.isPending k = false

theorem IsLowest.of_pending_eq {channel : UInt8} {c c' : Controller}
    (h : c.IsLowest channel) (hsame : c'.pending = c.pending) :
    c'.IsLowest channel := by
  constructor
  · rw [isPending, hsame]
    exact h.pending
  · intro k hk
    rw [isPending, hsame]
    exact h.least k hk

/-- While something is pending, the channel passed on last is the lowest
that is pending, and it is the one recorded on the line. -/
structure WithLines.LowestFirst (s : WithLines) : Prop where
  wired : s.controller.wire.isSome = true
  lowest : s.controller.pending ≠ 0 →
    s.controller.IsLowest s.controller.current
  channel_eq : s.controller.pending ≠ 0 →
    s.lines.channel = s.controller.current

/-- The ranking is a matter of the requests and of the channel on the line
alone. -/
theorem WithLines.LowestFirst.of_requests_eq {s t : WithLines}
    (h : s.LowestFirst)
    (hrequests : t.controller.requests = s.controller.requests)
    (hchannel : t.lines.channel = s.lines.channel) : t.LowestFirst := by
  obtain ⟨hpending, hcurrent, hwire⟩ := Requests.mk.inj hrequests
  constructor
  · rw [hwire]
    exact h.wired
  · intro hne
    rw [hpending] at hne
    rw [hcurrent]
    exact (h.lowest hne).of_pending_eq hpending
  · intro hne
    rw [hpending] at hne
    rw [hchannel, hcurrent]
    exact h.channel_eq hne

/-- With nothing pending there is nothing to rank. -/
theorem lowestFirst_of_idle {s : WithLines}
    (hwired : s.controller.wire.isSome = true)
    (hzero : s.controller.pending = 0) : s.LowestFirst where
  wired := hwired
  lowest := fun hne => absurd hzero hne
  channel_eq := fun hne => absurd hzero hne

/-- A signal names the channel that is served next, so it has to be the
lowest. -/
theorem lowestFirst_signal {channel : UInt8} {s : WithLines}
    (hwired : s.controller.wire.isSome = true)
    (hlowest : s.controller.IsLowest channel) :
    (signal channel s).1.LowestFirst := by
  obtain ⟨slot, hslot⟩ := Option.isSome_iff_exists.1 hwired
  unfold signal
  rw [hslot]
  exact
    { wired := hwired
      lowest := fun _ => hlowest.of_pending_eq rfl
      channel_eq := fun _ => rfl }

/-- The test that holds requests off looks at all lower channels. -/
theorem isPending_eq_false_of_lower {channel k : UInt8} {c : Controller}
    (h : c.lowerPending channel = false) (hk : k < channel) :
    c.isPending k = false := by
  have hlt : k.toNat < channel.toNat := hk
  have hmod : c.pending.toNat % 2 ^ channel.toNat = 0 := by
    unfold lowerPending at h
    rw [Nat.shiftLeft_eq, Nat.one_mul] at h
    simpa using h
  have hbit := Nat.testBit_mod_two_pow c.pending.toNat channel.toNat k.toNat
  rw [hmod, Nat.zero_testBit, decide_eq_true hlt, Bool.true_and] at hbit
  exact hbit.symm

/-- Under the first rule an accepted channel has none pending below. -/
theorem lowerPending_of_accepted {channel : UInt8} {c : Controller}
    (hrule : c.priorityOnly = true) (h : c.judge channel = .accepted) :
    c.lowerPending channel = false := by
  unfold judge at h
  rw [hrule, Bool.true_and] at h
  cases hlower : c.lowerPending channel with
  | false => rfl
  | true =>
    rw [hlower, if_pos rfl] at h
    split at h
    · cases h
    · split at h <;> cases h

/-- Under the rule the channel of a request that is accepted is below all
that are pending, so it is the one to signal. -/
theorem lowestFirst_request (channel : UInt8) {s : WithLines}
    (hrule : s.controller.priorityOnly = true) (h : s.LowestFirst) :
    (request channel s).1.LowestFirst := by
  have hmem := fun k => isPending_request channel k s
  unfold request at hmem ⊢
  split
  · next hjudge =>
    have hlower := lowerPending_of_accepted hrule hjudge
    simp only [hjudge, isPending, pending_signal, BEq.rfl, Bool.true_and]
      at hmem
    refine lowestFirst_signal h.wired ⟨?_, ?_⟩
    · exact (hmem channel).trans (by rw [BEq.rfl, Bool.or_true])
    · intro k hk
      have hne : (k == channel) = false :=
        beq_eq_false_iff_ne.2 (UInt8.ne_of_lt hk)
      have hold : bitOf s.controller.pending k.toNat = false :=
        isPending_eq_false_of_lower hlower hk
      exact (hmem k).trans (by rw [hold, hne, Bool.or_false])
  · exact h

/-- Whatever was passed on before, what an acknowledgement passes on is
the lowest channel left. -/
theorem lowestFirst_of_acknowledged {channel : UInt8} {s : WithLines}
    (hwired : s.controller.wire.isSome = true)
    (hknown : channel < channels) :
    (acknowledge channel s).1.LowestFirst := by
  unfold acknowledge
  rw [if_neg (UInt8.not_le.2 hknown)]
  dsimp only
  split
  · next hleast =>
    obtain ⟨hpending, hnone⟩ := lowest?_eq_some hleast
    exact lowestFirst_signal hwired ⟨hpending, hnone⟩
  · next hleast =>
    exact lowestFirst_of_idle hwired (lowest?_eq_none hleast)

/-- An acknowledgement signals the lowest channel that is left. -/
theorem lowestFirst_acknowledge (channel : UInt8) {s : WithLines}
    (h : s.LowestFirst) : (acknowledge channel s).1.LowestFirst := by
  by_cases hknown : channel < channels
  · exact lowestFirst_of_acknowledged h.wired hknown
  · rw [acknowledge_of_unknown (UInt8.not_lt.1 hknown)]
    exact h

-- ============================================================= the rule

/-- Whether a write to a register of the controller leaves the first
priority rule in force. -/
def keepsRule : Port → UInt8 → Bool
  | .priority, v => bitOf v 3
  | .mask, _ => true

/-- The rule is ended by a write to its register and to no other. -/
theorem priorityOnly_writePort {reg : Port} {v : UInt8} {c : Controller}
    (hrule : c.priorityOnly = true) (h : keepsRule reg v = true) :
    (c.writePort reg v).priorityOnly = true := by
  cases reg with
  | priority => exact h
  | mask => exact hrule

-- =========================================================== operations

/-- What can be done to a controller. -/
inductive Operation where
  | request (channel : UInt8)
  | acknowledge (channel : UInt8)
  | write (reg : Port) (v : UInt8)
  deriving DecidableEq, Repr

def Operation.act (s : WithLines) : Operation → WithLines
  | .request channel => (Controller.request channel s).1
  | .acknowledge channel => (Controller.acknowledge channel s).1
  | .write reg v =>
    { s with controller := s.controller.writePort reg v }

def Operation.keepsRule : Operation → Bool
  | .write reg v => Controller.keepsRule reg v
  | _ => true

theorem Operation.priorityOnly_act {op : Operation}
    (h : op.keepsRule = true) {s : WithLines}
    (hrule : s.controller.priorityOnly = true) :
    (op.act s).controller.priorityOnly = true := by
  cases op with
  | request channel =>
    have hkept := congrArg priorityOnly (standing_request channel s)
    exact hkept.trans hrule
  | acknowledge channel =>
    have hkept := congrArg priorityOnly (standing_acknowledge channel s)
    exact hkept.trans hrule
  | write reg v => exact priorityOnly_writePort hrule h

/-- While the rule holds, every operation keeps the lowest channel
first. -/
theorem Operation.lowestFirst_act (op : Operation) {s : WithLines}
    (hrule : s.controller.priorityOnly = true) (h : s.LowestFirst) :
    (op.act s).LowestFirst := by
  cases op with
  | request channel => exact lowestFirst_request channel hrule h
  | acknowledge channel => exact lowestFirst_acknowledge channel h
  | write reg v =>
    exact h.of_requests_eq (requests_writePort reg v s.controller) rfl

/-- So does every series of operations that keeps the rule. -/
theorem lowestFirst_run {ops : List Operation}
    (hops : ∀ op ∈ ops, op.keepsRule = true) {s : WithLines}
    (hrule : s.controller.priorityOnly = true) (h : s.LowestFirst) :
    (ops.foldl Operation.act s).LowestFirst := by
  induction ops generalizing s with
  | nil => exact h
  | cons op rest ih =>
    obtain ⟨hop, hrest⟩ := List.forall_mem_cons.1 hops
    exact ih hrest (Operation.priorityOnly_act hop hrule)
      (op.lowestFirst_act hrule h)

/-- Attaching empties the pending set and puts the first rule in
force. -/
theorem attach_fresh (slot : Nat) (c : Controller) :
    (c.attach (some slot)).1.wire.isSome = true
      ∧ (c.attach (some slot)).1.pending = 0
      ∧ (c.attach (some slot)).1.priorityOnly = true := by
  rw [attach_fst]
  refine ⟨?_, rfl, rfl⟩
  cases c.wire <;> rfl

end Controller

-- ============================================================= a board

namespace Board

variable {μ : Type}

def LowestFirst (b : Board μ) : Prop :=
  ∃ c, b.controller = some c
    ∧ (⟨c, b.lines⟩ : Controller.WithLines).LowestFirst

/-- The first priority rule is in force. -/
def PriorityOnly (b : Board μ) : Prop :=
  ∃ c, b.controller = some c ∧ c.priorityOnly = true

/-- The ranking is about the requests and the channel on the line. -/
theorem LowestFirst.of_requests_eq {b b' : Board μ} (h : b.LowestFirst)
    (hrequests : b'.signals.2 = b.signals.2)
    (hchannel : b'.lines.channel = b.lines.channel) : b'.LowestFirst := by
  obtain ⟨c, hc, hfirst⟩ := h
  unfold signals at hrequests
  rw [hc] at hrequests
  obtain ⟨c', hc', hcc'⟩ := Option.map_eq_some_iff.1 hrequests
  exact ⟨c', hc', hfirst.of_requests_eq hcc' hchannel⟩

/-- What does not move the signals does not disturb it. -/
theorem LowestFirst.of_signals_eq {b b' : Board μ} (h : b.LowestFirst)
    (hsame : b'.signals = b.signals) : b'.LowestFirst :=
  h.of_requests_eq (congrArg Prod.snd hsame)
    (congrArg (·.1.channel) hsame)

/-- What an operation keeps on a controller and its lines it keeps on
their board. -/
theorem LowestFirst.onController {b : Board μ} (h : b.LowestFirst)
    {act : Controller.WithLines → Controller.WithLines × List Note}
    (hact : ∀ c, b.controller = some c →
      (⟨c, b.lines⟩ : Controller.WithLines).LowestFirst →
        (act ⟨c, b.lines⟩).1.LowestFirst) :
    (b.onController act).LowestFirst := by
  obtain ⟨c, hc, hfirst⟩ := h
  have hafter := hact c hc hfirst
  unfold Board.onController
  rw [hc]
  exact LowestFirst.of_signals_eq ⟨_, rfl, hafter⟩ (signals_note _ _)

/-- This is where the rule is needed. -/
theorem LowestFirst.request {b : Board μ} (h : b.LowestFirst)
    (hrule : b.PriorityOnly) (channel : UInt8) :
    (b.request channel).LowestFirst := by
  obtain ⟨c, hc, hpriority⟩ := hrule
  refine h.onController fun c' hc' hfirst => ?_
  have hsame : c = c' := Option.some.inj (hc.symm.trans hc')
  subst hsame
  exact Controller.lowestFirst_request channel hpriority hfirst

/-- An acknowledgement on a board is one at its controller. -/
theorem LowestFirst.acknowledge {b : Board μ} (h : b.LowestFirst)
    (channel : UInt8) : (b.acknowledge channel).LowestFirst :=
  h.onController fun _ _ => Controller.lowestFirst_acknowledge channel

/-- The rule is a matter of the controller. -/
theorem PriorityOnly.of_controller_eq {b b' : Board μ}
    (h : b.PriorityOnly) (hsame : b'.controller = b.controller) :
    b'.PriorityOnly := by
  obtain ⟨c, hc, hrule⟩ := h
  exact ⟨c, hsame.trans hc, hrule⟩

/-- The rule is in the part of the controller that requests and
acknowledgements leave alone. -/
theorem PriorityOnly.of_standing_eq {b b' : Board μ}
    (h : b.PriorityOnly) (hsame : b'.standing = b.standing) :
    b'.PriorityOnly := by
  obtain ⟨c, hc, hrule⟩ := h
  unfold standing at hsame
  rw [hc] at hsame
  obtain ⟨c', hc', hcc'⟩ := Option.map_eq_some_iff.1 hsame
  have hkept := congrArg Controller.priorityOnly hcc'
  exact ⟨c', hc', hkept.trans hrule⟩

/-- A write to a register of the controller, direct or through a port,
keeps the rule unless it is meant to change it. -/
theorem PriorityOnly.register {b : Board μ} (h : b.PriorityOnly)
    {reg : Controller.Port} {v : UInt8}
    (hkeeps : Controller.keepsRule reg v = true) :
    ({ b with controller := b.controller.map (·.writePort reg v) } :
      Board μ).PriorityOnly := by
  obtain ⟨c, hc, hrule⟩ := h
  refine ⟨c.writePort reg v, ?_,
    Controller.priorityOnly_writePort hrule hkeeps⟩
  show Option.map _ b.controller = _
  rw [hc]
  rfl

/-- A controller that was just attached has nothing pending and follows the
rule. -/
theorem lowestFirst_attachAll {b : Board μ}
    (h : b.controller.isSome = true) :
    b.attachAll.LowestFirst ∧ b.attachAll.PriorityOnly := by
  obtain ⟨c, hc⟩ := Option.isSome_iff_exists.1 h
  obtain ⟨hwired, hzero, hrule⟩ := Controller.attach_fresh linesSlot c
  unfold attachAll
  rw [hc]
  constructor
  · refine LowestFirst.of_signals_eq ⟨_, rfl, ?_⟩
      ((signals_attachTimers _).trans (signals_note _ _))
    exact Controller.lowestFirst_of_idle hwired hzero
  · unfold attachTimers
    refine ⟨(c.attach (some linesSlot)).1, ?_, hrule⟩
    rw [note_controller]
    exact note_controller _ _

variable [Decoder μ]

/-- No write to memory reaches the controller. -/
theorem controller_poke (addr : UInt16) (v : UInt8) (b : Board μ) :
    (b.poke addr v).controller = b.controller := by
  have hremarked := SameDevices.remarked .write addr b
  unfold poke
  split <;> exact hremarked.controller

end Board

-- ============================================================= the CPU

namespace Exec

variable {μ : Type}

/-- The CPU acknowledges at the controller, if there is one. -/
theorem lowestFirst_acknowledge (channel : UInt8) {s : Computer μ}
    (h : s.board.LowestFirst) :
    (acknowledge channel s).2.board.LowestFirst := by
  have hafter := h.acknowledge channel
  obtain ⟨c, hc, -⟩ := h
  rw [acknowledge_of_some hc]
  exact hafter

variable [Decoder μ]

/-- Only a write to a port can end the rule. -/
theorem lasting_priorityOnly :
    Board.Lasting (Board.PriorityOnly (μ := μ)) where
  afterRead h addr :=
    h.of_controller_eq (Board.SameDevices.afterRead addr _).controller
  poke h addr v := h.of_controller_eq (Board.controller_poke addr v _)
  note h n := h.of_controller_eq (Board.note_controller [n] _)
  afterInput h _ := h.of_controller_eq rfl
  clearNmi h := h.of_controller_eq rfl
  acknowledge h channel :=
    h.of_standing_eq (standing_acknowledge channel _)

/-- A step keeps the lowest channel first, whatever it executes. -/
theorem lowestFirst_step {s : Computer μ} (h : s.board.LowestFirst) :
    (step s).2.board.LowestFirst := by
  apply step_preserves (P := Board.LowestFirst) _ _ _ h
  · intro b b' ht hb
    exact hb.of_signals_eq ht.signals_eq
  · intro b hb
    exact hb.of_requests_eq rfl rfl
  · intro t channel ht
    exact lowestFirst_acknowledge channel ht

/-- No entry serves a channel while a lower one is pending. -/
theorem lowest_of_entry {s : Computer μ} {channel : UInt8}
    (hfirst : s.board.LowestFirst)
    (h : s.interrupt? = some (.maskable channel)) :
    ∃ c, s.atBoundary.board.controller = some c
      ∧ ∀ k, k < channel → c.isPending k = false := by
  obtain ⟨-, -, -, hrequested⟩ := Computer.interrupt?_eq_maskable h
  have hat : s.atBoundary.board.LowestFirst :=
    hfirst.of_signals_eq (touches_instruct s).signals_eq
  obtain ⟨c, hc, hlowest⟩ := hat
  have hchannel : c.current = channel := by
    rw [← hrequested, Computer.requestedChannel, hc]
  refine ⟨c, hc, fun k hk => ?_⟩
  cases hpending : c.isPending k with
  | false => rfl
  | true =>
    have hne : c.pending ≠ 0 :=
      (Controller.pending_ne_zero_iff c).2 ⟨k, hpending⟩
    rw [← hchannel] at hk
    rw [← hpending]
    exact (hlowest.lowest hne).least k hk

end Exec
end HomeZ80
