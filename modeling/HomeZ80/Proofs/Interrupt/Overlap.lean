/-
Calls that overlap and calls that do not. A fact about the controller,
its lines and the calls in progress that survives every access
(`InFlight.Kept`) survives whole calls, whatever is between their
accesses, and it is known of all that is built from calls. There are two
kinds: facts that survive any access at all, and facts that survive as
long as no call begins while another is in progress (`InFlight.admits`).

# What overlapping costs

Of the first kind is that no request is lost (`kept_heard`). Of the
second is that the line is up only while something is pending
(`kept_solo`). Between two accesses of one call it need not be, so what
is kept is told by how far the call has come: until a request has added
its channel the registers agree, and from then on the channel that it is
about to pass on stays pending, because nobody else is there to
acknowledge it (`Signal.Underway`). Where somebody is, the channel may be
gone when the line goes up.

# On a board

What the CPU executes reaches neither the line nor the requests behind it
(`Board.Touches.signals_eq`), and its interrupt entries are an
acknowledgement and otherwise nothing but accesses of other parts. So
either kind of fact survives its steps (`Board.During.step`).
-/
import HomeZ80.Proofs.Interrupt.Coherence
import HomeZ80.Proofs.Interrupt.Interleaving

namespace HomeZ80

namespace Controller

-- ====================================================== a call by itself

/-- A pending channel is being passed on, and some of it is done. -/
structure Signal.Underway (channel : UInt8) (s : WithLines)
    (left : Signal) : Prop where
  wired : s.controller.wire.isSome = true
  pending : s.controller.isPending channel = true
  current : left ≠ .storeCurrent → s.controller.current = channel
  recorded : left = .raise → s.lines.channel = channel

/-- A request with nobody else at work. Until it passes its channel on the
registers agree. -/
def RequestCall.Underway (s : WithLines) (r : RequestCall) : Prop :=
  match r.stage with
  | .signal left => left.Underway r.channel s
  | _ => s.Coherent ∧ r.channel < channels

/-- An acknowledgement with nobody else at work. It lowers the line
whatever is pending, and raises it again if it has to. -/
def AcknowledgeCall.Underway (s : WithLines) (a : AcknowledgeCall) : Prop :=
  match a.stage with
  | .clear => s.Coherent
  | .lower => s.controller.wire.isSome = true
  | .reload => s.controller.wire.isSome = true ∧ s.lines.irq = false
  | .signal next left => left.Underway next s

section
variable {s u : WithLines}

/-- What a signal on its way says is about the requests and the channel
alone. -/
theorem Signal.Underway.of_asked_eq {channel : UInt8} {left : Signal}
    (h : left.Underway channel s)
    (hrequests : u.controller.requests = s.controller.requests)
    (hchannel : u.lines.channel = s.lines.channel) :
    left.Underway channel u := by
  obtain ⟨hpending, hcurrent, hwire⟩ := Requests.mk.inj hrequests
  constructor
  · rw [hwire]
    exact h.wired
  · rw [isPending, hpending]
    exact h.pending
  · rw [hcurrent]
    exact h.current
  · rw [hchannel]
    exact h.recorded

/-- So it is with a request on its way, and with the line. -/
theorem RequestCall.Underway.of_asked_eq {r : RequestCall}
    (h : r.Underway s)
    (hrequests : u.controller.requests = s.controller.requests)
    (hirq : u.lines.irq = s.lines.irq)
    (hchannel : u.lines.channel = s.lines.channel) : r.Underway u := by
  obtain ⟨channel, stage⟩ := r
  cases stage with
  | signal left => exact Signal.Underway.of_asked_eq h hrequests hchannel
  | _ => exact ⟨h.1.of_asked_eq hrequests hirq hchannel, h.2⟩

theorem AcknowledgeCall.Underway.of_asked_eq {a : AcknowledgeCall}
    (h : a.Underway s)
    (hrequests : u.controller.requests = s.controller.requests)
    (hirq : u.lines.irq = s.lines.irq)
    (hchannel : u.lines.channel = s.lines.channel) : a.Underway u := by
  have hwire : u.controller.wire = s.controller.wire :=
    (Requests.mk.inj hrequests).2.2
  obtain ⟨channel, stage⟩ := a
  cases stage with
  | clear =>
    have hcoherent : s.Coherent := h
    exact hcoherent.of_asked_eq hrequests hirq hchannel
  | lower =>
    show u.controller.wire.isSome = true
    rw [hwire]
    exact h
  | reload =>
    show u.controller.wire.isSome = true ∧ u.lines.irq = false
    rw [hwire, hirq]
    exact h
  | signal next left =>
    exact Signal.Underway.of_asked_eq h hrequests hchannel

/-- The last access of passing a channel on makes controller and lines
agree. -/
theorem Signal.underway_access {channel : UInt8} {left : Signal}
    (h : left.Underway channel s) :
    let after := left.access channel s
    (∀ next, after.1 = some next → next.Underway channel after.2)
      ∧ (after.1 = none → after.2.Coherent) := by
  have hne : s.controller.pending ≠ 0 :=
    (pending_ne_zero_iff _).2 ⟨channel, h.pending⟩
  cases left with
  | storeCurrent =>
    have hnext : (Signal.storeCurrent.access channel s).1
        = some .storeChannel := if_pos h.wired
    refine ⟨fun next heq => ?_, fun heq => ?_⟩
    · obtain rfl := Option.some.inj (hnext.symm.trans heq)
      exact ⟨h.wired, h.pending, fun _ => rfl, nofun⟩
    · cases hnext.symm.trans heq
  | storeChannel =>
    refine ⟨fun next heq => ?_, nofun⟩
    obtain rfl := Option.some.inj heq
    exact ⟨h.wired, h.pending, fun _ => h.current nofun, fun _ => rfl⟩
  | raise =>
    have hcurrent : s.controller.current = channel := h.current nofun
    refine ⟨nofun, fun _ => ?_⟩
    exact
      { wired := h.wired
        asserted_iff := ⟨fun _ => hne, fun _ => rfl⟩
        current_pending := fun _ => by
          show s.controller.isPending s.controller.current = true
          rw [hcurrent]
          exact h.pending
        channel_eq := fun _ => by
          show s.lines.channel = s.controller.current
          rw [hcurrent]
          exact h.recorded rfl }

/-- A request that adds its channel has it pending from then on. -/
theorem isPending_merged {channel : UInt8} (h : channel < channels)
    (c : Controller) :
    ({ c with pending := c.pending ||| channelBit channel } :
      Controller).isPending channel = true := by
  rw [isPending, bitOf_or, bitOf_channelBit h, BEq.rfl, Bool.or_true]

/-- A request that is over leaves controller and lines in agreement. -/
theorem RequestCall.underway_access {r : RequestCall}
    (h : r.Underway s) :
    let after := r.access s
    (∀ next, after.1 = some next → next.Underway after.2)
      ∧ (after.1 = none → after.2.Coherent) := by
  obtain ⟨channel, stage⟩ := r
  cases stage with
  | signal left =>
    obtain ⟨hnext, hover⟩ := Signal.underway_access h
    refine ⟨fun next heq => ?_, fun heq => ?_⟩
    · obtain ⟨further, hfurther, rfl⟩ := Option.map_eq_some_iff.1 heq
      exact hnext further hfurther
    · exact hover (Option.map_eq_none_iff.1 heq)
  | merge =>
    obtain ⟨hcoherent, hknown⟩ := h
    cases hpending : s.controller.isPending channel with
    | true =>
      have hover : (access s ⟨channel, .merge⟩).1 = none := by
        simp [access, hpending]
      have hsame : (access s ⟨channel, .merge⟩).2 = s := by
        simp [access, or_channelBit_of_isPending hpending]
      refine ⟨fun next heq => ?_, fun _ => ?_⟩
      · cases hover.symm.trans heq
      · rw [hsame]
        exact hcoherent
    | false =>
      have hnext : (access s ⟨channel, .merge⟩).1
          = some ⟨channel, .signal .storeCurrent⟩ := by
        simp [access, hpending]
      refine ⟨fun next heq => ?_, fun heq => ?_⟩
      · obtain rfl := Option.some.inj (hnext.symm.trans heq)
        refine ⟨hcoherent.wired, isPending_merged hknown s.controller,
          fun h => absurd rfl h, fun h => ?_⟩
        cases h
      · cases hnext.symm.trans heq
  | loadMask | loadPending | loadRule _ | loadLevel =>
    -- nothing is written, and whatever comes next is before the merge
    refine ⟨fun next heq => ?_, fun _ => h.1⟩
    dsimp only [access] at heq
    repeat' split at heq
    all_goals first | (cases heq; exact h) | cases heq

/-- An acknowledgement that is over does so as well. -/
theorem AcknowledgeCall.underway_access {a : AcknowledgeCall}
    (h : a.Underway s) :
    let after := a.access s
    (∀ next, after.1 = some next → next.Underway after.2)
      ∧ (after.1 = none → after.2.Coherent) := by
  obtain ⟨channel, stage⟩ := a
  cases stage with
  | clear =>
    refine ⟨fun next heq => ?_, nofun⟩
    obtain rfl := Option.some.inj heq
    have hcoherent : s.Coherent := h
    exact hcoherent.wired
  | lower =>
    have hwired : s.controller.wire.isSome = true := h
    refine ⟨fun next heq => ?_, nofun⟩
    obtain rfl := Option.some.inj heq
    refine ⟨hwired, ?_⟩
    show (if s.controller.wire.isSome then s.lines.clearIrq
      else s.lines).irq = false
    rw [if_pos hwired]
    rfl
  | reload =>
    obtain ⟨hwired, hdown⟩ := h
    refine ⟨fun next heq => ?_, fun heq => ?_⟩
    · obtain ⟨least, hleast, rfl⟩ := Option.map_eq_some_iff.1 heq
      exact ⟨hwired, (lowest?_eq_some hleast).1, fun h => absurd rfl h,
        nofun⟩
    · exact coherent_of_idle hwired
        (lowest?_eq_none (Option.map_eq_none_iff.1 heq)) hdown
  | signal next left =>
    obtain ⟨hnext, hover⟩ := Signal.underway_access h
    refine ⟨fun later heq => ?_, fun heq => ?_⟩
    · obtain ⟨further, hfurther, rfl⟩ := Option.map_eq_some_iff.1 heq
      exact hnext further hfurther
    · exact hover (Option.map_eq_none_iff.1 heq)

end

-- ============================================================ invariants

namespace InFlight

/-- Whether a choice begins no call while another is in progress. -/
def admits (t : InFlight) : Choice → Bool
  | .request _ => t.requests.isEmpty && t.acknowledging.isNone
  | .acknowledge _ => t.requests.isEmpty
  | _ => true

/-- A fact about calls in flight that survives every access, or, if it is
strict, every access that is admitted. The registers that requests are
judged by have no part in it, nor have the lines that are not the
controller's. -/
structure Kept (strict : Bool) (I : InFlight → Prop) : Prop where
  same {t u : InFlight} (h : I t)
    (hrequests :
      u.shared.controller.requests = t.shared.controller.requests)
    (hirq : u.shared.lines.irq = t.shared.lines.irq)
    (hchannel : u.shared.lines.channel = t.shared.lines.channel)
    (hcalls : u.requests = t.requests)
    (hcall : u.acknowledging = t.acknowledging) : I u
  act {t : InFlight} (h : I t) (c : Choice)
    (hc : strict = true → t.admits c = true) : I (t.act c)

/-- At most one call is in progress, and it has come as far as it can by
itself. -/
inductive Solo : InFlight → Prop
  | still {s : WithLines} (h : s.Coherent) : Solo ⟨s, [], none⟩
  | requesting {s : WithLines} {r : RequestCall} (h : r.Underway s) :
      Solo ⟨s, [r], none⟩
  | acknowledging {s : WithLines} {a : AcknowledgeCall}
      (h : a.Underway s) : Solo ⟨s, [], some a⟩

/-- With no call in progress controller and lines agree. -/
theorem Solo.coherent {s : WithLines} (h : Solo ⟨s, [], none⟩) :
    s.Coherent := by
  cases h with
  | still h => exact h

/-- A request that is alone is on its way, or has left lines and controller
in order. -/
theorem solo_of_request {s : WithLines} {r? : Option RequestCall}
    (hnext : ∀ next, r? = some next → next.Underway s)
    (hover : r? = none → s.Coherent) : Solo ⟨s, r?.toList, none⟩ := by
  cases r? with
  | none => exact .still (hover rfl)
  | some next => exact .requesting (hnext next rfl)

/-- An acknowledgement that is alone is on its way, or has left them in
order. -/
theorem solo_of_acknowledgement {s : WithLines}
    {a? : Option AcknowledgeCall}
    (hnext : ∀ next, a? = some next → next.Underway s)
    (hover : a? = none → s.Coherent) : Solo ⟨s, [], a?⟩ := by
  cases a? with
  | none => exact .still (hover rfl)
  | some next => exact .acknowledging (hnext next rfl)

/-- A call that begins finds them in order. -/
theorem solo_begun {s : WithLines} (h : s.Coherent) (channel : UInt8) :
    Solo ⟨s, (RequestCall.begin? channel).toList, none⟩ := by
  refine solo_of_request (fun next heq => ?_) fun _ => h
  unfold RequestCall.begin? at heq
  split at heq
  · cases heq
  · next hknown =>
    obtain rfl := Option.some.inj heq
    exact ⟨h, UInt8.not_le.1 hknown⟩

/-- Mask and priority rule have no part in this. -/
theorem Solo.same {t u : InFlight} (h : t.Solo)
    (hrequests :
      u.shared.controller.requests = t.shared.controller.requests)
    (hirq : u.shared.lines.irq = t.shared.lines.irq)
    (hchannel : u.shared.lines.channel = t.shared.lines.channel)
    (hcalls : u.requests = t.requests)
    (hcall : u.acknowledging = t.acknowledging) : u.Solo := by
  obtain ⟨shared, requests, acknowledging⟩ := u
  obtain rfl : requests = t.requests := hcalls
  obtain rfl : acknowledging = t.acknowledging := hcall
  cases h with
  | still h => exact .still (h.of_asked_eq hrequests hirq hchannel)
  | requesting h =>
    exact .requesting (h.of_asked_eq hrequests hirq hchannel)
  | acknowledging h =>
    exact .acknowledging (h.of_asked_eq hrequests hirq hchannel)

/-- Calls that are made one at a time stay so, access by access. -/
theorem solo_act {t : InFlight} (h : t.Solo) (c : Choice)
    (hc : t.admits c = true) : (t.act c).Solo := by
  cases c with
  | request channel =>
    cases h with
    | still h =>
      have hbegun := solo_begun h channel
      rw [← List.append_nil (RequestCall.begin? channel).toList] at hbegun
      exact hbegun
    | requesting => cases hc
    | acknowledging => cases hc
  | access i =>
    cases h with
    | still h => exact .still h
    | acknowledging h => exact .acknowledging h
    | requesting h =>
      cases i with
      | zero =>
        obtain ⟨hnext, hover⟩ := RequestCall.underway_access h
        have hsolo := solo_of_request hnext hover
        rw [← List.append_nil (Option.toList _)] at hsolo
        exact hsolo
      | succ i => exact .requesting h
  | acknowledge channel =>
    cases h with
    | requesting => cases hc
    | acknowledging h => exact .acknowledging h
    | still h =>
      refine solo_of_acknowledgement (fun next heq => ?_) fun _ => h
      unfold AcknowledgeCall.begin? at heq
      split at heq
      · cases heq
      · obtain rfl := Option.some.inj heq
        exact h
  | accessAcknowledge =>
    cases h with
    | still h => exact .still h
    | requesting h => exact .requesting h
    | acknowledging h =>
      obtain ⟨hnext, hover⟩ := AcknowledgeCall.underway_access h
      exact solo_of_acknowledgement hnext hover
  | configure enabled level priorityOnly => exact h.same rfl rfl rfl rfl rfl
  | elsewhere nmi stop => exact h.same rfl rfl rfl rfl rfl

/-- So this is kept by whoever keeps the calls apart. -/
theorem kept_solo : Kept true Solo where
  same h := h.same
  act h c hc := solo_act h c (hc rfl)

/-- That nobody is forgotten is kept in any order. -/
theorem kept_heard : Kept false Heard where
  same {t u} h hrequests hirq _ hcalls hcall := by
    obtain ⟨hpending, -, hwire⟩ := Requests.mk.inj hrequests
    constructor
    · rw [hwire]
      exact h.wired
    · rw [hpending, hirq, hcalls, hcall]
      exact h.heard
  act h c _ := heard_act h c

-- ======================================================= known channels

/-- Only channels that exist are passed on. -/
structure Bounded (t : InFlight) : Prop where
  current : t.shared.controller.current < channels
  requests : ∀ r ∈ t.requests, r.channel < channels
  acknowledging : ∀ a, t.acknowledging = some a →
    ∀ next left, a.stage = .signal next left → next < channels

end InFlight

/-- An access writes no current channel but the one that is passed on. -/
theorem Signal.current_access {channel : UInt8} {s : WithLines}
    (hcurrent : s.controller.current < channels)
    (hknown : channel < channels) (left : Signal) :
    (left.access channel s).2.controller.current < channels := by
  cases left with
  | storeCurrent => exact hknown
  | storeChannel | raise => exact hcurrent

/-- The channels of a request are those of the controller, at each of its
accesses. -/
theorem RequestCall.bounded_access {r : RequestCall} {s : WithLines}
    (hcurrent : s.controller.current < channels)
    (hknown : r.channel < channels) :
    (r.access s).2.controller.current < channels
      ∧ ∀ next, (r.access s).1 = some next → next.channel < channels := by
  obtain ⟨channel, stage⟩ := r
  cases stage with
  | signal left =>
    refine ⟨Signal.current_access hcurrent hknown left, ?_⟩
    intro next heq
    obtain ⟨further, -, rfl⟩ := Option.map_eq_some_iff.1 heq
    exact hknown
  | loadMask | loadPending | loadRule _ | loadLevel | merge =>
    refine ⟨hcurrent, fun next heq => ?_⟩
    dsimp only [access] at heq
    repeat' split at heq
    all_goals first | (cases heq; exact hknown) | cases heq

/-- So are those of an acknowledgement, the one that it goes on with
included. -/
theorem AcknowledgeCall.bounded_access {a : AcknowledgeCall}
    {s : WithLines} (hcurrent : s.controller.current < channels)
    (hknown : ∀ next left, a.stage = .signal next left →
      next < channels) :
    (a.access s).2.controller.current < channels
      ∧ ∀ later, (a.access s).1 = some later →
        ∀ next left, later.stage = .signal next left →
          next < channels := by
  obtain ⟨channel, stage⟩ := a
  cases stage with
  | clear | lower =>
    refine ⟨hcurrent, fun later heq next left hstage => ?_⟩
    obtain rfl := Option.some.inj heq
    cases hstage
  | reload =>
    refine ⟨hcurrent, fun later heq next left hstage => ?_⟩
    obtain ⟨least, hleast, rfl⟩ := Option.map_eq_some_iff.1 heq
    cases hstage
    exact lt_channels_of_isPending (lowest?_eq_some hleast).1
  | signal next left =>
    have hnext : next < channels := hknown next left rfl
    refine ⟨Signal.current_access hcurrent hnext left, ?_⟩
    intro later heq other further hstage
    obtain ⟨_, -, rfl⟩ := Option.map_eq_some_iff.1 heq
    cases hstage
    exact hnext

namespace InFlight

/-- So no access of any call leads to a channel that there is not. -/
theorem bounded_act {t : InFlight} (h : t.Bounded) (c : Choice) :
    (t.act c).Bounded := by
  cases c with
  | request channel =>
    refine ⟨h.current, fun r hr => ?_, h.acknowledging⟩
    rcases List.mem_append.1 hr with hr | hr
    · unfold RequestCall.begin? at hr
      split at hr
      · cases hr
      · next hknown =>
        obtain rfl := List.mem_singleton.1 hr
        exact UInt8.not_le.1 hknown
    · exact h.requests r hr
  | access i =>
    unfold act
    dsimp only
    cases hcall : t.requests[i]? with
    | none => exact h
    | some r =>
      have hr : r ∈ t.requests := List.mem_of_getElem? hcall
      obtain ⟨hcurrent, hnext⟩ :=
        RequestCall.bounded_access h.current (h.requests r hr)
      refine ⟨hcurrent, fun q hq => ?_, h.acknowledging⟩
      rcases List.mem_append.1 hq with hq | hq
      · rcases List.mem_append.1 hq with hq | hq
        · exact h.requests q (List.mem_of_mem_take hq)
        · exact hnext q (Option.mem_toList.1 hq)
      · exact h.requests q (List.mem_of_mem_drop hq)
  | acknowledge channel =>
    unfold act
    dsimp only
    cases hcall : t.acknowledging with
    | some a =>
      dsimp only
      exact h
    | none =>
      refine ⟨h.current, h.requests, fun a ha next left hstage => ?_⟩
      dsimp only [AcknowledgeCall.begin?] at ha
      split at ha
      · cases ha
      · obtain rfl := Option.some.inj ha
        cases hstage
  | accessAcknowledge =>
    unfold act
    dsimp only
    cases hcall : t.acknowledging with
    | none => exact h
    | some a =>
      obtain ⟨hcurrent, hnext⟩ :=
        AcknowledgeCall.bounded_access h.current (h.acknowledging a hcall)
      exact ⟨hcurrent, h.requests, hnext⟩
  | configure enabled level priorityOnly =>
    exact ⟨h.current, h.requests, h.acknowledging⟩
  | elsewhere nmi stop => exact ⟨h.current, h.requests, h.acknowledging⟩

/-- The current channel is always one of the eight. -/
theorem kept_bounded : Kept false Bounded where
  same {t u} h hrequests _ _ hcalls hcall := by
    obtain ⟨-, hcurrent, -⟩ := Requests.mk.inj hrequests
    constructor
    · rw [hcurrent]
      exact h.current
    · rw [hcalls]
      exact h.requests
    · rw [hcall]
      exact h.acknowledging
  act h c _ := bounded_act h c

-- ========================================================== whole calls

variable {strict : Bool} {I : InFlight → Prop}

/-- A request that makes its accesses with nobody in between. -/
theorem Kept.requestAlone (hI : Kept strict I) (n : Nat)
    (r? : Option RequestCall) {s : WithLines}
    (h : I ⟨s, r?.toList, none⟩) :
    let after := uninterrupted RequestCall.access n r? s
    I ⟨after.2, after.1.toList, none⟩ := by
  induction n generalizing r? s with
  | zero => exact h
  | succ n ih =>
    cases r? with
    | none => exact h
    | some r =>
      have hnext := hI.act h (.access 0) fun _ => rfl
      refine ih _ ?_
      rw [← List.append_nil (Option.toList _)]
      exact hnext

/-- An acknowledgement with nobody in between keeps what its accesses
keep. -/
theorem Kept.acknowledgeAlone (hI : Kept strict I) (n : Nat)
    (a? : Option AcknowledgeCall) {s : WithLines} (h : I ⟨s, [], a?⟩) :
    let after := uninterrupted AcknowledgeCall.access n a? s
    I ⟨after.2, [], after.1⟩ := by
  induction n generalizing a? s with
  | zero => exact h
  | succ n ih =>
    cases a? with
    | none => exact h
    | some a => exact ih _ (hI.act h .accessAcknowledge fun _ => rfl)

/-- What survives every access survives a request. -/
theorem Kept.request (hI : Kept strict I) {s : WithLines}
    (h : I ⟨s, [], none⟩) (channel : UInt8) :
    I ⟨(Controller.request channel s).1, [], none⟩ := by
  have hbegun := hI.act h (.request channel) fun _ => rfl
  have halone := hI.requestAlone 8 (RequestCall.begin? channel) (by
    rw [← List.append_nil (Option.toList _)]
    exact hbegun)
  rw [request_alone] at halone
  exact halone

theorem Kept.acknowledge (hI : Kept strict I) {s : WithLines}
    (h : I ⟨s, [], none⟩) (channel : UInt8) :
    I ⟨(Controller.acknowledge channel s).1, [], none⟩ := by
  have hbegun := hI.act h (.acknowledge channel) fun _ => rfl
  have halone :=
    hI.acknowledgeAlone 6 (AcknowledgeCall.begin? channel) hbegun
  rw [acknowledge_alone] at halone
  exact halone

end InFlight

end Controller

-- =============================================================== boards

namespace Board

open Controller (RequestCall AcknowledgeCall InFlight)

variable {μ : Type} {strict : Bool} {I : InFlight → Prop}
  {requests : List RequestCall} {call : Option AcknowledgeCall}
  {b b' : Board μ}

/-- A fact about calls in flight holds of the controller and the lines of
a board while these calls are in progress. -/
def During (I : InFlight → Prop) (requests : List RequestCall)
    (call : Option AcknowledgeCall) (b : Board μ) : Prop :=
  ∃ c, b.controller = some c ∧ I ⟨⟨c, b.lines⟩, requests, call⟩

/-- A fact goes on to hold during calls when nothing but other lines and
the registers that requests are judged by are written. -/
theorem During.same (hI : InFlight.Kept strict I) (h : b.During I requests call)
    (hcontroller : b'.controller.map Controller.requests
      = b.controller.map Controller.requests)
    (hirq : b'.lines.irq = b.lines.irq)
    (hchannel : b'.lines.channel = b.lines.channel) :
    b'.During I requests call := by
  obtain ⟨c, hc, hholds⟩ := h
  rw [hc] at hcontroller
  obtain ⟨c', hc', hrequests⟩ := Option.map_eq_some_iff.1 hcontroller
  exact ⟨c', hc', hI.same hholds hrequests hirq hchannel rfl rfl⟩

/-- What does not move the signals does not disturb the calls. -/
theorem During.of_signals_eq (hI : InFlight.Kept strict I)
    (h : b.During I requests call) (hsame : b'.signals = b.signals) :
    b'.During I requests call := by
  obtain ⟨hlines, hcontroller⟩ := Prod.mk.inj hsame
  exact h.same hI hcontroller (congrArg Lines.irq hlines)
    (congrArg Lines.channel hlines)

/-- A call to the controller preserves what is preserved by the call. -/
theorem During.onController (hI : InFlight.Kept strict I)
    (h : b.During I [] none)
    {act : Controller.WithLines → Controller.WithLines × List Note}
    (hact : ∀ s, I ⟨s, [], none⟩ → I ⟨(act s).1, [], none⟩) :
    (b.onController act).During I [] none := by
  obtain ⟨c, hc, hholds⟩ := h
  unfold Board.onController
  rw [hc]
  refine During.of_signals_eq hI ?_ (signals_note _ _)
  exact ⟨_, rfl, hact _ hholds⟩

/-- A whole request is its accesses, one after the other. -/
theorem During.request (hI : InFlight.Kept strict I) (h : b.During I [] none)
    (channel : UInt8) : (b.request channel).During I [] none :=
  h.onController hI fun _ hs => hI.request hs channel

theorem During.acknowledge (hI : InFlight.Kept strict I) (h : b.During I [] none)
    (channel : UInt8) : (b.acknowledge channel).During I [] none :=
  h.onController hI fun _ hs => hI.acknowledge hs channel

/-- With no call in progress, that the only call has come as far as it can
is that controller and lines agree. -/
theorem during_solo : b.During InFlight.Solo [] none ↔ b.Coherent := by
  constructor
  · rintro ⟨c, hc, hsolo⟩
    exact ⟨c, hc, hsolo.coherent⟩
  · rintro ⟨c, hc, hcoh⟩
    exact ⟨c, hc, .still hcoh⟩

/-- A step of the CPU is an acknowledgement at most, and otherwise nothing
but accesses of other parts of the board. -/
theorem During.step [Decoder μ] (hI : InFlight.Kept strict I) {s : Computer μ}
    (h : s.board.During I [] none) :
    (Exec.step s).2.board.During I [] none := by
  apply Exec.step_preserves (P := Board.During I [] none) _ _ _ h
  · intro b b' ht hb
    exact hb.of_signals_eq hI ht.signals_eq
  · intro b hb
    exact hb.same hI rfl rfl rfl
  · intro t channel ht
    have hacknowledged := ht.acknowledge hI channel
    obtain ⟨c, hc, -⟩ := ht
    rw [Exec.acknowledge_of_some hc]
    exact hacknowledged

end Board
end HomeZ80
