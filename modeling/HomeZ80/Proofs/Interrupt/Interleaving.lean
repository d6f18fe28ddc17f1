/-
Requests and acknowledgements access by access. Tick sources request
while the CPU acknowledges, and none of them waits for another: each
reads and writes the registers of the controller and the lines one after
the other, and between two accesses of one call there may be any number
of accesses of the others. What a request was judged by may be out of
date when it adds its channel, and the line may be lowered after it was
raised for a channel that is still pending.

A call that is left alone does what `request` and `acknowledge` do
(`request_alone`, `acknowledge_alone`).

# Why no request is lost

While something is pending the line is up, or a call in progress is going
to raise it (`InFlight.Heard`). Whoever makes the pending set larger goes
on to raise the line, and whoever lowers the line looks at the pending
set afterwards. Nobody else lowers the line, so a call that is going to
raise it does so whatever the others do.
-/
import HomeZ80.Proofs.Interrupt.Pending

namespace HomeZ80.Controller

-- ======================================================= passing it on

/-- What is left to do of passing a channel on. -/
inductive Signal where
  | storeCurrent
  | storeChannel
  | raise
  deriving DecidableEq, Repr

/-- One access, and what is left to do after it. A controller that is not
wired has no line to raise. -/
def Signal.access (channel : UInt8) (s : WithLines) :
    Signal → Option Signal × WithLines
  | .storeCurrent =>
    (if s.controller.wire.isSome then some .storeChannel else none,
      { s with controller.current := channel })
  | .storeChannel => (some .raise, { s with lines.channel := channel })
  | .raise => (none, { s with lines.irq := true })

-- ============================================================= requests

/-- How far a request has come. -/
inductive RequestStage where
  | loadMask
  | loadPending
  /-- It has seen this pending set, and asks for the rule next. -/
  | loadRule (seen : UInt8)
  | loadLevel
  /-- It adds its channel, and finds out whether this was there. -/
  | merge
  | signal (left : Signal)
  deriving DecidableEq, Repr

structure RequestCall where
  channel : UInt8
  stage : RequestStage
  deriving DecidableEq, Repr

namespace RequestCall

/-- A request for a channel that does not exist is over at once. -/
def begin? (channel : UInt8) : Option RequestCall :=
  if channels ≤ channel then none else some ⟨channel, .loadMask⟩

/-- One access of a request, and the request after it unless it is
over. -/
def access (s : WithLines) (r : RequestCall) :
    Option RequestCall × WithLines :=
  match r.stage with
  | .loadMask =>
    (if bitOf s.controller.enabled r.channel.toNat then
        some { r with stage := .loadPending }
      else none, s)
  | .loadPending =>
    (some { r with stage := .loadRule s.controller.pending }, s)
  | .loadRule seen =>
    (if s.controller.priorityOnly then
        if lowerPending r.channel { s.controller with pending := seen } then
          none
        else some { r with stage := .merge }
      else some { r with stage := .loadLevel }, s)
  | .loadLevel =>
    (if s.controller.level < r.channel then none
      else some { r with stage := .merge }, s)
  | .merge =>
    (if s.controller.isPending r.channel then none
      else some { r with stage := .signal .storeCurrent },
      { s with controller.pending :=
          s.controller.pending ||| channelBit r.channel })
  | .signal left =>
    let after := left.access r.channel s
    (after.1.map fun left => { r with stage := .signal left }, after.2)

/-- The request is going to raise the line. -/
def Promises (r : RequestCall) : Prop := ∃ left, r.stage = .signal left

end RequestCall

-- ===================================================== acknowledgements

/-- How far an acknowledgement has come. -/
inductive AcknowledgeStage where
  | clear
  | lower
  | reload
  | signal (next : UInt8) (left : Signal)
  deriving DecidableEq, Repr

structure AcknowledgeCall where
  channel : UInt8
  stage : AcknowledgeStage
  deriving DecidableEq, Repr

namespace AcknowledgeCall

def begin? (channel : UInt8) : Option AcknowledgeCall :=
  if channels ≤ channel then none else some ⟨channel, .clear⟩

def access (s : WithLines) (a : AcknowledgeCall) :
    Option AcknowledgeCall × WithLines :=
  match a.stage with
  | .clear =>
    (some { a with stage := .lower },
      { s with controller.pending :=
          s.controller.pending &&& ~~~channelBit a.channel })
  | .lower =>
    (some { a with stage := .reload },
      { s with lines :=
          if s.controller.wire.isSome then s.lines.clearIrq
          else s.lines })
  | .reload =>
    (s.controller.lowest?.map fun next =>
      { a with stage := .signal next .storeCurrent }, s)
  | .signal next left =>
    let after := left.access next s
    (after.1.map fun left => { a with stage := .signal next left }, after.2)

/-- The acknowledgement is going to raise the line if anything is pending.
-/
def Promises (a : AcknowledgeCall) : Prop :=
  a.stage = .reload ∨ ∃ next left, a.stage = .signal next left

end AcknowledgeCall

-- ========================================================= a call alone

/-- Up to `n` accesses of a call with nothing in between. -/
def uninterrupted {α : Type}
    (access : WithLines → α → Option α × WithLines) :
    Nat → Option α → WithLines → Option α × WithLines
  | 0, call, s => (call, s)
  | _ + 1, none, s => (none, s)
  | n + 1, some call, s =>
    let after := access s call
    uninterrupted access n after.1 after.2

/-- A channel that is pending is not added once more. -/
theorem or_channelBit_of_isPending {channel : UInt8} {c : Controller}
    (h : c.isPending channel = true) :
    c.pending ||| channelBit channel = c.pending := by
  have hlt := lt_channels_of_isPending h
  apply UInt8.toBitVec_inj.1
  apply BitVec.eq_of_getLsbD_eq
  intro n hn
  have hof : (UInt8.ofNat n).toNat = n := by
    rw [UInt8.toNat_ofNat']
    omega
  have hbit := bitOf_channelBit hlt (UInt8.ofNat n)
  rw [hof] at hbit
  rw [← bitOf_eq_getLsbD, ← bitOf_eq_getLsbD, bitOf_or, hbit]
  cases heq : UInt8.ofNat n == channel with
  | false => exact Bool.or_false _
  | true =>
    rw [← beq_iff_eq.1 heq, isPending, hof] at h
    rw [h, Bool.true_or]

/-- A call that has returned makes no access. -/
@[simp] theorem uninterrupted_none {α : Type}
    (access : WithLines → α → Option α × WithLines) (n : Nat)
    (s : WithLines) : uninterrupted access n none s = (none, s) := by
  cases n <;> rfl

/-- What is left of a request once it has recorded its channel is a
signal. -/
theorem request_signal_alone (n : Nat) (channel : UInt8) (s : WithLines) :
    uninterrupted RequestCall.access (n + 3)
        (some ⟨channel, .signal .storeCurrent⟩) s
      = (none, (signal channel s).1) := by
  unfold signal
  cases hwire : s.controller.wire <;>
    simp [uninterrupted, RequestCall.access, Signal.access, hwire,
      Lines.assertIrq]

/-- What an acknowledgement ends with is a signal for the next channel. -/
theorem acknowledge_signal_alone (channel next : UInt8) (s : WithLines) :
    uninterrupted AcknowledgeCall.access 3
        (some ⟨channel, .signal next .storeCurrent⟩) s
      = (none, (signal next s).1) := by
  unfold signal
  cases hwire : s.controller.wire <;>
    simp [uninterrupted, AcknowledgeCall.access, Signal.access, hwire,
      Lines.assertIrq]

/-- What is left when a request has not been refused. -/
theorem request_merge_alone (n : Nat) {channel : UInt8} {s : WithLines}
    (h : s.controller.judge channel
      = if s.controller.isPending channel then .repeated else .accepted) :
    uninterrupted RequestCall.access (n + 4) (some ⟨channel, .merge⟩) s
      = (none, (request channel s).1) := by
  unfold request
  cases hpending : s.controller.isPending channel with
  | true =>
    rw [hpending, if_pos rfl] at h
    rw [h]
    simp [uninterrupted, RequestCall.access, hpending,
      or_channelBit_of_isPending hpending]
  | false =>
    rw [hpending, if_neg Bool.false_ne_true] at h
    rw [h, ← request_signal_alone n]
    simp [uninterrupted, RequestCall.access, hpending]

/-- With no access in between, a request is judged by what is still the
case when its channel is added. -/
theorem request_alone (channel : UInt8) (s : WithLines) :
    uninterrupted RequestCall.access 8 (RequestCall.begin? channel) s
      = (none, (request channel s).1) := by
  unfold RequestCall.begin?
  by_cases hknown : channels ≤ channel
  · have hjudge : s.controller.judge channel = .unknown := if_pos hknown
    rw [request_of_rejected (by simp [hjudge]), if_pos hknown,
      uninterrupted_none]
  rw [if_neg hknown]
  cases hmask : bitOf s.controller.enabled channel.toNat with
  | false =>
    have hjudge : s.controller.judge channel = .masked := by
      simp [judge, hknown, hmask]
    rw [request_of_rejected (by simp [hjudge])]
    simp [uninterrupted, RequestCall.access, hmask]
  | true =>
    cases hrule : s.controller.priorityOnly with
    | true =>
      cases hlower : s.controller.lowerPending channel with
      | true =>
        have hjudge : s.controller.judge channel = .heldOff := by
          simp [judge, hknown, hmask, hrule, hlower]
        rw [request_of_rejected (by simp [hjudge])]
        unfold lowerPending at hlower
        simp [uninterrupted, RequestCall.access, lowerPending, hmask, hrule,
          hlower]
      | false =>
        rw [← request_merge_alone 1 (by
          simp [judge, hknown, hmask, hrule, hlower])]
        unfold lowerPending at hlower
        simp [uninterrupted, RequestCall.access, lowerPending, hmask, hrule,
          hlower]
    | false =>
      by_cases hlevel : s.controller.level < channel
      · have hjudge : s.controller.judge channel = .aboveLevel := by
          simp [judge, hknown, hmask, hrule, hlevel]
        rw [request_of_rejected (by simp [hjudge])]
        simp [uninterrupted, RequestCall.access, hmask, hrule, hlevel]
      · rw [← request_merge_alone 0 (by
          simp [judge, hknown, hmask, hrule, hlevel])]
        simp [uninterrupted, RequestCall.access, hmask, hrule, hlevel]

/-- An acknowledgement with nobody in between is the whole one. -/
theorem acknowledge_alone (channel : UInt8) (s : WithLines) :
    uninterrupted AcknowledgeCall.access 6 (AcknowledgeCall.begin? channel) s
      = (none, (acknowledge channel s).1) := by
  unfold AcknowledgeCall.begin? acknowledge
  split
  · rfl
  · dsimp only
    cases hlowest : lowest? { s.controller with
        pending := s.controller.pending &&& ~~~channelBit channel } with
    | none => simp [uninterrupted, AcknowledgeCall.access, hlowest]
    | some next =>
      rw [← acknowledge_signal_alone channel next]
      simp [uninterrupted, AcknowledgeCall.access, hlowest]

-- ====================================================== calls in flight

/-- The controller and its lines, with the calls that are in progress. -/
structure InFlight where
  shared : WithLines
  requests : List RequestCall := []
  acknowledging : Option AcknowledgeCall := none
  deriving DecidableEq, Repr

/-- What may happen next. -/
inductive Choice where
  | request (channel : UInt8)
  /-- The request with a number makes an access. -/
  | access (i : Nat)
  | acknowledge (channel : UInt8)
  | accessAcknowledge
  /-- The registers that requests are judged by are written. -/
  | configure (enabled level : UInt8) (priorityOnly : Bool)
  /-- The other lines are moved. -/
  | elsewhere (nmi stop : Bool)
  deriving DecidableEq, Repr

namespace InFlight

/-- Only one acknowledgement is made at a time. -/
def act (t : InFlight) : Choice → InFlight
  | .request channel =>
    { t with
      requests := (RequestCall.begin? channel).toList ++ t.requests }
  | .access i =>
    match t.requests[i]? with
    | some r =>
      let after := r.access t.shared
      { t with
        shared := after.2
        requests := t.requests.take i ++ after.1.toList
          ++ t.requests.drop (i + 1) }
    | none => t
  | .acknowledge channel =>
    match t.acknowledging with
    | some _ => t
    | none =>
      { t with acknowledging := AcknowledgeCall.begin? channel }
  | .accessAcknowledge =>
    match t.acknowledging with
    | some a =>
      let after := a.access t.shared
      { t with shared := after.2, acknowledging := after.1 }
    | none => t
  | .configure enabled level priorityOnly =>
    { t with shared.controller :=
        { t.shared.controller with enabled, level, priorityOnly } }
  | .elsewhere nmi stop =>
    { t with shared.lines := { t.shared.lines with nmi, stop } }

/-- While something is pending the line is up, or a call is going to
raise it. -/
structure Heard (t : InFlight) : Prop where
  wired : t.shared.controller.wire.isSome = true
  heard : t.shared.controller.pending ≠ 0 →
    t.shared.lines.irq = true
      ∨ (∃ r ∈ t.requests, r.Promises)
      ∨ ∃ a, t.acknowledging = some a ∧ a.Promises

end InFlight

-- ============================================================ one access

section
variable {s : WithLines}

/-- An access of passing on keeps the line up, and the last one raises
it. -/
theorem Signal.access_kept (hwired : s.controller.wire.isSome = true)
    (channel : UInt8) (left : Signal) :
    let after := left.access channel s
    after.2.controller.wire = s.controller.wire
      ∧ after.2.controller.pending = s.controller.pending
      ∧ (s.lines.irq = true → after.2.lines.irq = true)
      ∧ (after.2.lines.irq = true ∨ ∃ next, after.1 = some next) := by
  cases left with
  | storeCurrent =>
    exact ⟨rfl, rfl, id, .inr ⟨.storeChannel, if_pos hwired⟩⟩
  | storeChannel => exact ⟨rfl, rfl, id, .inr ⟨.raise, rfl⟩⟩
  | raise => exact ⟨rfl, rfl, fun _ => rfl, .inl rfl⟩

/-- A request that makes the pending set larger goes on to raise the line,
and does not leave off before it has. -/
theorem RequestCall.access_kept (hwired : s.controller.wire.isSome = true)
    (r : RequestCall) :
    let after := r.access s
    after.2.controller.wire = s.controller.wire
      ∧ (s.lines.irq = true → after.2.lines.irq = true)
      ∧ (after.2.controller.pending = s.controller.pending
        ∨ ∃ next, after.1 = some next ∧ next.Promises)
      ∧ (r.Promises → after.2.lines.irq = true
        ∨ ∃ next, after.1 = some next ∧ next.Promises) := by
  obtain ⟨channel, stage⟩ := r
  cases stage with
  | loadMask | loadPending | loadRule _ | loadLevel =>
    exact ⟨rfl, id, .inl rfl, nofun⟩
  | merge =>
    refine ⟨rfl, id, ?_, nofun⟩
    cases hpending : s.controller.isPending channel with
    | true => exact .inl (or_channelBit_of_isPending hpending)
    | false =>
      refine .inr ⟨⟨channel, .signal .storeCurrent⟩, ?_, _, rfl⟩
      show (if s.controller.isPending channel then none else _) = _
      rw [hpending]
      rfl
  | signal left =>
    obtain ⟨hwire, hpending, hup, hraised⟩ :=
      left.access_kept hwired channel
    refine ⟨hwire, hup, .inl hpending, fun _ => ?_⟩
    rcases hraised with hraised | ⟨next, hnext⟩
    · exact .inl hraised
    · refine .inr ⟨⟨channel, .signal next⟩, ?_, next, rfl⟩
      show (left.access channel s).1.map _ = _
      rw [hnext]
      rfl

/-- An acknowledgement never makes the pending set larger. When it has
lowered the line it goes on to raise it again, unless it finds that
nothing is pending. -/
theorem AcknowledgeCall.access_kept
    (hwired : s.controller.wire.isSome = true) (a : AcknowledgeCall) :
    let after := a.access s
    after.2.controller.wire = s.controller.wire
      ∧ (s.controller.pending = 0 → after.2.controller.pending = 0)
      ∧ (s.lines.irq = true ∨ a.Promises →
        after.2.controller.pending = 0 ∨ after.2.lines.irq = true
          ∨ ∃ next, after.1 = some next ∧ next.Promises) := by
  obtain ⟨channel, stage⟩ := a
  cases stage with
  | clear =>
    refine ⟨rfl, fun h => ?_, ?_⟩
    · show s.controller.pending &&& _ = 0
      rw [h]
      exact UInt8.zero_and
    · rintro (hup | hpromise | ⟨_, _, hpromise⟩)
      · exact .inr (.inl hup)
      · cases hpromise
      · cases hpromise
  | lower =>
    exact ⟨rfl, id, fun _ =>
      .inr (.inr ⟨⟨channel, .reload⟩, rfl, .inl rfl⟩)⟩
  | reload =>
    refine ⟨rfl, id, fun _ => ?_⟩
    cases hlowest : s.controller.lowest? with
    | none => exact .inl (lowest?_eq_none hlowest)
    | some next =>
      refine .inr (.inr ⟨⟨channel, .signal next .storeCurrent⟩, ?_,
        .inr ⟨_, _, rfl⟩⟩)
      show s.controller.lowest?.map _ = _
      rw [hlowest]
      rfl
  | signal next left =>
    obtain ⟨hwire, hpending, -, hraised⟩ :=
      left.access_kept hwired next
    refine ⟨hwire, hpending.trans, fun _ => .inr ?_⟩
    rcases hraised with hraised | ⟨later, hlater⟩
    · exact .inl hraised
    · refine .inr ⟨⟨channel, .signal next later⟩, ?_, .inr ⟨_, _, rfl⟩⟩
      show (left.access next s).1.map _ = _
      rw [hlater]
      rfl

end

-- ================================================================= runs

namespace InFlight

/-- No access of a request forgets a channel. -/
theorem heard_access {t : InFlight} (h : t.Heard) (i : Nat) :
    (t.act (.access i)).Heard := by
  unfold act
  dsimp only
  cases hcall : t.requests[i]? with
  | none => exact h
  | some r =>
    dsimp only
    obtain ⟨hi, hr⟩ := List.getElem?_eq_some_iff.1 hcall
    have hsplit : t.requests
        = t.requests.take i ++ r :: t.requests.drop (i + 1) := by
      rw [← hr, List.getElem_cons_drop, List.take_append_drop]
    obtain ⟨hwire, hup, hpending, hraised⟩ := r.access_kept h.wired
    have hnext (hr : ∃ next, (r.access t.shared).1 = some next
        ∧ next.Promises) :
        ∃ q ∈ t.requests.take i ++ (r.access t.shared).1.toList
          ++ t.requests.drop (i + 1), q.Promises := by
      obtain ⟨next, hnext, hpromise⟩ := hr
      refine ⟨next, ?_, hpromise⟩
      simp [hnext]
    refine ⟨hwire ▸ h.wired, fun hne => ?_⟩
    rcases hpending with hsame | hgrown
    · rw [hsame] at hne
      rcases h.heard hne with hline | ⟨q, hq, hpromise⟩ | hacknowledging
      · exact .inl (hup hline)
      · rw [hsplit, List.mem_append, List.mem_cons] at hq
        rcases hq with hq | rfl | hq
        · exact .inr (.inl ⟨q, by simp [hq], hpromise⟩)
        · exact (hraised hpromise).imp id fun hr => .inl (hnext hr)
        · exact .inr (.inl ⟨q, by simp [hq], hpromise⟩)
      · exact .inr (.inr hacknowledging)
    · exact .inr (.inl (hnext hgrown))

/-- Nor does one of the acknowledgement: what it withdraws is what it was
called for. -/
theorem heard_accessAcknowledge {t : InFlight} (h : t.Heard) :
    (t.act .accessAcknowledge).Heard := by
  unfold act
  dsimp only
  cases hcall : t.acknowledging with
  | none => exact h
  | some a =>
    dsimp only
    obtain ⟨hwire, hzero, hkept⟩ := a.access_kept h.wired
    refine ⟨hwire ▸ h.wired, fun hne => ?_⟩
    have hbefore : t.shared.controller.pending ≠ 0 := fun h => hne (hzero h)
    have hown (hbefore : t.shared.lines.irq = true ∨ a.Promises) :
        (a.access t.shared).2.lines.irq = true
          ∨ ∃ next, (a.access t.shared).1 = some next ∧ next.Promises :=
      (hkept hbefore).resolve_left hne
    rcases h.heard hbefore with hline | hrequest | ⟨b, hb, hpromise⟩
    · exact (hown (.inl hline)).imp id .inr
    · exact .inr (.inl hrequest)
    · rw [hcall] at hb
      obtain rfl := Option.some.inj hb
      exact (hown (.inr hpromise)).imp id .inr

theorem heard_act {t : InFlight} (h : t.Heard) (c : Choice) :
    (t.act c).Heard := by
  cases c with
  | access i => exact heard_access h i
  | accessAcknowledge => exact heard_accessAcknowledge h
  | request channel =>
    refine ⟨h.wired, fun hne => ?_⟩
    rcases h.heard hne with hline | ⟨r, hr, hpromise⟩ | hacknowledging
    · exact .inl hline
    · exact .inr (.inl ⟨r, List.mem_append_right _ hr, hpromise⟩)
    · exact .inr (.inr hacknowledging)
  | acknowledge channel =>
    unfold act
    dsimp only
    cases hcall : t.acknowledging with
    | some a => exact h
    | none =>
      refine ⟨h.wired, fun hne => ?_⟩
      rcases h.heard hne with hline | hrequest | ⟨a, ha, -⟩
      · exact .inl hline
      · exact .inr (.inl hrequest)
      · rw [hcall] at ha
        cases ha
  | configure enabled level priorityOnly => exact ⟨h.wired, h.heard⟩
  | elsewhere nmi stop => exact ⟨h.wired, h.heard⟩

/-- In every interleaving the line is up while something is pending, or is
going to be raised. -/
theorem heard_run {t : InFlight} (h : t.Heard) (choices : List Choice) :
    (choices.foldl act t).Heard := by
  induction choices generalizing t with
  | nil => exact h
  | cons c rest ih => exact ih (heard_act h c)

end InFlight

/-- No request is lost between those who make it and the line to the CPU,
however the accesses of all calls follow each other: whenever no call is
in progress, the line is up if any channel is pending. The accesses of a
call are those of a request or an acknowledgement in their order. -/
theorem no_request_lost :
    (∀ (channel : UInt8) (s : WithLines),
      uninterrupted RequestCall.access 8 (RequestCall.begin? channel) s
        = (none, (request channel s).1))
    ∧ (∀ (channel : UInt8) (s : WithLines),
      uninterrupted AcknowledgeCall.access 6
          (AcknowledgeCall.begin? channel) s
        = (none, (acknowledge channel s).1))
    ∧ ∀ (s : WithLines) (choices : List Choice),
      s.controller.wire.isSome = true →
      (s.controller.pending ≠ 0 → s.lines.irq = true) →
        let t := choices.foldl InFlight.act { shared := s }
        t.requests = [] → t.acknowledging = none →
          ∀ channel, t.shared.controller.isPending channel = true →
            t.shared.lines.irq = true := by
  refine ⟨request_alone, acknowledge_alone, ?_⟩
  intro s choices hwired hstart t hrequests hacknowledging channel hpending
  have hheard : t.Heard :=
    InFlight.heard_run ⟨hwired, fun hne => .inl (hstart hne)⟩ choices
  have hne := (pending_ne_zero_iff _).2 ⟨channel, hpending⟩
  rcases hheard.heard hne with hline | ⟨r, hr, -⟩ | ⟨a, ha, -⟩
  · exact hline
  · rw [hrequests] at hr
    cases hr
  · rw [hacknowledging] at ha
    cases ha

/-- A request overtakes an acknowledgement between two of its accesses, and
is pending with the line down for a while. -/
theorem no_request_lost_overtaking :
    let s : InFlight :=
      { shared := ⟨{ enabled := 255, wire := some 0 }, {}⟩ }
    let before : List Choice :=
      .request 2 :: List.replicate 7 (.access 0)
        ++ [.acknowledge 2, .accessAcknowledge, .request 5]
        ++ List.replicate 4 (.access 0) ++ [.accessAcknowledge]
    let after : List Choice :=
      [.accessAcknowledge, .access 0] ++ List.replicate 3 .accessAcknowledge
        ++ List.replicate 2 (.access 0)
    let t := before.foldl InFlight.act s
    let u := (before ++ after).foldl InFlight.act s
    t.shared.controller.isPending 5 = true
      ∧ t.shared.lines.irq = false
      ∧ u.requests = [] ∧ u.acknowledging = none
      ∧ u.shared.controller.isPending 5 = true
      ∧ u.shared.lines.irq = true := by
  intro s before after t u
  have hline := no_request_lost.2.2 s.shared (before ++ after) (by decide)
    (by decide) (by decide +kernel) (by decide +kernel) 5
    (by decide +kernel)
  exact ⟨by decide +kernel, by decide +kernel, by decide +kernel,
    by decide +kernel, by decide +kernel, hline⟩

end HomeZ80.Controller
