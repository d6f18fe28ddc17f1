/-
The order in which pending channels are served. Once no more requests
are accepted, and the CPU acknowledges each time the channel that was
passed on last, the pending set empties: the channel that was passed on
last comes first, and the others follow from the lowest to the highest.
Only the first can be out of order. It was passed on when its request was
accepted, which under the compare rule may happen while lower channels
wait; each one after it is passed on by an acknowledgement, which takes
the lowest.

# The queue

At every moment there is a queue of the channels still to be served
(`WithLines.Queued`). It has the pending channels as its members, the
current channel as its head, and ascends after its head. An
acknowledgement of the head leaves its tail, and the least pending
channel is then the head of that (`WithLines.Queued.acknowledge`).
Writes to the mask and the priority register, and requests that are not
accepted, leave the queue alone (`WithLines.Queued.act`), so the rule in
force at the moment has no part in the order.
-/
import HomeZ80.Proofs.Interrupt.Ranking

namespace HomeZ80.Controller

-- ============================================================== members

/-- The pending channels, from the lowest to the highest. -/
def members (c : Controller) : List UInt8 :=
  ((List.range 8).filter (bitOf c.pending)).map UInt8.ofNat

/-- The members are the channels that are pending. -/
theorem mem_members {k : UInt8} {c : Controller} :
    k ∈ c.members ↔ c.isPending k = true := by
  constructor
  · intro h
    obtain ⟨n, hn, rfl⟩ := List.mem_map.1 h
    obtain ⟨hlt, hbit⟩ := List.mem_filter.1 hn
    have hof : (UInt8.ofNat n).toNat = n := by
      rw [UInt8.toNat_ofNat']
      have hlt8 := List.mem_range.1 hlt
      omega
    rw [isPending, hof]
    exact hbit
  · intro h
    have hlt : k.toNat < 8 := lt_channels_of_isPending h
    refine List.mem_map.2 ⟨k.toNat, ?_, UInt8.ofNat_toNat⟩
    exact List.mem_filter.2 ⟨List.mem_range.2 hlt, h⟩

theorem ascending_members (c : Controller) :
    c.members.Pairwise (· < ·) := by
  refine List.pairwise_map.2 ?_
  refine (List.pairwise_lt_range.filter _).imp_of_mem ?_
  intro i j hi hj hij
  have hi8 := List.mem_range.1 (List.mem_filter.1 hi).1
  have hj8 := List.mem_range.1 (List.mem_filter.1 hj).1
  show (UInt8.ofNat i).toNat < (UInt8.ofNat j).toNat
  rw [UInt8.toNat_ofNat', UInt8.toNat_ofNat']
  omega

theorem nodup_members (c : Controller) : c.members.Nodup :=
  c.ascending_members.imp UInt8.ne_of_lt

/-- The pending channels in ascending order begin with the lowest. -/
theorem IsLowest.eq_head {c : Controller} {first k : UInt8}
    {rest : List UInt8} (h : c.IsLowest k)
    (hmem : ∀ k, k ∈ first :: rest ↔ c.isPending k = true)
    (hascending : (first :: rest).Pairwise (· < ·)) : first = k := by
  rcases List.mem_cons.1 ((hmem k).2 h.pending) with hk | hk
  · exact hk.symm
  · have hlt : first < k := List.rel_of_pairwise_cons hascending hk
    have hpending := (hmem first).1 List.mem_cons_self
    rw [h.least first hlt] at hpending
    cases hpending

-- ============================================================ the queue

/-- The channel passed on last, then the others from the lowest to the
highest. -/
def queue (c : Controller) : List UInt8 :=
  c.current :: c.members.erase c.current

/-- The queue is the same channels with the current one first. -/
theorem length_queue {c : Controller}
    (h : c.isPending c.current = true) :
    c.queue.length = c.members.length :=
  (List.perm_cons_erase (mem_members.2 h)).length_eq.symm

/-- The channels still to be served, in the order in which they are. -/
structure WithLines.Queued (queue : List UInt8) (s : WithLines) :
    Prop where
  coherent : s.Coherent
  mem_iff (k : UInt8) : k ∈ queue ↔ s.controller.isPending k = true
  head (k : UInt8) (h : k ∈ queue.head?) : k = s.controller.current
  ascending : queue.tail.Pairwise (· < ·)
  nodup : queue.Nodup

namespace WithLines

/-- Coherent lines and requests have this queue. -/
theorem Coherent.queued {s : WithLines} (h : s.Coherent)
    (hne : s.controller.pending ≠ 0) : s.Queued s.controller.queue := by
  have hnodup := s.controller.nodup_members
  refine ⟨h, fun k => ?_, ?_, ?_, ?_⟩
  · rw [queue, List.mem_cons, hnodup.mem_erase_iff, mem_members]
    constructor
    · rintro (rfl | ⟨-, hk⟩)
      · exact h.current_pending hne
      · exact hk
    · intro hk
      by_cases hcurrent : k = s.controller.current
      · exact .inl hcurrent
      · exact .inr ⟨hcurrent, hk⟩
  · rintro k ⟨⟩
    rfl
  · exact s.controller.ascending_members.sublist List.erase_sublist
  · exact List.nodup_cons.2 ⟨hnodup.not_mem_erase, hnodup.erase _⟩

namespace Queued

variable {s : WithLines} {queue : List UInt8}

/-- Nothing is pending exactly when the queue is empty. -/
theorem pending_ne_zero_iff (h : s.Queued queue) :
    s.controller.pending ≠ 0 ↔ queue ≠ [] := by
  rw [Controller.pending_ne_zero_iff]
  constructor
  · rintro ⟨k, hk⟩
    exact List.ne_nil_of_mem ((h.mem_iff k).2 hk)
  · intro hne
    obtain ⟨k, hk⟩ := List.exists_mem_of_ne_nil queue hne
    exact ⟨k, (h.mem_iff k).1 hk⟩

/-- The line is up as long as somebody is in the queue. -/
theorem asserted_iff (h : s.Queued queue) :
    s.lines.irq = true ↔ queue ≠ [] :=
  h.coherent.asserted_iff.trans h.pending_ne_zero_iff

/-- When the current channel is acknowledged, the queue loses its
head. -/
theorem acknowledge (h : s.Queued queue) :
    (Controller.acknowledge s.controller.current s).1.Queued
      queue.tail := by
  have hmem : ∀ k, k ∈ queue.tail ↔
      (Controller.acknowledge s.controller.current s).1.controller.isPending
        k = true := by
    intro k
    rw [isPending_acknowledge, Bool.and_eq_true, bne_iff_ne, ← h.mem_iff]
    cases queue with
    | nil => simp
    | cons first rest =>
      have hfirst : first = s.controller.current := h.head first rfl
      have hout := (List.nodup_cons.1 h.nodup).1
      rw [← hfirst, List.tail_cons, List.mem_cons]
      constructor
      · intro hk
        exact ⟨.inr hk, fun hkf => hout (hkf ▸ hk)⟩
      · rintro ⟨hk | hk, hne⟩
        · exact absurd hk hne
        · exact hk
  refine ⟨coherent_acknowledge _ h.coherent, hmem, fun k hk => ?_,
    h.ascending.tail, h.nodup.tail⟩
  obtain ⟨rest, hrest⟩ := List.head?_eq_some_iff.1 hk
  have hascending := h.ascending
  rw [hrest] at hmem hascending
  -- there was a channel to acknowledge, for there is one left
  have hne : queue ≠ [] := by
    rintro rfl
    cases hrest
  have hknown := lt_channels_of_isPending
    (h.coherent.current_pending (h.pending_ne_zero_iff.2 hne))
  have hfirst := lowestFirst_of_acknowledged h.coherent.wired hknown
  have hleft := (Controller.pending_ne_zero_iff _).2
    ⟨k, (hmem k).1 List.mem_cons_self⟩
  exact (hfirst.lowest hleft).eq_head hmem hascending

end Queued
end WithLines

-- ============================================================= draining

/-- Whether an operation, when it is done, acknowledges the current
channel or adds no channel. -/
def Operation.drains (s : WithLines) : Operation → Bool
  | .request channel => s.controller.judge channel != .accepted
  | .acknowledge channel => channel == s.controller.current
  | .write _ _ => true

/-- Whether every one of these operations does, at its moment. -/
def WithLines.drainedBy (s : WithLines) : List Operation → Bool
  | [] => true
  | op :: rest => op.drains s && drainedBy (op.act s) rest

def Operation.served? : Operation → Option UInt8
  | .acknowledge channel => some channel
  | .request _ | .write _ _ => none

/-- The channels that are acknowledged, in this order. -/
def served (ops : List Operation) : List UInt8 :=
  ops.filterMap Operation.served?

/-- What is served is served in the order of the operations. -/
theorem served_append (before after : List Operation) :
    served (before ++ after) = served before ++ served after :=
  List.filterMap_append

namespace WithLines

/-- A series drains if its parts do, one after the other. -/
theorem drainedBy_append {s : WithLines} {before after : List Operation} :
    s.drainedBy (before ++ after) = true
      ↔ s.drainedBy before = true
        ∧ (before.foldl Operation.act s).drainedBy after = true := by
  induction before generalizing s with
  | nil => simp [drainedBy]
  | cons op rest ih =>
    simp only [List.cons_append, drainedBy, Bool.and_eq_true, ih,
      List.foldl_cons, and_assoc]

/-- One operation takes from the queue what it serves. -/
theorem Queued.act {op : Operation} {s : WithLines} {queue : List UInt8}
    (h : s.Queued queue) (hop : op.drains s = true) :
    (op.act s).Queued (queue.drop (served [op]).length) := by
  cases op with
  | request channel =>
    have hact : (Operation.request channel).act s = s :=
      request_of_rejected (bne_iff_ne.1 hop)
    rw [hact]
    exact h
  | acknowledge channel =>
    have hchannel : channel = s.controller.current := beq_iff_eq.1 hop
    subst hchannel
    have hafter := h.acknowledge
    rw [← List.drop_one] at hafter
    exact hafter
  | write reg v =>
    have hrequests := requests_writePort reg v s.controller
    obtain ⟨hpending, hcurrent, -⟩ := Requests.mk.inj hrequests
    refine ⟨h.coherent.of_asked_eq hrequests rfl rfl, fun k => ?_,
      fun k hk => ?_, h.ascending, h.nodup⟩
    · show _ ↔ isPending k (s.controller.writePort reg v) = true
      rw [isPending, hpending]
      exact h.mem_iff k
    · exact (h.head k hk).trans hcurrent.symm

/-- Each acknowledgement takes the first of the queue, and what else is
done leaves the queue alone. -/
theorem Queued.run {ops : List Operation} {s : WithLines}
    {queue : List UInt8} (h : s.Queued queue)
    (hops : s.drainedBy ops = true) :
    (ops.foldl Operation.act s).Queued
      (queue.drop (served ops).length) := by
  induction ops generalizing s queue with
  | nil => exact h
  | cons op rest ih =>
    obtain ⟨hop, hrest⟩ := Bool.and_eq_true_iff.1 hops
    have hafter := ih (h.act hop) hrest
    rw [List.drop_drop, ← List.length_append] at hafter
    have hserved : served (op :: rest) = served [op] ++ served rest :=
      served_append [op] rest
    rw [hserved]
    exact hafter

/-- What is served is the queue from its head on. -/
theorem Queued.take_served {ops : List Operation} {s : WithLines}
    {queue : List UInt8} (h : s.Queued queue)
    (hops : s.drainedBy ops = true) :
    (served ops).take queue.length = queue.take (served ops).length := by
  induction ops generalizing s queue with
  | nil => exact List.take_nil
  | cons op rest ih =>
    obtain ⟨hop, hrest⟩ := Bool.and_eq_true_iff.1 hops
    have htail := ih (h.act hop) hrest
    cases op with
    | request channel => exact htail
    | write reg v => exact htail
    | acknowledge channel =>
      cases queue with
      | nil => rfl
      | cons first others =>
        have hfirst : first = channel :=
          (h.head first rfl).trans (beq_iff_eq.1 hop).symm
        rw [hfirst]
        exact congrArg (channel :: ·) htail

/-- So what was served is the beginning of the queue. -/
theorem Queued.served_eq {ops : List Operation} {s : WithLines}
    {queue : List UInt8} (h : s.Queued queue)
    (hops : s.drainedBy ops = true)
    (hle : (served ops).length ≤ queue.length) :
    served ops = queue.take (served ops).length := by
  rw [← h.take_served hops, List.take_of_length_le hle]

/-- As many acknowledgements of the current channel, one after the
other. -/
def acknowledgements : Nat → WithLines → List Operation
  | 0, _ => []
  | n + 1, s =>
    .acknowledge s.controller.current
      :: acknowledgements n
        (Controller.acknowledge s.controller.current s).1

/-- Acknowledging the current channel over and over drains. -/
theorem drainedBy_acknowledgements (n : Nat) (s : WithLines) :
    s.drainedBy (s.acknowledgements n) = true := by
  induction n generalizing s with
  | zero => rfl
  | succ n ih => exact Bool.and_eq_true_iff.2 ⟨BEq.rfl, ih _⟩

theorem length_served_acknowledgements (n : Nat) (s : WithLines) :
    (served (s.acknowledgements n)).length = n := by
  induction n generalizing s with
  | zero => rfl
  | succ n ih => exact congrArg (· + 1) (ih _)

end WithLines

-- ============================================================ reachable

/-- A wired controller agrees with its lines while anything is pending,
whatever the lines were like when it was attached. -/
theorem Operation.coherent_act (op : Operation) {s : WithLines}
    (hwired : s.controller.wire.isSome = true)
    (h : s.controller.pending ≠ 0 → s.Coherent) :
    (op.act s).controller.pending ≠ 0 → (op.act s).Coherent := by
  cases op with
  | request channel =>
    by_cases hjudge : s.controller.judge channel = .accepted
    · exact fun _ => coherent_of_accepted hwired hjudge
    · have hact : (Operation.request channel).act s = s :=
        request_of_rejected hjudge
      rw [hact]
      exact h
  | acknowledge channel =>
    by_cases hknown : channel < channels
    · exact fun _ => coherent_of_acknowledged hwired hknown
    · have hact : (Operation.acknowledge channel).act s = s :=
        acknowledge_of_unknown (UInt8.not_lt.1 hknown)
      rw [hact]
      exact h
  | write reg v =>
    have hrequests := requests_writePort reg v s.controller
    obtain ⟨hpending, -, -⟩ := Requests.mk.inj hrequests
    intro hne
    refine (h ?_).of_asked_eq hrequests rfl rfl
    rw [← hpending]
    exact hne

theorem Operation.wire_act (op : Operation) (s : WithLines) :
    (op.act s).controller.wire = s.controller.wire := by
  cases op with
  | request channel =>
    have hkept := congrArg Controller.wire (standing_request channel s)
    exact hkept
  | acknowledge channel =>
    have hkept := congrArg Controller.wire (standing_acknowledge channel s)
    exact hkept
  | write reg v =>
    exact congrArg Requests.wire (requests_writePort reg v s.controller)

/-- A wired controller stays coherent whatever it is asked, once it is. -/
theorem coherent_run {s : WithLines}
    (hwired : s.controller.wire.isSome = true)
    (h : s.controller.pending ≠ 0 → s.Coherent) (ops : List Operation) :
    (ops.foldl Operation.act s).controller.pending ≠ 0 →
      (ops.foldl Operation.act s).Coherent := by
  induction ops generalizing s with
  | nil => exact h
  | cons op rest ih =>
    refine ih ?_ (op.coherent_act hwired h)
    rw [op.wire_act]
    exact hwired

-- ==================================================== order of service

/-- How the pending set of a state empties. -/
structure WithLines.Drains (s : WithLines) (ops : List Operation) :
    Prop where
  /-- A channel is pending when it is acknowledged. -/
  pending (before rest : List Operation) (k : UInt8)
    (hsplit : ops = before ++ .acknowledge k :: rest)
    (hlt : (served before).length < s.controller.members.length) :
    (before.foldl Operation.act s).controller.isPending k = true
  /-- The current channel comes first. -/
  first (k : UInt8) (h : k ∈ (served ops).head?) :
    k = s.controller.current
  /-- The others follow from the lowest to the highest. -/
  ascending
    (hle : (served ops).length ≤ s.controller.members.length) :
    (served ops).tail.Pairwise (· < ·)
  /-- No channel comes twice. -/
  once (hle : (served ops).length ≤ s.controller.members.length) :
    (served ops).Nodup
  /-- All come when there are as many acknowledgements as channels. -/
  all (heq : (served ops).length = s.controller.members.length)
    (k : UInt8) : k ∈ served ops ↔ s.controller.isPending k = true
  /-- The line is up until then. -/
  asserted_iff : (ops.foldl Operation.act s).lines.irq = true
    ↔ (served ops).length < s.controller.members.length
  pending_ne_zero_iff : (ops.foldl Operation.act s).controller.pending ≠ 0
    ↔ (served ops).length < s.controller.members.length
  /-- And it comes to that. -/
  completes (hle : (served ops).length ≤ s.controller.members.length) :
    ∃ more, s.drainedBy (ops ++ more) = true
      ∧ (served (ops ++ more)).length = s.controller.members.length

/-- So from any coherent state the pending channels are served in this
order. -/
theorem WithLines.Coherent.drains {s : WithLines} (h : s.Coherent)
    (hne : s.controller.pending ≠ 0) {ops : List Operation}
    (hops : s.drainedBy ops = true) : s.Drains ops := by
  have hqueued := h.queued hne
  have hlength := length_queue (h.current_pending hne)
  have hserved := hqueued.served_eq hops
  have hrun := hqueued.run hops
  have hleft (n : Nat) : s.controller.queue.drop n ≠ []
      ↔ n < s.controller.members.length := by
    rw [Ne, List.drop_eq_nil_iff, Nat.not_le, hlength]
  rw [hlength] at hserved
  refine ⟨?_, ?_, ?_, ?_, ?_, ?_, ?_, ?_⟩
  · intro before rest k hsplit hlt
    rw [hsplit, drainedBy_append] at hops
    obtain ⟨hbefore, hrest⟩ := hops
    obtain ⟨hk, -⟩ := Bool.and_eq_true_iff.1 hrest
    have hat := hqueued.run hbefore
    have hpending := hat.pending_ne_zero_iff.2 ((hleft _).2 hlt)
    rw [beq_iff_eq.1 hk]
    exact hat.coherent.current_pending hpending
  · intro k hk
    have htake := hqueued.take_served hops
    obtain ⟨others, hothers⟩ := List.head?_eq_some_iff.1 hk
    rw [hothers] at htake
    exact (List.cons.inj htake).1
  · intro hle
    rw [hserved hle]
    exact hqueued.ascending.sublist (List.take_sublist _ _).tail
  · intro hle
    rw [hserved hle]
    exact hqueued.nodup.sublist (List.take_sublist _ _)
  · intro heq k
    rw [hserved (Nat.le_of_eq heq), heq, ← hlength, List.take_length]
    exact hqueued.mem_iff k
  · exact hrun.asserted_iff.trans (hleft _)
  · exact hrun.pending_ne_zero_iff.trans (hleft _)
  · intro hle
    refine ⟨acknowledgements (s.controller.members.length
      - (served ops).length) (ops.foldl Operation.act s), ?_, ?_⟩
    · exact drainedBy_append.2 ⟨hops, drainedBy_acknowledgements _ _⟩
    · rw [served_append, List.length_append,
        length_served_acknowledgements, Nat.add_sub_cancel' hle]

/-- Whatever has been done to a wired controller, its pending channels are
served one after the other once no more are added: the current channel
first, the others from the lowest to the highest, and each of them once.
The line is up until the last is served. -/
theorem served_in_order (slot : Nat) (c : Controller) (lines : Lines)
    (history : List Operation) :
    let s : WithLines := history.foldl Operation.act
      ⟨(c.attach (some slot)).1, lines⟩
    s.controller.pending ≠ 0 →
      ∀ ops : List Operation, s.drainedBy ops = true → s.Drains ops := by
  intro s hne ops hops
  obtain ⟨hwired, hzero, -⟩ := c.attach_fresh slot
  have hcoherent : s.Coherent := coherent_run hwired
    (fun hpending => absurd hzero hpending) history hne
  exact hcoherent.drains hne hops

/-- Under the compare rule channel 6 is passed on while 3 and 5 wait. It
comes first, although the rule and the mask are changed on the way, and
requests are turned down. -/
theorem served_in_order_out_of_turn :
    let s : WithLines := List.foldl Operation.act
      ⟨(({} : Controller).attach (some 0)).1, {}⟩
      [.write .priority 7, .request 5, .request 3, .request 6]
    let ops : List Operation :=
      [.request 5, .acknowledge 6, .write .priority 8, .request 7,
        .acknowledge 3, .write .mask 0, .request 0, .acknowledge 5]
    s.controller.members = [3, 5, 6] ∧ s.drainedBy ops = true
      ∧ served ops = [6, 3, 5] ∧ s.Drains ops := by
  intro s ops
  exact ⟨by decide +kernel, by decide +kernel, by decide +kernel,
    served_in_order 0 {} {} _ (by decide +kernel) ops
      (by decide +kernel)⟩

end HomeZ80.Controller
