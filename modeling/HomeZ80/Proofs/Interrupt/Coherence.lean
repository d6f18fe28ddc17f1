/-
Coherence of the maskable line with the requests behind it. The line,
the channel recorded on it, the current channel and the pending set are
written by different operations, each of which could break the relation
between them:

- the line is asserted exactly while something is pending;
- while something is pending, the current channel is a member of the
  pending set, and it is the channel recorded on the line.

# Why it holds

Only three operations write any of the four. A request and an
acknowledgement end, if at all, by passing on a channel that is pending
at that moment, which sets the line and both channels at once
(`coherent_signal`); an acknowledgement that leaves nothing pending
lowers the line first and raises it no more. Attaching clears
everything (`Board.coherent_attachAll`). That a call which is still in
progress has nothing to spoil is another matter, and so is what the CPU
does: for both it is told by accesses why the relation is kept.

A controller that is not wired drives no line, so being wired is part
of the relation.
-/
import HomeZ80.Proofs.Cpu.Entry
import HomeZ80.Proofs.Interrupt.Pending

namespace HomeZ80

-- ============================================== a controller and lines

namespace Controller

/-- A controller and the lines that it drives agree. -/
structure WithLines.Coherent (s : WithLines) : Prop where
  wired : s.controller.wire.isSome = true
  asserted_iff : s.lines.irq = true ↔ s.controller.pending ≠ 0
  current_pending : s.controller.pending ≠ 0 →
    s.controller.isPending s.controller.current = true
  channel_eq : s.controller.pending ≠ 0 →
    s.lines.channel = s.controller.current

/-- With nothing pending and the line down there is nothing to disagree
about. -/
theorem coherent_of_idle {s : WithLines}
    (hwired : s.controller.wire.isSome = true)
    (hzero : s.controller.pending = 0) (hdown : s.lines.irq = false) :
    s.Coherent where
  wired := hwired
  asserted_iff := by simp [hzero, hdown]
  current_pending := fun hne => absurd hzero hne
  channel_eq := fun hne => absurd hzero hne

/-- A wired controller as at power-on, with its line down. -/
structure WithLines.PoweredOn (s : WithLines) : Prop where
  wired : s.controller.wire.isSome = true
  pending : s.controller.pending = 0
  current : s.controller.current = 0
  irq : s.lines.irq = false

/-- At power-on the line is down and nobody waits. -/
theorem WithLines.PoweredOn.coherent {s : WithLines} (h : s.PoweredOn) :
    s.Coherent :=
  coherent_of_idle h.wired h.pending h.irq

/-- Passing on a pending channel makes controller and lines agree,
whatever they were like before. -/
theorem coherent_signal {channel : UInt8} {s : WithLines}
    (hwired : s.controller.wire.isSome = true)
    (hpending : s.controller.isPending channel = true) :
    (signal channel s).1.Coherent := by
  obtain ⟨slot, hslot⟩ := Option.isSome_iff_exists.1 hwired
  have hne : s.controller.pending ≠ 0 :=
    (pending_ne_zero_iff _).2 ⟨channel, hpending⟩
  unfold signal
  rw [hslot]
  exact
    { wired := hwired
      asserted_iff := ⟨fun _ => hne, fun _ => rfl⟩
      current_pending := fun _ => hpending
      channel_eq := fun _ => rfl }

/-- An accepted request makes them agree as well. -/
theorem coherent_of_accepted {channel : UInt8} {s : WithLines}
    (hwired : s.controller.wire.isSome = true)
    (hjudge : s.controller.judge channel = .accepted) :
    (request channel s).1.Coherent := by
  have hmem := isPending_request channel channel s
  unfold request at hmem ⊢
  -- the channel was added before it is passed on
  simp only [hjudge, isPending, pending_signal, BEq.rfl,
    Bool.and_self, Bool.or_true] at hmem ⊢
  exact coherent_signal hwired hmem

/-- So does an acknowledgement of one of the eight channels. -/
theorem coherent_of_acknowledged {channel : UInt8} {s : WithLines}
    (hwired : s.controller.wire.isSome = true)
    (hknown : channel < channels) :
    (acknowledge channel s).1.Coherent := by
  unfold acknowledge
  rw [if_neg (UInt8.not_le.2 hknown)]
  dsimp only
  split
  · next hleast =>
    exact coherent_signal hwired (lowest?_eq_some hleast).1
  · next hleast =>
    rw [if_pos hwired]
    exact coherent_of_idle hwired (lowest?_eq_none hleast) rfl

/-- An acknowledgement of any channel, pending or not, keeps controller
and lines in agreement. -/
theorem coherent_acknowledge (channel : UInt8) {s : WithLines}
    (h : s.Coherent) : (acknowledge channel s).1.Coherent := by
  by_cases hknown : channel < channels
  · exact coherent_of_acknowledged h.wired hknown
  · rw [acknowledge_of_unknown (UInt8.not_lt.1 hknown)]
    exact h

/-- Registers agree or do not whatever else is in the controller and on
the lines. -/
theorem WithLines.Coherent.of_asked_eq {s u : WithLines} (h : s.Coherent)
    (hrequests : u.controller.requests = s.controller.requests)
    (hirq : u.lines.irq = s.lines.irq)
    (hchannel : u.lines.channel = s.lines.channel) : u.Coherent := by
  obtain ⟨hpending, hcurrent, hwire⟩ := Requests.mk.inj hrequests
  constructor
  · rw [hwire]
    exact h.wired
  · rw [hirq, hpending]
    exact h.asserted_iff
  · rw [isPending, hpending, hcurrent]
    exact h.current_pending
  · rw [hchannel, hpending, hcurrent]
    exact h.channel_eq

end Controller

-- ============================================================= a board

namespace Board

variable {μ : Type}

/-- The controller of a board agrees with the lines. -/
def Coherent (b : Board μ) : Prop :=
  ∃ c, b.controller = some c
    ∧ (⟨c, b.lines⟩ : Controller.WithLines).Coherent

/-- What does not move the signals keeps line and requests in agreement. -/
theorem Coherent.of_signals_eq {b b' : Board μ} (h : b.Coherent)
    (hsame : b'.signals = b.signals) : b'.Coherent := by
  obtain ⟨c, hc, hcoh⟩ := h
  obtain ⟨hlines, hreq⟩ := Prod.mk.inj hsame
  rw [hc] at hreq
  obtain ⟨c', hc', hcc'⟩ := Option.map_eq_some_iff.1 hreq
  exact ⟨c', hc', hcoh.of_asked_eq hcc'
    (congrArg Lines.irq hlines) (congrArg Lines.channel hlines)⟩

/-- Timers are attached to a controller and do not ask it for anything. -/
theorem signals_attachTimers (b : Board μ) :
    b.attachTimers.signals = b.signals :=
  signals_note _ _

/-- Attaching the devices of a board with a controller leaves this as at
power-on. -/
theorem poweredOn_attachAll {b : Board μ}
    (h : b.controller.isSome = true) :
    ∃ c, b.attachAll.controller = some c
      ∧ (⟨c, b.attachAll.lines⟩ : Controller.WithLines).PoweredOn := by
  obtain ⟨c, hc⟩ := Option.isSome_iff_exists.1 h
  have hattached : (⟨(c.attach (some linesSlot)).1, b.lines.attach⟩ :
      Controller.WithLines).PoweredOn := by
    rw [Controller.attach_fst]
    exact ⟨by cases c.wire <;> rfl, rfl, rfl, rfl⟩
  unfold attachAll
  rw [hc]
  unfold attachTimers
  simp only [note_controller, note_lines]
  exact ⟨_, rfl, hattached⟩

theorem coherent_attachAll {b : Board μ}
    (h : b.controller.isSome = true) : b.attachAll.Coherent := by
  obtain ⟨c, hc, hon⟩ := poweredOn_attachAll h
  exact ⟨c, hc, hon.coherent⟩

end Board
end HomeZ80
