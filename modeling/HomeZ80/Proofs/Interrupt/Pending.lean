/-
The pending set: what requests and acknowledgements do to it, channel
by channel. The set is a byte, and a channel is in it when its bit is
set (`Controller.isPending`); here the byte operations of the
controller become statements about members.

- A request adds its channel exactly when it is accepted
  (`isPending_request`), and an accepted channel was not a member
  before (`isPending_eq_false_of_accepted`).
- An acknowledgement removes its channel, and no other, whether or not
  it was a member (`isPending_acknowledge`).
- The channel passed on after an acknowledgement is the least member
  (`lowest?_eq_some`), and there is none only if the set is empty
  (`lowest?_eq_none`).
-/
import HomeZ80.Interrupt.Controller

namespace HomeZ80

-- ======================================================= bits of a byte

theorem bitOf_eq_getLsbD (v : UInt8) (n : Nat) :
    bitOf v n = v.toBitVec.getLsbD n := rfl

/-- A bit of two sets together. -/
theorem bitOf_or (v w : UInt8) (n : Nat) :
    bitOf (v ||| w) n = (bitOf v n || bitOf w n) := by
  simp only [bitOf_eq_getLsbD, UInt8.toBitVec_or, BitVec.getLsbD_or]

/-- A bit of one set without the other. -/
theorem bitOf_and_not (v w : UInt8) {n : Nat} (hn : n < 8) :
    bitOf (v &&& ~~~w) n = (bitOf v n && !bitOf w n) := by
  simp [bitOf_eq_getLsbD, hn]

theorem bitOf_eq_false_of_le (v : UInt8) {n : Nat} (hn : 8 ≤ n) :
    bitOf v n = false := by
  rw [bitOf_eq_getLsbD]
  exact BitVec.getLsbD_of_ge _ _ hn

/-- A set is empty if it has no bit. -/
theorem eq_zero_iff_bitOf (v : UInt8) :
    v = 0 ↔ ∀ n < 8, bitOf v n = false := by
  constructor
  · rintro rfl n -
    simp [bitOf]
  · intro h
    apply UInt8.toBitVec_inj.1
    apply BitVec.eq_of_getLsbD_eq
    intro n hn
    rw [← bitOf_eq_getLsbD, h n hn]
    simp

namespace Controller

/-- The bit of a channel is its own and no other. -/
theorem bitOf_channelBit {channel : UInt8} (h : channel < channels)
    (k : UInt8) :
    bitOf (channelBit channel) k.toNat = (k == channel) := by
  have hlt : channel.toNat < 8 := h
  have hbit : (channelBit channel).toNat = 2 ^ channel.toNat := by
    have hpow := Nat.pow_lt_pow_right (show 1 < 2 by decide) hlt
    rw [channelBit, UInt8.toNat_shiftLeft]
    simp [Nat.mod_eq_of_lt hlt, Nat.shiftLeft_eq]
    omega
  rw [bitOf, hbit, Nat.testBit_two_pow, Bool.eq_iff_iff,
    decide_eq_true_iff, beq_iff_eq, UInt8.toNat_inj]
  exact eq_comm

-- ============================================================= members

/-- There are eight channels, so no other is ever pending. -/
theorem isPending_eq_false_of_le {channel : UInt8}
    (h : channels ≤ channel) (c : Controller) :
    c.isPending channel = false :=
  bitOf_eq_false_of_le _ h

/-- A pending channel is one of the eight. -/
theorem lt_channels_of_isPending {channel : UInt8} {c : Controller}
    (h : c.isPending channel = true) : channel < channels := by
  by_cases hlt : channel < channels
  · exact hlt
  · rw [isPending_eq_false_of_le (UInt8.not_lt.1 hlt)] at h
    cases h

/-- The pending set has a member unless it is empty. -/
theorem pending_ne_zero_iff (c : Controller) :
    c.pending ≠ 0 ↔ ∃ channel, c.isPending channel = true := by
  constructor
  · intro h
    rw [Ne, eq_zero_iff_bitOf] at h
    simp only [Classical.not_forall] at h
    obtain ⟨n, hn, hbit⟩ := h
    refine ⟨UInt8.ofNat n, ?_⟩
    have hof : (UInt8.ofNat n).toNat = n := by
      rw [UInt8.toNat_ofNat']
      omega
    rw [isPending, hof]
    simpa using hbit
  · rintro ⟨channel, h⟩ hzero
    have hlt : channel.toNat < 8 := lt_channels_of_isPending h
    rw [isPending, (eq_zero_iff_bitOf _).1 hzero _ hlt] at h
    cases h

/-- The least channel is missing only from an empty set. -/
theorem lowest?_eq_none {c : Controller} (h : c.lowest? = none) :
    c.pending = 0 := by
  rw [lowest?, Option.map_eq_none_iff, List.find?_eq_none] at h
  refine (eq_zero_iff_bitOf _).2 fun n hn => ?_
  simpa using h n (List.mem_range.2 hn)

/-- The least channel is a member below which there is none. -/
theorem lowest?_eq_some {c : Controller} {channel : UInt8}
    (h : c.lowest? = some channel) :
    c.isPending channel = true
      ∧ ∀ k, k < channel → c.isPending k = false := by
  rw [lowest?, Option.map_eq_some_iff] at h
  obtain ⟨n, hfind, rfl⟩ := h
  have hmem : n < 8 := List.mem_range.1 (List.mem_of_find?_eq_some hfind)
  have hof : (UInt8.ofNat n).toNat = n := by
    rw [UInt8.toNat_ofNat']
    omega
  have hbit : bitOf c.pending n = true := List.find?_some hfind
  refine ⟨?_, fun k hk => ?_⟩
  · rw [isPending, hof]
    exact hbit
  · have hkn : k.toNat < n := by
      rw [← hof]
      exact hk
    -- what is found first has nothing that qualifies before it
    rw [List.find?_range_eq_some] at hfind
    rw [isPending]
    simpa using hfind.2.2 k.toNat hkn

-- ============================================================ requests

/-- Only one of the eight channels is accepted, and only if it is not
pending yet. -/
theorem isPending_eq_false_of_accepted {channel : UInt8}
    {c : Controller} (h : c.judge channel = .accepted) :
    channel < channels ∧ c.isPending channel = false := by
  unfold judge at h
  -- every other verdict comes before the last branch
  split at h
  · cases h
  · next hknown =>
    split at h
    · cases h
    · split at h
      · cases h
      · split at h
        · cases h
        · split at h
          · cases h
          · next hfree =>
            exact ⟨UInt8.not_le.1 hknown, Bool.eq_false_iff.2 hfree⟩

/-- A signal leaves the pending channels as they are. -/
@[simp] theorem pending_signal (channel : UInt8) (s : WithLines) :
    (signal channel s).1.controller.pending = s.controller.pending := by
  unfold signal
  dsimp only
  split <;> rfl

/-- Only a controller that is not wired has something to report when it
passes a channel on. -/
theorem signal_notes {s : WithLines}
    (hwired : s.controller.wire.isSome = true) (channel : UInt8) :
    (signal channel s).2 = [] := by
  obtain ⟨slot, hslot⟩ := Option.isSome_iff_exists.1 hwired
  unfold signal
  rw [hslot]

/-- A request that is not accepted changes nothing. -/
theorem request_of_rejected {channel : UInt8} {s : WithLines}
    (h : s.controller.judge channel ≠ .accepted) :
    (request channel s).1 = s := by
  unfold request
  split
  · next hjudge => exact absurd hjudge h
  · rfl

/-- A channel that there is not is not acknowledged. -/
theorem acknowledge_of_unknown {channel : UInt8} {s : WithLines}
    (h : channels ≤ channel) : (acknowledge channel s).1 = s := by
  unfold acknowledge
  rw [if_pos h]

/-- A request that is accepted becomes pending; no request does
anything else to the pending set. -/
theorem isPending_request (channel k : UInt8) (s : WithLines) :
    (request channel s).1.controller.isPending k
      = (s.controller.isPending k
          || (s.controller.judge channel == .accepted
                && k == channel)) := by
  unfold request
  split
  · next h =>
    have hlt := (isPending_eq_false_of_accepted h).1
    rw [isPending, pending_signal, bitOf_or, bitOf_channelBit hlt, h]
    simp [isPending]
  · next verdict h =>
    have hne : (s.controller.judge channel == Verdict.accepted) = false :=
      beq_eq_false_iff_ne.2 h
    rw [hne, Bool.false_and, Bool.or_false]

/-- An acknowledged channel is no longer pending; every other channel
stays as it is. -/
theorem isPending_acknowledge (channel k : UInt8) (s : WithLines) :
    (acknowledge channel s).1.controller.isPending k
      = (s.controller.isPending k && k != channel) := by
  by_cases hk : k < channels
  · unfold acknowledge
    split
    · next hge =>
      have hne : k ≠ channel := by
        rintro rfl
        exact UInt8.not_le.2 hk hge
      simp [hne]
    · next hlt =>
      have hbit : bitOf (s.controller.pending &&& ~~~channelBit channel)
          k.toNat = (s.controller.isPending k && k != channel) := by
        have hk8 : k.toNat < 8 := hk
        rw [bitOf_and_not _ _ hk8, bitOf_channelBit (UInt8.not_le.1 hlt)]
        rfl
      dsimp only
      split
      · rw [isPending, pending_signal]
        exact hbit
      · exact hbit
  · have hge := UInt8.not_lt.1 hk
    rw [isPending_eq_false_of_le hge, isPending_eq_false_of_le hge,
      Bool.false_and]

-- =========================================================== attaching

/-- The first lines found are kept; nothing is pending then, and the
rules are those at power-on. -/
theorem attach_fst (found : Option Nat) (c : Controller) :
    (c.attach found).1 = { wire := c.wire.or found } := by
  cases found <;> cases hwire : c.wire <;>
    simp [attach, reset, hwire]

end Controller
end HomeZ80
