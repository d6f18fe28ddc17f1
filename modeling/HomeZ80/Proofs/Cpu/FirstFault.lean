/-
The first fault stops a run. Both loops look at the latch after every
step, so one number decides where they stop, the number of steps after
which the latch is first found full: a loop that may go so far stops
there, with the fault in its hand and the latch empty, and has executed
nothing further. A loop that may not go so far does all its steps.

The run loop makes notes on the way, the bounded one does not; but the
log is only written, and both leave the same computer but for the log.
-/
import HomeZ80.Proofs.Cpu.Latch
import HomeZ80.Proofs.Cpu.Quiet
import HomeZ80.Board.Windowed
import Mathlib.Algebra.BigOperators.Group.Finset.Basic

namespace HomeZ80

variable {μ : Type}

-- ============================================================ the loops

namespace Attended

variable [Decoder μ]

/-- With nothing going on around it a computer steps by itself. -/
theorem step_unit (s : Computer μ) :
    (⟨(), s⟩ : Attended Unit μ).step = (s.step.1, ⟨(), s.step.2⟩) := by
  unfold Attended.step beforeStep
  dsimp only
  split <;> rfl

section
variable {σ : Type} [Attendant σ μ]

/-- A loop that finds a stop requested does nothing more. -/
theorem stepNFrom_stopped {s : Attended σ μ}
    (h : s.computer.board.lines.stop = true) (spent n : Nat) :
    s.stepNFrom spent n = (.ok spent, s) := by
  cases n with
  | zero => rfl
  | succ n => rw [stepNFrom, if_pos h]

/-- What the bounded loop does with one step, whatever goes on around
the computer. -/
theorem stepNFrom_succ {s : Attended σ μ}
    (h : s.computer.board.lines.stop = false) (spent n : Nat) :
    s.stepNFrom spent (n + 1) =
      match s.step.2.computer.latch with
      | some fault =>
        (.error fault, ⟨s.step.2.attendant, s.step.2.computer.unlatched⟩)
      | none => s.step.2.stepNFrom (spent + s.step.1) n := by
  have hgo : ¬ s.computer.board.lines.stop = true := by
    rw [h]
    decide
  rw [stepNFrom, if_neg hgo]
  dsimp only
  cases hlatch : s.step.2.computer.latch with
  | some fault => rw [Computer.takeFault_of_some hlatch]
  | none => rw [Computer.takeFault_of_none hlatch]

end

/-- Any other makes a step, and ends with the fault that it finds in the
latch. -/
theorem stepNFrom_unit {s : Computer μ}
    (h : s.board.lines.stop = false) (spent n : Nat) :
    stepNFrom spent (n + 1) (⟨(), s⟩ : Attended Unit μ) =
      match s.step.2.latch with
      | some fault => (.error fault, ⟨(), s.step.2.unlatched⟩)
      | none => stepNFrom (spent + s.step.1) n ⟨(), s.step.2⟩ := by
  rw [stepNFrom_succ h, step_unit]

/-- The bounded loop stops where the latch is first found full. -/
theorem stepNFrom_of_faultsFirst {s : Computer μ}
    (hstop : s.board.lines.stop = false) {k n : Nat} {fault : Fault}
    (h : s.FaultsFirst k fault) (hk : k ≤ n) (spent : Nat) :
    stepNFrom spent n (⟨(), s⟩ : Attended Unit μ)
      = (.error fault, ⟨(), (s.steps k).unlatched⟩) := by
  induction n generalizing s k spent with
  | zero =>
    have hpos := h.pos
    omega
  | succ n ih =>
    obtain ⟨k, rfl⟩ := Nat.exists_eq_add_one.2 h.pos
    rw [stepNFrom_unit hstop]
    -- this step fills the latch, or it is a later one of the next state
    by_cases hzero : k = 0
    · subst hzero
      rw [show s.step.2.latch = some fault from h.latched]
      rfl
    · obtain ⟨hnone, htail⟩ := h.tail (by omega)
      have hstop' : s.step.2.board.lines.stop = false :=
        (Exec.stop_step s).trans hstop
      rw [hnone]
      exact ih hstop' htail (by omega) (spent + s.step.1)

theorem stepNFrom_of_clear {s : Computer μ}
    (hstop : s.board.lines.stop = false) {n : Nat}
    (h : ∀ j, 0 < j → j ≤ n → (s.steps j).latch = none) (spent : Nat) :
    stepNFrom spent n (⟨(), s⟩ : Attended Unit μ)
      = (.ok (spent + ∑ i ∈ Finset.range n, (s.steps i).step.1),
        ⟨(), s.steps n⟩) := by
  induction n generalizing s spent with
  | zero => rfl
  | succ n ih =>
    have hnone : s.step.2.latch = none := h 1 Nat.one_pos (by omega)
    have hstop' : s.step.2.board.lines.stop = false :=
      (Exec.stop_step s).trans hstop
    have hrest : ∀ j, 0 < j → j ≤ n → (s.step.2.steps j).latch = none :=
      fun j _ hle => h (j + 1) (by omega) (by omega)
    rw [stepNFrom_unit hstop, hnone]
    dsimp only
    rw [ih hstop' hrest, Finset.sum_range_succ']
    have hsum : spent + s.step.1
          + ∑ i ∈ Finset.range n, (s.step.2.steps i).step.1
        = spent + (∑ i ∈ Finset.range n, (s.steps (i + 1)).step.1
          + (s.steps 0).step.1) := by
      show _ = spent + (∑ i ∈ Finset.range n, (s.step.2.steps i).step.1
        + s.step.1)
      omega
    rw [hsum]
    rfl

/-- What the run loop does in a turn. -/
theorem turns_succ {s : Computer μ} (h : s.board.lines.stop = false)
    (n : Nat) :
    turns (n + 1) (⟨(), s⟩ : Attended Unit μ) =
      match s.step.2.latch with
      | some fault =>
        some (.error fault, ⟨(), s.step.2.unlatched.note
          (.runFaulted s.step.2.cpu.regs.pc fault)⟩)
      | none => turns n ⟨(), s.step.2⟩ := by
  have hgo : ¬ (⟨(), s⟩ : Attended Unit μ).computer.board.lines.stop
      = true := by
    rw [h]
    decide
  rw [turns, turn, if_neg hgo, step_unit]
  dsimp only
  cases hlatch : s.step.2.latch with
  | some fault =>
    rw [Computer.takeFault_of_some hlatch]
    rfl
  | none =>
    rw [Computer.takeFault_of_none hlatch]
    rfl

/-- The run loop ends with the first fault, takes it and makes a note. -/
theorem turns_of_faultsFirst {s : Computer μ}
    (hstop : s.board.lines.stop = false) {k n : Nat} {fault : Fault}
    (h : s.FaultsFirst k fault) (hk : k ≤ n) :
    turns n (⟨(), s⟩ : Attended Unit μ)
      = some (.error fault, ⟨(), (s.steps k).unlatched.note
          (.runFaulted (s.steps k).cpu.regs.pc fault)⟩) := by
  induction n generalizing s k with
  | zero =>
    have hpos := h.pos
    omega
  | succ n ih =>
    obtain ⟨k, rfl⟩ := Nat.exists_eq_add_one.2 h.pos
    rw [turns_succ hstop]
    by_cases hzero : k = 0
    · subst hzero
      rw [show s.step.2.latch = some fault from h.latched]
      rfl
    · obtain ⟨hnone, htail⟩ := h.tail (by omega)
      have hstop' : s.step.2.board.lines.stop = false :=
        (Exec.stop_step s).trans hstop
      rw [hnone]
      exact ih hstop' htail (by omega)

theorem turns_of_clear {s : Computer μ}
    (hstop : s.board.lines.stop = false) {n : Nat}
    (h : ∀ j, 0 < j → j ≤ n → (s.steps j).latch = none) :
    turns n (⟨(), s⟩ : Attended Unit μ) = none := by
  induction n generalizing s with
  | zero => rfl
  | succ n ih =>
    have hnone : s.step.2.latch = none := h 1 Nat.one_pos (by omega)
    have hstop' : s.step.2.board.lines.stop = false :=
      (Exec.stop_step s).trans hstop
    rw [turns_succ hstop, hnone]
    exact ih hstop' fun j _ hle => h (j + 1) (by omega) (by omega)

end Attended

namespace Computer

/-- Two computers that are the same but for their logs. -/
def SameButLog : Computer μ → Computer μ → Prop :=
  Twins Board.SameButLog

/-- The latch is no matter of the log. -/
theorem SameButLog.latch_eq {s t : Computer μ} (h : s.SameButLog t) :
    t.latch = s.latch :=
  h.board.view (fun b => b.arena.fault) fun _ => rfl

theorem SameButLog.unlatched {s t : Computer μ} (h : s.SameButLog t) :
    s.unlatched.SameButLog t.unlatched :=
  ⟨h.cpu, h.board.act (f := fun b => { b with arena.fault := none })
    fun _ => rfl⟩

theorem SameButLog.noted {s t : Computer μ} (h : s.SameButLog t)
    (n : Note) : s.SameButLog (t.note n) := by
  refine ⟨h.cpu, ?_⟩
  show (t.board.note [n]).quiet = s.board.quiet
  rw [Board.quiet_note]
  exact h.board

variable [Decoder μ]

theorem SameButLog.steps {s t : Computer μ} (h : s.SameButLog t)
    (n : Nat) : (s.steps n).SameButLog (t.steps n) :=
  lockstep_steps h n

/-- Where a run stops does not depend on the log. -/
theorem SameButLog.faultsFirst {s t : Computer μ} (h : s.SameButLog t)
    {k : Nat} {fault : Fault} (hfirst : s.FaultsFirst k fault) :
    t.FaultsFirst k fault where
  pos := hfirst.pos
  latched := by
    rw [(h.steps k).latch_eq]
    exact hfirst.latched
  clear j hpos hlt := by
    rw [(h.steps j).latch_eq]
    exact hfirst.clear j hpos hlt

/-- A bounded loop that has the steps for it ends with the first fault. -/
theorem stepN_of_faultsFirst {s : Computer μ}
    (hstop : s.board.lines.stop = false) {k n : Nat} {fault : Fault}
    (h : s.FaultsFirst k fault) (hk : k ≤ n) :
    s.stepN n = (.error fault, (s.steps k).unlatched) := by
  unfold stepN Attended.stepN
  rw [Attended.stepNFrom_of_faultsFirst hstop h hk]

/-- A bounded loop that meets no fault makes all its steps and returns what
they cost. -/
theorem stepN_of_clear {s : Computer μ}
    (hstop : s.board.lines.stop = false) {n : Nat}
    (h : ∀ j, 0 < j → j ≤ n → (s.steps j).latch = none) :
    s.stepN n = (.ok (∑ i ∈ Finset.range n, (s.steps i).step.1),
      s.steps n) := by
  unfold stepN Attended.stepN
  rw [Attended.stepNFrom_of_clear hstop h, Nat.zero_add]

/-- If a stop is requested it makes none. -/
theorem stepN_stopped {s : Computer μ}
    (h : s.board.lines.stop = true) (n : Nat) :
    s.stepN n = (.ok 0, s) := by
  unfold stepN Attended.stepN
  rw [Attended.stepNFrom_stopped h]

/-- The run loop stops where the bounded one does. -/
theorem run_of_faultsFirst {s : Computer μ}
    (hstop : s.board.lines.stop = false) {k limit : Nat} {fault : Fault}
    (h : s.FaultsFirst k fault) (hk : k ≤ limit) :
    ∃ t, s.run limit = some (.error fault, t)
      ∧ (s.steps k).unlatched.SameButLog t := by
  let entered := s.note (.runEntered s.cpu.regs.pc)
  have hsame : s.SameButLog entered :=
    SameButLog.noted ⟨rfl, .refl s.board⟩ _
  have hstop' : entered.board.lines.stop = false := by
    show (s.board.note _).lines.stop = false
    rw [Board.note_lines]
    exact hstop
  have hrun := Attended.turns_of_faultsFirst hstop' (hsame.faultsFirst h) hk
  refine ⟨_, congrArg (Option.map _) hrun, ?_⟩
  exact (hsame.steps k).unlatched.noted _

theorem run_of_clear {s : Computer μ}
    (hstop : s.board.lines.stop = false) {limit : Nat}
    (h : ∀ j, 0 < j → j ≤ limit → (s.steps j).latch = none) :
    s.run limit = none := by
  let entered := s.note (.runEntered s.cpu.regs.pc)
  have hsame : s.SameButLog entered :=
    SameButLog.noted ⟨rfl, .refl s.board⟩ _
  have hstop' : entered.board.lines.stop = false := by
    show (s.board.note _).lines.stop = false
    rw [Board.note_lines]
    exact hstop
  have hclear : ∀ j, 0 < j → j ≤ limit →
      (entered.steps j).latch = none := by
    intro j hpos hle
    rw [(hsame.steps j).latch_eq]
    exact h j hpos hle
  exact congrArg (Option.map _) (Attended.turns_of_clear hstop' hclear)

/-- Memory faults stop a computer at the first of them. The latch holds
the first failure among all accesses since it was empty, in the order in
which they are made, and keeps it against later ones. The bounded loop
stops after the first step that leaves a fault latched, and the run loop
stops there too; where no fault comes up, the bounded loop makes all its
steps. A stop that is requested comes before everything. -/
theorem stops_at_first_fault (s : Computer μ) :
    (∀ n, (s.board.perform (s.trace n)).SameBus (s.steps n).board
      ∧ (s.steps n).latch
        = (s.latch <|> (s.board.failures (s.trace n)).head?))
    ∧ s.takeFault = (s.latch, s.unlatched)
    ∧ (∀ fault, s.latch = some fault → s.FaultsFirst 1 fault)
    ∧ (s.board.lines.stop = true → ∀ n, s.stepN n = (.ok 0, s))
    ∧ (s.board.lines.stop = false →
      (∀ n k fault, s.FaultsFirst k fault → k ≤ n →
        s.stepN n = (.error fault, (s.steps k).unlatched))
      ∧ (∀ n, (∀ k fault, s.FaultsFirst k fault → n < k) →
        s.stepN n = (.ok (∑ i ∈ Finset.range n, (s.steps i).step.1),
          s.steps n))
      ∧ ∀ limit result t, s.run limit = some (result, t) →
        ∃ k ≤ limit, (∀ j < k, s.run j = none) ∧ ∀ m, k ≤ m →
          result = (s.stepN m).1.map (fun _ => ())
            ∧ (s.stepN m).2.SameButLog t) := by
  refine ⟨fun n => ⟨sameBus_steps n s, latch_steps n s⟩, takeFault_eq s,
    fun _ => faultsFirst_one, stepN_stopped, fun hstop => ⟨?_, ?_, ?_⟩⟩
  · intro n k fault hfirst hk
    exact stepN_of_faultsFirst hstop hfirst hk
  · intro n hnone
    rcases faultsFirst_or_clear n s with ⟨k, fault, hle, hfirst⟩ | hclear
    · have hlt := hnone k fault hfirst
      omega
    · exact stepN_of_clear hstop hclear
  · intro limit result t hrun
    rcases faultsFirst_or_clear limit s
      with ⟨k, fault, hle, hfirst⟩ | hclear
    · obtain ⟨t', hrun', hsame⟩ := run_of_faultsFirst hstop hfirst hle
      rw [hrun'] at hrun
      obtain ⟨rfl, rfl⟩ := Prod.mk.inj (Option.some.inj hrun)
      refine ⟨k, hle, fun j hj => ?_, fun m hm => ?_⟩
      · exact run_of_clear hstop
          fun i hpos hi => hfirst.clear i hpos (by omega)
      · rw [stepN_of_faultsFirst hstop hfirst hm]
        exact ⟨rfl, hsame⟩
    · rw [run_of_clear hstop hclear] at hrun
      cases hrun

/-- On a board without memory the first opcode fetch fails. The byte read
is then that of a call, whose two writes fail as well; the loops report
the fetch. -/
theorem stops_at_first_fault_unmapped :
    let s : Computer Windowed := { board := ⟨{}, {}, {}, none, [], {}⟩ }
    s.FaultsFirst 1 (.unmapped 0 .read)
      ∧ s.board.failures (s.trace 1) =
        [.unmapped 0 .read, .unmapped 65534 .write,
          .unmapped 65535 .write]
      ∧ s.stepN 5 = (.error (.unmapped 0 .read), (s.steps 1).unlatched)
      ∧ ((s.run 5).map (·.1)) = some (.error (.unmapped 0 .read)) := by
  intro s
  have hall := stops_at_first_fault s
  have hfirst : s.FaultsFirst 1 (.unmapped 0 .read) :=
    ⟨by decide, by decide +kernel, fun j hpos hlt => by omega⟩
  have hstepN := (hall.2.2.2.2 rfl).1 5 1 _ hfirst (by decide)
  have hrun : ((s.run 5).map (·.1)) = some (.error (.unmapped 0 .read)) := by
    decide +kernel
  exact ⟨hfirst, by decide +kernel, hstepN, hrun⟩

end Computer
end HomeZ80
