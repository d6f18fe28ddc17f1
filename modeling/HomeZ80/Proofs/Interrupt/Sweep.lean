/-
A sweep through memory, round by round, with an interrupt handler beside
it that does nothing but return. No round is to harm either of the two,
nor to read what an interrupt may spoil (`Flat.Harmless`). The sweep then
comes to its end (`Flat.exists_rounds`).

Whether a round does harm is a matter of the state it starts from. It can
also be told beforehand, from the ranges that the sweep reads and stores
(`Flat.harmless_of_ranges`).
-/
import HomeZ80.Proofs.Cpu.BlockCopy
import HomeZ80.Proofs.Interrupt.NonMaskable

namespace HomeZ80

open Exec (advance)

namespace Flat

-- ============================================================== rounds

/-- An address that an entry does not store at. -/
def OffStack (s : Computer Flat) (addr : UInt16) : Prop :=
  addr ≠ s.cpu.regs.sp - 1 ∧ addr ≠ s.cpu.regs.sp - 2

instance (s : Computer Flat) (addr : UInt16) :
    Decidable (OffStack s addr) :=
  inferInstanceAs (Decidable (_ ∧ _))

/-- The handler is a return, and out of reach of the stack. -/
structure ReturnsAtOnce (s : Computer Flat) : Prop where
  lead : s.board.memory Entry.nmiTarget = 0xED
  opcode : s.board.memory (Entry.nmiTarget + 1) = 0x45
  offLead : OffStack s Entry.nmiTarget
  offOpcode : OffStack s (Entry.nmiTarget + 1)

/-- A computer that is about to carry out a round, with such a handler. -/
structure AtSweep (w : Sweep) (down : Bool) (s : Computer Flat) : Prop where
  fitted : Fitted s.board
  idle : s.board.Idle
  running : s.cpu.halted = false
  lead : s.board.memory s.cpu.regs.pc = 0xED
  opcode : s.board.memory (s.cpu.regs.pc + 1) = w.opcode down
  offLead : OffStack s s.cpu.regs.pc
  offOpcode : OffStack s (s.cpu.regs.pc + 1)
  handler : ReturnsAtOnce s

/-- A round that reads no byte of the stack, and changes no byte of the
instruction or of the handler. -/
structure Harmless (s : Computer Flat) : Prop where
  source : OffStack s s.cpu.regs.hl
  kept : ∀ addr ∈ [s.cpu.regs.pc, s.cpu.regs.pc + 1, Entry.nmiTarget,
      Entry.nmiTarget + 1],
    s.step.2.board.memory addr = s.board.memory addr

section
variable {w : Sweep} {down : Bool} {s : Computer Flat}

/-- A step of a sweep is one round, and goes back to its opcode unless it
is over. -/
theorem AtSweep.step_eq (h : AtSweep w down s) :
    s.step.2 =
      let v := s.board.memory s.cpu.regs.hl
      let r := s.cpu.regs
      { cpu :=
          { s.cpu with
            regs := (w.round down v r).fetched
              (if w.goesOn v r then r.pc else r.pc + 2)
              (refreshed (refreshed r.r))
            eiDelay := false
            cost := s.cpu.cost + if w.goesOn v r then 21 else 16 }
        board := w.stored r.de v s.board } := by
  exact step_sweep ⟨h.fitted, h.idle, h.running, h.lead, h.opcode⟩

theorem AtSweep.sp_step (h : AtSweep w down s) :
    s.step.2.cpu.regs.sp = s.cpu.regs.sp := by
  rw [h.step_eq]
  exact w.round_sp down _ _

theorem OffStack.step (h : AtSweep w down s) {addr : UInt16}
    (hoff : OffStack s addr) : OffStack s.step.2 addr := by
  unfold OffStack
  rw [h.sp_step]
  exact hoff

/-- A round that is harmless leaves the handler as it was. -/
theorem AtSweep.handler_step (h : AtSweep w down s) (hkept : Harmless s) :
    ReturnsAtOnce s.step.2 where
  lead := (hkept.kept _ (by simp)).trans h.handler.lead
  opcode := (hkept.kept _ (by simp)).trans h.handler.opcode
  offLead := h.handler.offLead.step h
  offOpcode := h.handler.offOpcode.step h

/-- If the program counter is back on the instruction, another round
follows. -/
theorem AtSweep.step (h : AtSweep w down s) (hkept : Harmless s)
    (hpc : s.step.2.cpu.regs.pc = s.cpu.regs.pc) :
    AtSweep w down s.step.2 := by
  constructor
  · rw [h.step_eq]
    exact h.fitted.stored w _ _
  · exact Computer.idle_step h.idle
  · rw [h.step_eq]
    exact h.running
  · rw [hpc]
    exact (hkept.kept _ (by simp)).trans h.lead
  · rw [hpc]
    exact (hkept.kept _ (by simp)).trans h.opcode
  · rw [hpc]
    exact h.offLead.step h
  · rw [hpc]
    exact h.offOpcode.step h
  · exact h.handler_step hkept

/-- After a round the program counter is back on the instruction, unless
BC has run out, or behind it. -/
theorem AtSweep.pc_step (h : AtSweep w down s) :
    s.step.2.cpu.regs.pc = s.cpu.regs.pc
        ∧ s.cpu.regs.bc - 1 ≠ 0 ∧ s.step.2.cpu.regs.bc = s.cpu.regs.bc - 1
      ∨ s.step.2.cpu.regs.pc = s.cpu.regs.pc + 2 := by
  have hbc : w.goesOn (s.board.memory s.cpu.regs.hl) s.cpu.regs = true →
      s.cpu.regs.bc - 1 ≠ 0 := by
    intro hagain hzero
    cases w <;> simp [Sweep.goesOn, hzero] at hagain
  rw [h.step_eq]
  dsimp only
  split
  · next hagain => exact .inl ⟨rfl, hbc hagain, w.round_bc down _ _⟩
  · exact .inr rfl

/-- A sweep comes to its end. -/
theorem exists_rounds (h : AtSweep w down s)
    (hharmless : ∀ i, (∀ j ≤ i,
      (s.steps j).cpu.regs.pc = s.cpu.regs.pc) → Harmless (s.steps i)) :
    ∃ n, (∀ i < n, AtSweep w down (s.steps i)
        ∧ (s.steps i).cpu.regs.pc = s.cpu.regs.pc)
      ∧ (s.steps n).cpu.regs.pc = s.cpu.regs.pc + 2
      ∧ (s.steps n).cpu.regs.sp = s.cpu.regs.sp := by
  -- BC counts the rounds that are left, where zero counts as 65536
  induction hleft : (s.cpu.regs.bc - 1).toNat using Nat.strongRecOn
    generalizing s with
  | ind left ih =>
  have hkept : Harmless s := hharmless 0 fun j hj => by
    rw [Nat.le_zero.1 hj]
    rfl
  rcases h.pc_step with ⟨hpc, hmore, hbc⟩ | hpc
  · have hfewer : (s.step.2.cpu.regs.bc - 1).toNat < left := by
      rw [hbc, ← hleft]
      have hne : (s.cpu.regs.bc - 1).toNat ≠ 0 :=
        fun hzero => hmore (UInt16.toNat_inj.1 hzero)
      have hlt := (s.cpu.regs.bc - 1).toNat_lt
      have hpred := UInt16.toNat_sub (s.cpu.regs.bc - 1) 1
      rw [hpred]
      simp
      omega
    obtain ⟨n, hrounds, hend, hsp⟩ := ih _ hfewer (h.step hkept hpc)
      (fun i hi => hharmless (i + 1) fun j hj => by
        cases j with
        | zero => rfl
        | succ j => exact (hi j (by omega)).trans hpc) rfl
    refine ⟨n + 1, fun i hi => ?_, ?_, hsp.trans h.sp_step⟩
    · cases i with
      | zero => exact ⟨h, rfl⟩
      | succ i =>
        obtain ⟨hat, hi⟩ := hrounds i (by omega)
        exact ⟨hat, hi.trans hpc⟩
    · rw [← hpc]
      exact hend
  · refine ⟨1, fun i hi => ?_, hpc, h.sp_step⟩
    obtain rfl : i = 0 := by omega
    exact ⟨h, rfl⟩

end

-- ============================================================== ranges

/-- Where a computer is after a number of rounds. -/
structure Swept (w : Sweep) (down : Bool) (s : Computer Flat) (i : Nat)
    (t : Computer Flat) : Prop where
  at_sweep : AtSweep w down t
  pc : t.cpu.regs.pc = s.cpu.regs.pc
  sp : t.cpu.regs.sp = s.cpu.regs.sp
  hl : t.cpu.regs.hl = moved down s.cpu.regs.hl i
  de : w = .copy → t.cpu.regs.de = moved down s.cpu.regs.de i
  bc : t.cpu.regs.bc = moved true s.cpu.regs.bc i

section
variable {w : Sweep} {down : Bool} {s t : Computer Flat} {i : Nat}

/-- A round is harmless that reads outside the stack and, if it copies,
stores outside instruction and handler. -/
theorem AtSweep.harmless (h : AtSweep w down s)
    (hsource : OffStack s s.cpu.regs.hl)
    (hstored : w = .copy → s.cpu.regs.de ∉ [s.cpu.regs.pc,
      s.cpu.regs.pc + 1, Entry.nmiTarget, Entry.nmiTarget + 1]) :
    Harmless s := by
  refine ⟨hsource, fun addr haddr => ?_⟩
  rw [h.step_eq]
  cases w with
  | compare => rfl
  | copy =>
    have hne : addr ≠ s.cpu.regs.de := fun heq => hstored rfl (heq ▸ haddr)
    have hpoked := (h.fitted.stored .copy s.cpu.regs.de
      (s.board.memory s.cpu.regs.hl)).plain
    exact (congrFun (h.fitted.plain.memory_poke hpoked) addr).trans
      (Function.update_of_ne hne _ _)

theorem Swept.step (h : Swept w down s i t) (hkept : Harmless t)
    (hpc : t.step.2.cpu.regs.pc = t.cpu.regs.pc) :
    Swept w down s (i + 1) t.step.2 where
  at_sweep := h.at_sweep.step hkept hpc
  pc := hpc.trans h.pc
  sp := h.at_sweep.sp_step.trans h.sp
  hl := by
    rw [← advance_moved, ← h.hl, h.at_sweep.step_eq]
    exact w.round_hl down _ _
  de hw := by
    subst hw
    rw [← advance_moved, ← h.de rfl, h.at_sweep.step_eq]
    exact t.cpu.regs.copyRound_de down (t.board.memory t.cpu.regs.hl)
  bc := by
    rw [← advance_moved, ← h.bc, h.at_sweep.step_eq]
    exact w.round_bc down _ _

/-- If the stack is out of the range that is read, and instruction and
handler are out of the range that is stored, no round does harm. -/
theorem harmless_of_ranges (h : AtSweep w down s)
    (hsource : ∀ i < copyCount s.cpu.regs.bc,
      OffStack s (moved down s.cpu.regs.hl i))
    (hstored : w = .copy → ∀ i < copyCount s.cpu.regs.bc,
      moved down s.cpu.regs.de i ∉ [s.cpu.regs.pc, s.cpu.regs.pc + 1,
        Entry.nmiTarget, Entry.nmiTarget + 1]) :
    ∀ i, (∀ j ≤ i, (s.steps j).cpu.regs.pc = s.cpu.regs.pc) →
      Harmless (s.steps i) := by
  have hround : ∀ i < copyCount s.cpu.regs.bc, ∀ t, Swept w down s i t →
      Harmless t := by
    intro i hi t ht
    refine ht.at_sweep.harmless ?_ fun hw => ?_
    · unfold OffStack
      rw [ht.hl, ht.sp]
      exact hsource i hi
    · rw [ht.de hw, ht.pc]
      exact hstored hw i hi
  have hswept : ∀ i, (∀ j ≤ i, (s.steps j).cpu.regs.pc = s.cpu.regs.pc) →
      i < copyCount s.cpu.regs.bc ∧ Swept w down s i (s.steps i) := by
    intro i hpc
    induction i with
    | zero =>
      refine ⟨copyCount_pos _, h, rfl, rfl, ?_, fun _ => ?_, ?_⟩
      · exact (moved_zero down _).symm
      · exact (moved_zero down _).symm
      · exact (moved_zero true _).symm
    | succ i ih =>
      obtain ⟨hi, hbefore⟩ := ih fun j hj => hpc j (by omega)
      have hback : (s.steps i).step.2.cpu.regs.pc
          = (s.steps i).cpu.regs.pc := by
        rw [← Computer.steps_succ, hpc (i + 1) (Nat.le_refl _),
          hpc i (by omega)]
      have hafter := hbefore.step (hround i hi _ hbefore) hback
      rw [Computer.steps_succ]
      refine ⟨?_, hafter⟩
      -- it went back, so BC has not run out
      rcases hbefore.at_sweep.pc_step with ⟨-, hmore, hbc⟩ | hend
      · rw [← hbc, hafter.bc, Ne,
          moved_eq_zero_iff (Nat.succ_pos i) hi] at hmore
        omega
      · rw [hback] at hend
        exact absurd hend (by grind)
  intro i hpc
  obtain ⟨hi, hat⟩ := hswept i hpc
  exact hround i hi _ hat

end
end Flat
end HomeZ80
