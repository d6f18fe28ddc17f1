/-
The wait after interrupts have been enabled. The instruction that enables
them raises a flag, and the boundary after it accepts no maskable
interrupt and lowers the flag again.

So the flag is down between any two steps (`Exec.eiDelay_step`): no other
instruction raises it, whatever page its opcode comes from, and an opcode
that is supplied with an interrupt in mode 0 is never the one that
enables interrupts. A maskable interrupt is therefore put off by the
instruction just executed and by nothing that went before
(`Computer.interrupt?_of_enables`, `Computer.interrupt?_eq_maskable_iff`).
-/
import HomeZ80.Proofs.Cpu.Aside
import HomeZ80.Proofs.Interrupt.FlipFlops

namespace HomeZ80

variable {μ : Type}

/-- The flag depends on neither the registers nor the halt. -/
theorem Cpu.aside_eiDelay : Aside Cpu.eiDelay where
  apart _ := rfl
  halted _ _ := rfl

/-- One instruction raises the flag. -/
theorem Instruction.eiDelay_mark (i : Instruction) (c : Cpu) :
    (i.mark c).eiDelay
      = (c.eiDelay || FlipMove.ofInstruction? i == some .enable) := by
  cases i with
  | ei => exact (Bool.or_true _).symm
  | _ => exact (Bool.or_false _).symm

namespace Exec

variable [Decoder μ]

/-- So an opcode raises it if it leads to this instruction, through
whatever page. -/
theorem eiDelay_opcode (op : UInt8) (s : Computer μ) :
    (opcode op s).2.cpu.eiDelay
      = (s.cpu.eiDelay
        || FlipMove.ofCode? (codeOf op s) == some .enable) := by
  rw [← flipMove_decoded, Cpu.aside_eiDelay.opcode]
  cases decoded? op s with
  | none => exact (Bool.or_false _).symm
  | some i => exact i.eiDelay_mark s.cpu

/-- No step leaves a wait behind. -/
theorem eiDelay_step (s : Computer μ) : (step s).2.cpu.eiDelay = false := by
  cases hentry : s.interrupt? with
  | none =>
    rw [step_of_no_entry hentry]
    rfl
  | some entry =>
    rw [step_of_entry hentry]
    exact Cpu.aside_eiDelay.enter entry s.atBoundary

end Exec

variable [Decoder μ]

namespace Computer

/-- The next instruction is the one that enables interrupts, by itself or
after an index byte. -/
def enables (s : Computer μ) : Bool :=
  !s.cpu.halted && Guarded.isPlain [0xFB]
    (Exec.codeOf (Exec.fetchOpcode s).1 (Exec.fetchOpcode s).2)

/-- To enable interrupts is one of the moves of the flip-flops. -/
theorem enables_eq (s : Computer μ) :
    s.enables = (s.instructionMove? == some .enable) := by
  unfold enables instructionMove? FlipMove.ofCode?
  cases s.cpu.halted with
  | true => rfl
  | false =>
    rw [Bool.not_false, Bool.true_and, if_neg Bool.false_ne_true]
    cases hplain : Guarded.isPlain [0xFB]
        (Exec.codeOf (Exec.fetchOpcode s).1 (Exec.fetchOpcode s).2) with
    | true => rfl
    | false =>
      rw [if_neg Bool.false_ne_true]
      split
      · rfl
      · split <;> rfl

/-- An instruction begins the wait if and only if it enables
interrupts. -/
theorem eiDelay_instruct (s : Computer μ) :
    (Exec.instruct s).2.cpu.eiDelay = (s.cpu.eiDelay || s.enables) := by
  rw [enables_eq]
  unfold Exec.instruct instructionMove?
  cases hhalted : s.cpu.halted with
  | true => exact (Bool.or_false _).symm
  | false => exact Exec.eiDelay_opcode _ (Exec.fetchOpcode s).2

/-- A run has no wait between its steps. -/
theorem eiDelay_run {s : Computer μ} (hs : s.cpu.eiDelay = false)
    (acts : List (Board μ → Board μ)) :
    (acts.foldl stepAfter s).cpu.eiDelay = false := by
  induction acts generalizing s with
  | nil => exact hs
  | cons act rest ih => exact ih (Exec.eiDelay_step (s.onBoard act))

/-- The boundary after interrupts are enabled takes no maskable one. -/
theorem interrupt?_of_enables {s : Computer μ} (h : s.enables = true)
    (channel : UInt8) : s.interrupt? ≠ some (.maskable channel) := by
  intro hentry
  have hwait : (Exec.instruct s).2.cpu.eiDelay = true := by
    rw [eiDelay_instruct, h, Bool.or_true]
  unfold interrupt? accepted? at hentry
  rw [hwait] at hentry
  split at hentry <;> cases hentry

/-- While its line is down no non-maskable interrupt is taken. -/
theorem interrupt?_ne_nmi {s : Computer μ}
    (h : s.board.lines.nmi = false) : s.interrupt? ≠ some .nmi := by
  have hat : s.atBoundary.board.lines = s.board.lines :=
    (Exec.touches_instruct s).lines_eq
  intro hentry
  unfold interrupt? accepted? at hentry
  rw [hat, h, if_neg Bool.false_ne_true] at hentry
  split at hentry <;> cases hentry

/-- A boundary takes a maskable interrupt if its line is up, interrupts are
enabled, and there is no non-maskable one to go first. -/
theorem interrupt?_eq_maskable_iff {s : Computer μ}
    (hs : s.cpu.eiDelay = false) (h : s.enables = false)
    (channel : UInt8) :
    s.interrupt? = some (.maskable channel)
      ↔ s.atBoundary.board.lines.nmi = false
        ∧ s.atBoundary.cpu.regs.iff1 = true
        ∧ s.atBoundary.board.lines.irq = true
        ∧ s.atBoundary.requestedChannel = channel := by
  refine ⟨interrupt?_eq_maskable, ?_⟩
  rintro ⟨hnmi, hiff, hirq, hchannel⟩
  have hready : (Exec.instruct s).2.cpu.eiDelay = false := by
    rw [eiDelay_instruct, hs, h, Bool.or_false]
  unfold interrupt? accepted?
  rw [hready, hnmi, hiff, hirq, hchannel]
  rfl

end Computer
end HomeZ80
