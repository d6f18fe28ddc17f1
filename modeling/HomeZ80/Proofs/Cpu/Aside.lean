/-
What the CPU holds besides its registers and the halt: the wait after
interrupts were enabled, and its two counts. Each is a function of the
CPU that neither the registers nor the halt have a part in
(`Cpu.Aside`), and that is all that is needed to follow it through a
step. An opcode does to it what the instruction that it leads to marks
(`Cpu.Aside.opcode`), and an interrupt entry does nothing to it
(`Cpu.Aside.enter`): an entry may carry out an opcode that is supplied
with it, but such an opcode marks nothing but the halt
(`Decode.mark_supplied`).
-/
import HomeZ80.Proofs.Cpu.Apart
import HomeZ80.Proofs.Cpu.RefreshCount

namespace HomeZ80

-- ============================================================ decoding

def Opcode.instruction? : Opcode → Option Instruction
  | .instruction i => some i
  | _ => none

namespace Instruction

/-- An instruction that is counted and does nothing. -/
def isUndefined : Instruction → Bool
  | .undefined _ => true
  | _ => false

/-- An instruction that reaches the CPU beyond its registers and the
halt. -/
def marksAside : Instruction → Bool
  | .ei | .undefined _ => true
  | _ => false

/-- Any other leaves all there is, or puts the CPU to a halt. -/
theorem mark_of_not_aside {i : Instruction} (h : i.marksAside = false)
    (c : Cpu) : i.mark c = { c with halted := (i.mark c).halted } := by
  cases i with
  | ei | undefined => cases h
  | _ => rfl

end Instruction

/-- An even opcode byte is a whole instruction, and neither of the two
that reach further than the halt. -/
theorem Decode.mark_supplied (channel : UInt8) :
    ∃ i, main .hl (2 * channel) = .instruction i
      ∧ i.marksAside = false := by
  obtain ⟨i, hmain, -⟩ := main_supplied channel
  have hall : ∀ i ∈ (main .hl (2 * channel)).instruction?,
      i.marksAside = false := by
    clear hmain
    obtain ⟨⟨v⟩⟩ := channel
    revert v
    decide +kernel
  rw [hmain] at hall
  exact ⟨i, hmain, hall i rfl⟩

-- ============================================================ the walk

/-- What is read off the CPU depends on neither its registers nor the
halt. -/
structure Cpu.Aside {γ : Type} (f : Cpu → γ) : Prop where
  apart (c : Cpu) : f c.apart = f c
  halted (c : Cpu) (b : Bool) : f { c with halted := b } = f c

namespace Cpu.Aside

open Exec

variable {γ μ : Type} {f : Cpu → γ}

/-- What reaches only the registers leaves it. -/
theorem onRegisters (hf : Aside f) {α : Type} (m : Exec μ α)
    [OnRegisters m] (s : Computer μ) : f (m s).2.cpu = f s.cpu := by
  rw [← hf.apart, OnRegisters.apart_eq (m := m), hf.apart]

/-- It is the same while the CPU waits in a halt and after. -/
theorem leaveHalt (hf : Aside f) (s : Computer μ) :
    f (leaveHalt s).2.cpu = f s.cpu := by
  show f (if s.cpu.halted then _ else s.cpu : Cpu) = _
  split
  · rw [← hf.apart, ← hf.apart s.cpu]
    exact hf.halted s.cpu.apart false
  · rfl

variable [Decoder μ]

/-- An opcode does to it what its instruction marks, and an opcode that
leads to no instruction does nothing to it. -/
theorem opcode (hf : Aside f) (op : UInt8) (s : Computer μ) :
    f (opcode op s).2.cpu
      = f ((decoded? op s).elim s.cpu (·.mark s.cpu)) := by
  rw [← hf.apart]
  cases hi : decoded? op s with
  | none => rw [apart_opcode_of_none hi, hf.apart, Option.elim_none]
  | some i =>
    rw [apart_opcode_of_some hi, i.mark_apart, hf.apart,
      Option.elim_some]

/-- An opcode that is supplied with an interrupt does nothing to it. -/
theorem supplied (hf : Aside f) (channel : UInt8) (s : Computer μ) :
    f (Exec.opcode (2 * channel) s).2.cpu = f s.cpu := by
  obtain ⟨i, hmain, haside⟩ := Decode.mark_supplied channel
  have hi : decoded? (2 * channel) s = some i := by
    unfold decoded?
    rw [hmain]
  rw [hf.opcode, hi, Option.elim_some,
    Instruction.mark_of_not_aside haside, hf.halted]

/-- An interrupt entry does nothing to it, whichever way it is made. -/
theorem enter (hf : Aside f) (entry : Entry) (s : Computer μ) :
    f (enter entry s).2.cpu = f s.cpu := by
  cases entry with
  | nmi =>
    show f (enterNmi s).2.cpu = f s.cpu
    unfold enterNmi
    rw [bind_apply, bind_apply, hf.onRegisters, hf.leaveHalt,
      hf.onRegisters]
  | maskable channel =>
    let t := (heed channel s).2
    have hheed : f t.cpu = f s.cpu := by
      show f (deafen (acknowledge channel s).2).2.cpu = f s.cpu
      unfold deafen
      rw [bind_apply, hf.onRegisters, hf.leaveHalt]
      rfl
    rw [← hheed]
    show f (vector channel t).2.cpu = f t.cpu
    cases him : t.cpu.regs.im with
    | im0 => rw [vector_im0 channel him, hf.supplied, hf.onRegisters]
    | im1 | im2 =>
      rw [vector, bind_apply]
      dsimp only [Exec.regs]
      rw [him]
      exact hf.onRegisters _ t

end Cpu.Aside
end HomeZ80
