/-
The CPU apart from its registers: whether it is halted, the wait after
interrupts were enabled, its two counts. Hardly anything that is executed
reaches them. A computation that does not is `Exec.OnRegisters`, and of
all the instructions there are three that are not of this kind
(`Exec.apart_execute`).

Which instruction an opcode byte leads to, through whatever page, is
`Exec.decoded?`. Two ways lead to none: an index byte that is left for
the next step, and an operation of the bit page on a displaced byte.
-/
import HomeZ80.Proofs.Cpu.Lifting

namespace HomeZ80

/-- The CPU with its registers erased. -/
def Cpu.apart (c : Cpu) : Cpu := { c with regs := {} }

namespace Exec

variable {μ α : Type}

/-- The computations that reach nothing of the CPU but its registers. -/
def leavingApart : Rel μ μ := leaving (·.cpu.apart)

instance : Lifts (leavingApart (μ := μ)) :=
  inferInstanceAs (Lifts (leaving _))

/-- A computation of this kind. -/
abbrev OnRegisters (m : Exec μ α) : Prop := Related leavingApart m m

/-- What is only about registers leaves the rest of the CPU. -/
theorem OnRegisters.apart_eq {m : Exec μ α} [h : OnRegisters m]
    (s : Computer μ) : (m s).2.cpu.apart = s.cpu.apart :=
  h.holds s

-- ================================================= registers and board

instance : OnRegisters (μ := μ) regs := ⟨fun _ => rfl⟩
instance : OnRegisters (μ := μ) flags := ⟨fun _ => rfl⟩

instance (f : Registers → Registers) :
    OnRegisters (μ := μ) (modifyRegs f) := ⟨fun _ => rfl⟩

instance (f : Board μ → Board μ) : OnRegisters (modifyBoard f) :=
  ⟨fun _ => rfl⟩

instance (n : Note) : OnRegisters (μ := μ) (note n) := ⟨fun _ => rfl⟩

instance (f : Flags) : OnRegisters (μ := μ) (setFlags f) :=
  ⟨fun _ => rfl⟩

instance (reg : Reg8) : OnRegisters (μ := μ) (get8 reg) := ⟨fun _ => rfl⟩

instance (reg : Reg8) (v : UInt8) : OnRegisters (μ := μ) (set8 reg v) :=
  ⟨fun _ => rfl⟩

instance (reg : Reg16) : OnRegisters (μ := μ) (get16 reg) :=
  ⟨fun _ => rfl⟩

instance (reg : Reg16) (v : UInt16) :
    OnRegisters (μ := μ) (set16 reg v) := ⟨fun _ => rfl⟩

variable [Decoder μ]

instance (addr : UInt16) : OnRegisters (μ := μ) (peek addr) :=
  ⟨fun _ => rfl⟩

instance (addr : UInt16) (v : UInt8) :
    OnRegisters (μ := μ) (poke addr v) := ⟨fun _ => rfl⟩

instance (port : UInt8) : OnRegisters (μ := μ) (readPort port) :=
  ⟨fun _ => rfl⟩

instance (port v : UInt8) : OnRegisters (μ := μ) (writePort port v) :=
  ⟨fun _ => rfl⟩

instance (op : BlockOp) (down : Bool) :
    OnRegisters (μ := μ) (blockRound op down) := by
  cases op <;> infer_instance

end Exec

/-- What an instruction does to the CPU apart from its registers. -/
def Instruction.mark : Instruction → Cpu → Cpu
  | .halt, c => { c with halted := true }
  | .ei, c => { c with eiDelay := true }
  | .undefined _, c => { c with undefinedCount := c.undefinedCount + 1 }
  | _, c => c

/-- What an instruction marks is no register. -/
theorem Instruction.mark_apart (i : Instruction) (c : Cpu) :
    i.mark c.apart = (i.mark c).apart := by
  cases i <;> rfl

namespace Exec

variable {μ : Type} [Decoder μ]

/-- Three instructions reach the CPU beyond its registers. -/
theorem apart_execute (i : Instruction) (s : Computer μ) :
    (execute i s).2.cpu.apart = i.mark s.cpu.apart := by
  cases i with
  | halt => rfl
  | ei => rfl
  | undefined opcode => rfl
  | ret cond =>
    cases cond <;>
      (simp only [execute]; exact OnRegisters.apart_eq s)
  | inC dst =>
    cases dst <;> rfl
  | outC src =>
    cases src <;> rfl
  | _ => simp only [execute]; exact OnRegisters.apart_eq s

-- ============================================================= opcodes

/-- The instruction that an opcode byte leads to. -/
def decoded? (op : UInt8) (s : Computer μ) : Option Instruction :=
  match Decode.main .hl op with
  | .instruction i => some i
  | .bitPage => some (Decode.bit (fetchOpcode s).1)
  | .extendedPage => some (Decode.extended (fetchOpcode s).1)
  | .indexPage role =>
    match Decode.main role (fetchOpcode s).1 with
    | .instruction i => some i
    | _ => none

/-- The computer when this instruction is carried out. -/
def ledTo (op : UInt8) (s : Computer μ) : Computer μ :=
  match Decode.main .hl op with
  | .instruction _ => s
  | .bitPage | .extendedPage | .indexPage _ => (fetchOpcode s).2

/-- An opcode that leads to an instruction carries it out. -/
theorem opcode_of_decoded {op : UInt8} {s : Computer μ} {i : Instruction}
    (h : decoded? op s = some i) :
    (opcode op s).2 = (execute i (ledTo op s)).2 := by
  unfold decoded? at h
  unfold opcode ledTo
  cases hop : Decode.main .hl op with
  | instruction j | bitPage | extendedPage =>
    rw [hop] at h
    obtain rfl := Option.some.inj h
    rfl
  | indexPage role =>
    rw [hop] at h
    dsimp only at h ⊢
    unfold indexed
    rw [bind_apply]
    cases hindexed : Decode.main role (fetchOpcode s).1 with
    | instruction j =>
      rw [hindexed] at h
      obtain rfl := Option.some.inj h
      rfl
    | bitPage | extendedPage | indexPage other =>
      rw [hindexed] at h
      cases h

/-- On the way there no more than registers are touched. -/
theorem apart_ledTo (op : UInt8) (s : Computer μ) :
    (ledTo op s).cpu.apart = s.cpu.apart := by
  unfold ledTo
  split
  · rfl
  · exact OnRegisters.apart_eq s
  · exact OnRegisters.apart_eq s
  · exact OnRegisters.apart_eq s

/-- An opcode byte that leads to no instruction reaches only the
registers. -/
theorem apart_opcode_of_none {op : UInt8} {s : Computer μ}
    (h : decoded? op s = none) :
    (opcode op s).2.cpu.apart = s.cpu.apart := by
  have hnext : (fetchOpcode s).2.cpu.apart = s.cpu.apart :=
    OnRegisters.apart_eq s
  unfold decoded? at h
  unfold opcode
  cases hop : Decode.main .hl op with
  | instruction _ | bitPage | extendedPage =>
    rw [hop] at h
    cases h
  | indexPage role =>
    rw [hop] at h
    dsimp only at h ⊢
    unfold indexed
    rw [bind_apply, ← hnext]
    cases hindexed : Decode.main role (fetchOpcode s).1 with
    | instruction _ =>
      rw [hindexed] at h
      cases h
    | bitPage => exact OnRegisters.apart_eq (m := indexedBits role) _
    | extendedPage | indexPage _ => rfl

theorem apart_opcode_of_some {op : UInt8} {s : Computer μ}
    {i : Instruction} (h : decoded? op s = some i) :
    (opcode op s).2.cpu.apart = i.mark s.cpu.apart := by
  rw [opcode_of_decoded h, apart_execute, apart_ledTo]

end Exec
end HomeZ80
