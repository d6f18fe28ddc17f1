/-
The ports that a program uses. An instruction uses at most one port, to
read it or to write it, and which one, and with which value, can be told
before it is carried out: the port is given by the byte after the opcode
or by register C, the value by a register or by the byte at HL. Most
instructions use none.

A write that is told is made, and all else that the instruction does to
the board before is to read it (`Computer.output_of_portUse?`). That no
port is used but the one that is told is part of a stronger fact about
two boards (`Exec.agree_instruct`).
-/
import HomeZ80.Proofs.Board.Memory
import HomeZ80.Cpu.Step

namespace HomeZ80

inductive PortUse where
  | input (port : UInt8)
  | output (port v : UInt8)
  deriving DecidableEq, Repr

variable {μ : Type} [Decoder μ]

/-- The use that an instruction makes of a port, told from the computer
as it is when the opcode has been fetched. -/
def Instruction.portUse? (s : Computer μ) : Instruction → Option PortUse
  | .inA => some (.input (s.board.valueAt s.cpu.regs.pc))
  | .outA =>
    some (.output (s.board.valueAt s.cpu.regs.pc) s.cpu.regs.a)
  | .inC _ => some (.input s.cpu.regs.c)
  | .outC none => some (.output s.cpu.regs.c 0)
  | .outC (some name) =>
    some (.output s.cpu.regs.c (s.cpu.regs.get8 name))
  | .block .input _ _ => some (.input s.cpu.regs.c)
  | .block .output _ _ =>
    some (.output s.cpu.regs.c (s.board.valueAt s.cpu.regs.hl))
  | _ => none

/-- The opcode is the byte at the program counter. -/
theorem Exec.fetchOpcode_fst (s : Computer μ) :
    (fetchOpcode s).1 = s.board.valueAt s.cpu.regs.pc := rfl

/-- The use made by the instruction that begins with an opcode byte,
already fetched. -/
def Exec.opcodeUse? (op : UInt8) (s : Computer μ) : Option PortUse :=
  let next := fetchOpcode s
  match Decode.main .hl op with
  | .instruction i => i.portUse? s
  | .bitPage => none
  | .extendedPage => (Decode.extended next.1).portUse? next.2
  | .indexPage role =>
    match Decode.main role next.1 with
    | .instruction i => i.portUse? next.2
    | _ => none

/-- The use that the next instruction makes of a port. -/
def Computer.portUse? (s : Computer μ) : Option PortUse :=
  let next := Exec.fetchOpcode s
  if s.cpu.halted then none else Exec.opcodeUse? next.1 next.2

-- ================================================== what is told is done

/-- All that became of a board is that it was read, and then one port was
written. -/
def Board.Outputs (port v : UInt8) (b b' : Board μ) : Prop :=
  ∃ read, b.SameMemory read ∧ b' = read.writePort port v

/-- A read before the write does not count. -/
theorem Board.Outputs.afterRead {b b' : Board μ} {port v : UInt8}
    {addr : UInt16} (h : (b.afterRead addr).Outputs port v b') :
    b.Outputs port v b' := by
  obtain ⟨read, hsame, hb'⟩ := h
  exact ⟨read, (SameMemory.afterRead addr b).trans hsame, hb'⟩

namespace Exec

variable {s : Computer μ} {port v : UInt8}

/-- The use of a port that is told of an instruction is the one that it
makes. -/
theorem output_execute (i : Instruction)
    (h : i.portUse? s = some (.output port v)) :
    s.board.Outputs port v (execute i s).2.board := by
  cases i with
  | outA =>
    cases h
    exact ⟨s.board.afterRead s.cpu.regs.pc, .afterRead _ _, rfl⟩
  | outC src =>
    cases src with
    | none | some name =>
      cases h
      exact ⟨s.board, .refl _, rfl⟩
  | block op down repeats =>
    cases op with
    | copy | compare | input => cases h
    | output =>
      cases h
      refine ⟨s.board.afterRead s.cpu.regs.hl, .afterRead _ _, ?_⟩
      simp only [execute]
      rw [bind_apply]
      split
      · rfl
      · rfl
  | _ => cases h

theorem output_opcode (op : UInt8)
    (h : opcodeUse? op s = some (.output port v)) :
    s.board.Outputs port v (opcode op s).2.board := by
  unfold opcodeUse? at h
  unfold opcode
  cases hop : Decode.main .hl op with
  | instruction i =>
    rw [hop] at h
    exact output_execute i h
  | bitPage =>
    rw [hop] at h
    cases h
  | extendedPage =>
    rw [hop] at h
    have hi := output_execute _ h
    exact hi.afterRead
  | indexPage role =>
    rw [hop] at h
    unfold indexed
    dsimp only at h ⊢
    rw [bind_apply]
    cases hindexed : Decode.main role (fetchOpcode s).1 with
    | instruction i =>
      rw [hindexed] at h
      have hi := output_execute i h
      exact hi.afterRead
    | bitPage | extendedPage | indexPage other =>
      rw [hindexed] at h
      cases h

end Exec

/-- A write to a port that is told is made. -/
theorem Computer.output_of_portUse? {s : Computer μ} {port v : UInt8}
    (h : s.portUse? = some (.output port v)) :
    s.board.Outputs port v (Exec.instruct s).2.board := by
  unfold portUse? at h
  unfold Exec.instruct
  cases hhalted : s.cpu.halted with
  | true =>
    rw [hhalted] at h
    cases h
  | false =>
    rw [hhalted] at h
    have hop := Exec.output_opcode _ h
    exact hop.afterRead

end HomeZ80
