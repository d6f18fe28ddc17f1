/-
Fetching on the flat board. A read leaves that board exactly as it is, so
what a fetch does can be written down in full: it moves the program
counter and counts the refresh register, and nothing else. An instruction
of the extended page, two bytes long, is then the instruction alone with
both fetches done before it (`Flat.instruct_extended`).
-/
import HomeZ80.Proofs.Board.Plain
import HomeZ80.Proofs.Cpu.Steps

namespace HomeZ80

/-- The refresh register after one more opcode fetch. -/
def refreshed (v : UInt8) : UInt8 :=
  if v % 128 = 127 then v - 127 else v + 1

/-- One fetch is counted modulo 128, below the highest bit. -/
theorem toNat_refreshed (v : UInt8) :
    (refreshed v).toNat = 128 * (v.toNat / 128) + (v.toNat + 1) % 128 := by
  obtain ⟨⟨v⟩⟩ := v
  revert v
  decide +kernel

namespace Registers

/-- The registers with the program counter and the refresh register
moved. -/
def fetched (pc : UInt16) (r : UInt8) (s : Registers) : Registers :=
  { s with pc, r }

section
variable (pc : UInt16) (r : UInt8) (s : Registers)

@[simp] theorem fetched_f : (s.fetched pc r).f = s.f := rfl
@[simp] theorem fetched_hl : (s.fetched pc r).hl = s.hl := rfl
@[simp] theorem fetched_de : (s.fetched pc r).de = s.de := rfl
@[simp] theorem fetched_bc : (s.fetched pc r).bc = s.bc := rfl
@[simp] theorem fetched_pc : (s.fetched pc r).pc = pc := rfl
@[simp] theorem fetched_r : (s.fetched pc r).r = r := rfl

@[simp] theorem fetched_fetched (pc' : UInt16) (r' : UInt8) :
    (s.fetched pc r).fetched pc' r' = s.fetched pc' r' := rfl

end
end Registers

def Computer.fetched {μ : Type} (pc : UInt16) (r : UInt8)
    (s : Computer μ) : Computer μ :=
  { s with cpu.regs := s.cpu.regs.fetched pc r }

namespace Flat

/-- A read leaves a flat board as it is. -/
theorem Fitted.afterRead_eq {b : Board Flat} (hb : Fitted b)
    (addr : UInt16) : b.afterRead addr = b := by
  rw [hb.plain.afterRead_eq]
  unfold Board.remarked
  split
  · rfl
  · rfl

/-- On a flat board a fetch gives the byte at the program counter and
changes registers only. -/
theorem fetchOpcode_eq {s : Computer Flat} (hs : Fitted s.board) :
    Exec.fetchOpcode s =
      (s.board.memory s.cpu.regs.pc,
        s.fetched (s.cpu.regs.pc + 1) (refreshed s.cpu.regs.r)) := by
  show (s.board.memory s.cpu.regs.pc, ({ s with
    cpu.regs := s.cpu.regs.fetched (s.cpu.regs.pc + 1)
      (refreshed s.cpu.regs.r)
    board := s.board.afterRead s.cpu.regs.pc } : Computer Flat)) = _
  rw [hs.afterRead_eq]
  rfl

/-- An instruction of the main page is carried out when its byte has been
fetched. -/
theorem instruct_main {s : Computer Flat} (hs : Fitted s.board)
    (hhalted : s.cpu.halted = false) {i : Instruction}
    (hmain : Decode.main .hl (s.board.memory s.cpu.regs.pc)
      = .instruction i) :
    Exec.instruct s =
      let done := Exec.execute i
        (s.fetched (s.cpu.regs.pc + 1) (refreshed s.cpu.regs.r))
      (4 + done.1, done.2) := by
  have hunfold : Exec.instruct s
      = Exec.opcode (Exec.fetchOpcode s).1 (Exec.fetchOpcode s).2 := by
    unfold Exec.instruct
    rw [hhalted]
    rfl
  rw [hunfold, fetchOpcode_eq hs]
  unfold Exec.opcode
  rw [hmain]
  rfl

/-- The two fetches of an instruction of the extended page. -/
theorem fetchOpcode_extended {s : Computer Flat} (hs : Fitted s.board)
    (hlead : s.board.memory s.cpu.regs.pc = 0xED) :
    let first := s.fetched (s.cpu.regs.pc + 1) (refreshed s.cpu.regs.r)
    Exec.fetchOpcode s = (0xED, first)
      ∧ Exec.fetchOpcode first =
        (s.board.memory (s.cpu.regs.pc + 1),
          s.fetched (s.cpu.regs.pc + 2)
            (refreshed (refreshed s.cpu.regs.r))) := by
  intro first
  have hfirst : Fitted first.board := hs
  have hnext : s.cpu.regs.pc + 1 + 1 = s.cpu.regs.pc + 2 := by grind
  constructor
  · rw [fetchOpcode_eq hs, hlead]
  · rw [fetchOpcode_eq hfirst, ← hnext]
    rfl

/-- Both bytes of an instruction of the extended page are fetched before
it is carried out. -/
theorem instruct_extended {s : Computer Flat} (hs : Fitted s.board)
    (hhalted : s.cpu.halted = false)
    (hlead : s.board.memory s.cpu.regs.pc = 0xED) :
    Exec.instruct s =
      let op := s.board.memory (s.cpu.regs.pc + 1)
      let done := Exec.execute (Decode.extended op)
        (s.fetched (s.cpu.regs.pc + 2) (refreshed (refreshed s.cpu.regs.r)))
      (8 + done.1, done.2) := by
  have hunfold : Exec.instruct s
      = Exec.opcode (Exec.fetchOpcode s).1 (Exec.fetchOpcode s).2 := by
    unfold Exec.instruct
    rw [hhalted]
    rfl
  have hextended (s : Computer Flat) : Exec.opcode 0xED s =
      let next := Exec.fetchOpcode s
      let done := Exec.execute (Decode.extended next.1) next.2
      (8 + done.1, done.2) := rfl
  obtain ⟨hfirst, hsecond⟩ := fetchOpcode_extended hs hlead
  rw [hunfold, hfirst]
  dsimp only
  rw [hextended, hsecond]

end Flat
end HomeZ80
