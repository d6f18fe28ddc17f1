/-
What a program can change through a port and in no other way. A property
of boards that survives every read, write and note, and also what an
interrupt entry does to lines and controller (`Board.Lasting`), survives
a step of the CPU, whatever it executes, unless it is ended by the one
write to a port that is told of the instruction (`Exec.lasting_step`).

The instruction is run on two equal boards at once, so that the walk over
all instructions that was made for two boards (`Exec.agree_instruct`)
need not be made again for one. An entry never writes a port: the opcodes
that are supplied in mode 0 have no use for one.
-/
import HomeZ80.Proofs.Cpu.Entry
import HomeZ80.Proofs.Cpu.Mirror

namespace HomeZ80

variable {μ : Type} [Decoder μ]

/-- A property that only a write to a port could end. -/
structure Board.Lasting (P : Board μ → Prop) : Prop where
  afterRead {b : Board μ} (h : P b) (addr : UInt16) : P (b.afterRead addr)
  poke {b : Board μ} (h : P b) (addr : UInt16) (v : UInt8) :
    P (b.poke addr v)
  note {b : Board μ} (h : P b) (n : Note) : P (b.note [n])
  afterInput {b : Board μ} (h : P b) (port : UInt8) :
    P (b.afterInput port)
  clearNmi {b : Board μ} (h : P b) : P (b.onLines (·.clearNmi))
  acknowledge {s : Computer μ} (h : P s.board) (channel : UInt8) :
    P (Exec.acknowledge channel s).2.board

/-- One board, taken twice. -/
def Board.Both (P : Board μ → Prop) (b c : Board μ) : Prop :=
  c = b ∧ P b

variable {P : Board μ → Prop}

/-- A board is the twin of itself for as long as the property lasts. -/
theorem Board.Lasting.mirror (hP : Board.Lasting P) :
    Board.Mirror (Board.Both P) where
  valueAt h addr := by rw [h.1]
  afterRead h addr := ⟨by rw [h.1], hP.afterRead h.2 addr⟩
  poke h addr v := ⟨by rw [h.1], hP.poke h.2 addr v⟩
  note h n := ⟨by rw [h.1], hP.note h.2 n⟩

/-- The property survives a use of a port. -/
def PortUse.Spares (P : Board μ → Prop) : PortUse → Prop
  | .input _ => True
  | .output port v => ∀ b, P b → P (b.writePort port v)

/-- What spares the property is mirrored by a board that has it and the
same board. -/
theorem PortUse.Spares.mirrored (hP : Board.Lasting P) {use : PortUse}
    (h : use.Spares P) : use.Mirrored (Board.Both P) := by
  cases use with
  | input port =>
    intro b c hbc
    exact ⟨by rw [hbc.1], by rw [hbc.1], hP.afterInput hbc.2 port⟩
  | output port v => exact fun b c hbc => ⟨by rw [hbc.1], h b hbc.2⟩

-- ======================================================= supplied opcodes

/-- Whether an instruction leaves all ports alone. -/
def Instruction.isPortless : Instruction → Bool
  | .inA | .outA | .inC _ | .outC _ => false
  | .block .input _ _ | .block .output _ _ => false
  | _ => true

def Opcode.isPortless : Opcode → Bool
  | .instruction i => i.isPortless
  | .bitPage | .extendedPage | .indexPage _ => false

/-- An instruction without a port uses none. -/
theorem Instruction.portUse?_of_isPortless {i : Instruction}
    (h : i.isPortless = true) (s : Computer μ) : i.portUse? s = none := by
  cases i with
  | inA | outA | inC _ | outC _ => cases h
  | block op down repeats =>
    cases op with
    | copy | compare => rfl
    | input | output => cases h
  | _ => rfl

/-- An even opcode is a whole instruction, and uses no port. -/
theorem Exec.opcodeUse?_supplied (channel : UInt8) (s : Computer μ) :
    opcodeUse? (2 * channel) s = none := by
  have hmain : (Decode.main .hl (2 * channel)).isPortless = true := by
    obtain ⟨⟨v⟩⟩ := channel
    revert v
    decide +kernel
  unfold opcodeUse?
  cases hop : Decode.main .hl (2 * channel) with
  | instruction i =>
    rw [hop] at hmain
    exact Instruction.portUse?_of_isPortless hmain s
  | bitPage => rfl
  | extendedPage | indexPage role =>
    rw [hop] at hmain
    cases hmain

namespace Exec

-- ================================================================ steps

variable (hP : Board.Lasting P) {s : Computer μ}

include hP

/-- So a property lasts over an opcode whose use of a port spares it. -/
theorem lasting_opcode (op : UInt8) (hs : P s.board)
    (hport : ∀ use, opcodeUse? op s = some use → use.Spares P) :
    P (opcode op s).2.board := by
  have hmirror := hP.mirror
  have htwins : Twins (Board.Both P) s s := ⟨rfl, rfl, hs⟩
  have hagree := agree_opcode op htwins fun use huse =>
    (hport use huse).mirrored hP
  exact hagree.2.board.2

/-- A property lasts over an instruction whose use of a port spares it. -/
theorem lasting_instruct (hs : P s.board)
    (hport : ∀ use, s.portUse? = some use → use.Spares P) :
    P (instruct s).2.board := by
  have hmirror := hP.mirror
  have htwins : Twins (Board.Both P) s s := ⟨rfl, rfl, hs⟩
  have hagree := agree_instruct htwins fun use huse =>
    (hport use huse).mirrored hP
  exact hagree.2.board.2

theorem lasting_call (target : UInt16) (hs : P s.board) :
    P (call target s).2.board :=
  hP.poke (hP.poke hs _ _) _ _

theorem lasting_enterNmi (hs : P s.board) : P (enterNmi s).2.board := by
  have hcalled : ∀ t : Computer μ,
      t.board = s.board.onLines (·.clearNmi) →
        P (call Entry.nmiTarget t).2.board := by
    intro t ht
    apply lasting_call hP
    rw [ht]
    exact hP.clearNmi hs
  exact hP.note (hcalled _ rfl) _

/-- Where a channel leads, whatever the mode. -/
theorem lasting_vector (channel : UInt8) (hs : P s.board) :
    P (vector channel s).2.board := by
  cases him : s.cpu.regs.im with
  | im0 =>
    rw [vector_im0 channel him]
    apply lasting_opcode hP
    · exact hP.note hs _
    · intro use huse
      rw [opcodeUse?_supplied] at huse
      cases huse
  | im1 =>
    rw [vector, bind_apply]
    dsimp only [regs]
    rw [him]
    exact hP.note (lasting_call hP _ hs) _
  | im2 =>
    rw [vector, bind_apply]
    dsimp only [regs]
    rw [him]
    refine hP.note (lasting_call hP _ ?_) _
    exact hP.afterRead (hP.afterRead hs _) _

theorem lasting_enter (entry : Entry) (hs : P s.board) :
    P (enter entry s).2.board := by
  cases entry with
  | nmi => exact lasting_enterNmi hP hs
  | maskable channel =>
    exact lasting_vector hP channel (hP.acknowledge hs channel)

/-- A step ends the property at most by the write to a port that is told
of its instruction. -/
theorem lasting_step (hs : P s.board)
    (hport : ∀ use, s.portUse? = some use → use.Spares P) :
    P (step s).2.board := by
  have hat : P s.atBoundary.board := lasting_instruct hP hs hport
  cases hentry : s.interrupt? with
  | none =>
    rw [step_of_no_entry hentry]
    exact hat
  | some entry =>
    rw [step_of_entry hentry]
    exact lasting_enter hP entry hat

end Exec
end HomeZ80
