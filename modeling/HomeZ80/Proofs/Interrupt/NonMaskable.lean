/-
The non-maskable interrupt and the return from it. A step at whose end
the line is up does its instruction and then the entry
(`Computer.stepAfter_raiseNmi`), which saves the program counter on the
stack and the first flip-flop in the second, and lowers the line.

On the flat board the entry stores two bytes and a return reads them
back. Both are written down in full here (`Exec.enterNmi_eq`,
`Flat.instruct_retn`), so that what a handler that does nothing but
return leaves behind can be read off them.
-/
import HomeZ80.Proofs.Cpu.Fetch

namespace HomeZ80

-- =========================================================== the entry

section
variable {μ : Type} [Decoder μ]

/-- The entry of a computer that runs. -/
theorem Exec.enterNmi_eq {s : Computer μ} (h : s.cpu.halted = false) :
    enterNmi s =
      let r := s.cpu.regs
      (11, { s with
        cpu.regs := { r with
          r := refreshed r.r, iff2 := r.iff1, iff1 := false
          pc := Entry.nmiTarget, sp := r.sp - 2 }
        board := ((s.board.onLines (·.clearNmi)).pokeWord (r.sp - 2)
          r.pc).note [.nmiTaken r.pc (r.sp - 2)] }) := by
  let t := (modifyBoard (·.onLines (·.clearNmi)) s).2
  have hleave : leaveHalt t = ((), t) := by
    have ht : t.cpu.halted = false := h
    simp [leaveHalt, modifyCpu, ht]
  unfold enterNmi
  rw [bind_apply, bind_apply, hleave]
  rfl

namespace Computer

/-- A non-maskable interrupt is taken whenever its line is up. -/
theorem interrupt?_of_nmi {s : Computer μ}
    (h : s.board.lines.nmi = true) : s.interrupt? = some .nmi := by
  have hlines : s.atBoundary.board.lines = s.board.lines :=
    (Exec.touches_instruct s).lines_eq
  unfold interrupt? accepted?
  rw [hlines, h]
  rfl

/-- With the line raised a step is an instruction and then the entry. -/
theorem stepAfter_raiseNmi (s : Computer μ) :
    s.stepAfter (·.onLines (·.raiseNmi)) =
      let t := s.onBoard (·.onLines (·.raiseNmi))
      let e := Exec.enterNmi t.atBoundary
      { e.2 with
        cpu.cost := e.2.cpu.cost + ((Exec.instruct t).1 + e.1) } := by
  show (Exec.step _).2 = _
  rw [Exec.step_of_entry (interrupt?_of_nmi rfl)]
  rfl

/-- The entry lowers the line again. -/
theorem idle_stepAfter_raiseNmi {s : Computer μ} (h : s.board.Idle) :
    (s.stepAfter (·.onLines (·.raiseNmi))).board.Idle := by
  rw [stepAfter_raiseNmi]
  let t := s.onBoard (·.onLines (·.raiseNmi))
  have hirq : t.atBoundary.board.lines.irq = false := by
    have hlines : t.atBoundary.board.lines = t.board.lines :=
      (Exec.touches_instruct t).lines_eq
    rw [hlines]
    exact h.irq
  have hlow : (t.atBoundary.board.onLines (·.clearNmi)).Idle := ⟨rfl, hirq⟩
  exact (Exec.touches_enterNmi t.atBoundary).idle hlow

end Computer
end

-- ====================================================== the flat board

namespace Flat

/-- A note does not change the memory. -/
theorem Fitted.note {b : Board Flat} (hb : Fitted b) (notes : List Note) :
    Fitted (b.note notes) := by
  unfold Fitted
  rw [Board.note_arena]
  exact hb

/-- A word that is written is two bytes of the memory. -/
theorem Fitted.pokeWord {b : Board Flat} (hb : Fitted b)
    (addr v : UInt16) :
    Fitted (b.pokeWord addr v)
      ∧ (b.pokeWord addr v).memory =
        Function.update (Function.update b.memory addr (loByte v))
          (addr + 1) (hiByte v) := by
  have hlow := hb.touch (.write addr (loByte v) b)
  have hboth := hlow.touch (.write (addr + 1) (hiByte v) _)
  refine ⟨hboth, ?_⟩
  rw [← hb.plain.memory_poke hlow.plain]
  exact hlow.plain.memory_poke hboth.plain

theorem memory_note (notes : List Note) (b : Board Flat) :
    (b.note notes).memory = b.memory := by
  funext addr
  exact (Board.SameMemory.note notes b).valueAt_eq addr

theorem memory_onLines (act : Lines → Lines) (b : Board Flat) :
    (b.onLines act).memory = b.memory := by
  funext addr
  exact (Board.SameMemory.onLines act b).valueAt_eq addr

/-- A return pops the program counter and restores the first flip-flop
from the second. -/
theorem execute_retn {s : Computer Flat} (hs : Fitted s.board) :
    Exec.execute .retn s =
      let r := s.cpu.regs
      (6, { s with
        cpu.regs := { r with
          pc := word (s.board.memory (r.sp + 1)) (s.board.memory r.sp)
          sp := r.sp + 2, iff1 := r.iff2 } }) := by
  have hpop : Exec.execute .retn s =
      let r := s.cpu.regs
      (6, { s with
        cpu.regs := { r with
          pc := (s.board.peekWord r.sp).1
          sp := r.sp + 2, iff1 := r.iff2 }
        board := (s.board.afterRead r.sp).afterRead (r.sp + 1) }) := rfl
  rw [hpop]
  dsimp only
  rw [hs.afterRead_eq, hs.afterRead_eq, Board.peekWord_fst]
  rfl

/-- The return takes the program counter off the stack and the flip-flop
back. -/
theorem instruct_retn {s : Computer Flat} (hs : Fitted s.board)
    (hhalted : s.cpu.halted = false)
    (hlead : s.board.memory s.cpu.regs.pc = 0xED)
    (hopcode : s.board.memory (s.cpu.regs.pc + 1) = 0x45) :
    Exec.instruct s =
      let r := s.cpu.regs
      (14, { s with
        cpu.regs := { r with
          pc := word (s.board.memory (r.sp + 1)) (s.board.memory r.sp)
          sp := r.sp + 2, r := refreshed (refreshed r.r)
          iff1 := r.iff2 } }) := by
  let t := s.fetched (s.cpu.regs.pc + 2) (refreshed (refreshed s.cpu.regs.r))
  have ht : Fitted t.board := hs
  have hretn : Decode.extended 0x45 = .retn := rfl
  rw [instruct_extended hs hhalted hlead]
  dsimp only
  rw [hopcode, hretn, execute_retn ht]
  rfl

end Flat
end HomeZ80
