/-
The footprint of a program: whatever the CPU executes, it reaches the
board only through accesses (`Board.Touches`).

The fact is a class of computations, `Exec.OnBus`. It holds of every
primitive computation and is kept by sequence, so that for a compound
computation it is put together from the parts, up to a whole opcode; a
proof about what programs do to a board is then an induction over
`Board.Touches` and never opens an instruction.

An interrupt is not an access. Its entry acknowledges a channel first
and only then uses the bus.
-/
import HomeZ80.Proofs.Board.Touch
import HomeZ80.Proofs.Cpu.Lifting

namespace HomeZ80

namespace Exec

variable {μ α β : Type} [Decoder μ]

/-- The computations that reach the board only through accesses. -/
def touching : Rel μ μ := fun _ m _ =>
  ∀ s : Computer μ, s.board.Touches (m s).2.board

instance : Lifts (touching (μ := μ)) where
  pure _ _ := .refl
  bind hm hf s := (hm s).trans (hf _ _)

/-- A computation of this kind. -/
abbrev OnBus (m : Exec μ α) : Prop := Related touching m m

/-- What is only on the bus is a sequence of accesses. -/
theorem OnBus.touches {m : Exec μ α} [h : OnBus m] (s : Computer μ) :
    s.board.Touches (m s).2.board :=
  h.holds s

-- ============================================================ the CPU

instance : OnBus (μ := μ) regs := ⟨fun _ => .refl⟩

instance : OnBus (μ := μ) flags := ⟨fun _ => .refl⟩

instance (f : Registers → Registers) : OnBus (μ := μ) (modifyRegs f) :=
  ⟨fun _ => .refl⟩

instance (f : Cpu → Cpu) : OnBus (μ := μ) (modifyCpu f) :=
  ⟨fun _ => .refl⟩

instance (f : Flags) : OnBus (μ := μ) (setFlags f) := ⟨fun _ => .refl⟩

instance (reg : Reg8) : OnBus (μ := μ) (get8 reg) := ⟨fun _ => .refl⟩

instance (reg : Reg8) (v : UInt8) : OnBus (μ := μ) (set8 reg v) :=
  ⟨fun _ => .refl⟩

instance (reg : Reg16) : OnBus (μ := μ) (get16 reg) := ⟨fun _ => .refl⟩

instance (reg : Reg16) (v : UInt16) : OnBus (μ := μ) (set16 reg v) :=
  ⟨fun _ => .refl⟩

-- ============================================================ the bus

instance (n : Note) : OnBus (μ := μ) (note n) :=
  ⟨fun _ => .single (.note ..)⟩

instance (addr : UInt16) : OnBus (μ := μ) (peek addr) :=
  ⟨fun _ => .single (.read ..)⟩

instance (addr : UInt16) (v : UInt8) : OnBus (μ := μ) (poke addr v) :=
  ⟨fun _ => .single (.write ..)⟩

instance (port : UInt8) : OnBus (μ := μ) (readPort port) :=
  ⟨fun _ => .single (.input ..)⟩

instance (port v : UInt8) : OnBus (μ := μ) (writePort port v) :=
  ⟨fun _ => .single (.output ..)⟩

-- ======================================================== instructions

instance (op : BlockOp) (down : Bool) :
    OnBus (μ := μ) (blockRound op down) := by
  cases op <;> infer_instance

/-- An instruction uses the board only through the bus. -/
instance (i : Instruction) : OnBus (μ := μ) (execute i) := by
  cases i with
  | ret cond => cases cond <;> (simp only [execute]; infer_instance)
  | inC dst => cases dst <;> (simp only [execute]; infer_instance)
  | outC src => cases src <;> (simp only [execute]; infer_instance)
  | _ => simp only [execute]; infer_instance

-- ============================================================= opcodes

instance (role : Role) : OnBus (μ := μ) (indexed role) := by
  unfold indexed
  refine .andThen inferInstance fun op => ?_
  split <;> infer_instance

instance (op : UInt8) : OnBus (μ := μ) (opcode op) := by
  unfold opcode
  split <;> infer_instance

-- =============================================================== steps

/-- An instruction or an idle cycle keeps to the bus. -/
theorem touches_instruct (s : Computer μ) :
    s.board.Touches (instruct s).2.board := by
  unfold instruct
  split
  · exact .refl
  · have h : OnBus (do opcode (← fetchOpcode) : Exec μ Nat) :=
      inferInstance
    exact h.touches s

/-- What follows a first computation keeps to the bus, whatever the
first one did. -/
theorem touches_andThen (m : Exec μ α) {f : α → Exec μ β}
    (hf : ∀ a, OnBus (f a)) (s : Computer μ) :
    (m s).2.board.Touches ((m >>= f) s).2.board :=
  (hf _).holds _

-- a long sequence, past the usual bound on a search
set_option synthInstance.maxSize 256 in
/-- The non-maskable entry clears its line, then keeps to the bus. -/
theorem touches_enterNmi (s : Computer μ) :
    (s.board.onLines (·.clearNmi)).Touches (enterNmi s).2.board := by
  unfold enterNmi
  refine touches_andThen (modifyBoard (·.onLines (·.clearNmi)))
    (fun _ => ?_) s
  infer_instance

/-- A maskable entry acknowledges its channel, then keeps to the bus. -/
theorem touches_enterMaskable (channel : UInt8) (s : Computer μ) :
    (acknowledge channel s).2.board.Touches
      (enterMaskable channel s).2.board := by
  have hheed : (acknowledge channel s).2.board.Touches
      (heed channel s).2.board := by
    unfold heed
    refine touches_andThen (acknowledge channel) (fun _ => ?_) s
    infer_instance
  exact hheed.trans (OnBus.touches (m := vector channel) _)

end Exec
end HomeZ80
