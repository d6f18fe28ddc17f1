/-
Facts about computations that are put together from the parts. Such a
fact relates a computation to another one, or says something about it
alone, and then it is related to itself. What makes it a fact of this
kind is that sequence keeps it (`Exec.Lifts`); choice keeps any.

The fact is looked up in a class (`Exec.Related`), and instance resolution
follows the text of a computation down to what it is made of. The
computations that have a name get their instances here, once for all
facts, under the condition that the fact is known of the few operations
that they are made of. A fact that holds of all operations then holds of
all of them; one that holds of some, like leaving a register alone, holds
of those that use no other.
-/
import HomeZ80.Cpu.Step

namespace HomeZ80.Exec

variable {μ ν α β : Type}

/-- A relation between the computations of two computers, whatever their
result is. -/
abbrev Rel (μ ν : Type) : Type 1 := (α : Type) → Exec μ α → Exec ν α → Prop

/-- Two computations are related. -/
class Related (K : Rel μ ν) (m : Exec μ α) (m' : Exec ν α) : Prop where
  holds : K α m m'

/-- A relation that sequence keeps. -/
class Lifts (K : Rel μ ν) : Prop where
  pure {α : Type} (a : α) : K α (Pure.pure a) (Pure.pure a)
  bind {α β : Type} {m : Exec μ α} {m' : Exec ν α} {f : α → Exec μ β}
    {f' : α → Exec ν β} (hm : K α m m') (hf : ∀ a, K β (f a) (f' a)) :
    K β (m >>= f) (m' >>= f')

/-- The computations that leave what a view shows of a computer. -/
def leaving {γ : Type} (view : Computer μ → γ) : Rel μ μ :=
  fun _ m _ => ∀ s, view (m s).2 = view s

instance {γ : Type} (view : Computer μ → γ) : Lifts (leaving view) where
  pure _ _ := rfl
  bind hm hf s := (hf _ _).trans (hm s)

-- ==================================================== sequence, choice

variable {K : Rel μ ν}

instance [hK : Lifts K] (a : α) :
    Related K (pure a : Exec μ α) (pure a) :=
  ⟨hK.pure a⟩

/-- What is related may be followed by what is related. -/
theorem Related.andThen [hK : Lifts K] {m : Exec μ α} {m' : Exec ν α}
    {f : α → Exec μ β} {f' : α → Exec ν β} (hm : Related K m m')
    (hf : ∀ a, Related K (f a) (f' a)) :
    Related K (m >>= f) (m' >>= f') :=
  ⟨hK.bind hm.holds fun a => (hf a).holds⟩

instance [Lifts K] {m : Exec μ α} {m' : Exec ν α} {f : α → Exec μ β}
    {f' : α → Exec ν β} [hm : Related K m m']
    [hf : ∀ a, Related K (f a) (f' a)] :
    Related K (m >>= f) (m' >>= f') :=
  hm.andThen hf

instance {c : Prop} [Decidable c] {m n : Exec μ α} {m' n' : Exec ν α}
    [hm : Related K m m'] [hn : Related K n n'] :
    Related K (if c then m else n) (if c then m' else n') := by
  split
  · exact hm
  · exact hn

-- ================================================================ words

variable [Decoder μ] [Decoder ν] [Lifts K]

instance (addr : UInt16)
    [∀ addr, Related K (peek addr : Exec μ UInt8) (peek addr)] :
    Related K (peekWord addr : Exec μ UInt16) (peekWord addr) :=
  inferInstanceAs (Related K
    (do
      let lo ← peek addr
      let hi ← peek (addr + 1)
      return word hi lo : Exec μ UInt16)
    (do
      let lo ← peek addr
      let hi ← peek (addr + 1)
      return word hi lo))

instance (addr v : UInt16)
    [∀ addr v, Related K (poke addr v : Exec μ Unit) (poke addr v)] :
    Related K (pokeWord addr v : Exec μ Unit) (pokeWord addr v) :=
  inferInstanceAs (Related K
    (do poke addr (loByte v); poke (addr + 1) (hiByte v) : Exec μ Unit)
    (do poke addr (loByte v); poke (addr + 1) (hiByte v)))

-- ===================================================== code and stack

instance [Related K (regs : Exec μ Registers) regs]
    [∀ addr, Related K (peek addr : Exec μ UInt8) (peek addr)]
    [∀ pc, Related K (modifyRegs ({ · with pc }) : Exec μ Unit)
      (modifyRegs ({ · with pc }))] :
    Related K (fetchByte : Exec μ UInt8) fetchByte := by
  unfold fetchByte
  infer_instance

instance [Related K (modifyRegs (·.refresh) : Exec μ Unit)
      (modifyRegs (·.refresh))]
    [Related K (fetchByte : Exec μ UInt8) fetchByte] :
    Related K (fetchOpcode : Exec μ UInt8) fetchOpcode := by
  unfold fetchOpcode
  infer_instance

instance [Related K (fetchByte : Exec μ UInt8) fetchByte] :
    Related K (fetchWord : Exec μ UInt16) fetchWord := by
  unfold fetchWord
  infer_instance

instance (base : UInt16) [Related K (fetchByte : Exec μ UInt8) fetchByte] :
    Related K (fetchDisplaced base : Exec μ UInt16)
      (fetchDisplaced base) := by
  unfold fetchDisplaced
  infer_instance

instance (v : UInt16) [Related K (get16 .sp : Exec μ UInt16) (get16 .sp)]
    [∀ v, Related K (set16 .sp v : Exec μ Unit) (set16 .sp v)]
    [∀ addr v, Related K (pokeWord addr v : Exec μ Unit)
      (pokeWord addr v)] :
    Related K (push v : Exec μ Unit) (push v) := by
  unfold push
  infer_instance

instance [Related K (get16 .sp : Exec μ UInt16) (get16 .sp)]
    [∀ v, Related K (set16 .sp v : Exec μ Unit) (set16 .sp v)]
    [∀ addr, Related K (peekWord addr : Exec μ UInt16) (peekWord addr)] :
    Related K (pop : Exec μ UInt16) pop := by
  unfold pop
  infer_instance

instance (target : UInt16)
    [Related K (get16 .pc : Exec μ UInt16) (get16 .pc)]
    [∀ v, Related K (set16 .pc v : Exec μ Unit) (set16 .pc v)]
    [∀ v, Related K (push v : Exec μ Unit) (push v)] :
    Related K (call target : Exec μ Unit) (call target) := by
  unfold call
  infer_instance

-- ============================================================ operands

instance (o : Operand)
    [∀ reg, Related K (get16 reg : Exec μ UInt16) (get16 reg)]
    [∀ base, Related K (fetchDisplaced base : Exec μ UInt16)
      (fetchDisplaced base)] :
    Related K (site o : Exec μ Site) (site o) := by
  rcases o with name | role
  · unfold site
    infer_instance
  · cases role <;> (unfold site; infer_instance)

instance (p : Site)
    [∀ reg, Related K (get8 reg : Exec μ UInt8) (get8 reg)]
    [∀ addr, Related K (peek addr : Exec μ UInt8) (peek addr)] :
    Related K (readSite p : Exec μ UInt8) (readSite p) := by
  cases p <;> (unfold readSite; infer_instance)

instance (v : UInt8) (p : Site)
    [∀ reg v, Related K (set8 reg v : Exec μ Unit) (set8 reg v)]
    [∀ addr v, Related K (poke addr v : Exec μ Unit) (poke addr v)] :
    Related K (writeSite v p : Exec μ Unit) (writeSite v p) := by
  cases p <;> (unfold writeSite; infer_instance)

instance (cond : Option Condition)
    [Related K (flags : Exec μ Flags) flags] :
    Related K (taken cond : Exec μ Bool) (taken cond) := by
  cases cond <;> (unfold taken; infer_instance)

instance (target : Site) (copy : Option Reg8) (result : UInt8)
    [∀ v p, Related K (writeSite v p : Exec μ Unit) (writeSite v p)]
    [∀ reg v, Related K (set8 reg v : Exec μ Unit) (set8 reg v)] :
    Related K (bits.store target copy result : Exec μ Unit)
      (bits.store target copy result) := by
  cases copy <;> (unfold bits.store; infer_instance)

instance (op : BitOp) (target : Site) (copy : Option Reg8)
    [Related K (flags : Exec μ Flags) flags]
    [∀ f, Related K (setFlags f : Exec μ Unit) (setFlags f)]
    [∀ p, Related K (readSite p : Exec μ UInt8) (readSite p)]
    [∀ v, Related K (bits.store target copy v : Exec μ Unit)
      (bits.store target copy v)] :
    Related K (bits op target copy : Exec μ Unit)
      (bits op target copy) := by
  cases op <;> (unfold bits; infer_instance)

instance (go : Bool) [Related K (fetchByte : Exec μ UInt8) fetchByte]
    [∀ d, Related K
      (modifyRegs fun r => { r with pc := displace r.pc d } : Exec μ Unit)
      (modifyRegs fun r => { r with pc := displace r.pc d })] :
    Related K (execute.jumpRelative go : Exec μ Unit)
      (execute.jumpRelative go) := by
  unfold execute.jumpRelative
  infer_instance

-- ======================================================== instructions

section
variable [∀ f, Related K (modifyRegs f : Exec μ Unit) (modifyRegs f)]

instance (op : AluOp) (v : UInt8) :
    Related K (alu op v : Exec μ Unit) (alu op v) := by
  unfold alu
  infer_instance

instance (rotate : UInt8 → UInt8 → Flags → UInt8 × UInt8 × Flags)
    [Related K (regs : Exec μ Registers) regs]
    [Related K (get16 .hl : Exec μ UInt16) (get16 .hl)]
    [∀ addr, Related K (peek addr : Exec μ UInt8) (peek addr)]
    [∀ addr v, Related K (poke addr v : Exec μ Unit) (poke addr v)] :
    Related K (execute.digits rotate : Exec μ Unit)
      (execute.digits rotate) := by
  unfold execute.digits
  infer_instance

-- the longest sequence there is, past the usual bound on a search
set_option synthInstance.maxSize 256 in
instance (down : Bool)
    [∀ reg, Related K (get16 reg : Exec μ UInt16) (get16 reg)]
    [∀ reg v, Related K (set16 reg v : Exec μ Unit) (set16 reg v)]
    [∀ addr, Related K (peek addr : Exec μ UInt8) (peek addr)]
    [∀ addr v, Related K (poke addr v : Exec μ Unit) (poke addr v)] :
    Related K (blockRound .copy down : Exec μ Bool)
      (blockRound .copy down) := by
  simp only [blockRound]
  infer_instance

instance (down : Bool) [Related K (get8 .b : Exec μ UInt8) (get8 .b)]
    [Related K (get8 .c : Exec μ UInt8) (get8 .c)]
    [Related K (get16 .hl : Exec μ UInt16) (get16 .hl)]
    [∀ v, Related K (set16 .hl v : Exec μ Unit) (set16 .hl v)]
    [∀ addr v, Related K (poke addr v : Exec μ Unit) (poke addr v)]
    [∀ port, Related K (readPort port : Exec μ UInt8) (readPort port)] :
    Related K (blockRound .input down : Exec μ Bool)
      (blockRound .input down) := by
  simp only [blockRound]
  infer_instance

instance (down : Bool) [Related K (get8 .b : Exec μ UInt8) (get8 .b)]
    [Related K (get8 .c : Exec μ UInt8) (get8 .c)]
    [Related K (get16 .hl : Exec μ UInt16) (get16 .hl)]
    [∀ v, Related K (set16 .hl v : Exec μ Unit) (set16 .hl v)]
    [∀ addr, Related K (peek addr : Exec μ UInt8) (peek addr)]
    [∀ port v, Related K (writePort port v : Exec μ Unit)
      (writePort port v)] :
    Related K (blockRound .output down : Exec μ Bool)
      (blockRound .output down) := by
  simp only [blockRound]
  infer_instance

end

instance (down : Bool) [Related K (regs : Exec μ Registers) regs]
    [∀ f, Related K (setFlags f : Exec μ Unit) (setFlags f)]
    [∀ reg, Related K (get16 reg : Exec μ UInt16) (get16 reg)]
    [∀ reg v, Related K (set16 reg v : Exec μ Unit) (set16 reg v)]
    [∀ addr, Related K (peek addr : Exec μ UInt8) (peek addr)] :
    Related K (blockRound .compare down : Exec μ Bool)
      (blockRound .compare down) := by
  simp only [blockRound]
  infer_instance

instance (role : Role)
    [Related K (fetchByte : Exec μ UInt8) fetchByte]
    [∀ reg, Related K (get16 reg : Exec μ UInt16) (get16 reg)]
    [∀ op p copy, Related K (bits op p copy : Exec μ Unit)
      (bits op p copy)] :
    Related K (indexedBits role : Exec μ Nat) (indexedBits role) := by
  unfold indexedBits
  infer_instance

-- ============================================================= entries

section
variable [∀ f, Related K (modifyCpu f : Exec μ Unit) (modifyCpu f)]

omit [Decoder μ] [Decoder ν] [Lifts K] in
instance : Related K (leaveHalt : Exec μ Unit) leaveHalt := by
  unfold leaveHalt
  infer_instance

omit [Decoder μ] [Decoder ν] in
instance [∀ f, Related K (modifyRegs f : Exec μ Unit) (modifyRegs f)] :
    Related K (deafen : Exec μ Unit) deafen := by
  unfold deafen
  infer_instance

end

instance (channel : UInt8) [Related K (regs : Exec μ Registers) regs]
    [Related K (get16 .sp : Exec μ UInt16) (get16 .sp)]
    [∀ n, Related K (note n : Exec μ Unit) (note n)]
    [∀ addr, Related K (peekWord addr : Exec μ UInt16) (peekWord addr)]
    [∀ target, Related K (call target : Exec μ Unit) (call target)]
    [∀ op, Related K (opcode op : Exec μ Nat) (opcode op)] :
    Related K (vector channel : Exec μ Nat) (vector channel) := by
  unfold vector
  refine .andThen inferInstance fun r => ?_
  dsimp only
  cases r.im <;> infer_instance

end HomeZ80.Exec
