/-
Two computers that run side by side. Their CPUs are equal and their
boards are of different kinds, but related in such a way that memory
looks the same on both and stays related whatever is read and written
(`Board.Mirror`). The CPU then cannot tell which board it is on, until
it comes to the ports: there the relation has to hold of the use that is
made (`PortUse.Mirrored`).

A computation of the one is mirrored by the same computation of the
other (`Exec.Mirrors`), and this is put together from the parts like the
footprint of a program. The six instructions
that use a port are the exception. They are followed up to the point
where the port comes in, and what is mirrored there is the one use that
`Instruction.portUse?` tells (`Exec.agree_execute`).
-/
import HomeZ80.Proofs.Cpu.PortUse
import HomeZ80.Proofs.Cpu.Steps

namespace HomeZ80

variable {μ ν : Type}

structure Twins (R : Board μ → Board ν → Prop) (s : Computer μ)
    (t : Computer ν) : Prop where
  cpu : t.cpu = s.cpu
  board : R s.board t.board

/-- On twins two computations give the same result and leave twins. -/
def Exec.Agree {α : Type} (R : Board μ → Board ν → Prop) (m : Exec μ α)
    (m' : Exec ν α) (s : Computer μ) (t : Computer ν) : Prop :=
  (m' t).1 = (m s).1 ∧ Twins R (m s).2 (m' t).2

namespace Exec

variable {α β : Type} {R : Board μ → Board ν → Prop}

/-- Computations that agree can be followed by others that agree on what
the first ones leave. -/
theorem Agree.andThen {m : Exec μ α} {m' : Exec ν α}
    {f : α → Exec μ β} {f' : α → Exec ν β} {s : Computer μ}
    {t : Computer ν} (hm : Agree R m m' s t)
    (hf : Agree R (f (m s).1) (f' (m s).1) (m s).2 (m' t).2) :
    Agree R (m >>= f) (m' >>= f') s t := by
  unfold Agree
  rw [bind_apply, bind_apply, hm.1]
  exact hf

/-- The computations that agree on all twins. -/
def mirroring (R : Board μ → Board ν → Prop) : Rel μ ν := fun _ m m' =>
  ∀ {s : Computer μ} {t : Computer ν}, Twins R s t → Agree R m m' s t

instance : Lifts (mirroring R) where
  pure _ _ _ h := ⟨rfl, h⟩
  bind hm hf _ _ h := (hm h).andThen (hf _ (hm h).2)

/-- A computation is mirrored by another one. -/
abbrev Mirrors (R : Board μ → Board ν → Prop) (m : Exec μ α)
    (m' : Exec ν α) : Prop :=
  Related (mirroring R) m m'

/-- What mirrors agrees on any pair of computers that are twins. -/
theorem Mirrors.agree {m : Exec μ α} {m' : Exec ν α}
    [hm : Mirrors R m m'] {s : Computer μ} {t : Computer ν}
    (h : Twins R s t) : Agree R m m' s t :=
  hm.holds h

-- ============================================================ the CPU

/-- What is read off the CPU is the same for twins. -/
theorem mirrors_get (f : Cpu → α) :
    Mirrors R (fun s => (f s.cpu, s)) (fun t => (f t.cpu, t)) := by
  constructor
  intro s t h
  exact ⟨congrArg f h.cpu, h⟩

instance (f : Cpu → Cpu) : Mirrors R (modifyCpu f) (modifyCpu f) := by
  constructor
  intro s t h
  exact ⟨rfl, congrArg f h.cpu, h.board⟩

instance (f : Registers → Registers) :
    Mirrors R (modifyRegs f) (modifyRegs f) :=
  inferInstanceAs (Mirrors R
    (modifyCpu fun c => { c with regs := f c.regs })
    (modifyCpu fun c => { c with regs := f c.regs }))

instance : Mirrors R regs regs := mirrors_get (·.regs)

instance : Mirrors R flags flags := mirrors_get (·.regs.f)

instance (reg : Reg8) : Mirrors R (get8 reg) (get8 reg) :=
  mirrors_get (·.regs.get8 reg)

instance (reg : Reg16) : Mirrors R (get16 reg) (get16 reg) :=
  mirrors_get (·.regs.get16 reg)

instance (reg : Reg8) (v : UInt8) :
    Mirrors R (set8 reg v) (set8 reg v) := by
  unfold set8
  infer_instance

instance (reg : Reg16) (v : UInt16) :
    Mirrors R (set16 reg v) (set16 reg v) := by
  unfold set16
  infer_instance

instance (f : Flags) : Mirrors R (setFlags f) (setFlags f) := by
  unfold setFlags
  infer_instance

end Exec

-- ============================================================ the bus

variable [Decoder μ] [Decoder ν] {R : Board μ → Board ν → Prop}

/-- Related boards show the same bytes, and stay related when memory is
read and written. -/
class Board.Mirror (R : Board μ → Board ν → Prop) : Prop where
  valueAt {b : Board μ} {c : Board ν} (h : R b c) (addr : UInt16) :
    c.valueAt addr = b.valueAt addr
  afterRead {b : Board μ} {c : Board ν} (h : R b c) (addr : UInt16) :
    R (b.afterRead addr) (c.afterRead addr)
  poke {b : Board μ} {c : Board ν} (h : R b c) (addr : UInt16)
    (v : UInt8) : R (b.poke addr v) (c.poke addr v)
  note {b : Board μ} {c : Board ν} (h : R b c) (n : Note) :
    R (b.note [n]) (c.note [n])

/-- Related boards do not differ in a use of a port, and stay related
with it. -/
def PortUse.Mirrored (R : Board μ → Board ν → Prop) : PortUse → Prop
  | .input port => ∀ b c, R b c → c.readPort port = b.readPort port
      ∧ R (b.afterInput port) (c.afterInput port)
  | .output port v =>
    ∀ b c, R b c → R (b.writePort port v) (c.writePort port v)

namespace Exec

section bus
variable [hR : Board.Mirror R]

instance (n : Note) : Mirrors R (note n) (note n) := by
  constructor
  intro s t h
  exact ⟨rfl, h.cpu, hR.note h.board n⟩

instance (addr : UInt16) : Mirrors R (peek addr) (peek addr) := by
  constructor
  intro s t h
  exact ⟨hR.valueAt h.board addr, h.cpu, hR.afterRead h.board addr⟩

instance (addr : UInt16) (v : UInt8) :
    Mirrors R (poke addr v) (poke addr v) := by
  constructor
  intro s t h
  exact ⟨rfl, h.cpu, hR.poke h.board addr v⟩

omit hR in
/-- A port may be read if the boards give the same value and stay twins. -/
theorem mirrors_readPort (port : UInt8)
    (h : (PortUse.input port).Mirrored R) :
    Mirrors R (readPort port) (readPort port) := by
  constructor
  intro s t hst
  obtain ⟨hvalue, hboard⟩ := h _ _ hst.board
  exact ⟨hvalue, hst.cpu, hboard⟩

omit hR in
/-- A port may be written if the boards stay twins. -/
theorem mirrors_writePort (port v : UInt8)
    (h : (PortUse.output port v).Mirrored R) :
    Mirrors R (writePort port v) (writePort port v) := by
  constructor
  intro s t hst
  exact ⟨rfl, hst.cpu, h _ _ hst.board⟩

-- ======================================================== instructions

variable {s : Computer μ} {t : Computer ν}

omit hR in
/-- A block instruction agrees with itself if its round does. -/
theorem agree_block {op : BlockOp} {down : Bool} (repeats : Bool)
    (h : Agree R (blockRound op down) (blockRound op down) s t) :
    Agree R (execute (.block op down repeats))
      (execute (.block op down repeats)) s t := by
  simp only [execute]
  exact h.andThen (Mirrors.agree h.2)

/-- A round that reads a port uses the one in C. -/
theorem agree_blockRound_input (down : Bool) (h : Twins R s t)
    (hport : (PortUse.input s.cpu.regs.c).Mirrored R) :
    Agree R (blockRound .input down) (blockRound .input down) s t := by
  have hhl : Agree R (get16 .hl) (get16 .hl) s t := Mirrors.agree h
  have hc : Agree R (get8 .c) (get8 .c) s t := Mirrors.agree h
  have hread := mirrors_readPort (get8 .c s).1 hport
  simp only [blockRound]
  exact hhl.andThen (hc.andThen (Mirrors.agree h))

/-- A round that writes a port sends the byte at HL to the one in C. -/
theorem agree_blockRound_output (down : Bool) (h : Twins R s t)
    (hport : (PortUse.output s.cpu.regs.c
      (s.board.valueAt s.cpu.regs.hl)).Mirrored R) :
    Agree R (blockRound .output down) (blockRound .output down) s t := by
  let hl := (get16 .hl s).1
  let next : Exec μ Unit := set16 .hl (advance down hl)
  have hhl : Agree R (get16 .hl) (get16 .hl) s t := Mirrors.agree h
  have hv : Agree R (peek hl) (peek hl) s t := Mirrors.agree h
  have hnext : Agree R next (set16 .hl (advance down hl)) _ _ :=
    Mirrors.agree hv.2
  have hb : Agree R (get8 .b) (get8 .b) _ _ := Mirrors.agree hnext.2
  have hc : Agree R (get8 .c) (get8 .c) _ _ := Mirrors.agree hnext.2
  -- the port is told by C, which the round has not changed so far
  have hwrite := mirrors_writePort (get8 .c (next (peek hl s).2).2).1
    (peek hl s).1 hport
  simp only [blockRound]
  exact hhl.andThen (hv.andThen (hnext.andThen (hb.andThen
    (hc.andThen (Mirrors.agree hnext.2)))))

/-- An instruction does the same on twins, if the use that it makes of a
port is mirrored. -/
theorem agree_execute (i : Instruction) (h : Twins R s t)
    (hport : ∀ use, i.portUse? s = some use → use.Mirrored R) :
    Agree R (execute i) (execute i) s t := by
  have hc : Agree R (get8 .c) (get8 .c) s t := Mirrors.agree h
  have hbyte : Agree R fetchByte fetchByte s t := Mirrors.agree h
  cases i with
  | inA =>
    have hread := mirrors_readPort (fetchByte s).1 (hport _ rfl)
    simp only [execute]
    exact hbyte.andThen (Mirrors.agree hbyte.2)
  | outA =>
    have ha : Agree R (get8 .a) (get8 .a) _ _ := Mirrors.agree hbyte.2
    have hwrite := mirrors_writePort (fetchByte s).1
      (get8 .a (fetchByte s).2).1 (hport _ rfl)
    simp only [execute]
    exact hbyte.andThen (ha.andThen (Mirrors.agree hbyte.2))
  | inC dst =>
    have hread := mirrors_readPort (get8 .c s).1 (hport _ rfl)
    simp only [execute]
    cases dst <;> exact hc.andThen (Mirrors.agree h)
  | outC src =>
    cases src with
    | none =>
      let zero : Exec μ UInt8 := pure 0
      have hzero : Agree R zero (pure 0) s t := Mirrors.agree h
      have hwrite := mirrors_writePort (get8 .c s).1 (zero s).1
        (hport _ rfl)
      simp only [execute]
      exact hzero.andThen (hc.andThen (Mirrors.agree h))
    | some name =>
      have hv : Agree R (get8 name) (get8 name) s t := Mirrors.agree h
      have hwrite := mirrors_writePort (get8 .c s).1 (get8 name s).1
        (hport _ rfl)
      simp only [execute]
      exact hv.andThen (hc.andThen (Mirrors.agree h))
  | block op down repeats =>
    apply agree_block
    cases op with
    | copy | compare => exact Mirrors.agree h
    | input => exact agree_blockRound_input down h (hport _ rfl)
    | output => exact agree_blockRound_output down h (hport _ rfl)
  | ret cond =>
    cases cond with
    | none | some cond =>
      simp only [execute]
      exact Mirrors.agree h
  | _ =>
    simp only [execute]
    exact Mirrors.agree h

-- ============================================================= opcodes

/-- So an opcode agrees on twins if the one use that it makes of a port
does. -/
theorem agree_opcode (op : UInt8) (h : Twins R s t)
    (hport : ∀ use, opcodeUse? op s = some use → use.Mirrored R) :
    Agree R (opcode op) (opcode op) s t := by
  have hnext : Agree R fetchOpcode fetchOpcode s t := Mirrors.agree h
  unfold opcodeUse? at hport
  unfold opcode
  cases hop : Decode.main .hl op with
  | instruction i =>
    rw [hop] at hport
    have hi := agree_execute i h hport
    exact hi.andThen (Mirrors.agree hi.2)
  | bitPage =>
    have hi := agree_execute (Decode.bit (fetchOpcode s).1) hnext.2 nofun
    exact hnext.andThen (hi.andThen (Mirrors.agree hi.2))
  | extendedPage =>
    rw [hop] at hport
    have hi := agree_execute _ hnext.2 hport
    exact hnext.andThen (hi.andThen (Mirrors.agree hi.2))
  | indexPage role =>
    rw [hop] at hport
    unfold indexed
    refine hnext.andThen ?_
    dsimp only at hport ⊢
    cases hindexed : Decode.main role (fetchOpcode s).1 with
    | instruction i =>
      rw [hindexed] at hport
      have hi := agree_execute i hnext.2 hport
      exact hi.andThen (Mirrors.agree hi.2)
    | bitPage | extendedPage | indexPage other =>
      exact Mirrors.agree hnext.2

/-- The next instruction does the same on twins, if the use that it makes
of a port is mirrored. -/
theorem agree_instruct (h : Twins R s t)
    (hport : ∀ use, s.portUse? = some use → use.Mirrored R) :
    Agree R instruct instruct s t := by
  have hop : Agree R fetchOpcode fetchOpcode s t := Mirrors.agree h
  have hidle : Agree R (modifyRegs (·.refresh)) (modifyRegs (·.refresh))
      s t := Mirrors.agree h
  unfold Computer.portUse? at hport
  unfold Agree instruct
  rw [h.cpu]
  cases hhalted : s.cpu.halted with
  | true => exact ⟨rfl, hidle.2⟩
  | false =>
    rw [hhalted] at hport
    exact hop.andThen (agree_opcode _ hop.2 hport)

/-- With idle lines a step does the same on twins, if the use that its
instruction makes of a port is mirrored. -/
theorem agree_step (h : Twins R s t) (hs : s.board.Idle)
    (ht : t.board.Idle)
    (hport : ∀ use, s.portUse? = some use → use.Mirrored R) :
    Agree R step step s t := by
  have hi := agree_instruct h hport
  unfold Agree
  rw [step_of_idle hs, step_of_idle ht, hi.1]
  refine ⟨rfl, ?_, hi.2.board⟩
  exact congrArg (fun c : Cpu =>
    { c with eiDelay := false, cost := c.cost + (instruct s).1 }) hi.2.cpu

end bus
end Exec
end HomeZ80
