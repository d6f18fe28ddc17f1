/-
Registers that few instructions change: the two special registers, the
interrupt mode and the flip-flops, the shadow set, the index registers
and the stack pointer (`Guarded`).

For each of them it can be told of an instruction whether it may change
it (`Instruction.changes`); an instruction that may not leaves it alone,
whatever the state (`Exec.whole_execute`). Which opcodes stand for
instructions that may change a register is a matter of the opcode tables
(`Guarded.isWriter`), and those are finite.

What an instruction does once its opcode bytes are there leaves even the
bits of R alone that count (`Exec.Keeps`). Fetching an opcode byte does
not, and spares no more than the highest one (`Exec.Spares`).
-/
import HomeZ80.Proofs.Cpu.Lifting

namespace HomeZ80

/-- A register that few instructions change. Of R it is the highest bit,
which does not count. -/
inductive Guarded where
  | i | r7 | im
  | afAlt | bcAlt | deAlt | hlAlt
  | ix | iy
  | iff1 | iff2
  | sp
  deriving DecidableEq, Repr

/-- The registers with everything cleared that is not guarded. -/
def Registers.guarded (r : Registers) : Registers :=
  { r with
    a := 0, f := {}, b := 0, c := 0, d := 0, e := 0, h := 0, l := 0
    pc := 0, r := r.r / 128 }

/-- The registers with everything cleared that any instruction may
change. -/
def Registers.aside (r : Registers) : Registers :=
  { r with
    a := 0, f := {}, b := 0, c := 0, d := 0, e := 0, h := 0, l := 0
    pc := 0 }

/-- Counting a fetch, or taking it back, leaves the highest bit of R
alone. -/
theorem Registers.counted_div (v : UInt8) :
    (if v % 128 = 127 then v - 127 else v + 1) / 128 = v / 128
      ∧ (if v % 128 = 0 then v + 127 else v - 1) / 128 = v / 128 := by
  obtain ⟨⟨v⟩⟩ := v
  revert v
  decide +kernel

/-- A fetch that is counted leaves the guarded registers. -/
theorem Registers.guarded_refresh (r : Registers) :
    r.refresh.guarded = r.guarded := by
  unfold refresh guarded
  rw [(counted_div r.r).1]

theorem Registers.guarded_unrefresh (r : Registers) :
    r.unrefresh.guarded = r.guarded := by
  unfold unrefresh guarded
  rw [(counted_div r.r).2]

namespace Guarded

def all : List Guarded :=
  [.i, .r7, .im, .afAlt, .bcAlt, .deAlt, .hlAlt, .ix, .iy, .iff1, .iff2,
    .sp]

theorem mem_all (x : Guarded) : x ∈ all := by
  cases x <;> decide

/-- What the register holds, as a number. -/
def value (r : Registers) : Guarded → Nat
  | .i => r.i.toNat
  | .r7 => r.r.toNat / 128
  | .im =>
    match r.im with
    | .im0 => 0
    | .im1 => 1
    | .im2 => 2
  | .afAlt => r.afAlt.toNat
  | .bcAlt => r.bcAlt.toNat
  | .deAlt => r.deAlt.toNat
  | .hlAlt => r.hlAlt.toNat
  | .ix => r.ix.toNat
  | .iy => r.iy.toNat
  | .iff1 => r.iff1.toNat
  | .iff2 => r.iff2.toNat
  | .sp => r.sp.toNat

/-- Whether a byte register is, or is half of, the register. -/
def has8 (x : Guarded) (name : Reg8) : Bool :=
  match x, name with
  | .i, .i | .r7, .r | .ix, .ixh | .ix, .ixl | .iy, .iyh | .iy, .iyl => true
  | _, _ => false

def has16 (x : Guarded) (name : Reg16) : Bool :=
  match x, name with
  | .afAlt, .afAlt | .bcAlt, .bcAlt | .deAlt, .deAlt | .hlAlt, .hlAlt
  | .ix, .ix | .iy, .iy | .sp, .sp => true
  | _, _ => false

/-- Nothing but the guarded part matters. -/
theorem value_of_guarded_eq {r r' : Registers}
    (h : r'.guarded = r.guarded) (x : Guarded) :
    x.value r' = x.value r := by
  have hview : ∀ r : Registers, x.value r =
      match x with
      | .r7 => r.guarded.r.toNat
      | x => x.value r.guarded := by
    intro r
    cases x with
    | r7 => exact (UInt8.toNat_div r.r 128).symm
    | _ => rfl
  rw [hview, hview, h]

/-- What the register holds with all of R, where R is a part of it. -/
def whole (r : Registers) : Guarded → Nat
  | .r7 => r.r.toNat
  | x => x.value r

/-- No guarded register is among those that any instruction may change. -/
theorem whole_of_aside_eq {r r' : Registers} (h : r'.aside = r.aside)
    (x : Guarded) : x.whole r' = x.whole r := by
  have hview : ∀ r : Registers, x.whole r = x.whole r.aside := by
    intro r
    cases x <;> rfl
  rw [hview r', hview r, h]

/-- The value of a register is in the whole of it. -/
theorem value_of_whole_eq {r r' : Registers} {x : Guarded}
    (h : x.whole r' = x.whole r) : x.value r' = x.value r := by
  cases x with
  | r7 => exact congrArg (· / 128) h
  | _ => exact h

/-- A byte register that is no part of the register. -/
class Clear8 (x : Guarded) (name : Reg8) : Prop where
  eq : x.has8 name = false

class Clear16 (x : Guarded) (name : Reg16) : Prop where
  eq : x.has16 name = false

section
variable (x : Guarded)

instance : x.Clear8 .a := ⟨by cases x <;> rfl⟩
instance : x.Clear8 .b := ⟨by cases x <;> rfl⟩
instance : x.Clear8 .c := ⟨by cases x <;> rfl⟩
instance : x.Clear8 .d := ⟨by cases x <;> rfl⟩
instance : x.Clear8 .e := ⟨by cases x <;> rfl⟩
instance : x.Clear8 .h := ⟨by cases x <;> rfl⟩
instance : x.Clear8 .l := ⟨by cases x <;> rfl⟩
instance : x.Clear16 .pc := ⟨by cases x <;> rfl⟩

end

/-- A byte register that is no part of a guarded one may be set. -/
theorem whole_set8 {x : Guarded} {name : Reg8} (h : x.has8 name = false)
    (v : UInt8) (r : Registers) :
    x.whole (r.set8 name v) = x.whole r := by
  cases x <;> cases name <;> first | rfl | cases h

theorem whole_set16 {x : Guarded} {name : Reg16}
    (h : x.has16 name = false) (v : UInt16) (r : Registers) :
    x.whole (r.set16 name v) = x.whole r := by
  cases x <;> cases name <;> first | rfl | cases h

end Guarded

-- ========================================================== computations

namespace Exec

variable {μ α β : Type} {x : Guarded}

/-- The computations that leave a guarded register alone, and all of R if
R is a part of it. -/
def keeping (x : Guarded) : Rel μ μ := leaving (x.whole ·.cpu.regs)

/-- The computations that leave a guarded register alone. -/
def sparing (x : Guarded) : Rel μ μ := leaving (x.value ·.cpu.regs)

instance : Lifts (keeping (μ := μ) x) := inferInstanceAs (Lifts (leaving _))

instance : Lifts (sparing (μ := μ) x) := inferInstanceAs (Lifts (leaving _))

abbrev Keeps (x : Guarded) (m : Exec μ α) : Prop := Related (keeping x) m m

abbrev Spares (x : Guarded) (m : Exec μ α) : Prop := Related (sparing x) m m

theorem Keeps.whole_eq {m : Exec μ α} [h : Keeps x m] (s : Computer μ) :
    x.whole (m s).2.cpu.regs = x.whole s.cpu.regs :=
  h.holds s

theorem Spares.value_eq {m : Exec μ α} [h : Spares x m]
    (s : Computer μ) : x.value (m s).2.cpu.regs = x.value s.cpu.regs :=
  h.holds s

instance {m : Exec μ α} [Keeps x m] : Spares x m :=
  ⟨fun s => Guarded.value_of_whole_eq (Keeps.whole_eq s)⟩

/-- What changes no register that is set aside leaves each guarded one
alone. -/
theorem keeps_modifyRegs {f : Registers → Registers}
    (h : ∀ r, (f r).aside = r.aside) :
    Keeps (μ := μ) x (modifyRegs f) :=
  ⟨fun s => Guarded.whole_of_aside_eq (h s.cpu.regs) x⟩

instance : Keeps (μ := μ) x regs := ⟨fun _ => rfl⟩
instance : Keeps (μ := μ) x flags := ⟨fun _ => rfl⟩
instance (reg : Reg8) : Keeps (μ := μ) x (get8 reg) := ⟨fun _ => rfl⟩
instance (reg : Reg16) : Keeps (μ := μ) x (get16 reg) := ⟨fun _ => rfl⟩
instance (f : Flags) : Keeps (μ := μ) x (setFlags f) :=
  keeps_modifyRegs fun _ => rfl

instance (pc : UInt16) :
    Keeps (μ := μ) x (modifyRegs fun r => { r with pc }) :=
  keeps_modifyRegs fun _ => rfl

instance (reg : Reg8) (v : UInt8) [h : x.Clear8 reg] :
    Keeps (μ := μ) x (set8 reg v) :=
  ⟨fun s => Guarded.whole_set8 h.eq v s.cpu.regs⟩

instance (reg : Reg16) (v : UInt16) [h : x.Clear16 reg] :
    Keeps (μ := μ) x (set16 reg v) :=
  ⟨fun s => Guarded.whole_set16 h.eq v s.cpu.regs⟩

variable [Decoder μ]

instance (addr : UInt16) : Keeps (μ := μ) x (peek addr) :=
  ⟨fun _ => rfl⟩

instance : Spares (μ := μ) x (modifyRegs (·.refresh)) :=
  ⟨fun s => Guarded.value_of_guarded_eq s.cpu.regs.guarded_refresh x⟩

instance (d : UInt8) : Keeps (μ := μ) x
    (modifyRegs fun r => { r with pc := displace r.pc d }) :=
  keeps_modifyRegs fun _ => rfl

instance (op : AluOp) (v : UInt8) : Keeps (μ := μ) x (alu op v) :=
  keeps_modifyRegs fun _ => rfl

instance (op : BlockOp) (down : Bool) :
    Keeps (μ := μ) x (blockRound op down) := by
  cases op <;> exact ⟨fun _ => Guarded.whole_of_aside_eq rfl x⟩

end Exec

-- ======================================================== instructions

namespace Instruction

/-- The byte register that an instruction writes, if it may write one
that has a role. -/
def dest8? : Instruction → Option Reg8
  | .load (.reg name) _ | .loadByte (.reg name) | .inc (.reg name)
  | .dec (.reg name) | .bits _ (.reg name) | .inC (some name) => some name
  | _ => none

def dest16? : Instruction → Option Reg16
  | .loadWord dst | .loadDirect dst | .pop dst | .exStack dst
  | .incWord dst | .decWord dst | .addWord dst _ => some dst
  | _ => none

/-- Whether an instruction changes a register by what it is, and not by
its operand. -/
def alters (x : Guarded) (i : Instruction) : Bool :=
  match x, i with
  | .i, .storeASpecial .i | .r7, .storeASpecial .r | .im, .im _
  | .afAlt, .exAf | .bcAlt, .exx | .deAlt, .exx | .hlAlt, .exx
  | .iff1, .di | .iff1, .ei | .iff1, .retn | .iff2, .di | .iff2, .ei
  | .sp, .loadSp _ | .sp, .push _ | .sp, .pop _ | .sp, .call _
  | .sp, .ret _ | .sp, .retn | .sp, .rst _ => true
  | _, _ => false

/-- Whether an instruction may change a register. -/
def changes (x : Guarded) (i : Instruction) : Bool :=
  i.alters x || i.dest8?.any x.has8 || i.dest16?.any x.has16

/-- An instruction that does not change a register neither alters it by
itself nor has it as its destination. -/
theorem changes_eq_false {x : Guarded} {i : Instruction}
    (h : i.changes x = false) :
    i.alters x = false
      ∧ (∀ name, i.dest8? = some name → x.has8 name = false)
      ∧ ∀ name, i.dest16? = some name → x.has16 name = false := by
  unfold changes at h
  rw [Bool.or_eq_false_iff, Bool.or_eq_false_iff] at h
  obtain ⟨⟨halters, h8⟩, h16⟩ := h
  refine ⟨halters, fun name hname => ?_, fun name hname => ?_⟩
  · rw [hname] at h8
    exact h8
  · rw [hname] at h16
    exact h16

end Instruction

namespace Exec

variable {μ : Type} [Decoder μ]

/-- The site of a register is settled from this register alone. -/
theorem eq_reg_of_site {o : Operand} {s : Computer μ} {name : Reg8}
    (h : (site o s).1 = .reg name) : o = .reg name := by
  rcases o with other | role
  · exact congrArg Operand.reg (Site.reg.inj h)
  · cases role <;> cases h

/-- An operand is written in memory or in a register that can be told. -/
theorem whole_writeSite {x : Guarded} {p : Site}
    (h : ∀ name, p = .reg name → x.has8 name = false) (v : UInt8)
    (s : Computer μ) :
    x.whole (writeSite v p s).2.cpu.regs = x.whole s.cpu.regs := by
  cases p with
  | reg name => exact Guarded.whole_set8 (h name rfl) v s.cpu.regs
  | cell addr => rfl

/-- An operation on bits writes its operand and its copy, if it has one. -/
theorem whole_bits {x : Guarded} {p : Site} {copy : Option Reg8}
    (hp : ∀ name, p = .reg name → x.has8 name = false)
    (hcopy : ∀ name, copy = some name → x.has8 name = false)
    (op : BitOp) (s : Computer μ) :
    x.whole (bits op p copy s).2.cpu.regs = x.whole s.cpu.regs := by
  have hstore : ∀ (v : UInt8) (s : Computer μ),
      x.whole (bits.store p copy v s).2.cpu.regs
        = x.whole s.cpu.regs := by
    intro v s
    cases copy with
    | none => exact whole_writeSite hp v s
    | some name =>
      show x.whole ((writeSite v p s).2.cpu.regs.set8 name v) = _
      rw [Guarded.whole_set8 (hcopy name rfl), whole_writeSite hp]
  have hread := Keeps.whole_eq (x := x) (m := readSite p) s
  cases op with
  | test n => exact hread
  | rotate op =>
    show x.whole (bits.store p copy _
      (setFlags _ (readSite p s).2).2).2.cpu.regs = _
    rw [hstore, Keeps.whole_eq (m := setFlags _), hread]
  | reset n | set n =>
    show x.whole (bits.store p copy _ (readSite p s).2).2.cpu.regs = _
    rw [hstore, hread]

theorem whole_pop {x : Guarded} (h : x ≠ .sp) (s : Computer μ) :
    x.whole (pop s).2.cpu.regs = x.whole s.cpu.regs := by
  cases x <;> first | rfl | exact absurd rfl h

theorem whole_call {x : Guarded} (h : x ≠ .sp) (target : UInt16)
    (s : Computer μ) :
    x.whole (call target s).2.cpu.regs = x.whole s.cpu.regs := by
  cases x <;> first | rfl | exact absurd rfl h

/-- A return pops and goes where the word leads. -/
theorem whole_return {x : Guarded} (h : x ≠ .sp) (s : Computer μ) :
    x.whole ((pop s).2.cpu.regs.set16 .pc (pop s).1)
      = x.whole s.cpu.regs := by
  rw [Guarded.whole_set16 Guarded.Clear16.eq, whole_pop h]

/-- An instruction leaves alone every guarded register that it may not
change. -/
theorem whole_execute {x : Guarded} {i : Instruction}
    (h : i.changes x = false) (s : Computer μ) :
    x.whole (execute i s).2.cpu.regs = x.whole s.cpu.regs := by
  obtain ⟨halters, hdest8, hdest16⟩ := Instruction.changes_eq_false h
  have hsite : ∀ (o : Operand) (s : Computer μ),
      (∀ name, o = .reg name → i.dest8? = some name) →
      ∀ name, (site o s).1 = .reg name → x.has8 name = false :=
    fun o s ho name hname => hdest8 name (ho name (eq_reg_of_site hname))
  cases i with
  -- the instructions that are about guarded registers
  | di | ei | im _ | exAf | exx | loadSp _ | push _ =>
    cases x <;> first | rfl | exact Bool.noConfusion halters
  | rst target =>
    have hsp : x ≠ .sp := by
      rintro rfl
      exact Bool.noConfusion halters
    exact whole_call hsp _ s
  | storeASpecial dst =>
    cases dst <;> cases x <;>
      first | rfl | exact Bool.noConfusion halters
  | retn =>
    have hsp : x ≠ .sp := by
      rintro rfl
      exact Bool.noConfusion halters
    have hrestored : ∀ r : Registers,
        x.whole { r with iff1 := r.iff2 } = x.whole r := by
      intro r
      cases x <;> first | rfl | exact Bool.noConfusion halters
    exact (hrestored _).trans (whole_return hsp s)
  | call cond =>
    have hsp : x ≠ .sp := by
      rintro rfl
      exact Bool.noConfusion halters
    cases cond with
    | none => exact whole_call hsp _ _
    | some cond =>
      show x.whole ((if cond.holds s.cpu.regs.f = true then _ else _ :
        Exec μ Nat) (fetchWord s).2).2.cpu.regs = _
      split
      · exact (whole_call hsp _ _).trans (Keeps.whole_eq s)
      · exact Keeps.whole_eq (m := fetchWord) s
  | ret cond =>
    have hsp : x ≠ .sp := by
      rintro rfl
      exact Bool.noConfusion halters
    cases cond with
    | none => exact whole_return hsp s
    | some cond =>
      show x.whole ((if cond.holds s.cpu.regs.f = true then _ else _ :
        Exec μ Nat) s).2.cpu.regs = _
      split
      · exact whole_return hsp s
      · rfl
  -- those that write to the register that is their operand
  | load dst src =>
    show x.whole (writeSite _ (site dst s).1
      (readSite _ (site src (site dst s).2).2).2).2.cpu.regs = _
    rw [whole_writeSite (hsite dst s (by rintro name rfl; rfl)),
      Keeps.whole_eq, Keeps.whole_eq, Keeps.whole_eq]
  | loadByte dst =>
    show x.whole (writeSite _ (site dst s).1
      (fetchByte (site dst s).2).2).2.cpu.regs = _
    rw [whole_writeSite (hsite dst s (by rintro name rfl; rfl)),
      Keeps.whole_eq, Keeps.whole_eq]
  | inc target | dec target =>
    show x.whole (setFlags _ (writeSite _ (site target s).1
      (readSite _ (site target s).2).2).2).2.cpu.regs = _
    rw [Keeps.whole_eq,
      whole_writeSite (hsite target s (by rintro name rfl; rfl)),
      Keeps.whole_eq, Keeps.whole_eq]
  | bits op target =>
    have hbits : (execute (.bits op target) s).2
        = (bits op (site target s).1 none (site target s).2).2 := by
      cases op <;> rfl
    have hnone : ∀ name : Reg8, (none : Option Reg8) = some name →
        x.has8 name = false := nofun
    rw [hbits, whole_bits (hsite target s (by rintro name rfl; rfl)) hnone,
      Keeps.whole_eq]
  | inC dst =>
    cases dst with
    | none => exact Guarded.whole_of_aside_eq rfl x
    | some name =>
      exact (Guarded.whole_set8 (hdest8 name rfl) _ _).trans
        (Guarded.whole_of_aside_eq rfl x)
  | pop dst =>
    have hsp : x ≠ .sp := by
      rintro rfl
      exact Bool.noConfusion halters
    exact (Guarded.whole_set16 (hdest16 dst rfl) _ _).trans
      (whole_pop hsp s)
  | loadWord dst =>
    exact (Guarded.whole_set16 (hdest16 dst rfl) _ _).trans
      (Keeps.whole_eq (m := fetchWord) s)
  | loadDirect dst =>
    exact (Guarded.whole_set16 (hdest16 dst rfl) _ _).trans
      (Keeps.whole_eq (m := do peekWord (← fetchWord)) s)
  | exStack dst | incWord dst | decWord dst =>
    exact Guarded.whole_set16 (hdest16 dst rfl) _ _
  | addWord dst src =>
    let r := s.cpu.regs
    rw [← Guarded.whole_set16 (hdest16 dst rfl)
      (Alu.add16 (r.get16 dst) (r.get16 src) r.f).1 r]
    exact Guarded.whole_of_aside_eq rfl x
  -- those that change nothing guarded
  | outC src => cases src <;> rfl
  | jump _ | jumpRelative _ | djnz | block _ _ _ | alu _ _ | aluByte _ =>
    simp only [execute]
    exact Keeps.whole_eq s
  | _ => exact Guarded.whole_of_aside_eq rfl x

/-- R counts the fetches of opcode bytes; what an instruction does then
leaves it alone, but for the one instruction that loads it. -/
theorem r_execute {i : Instruction} (h : i.changes .r7 = false)
    (s : Computer μ) : (execute i s).2.cpu.regs.r = s.cpu.regs.r :=
  UInt8.toNat_inj.1 (whole_execute h s)

end Exec
end HomeZ80
