/-
An index byte before an instruction with an operand in memory: the
instruction without the index byte is carried out with another address
in place of HL, the index register moved by the displacement that
follows the opcode.

# How the two are compared

An instruction of this kind is one of six forms (`MemoryForm`), and what
a form does is a function of the address (`MemoryForm.perform`). Without
an index byte the address is HL, with one it is the displaced index
register; a form never looks at either again. The byte registers that a
form names are the real ones, H and L included.

A form that names neither H nor L also never notices what HL holds
(`MemoryForm.rewired_perform`). It may therefore be carried out with the
address put into HL, and HL put back afterwards
(`indexed_eq_withHl`).
-/
import HomeZ80.Proofs.Cpu.Exchange

namespace HomeZ80

-- ========================================================= displacements

/-- A displacement is a signed byte, and addresses wrap. -/
theorem toNat_displace (base : UInt16) (d : UInt8) :
    ((displace base d).toNat : Int)
      = (base.toNat + d.toInt8.toInt) % 65536 := by
  have hd := d.toNat_lt
  have hbase := base.toNat_lt
  have hsigned : d.toInt8.toInt
      = if d.toNat < 128 then (d.toNat : Int) else d.toNat - 256 := by
    show d.toBitVec.toInt = _
    rw [BitVec.toInt_eq_toNat_cond]
    show (if 2 * d.toNat < 256 then _ else _) = _
    split <;> split <;> first | rfl | omega
  rw [hsigned]
  unfold displace
  split
  · next h =>
    have hlt : d.toNat < 128 := h
    rw [if_pos hlt, UInt16.toNat_add]
    simp
  · next h =>
    have hge : ¬d.toNat < 128 := h
    rw [if_neg hge, UInt16.toNat_sub, UInt16.toNat_add]
    simp
    omega

-- ============================================================ HL aside

/-- HL is set aside and holds a given word. -/
def Wiring.pinned (v : UInt16) : Wiring := fun p =>
  { p with h := hiByte v, l := loByte v }

/-- The computer with a given word in HL. -/
def Computer.withHl {μ : Type} (v : UInt16) (s : Computer μ) :
    Computer μ :=
  { s with cpu.regs := s.cpu.regs.setHl v }

namespace Computer

variable {μ : Type}

theorem withHl_eq_rewire (v : UInt16) (s : Computer μ) :
    s.withHl v = s.rewire (.pinned v) := rfl

@[simp] theorem hl_withHl (v : UInt16) (s : Computer μ) :
    (s.withHl v).cpu.regs.hl = v :=
  word_hiByte_loByte v

@[simp] theorem withHl_withHl (v v' : UInt16) (s : Computer μ) :
    (s.withHl v).withHl v' = s.withHl v' := rfl

/-- To put back what HL holds anyway changes nothing. -/
@[simp] theorem withHl_hl (s : Computer μ) :
    s.withHl s.cpu.regs.hl = s := by
  unfold withHl Registers.setHl Registers.hl
  rw [hiByte_word, loByte_word]

end Computer

/-- A byte register that is neither H nor L does not notice. -/
theorem Reg8.rewired_pinned {reg : Reg8} (hh : reg ≠ .h) (hl : reg ≠ .l)
    (v : UInt16) : Reg8.Rewired (.pinned v) reg reg := by
  cases reg with
  | h => exact absurd rfl hh
  | l => exact absurd rfl hl
  | _ => exact ⟨fun _ => rfl, fun _ _ => rfl⟩

/-- A computation that never notices what HL holds may as well be
carried out with another word in HL, which is put back afterwards. -/
theorem Exec.eq_withHl {μ α : Type} {m : Exec μ α}
    (h : ∀ v, Rewired (.pinned v) m m) (v : UInt16) (s : Computer μ) :
    m s = ((m (s.withHl v)).1,
      (m (s.withHl v)).2.withHl s.cpu.regs.hl) := by
  have haside : m (s.withHl v) = ((m s).1, (m s).2.withHl v) :=
    (h v).eq s
  have hback : m s = ((m s).1, (m s).2.withHl s.cpu.regs.hl) := by
    have heq := (h s.cpu.regs.hl).eq s
    rw [← Computer.withHl_eq_rewire, Computer.withHl_hl] at heq
    exact heq
  rw [haside]
  exact hback

-- ================================================================ forms

/-- The instructions with one operand in memory. -/
inductive MemoryForm where
  | load (dst : Reg8)
  | store (src : Reg8)
  | storeByte
  | inc
  | dec
  | alu (op : AluOp)
  deriving DecidableEq, Repr

namespace MemoryForm

/-- The instruction of a form, with its operand where a pair points. -/
def instruction (via : Role) : MemoryForm → Instruction
  | .load dst => .load (.reg dst) (.mem via)
  | .store src => .load (.mem via) (.reg src)
  | .storeByte => .loadByte (.mem via)
  | .inc => .inc (.mem via)
  | .dec => .dec (.mem via)
  | .alu op => .alu op (.mem via)

/-- T-states beyond the fetch of the opcode, where HL points at the
operand. -/
def cost : MemoryForm → Nat
  | .load _ | .store _ | .alu _ => 3
  | .storeByte => 6
  | .inc | .dec => 7

/-- What a displacement takes. The one before an immediate byte is added
while that byte is fetched. -/
def displacementCost : MemoryForm → Nat
  | .storeByte => 5
  | _ => 8

/-- Whether a form names one half of the real HL. -/
def namesHalf : MemoryForm → Bool
  | .load name | .store name => name == .h || name == .l
  | _ => false

/-- Whether the register that a form loads, if there is one, is one of
the main set. -/
def loadsMain : MemoryForm → Bool
  | .load name => name ∈ [.a, .b, .c, .d, .e, .h, .l]
  | _ => true

variable {μ : Type} [Decoder μ]

/-- What a form does to a byte at an address. -/
def perform (addr : UInt16) : MemoryForm → Exec μ Unit
  | .load dst => do Exec.set8 dst (← Exec.peek addr)
  | .store src => do Exec.poke addr (← Exec.get8 src)
  | .storeByte => do Exec.poke addr (← Exec.fetchByte)
  | .inc => do
    let (v, f) := Alu.inc8 (← Exec.peek addr) (← Exec.flags)
    Exec.poke addr v
    Exec.setFlags f
  | .dec => do
    let (v, f) := Alu.dec8 (← Exec.peek addr) (← Exec.flags)
    Exec.poke addr v
    Exec.setFlags f
  | .alu op => do Exec.alu op (← Exec.peek addr)

/-- Through HL, the address is what HL holds. -/
theorem execute_plain (form : MemoryForm) (s : Computer μ) :
    Exec.execute (form.instruction .hl) s
      = (form.cost, (form.perform s.cpu.regs.hl s).2) := by
  cases form <;> rfl

/-- Through an index register, the address is displaced. -/
theorem execute_displaced (form : MemoryForm) {role : Role}
    (h : role ≠ .hl) (s : Computer μ) :
    Exec.execute (form.instruction role) s =
      let d := Exec.fetchByte s
      let addr := displace (s.cpu.regs.get16 role.pair) d.1
      (form.cost + form.displacementCost, (form.perform addr d.2).2) := by
  cases role with
  | hl => exact absurd rfl h
  | ix => cases form <;> rfl
  | iy => cases form <;> rfl

/-- A form that names no half of HL never notices what HL holds. -/
theorem rewired_perform {form : MemoryForm}
    (h : form.namesHalf = false) (addr v : UInt16) :
    Exec.Rewired (μ := μ) (.pinned v) (form.perform addr)
      (form.perform addr) := by
  cases form with
  | load dst =>
    obtain ⟨hh, hl⟩ := Bool.or_eq_false_iff.1 h
    have := Reg8.rewired_pinned (beq_eq_false_iff_ne.1 hh)
      (beq_eq_false_iff_ne.1 hl) v
    simp only [perform]
    infer_instance
  | store src =>
    obtain ⟨hh, hl⟩ := Bool.or_eq_false_iff.1 h
    have := Reg8.rewired_pinned (beq_eq_false_iff_ne.1 hh)
      (beq_eq_false_iff_ne.1 hl) v
    simp only [perform]
    infer_instance
  | storeByte | inc | dec | alu _ =>
    simp only [perform]
    infer_instance

/-- A form changes the accumulator, the flags or the one register that
it loads, and passes its immediate byte. -/
theorem frame_perform {form : MemoryForm} (h : form.loadsMain = true)
    (addr : UInt16) (s : Computer μ) :
    let r := s.cpu.regs
    let r' := (form.perform addr s).2.cpu.regs
    r'.ix = r.ix ∧ r'.iy = r.iy
      ∧ (form ≠ .load .h → r'.h = r.h)
      ∧ (form ≠ .load .l → r'.l = r.l)
      ∧ r'.r = r.r
      ∧ r'.pc = if form = .storeByte then r.pc + 1 else r.pc := by
  cases form with
  | load dst =>
    cases dst with
    | i | r | f | ixh | ixl | iyh | iyl => cases h
    | h => exact ⟨rfl, rfl, fun hne => absurd rfl hne, fun _ => rfl, rfl, rfl⟩
    | l => exact ⟨rfl, rfl, fun _ => rfl, fun hne => absurd rfl hne, rfl, rfl⟩
    | _ => exact ⟨rfl, rfl, fun _ => rfl, fun _ => rfl, rfl, rfl⟩
  | _ => exact ⟨rfl, rfl, fun _ => rfl, fun _ => rfl, rfl, rfl⟩

end MemoryForm

-- ============================================================== decoding

namespace Decode

/-- The form that a byte with an operand in memory stands for. -/
def memoryForm (op : UInt8) : MemoryForm :=
  match main .hl op with
  | .instruction (.load (.reg dst) _) => .load dst
  | .instruction (.load _ (.reg src)) => .store src
  | .instruction (.inc _) => .inc
  | .instruction (.dec _) => .dec
  | .instruction (.alu op _) => .alu op
  | _ => .storeByte

/-- The bytes whose form names one half of HL. -/
def halfBytes : List UInt8 := [0x66, 0x6E, 0x74, 0x75]

/-- Under every prefix a byte has its form. -/
theorem main_memory (role : Role) :
    ∀ op ∈ memoryBytes,
      main role op = .instruction ((memoryForm op).instruction role) := by
  cases role <;> decide +kernel

/-- What has a memory form loads one of the main registers, if any. -/
theorem loadsMain_memoryForm :
    ∀ op ∈ memoryBytes, (memoryForm op).loadsMain = true := by
  decide +kernel

/-- All but a few of the forms name no half of HL. -/
theorem namesHalf_memoryForm :
    ∀ op ∈ memoryBytes, op ∉ halfBytes →
      (memoryForm op).namesHalf = false := by
  decide +kernel

/-- What the displacement costs on top. -/
theorem displacementCost_memoryForm :
    ∀ op ∈ memoryBytes, 4 + (memoryForm op).displacementCost
      = if op = 0x36 then 9 else 12 := by
  decide +kernel

/-- The forms that load a half of HL, and the one that takes a byte of
code. -/
theorem memoryForm_eq_iff :
    ∀ op ∈ memoryBytes,
      (memoryForm op = .load .h ↔ op = 0x66)
        ∧ (memoryForm op = .load .l ↔ op = 0x6E)
        ∧ (memoryForm op = .storeByte ↔ op = 0x36) := by
  decide +kernel

end Decode

-- =============================================================== opcodes

namespace Exec

variable {μ : Type} [Decoder μ]

theorem pair_fetchOpcode (role : Role) (s : Computer μ) :
    (fetchOpcode s).2.cpu.regs.get16 role.pair
      = s.cpu.regs.get16 role.pair := by
  cases role <;> rfl

/-- Without an index byte a form works on the byte that HL points at. -/
theorem opcode_memory {op : UInt8} (h : op ∈ Decode.memoryBytes)
    (s : Computer μ) :
    opcode op s =
      (4 + (Decode.memoryForm op).cost,
        ((Decode.memoryForm op).perform s.cpu.regs.hl s).2) := by
  rw [opcode_instruction (Decode.main_memory .hl op h),
    MemoryForm.execute_plain]

/-- With one it works on the byte that the displaced index register
points at, on the registers as they are. -/
theorem indexed_memory {role : Role} (hrole : role ≠ .hl)
    {s : Computer μ} (h : (fetchOpcode s).1 ∈ Decode.memoryBytes) :
    indexed role s =
      let form := Decode.memoryForm (fetchOpcode s).1
      let d := fetchByte (fetchOpcode s).2
      let addr := displace (s.cpu.regs.get16 role.pair) d.1
      (8 + (form.cost + form.displacementCost),
        (form.perform addr d.2).2) := by
  rw [indexed_instruction (Decode.main_memory role _ h),
    MemoryForm.execute_displaced _ hrole, pair_fetchOpcode]

/-- A form that names no half of HL may be carried out without the index
byte, with the displaced address in HL and HL put back afterwards. -/
theorem indexed_eq_withHl {role : Role} (hrole : role ≠ .hl)
    {s : Computer μ} (h : (fetchOpcode s).1 ∈ Decode.memoryBytes)
    (hhalf : (fetchOpcode s).1 ∉ Decode.halfBytes) :
    (indexed role s).2 =
      let d := fetchByte (fetchOpcode s).2
      let addr := displace (s.cpu.regs.get16 role.pair) d.1
      (opcode (fetchOpcode s).1 (d.2.withHl addr)).2.withHl
        d.2.cpu.regs.hl := by
  have hnames := Decode.namesHalf_memoryForm _ h hhalf
  rw [indexed_memory hrole h]
  dsimp only
  rw [opcode_memory h, Computer.hl_withHl]
  rw [eq_withHl (MemoryForm.rewired_perform hnames _)]

/-- How an opcode with an operand in memory behaves after an index byte.
The displacement was fetched, `s` is the computer then and `addr` the
displaced address; `run` is what comes of the instruction. -/
structure LikePlain (op : UInt8) (addr : UInt16) (s : Computer μ)
    (run : Nat × Computer μ) : Prop where
  /-- Without the index byte a form works on the byte at HL. -/
  plain (t : Computer μ) : (opcode op t).2 =
    ((Decode.memoryForm op).perform t.cpu.regs.hl t).2
  /-- The same form works on the byte at the address, and any other
  register that it names is a real one. -/
  displaced : run.2 = ((Decode.memoryForm op).perform addr s).2
  /-- Unless it names H or L, the opcode does so with the address in HL,
  and with HL put back afterwards. -/
  aside : op ∉ Decode.halfBytes →
    run.2 = (opcode op (s.withHl addr)).2.withHl s.cpu.regs.hl
  cost : run.1 = (opcode op s).1 + if op = 0x36 then 9 else 12
  -- the frame
  ix : run.2.cpu.regs.ix = s.cpu.regs.ix
  iy : run.2.cpu.regs.iy = s.cpu.regs.iy
  h : op ≠ 0x66 → run.2.cpu.regs.h = s.cpu.regs.h
  l : op ≠ 0x6E → run.2.cpu.regs.l = s.cpu.regs.l
  r : run.2.cpu.regs.r = s.cpu.regs.r
  pc : run.2.cpu.regs.pc =
    if op = 0x36 then s.cpu.regs.pc + 1 else s.cpu.regs.pc

/-- Behind an index byte they act on the displaced byte as the plain ones
on that at HL. -/
theorem likePlain_indexed {role : Role} (hrole : role ≠ .hl)
    {s : Computer μ} (h : (fetchOpcode s).1 ∈ Decode.memoryBytes) :
    let d := fetchByte (fetchOpcode s).2
    LikePlain (fetchOpcode s).1
      (displace (s.cpu.regs.get16 role.pair) d.1) d.2
      (indexed role s) := by
  intro d
  have hplain := opcode_memory (μ := μ) h
  have haside := indexed_eq_withHl hrole h
  obtain ⟨hh, hl, hbyte⟩ := Decode.memoryForm_eq_iff _ h
  obtain ⟨hix, hiy, hkeepH, hkeepL, hr, hpc⟩ :=
    MemoryForm.frame_perform (Decode.loadsMain_memoryForm _ h)
      (displace (s.cpu.regs.get16 role.pair) d.1) d.2
  -- from here on the instruction is its form, performed at the address
  rw [indexed_memory hrole h] at haside ⊢
  exact
    { plain := fun t => by rw [hplain t]
      displaced := rfl
      aside := haside
      cost := by
        have htakes := Decode.displacementCost_memoryForm _ h
        rw [hplain d.2]
        dsimp only
        omega
      ix := hix
      iy := hiy
      h := fun hop => hkeepH fun hform => hop (hh.1 hform)
      l := fun hop => hkeepL fun hform => hop (hl.1 hform)
      r := hr
      pc := by
        simp only [hbyte] at hpc
        exact hpc }

end Exec
end HomeZ80
