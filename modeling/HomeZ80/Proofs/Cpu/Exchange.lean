/-
An index byte before an instruction that has no operand in memory: the
index register changes places with HL, the instruction without the index
byte is carried out, and the two change places again
(`indexed_eq_exchange`).

# Why it holds

An instruction names the registers that it works on, all but a few that
mean HL or its neighbours without saying so (`Instruction.explicit`).
To carry out an explicit instruction on exchanged registers is to carry
out the instruction with the names exchanged instead
(`Exec.rewired_execute`), case by case over the instructions. And on
every byte where the law is promised, the table with an index register
in the part of HL holds the instruction of the main table with the names
exchanged, which is a matter of 256 bytes (`Decode.main_swap`).

The bytes left out are those with the memory operand, whose address
takes a displacement; the exchange of DE with HL and the exchange of the
register sets, which mean the real HL under every prefix; and the four
that lead to other pages.
-/
import HomeZ80.Board.Windowed
import HomeZ80.Proofs.Cpu.Rewire

namespace HomeZ80

-- ================================================================ names

namespace Role

/-- HL and the pair of a role change places. -/
def exchange : Role → Wiring
  | .hl, p => p
  | .ix, p =>
    { p with h := hiByte p.ix, l := loByte p.ix, ix := word p.h p.l }
  | .iy, p =>
    { p with h := hiByte p.iy, l := loByte p.iy, iy := word p.h p.l }

/-- The name that a byte register has after the exchange. -/
def swap8 : Role → Reg8 → Reg8
  | .ix, .h => .ixh
  | .ix, .l => .ixl
  | .ix, .ixh => .h
  | .ix, .ixl => .l
  | .iy, .h => .iyh
  | .iy, .l => .iyl
  | .iy, .iyh => .h
  | .iy, .iyl => .l
  | _, reg => reg

/-- The name that a word register has after the exchange. -/
def swap16 : Role → Reg16 → Reg16
  | .ix, .hl => .ix
  | .ix, .ix => .hl
  | .iy, .hl => .iy
  | .iy, .iy => .hl
  | _, reg => reg

end Role

/-- Who changes places twice is back. -/
@[simp] theorem Registers.rewire_exchange (role : Role)
    (r : Registers) :
    (r.rewire role.exchange).rewire role.exchange = r := by
  cases role <;> simp [Registers.rewire, Registers.pairs, Role.exchange]

/-- To exchange twice is to change nothing. -/
@[simp] theorem Computer.rewire_exchange {μ : Type} (role : Role)
    (s : Computer μ) :
    (s.rewire role.exchange).rewire role.exchange = s := by
  show { s with cpu.regs :=
    (s.cpu.regs.rewire role.exchange).rewire role.exchange } = s
  rw [Registers.rewire_exchange]

/-- A byte register is found under its new name. -/
instance (role : Role) (reg : Reg8) :
    Reg8.Rewired role.exchange reg (role.swap8 reg) where
  get r := by
    cases role <;> cases reg <;>
      simp [Registers.rewire, Registers.pairs, Registers.get8,
        Role.exchange, Role.swap8]
  set v r := by
    cases role <;> cases reg <;>
      simp [Registers.rewire, Registers.pairs, Registers.set8,
        Role.exchange, Role.swap8]

/-- A word register is found under its new name. -/
instance (role : Role) (reg : Reg16) :
    Reg16.Rewired role.exchange reg (role.swap16 reg) where
  get r := by
    cases role <;> cases reg <;>
      simp [Registers.rewire, Registers.pairs, Registers.get16,
        Registers.af, Registers.bc, Registers.de, Registers.hl,
        Role.exchange, Role.swap16]
  set v r := by
    cases role <;> cases reg <;>
      simp [Registers.rewire, Registers.pairs, Registers.set16,
        Registers.setAf, Registers.setBc, Registers.setDe,
        Registers.setHl, Role.exchange, Role.swap16]

-- ========================================================= instructions

/-- The operand with its name exchanged; what is in memory stays. -/
def Operand.swap (role : Role) : Operand → Operand
  | .reg name => .reg (role.swap8 name)
  | .mem via => .mem via

/-- Whether an operand is a register. -/
def Operand.isReg : Operand → Bool
  | .reg _ => true
  | .mem _ => false

namespace Instruction

/-- The instruction with the names of its registers exchanged. -/
def swap (role : Role) : Instruction → Instruction
  | .load dst src => .load (dst.swap role) (src.swap role)
  | .loadByte dst => .loadByte (dst.swap role)
  | .loadA via => .loadA (role.swap16 via)
  | .storeA via => .storeA (role.swap16 via)
  | .loadWord dst => .loadWord (role.swap16 dst)
  | .loadDirect dst => .loadDirect (role.swap16 dst)
  | .storeDirect src => .storeDirect (role.swap16 src)
  | .loadSp src => .loadSp (role.swap16 src)
  | .push src => .push (role.swap16 src)
  | .pop dst => .pop (role.swap16 dst)
  | .exStack reg => .exStack (role.swap16 reg)
  | .alu op src => .alu op (src.swap role)
  | .inc target => .inc (target.swap role)
  | .dec target => .dec (target.swap role)
  | .incWord reg => .incWord (role.swap16 reg)
  | .decWord reg => .decWord (role.swap16 reg)
  | .addWord dst src => .addWord (role.swap16 dst) (role.swap16 src)
  | .bits op target => .bits op (target.swap role)
  | .jumpTo reg => .jumpTo (role.swap16 reg)
  | .inC dst => .inC (dst.map role.swap8)
  | .outC src => .outC (src.map role.swap8)
  | i => i

/-- Whether an instruction works on no pair but those that it names, and
on no byte in memory that its operand points at. -/
def explicit : Instruction → Bool
  | .load dst src => dst.isReg && src.isReg
  | .loadByte o | .alu _ o | .inc o | .dec o | .bits _ o => o.isReg
  | .exx | .exDeHl | .adcHl _ | .sbcHl _ | .digitsLeft | .digitsRight
  | .block .. => false
  | _ => true

end Instruction

namespace Exec

variable {μ : Type} [Decoder μ]

/-- An explicit instruction on exchanged registers does what the
instruction with exchanged names does on the registers as they are. -/
theorem rewired_execute (role : Role) {i : Instruction}
    (h : i.explicit = true) :
    Rewired (μ := μ) role.exchange (execute i)
      (execute (i.swap role)) := by
  cases i with
  -- an operand that is explicit is a register
  | load dst src =>
    obtain ⟨dst⟩ | ⟨via⟩ := dst
    · obtain ⟨src⟩ | ⟨via⟩ := src
      · simp only [Instruction.swap, Operand.swap, execute, site,
          pure_bind, operandCost]
        infer_instance
      · cases h
    · cases h
  | loadByte dst =>
    obtain ⟨dst⟩ | ⟨via⟩ := dst
    · simp only [Instruction.swap, Operand.swap, execute, site,
        pure_bind]
      infer_instance
    · cases h
  | alu op src =>
    obtain ⟨src⟩ | ⟨via⟩ := src
    · simp only [Instruction.swap, Operand.swap, execute, site,
        pure_bind, operandCost]
      infer_instance
    · cases h
  | inc target | dec target =>
    obtain ⟨target⟩ | ⟨via⟩ := target
    · simp only [Instruction.swap, Operand.swap, execute, site,
        pure_bind, operandCost]
      infer_instance
    · cases h
  | bits op target =>
    obtain ⟨target⟩ | ⟨via⟩ := target
    · simp only [Instruction.swap, Operand.swap, execute, site,
        pure_bind, operandCost]
      infer_instance
    · cases h
  -- pairs and registers that are named
  | loadA _ | storeA _ | loadWord _ | loadDirect _ | storeDirect _
  | loadSp _ | push _ | pop _ | exStack _ | incWord _ | decWord _
  | addWord _ _ | jumpTo _ =>
    simp only [Instruction.swap, execute]
    infer_instance
  | inC dst =>
    have hflags (v : UInt8) : Rewired (μ := μ) role.exchange
        (modifyRegs fun r => { r with f := Alu.loaded v r.f })
        (modifyRegs fun r => { r with f := Alu.loaded v r.f }) :=
      .modifyRegs fun _ => rfl
    cases dst with
    | none =>
      simp only [Instruction.swap, Option.map, execute]
      infer_instance
    | some name =>
      simp only [Instruction.swap, Option.map, execute]
      infer_instance
  | outC src =>
    cases src with
    | none =>
      simp only [Instruction.swap, Option.map, execute]
      infer_instance
    | some name =>
      simp only [Instruction.swap, Option.map, execute]
      infer_instance
  -- no pair at all
  | loadADirect | storeADirect | jump _ | jumpRelative _ | djnz
  | call _ | rst _ | aluByte _ | inA | outA =>
    simp only [Instruction.swap, execute]
    infer_instance
  | ret cond =>
    cases cond with
    | none =>
      simp only [Instruction.swap, execute]
      infer_instance
    | some cond =>
      simp only [Instruction.swap, execute]
      infer_instance
  | retn =>
    have hreturn : Rewired (μ := μ) role.exchange
        (modifyRegs fun r => { r with iff1 := r.iff2 })
        (modifyRegs fun r => { r with iff1 := r.iff2 }) :=
      .modifyRegs fun _ => rfl
    simp only [Instruction.swap, execute]
    infer_instance
  | storeASpecial dst =>
    cases dst with
    | i => exact ⟨fun _ => rfl⟩
    | r => exact ⟨fun _ => rfl⟩
  -- pairs that are not named
  | exx | exDeHl | adcHl _ | sbcHl _ | digitsLeft | digitsRight
  | block _ _ _ => cases h
  -- a change of other registers
  | _ => exact ⟨fun _ => rfl⟩

end Exec

/-- A computer at power-on with a few bytes of writable memory, from
address zero. -/
def Computer.holding (bytes : List UInt8) : Computer Windowed where
  board :=
    { arena := { regions := #[⟨"memory", ⟨bytes.toArray⟩, true⟩] }
      decoder := { windows := [⟨0, 65535, true, true, 0, 0⟩] } }

-- =============================================================== opcodes

namespace Decode

/-- The bytes that lead to other pages. -/
def pageBytes : List UInt8 := [0xCB, 0xDD, 0xED, 0xFD]

/-- The bytes with an operand in memory that HL points at. -/
def memoryBytes : List UInt8 :=
  [0x34, 0x35, 0x36, 0x46, 0x4E, 0x56, 0x5E, 0x66, 0x6E, 0x7E,
    0x70, 0x71, 0x72, 0x73, 0x74, 0x75, 0x77,
    0x86, 0x8E, 0x96, 0x9E, 0xA6, 0xAE, 0xB6, 0xBE]

/-- The bytes that mean the real HL under every prefix. -/
def fixedBytes : List UInt8 := [0xD9, 0xEB]

/-- Whether a byte stands for an explicit instruction, and under a
prefix for the same one with the names exchanged. -/
def swaps (role : Role) (op : UInt8) : Bool :=
  match main .hl op with
  | .instruction i =>
    i.explicit && main role op == .instruction (i.swap role)
  | _ => false

/-- A byte is of one of the four kinds. -/
theorem swaps_or_mem (role : Role) (op : UInt8) :
    swaps role op = true ∨ op ∈ pageBytes ∨ op ∈ memoryBytes
      ∨ op ∈ fixedBytes := by
  obtain ⟨⟨v⟩⟩ := op
  revert v
  cases role <;> decide +kernel

/-- The table with an index register in the part of HL is the main table
with the names exchanged, where there is anything to exchange. -/
theorem main_swap (role : Role) {op : UInt8} (hpage : op ∉ pageBytes)
    (hmem : op ∉ memoryBytes) (hfixed : op ∉ fixedBytes) :
    ∃ i : Instruction, i.explicit = true
      ∧ main .hl op = .instruction i
      ∧ main role op = .instruction (i.swap role) := by
  obtain hswaps | hop | hop | hop := swaps_or_mem role op
  · unfold swaps at hswaps
    split at hswaps
    · next i hmain =>
      obtain ⟨hexplicit, hrole⟩ := Bool.and_eq_true_iff.1 hswaps
      exact ⟨i, hexplicit, hmain, beq_iff_eq.1 hrole⟩
    · cases hswaps
  · exact absurd hop hpage
  · exact absurd hop hmem
  · exact absurd hop hfixed

/-- The two exchanges that mean the real HL are in every table. -/
theorem main_fixed (role : Role) {op : UInt8} (h : op ∈ fixedBytes) :
    ∃ i, main .hl op = .instruction i
      ∧ main role op = .instruction i := by
  simp only [fixedBytes, List.mem_cons, List.not_mem_nil, or_false] at h
  obtain rfl | rfl := h
  · exact ⟨.exx, rfl, rfl⟩
  · exact ⟨.exDeHl, rfl, rfl⟩

end Decode

namespace Exec

variable {μ : Type} [Decoder μ]

/-- An opcode of the main page takes four T-states and what the
instruction takes. -/
theorem opcode_instruction {op : UInt8} {i : Instruction}
    (h : Decode.main .hl op = .instruction i) (s : Computer μ) :
    opcode op s = (4 + (execute i s).1, (execute i s).2) := by
  unfold opcode
  rw [h]
  rfl

/-- After an index byte it is fetched first, and takes eight. -/
theorem indexed_instruction {role : Role} {s : Computer μ}
    {i : Instruction}
    (h : Decode.main role (fetchOpcode s).1 = .instruction i) :
    indexed role s =
      (8 + (execute i (fetchOpcode s).2).1,
        (execute i (fetchOpcode s).2).2) := by
  rw [indexed, bind_apply]
  dsimp only
  rw [h]
  rfl

/-- An opcode after an index byte, if it has no operand in memory, does
what it would do without the index byte if the index register had
changed places with HL before and changed back afterwards; it takes four
T-states more. The two exchanges that mean the real HL do what they do
without the index byte. -/
theorem indexed_eq_exchange (role : Role) (s : Computer μ) :
    let op := (fetchOpcode s).1
    let t := (fetchOpcode s).2
    (op ∉ Decode.pageBytes → op ∉ Decode.memoryBytes →
        op ∉ Decode.fixedBytes →
        indexed role s =
          ((opcode op (t.rewire role.exchange)).1 + 4,
            (opcode op (t.rewire role.exchange)).2.rewire role.exchange))
      ∧ (op ∈ Decode.fixedBytes →
          indexed role s = ((opcode op t).1 + 4, (opcode op t).2)) := by
  intro op t
  constructor
  · intro hpage hmem hfixed
    obtain ⟨i, hexplicit, hmain, hrole⟩ :=
      Decode.main_swap role hpage hmem hfixed
    have hswap := (rewired_execute (μ := μ) role hexplicit).eq t
    rw [indexed_instruction hrole, opcode_instruction hmain, hswap]
    apply Prod.ext
    · show 8 + (execute (i.swap role) t).1
        = 4 + (execute (i.swap role) t).1 + 4
      omega
    · exact (Computer.rewire_exchange role _).symm
  · intro hfixed
    obtain ⟨i, hmain, hrole⟩ := Decode.main_fixed role hfixed
    rw [indexed_instruction hrole, opcode_instruction hmain]
    apply Prod.ext
    · show 8 + (execute i t).1 = 4 + (execute i t).1 + 4
      omega
    · rfl

/-- Increment of the high byte of IX, and the exchange of DE and HL
after an index byte. -/
theorem indexed_eq_exchange_inc_ixh :
    let s := Computer.holding [0x24]
    let t := (fetchOpcode s).2
    let s' := Computer.holding [0xEB]
    let t' := (fetchOpcode s').2
    indexed .ix s =
        ((opcode 0x24 (t.rewire (Role.exchange .ix))).1 + 4,
          (opcode 0x24 (t.rewire (Role.exchange .ix))).2.rewire
            (Role.exchange .ix))
      ∧ indexed .iy s' =
          ((opcode 0xEB t').1 + 4, (opcode 0xEB t').2) :=
  ⟨(indexed_eq_exchange .ix (Computer.holding [0x24])).1 (by decide)
      (by decide) (by decide),
    (indexed_eq_exchange .iy (Computer.holding [0xEB])).2 (by decide)⟩

end Exec
end HomeZ80
