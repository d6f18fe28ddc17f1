/-
Who may change the guarded registers, told from the opcode bytes of the
instructions that are executed. Of every register there is a list of such
codes (`Guarded.isWriter`), and an instruction whose code is not on the
list leaves the register alone (`Exec.value_opcode`).

A step executes one instruction, unless it is halted, and perhaps one
more that an interrupt supplies (`Computer.codes`). An interrupt entry
itself changes the flip-flops and the stack pointer and nothing else that
is guarded. So a register changes in a run only where one of its writers
is executed, or an entry is made (`Computer.guarded_registers`).
-/
import HomeZ80.Proofs.Cpu.DisplacedBits
import HomeZ80.Proofs.Cpu.Exchange
import HomeZ80.Proofs.Cpu.Guarded
import HomeZ80.Proofs.Cpu.Steps
import HomeZ80.Proofs.Sometime

namespace HomeZ80

/-- The opcode bytes of an instruction: one, or two where the first leads
to another page. -/
abbrev Code := List UInt8

-- ============================================================== writers

namespace Guarded

/-- One of the opcodes, by itself or after an index byte. -/
def isPlain (ops : List UInt8) (code : Code) : Bool :=
  ops.any fun op => code == [op] || code == [0xDD, op] || code == [0xFD, op]

/-- An opcode of the second quarter of the extended page that ends in
three given bits. -/
def isColumn (z : UInt8) (code : Code) : Bool :=
  match code with
  | [0xED, op] => 0x40 ≤ op && op < 0x80 && op % 8 == z
  | _ => false

/-- The opcodes of the main page that move the stack pointer. -/
def stackOps : List UInt8 :=
  -- it is loaded with a word or with HL, counted up, counted down
  [0x31, 0xF9, 0x33, 0x3B,
    -- push, pop
    0xC5, 0xD5, 0xE5, 0xF5, 0xC1, 0xD1, 0xE1, 0xF1,
    -- calls
    0xCD, 0xC4, 0xCC, 0xD4, 0xDC, 0xE4, 0xEC, 0xF4, 0xFC,
    -- returns
    0xC9, 0xC0, 0xC8, 0xD0, 0xD8, 0xE0, 0xE8, 0xF0, 0xF8,
    -- restarts
    0xC7, 0xCF, 0xD7, 0xDF, 0xE7, 0xEF, 0xF7, 0xFF]

/-- The codes that may change a register. -/
def isWriter (code : Code) : Guarded → Bool
  | .i => code == [0xED, 0x47]
  | .r7 => code == [0xED, 0x4F]
  | .im => isColumn 6 code
  | .afAlt => isPlain [0x08] code
  | .bcAlt | .deAlt | .hlAlt => isPlain [0xD9] code
  | .ix => code.head? == some 0xDD
  | .iy => code.head? == some 0xFD
  | .iff1 | .iff2 => isPlain [0xF3, 0xFB] code || isColumn 5 code
  | .sp => isPlain stackOps code || code == [0xED, 0x7B] || isColumn 5 code

/-- An interrupt entry changes the flip-flops and the stack pointer. -/
def isSetOnEntry : Guarded → Bool
  | .iff1 | .iff2 | .sp => true
  | _ => false

end Guarded

-- ============================================================= decoding

/-- The index byte that puts a register in the part of HL. -/
def Role.code : Role → Code
  | .hl => []
  | .ix => [0xDD]
  | .iy => [0xFD]

/-- Whether a code is that of a writer of all registers that an
instruction may change. -/
def Instruction.isCoded (code : Code) (i : Instruction) : Bool :=
  Guarded.all.all fun x => !i.changes x || x.isWriter code

/-- What an instruction changes is told by its codes: a register that no
code of it writes, it does not change. -/
theorem Instruction.changes_of_isCoded {code : Code} {i : Instruction}
    (h : i.isCoded code = true) {x : Guarded}
    (hx : x.isWriter code = false) : i.changes x = false := by
  have hor := List.all_eq_true.1 h x x.mem_all
  rw [hx, Bool.or_false] at hor
  simpa using hor

namespace Decode

/-- Whether the code of a byte, in a role of HL, is that of the
instruction that the byte stands for. -/
def isCoded (role : Role) (op : UInt8) : Bool :=
  match main role op with
  | .instruction i => i.isCoded (role.code ++ [op])
  | _ => true

/-- A byte of the main page, behind the index byte of its role, is a code
of its instruction. -/
theorem isCoded_main {role : Role} {op : UInt8} {i : Instruction}
    (h : main role op = .instruction i) :
    i.isCoded (role.code ++ [op]) = true := by
  have hall : isCoded role op = true := by
    clear h
    obtain ⟨⟨v⟩⟩ := op
    revert v
    cases role <;> decide +kernel
  unfold isCoded at hall
  rw [h] at hall
  exact hall

theorem isCoded_extended (op : UInt8) :
    (extended op).isCoded [0xED, op] = true := by
  obtain ⟨⟨v⟩⟩ := op
  revert v
  decide +kernel

theorem isCoded_bit (op : UInt8) :
    (bit op).isCoded [0xCB, op] = true := by
  obtain ⟨⟨v⟩⟩ := op
  revert v
  decide +kernel

/-- The bytes that lead to other pages. -/
structure LeadsOn (op : UInt8) : Prop where
  bitPage (h : main .hl op = .bitPage) : op = 0xCB
  extendedPage (h : main .hl op = .extendedPage) : op = 0xED
  indexPage (role : Role) (h : main .hl op = .indexPage role) :
    role.code = [op]

/-- Which bytes lead on to another page, and to which. -/
theorem leadsOn (op : UInt8) : LeadsOn op := by
  have hall : (main .hl op = .bitPage → op = 0xCB)
      ∧ (main .hl op = .extendedPage → op = 0xED)
      ∧ ∀ role ∈ [Role.hl, .ix, .iy], main .hl op = .indexPage role →
        role.code = [op] := by
    obtain ⟨⟨v⟩⟩ := op
    revert v
    decide +kernel
  refine ⟨hall.1, hall.2.1, fun role => hall.2.2 role ?_⟩
  cases role <;> decide

end Decode

namespace Exec

variable {μ : Type} [Decoder μ]

/-- The code of the instruction that begins with an opcode byte, already
fetched. -/
def codeOf (op : UInt8) (s : Computer μ) : Code :=
  match Decode.main .hl op with
  | .instruction _ => [op]
  | _ => [op, (fetchOpcode s).1]

/-- An instruction whose code is no writer of a register leaves its
value. -/
theorem value_coded {x : Guarded} {code : Code} {i : Instruction}
    (hcoded : i.isCoded code = true) (h : x.isWriter code = false)
    (s : Computer μ) :
    x.value (execute i s).2.cpu.regs = x.value s.cpu.regs :=
  Guarded.value_of_whole_eq
    (whole_execute (Instruction.changes_of_isCoded hcoded h) s)

/-- An operation on a displaced byte writes no guarded register. -/
theorem whole_indexedBits (x : Guarded) (role : Role) (s : Computer μ) :
    x.whole (indexedBits role s).2.cpu.regs = x.whole s.cpu.regs := by
  let displaced := fetchDisplaced (s.cpu.regs.get16 role.pair) s
  let op := fetchByte displaced.2
  have hcopy : ∀ name, Decode.register? (op.1.toNat % 8) = some name →
      x.has8 name = false := by
    intro name hname
    have hmain := Decode.register?_main hname
    cases name <;> first | exact Guarded.Clear8.eq | simp at hmain
  have hcell : ∀ name, Site.cell displaced.1 = .reg name →
      x.has8 name = false := nofun
  have hbits := whole_bits hcell hcopy (Decode.bitOp op.1) op.2
  exact hbits.trans (Keeps.whole_eq (m := do
    let addr ← fetchDisplaced (← get16 role.pair)
    let op ← fetchByte) s)

/-- After an index byte the two bytes together are the code. -/
theorem value_indexed {x : Guarded} {role : Role} {s : Computer μ}
    (h : x.isWriter (role.code ++ [(fetchOpcode s).1]) = false) :
    x.value (indexed role s).2.cpu.regs = x.value s.cpu.regs := by
  have hnext := Spares.value_eq (x := x) (m := fetchOpcode) s
  unfold indexed
  rw [bind_apply]
  cases hop : Decode.main role (fetchOpcode s).1 with
  | instruction i =>
    have hcoded := Decode.isCoded_main hop
    exact (value_coded hcoded h _).trans hnext
  | bitPage =>
    have hbits := whole_indexedBits x role (fetchOpcode s).2
    exact (Guarded.value_of_whole_eq hbits).trans hnext
  | extendedPage | indexPage other =>
    rw [← hnext]
    exact Guarded.value_of_guarded_eq
      (Registers.guarded_unrefresh (fetchOpcode s).2.cpu.regs) x

/-- An instruction whose code is not that of a writer leaves the register
alone. -/
theorem value_opcode {x : Guarded} {op : UInt8} {s : Computer μ}
    (h : x.isWriter (codeOf op s) = false) :
    x.value (opcode op s).2.cpu.regs = x.value s.cpu.regs := by
  have hnext := Spares.value_eq (x := x) (m := fetchOpcode) s
  have hbyte := Decode.leadsOn op
  unfold codeOf at h
  unfold opcode
  cases hop : Decode.main .hl op with
  | instruction i =>
    rw [hop] at h
    have hcoded := Decode.isCoded_main hop
    exact value_coded hcoded h s
  | bitPage =>
    rw [hop, hbyte.bitPage hop] at h
    have hcoded := Decode.isCoded_bit (fetchOpcode s).1
    exact (value_coded hcoded h _).trans hnext
  | extendedPage =>
    rw [hop, hbyte.extendedPage hop] at h
    have hcoded := Decode.isCoded_extended (fetchOpcode s).1
    exact (value_coded hcoded h _).trans hnext
  | indexPage role =>
    rw [hop] at h
    apply value_indexed
    rw [hbyte.indexPage role hop]
    exact h

end Exec

-- ================================================================ steps

variable {μ : Type} [Decoder μ]

namespace Computer

/-- What a maskable entry executes: in mode 0 the opcode that is supplied
with the channel. -/
def supplied (channel : UInt8) (s : Computer μ) :
    List (UInt8 × Computer μ) :=
  let heeded := (Exec.heed channel s).2
  let op := 2 * channel
  match heeded.cpu.regs.im with
  | .im0 =>
    [(op, (Exec.note (.im0Taken channel op heeded.cpu.regs.pc) heeded).2)]
  | .im1 | .im2 => []

/-- The instructions that the next step executes, each as its opcode byte
and the computer that has fetched this byte, or was supplied with it. -/
def executed (s : Computer μ) : List (UInt8 × Computer μ) :=
  let next : UInt8 × Computer μ := Exec.fetchOpcode s
  (if s.cpu.halted then [] else [next]) ++
    match s.interrupt? with
    | some (.maskable channel) => s.atBoundary.supplied channel
    | some .nmi | none => []

/-- The codes of the instructions that the next step executes. -/
def codes (s : Computer μ) : List Code :=
  s.executed.map fun e => Exec.codeOf e.1 e.2

/-- Whether the next step may change a register: it executes one of its
writers, or an interrupt entry sets the register. -/
def Writes (x : Guarded) (s : Computer μ) : Prop :=
  (∃ code ∈ s.codes, x.isWriter code = true)
    ∨ x.isSetOnEntry = true ∧ s.interrupt?.isSome = true

instance (x : Guarded) (s : Computer μ) : Decidable (s.Writes x) :=
  inferInstanceAs (Decidable (_ ∨ _))

end Computer

namespace Exec

theorem value_instruct {x : Guarded} {s : Computer μ}
    (h : s.cpu.halted = false → x.isWriter
      (codeOf (fetchOpcode s).1 (fetchOpcode s).2) = false) :
    x.value (instruct s).2.cpu.regs = x.value s.cpu.regs := by
  have hnext := Spares.value_eq (x := x) (m := fetchOpcode) s
  unfold instruct
  cases hhalted : s.cpu.halted with
  | true => exact Spares.value_eq (m := modifyRegs (·.refresh)) s
  | false => exact (value_opcode (h hhalted)).trans hnext

omit [Decoder μ] in
/-- Leaving the halt moves the program counter, which is not guarded. -/
theorem value_leaveHalt (x : Guarded) (s : Computer μ) :
    x.value (leaveHalt s).2.cpu.regs = x.value s.cpu.regs := by
  show x.value (if s.cpu.halted then _ else s.cpu : Cpu).regs = _
  split
  · exact Guarded.value_of_guarded_eq rfl x
  · rfl

/-- Counting the fetch of an entry and setting the flip-flops touches
what is set on entry alone. -/
theorem value_setOnEntry {x : Guarded} (h : x.isSetOnEntry = false)
    (r : Registers) (iff1 iff2 : Bool) :
    x.value { r.refresh with iff1 := iff1, iff2 := iff2 } = x.value r := by
  rw [← Guarded.value_of_guarded_eq r.guarded_refresh x]
  cases x <;> first | rfl | exact Bool.noConfusion h

/-- A non-maskable entry writes what entries set, and no other guarded
register. -/
theorem value_enterNmi {x : Guarded} (h : x.isSetOnEntry = false)
    (s : Computer μ) :
    x.value (enterNmi s).2.cpu.regs = x.value s.cpu.regs := by
  have hsp : x ≠ .sp := by
    rintro rfl
    exact Bool.noConfusion h
  exact (Guarded.value_of_whole_eq (whole_call hsp _ _)).trans
    ((value_setOnEntry h _ _ _).trans (value_leaveHalt x _))

omit [Decoder μ] in
/-- Heeding a maskable interrupt writes no more than that. -/
theorem value_heed {x : Guarded} (h : x.isSetOnEntry = false)
    (channel : UInt8) (s : Computer μ) :
    x.value (heed channel s).2.cpu.regs = x.value s.cpu.regs :=
  (value_setOnEntry h _ _ _).trans (value_leaveHalt x _)

/-- In mode 0 the opcode that is supplied must leave the register alone as
well. -/
theorem value_enterMaskable {x : Guarded} (h : x.isSetOnEntry = false)
    {channel : UInt8} {s : Computer μ}
    (hspared : ∀ e ∈ s.supplied channel,
      x.isWriter (codeOf e.1 e.2) = false) :
    x.value (enterMaskable channel s).2.cpu.regs = x.value s.cpu.regs := by
  have hsp : x ≠ .sp := by
    rintro rfl
    exact Bool.noConfusion h
  rw [← value_heed h channel s]
  show x.value (vector channel (heed channel s).2).2.cpu.regs = _
  unfold Computer.supplied at hspared
  dsimp only at hspared
  cases him : (heed channel s).2.cpu.regs.im with
  | im0 =>
    rw [him] at hspared
    rw [vector_im0 channel him]
    exact value_opcode (hspared _ (.head _))
  | im1 | im2 =>
    rw [vector, bind_apply]
    dsimp only [regs]
    rw [him]
    exact Guarded.value_of_whole_eq (whole_call hsp _ _)

/-- A step that executes no writer of a register, and takes no interrupt
that sets it, leaves it alone. -/
theorem value_step {x : Guarded} {s : Computer μ} (h : ¬ s.Writes x) :
    x.value (step s).2.cpu.regs = x.value s.cpu.regs := by
  have hspared : ∀ e ∈ s.executed, x.isWriter (codeOf e.1 e.2) = false := by
    intro e he
    refine Bool.eq_false_iff.2 fun hx => h (.inl ⟨_, ?_, hx⟩)
    exact List.mem_map_of_mem he
  have hinstruct : x.value s.atBoundary.cpu.regs = x.value s.cpu.regs := by
    refine value_instruct fun hhalted => hspared _ ?_
    simp [Computer.executed, hhalted]
  cases hentry : s.interrupt? with
  | none =>
    rw [step_of_no_entry hentry]
    exact hinstruct
  | some entry =>
    have hset : x.isSetOnEntry = false := by
      refine Bool.eq_false_iff.2 fun hx => h (.inr ⟨hx, ?_⟩)
      rw [hentry]
      rfl
    rw [step_of_entry hentry, ← hinstruct]
    cases entry with
    | nmi => exact value_enterNmi hset s.atBoundary
    | maskable channel =>
      refine value_enterMaskable hset fun e he => hspared e ?_
      unfold Computer.executed
      rw [hentry]
      exact List.mem_append_right _ he

end Exec

-- ============================================================ exchanges

namespace Registers

/-- AF has changed places with its shadow, and nothing else has changed
but the program counter and R. -/
structure AfExchanged (r r' : Registers) : Prop where
  af : r'.af = r.afAlt
  afAlt : r'.afAlt = r.af
  rest : { r' with
    a := r.a, f := r.f, afAlt := r.afAlt, pc := r.pc, r := r.r } = r

/-- BC, DE and HL have changed places with their shadows. -/
structure SetsExchanged (r r' : Registers) : Prop where
  bc : r'.bc = r.bcAlt
  de : r'.de = r.deAlt
  hl : r'.hl = r.hlAlt
  bcAlt : r'.bcAlt = r.bc
  deAlt : r'.deAlt = r.de
  hlAlt : r'.hlAlt = r.hl
  rest : { r' with
    b := r.b, c := r.c, d := r.d, e := r.e, h := r.h, l := r.l
    bcAlt := r.bcAlt, deAlt := r.deAlt, hlAlt := r.hlAlt
    pc := r.pc, r := r.r } = r

/-- The fetches that came before do not matter to the exchange of AF. -/
theorem afExchanged_exAf (r : Registers) (pc : UInt16) (v : UInt8) :
    r.AfExchanged { r with pc, r := v }.exAf := by
  refine ⟨?_, rfl, rfl⟩
  show word (hiByte r.afAlt) (Flags.ofByte (loByte r.afAlt)).toByte = _
  rw [Flags.toByte_ofByte, word_hiByte_loByte]

theorem setsExchanged_exx (r : Registers) (pc : UInt16) (v : UInt8) :
    r.SetsExchanged { r with pc, r := v }.exx :=
  ⟨word_hiByte_loByte _, word_hiByte_loByte _, word_hiByte_loByte _,
    rfl, rfl, rfl, rfl⟩

end Registers

namespace Exec

/-- A byte that stands for the same instruction in every role of HL is
executed as this one, by itself and after an index byte. -/
theorem opcode_of_isPlain {byte : UInt8} {i : Instruction}
    (hmain : ∀ role, Decode.main role byte = .instruction i)
    {op : UInt8} {s : Computer μ}
    (h : Guarded.isPlain [byte] (codeOf op s) = true) :
    ∃ t pc r, t.cpu.regs = { s.cpu.regs with pc := pc, r := r }
      ∧ (opcode op s).2 = (execute i t).2 := by
  have hcode : codeOf op s = [byte] ∨ codeOf op s = [0xDD, byte]
      ∨ codeOf op s = [0xFD, byte] := by
    simpa [Guarded.isPlain, or_assoc] using h
  -- only an instruction of the main page has a code of one byte
  have hsingle : codeOf op s = [byte] → op = byte := by
    unfold codeOf
    split <;> simp
  have hpair : ∀ lead, codeOf op s = [lead, byte] →
      op = lead ∧ (fetchOpcode s).1 = byte := by
    intro lead
    unfold codeOf
    split <;> simp
  have hindexed : ∀ role, (fetchOpcode s).1 = byte →
      (indexed role s).2 = (execute i (fetchOpcode s).2).2 := by
    intro role hbyte
    unfold indexed
    rw [bind_apply, hbyte, hmain role]
    rfl
  rcases hcode with hcode | hcode | hcode
  · obtain rfl := hsingle hcode
    refine ⟨s, s.cpu.regs.pc, s.cpu.regs.r, rfl, ?_⟩
    unfold opcode
    rw [hmain .hl]
    rfl
  · obtain ⟨rfl, hbyte⟩ := hpair _ hcode
    exact ⟨(fetchOpcode s).2, _, _, rfl, hindexed .ix hbyte⟩
  · obtain ⟨rfl, hbyte⟩ := hpair _ hcode
    exact ⟨(fetchOpcode s).2, _, _, rfl, hindexed .iy hbyte⟩

/-- So it does to the registers what this instruction does, except that
the fetches have moved the program counter and R before. -/
theorem regs_of_isPlain {byte : UInt8} {i : Instruction}
    (hmain : ∀ role, Decode.main role byte = .instruction i)
    {act : Registers → Registers}
    (hact : ∀ t : Computer μ, (execute i t).2.cpu.regs = act t.cpu.regs)
    {R : Registers → Registers → Prop}
    (hR : ∀ (r : Registers) (pc : UInt16) (v : UInt8),
      R r (act { r with pc, r := v }))
    {op : UInt8} {s : Computer μ}
    (h : Guarded.isPlain [byte] (codeOf op s) = true) :
    R s.cpu.regs (opcode op s).2.cpu.regs := by
  obtain ⟨t, pc, v, hregs, heq⟩ := opcode_of_isPlain hmain h
  rw [heq, hact, hregs]
  exact hR s.cpu.regs pc v

/-- Opcode 08 exchanges AF with its shadow, by itself and after an index
byte. -/
theorem afExchanged_opcode {op : UInt8} {s : Computer μ}
    (h : Guarded.isPlain [0x08] (codeOf op s) = true) :
    s.cpu.regs.AfExchanged (opcode op s).2.cpu.regs :=
  regs_of_isPlain (fun role => by cases role <;> rfl) (fun _ => rfl)
    Registers.afExchanged_exAf h

/-- Opcode D9 exchanges the sets, by itself and after an index byte. -/
theorem setsExchanged_opcode {op : UInt8} {s : Computer μ}
    (h : Guarded.isPlain [0xD9] (codeOf op s) = true) :
    s.cpu.regs.SetsExchanged (opcode op s).2.cpu.regs :=
  regs_of_isPlain (fun role => by cases role <;> rfl) (fun _ => rfl)
    Registers.setsExchanged_exx h

end Exec

-- ================================================================= runs

namespace Computer

/-- A step in which a register changes is one that writes it. -/
theorem writes_of_changed {x : Guarded} {s : Computer μ}
    (h : x.value s.step.2.cpu.regs ≠ x.value s.cpu.regs) : s.Writes x :=
  Decidable.byContradiction fun hspared => h (Exec.value_step hspared)

/-- What no step of a run may change is at the end of the run what it was
before. -/
theorem value_run {x : Guarded} {acts : List (Board μ → Board μ)}
    {s : Computer μ}
    (h : ¬ Sometime stepAfter (fun s act => (s.onBoard act).Writes x)
      acts s) :
    x.value (acts.foldl stepAfter s).cpu.regs = x.value s.cpu.regs := by
  refine Decidable.byContradiction fun hchanged => h ?_
  exact Sometime.of_changed (I := fun _ => True) (Q := fun _ => True)
    (f := fun s : Computer μ => x.value s.cpu.regs)
    (fun _ _ _ => trivial) (fun s act _ _ => writes_of_changed)
    (fun _ _ => trivial) trivial hchanged

/-- A guarded register changes only in a step that executes one of its
writers, or takes an interrupt that sets it. The shadow registers take
part in exchanges only. In a run, whatever happens to the board between
the steps, a register stays what it is until such a step comes. -/
theorem guarded_registers :
    (∀ (x : Guarded) (s : Computer μ),
      x.value s.step.2.cpu.regs ≠ x.value s.cpu.regs → s.Writes x)
    ∧ (∀ (op : UInt8) (s : Computer μ),
      Guarded.isPlain [0x08] (Exec.codeOf op s) = true →
        s.cpu.regs.AfExchanged (Exec.opcode op s).2.cpu.regs)
    ∧ (∀ (op : UInt8) (s : Computer μ),
      Guarded.isPlain [0xD9] (Exec.codeOf op s) = true →
        s.cpu.regs.SetsExchanged (Exec.opcode op s).2.cpu.regs)
    ∧ ∀ (x : Guarded) (acts : List (Board μ → Board μ)) (s : Computer μ),
      ¬ Sometime stepAfter (fun s act => (s.onBoard act).Writes x)
        acts s →
      ∀ before, before <+: acts →
        x.value (before.foldl stepAfter s).cpu.regs
          = x.value s.cpu.regs := by
  refine ⟨fun _ _ => writes_of_changed, fun _ _ => Exec.afExchanged_opcode,
    fun _ _ => Exec.setsExchanged_opcode, ?_⟩
  intro x acts s hnone before hle
  exact value_run fun hsome => hnone (hsome.of_prefix hle)

/-- Register I is loaded, which is what the two bytes that are executed
stand for; a non-maskable interrupt then sets the flip-flops and leaves
the interrupt mode alone. -/
theorem guarded_registers_loading :
    let s : Computer Windowed :=
      { holding [0xED, 0x47] with cpu.regs.a := 0x12 }
    let run : List (Board Windowed → Board Windowed) :=
      [id, (·.onLines (·.raiseNmi))]
    s.codes = [[0xED, 0x47]]
      ∧ s.Writes .i
      ∧ (run.foldl stepAfter s).cpu.regs.pc = 0x0066
      ∧ Guarded.im.value (run.foldl stepAfter s).cpu.regs = 2
      ∧ s.cpu.regs.SetsExchanged (Exec.opcode 0xD9 s).2.cpu.regs := by
  intro s run
  have hall := guarded_registers (μ := Windowed)
  have hrun := hall.2.2.2 .im run s (by
    rw [Sometime.cons_iff, Sometime.cons_iff, Sometime.nil_iff]
    decide +kernel) run (List.prefix_refl run)
  exact ⟨by decide +kernel, hall.1 .i s (by decide +kernel),
    by decide +kernel, hrun, hall.2.2.1 0xD9 s (by decide +kernel)⟩

end Computer
end HomeZ80
