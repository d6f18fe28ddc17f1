/-
The bit page after an index byte. The byte that the displaced index
register points at, and the flags, become what the plain operation with
the byte at HL would make of them if HL held the address
(`bits_pinned`). A new value goes to a register as well, the one that
the last three bits of the operation name, and is the same value there,
even where the write to memory fails (`bits_copy`).

Together with the main page this is the law of the displaced operands
for whole instructions, from the index byte on
(`displaced_like_plain`).
-/
import HomeZ80.Proofs.Cpu.Displaced

namespace HomeZ80

/-- The byte that an operation of the bit page writes back. A test
writes none. -/
def BitOp.written (v : UInt8) (carry : Bool) : BitOp → Option UInt8
  | .rotate op => some (Alu.rotateShift op v carry).1
  | .test _ => none
  | .reset n => some (Alu.resetBit n v)
  | .set n => some (Alu.setBit n v)

/-- Of the operations on bits a test writes nothing back. -/
theorem BitOp.written_eq_none_iff (v : UInt8) (carry : Bool)
    (op : BitOp) :
    op.written v carry = none ↔ ∃ n, op = .test n := by
  cases op <;> simp [written]

namespace Exec

variable {μ : Type} [Decoder μ]

-- ==================================================== bytes in memory

/-- An operation on a byte in memory reads it, and writes the result
back if there is one. -/
theorem bits_board (op : BitOp) (addr : UInt16) (s : Computer μ) :
    (bits op (.cell addr) none s).2.board =
      match op.written (s.board.valueAt addr) s.cpu.regs.f.c with
      | some v => (s.board.afterRead addr).poke addr v
      | none => s.board.afterRead addr := by
  cases op <;> rfl

/-- Of the CPU it changes the flags and nothing else. -/
theorem bits_cpu (op : BitOp) (addr : UInt16) (s : Computer μ) :
    (bits op (.cell addr) none s).2.cpu =
      { s.cpu with regs.f :=
          (bits op (.cell addr) none s).2.cpu.regs.f } := by
  cases op <;> rfl

/-- With a register to copy to, the byte written goes there as well. -/
theorem bits_copy (op : BitOp) (addr : UInt16) (copy : Option Reg8)
    (s : Computer μ) :
    (bits op (.cell addr) copy s).2 =
      match op.written (s.board.valueAt addr) s.cpu.regs.f.c, copy with
      | some v, some name =>
        (set8 name v (bits op (.cell addr) none s).2).2
      | _, _ => (bits op (.cell addr) none s).2 := by
  cases op <;> cases copy <;> rfl

/-- What HL holds does not matter to an operation whose address is
settled. -/
theorem bits_pinned (op : BitOp) (addr v : UInt16) (s : Computer μ) :
    (bits op (.cell addr) none (s.withHl v)).2
      = (bits op (.cell addr) none s).2.withHl v := by
  have h : Rewired (.pinned v) (bits (μ := μ) op (.cell addr) none)
      (bits op (.cell addr) none) := inferInstance
  exact congrArg Prod.snd (h.eq s)

end Exec

-- ============================================================== decoding

namespace Decode

/-- The byte of the bit page with the same operation on the byte at
HL. -/
def atHl (op : UInt8) : UInt8 := op - op % 8 + 6

theorem bit_atHl (op : UInt8) :
    bit (atHl op) = .bits (bitOp op) (.mem .hl) := by
  obtain ⟨⟨v⟩⟩ := op
  revert v
  decide +kernel

/-- Tests fill the second quarter of the bit page. -/
theorem bitOp_eq_test_iff (op : UInt8) :
    (∃ n, bitOp op = .test n) ↔ op.toNat / 64 = 1 := by
  unfold bitOp
  dsimp only
  split
  · next h => simp [h]
  · next h => simp [h]
  · next h => simp [h]
  · next _ hne _ =>
    simp only [reduceCtorEq, exists_false, false_iff]
    exact hne

/-- A three-bit field names a register of the main set. -/
theorem register?_main {field : Nat} {name : Reg8}
    (h : register? field = some name) :
    name ∈ [Reg8.a, .b, .c, .d, .e, .h, .l] := by
  unfold register? operand at h
  split at h
  · next heq =>
    split at heq <;> cases heq <;> cases h <;> decide
  · cases h

end Decode

namespace Exec

variable {μ : Type} [Decoder μ]

/-- So the plain instruction is the operation on that byte, without a
copy. -/
theorem execute_atHl (op : UInt8) (s : Computer μ) :
    (execute (Decode.bit (Decode.atHl op)) s).2
      = (bits (Decode.bitOp op) (.cell s.cpu.regs.hl) none s).2 := by
  rw [Decode.bit_atHl]
  rfl

/-- What an operation of the bit page costs after an index byte. -/
theorem bitPageCost (op : UInt8) :
    (8 + match Decode.bitOp op with
      | .test _ => 12
      | _ => 15) = if op.toNat / 64 = 1 then 20 else 23 := by
  by_cases h : op.toNat / 64 = 1
  · obtain ⟨n, hn⟩ := (Decode.bitOp_eq_test_iff op).2 h
    rw [hn, if_pos h]
    rfl
  · rw [if_neg h]
    split
    · next n hn =>
      exact absurd ((Decode.bitOp_eq_test_iff op).1 ⟨n, hn⟩) h
    · rfl

/-- The bit page after an index byte: the displacement comes first, then
the operation, which is not fetched as an opcode. -/
theorem indexed_bitPage (role : Role) {s : Computer μ}
    (h : (fetchOpcode s).1 = 0xCB) :
    indexed role s =
      let d := fetchByte (fetchOpcode s).2
      let addr := displace (s.cpu.regs.get16 role.pair) d.1
      let o := fetchByte d.2
      (if o.1.toNat / 64 = 1 then 20 else 23,
        (bits (Decode.bitOp o.1) (.cell addr)
          (Decode.register? (o.1.toNat % 8)) o.2).2) := by
  have hpage : Decode.main role (fetchOpcode s).1 = .bitPage := by
    rw [h]
    cases role <;> rfl
  rw [indexed, bind_apply]
  dsimp only
  rw [hpage, ← pair_fetchOpcode role s]
  apply Prod.ext
  · exact bitPageCost _
  · rfl

/-- How an operation of the bit page behaves after an index byte.
Displacement and operation were fetched, `s` is the computer then and
`addr` the displaced address; `run` is what comes of the
instruction. The plain operation is the one on the byte at HL, with the
address in HL. -/
structure LikePlainBits (op : UInt8) (addr : UInt16) (s : Computer μ)
    (run : Nat × Computer μ) : Prop where
  board : run.2.board =
    (execute (Decode.bit (Decode.atHl op)) (s.withHl addr)).2.board
  flags : run.2.cpu.regs.f =
    (execute (Decode.bit (Decode.atHl op)) (s.withHl addr)).2.cpu.regs.f
  /-- A test shows bits 5 and 3 of the high byte of the address, and
  changes nothing but the flags. -/
  test : op.toNat / 64 = 1 →
    run.2.cpu.regs.f.y = bitOf (hiByte addr) 5
      ∧ run.2.cpu.regs.f.x = bitOf (hiByte addr) 3
      ∧ run.2.cpu = { s.cpu with regs.f := run.2.cpu.regs.f }
  /-- Any other operation writes a byte to memory, and the same byte to
  the register that its last three bits name. -/
  write : op.toNat / 64 ≠ 1 →
    ∃ v, (Decode.bitOp op).written (s.board.valueAt addr)
          s.cpu.regs.f.c = some v
      ∧ run.2.board = (s.board.afterRead addr).poke addr v
      ∧ run.2.cpu =
        let r := { s.cpu.regs with f := run.2.cpu.regs.f }
        { s.cpu with regs :=
            match Decode.register? (op.toNat % 8) with
            | some name => r.set8 name v
            | none => r }
  cost : run.1 = if op.toNat / 64 = 1 then 20 else 23
  r : run.2.cpu.regs.r = s.cpu.regs.r
  pc : run.2.cpu.regs.pc = s.cpu.regs.pc

/-- A register of the main set is neither a flag nor a counter. -/
theorem set8_main {name : Reg8}
    (h : name ∈ [Reg8.a, .b, .c, .d, .e, .h, .l]) (v : UInt8)
    (r : Registers) :
    (r.set8 name v).f = r.f ∧ (r.set8 name v).r = r.r
      ∧ (r.set8 name v).pc = r.pc := by
  cases name with
  | f | i | r | ixh | ixl | iyh | iyl => simp at h
  | _ => exact ⟨rfl, rfl, rfl⟩

/-- What a copy leaves: the board, the flags and the counters are those
without the copy. -/
theorem bits_copy_frame (op : BitOp) (addr : UInt16) (field : Nat)
    (s : Computer μ) :
    let t := (bits op (.cell addr) (Decode.register? field) s).2
    let base := (bits op (.cell addr) none s).2
    t.board = base.board ∧ t.cpu.regs.f = base.cpu.regs.f
      ∧ t.cpu.regs.r = base.cpu.regs.r
      ∧ t.cpu.regs.pc = base.cpu.regs.pc := by
  dsimp only
  rw [bits_copy]
  split
  · next v name _ hname =>
    obtain ⟨hf, hr, hpc⟩ := set8_main (Decode.register?_main hname) v
      (bits op (.cell addr) none s).2.cpu.regs
    exact ⟨rfl, hf, hr, hpc⟩
  · exact ⟨rfl, rfl, rfl, rfl⟩

/-- The displaced operation is the plain one on its byte, with a copy in a
register. -/
theorem likePlainBits_bits (op : UInt8) (addr : UInt16)
    (s : Computer μ) :
    LikePlainBits op addr s
      (if op.toNat / 64 = 1 then 20 else 23,
        (bits (Decode.bitOp op) (.cell addr)
          (Decode.register? (op.toNat % 8)) s).2) := by
  obtain ⟨hboard, hf, hr, hpc⟩ :=
    bits_copy_frame (Decode.bitOp op) addr (op.toNat % 8) s
  have hcpu := bits_cpu (Decode.bitOp op) addr s
  have hplain : (execute (Decode.bit (Decode.atHl op)) (s.withHl addr)).2
      = (bits (Decode.bitOp op) (.cell addr) none s).2.withHl addr := by
    rw [execute_atHl, Computer.hl_withHl, bits_pinned]
  refine
    { board := ?_, flags := ?_, test := fun htest => ?_,
      write := fun hwrite => ?_, cost := rfl, r := ?_, pc := ?_ }
  · rw [hplain]
    exact hboard
  · rw [hplain]
    exact hf
  · obtain ⟨n, hn⟩ := (Decode.bitOp_eq_test_iff op).2 htest
    dsimp only
    rw [hn]
    exact ⟨rfl, rfl, rfl⟩
  · have hsome : (Decode.bitOp op).written (s.board.valueAt addr)
        s.cpu.regs.f.c ≠ none := fun hnone =>
      hwrite ((Decode.bitOp_eq_test_iff op).1
        ((BitOp.written_eq_none_iff _ _ _).1 hnone))
    obtain ⟨v, hv⟩ := Option.ne_none_iff_exists'.1 hsome
    refine ⟨v, hv, ?_, ?_⟩
    · show Computer.board _ = _
      rw [hboard, bits_board, hv]
    · dsimp only
      rw [hf, bits_copy, hv]
      cases Decode.register? (op.toNat % 8) with
      | none => exact hcpu
      | some name =>
        exact congrArg
          (fun c : Cpu => { c with regs := c.regs.set8 name v }) hcpu
  · exact hr.trans (by rw [hcpu])
  · exact hpc.trans (by rw [hcpu])

/-- It is reached through an index byte, CB and a displacement. -/
theorem likePlainBits_indexed (role : Role) {s : Computer μ}
    (h : (fetchOpcode s).1 = 0xCB) :
    let d := fetchByte (fetchOpcode s).2
    let o := fetchByte d.2
    LikePlainBits o.1 (displace (s.cpu.regs.get16 role.pair) d.1) o.2
      (indexed role s) := by
  dsimp only
  rw [indexed_bitPage role h]
  exact likePlainBits_bits _ _ _

-- ==================================================== whole instructions

/-- Only an index register takes the part of HL. -/
theorem role_ne_hl {role : Role} {op : UInt8}
    (h : Decode.main .hl op = .indexPage role) : role ≠ .hl := by
  have hnever : ∀ op, Decode.main .hl op ≠ .indexPage .hl := by
    rintro ⟨⟨v⟩⟩
    revert v
    decide +kernel
  rintro rfl
  exact hnever op h

/-- An index byte is fetched as an opcode and leads to the next one. -/
theorem fetch_index {role : Role} {s : Computer μ}
    (h : Decode.main .hl (fetchOpcode s).1 = .indexPage role) :
    (do opcode (← fetchOpcode) : Exec μ Nat) s
      = indexed role (fetchOpcode s).2 := by
  show opcode (fetchOpcode s).1 (fetchOpcode s).2 = _
  unfold opcode
  rw [h]

/-- A byte of code moves the program counter. -/
theorem cpu_fetchByte (s : Computer μ) :
    (fetchByte s).2.cpu
      = { s.cpu with regs.pc := s.cpu.regs.pc + 1 } := rfl

/-- An opcode byte is counted as well. -/
theorem cpu_fetchOpcode (s : Computer μ) :
    (fetchOpcode s).2.cpu =
      { s.cpu with regs :=
          { s.cpu.regs.refresh with pc := s.cpu.regs.pc + 1 } } := rfl

/-- The CPU after an index byte, an opcode and a displacement. Only the
first two count as opcode fetches. -/
theorem cpu_displacement (s : Computer μ) :
    (fetchByte (fetchOpcode (fetchOpcode s).2).2).2.cpu =
      { s.cpu with regs :=
          { s.cpu.regs.refresh.refresh with
            pc := s.cpu.regs.pc + 3 } } := by
  have hpc : s.cpu.regs.pc + 1 + 1 + 1 = s.cpu.regs.pc + 3 := by
    rw [UInt16.add_assoc, UInt16.add_assoc]
    rfl
  rw [cpu_fetchByte, cpu_fetchOpcode, cpu_fetchOpcode, ← hpc]
  rfl

/-- Of the four bytes of such an operation the first two are counted. -/
theorem cpu_operation (s : Computer μ) :
    (fetchByte (fetchByte (fetchOpcode (fetchOpcode s).2).2).2).2.cpu =
      { s.cpu with regs :=
          { s.cpu.regs.refresh.refresh with
            pc := s.cpu.regs.pc + 4 } } := by
  have hpc : s.cpu.regs.pc + 3 + 1 = s.cpu.regs.pc + 4 := by
    rw [UInt16.add_assoc]
    rfl
  rw [cpu_fetchByte, cpu_displacement, ← hpc]

/-- A whole instruction that begins with an index byte and has its
operand in memory. The operand is at the index register moved by the
signed displacement, modulo 65536; on the main page and on the bit page
the instruction does there what the plain one does at HL; and the
program counter moves past all its bytes, of which two count for the
refresh register. -/
theorem displaced_like_plain {role : Role} {s : Computer μ}
    (hlead : Decode.main .hl (fetchOpcode s).1 = .indexPage role) :
    let run := (do opcode (← fetchOpcode) : Exec μ Nat) s
    let op := fetchOpcode (fetchOpcode s).2
    let d := fetchByte op.2
    let o := fetchByte d.2
    let x := s.cpu.regs.get16 role.pair
    let addr := displace x d.1
    let r := s.cpu.regs.refresh.refresh
    (addr.toNat : Int) = (x.toNat + d.1.toInt8.toInt) % 65536
      ∧ d.2.cpu = { s.cpu with regs := { r with pc := s.cpu.regs.pc + 3 } }
      ∧ o.2.cpu = { s.cpu with regs := { r with pc := s.cpu.regs.pc + 4 } }
      ∧ (op.1 ∈ Decode.memoryBytes → LikePlain op.1 addr d.2 run)
      ∧ (op.1 = 0xCB → LikePlainBits o.1 addr o.2 run) := by
  have hpair := pair_fetchOpcode role s
  dsimp only
  rw [fetch_index hlead, ← hpair]
  refine ⟨toNat_displace _ _, cpu_displacement s, cpu_operation s,
    fun hop => ?_, fun hop => ?_⟩
  · exact likePlain_indexed (role_ne_hl hlead) hop
  · exact likePlainBits_indexed role hop

/-- Increment of the byte at IX plus 3, and a rotate of the byte at IY
plus 4 that is copied to B. -/
theorem displaced_like_plain_inc_rlc :
    let s := Computer.holding [0xDD, 0x34, 0x03, 0x7F]
    let d := fetchByte (fetchOpcode (fetchOpcode s).2).2
    let s' := Computer.holding [0xFD, 0xCB, 0x04, 0x00, 0x81]
    let d' := fetchByte (fetchOpcode (fetchOpcode s').2).2
    LikePlain 0x34 (displace s.cpu.regs.ix d.1) d.2
        ((do opcode (← fetchOpcode) : Exec Windowed Nat) s)
      ∧ LikePlainBits 0x00 (displace s'.cpu.regs.iy d'.1)
        (fetchByte d'.2).2
        ((do opcode (← fetchOpcode) : Exec Windowed Nat) s') := by
  obtain ⟨-, -, -, hmemory, -⟩ := displaced_like_plain
    (show Decode.main .hl
      (fetchOpcode (Computer.holding [0xDD, 0x34, 0x03, 0x7F])).1
        = .indexPage .ix from rfl)
  obtain ⟨-, -, -, -, hbits⟩ := displaced_like_plain
    (show Decode.main .hl
      (fetchOpcode
        (Computer.holding [0xFD, 0xCB, 0x04, 0x00, 0x81])).1
        = .indexPage .iy from rfl)
  exact ⟨hmemory (by decide), hbits rfl⟩

end Exec
end HomeZ80
