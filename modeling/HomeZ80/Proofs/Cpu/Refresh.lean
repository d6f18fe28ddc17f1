/-
The refresh register counts the opcode bytes that are fetched, in its low
seven bits. An opcode byte leads to one more such fetch or to none
(`Exec.furtherFetches`); operands are not counted, nor is the operation
that follows a displacement, and the opcode after an index byte that is
left for the next step is counted there.

What an instruction does once its opcode bytes are there leaves the
register alone, but for the one instruction that loads it. So after an
instruction it has moved by the number of fetches (`Exec.r_opcode`).
-/
import HomeZ80.Proofs.Cpu.Fetch
import HomeZ80.Proofs.Cpu.Writers
import Mathlib.Logic.Function.Iterate

namespace HomeZ80

variable {μ : Type}

-- ============================================================ the counter

/-- The highest bit stays, and the others count modulo 128. -/
theorem toNat_refreshed_iterate (n : Nat) (v : UInt8) :
    (refreshed^[n] v).toNat
      = 128 * (v.toNat / 128) + (v.toNat + n) % 128 := by
  induction n with
  | zero =>
    show v.toNat = _
    omega
  | succ n ih =>
    rw [Function.iterate_succ_apply', toNat_refreshed, ih]
    omega

/-- A fetch that is taken back is not counted. -/
theorem Registers.unrefresh_refresh (r : Registers) :
    r.refresh.unrefresh = r := by
  have hback : ∀ v : UInt8,
      (if refreshed v % 128 = 0 then refreshed v + 127
        else refreshed v - 1) = v := by
    rintro ⟨⟨v⟩⟩
    revert v
    decide +kernel
  show { r with r := _ } = r
  rw [show (if r.refresh.r % 128 = 0 then r.refresh.r + 127
    else r.refresh.r - 1) = r.r from hback r.r]

-- ============================================================= decoding

/-- Whether what a byte stands for is carried out after an index byte. -/
def Opcode.isWhole : Opcode → Bool
  | .instruction _ | .bitPage => true
  | .extendedPage | .indexPage _ => false

namespace Decode

/-- The bytes that put an index register in the part of HL. -/
def isIndexByte (op : UInt8) : Bool := op == 0xDD || op == 0xFD

/-- The bytes that are left for the next step when they follow an index
byte. -/
def isLeft (op : UInt8) : Bool := isIndexByte op || op == 0xED

/-- An index byte after another is left. -/
theorem isLeft_of_isIndexByte {op : UInt8} (h : isIndexByte op = true) :
    isLeft op = true := by
  unfold isLeft
  rw [h]
  rfl

theorem isLeft_ne {op : UInt8} (h : isLeft op = true) : op ≠ 255 := by
  rintro rfl
  exact absurd h (by decide)

/-- The role that an index byte puts a register in. -/
def roleOf (op : UInt8) : Role := if op == 0xDD then .ix else .iy

/-- An index byte leads to the page of its role. -/
theorem main_indexByte {op : UInt8} (h : isIndexByte op = true) :
    main .hl op = .indexPage (roleOf op) := by
  have hop : op = 0xDD ∨ op = 0xFD := by
    simpa [isIndexByte] using h
  rcases hop with rfl | rfl <;> rfl

theorem isIndexByte_of_main {op : UInt8} {role : Role}
    (h : main .hl op = .indexPage role) : isIndexByte op = true := by
  have hcode := (leadsOn op).indexPage role h
  unfold isIndexByte
  cases role with
  | hl => cases hcode
  | ix | iy =>
    rw [← (List.cons.inj hcode).1]
    rfl

/-- Behind an index byte everything is carried out that is not left. -/
theorem isWhole_main (role : Role) (op : UInt8) :
    (main role op).isWhole = !isLeft op := by
  obtain ⟨⟨v⟩⟩ := op
  revert v
  cases role <;> decide +kernel

end Decode

-- ============================================================== fetches

namespace Exec

variable [Decoder μ]

/-- The opcode fetches that follow that of an opcode byte. -/
def furtherFetches (op : UInt8) (s : Computer μ) : Nat :=
  match Decode.main .hl op with
  | .instruction _ => 0
  | .bitPage | .extendedPage => 1
  | .indexPage _ => if Decode.isLeft (fetchOpcode s).1 then 0 else 1

/-- Only one code loads the register. -/
theorem r_coded {code : Code} {i : Instruction}
    (hcoded : i.isCoded code = true) (h : code ≠ [0xED, 0x4F])
    (s : Computer μ) : (execute i s).2.cpu.regs.r = s.cpu.regs.r :=
  r_execute (Instruction.changes_of_isCoded hcoded (by
    simpa [Guarded.isWriter] using h)) s

/-- An opcode that is left is not counted, since it will be fetched
anew. -/
theorem r_indexed {role : Role} {s : Computer μ}
    (h : role.code ++ [(fetchOpcode s).1] ≠ [0xED, 0x4F]) :
    (indexed role s).2.cpu.regs.r
      = if Decode.isLeft (fetchOpcode s).1 then s.cpu.regs.r
        else refreshed s.cpu.regs.r := by
  have hwhole := Decode.isWhole_main role (fetchOpcode s).1
  unfold indexed
  rw [bind_apply]
  cases hop : Decode.main role (fetchOpcode s).1 with
  | instruction i =>
    rw [hop, Opcode.isWhole, Bool.true_eq, Bool.not_eq_true'] at hwhole
    rw [hwhole, if_neg Bool.false_ne_true]
    exact r_coded (Decode.isCoded_main hop) h _
  | bitPage =>
    rw [hop, Opcode.isWhole, Bool.true_eq, Bool.not_eq_true'] at hwhole
    rw [hwhole, if_neg Bool.false_ne_true]
    exact UInt8.toNat_inj.1 (whole_indexedBits .r7 role _)
  | extendedPage | indexPage other =>
    rw [hop, Opcode.isWhole, Bool.false_eq, Bool.not_eq_false'] at hwhole
    rw [hwhole, if_pos rfl]
    show s.cpu.regs.refresh.unrefresh.r = s.cpu.regs.r
    rw [Registers.unrefresh_refresh]

/-- An instruction moves the counter by its fetches, unless it loads
it. -/
theorem r_opcode {op : UInt8} {s : Computer μ}
    (h : codeOf op s ≠ [0xED, 0x4F]) :
    (opcode op s).2.cpu.regs.r
      = refreshed^[furtherFetches op s] s.cpu.regs.r := by
  have hbyte := Decode.leadsOn op
  unfold codeOf at h
  unfold opcode furtherFetches
  cases hop : Decode.main .hl op with
  | instruction i =>
    rw [hop] at h
    exact r_coded (Decode.isCoded_main hop) h s
  | bitPage =>
    rw [hop, hbyte.bitPage hop] at h
    exact r_coded (Decode.isCoded_bit _) h _
  | extendedPage =>
    rw [hop, hbyte.extendedPage hop] at h
    exact r_coded (Decode.isCoded_extended _) h _
  | indexPage role =>
    rw [hop] at h
    have hcode : role.code ++ [(fetchOpcode s).1] ≠ [0xED, 0x4F] := by
      rw [hbyte.indexPage role hop]
      exact h
    dsimp only
    rw [r_indexed hcode]
    split <;> rfl

/-- The next opcode byte is fetched, and what it stands for is carried
out. -/
def next : Exec μ Nat := do opcode (← fetchOpcode)

/-- A CPU that is not halted goes to its next opcode. -/
theorem instruct_of_running {s : Computer μ}
    (h : s.cpu.halted = false) : instruct s = next s := by
  unfold instruct
  rw [h]
  rfl

/-- With idle lines this is what a step does to it, the fetch of the
opcode byte included. -/
theorem r_step {s : Computer μ} (hidle : s.board.Idle)
    (hrunning : s.cpu.halted = false)
    (h : codeOf (fetchOpcode s).1 (fetchOpcode s).2 ≠ [0xED, 0x4F]) :
    s.step.2.cpu.regs.r
      = refreshed^[furtherFetches (fetchOpcode s).1 (fetchOpcode s).2 + 1]
        s.cpu.regs.r := by
  have hstep : s.step = _ := step_of_idle hidle
  rw [hstep]
  show (instruct s).2.cpu.regs.r = _
  rw [instruct_of_running hrunning]
  exact r_opcode h

end Exec
end HomeZ80
