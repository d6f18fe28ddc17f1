/-
Opcodes that stand for nothing. They are on the extended page only, and
there they are scattered over most of the table
(`Decode.undefinedRanges`). Such an opcode is counted and does nothing
else: both of its bytes are fetched, and that is all
(`Exec.countedNop_of_meets`).

Whether a step counts one can be told from the two bytes at the program
counter (`Computer.MeetsUndefined`), and nothing else ever counts: no
other opcode of any page, no index byte, and no interrupt entry, not even
one that is supplied with an opcode, since that opcode is never the byte
that leads to the extended page (`Exec.undefinedCount_step`). So a run
counts the steps of this kind that it makes
(`Computer.undefinedCount_run`), and what the loops do to the CPU is a
number of steps (`Computer.cpu_stepN`, `Computer.cpu_run`).

A fetch may fail. The byte that is found where nothing can be read is one
of those that stand for nothing, so an opcode of this kind may leave a
fault in the latch.
-/
import HomeZ80.Proofs.Cpu.Aside
import HomeZ80.Proofs.Cpu.FirstFault

namespace HomeZ80

-- ============================================================== decoding

/-- Kinds of instructions of the main page that are not in one row of the
table. -/
inductive Instruction.Family where
  | directLoad
  | exchange
  | accumulator
  deriving DecidableEq, Repr

namespace Instruction

def family? : Instruction → Option Family
  | .storeDirect _ | .loadDirect _ | .storeADirect | .loadADirect =>
    some .directLoad
  | .exAf | .exx | .exDeHl | .exStack _ => some .exchange
  | .daa | .cpl | .scf | .ccf => some .accumulator
  | _ => none

/-- The opcode bytes of a kind. -/
def Family.bytes : Family → List UInt8
  | .directLoad => [0x22, 0x2A, 0x32, 0x3A]
  | .exchange => [0x08, 0xD9, 0xEB, 0xE3]
  | .accumulator => [0x27, 0x2F, 0x37, 0x3F]

end Instruction

namespace Decode

/-- Where the bytes of the extended page that stand for nothing are. -/
def undefinedRanges : List (UInt8 × UInt8) :=
  [(0x00, 0x3F), (0x77, 0x77), (0x7F, 0x7F), (0x80, 0x9F), (0xA4, 0xA7),
    (0xAC, 0xAF), (0xB4, 0xB7), (0xBC, 0xBF), (0xC0, 0xFF)]

def isUndefined (op : UInt8) : Bool :=
  undefinedRanges.any fun (first, last) => first ≤ op && op ≤ last

/-- What is in these ranges stands for nothing. -/
theorem extended_of_isUndefined {op : UInt8} (h : isUndefined op = true) :
    extended op = .undefined op := by
  have hall : isUndefined op = true → extended op = .undefined op := by
    obtain ⟨⟨v⟩⟩ := op
    revert v
    decide +kernel
  exact hall h

/-- And nothing else on the extended page does. -/
theorem isUndefined_extended (op : UInt8) :
    (extended op).isUndefined = isUndefined op := by
  obtain ⟨⟨v⟩⟩ := op
  revert v
  decide +kernel

/-- What a byte of the main page is, whatever is in the part of HL: one of
the four that lead on, or an instruction, which is never undefined and of
a kind that its byte is listed for. -/
structure Settled (role : Role) (op : UInt8) : Prop where
  bitPage : main role op = .bitPage ↔ op = 0xCB
  extendedPage : main role op = .extendedPage ↔ op = 0xED
  indexPage (other : Role) : main role op = .indexPage other
    ↔ op = 0xDD ∧ other = .ix ∨ op = 0xFD ∧ other = .iy
  instruction (i : Instruction) (h : main role op = .instruction i) :
    i.isUndefined = false
      ∧ ∀ family, i.family? = some family ↔ op ∈ family.bytes

/-- Every byte is what it is listed as, in all three roles. -/
theorem settled (role : Role) (op : UInt8) : Settled role op := by
  have hleads : (main role op = .bitPage ↔ op = 0xCB)
      ∧ (main role op = .extendedPage ↔ op = 0xED)
      ∧ ∀ other ∈ [Role.hl, .ix, .iy], main role op = .indexPage other
        ↔ op = 0xDD ∧ other = .ix ∨ op = 0xFD ∧ other = .iy := by
    obtain ⟨⟨v⟩⟩ := op
    revert v
    cases role <;> decide +kernel
  have hkinds : ∀ i ∈ (main role op).instruction?,
      i.isUndefined = false
        ∧ ∀ family ∈ [Instruction.Family.directLoad, .exchange,
          .accumulator], i.family? = some family ↔ op ∈ family.bytes := by
    clear hleads
    obtain ⟨⟨v⟩⟩ := op
    revert v
    cases role <;> decide +kernel
  refine ⟨hleads.1, hleads.2.1, fun other => hleads.2.2 other ?_,
    fun i hi => ?_⟩
  · cases other <;> decide
  · rw [hi] at hkinds
    obtain ⟨hdefined, hfamily⟩ := hkinds i rfl
    refine ⟨hdefined, fun family => hfamily family ?_⟩
    cases family <;> decide

end Decode

-- ============================================================= the count

/-- The count depends on neither the registers nor the halt. -/
theorem Cpu.aside_undefinedCount : Aside Cpu.undefinedCount where
  apart _ := rfl
  halted _ _ := rfl

/-- One instruction counts. -/
theorem Instruction.undefinedCount_mark (i : Instruction) (c : Cpu) :
    (i.mark c).undefinedCount
      = c.undefinedCount + if i.isUndefined then 1 else 0 := by
  cases i <;> rfl

variable {μ : Type}

namespace Exec

variable [Decoder μ]

/-- Only what the extended page holds may be undefined. -/
theorem isUndefined_decoded {op : UInt8} {s : Computer μ}
    {i : Instruction} (h : decoded? op s = some i) :
    i.isUndefined
      = (op == 0xED && Decode.isUndefined (fetchOpcode s).1) := by
  have hop := Decode.settled .hl op
  unfold decoded? at h
  cases hmain : Decode.main .hl op with
  | instruction j =>
    rw [hmain] at h
    obtain rfl := Option.some.inj h
    have hne : op ≠ 0xED := fun heq => by
      rw [hop.extendedPage.2 heq] at hmain
      cases hmain
    rw [(hop.instruction j hmain).1, beq_false_of_ne hne, Bool.false_and]
  | bitPage =>
    rw [hmain] at h
    obtain rfl := Option.some.inj h
    obtain rfl := hop.bitPage.1 hmain
    rfl
  | extendedPage =>
    rw [hmain] at h
    obtain rfl := Option.some.inj h
    obtain rfl := hop.extendedPage.1 hmain
    exact Decode.isUndefined_extended _
  | indexPage role =>
    rw [hmain] at h
    dsimp only at h
    have hne : op ≠ 0xED := fun heq => by
      rw [hop.extendedPage.2 heq] at hmain
      cases hmain
    rw [beq_false_of_ne hne, Bool.false_and]
    cases hindexed : Decode.main role (fetchOpcode s).1 with
    | instruction j =>
      rw [hindexed] at h
      obtain rfl := Option.some.inj h
      exact ((Decode.settled role _).instruction j hindexed).1
    | bitPage | extendedPage | indexPage other =>
      rw [hindexed] at h
      cases h

/-- What an opcode counts, of whatever page it is. -/
theorem undefinedCount_opcode (op : UInt8) (s : Computer μ) :
    (opcode op s).2.cpu.undefinedCount = s.cpu.undefinedCount
      + if op == 0xED && Decode.isUndefined (fetchOpcode s).1 then 1
        else 0 := by
  rw [Cpu.aside_undefinedCount.opcode]
  cases hi : decoded? op s with
  | none =>
    have hne : op ≠ 0xED := by
      rintro rfl
      cases hi
    rw [beq_false_of_ne hne, Bool.false_and]
    rfl
  | some i =>
    rw [← isUndefined_decoded hi]
    exact i.undefinedCount_mark s.cpu

end Exec

-- ============================================================== counting

/-- The board after a read of an address, but for the log: it has to
report if nothing can be read there. -/
def Board.reporting [Decoder μ] (addr : UInt16) (b : Board μ) : Board μ :=
  match b.failureAt addr with
  | none => b
  | some fault => b.raise fault

/-- A read is told by what it reports. -/
theorem Board.SameButLog.reporting [Decoder μ] (addr : UInt16)
    (b : Board μ) : (b.reporting addr).SameButLog (b.afterRead addr) := by
  have hremarked : b.SameButLog (b.remarked .read addr) :=
    quiet_remarked .read addr b
  unfold Board.reporting Board.afterRead
  cases b.failureAt addr with
  | none => exact hremarked
  | some fault => exact hremarked.raise fault

variable [Decoder μ]

namespace Computer

/-- The next step executes an opcode that stands for nothing. -/
structure MeetsUndefined (s : Computer μ) : Prop where
  running : s.cpu.halted = false
  lead : s.codeByte 0 = 0xED
  op : Decode.isUndefined (s.codeByte 1) = true

instance (s : Computer μ) : Decidable s.MeetsUndefined :=
  decidable_of_iff (s.cpu.halted = false
      ∧ s.codeByte 0 = 0xED ∧ Decode.isUndefined (s.codeByte 1) = true)
    ⟨fun h => ⟨h.1, h.2.1, h.2.2⟩, fun h => ⟨h.running, h.lead, h.op⟩⟩

end Computer

namespace Exec

/-- An opcode that is counted and otherwise does nothing. What the step
comes to is told up to the boundary; an interrupt that is taken there is
taken as it would be after any instruction. -/
structure CountedNop (s : Computer μ) : Prop where
  refresh : Counted 2 s.cpu.regs.r (refreshed^[2] s.cpu.regs.r)
  cpu : s.atBoundary.cpu = { s.cpu with
    regs := s.cpu.regs.fetched (s.cpu.regs.pc + 2)
      (refreshed^[2] s.cpu.regs.r)
    eiDelay := false
    undefinedCount := s.cpu.undefinedCount + 1 }
  board : (s.board.reporting (s.cpu.regs.pc + 1)).SameButLog
    s.atBoundary.board
  alone (h : s.interrupt? = none) :
    s.step = (8, { s.atBoundary with cpu.cost := s.cpu.cost + 8 })
  entry (entry : Entry) (h : s.interrupt? = some entry) :
    s.step =
      let t := enter entry s.atBoundary
      (8 + t.1, { t.2 with cpu.cost := t.2.cpu.cost + (8 + t.1) })

/-- The extended page has two opcode fetches. -/
theorem opcode_extended (s : Computer μ) :
    opcode 0xED s =
      let next := fetchOpcode s
      let done := execute (Decode.extended next.1) next.2
      (8 + done.1, done.2) := rfl

/-- What stands for nothing is counted and noted. -/
theorem execute_undefined (op : UInt8) (s : Computer μ) :
    execute (.undefined op) s =
      (0, { s with
        cpu.undefinedCount := s.cpu.undefinedCount + 1
        board := s.board.note
          [.undefinedOpcode op (s.cpu.regs.pc - 2)] }) := rfl

/-- A fetch reads the byte at the program counter, moves past it and
counts. -/
theorem fetchOpcode_snd (s : Computer μ) :
    (fetchOpcode s).2 =
      { s with
        cpu.regs := s.cpu.regs.fetched (s.cpu.regs.pc + 1)
          (refreshed s.cpu.regs.r)
        board := s.board.afterRead s.cpu.regs.pc } := rfl

/-- Two opcode bytes fetched one after the other. -/
theorem fetchOpcode_twice (s : Computer μ) :
    (fetchOpcode (fetchOpcode s).2).2 =
      { s with
        cpu.regs := s.cpu.regs.fetched (s.cpu.regs.pc + 2)
          (refreshed^[2] s.cpu.regs.r)
        board := (s.board.afterRead s.cpu.regs.pc).afterRead
          (s.cpu.regs.pc + 1) } := by
  have hpc : s.cpu.regs.pc + 2 = s.cpu.regs.pc + 1 + 1 := by grind
  have hrefreshed : refreshed^[2] s.cpu.regs.r
      = refreshed (refreshed s.cpu.regs.r) := rfl
  rw [fetchOpcode_snd (fetchOpcode s).2, fetchOpcode_snd s, hpc,
    hrefreshed]
  dsimp only [Registers.fetched]

/-- The next opcode is the byte at the program counter. -/
theorem next_eq (s : Computer μ) :
    next s = opcode (s.codeByte 0) (fetchOpcode s).2 :=
  congrArg (opcode · (fetchOpcode s).2) (fetched_eq s)

/-- Both bytes are fetched, the opcode is counted, and a note is made of
it and of where it was found. -/
theorem instruct_of_meets {s : Computer μ} (h : s.MeetsUndefined) :
    instruct s =
      (8, { s with
        cpu := { s.cpu with
          regs := s.cpu.regs.fetched (s.cpu.regs.pc + 2)
            (refreshed^[2] s.cpu.regs.r)
          undefinedCount := s.cpu.undefinedCount + 1 }
        board := ((s.board.afterRead s.cpu.regs.pc).afterRead
          (s.cpu.regs.pc + 1)).note
            [.undefinedOpcode (s.codeByte 1) s.cpu.regs.pc] }) := by
  have hback : s.cpu.regs.pc + 2 - 2 = s.cpu.regs.pc := by grind
  rw [instruct_of_running h.running, next_eq, h.lead, opcode_extended]
  dsimp only
  rw [fetched_second_eq, Decode.extended_of_isUndefined h.op,
    execute_undefined, fetchOpcode_twice]
  dsimp only
  rw [Registers.fetched_pc, hback]

/-- So a step that meets such an opcode is a counted one, and does nothing
else up to the boundary. -/
theorem countedNop_of_meets {s : Computer μ} (h : s.MeetsUndefined) :
    CountedNop s := by
  have hinstruct := instruct_of_meets h
  have hcycles : (instruct s).1 = 8 := congrArg Prod.fst hinstruct
  have hcpu : s.atBoundary.cpu = _ :=
    congrArg (fun done => { done.2.cpu with eiDelay := false }) hinstruct
  have hboard : s.atBoundary.board = _ :=
    congrArg (fun done => done.2.board) hinstruct
  refine ⟨.iterate 2 _, hcpu, ?_, fun hnone => ?_, fun entry hentry => ?_⟩
  · -- the byte that leads to the page was read, so that fetch is silent
    have hlead : s.board.valueAt s.cpu.regs.pc ≠ 255 := by
      have hbyte := h.lead
      rw [← fetched_eq] at hbyte
      rw [show s.board.valueAt s.cpu.regs.pc = 0xED from hbyte]
      decide
    have hfirst : s.board.SameButLog
        (s.board.afterRead s.cpu.regs.pc) := .read hlead
    have hsecond := hfirst.afterRead (s.cpu.regs.pc + 1)
    have hnoted := (Board.SameButLog.reporting _ _).trans hsecond
    rw [hboard]
    exact hnoted.note [] _
  · have hstep : s.step = _ := step_of_no_entry hnone
    rw [hstep, hcycles, hcpu]
  · have hstep : s.step = _ := step_of_entry hentry
    rw [hstep, hcycles]

/-- Up to the boundary one is counted if the step meets one. -/
theorem undefinedCount_instruct (s : Computer μ) :
    (instruct s).2.cpu.undefinedCount
      = s.cpu.undefinedCount + if s.MeetsUndefined then 1 else 0 := by
  cases hhalted : s.cpu.halted with
  | true =>
    have hnot : ¬ s.MeetsUndefined := fun h => by
      have hrunning := h.running
      rw [hhalted] at hrunning
      cases hrunning
    unfold instruct
    rw [hhalted, if_neg hnot]
    rfl
  | false =>
    have hiff : (s.codeByte 0 == 0xED
          && Decode.isUndefined (s.codeByte 1)) = true
        ↔ s.MeetsUndefined := by
      rw [Bool.and_eq_true, beq_iff_eq]
      exact ⟨fun h => ⟨hhalted, h.1, h.2⟩, fun h => ⟨h.lead, h.op⟩⟩
    rw [instruct_of_running hhalted, next_eq, undefinedCount_opcode,
      fetched_second_eq, if_congr hiff rfl rfl]
    rfl

/-- A step counts one such opcode if it executes it, and nothing else. -/
theorem undefinedCount_step (s : Computer μ) :
    s.step.2.cpu.undefinedCount
      = s.cpu.undefinedCount + if s.MeetsUndefined then 1 else 0 := by
  rw [← undefinedCount_instruct]
  show (step s).2.cpu.undefinedCount = s.atBoundary.cpu.undefinedCount
  cases hentry : s.interrupt? with
  | none =>
    rw [step_of_no_entry hentry]
  | some entry =>
    rw [step_of_entry hentry]
    exact Cpu.aside_undefinedCount.enter entry s.atBoundary

end Exec

-- ================================================================= runs

namespace Computer

/-- The steps of a run that execute an opcode of this kind. -/
def undefinedAlong : List (Board μ → Board μ) → Computer μ → Nat
  | [], _ => 0
  | act :: rest, s =>
    (if (s.onBoard act).MeetsUndefined then 1 else 0)
      + undefinedAlong rest (s.stepAfter act)

/-- A run counts those that its steps meet. -/
theorem undefinedCount_run (acts : List (Board μ → Board μ))
    (s : Computer μ) :
    (acts.foldl stepAfter s).cpu.undefinedCount
      = s.cpu.undefinedCount + s.undefinedAlong acts := by
  induction acts generalizing s with
  | nil => rfl
  | cons act rest ih =>
    have hstep : (s.stepAfter act).cpu.undefinedCount = _ :=
      Exec.undefinedCount_step (s.onBoard act)
    rw [List.foldl_cons, ih, hstep, undefinedAlong, Nat.add_assoc]
    rfl

/-- The number of those among the next `n` steps, with nothing done to the
board in between. -/
def undefinedWithin (n : Nat) (s : Computer μ) : Nat :=
  (List.range n).countP fun i => (s.steps i).MeetsUndefined

theorem undefinedCount_steps (n : Nat) (s : Computer μ) :
    (s.steps n).cpu.undefinedCount
      = s.cpu.undefinedCount + s.undefinedWithin n := by
  induction n with
  | zero => rfl
  | succ n ih =>
    have hcount : s.undefinedWithin (n + 1) = s.undefinedWithin n
        + if (s.steps n).MeetsUndefined then 1 else 0 := by
      unfold undefinedWithin
      rw [List.range_succ, List.countP_append, List.countP_singleton]
      simp only [decide_eq_true_eq]
    rw [steps_succ, Exec.undefinedCount_step, ih, hcount, Nat.add_assoc]

/-- The bounded loop is a number of steps, as far as the CPU goes. -/
theorem cpu_stepN (n : Nat) (s : Computer μ) :
    ∃ k ≤ n, (s.stepN n).2.cpu = (s.steps k).cpu := by
  cases hstop : s.board.lines.stop with
  | true => exact ⟨0, Nat.zero_le n, by rw [stepN_stopped hstop]; rfl⟩
  | false =>
    rcases faultsFirst_or_clear n s with ⟨k, fault, hle, hfirst⟩ | hclear
    · exact ⟨k, hle, by rw [stepN_of_faultsFirst hstop hfirst hle]; rfl⟩
    · exact ⟨n, Nat.le_refl n, by rw [stepN_of_clear hstop hclear]⟩

/-- A stop that is requested already is seen in the first turn. -/
theorem run_stopped {s : Computer μ} (h : s.board.lines.stop = true)
    (limit : Nat) :
    s.run (limit + 1) = some (.ok (),
      (s.note (.runEntered s.cpu.regs.pc)).note
        (.runStopped s.cpu.regs.pc s.cpu.cost)) := by
  have hstop : ((⟨(), s⟩ : Attended Unit μ).note
      (.runEntered s.cpu.regs.pc)).computer.board.lines.stop = true := h
  unfold run Attended.run Attended.turns Attended.turn
  dsimp only
  rw [if_pos hstop]
  rfl

theorem cpu_run {limit : Nat} {s t : Computer μ}
    {result : Except Fault Unit} (h : s.run limit = some (result, t)) :
    ∃ k ≤ limit, t.cpu = (s.steps k).cpu := by
  cases hstop : s.board.lines.stop with
  | true =>
    cases limit with
    | zero => cases h
    | succ limit =>
      rw [run_stopped hstop] at h
      obtain ⟨-, rfl⟩ := Prod.mk.inj (Option.some.inj h)
      exact ⟨0, Nat.zero_le _, rfl⟩
  | false =>
    rcases faultsFirst_or_clear limit s
      with ⟨k, fault, hle, hfirst⟩ | hclear
    · obtain ⟨t', hrun, hsame⟩ := run_of_faultsFirst hstop hfirst hle
      rw [hrun] at h
      obtain ⟨-, rfl⟩ := Prod.mk.inj (Option.some.inj h)
      exact ⟨k, hle, hsame.cpu⟩
    · rw [run_of_clear hstop hclear] at h
      cases h

/-- An opcode that stands for nothing is counted and does nothing else,
and nothing else is counted. Where the byte that decides it cannot be
read, that fetch is reported to the latch as any other. So the count after
a run is what it was before and the number of those opcodes that the run
has executed; since a reset, it is this number. -/
theorem undefined_counted_alone :
    (∀ role op, Decode.Settled role op)
    ∧ (∀ op, Decode.extended op = .undefined op
      ↔ Decode.isUndefined op = true)
    ∧ (∀ s : Computer μ, s.MeetsUndefined → Exec.CountedNop s)
    ∧ (∀ s : Computer μ, s.step.2.cpu.undefinedCount
      = s.cpu.undefinedCount + if s.MeetsUndefined then 1 else 0)
    ∧ (∀ (entry : Entry) (s : Computer μ),
      (Exec.enter entry s).2.cpu.undefinedCount = s.cpu.undefinedCount)
    ∧ (∀ (acts : List (Board μ → Board μ)) (s : Computer μ),
      (acts.foldl stepAfter s).cpu.undefinedCount
        = s.cpu.undefinedCount + s.undefinedAlong acts)
    ∧ (∀ (acts : List (Board μ → Board μ)) (b : Board μ),
      (acts.foldl stepAfter ⟨{}, b⟩).cpu.undefinedCount
        = undefinedAlong acts ⟨{}, b⟩)
    ∧ (∀ (n : Nat) (s : Computer μ), ∃ k ≤ n,
      (s.stepN n).2.cpu = (s.steps k).cpu
        ∧ (s.stepN n).2.cpu.undefinedCount
          = s.cpu.undefinedCount + s.undefinedWithin k)
    ∧ ∀ (limit : Nat) (s t : Computer μ) (result : Except Fault Unit),
      s.run limit = some (result, t) → ∃ k ≤ limit,
        t.cpu = (s.steps k).cpu
          ∧ t.cpu.undefinedCount
            = s.cpu.undefinedCount + s.undefinedWithin k := by
  refine ⟨Decode.settled, fun op => ⟨fun h => ?_,
    Decode.extended_of_isUndefined⟩, fun s => Exec.countedNop_of_meets,
    Exec.undefinedCount_step, Cpu.aside_undefinedCount.enter,
    undefinedCount_run, fun acts b => ?_, fun n s => ?_,
    fun limit s t result h => ?_⟩
  · rw [← Decode.isUndefined_extended, h]
    rfl
  · rw [undefinedCount_run]
    exact Nat.zero_add _
  · obtain ⟨k, hle, hcpu⟩ := cpu_stepN n s
    exact ⟨k, hle, hcpu, by rw [hcpu, undefinedCount_steps]⟩
  · obtain ⟨k, hle, hcpu⟩ := cpu_run h
    exact ⟨k, hle, hcpu, by rw [hcpu, undefinedCount_steps]⟩

/-- Two such opcodes, and a non-maskable interrupt after the first. -/
theorem undefined_counted_alone_nmi :
    let s := holding [0xED, 0x77, 0xED, 0x00]
    let nmi : Board Windowed → Board Windowed := (·.onLines (·.raiseNmi))
    Exec.CountedNop s
      ∧ Exec.CountedNop (s.onBoard nmi)
      ∧ (s.onBoard nmi).interrupt? = some .nmi
      ∧ s.step.2.cpu.undefinedCount = 1
      ∧ (s.steps 2).cpu.undefinedCount = 2
      ∧ ([nmi, id].foldl stepAfter s).cpu.undefinedCount
        = s.undefinedAlong [nmi, id]
      ∧ ∃ k ≤ 2, (s.stepN 2).2.cpu.undefinedCount
        = s.undefinedWithin k := by
  intro s nmi
  obtain ⟨-, -, hnop, hstep, -, -, hreset, hstepN, -⟩ :=
    undefined_counted_alone (μ := Windowed)
  obtain ⟨k, hle, -, hcount⟩ := hstepN 2 s
  have hfirst : s.MeetsUndefined := by decide +kernel
  have hsecond : s.step.2.MeetsUndefined := by decide +kernel
  have hone : s.step.2.cpu.undefinedCount = 1 := by
    rw [hstep, if_pos hfirst]
    rfl
  have htwo : (s.steps 2).cpu.undefinedCount = 2 := by
    show s.step.2.step.2.cpu.undefinedCount = 2
    rw [hstep, if_pos hsecond, hone]
  refine ⟨hnop s hfirst, hnop _ (by decide +kernel), by decide +kernel,
    hone, htwo, hreset [nmi, id] s.board, k, hle, ?_⟩
  rw [hcount]
  exact Nat.zero_add _

/-- On a board whose memory ends after the first byte, the second byte is
not read. What is found there stands for nothing, so the opcode is
counted, and the board is not what it was: it has a fault to report. -/
theorem undefined_reports_fetch :
    let s := holding [0xED]
    s.MeetsUndefined
      ∧ s.interrupt? = none
      ∧ s.step.1 = 8
      ∧ s.step.2.cpu.undefinedCount = 1
      ∧ s.latch = none
      ∧ s.step.2.latch = some (.outOfRange "memory" 1)
      ∧ ¬ s.board.SameButLog s.step.2.board := by
  intro s
  have hfault : s.step.2.latch = some (.outOfRange "memory" 1) := by
    decide +kernel
  refine ⟨by decide +kernel, by decide +kernel, by decide +kernel,
    by decide +kernel, rfl, hfault, fun hsame => ?_⟩
  have hlatch : s.step.2.latch = s.latch :=
    hsame.view (fun b => b.arena.fault) fun _ => rfl
  rw [hfault] at hlatch
  cases hlatch

end Computer
end HomeZ80
