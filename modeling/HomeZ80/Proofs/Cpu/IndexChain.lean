/-
Chains of index bytes. An index byte that is followed by another one, or
by the byte that leads to the extended page, does nothing: the opcode
that was fetched after it is left for the next step, and with it goes
back the program counter and the count of that fetch
(`Exec.next_passes`).

So a chain is passed one byte at a time, and the last of its bytes finds
the computer as if there were no others before it, but for the program
counter, the count of fetches and the T-states (`Computer.index_chain`).
Nothing is fetched, counted or carried out twice. Reading code may leave
remarks in the log, so the computers that are compared are the same but
for their logs.
-/
import HomeZ80.Proofs.Cpu.Quiet
import HomeZ80.Proofs.Cpu.Refresh

namespace HomeZ80

variable {μ : Type} [Decoder μ]

namespace Computer

/-- A byte of the code, at a distance from the program counter. -/
def codeByte (i : Nat) (s : Computer μ) : UInt8 :=
  s.board.valueAt (s.cpu.regs.pc + UInt16.ofNat i)

omit [Decoder μ] in
/-- The computer after a step over an index byte that does nothing. As
after every step, interrupts need not wait any longer. -/
def pass (s : Computer μ) : Computer μ :=
  { s with cpu :=
    { s.cpu with
      regs := s.cpu.regs.fetched (s.cpu.regs.pc + 1)
        (refreshed s.cpu.regs.r)
      eiDelay := false
      cost := s.cpu.cost + 4 } }

end Computer

namespace Exec

/-- An index byte is not carried out if the opcode after it is left for
the next step. -/
theorem indexed_left {role : Role} {s : Computer μ}
    (h : Decode.isLeft (fetchOpcode s).1 = true) :
    indexed role s =
      (4, { (fetchOpcode s).2 with
        cpu.regs :=
          { (fetchOpcode s).2.cpu.regs.unrefresh with
            pc := (fetchOpcode s).2.cpu.regs.pc - 1 } }) := by
  have hwhole := Decode.isWhole_main role (fetchOpcode s).1
  rw [h] at hwhole
  unfold indexed
  rw [bind_apply]
  cases hop : Decode.main role (fetchOpcode s).1 with
  | instruction i | bitPage =>
    rw [hop] at hwhole
    exact absurd hwhole Bool.noConfusion
  | extendedPage | indexPage other => rfl

/-- The opcode that is fetched is the byte at the program counter. -/
theorem fetched_eq (s : Computer μ) :
    (fetchOpcode s).1 = s.codeByte 0 :=
  congrArg s.board.valueAt (UInt16.add_zero s.cpu.regs.pc).symm

/-- Fetching a byte does not change the one after it. -/
theorem fetched_second_eq (s : Computer μ) :
    (fetchOpcode (fetchOpcode s).2).1 = s.codeByte 1 :=
  (Board.SameMemory.afterRead s.cpu.regs.pc s.board).valueAt_eq
    (s.cpu.regs.pc + 1)

/-- What an index byte that does nothing leaves. -/
structure Passes (s : Computer μ) (done : Nat × Computer μ) : Prop where
  cost : done.1 = 4
  cpu : done.2.cpu = { s.cpu with
    regs := s.cpu.regs.fetched (s.cpu.regs.pc + 1)
      (refreshed s.cpu.regs.r) }
  board : s.board.SameButLog done.2.board

/-- The second fetch is taken back, the program counter with it, so that
one of each remains. -/
theorem next_passes {s : Computer μ}
    (hindex : Decode.isIndexByte (s.codeByte 0) = true)
    (hleft : Decode.isLeft (s.codeByte 1) = true) :
    Passes s (next s) := by
  have hnext : next s = indexed (Decode.roleOf (s.codeByte 0))
      (fetchOpcode s).2 := by
    apply fetch_index
    rw [fetched_eq]
    exact Decode.main_indexByte hindex
  have hsecond := fetched_second_eq s
  rw [hnext, indexed_left (hsecond ▸ hleft)]
  constructor
  · rfl
  · have hback : s.cpu.regs.pc + 1 + 1 - 1 = s.cpu.regs.pc + 1 := by grind
    have htwice : (fetchOpcode (fetchOpcode s).2).2.cpu =
        { s.cpu with regs :=
          { s.cpu.regs.refresh.refresh with
            pc := s.cpu.regs.pc + 1 + 1 } } := rfl
    have hunrefresh (r : Registers) (pc : UInt16) :
        ({ r with pc := pc } : Registers).unrefresh
          = { r.unrefresh with pc := pc } := rfl
    dsimp only
    rw [htwice]
    dsimp only
    rw [hunrefresh, Registers.unrefresh_refresh, hback]
    rfl
  · have hone : (fetchOpcode s).1 ≠ 255 := by
      rw [fetched_eq]
      exact Decode.isLeft_ne (Decode.isLeft_of_isIndexByte hindex)
    have htwo : (fetchOpcode (fetchOpcode s).2).1 ≠ 255 := by
      rw [hsecond]
      exact Decode.isLeft_ne hleft
    exact (Board.SameButLog.read hone).trans (.read htwo)

/-- An index byte and the opcode that it puts a register into are counted
both. -/
theorem r_step_index {s : Computer μ} (hidle : s.board.Idle)
    (hrunning : s.cpu.halted = false)
    (hindex : Decode.isIndexByte (s.codeByte 0) = true)
    (hnext : Decode.isLeft (s.codeByte 1) = false) :
    s.step.2.cpu.regs.r = refreshed^[2] s.cpu.regs.r := by
  have hmain := Decode.main_indexByte hindex
  rw [← fetched_eq] at hmain
  have hcode : codeOf (fetchOpcode s).1 (fetchOpcode s).2
      ≠ [0xED, 0x4F] := by
    intro heq
    unfold codeOf at heq
    rw [hmain] at heq
    have hlead : s.codeByte 0 = 0xED := by
      rw [← fetched_eq]
      exact (List.cons.inj heq).1
    rw [hlead] at hindex
    exact absurd hindex (by decide)
  rw [r_step hidle hrunning hcode]
  unfold furtherFetches
  rw [hmain, fetched_second_eq, hnext]
  rfl

/-- So are both bytes of an instruction of the extended page. -/
theorem r_step_extended {s : Computer μ} (hidle : s.board.Idle)
    (hrunning : s.cpu.halted = false) (hlead : s.codeByte 0 = 0xED)
    (hnext : s.codeByte 1 ≠ 0x4F) :
    s.step.2.cpu.regs.r = refreshed^[2] s.cpu.regs.r := by
  have hmain : Decode.main .hl (fetchOpcode s).1 = .extendedPage := by
    rw [fetched_eq, hlead]
    rfl
  have hcode : codeOf (fetchOpcode s).1 (fetchOpcode s).2
      ≠ [0xED, 0x4F] := by
    intro heq
    unfold codeOf at heq
    rw [hmain] at heq
    apply hnext
    rw [← fetched_second_eq]
    exact (List.cons.inj (List.cons.inj heq).2).1
  rw [r_step hidle hrunning hcode]
  unfold furtherFetches
  rw [hmain]

end Exec

namespace Computer

-- =============================================================== passing

/-- With idle lines this is a step. -/
theorem step_passes {s : Computer μ} (hidle : s.board.Idle)
    (hrunning : s.cpu.halted = false)
    (hindex : Decode.isIndexByte (s.codeByte 0) = true)
    (hleft : Decode.isLeft (s.codeByte 1) = true) :
    s.step.1 = 4 ∧ Twins Board.SameButLog s.pass s.step.2 := by
  obtain ⟨hcost, hcpu, hboard⟩ := Exec.next_passes hindex hleft
  rw [← Exec.instruct_of_running hrunning] at hcost hcpu hboard
  have hstep : s.step = _ := Exec.step_of_idle hidle
  rw [hstep]
  refine ⟨hcost, ?_, hboard⟩
  show { (Exec.instruct s).2.cpu with
    eiDelay := false
    cost := (Exec.instruct s).2.cpu.cost + (Exec.instruct s).1 } = _
  rw [hcpu, hcost]
  rfl

omit [Decoder μ] in
/-- A computer that has passed a number of index bytes. -/
structure Passed (n : Nat) (s t : Computer μ) : Prop where
  board : t.board = s.board
  regs : t.cpu.regs = s.cpu.regs.fetched
    (s.cpu.regs.pc + UInt16.ofNat n) (refreshed^[n] s.cpu.regs.r)
  halted : t.cpu.halted = s.cpu.halted
  undefinedCount : t.cpu.undefinedCount = s.cpu.undefinedCount
  cost : t.cpu.cost = s.cpu.cost + 4 * n

omit [Decoder μ] in
/-- Bytes that are passed over are fetched and leave nothing else. -/
theorem passed_iterate (n : Nat) (s : Computer μ) :
    Passed n s (pass^[n] s) := by
  induction n with
  | zero =>
    have hpc : s.cpu.regs.pc + UInt16.ofNat 0 = s.cpu.regs.pc :=
      UInt16.add_zero _
    refine ⟨rfl, ?_, rfl, rfl, rfl⟩
    rw [hpc]
    rfl
  | succ n ih =>
    have hsucc : UInt16.ofNat (n + 1) = UInt16.ofNat n + 1 :=
      UInt16.ofNat_add n 1
    rw [Function.iterate_succ_apply']
    refine ⟨ih.board, ?_, ih.halted, ih.undefinedCount, ?_⟩
    · show (pass^[n] s).cpu.regs.fetched
        ((pass^[n] s).cpu.regs.pc + 1) (refreshed (pass^[n] s).cpu.regs.r) = _
      rw [ih.regs, Registers.fetched_fetched, Registers.fetched_pc,
        Registers.fetched_r, Function.iterate_succ_apply', hsucc,
        UInt16.add_assoc]
    · show (pass^[n] s).cpu.cost + 4 = _
      rw [ih.cost]
      omega

theorem Passed.codeByte_eq {n : Nat} {s t : Computer μ}
    (h : Passed n s t) (i : Nat) : t.codeByte i = s.codeByte (n + i) := by
  unfold codeByte
  rw [h.board, h.regs, Registers.fetched_pc, UInt16.add_assoc,
    UInt16.ofNat_add]

theorem codeByte_of_twins {s t : Computer μ}
    (h : Twins Board.SameButLog s t) (i : Nat) :
    t.codeByte i = s.codeByte i := by
  unfold codeByte
  rw [h.cpu]
  exact h.board.view (Board.valueAt _) fun _ => rfl

-- =============================================================== chains

/-- A number of index bytes in a row, each of which does nothing. -/
structure Chain (n : Nat) (s : Computer μ) : Prop where
  index : ∀ i < n, Decode.isIndexByte (s.codeByte i) = true
  left : Decode.isLeft (s.codeByte n) = true

section
variable {s : Computer μ} {n : Nat}

/-- The last index byte in a row is part of the chain only if the extended
page comes after it. -/
theorem Chain.of_index {k : Nat} (hk : 0 < k)
    (hindex : ∀ i < k, Decode.isIndexByte (s.codeByte i) = true) :
    Chain (if s.codeByte k = 0xED then k else k - 1) s := by
  split
  · next hed =>
    refine ⟨hindex, ?_⟩
    rw [hed]
    rfl
  · refine ⟨fun i hi => hindex i (by omega), ?_⟩
    exact Decode.isLeft_of_isIndexByte (hindex (k - 1) (by omega))

/-- What follows a byte of the chain is left for the next step. -/
theorem Chain.left_succ (h : Chain n s) {i : Nat} (hi : i < n) :
    Decode.isLeft (s.codeByte (i + 1)) = true := by
  rcases Nat.lt_or_eq_of_le (Nat.succ_le_of_lt hi) with hlt | rfl
  · exact Decode.isLeft_of_isIndexByte (h.index (i + 1) hlt)
  · exact h.left

/-- Each of its bytes does nothing, in whatever state the CPU is. -/
theorem Chain.next_passes (h : Chain n s) {i : Nat} (hi : i < n) :
    Exec.Passes (pass^[i] s) (Exec.next (pass^[i] s)) := by
  have hpassed := passed_iterate i s
  apply Exec.next_passes
  · rw [hpassed.codeByte_eq]
    exact h.index i hi
  · rw [hpassed.codeByte_eq]
    exact h.left_succ hi

/-- The steps over a chain pass its bytes one by one. -/
theorem Chain.twins (h : Chain n s) (hidle : s.board.Idle)
    (hrunning : s.cpu.halted = false) :
    ∀ i ≤ n, Twins Board.SameButLog (pass^[i] s) (s.steps i) := by
  intro i hi
  induction i with
  | zero => exact ⟨rfl, .refl _⟩
  | succ i ih =>
    have hpassed := passed_iterate i s
    have htwins := ih (by omega)
    have hstep : Twins Board.SameButLog (pass^[i] s).pass
        (pass^[i] s).step.2 := by
      refine (step_passes (hpassed.board ▸ hidle)
        (hpassed.halted.trans hrunning) ?_ ?_).2
      · rw [hpassed.codeByte_eq]
        exact h.index i (by omega)
      · rw [hpassed.codeByte_eq]
        exact h.left_succ (by omega)
    have hlockstep : Twins Board.SameButLog (pass^[i] s).step.2
        (s.steps i).step.2 := lockstep_steps htwins 1
    rw [Function.iterate_succ_apply', steps_succ]
    exact ⟨hlockstep.cpu.trans hstep.cpu,
      hstep.board.trans hlockstep.board⟩

/-- Each of them takes four T-states and passes one byte. -/
theorem Chain.step (h : Chain n s) (hidle : s.board.Idle)
    (hrunning : s.cpu.halted = false) {i : Nat} (hi : i < n) :
    (s.steps i).step.1 = 4
      ∧ Twins Board.SameButLog (s.steps i).pass (s.steps (i + 1)) := by
  have htwins := h.twins hidle hrunning i (Nat.le_of_lt hi)
  have hpassed := passed_iterate i s
  have hhalted : (s.steps i).cpu.halted = false := by
    rw [htwins.cpu, hpassed.halted, hrunning]
  rw [steps_succ]
  refine step_passes (idle_steps hidle i) hhalted ?_ ?_
  · rw [codeByte_of_twins htwins, hpassed.codeByte_eq]
    exact h.index i hi
  · rw [codeByte_of_twins htwins, hpassed.codeByte_eq]
    exact h.left_succ hi

/-- What comes after the chain is carried out as if there were none. -/
theorem Chain.lockstep (h : Chain n s) (hidle : s.board.Idle)
    (hrunning : s.cpu.halted = false) (m : Nat) :
    Twins Board.SameButLog ((pass^[n] s).steps m) (s.steps (n + m)) := by
  rw [steps_add]
  exact lockstep_steps (h.twins hidle hrunning n (Nat.le_refl n)) m

/-- Each byte is counted once. -/
theorem Chain.r_eq (h : Chain n s) (hidle : s.board.Idle)
    (hrunning : s.cpu.halted = false) {i : Nat} (hi : i ≤ n) :
    (s.steps i).cpu.regs.r = refreshed^[i] s.cpu.regs.r := by
  rw [(h.twins hidle hrunning i hi).cpu, (passed_iterate i s).regs,
    Registers.fetched_r]

/-- The two opcode bytes that come next are counted as well. -/
theorem Chain.r_next (h : Chain n s) (hidle : s.board.Idle)
    (hrunning : s.cpu.halted = false)
    (hnext : Decode.isIndexByte (s.codeByte n) = true
        ∧ Decode.isLeft (s.codeByte (n + 1)) = false
      ∨ s.codeByte n = 0xED ∧ s.codeByte (n + 1) ≠ 0x4F) :
    (s.steps (n + 1)).cpu.regs.r = refreshed^[n + 2] s.cpu.regs.r := by
  have hpassed := passed_iterate n s
  have hidle' : (pass^[n] s).board.Idle := hpassed.board ▸ hidle
  have hrunning' := hpassed.halted.trans hrunning
  have hstep : (pass^[n] s).step.2.cpu.regs.r
      = refreshed^[2] (pass^[n] s).cpu.regs.r := by
    have hzero := hpassed.codeByte_eq 0
    have hone := hpassed.codeByte_eq 1
    rw [Nat.add_zero] at hzero
    rw [← hzero, ← hone] at hnext
    rcases hnext with ⟨hindex, hwhole⟩ | ⟨hlead, hnot⟩
    · exact Exec.r_step_index hidle' hrunning' hindex hwhole
    · exact Exec.r_step_extended hidle' hrunning' hlead hnot
  have hafter := h.lockstep hidle hrunning 1
  have hcpu : (s.steps (n + 1)).cpu = (pass^[n] s).step.2.cpu := hafter.cpu
  rw [hcpu, hstep, hpassed.regs, Registers.fetched_r,
    ← Function.iterate_add_apply, Nat.add_comm 2 n]

end

/-- A chain of index bytes is passed one byte in each step, up to the
last of them or, if the byte after it leads to the extended page, past
the last of them. What follows is carried out as if the chain had not
been there, and every opcode byte is counted once. -/
theorem index_chain {s : Computer μ} {k : Nat} (hk : 0 < k)
    (hchain : ∀ i < k, Decode.isIndexByte (s.codeByte i) = true) :
    let n := if s.codeByte k = 0xED then k else k - 1
    let r := s.cpu.regs.r.toNat
    (∀ i < n, Exec.Passes (pass^[i] s) (Exec.next (pass^[i] s)))
      ∧ (∀ i, Passed i s (pass^[i] s))
      ∧ (s.board.Idle → s.cpu.halted = false →
        (∀ i < n, (s.steps i).step.1 = 4
            ∧ Twins Board.SameButLog (s.steps i).pass (s.steps (i + 1)))
          ∧ (∀ m, Twins Board.SameButLog ((pass^[n] s).steps m)
            (s.steps (n + m)))
          ∧ (∀ i ≤ n, (s.steps i).cpu.regs.r.toNat
            = 128 * (r / 128) + (r + i) % 128)
          ∧ (Decode.isLeft (s.codeByte k) = false →
            (s.steps k).cpu.regs.r.toNat
              = 128 * (r / 128) + (r + (k + 1)) % 128)
          ∧ (s.codeByte k = 0xED → s.codeByte (k + 1) ≠ 0x4F →
            (s.steps (k + 1)).cpu.regs.r.toNat
              = 128 * (r / 128) + (r + (k + 2)) % 128)) := by
  intro n r
  have hn : Chain n s := .of_index hk hchain
  refine ⟨fun i hi => hn.next_passes hi, fun i => passed_iterate i s, ?_⟩
  intro hidle hrunning
  refine ⟨fun i hi => hn.step hidle hrunning hi,
    fun m => hn.lockstep hidle hrunning m, fun i hi => ?_,
    fun hwhole => ?_, fun hed hnot => ?_⟩
  · rw [hn.r_eq hidle hrunning hi, toNat_refreshed_iterate]
  · have hne : s.codeByte k ≠ 0xED := by
      intro hed
      rw [hed] at hwhole
      exact absurd hwhole (by decide)
    have hnk : n + 1 = k := by
      have hif : n = k - 1 := if_neg hne
      omega
    rw [← hnk] at hwhole ⊢
    have hindex := hchain n (by omega)
    rw [hn.r_next hidle hrunning (.inl ⟨hindex, hwhole⟩),
      toNat_refreshed_iterate]
  · have hnk : n = k := if_pos hed
    rw [← hnk] at hed hnot ⊢
    rw [hn.r_next hidle hrunning (.inr ⟨hed, hnot⟩),
      toNat_refreshed_iterate]

/-- Two index bytes before a load of the word 0x1234, and two before a
negation of the accumulator. -/
theorem index_chain_load_neg :
    let s := holding [0xDD, 0xFD, 0x21, 0x34, 0x12]
    let s' := holding [0xFD, 0xDD, 0xED, 0x44]
    (∀ i < 2, Decode.isIndexByte (s.codeByte i) = true)
      ∧ (∀ i < 2, Decode.isIndexByte (s'.codeByte i) = true)
      ∧ (s.steps 0).step.1 = 4
      ∧ (s.steps 2).cpu.regs.r.toNat = 3
      ∧ (s'.steps 1).step.1 = 4
      ∧ (s'.steps 3).cpu.regs.r.toNat = 4 := by
  intro s s'
  have hchain : ∀ i < 2, Decode.isIndexByte (s.codeByte i) = true := by
    decide
  have hchain' : ∀ i < 2, Decode.isIndexByte (s'.codeByte i) = true := by
    decide
  obtain ⟨-, -, hruns⟩ := index_chain Nat.two_pos hchain
  obtain ⟨-, -, hruns'⟩ := index_chain Nat.two_pos hchain'
  obtain ⟨hsteps, -, -, hwhole, -⟩ := hruns ⟨rfl, rfl⟩ rfl
  obtain ⟨hsteps', -, -, -, hextended⟩ := hruns' ⟨rfl, rfl⟩ rfl
  have hr : s.cpu.regs.r.toNat = 0 := rfl
  have hr' : s'.cpu.regs.r.toNat = 0 := rfl
  rw [hr] at hwhole
  rw [hr'] at hextended
  exact ⟨hchain, hchain', (hsteps 0 (by decide)).1, hwhole (by decide),
    (hsteps' 1 (by decide)).1, hextended (by decide) (by decide)⟩

end Computer
end HomeZ80
