/-
The halted state. An instruction that halts leaves the program counter on
itself, and every step after it is an idle cycle: it counts as a fetch
for the refresh register and takes four T-states, but nothing is read,
and nothing else of the CPU or the board changes (`Computer.Rests`). This
goes on for as long as the boundaries find no interrupt to take.

The first interrupt ends it. It may come at the boundary of the halting
instruction itself or after any number of idle cycles, which is all the
same to the entry (`Computer.AtHalt`): the program counter moves past the
halt before anything else is done with it. So what is pushed is the
address after the halt, and a return that finds it on the stack goes on
there (`Computer.halt_waits_and_resumes`).
-/
import HomeZ80.Proofs.Board.Words
import HomeZ80.Proofs.Cpu.BusCycles
import HomeZ80.Proofs.Cpu.RefreshCount
import HomeZ80.Proofs.Interrupt.Delay
import HomeZ80.Proofs.Interrupt.NonMaskable

namespace HomeZ80

open BusCycle (wordReads wordWrites)

variable {μ : Type} [Decoder μ]

-- ============================================================= decoding

/-- No other instruction puts the CPU into the halted state. -/
theorem Instruction.eq_halt_of_mark {i : Instruction} {c : Cpu}
    (hc : c.halted = false) (h : (i.mark c.apart).halted = true) :
    i = .halt := by
  have hkept : i ≠ .halt → (i.mark c.apart).halted = c.halted := by
    intro hi
    cases i with
    | halt => exact absurd rfl hi
    | _ => rfl
  refine Decidable.byContradiction fun hi => ?_
  rw [hkept hi, hc] at h
  cases h

namespace Decode

/-- One opcode of the main page halts. -/
theorem eq_of_main_halt {role : Role} {op : UInt8}
    (h : main role op = .instruction .halt) : op = 0x76 := by
  obtain ⟨⟨v⟩⟩ := op
  revert v
  cases role <;> decide +kernel

theorem extended_ne_halt (op : UInt8) : extended op ≠ .halt := by
  obtain ⟨⟨v⟩⟩ := op
  revert v
  decide +kernel

end Decode

-- ============================================================== halting

namespace Computer

/-- The next step executes a halt that lies at an address, as the last of
a number of opcode bytes. -/
inductive Halts (s : Computer μ) : UInt16 → Nat → Prop
  | plain (hrunning : s.cpu.halted = false) (hop : s.codeByte 0 = 0x76) :
      Halts s s.cpu.regs.pc 1
  | indexed (hrunning : s.cpu.halted = false)
      (hindex : Decode.isIndexByte (s.codeByte 0) = true)
      (hop : s.codeByte 1 = 0x76) :
      Halts s (s.cpu.regs.pc + 1) 2

omit [Decoder μ] in
/-- The computer after a number of idle cycles. -/
def rested (n : Nat) (s : Computer μ) : Computer μ :=
  { s with cpu :=
    { s.cpu with
      regs := { s.cpu.regs with r := refreshed^[n] s.cpu.regs.r }
      cost := s.cpu.cost + 4 * n } }

omit [Decoder μ] in
/-- A halted computer between two steps. -/
structure Waits (h : UInt16) (s : Computer μ) : Prop where
  halted : s.cpu.halted = true
  pc : s.cpu.regs.pc = h
  ready : s.cpu.eiDelay = false

end Computer

namespace Exec

/-- What a halt does, its fetches included. -/
structure Halted (h : UInt16) (n : Nat) (s : Computer μ)
    (done : Nat × Computer μ) : Prop where
  cost : done.1 = 4 * n
  cpu : done.2.cpu =
    { s.cpu with
      regs := s.cpu.regs.fetched h (refreshed^[n] s.cpu.regs.r)
      halted := true }
  board : s.board.SameButLog done.2.board

/-- A halt puts the program counter back on its own opcode, and makes a
note. -/
theorem execute_halt (s : Computer μ) :
    (execute .halt s).2 =
      { s with
        cpu := { s.cpu with
          regs := { s.cpu.regs with pc := s.cpu.regs.pc - 1 }
          halted := true }
        board := s.board.note [.halted (s.cpu.regs.pc - 1)] } := rfl

/-- The program counter is moved back on the byte that was fetched
last. -/
theorem halted_of_fetched {s t : Computer μ} {h : UInt16} {n : Nat}
    (hcpu : t.cpu = { s.cpu with
      regs := s.cpu.regs.fetched (h + 1) (refreshed^[n] s.cpu.regs.r) })
    (hboard : s.board.SameButLog t.board) :
    Halted h n s (4 * n, (execute .halt t).2) := by
  have hback : h + 1 - 1 = h := by grind
  rw [execute_halt]
  refine ⟨rfl, ?_, ?_⟩
  · dsimp only
    rw [hcpu]
    dsimp only [Registers.fetched]
    rw [hback]
  · refine hboard.trans ?_
    exact Board.quiet_note _ t.board

/-- An opcode other than 255 was fetched without a fault. -/
theorem sameButLog_fetch {s : Computer μ} {v : UInt8}
    (hop : (fetchOpcode s).1 = v) (hv : v ≠ 255) :
    s.board.SameButLog (fetchOpcode s).2.board := by
  refine Board.SameButLog.read ?_
  show (fetchOpcode s).1 ≠ 255
  rw [hop]
  exact hv

theorem halts_of_halted {s : Computer μ} (hrunning : s.cpu.halted = false)
    (hhalted : (instruct s).2.cpu.halted = true) :
    ∃ h n, s.Halts h n := by
  let one := (fetchOpcode s).2
  have hone : one.cpu.halted = false := hrunning
  have hinstruct : (instruct s).2 = (opcode (s.codeByte 0) one).2 := by
    rw [instruct_of_running hrunning, ← fetched_eq]
    rfl
  rw [hinstruct] at hhalted
  have hdecoded : decoded? (s.codeByte 0) one = some .halt := by
    cases hi : decoded? (s.codeByte 0) one with
    | none =>
      have hkept := congrArg Cpu.halted (apart_opcode_of_none hi)
      have hstays : (opcode (s.codeByte 0) one).2.cpu.halted = false :=
        hkept.trans hone
      rw [hstays] at hhalted
      cases hhalted
    | some i =>
      have hmarked := congrArg Cpu.halted (apart_opcode_of_some hi)
      refine congrArg some (i.eq_halt_of_mark hone ?_)
      exact hmarked.symm.trans hhalted
  unfold decoded? at hdecoded
  cases hop : Decode.main .hl (s.codeByte 0) with
  | instruction i =>
    rw [hop] at hdecoded
    obtain rfl := Option.some.inj hdecoded
    exact ⟨_, _, .plain hrunning (Decode.eq_of_main_halt hop)⟩
  | bitPage =>
    rw [hop] at hdecoded
    cases hdecoded
  | extendedPage =>
    rw [hop] at hdecoded
    exact absurd (Option.some.inj hdecoded) (Decode.extended_ne_halt _)
  | indexPage role =>
    have hindex := Decode.isIndexByte_of_main hop
    rw [hop] at hdecoded
    dsimp only at hdecoded
    rw [fetched_second_eq] at hdecoded
    cases hnext : Decode.main role (s.codeByte 1) with
    | instruction i =>
      rw [hnext] at hdecoded
      obtain rfl := Option.some.inj hdecoded
      exact ⟨_, _, .indexed hrunning hindex
        (Decode.eq_of_main_halt hnext)⟩
    | bitPage | extendedPage | indexPage other =>
      rw [hnext] at hdecoded
      cases hdecoded

/-- However it is reached, a halt leaves the CPU on its opcode, with
nothing else done to memory or ports. -/
theorem halted_instruct {s : Computer μ} {h : UInt16} {n : Nat}
    (hs : s.Halts h n) : Halted h n s (instruct s) := by
  let one := (fetchOpcode s).2
  let two := (fetchOpcode one).2
  cases hs with
  | plain hrunning hop =>
    rw [← fetched_eq] at hop
    have hinstruct : instruct s = (4, (execute .halt one).2) := by
      rw [instruct_of_running hrunning]
      show opcode (fetchOpcode s).1 one = _
      rw [hop]
      rfl
    rw [hinstruct]
    exact halted_of_fetched (cpu_fetchOpcode s)
      (sameButLog_fetch hop (by decide))
  | indexed hrunning hindex hop =>
    have hmain := Decode.main_indexByte hindex
    have hindexed : Decode.main (Decode.roleOf (s.codeByte 0)) 0x76
        = .instruction .halt := by
      unfold Decode.roleOf
      split <;> rfl
    rw [← fetched_second_eq] at hop
    have hinstruct : instruct s = (8, (execute .halt two).2) := by
      rw [instruct_of_running hrunning]
      show opcode (fetchOpcode s).1 one = _
      rw [fetched_eq]
      unfold opcode
      rw [hmain]
      show indexed _ one = _
      unfold indexed
      rw [bind_apply, hop, hindexed]
      rfl
    have hfirst : (fetchOpcode s).1 ≠ 255 := by
      rw [fetched_eq]
      exact Decode.isLeft_ne (Decode.isLeft_of_isIndexByte hindex)
    have hcpu : two.cpu = { s.cpu with
        regs := s.cpu.regs.fetched (s.cpu.regs.pc + 1 + 1)
          (refreshed^[2] s.cpu.regs.r) } := by
      rw [cpu_fetchOpcode one, cpu_fetchOpcode s]
      rfl
    rw [hinstruct]
    refine halted_of_fetched hcpu ?_
    exact (sameButLog_fetch rfl hfirst).trans
      (sameButLog_fetch hop (by decide))

end Exec

namespace Computer

-- ============================================================= waiting

variable {s : Computer μ} {h : UInt16} {n : Nat}

/-- The boundary after the next instruction finds the CPU halted at an
address. -/
structure AtHalt (h : UInt16) (s : Computer μ) : Prop where
  halted : s.atBoundary.cpu.halted = true
  regs : ∃ r, s.atBoundary.cpu.regs = s.cpu.regs.fetched h r
  delay : (Exec.instruct s).2.cpu.eiDelay = s.cpu.eiDelay
  memory : s.board.SameMemory s.atBoundary.board

/-- A CPU that halts in the next step is at the halt in this sense. -/
theorem Halts.atHalt (hs : s.Halts h n) : s.AtHalt h := by
  obtain ⟨-, hcpu, hboard⟩ := Exec.halted_instruct hs
  refine ⟨?_, ⟨refreshed^[n] s.cpu.regs.r, ?_⟩, ?_, ?_⟩
  · show (Exec.instruct s).2.cpu.halted = true
    rw [hcpu]
  · show (Exec.instruct s).2.cpu.regs = _
    rw [hcpu]
  · rw [hcpu]
  · exact ⟨congrArg (·.arena.regions) hboard, congrArg (·.decoder) hboard⟩

/-- An idle cycle counts one fetch and takes four T-states. -/
theorem instruct_of_halted (hs : s.cpu.halted = true) :
    Exec.instruct s = (4, { s with cpu.regs := s.cpu.regs.refresh }) := by
  unfold Exec.instruct
  rw [hs]
  rfl

/-- A CPU that waits already is at its halt as well. -/
theorem Waits.atHalt (hs : s.Waits h) : s.AtHalt h := by
  have hinstruct := instruct_of_halted hs.halted
  refine ⟨?_, ⟨refreshed s.cpu.regs.r, ?_⟩, ?_, ?_⟩
  · show (Exec.instruct s).2.cpu.halted = true
    rw [hinstruct]
    exact hs.halted
  · show (Exec.instruct s).2.cpu.regs = _
    rw [hinstruct, ← hs.pc]
    rfl
  · rw [hinstruct]
  · show s.board.SameMemory (Exec.instruct s).2.board
    rw [hinstruct]
    exact .refl _

/-- Neither the lines nor the first flip-flop have moved when the boundary
comes. -/
theorem AtHalt.interrupt?_eq_none_iff (hs : s.AtHalt h)
    (hready : s.cpu.eiDelay = false) :
    s.interrupt? = none ↔ s.interruptReady = false := by
  have hlines : s.atBoundary.board.lines = s.board.lines :=
    (Exec.touches_instruct s).lines_eq
  have hiff : s.atBoundary.cpu.regs.iff1 = s.cpu.regs.iff1 := by
    obtain ⟨r, hregs⟩ := hs.regs
    rw [hregs]
    rfl
  unfold interrupt? accepted? interruptReady
  rw [hs.delay, hready, hlines, hiff]
  cases s.board.lines.nmi <;> cases s.cpu.regs.iff1 <;>
    cases s.board.lines.irq <;> simp

/-- If no interrupt comes with the halt, the step is the halt alone. -/
theorem Halts.waits_step (hs : s.Halts h n) (hnone : s.interrupt? = none) :
    s.step.2.Waits h
      ∧ s.step.2.cpu = { s.cpu with
        regs := s.cpu.regs.fetched h (refreshed^[n] s.cpu.regs.r)
        halted := true
        eiDelay := false
        cost := s.cpu.cost + 4 * n }
      ∧ s.board.SameButLog s.step.2.board := by
  obtain ⟨hcost, hcpu, hboard⟩ := Exec.halted_instruct hs
  have hstep : s.step = _ := Exec.step_of_no_entry hnone
  have hafter : s.step.2.cpu = { s.cpu with
      regs := s.cpu.regs.fetched h (refreshed^[n] s.cpu.regs.r)
      halted := true
      eiDelay := false
      cost := s.cpu.cost + 4 * n } := by
    rw [hstep]
    show { (Exec.instruct s).2.cpu with
      eiDelay := false
      cost := (Exec.instruct s).2.cpu.cost + (Exec.instruct s).1 } = _
    rw [hcpu, hcost]
  refine ⟨?_, hafter, ?_⟩
  · constructor
    · rw [hafter]
    · rw [hafter, Registers.fetched_pc]
    · rw [hafter]
  · rw [hstep]
    exact hboard

section
omit [Decoder μ]

/-- A CPU that waits goes on waiting whatever is done to the board. -/
theorem Waits.onBoard (hs : s.Waits h) (f : Board μ → Board μ) :
    (s.onBoard f).Waits h := ⟨hs.halted, hs.pc, hs.ready⟩

/-- A CPU that waits goes on waiting over any number of idle cycles. -/
theorem Waits.resting (hs : s.Waits h) (n : Nat) : (s.rested n).Waits h :=
  ⟨hs.halted, hs.pc, hs.ready⟩

theorem rested_rested (m n : Nat) (s : Computer μ) :
    (s.rested m).rested n = s.rested (m + n) := by
  have hcost : s.cpu.cost + 4 * m + 4 * n = s.cpu.cost + 4 * (m + n) := by
    omega
  unfold rested
  dsimp only
  rw [← Function.iterate_add_apply, Nat.add_comm n m, hcost]

end

theorem Waits.step_eq (hs : s.Waits h)
    (hquiet : s.interruptReady = false) :
    s.step.2 = s.rested 1 ∧ s.cycles = [] := by
  have hnone := (hs.atHalt.interrupt?_eq_none_iff hs.ready).2 hquiet
  constructor
  · have hready : ({ s.cpu with eiDelay := false } : Cpu) = s.cpu := by
      rw [← hs.ready]
    show (Exec.step s).2 = _
    rw [Exec.step_of_no_entry hnone]
    unfold atBoundary rested
    rw [instruct_of_halted hs.halted, ← hready]
    rfl
  · unfold cycles instructCycles
    rw [hnone, hs.halted]
    rfl

/-- What a number of idle cycles leaves: the refresh register has counted
them, each took four T-states, and the board is what others have made of
it. No cycle of the bus was made. -/
structure Rests (acts : List (Board μ → Board μ)) (s : Computer μ) :
    Prop where
  state : acts.foldl stepAfter s
    = (s.onBoard fun b => acts.foldl (fun b act => act b) b).rested
      acts.length
  silent : ¬ Sometime stepAfter
    (fun s act => (s.onBoard act).cycles ≠ []) acts s

/-- As long as no interrupt is ready, every step is an idle cycle. -/
theorem Waits.rests (hs : s.Waits h) {acts : List (Board μ → Board μ)}
    (hquiet : ¬ Sometime stepAfter
      (fun s act => (s.onBoard act).interruptReady = true) acts s) :
    Rests acts s := by
  induction acts generalizing s with
  | nil => exact ⟨rfl, by rw [Sometime.nil_iff]; exact id⟩
  | cons act rest ih =>
    rw [Sometime.cons_iff, not_or, Bool.not_eq_true] at hquiet
    obtain ⟨hfirst, hcycles⟩ := (hs.onBoard act).step_eq hquiet.1
    have hstep : s.stepAfter act = (s.onBoard act).rested 1 := hfirst
    have hlater : Rests rest (s.stepAfter act) := by
      apply ih _ hquiet.2
      rw [hstep]
      exact (hs.onBoard act).resting 1
    constructor
    · rw [List.foldl_cons, hlater.state, hstep, List.length_cons,
        Nat.add_comm, ← rested_rested]
      rfl
    · rw [Sometime.cons_iff, not_or, not_not]
      exact ⟨hcycles, hlater.silent⟩

end Computer

-- ============================================================== entries

namespace Exec

section
variable {s : Computer μ}

omit [Decoder μ]

/-- After this the CPU runs, whether it was halted before or not. -/
theorem halted_leaveHalt (s : Computer μ) :
    (leaveHalt s).2.cpu.halted = false := by
  show (if s.cpu.halted then _ else s.cpu : Cpu).halted = false
  split
  · rfl
  · next hrunning => exact Bool.eq_false_iff.2 hrunning

/-- The program counter moves past the halt. -/
theorem pc_leaveHalt (hs : s.cpu.halted = true) :
    (leaveHalt s).2.cpu.regs.pc = s.cpu.regs.pc + 1 := by
  show (if s.cpu.halted then _ else s.cpu : Cpu).regs.pc = _
  rw [if_pos hs]

/-- A CPU that heeds an interrupt in a halt goes on behind it. -/
theorem pc_heed (channel : UInt8) (hs : s.cpu.halted = true) :
    (heed channel s).2.cpu.regs.pc = s.cpu.regs.pc + 1 :=
  pc_leaveHalt (s := (acknowledge channel s).2) hs

/-- Heeding an interrupt does not use the stack. -/
theorem sp_heed (channel : UInt8) (s : Computer μ) :
    (heed channel s).2.cpu.regs.sp = s.cpu.regs.sp :=
  leaveHalt_sp (acknowledge channel s).2

end

end Exec

namespace Entry

/-- An interrupt that goes where a vector leads: any but a maskable one
in mode 0. -/
def IsVectored (im : InterruptMode) (entry : Entry) : Prop :=
  entry = .nmi ∨ im ≠ .im0

end Entry

namespace Computer

/-- The reads of the table of mode 2. -/
def tableReads (s : Computer μ) : Entry → List BusCycle
  | .nmi => []
  | .maskable channel =>
    match s.cpu.regs.im with
    | .im2 =>
      wordReads (word s.cpu.regs.i 0 ||| Controller.offsetOf channel)
    | .im0 | .im1 => []

/-- Looking up a target changes no byte. -/
theorem sameMemory_tableReads (s : Computer μ) (entry : Entry)
    (b : Board μ) : b.SameMemory (b.perform (s.tableReads entry)) := by
  unfold tableReads
  split
  · exact .refl b
  · split
    · exact .peekWord _ b
    · exact .refl b
    · exact .refl b

end Computer

namespace Exec

variable {w : Computer μ}

/-- What an entry from the halted state does, where it goes by a
vector. -/
structure Leaves (entry : Entry) (w : Computer μ) (done : Computer μ) :
    Prop where
  running : done.cpu.halted = false
  sp : done.cpu.regs.sp = w.cpu.regs.sp - 2
  cycles : w.entryCycles entry = w.tableReads entry
    ++ wordWrites (w.cpu.regs.sp - 2) (w.cpu.regs.pc + 1)

/-- The entry of a halted computer pushes the address after the halt. -/
theorem enterNmi_of_halted (hw : w.cpu.halted = true) :
    enterNmi w =
      let r := w.cpu.regs
      (11, { w with
        cpu := { w.cpu with
          halted := false
          regs := { r with
            r := refreshed r.r, iff2 := r.iff1, iff1 := false
            pc := Entry.nmiTarget, sp := r.sp - 2 } }
        board := ((w.board.onLines (·.clearNmi)).pokeWord (r.sp - 2)
          (r.pc + 1)).note [.nmiTaken (r.pc + 1) (r.sp - 2)] }) := by
  let t := (modifyBoard (·.onLines (·.clearNmi)) w).2
  have hleave : leaveHalt t = ((), { t with
      cpu := { t.cpu with
        halted := false, regs.pc := t.cpu.regs.pc + 1 } }) := by
    have ht : t.cpu.halted = true := hw
    simp [leaveHalt, modifyCpu, ht]
  unfold enterNmi
  rw [bind_apply, bind_apply, hleave]
  rfl

/-- A non-maskable interrupt pushes the address behind the halt and goes to
its own. -/
theorem leaves_enterNmi (hw : w.cpu.halted = true) :
    Leaves .nmi w (enterNmi w).2 := by
  rw [enterNmi_of_halted hw]
  refine ⟨rfl, rfl, ?_⟩
  show wordWrites _ (leaveHalt w).2.cpu.regs.pc = _
  rw [pc_leaveHalt hw]
  rfl

/-- So does a maskable one, in the modes that lead to an address. -/
theorem leaves_enterMaskable (hw : w.cpu.halted = true) (channel : UInt8)
    (him : w.cpu.regs.im ≠ .im0) :
    Leaves (.maskable channel) w (enterMaskable channel w).2 := by
  let t := (heed channel w).2
  have hrunning : t.cpu.halted = false :=
    halted_leaveHalt (acknowledge channel w).2
  have hpc : t.cpu.regs.pc = w.cpu.regs.pc + 1 := pc_heed channel hw
  have hsp : t.cpu.regs.sp = w.cpu.regs.sp := sp_heed channel w
  have hmode : t.cpu.regs.im = w.cpu.regs.im := heed_im channel w
  have hi : t.cpu.regs.i = w.cpu.regs.i := heed_i channel w
  have hcycles : w.entryCycles (.maskable channel)
      = t.supplyCycles channel := rfl
  have henter : (enterMaskable channel w).2 = (vector channel t).2 := rfl
  unfold Computer.supplyCycles Computer.pushes at hcycles
  unfold vector at henter
  rw [bind_apply] at henter
  dsimp only [regs] at henter
  cases hcase : w.cpu.regs.im with
  | im0 => exact absurd hcase him
  | im1 =>
    rw [hmode, hcase] at hcycles henter
    rw [hsp, hpc] at hcycles
    rw [henter]
    refine ⟨hrunning, congrArg (· - 2) hsp, ?_⟩
    rw [hcycles]
    unfold Computer.tableReads
    rw [hcase]
    rfl
  | im2 =>
    rw [hmode, hcase] at hcycles henter
    rw [hsp, hpc, hi] at hcycles
    rw [henter]
    refine ⟨hrunning, congrArg (· - 2) hsp, ?_⟩
    rw [hcycles]
    unfold Computer.tableReads
    rw [hcase]

/-- Either way the halt is left with the address behind it on the stack. -/
theorem leaves_enter (hw : w.cpu.halted = true) {entry : Entry}
    (hentry : entry.IsVectored w.cpu.regs.im) :
    Leaves entry w (enter entry w).2 := by
  cases entry with
  | nmi => exact leaves_enterNmi hw
  | maskable channel =>
    refine leaves_enterMaskable hw channel ?_
    exact hentry.resolve_left nofun

end Exec

-- ============================================================== returns

/-- A return that is made. -/
def Instruction.isReturn (f : Flags) : Instruction → Bool
  | .ret none | .retn => true
  | .ret (some cond) => cond.holds f
  | _ => false

namespace Computer

/-- The next step executes a return. -/
structure Returns (s : Computer μ) : Prop where
  running : s.cpu.halted = false
  decoded : ∃ i, Exec.decoded? (Exec.fetchOpcode s).1
    (Exec.fetchOpcode s).2 = some i ∧ i.isReturn s.cpu.regs.f = true

end Computer

namespace Exec

/-- Whatever returns takes the program counter off the stack. -/
theorem execute_return {i : Instruction} {s : Computer μ}
    (hi : i.isReturn s.cpu.regs.f = true) :
    (execute i s).2.cpu.regs.pc = (s.board.peekWord s.cpu.regs.sp).1
      ∧ (execute i s).2.cpu.regs.sp = s.cpu.regs.sp + 2 := by
  cases i with
  | retn => exact ⟨rfl, rfl⟩
  | ret cond =>
    cases cond with
    | none => exact ⟨rfl, rfl⟩
    | some cond =>
      have hgo : cond.holds (flags s).1 = true := hi
      simp only [execute]
      rw [bind_apply, if_pos hgo]
      exact ⟨rfl, rfl⟩
  | _ => cases hi

/-- Fetching moves the program counter and the refresh register, and at
most remarks on what is read. -/
theorem ledTo_keeps (op : UInt8) (s : Computer μ) :
    (∃ pc r, (ledTo op s).cpu.regs = s.cpu.regs.fetched pc r)
      ∧ s.board.SameMemory (ledTo op s).board := by
  unfold ledTo
  split
  · exact ⟨⟨_, _, rfl⟩, .refl _⟩
  all_goals exact ⟨⟨_, _, rfl⟩, .afterRead _ _⟩

/-- A step that comes to a return takes the address to go on at from the
stack. -/
theorem instruct_return {s : Computer μ} (hs : s.Returns) :
    (instruct s).2.cpu.regs.pc = (s.board.peekWord s.cpu.regs.sp).1
      ∧ (instruct s).2.cpu.regs.sp = s.cpu.regs.sp + 2 := by
  obtain ⟨hrunning, i, hdecoded, hi⟩ := hs
  let t := ledTo (fetchOpcode s).1 (fetchOpcode s).2
  obtain ⟨⟨pc, r, hregs⟩, hmemory⟩ :=
    ledTo_keeps (fetchOpcode s).1 (fetchOpcode s).2
  have hsp : t.cpu.regs.sp = s.cpu.regs.sp := by
    show (ledTo _ _).cpu.regs.sp = _
    rw [hregs]
    rfl
  have hf : t.cpu.regs.f = s.cpu.regs.f := by
    show (ledTo _ _).cpu.regs.f = _
    rw [hregs]
    rfl
  have hsame : s.board.SameMemory t.board :=
    (Board.SameMemory.afterRead s.cpu.regs.pc s.board).trans hmemory
  have hinstruct : (instruct s).2 = (execute i t).2 := by
    rw [instruct_of_running hrunning]
    exact opcode_of_decoded hdecoded
  rw [hinstruct, ← hsp, ← hsame.peekWord_eq]
  exact execute_return (hf ▸ hi)

end Exec

namespace Computer

-- ============================================================== resuming

/-- A step ends the halted state and goes where a vector leads, with the
address after the halt on the stack. -/
structure Resumes (h : UInt16) (entry : Entry) (s : Computer μ) :
    Prop where
  running : s.step.2.cpu.halted = false
  sp : s.step.2.cpu.regs.sp = s.cpu.regs.sp - 2
  cycles : s.cycles = s.instructCycles ++ (s.tableReads entry
    ++ wordWrites (s.cpu.regs.sp - 2) (h + 1))
  pushed (hrecalls : s.board.Recalls (s.cpu.regs.sp - 2)) :
    (s.step.2.board.peekWord s.step.2.cpu.regs.sp).1 = h + 1
  /-- A return that finds this word continues after the halt. -/
  returns (t : Computer μ) (hsp : t.cpu.regs.sp = s.step.2.cpu.regs.sp)
    (hword : (t.board.peekWord t.cpu.regs.sp).1 = h + 1)
    (ht : t.Returns) :
    t.atBoundary.cpu.regs.pc = h + 1
      ∧ t.atBoundary.cpu.regs.sp = s.cpu.regs.sp

/-- A step ends the halted state and then executes, at the address after
the halt, the opcode that is supplied. -/
structure Supplies (h : UInt16) (channel : UInt8) (s t : Computer μ) :
    Prop where
  running : t.cpu.halted = false
  pc : t.cpu.regs.pc = h + 1
  sp : t.cpu.regs.sp = s.cpu.regs.sp
  memory : s.board.SameMemory t.board
  step : s.step.2 =
    let done := (Exec.opcode (2 * channel) t).2
    { done with cpu.cost := done.cpu.cost + s.step.1 }

/-- An interrupt with a target resumes behind the halt when it returns. -/
theorem AtHalt.resumes {s : Computer μ} {h : UInt16} (hs : s.AtHalt h)
    {entry : Entry} (hentry : s.interrupt? = some entry)
    (hvectored : entry.IsVectored s.cpu.regs.im) : Resumes h entry s := by
  obtain ⟨hhalted, ⟨r, hregs⟩, -, hmemory⟩ := hs
  have hreads : s.atBoundary.tableReads entry = s.tableReads entry := by
    unfold tableReads
    rw [hregs]
    rfl
  have hmode : s.atBoundary.cpu.regs.im = s.cpu.regs.im := by
    rw [hregs]
    rfl
  obtain ⟨hrunning, hsp, hcycles⟩ :=
    Exec.leaves_enter hhalted (hmode.symm ▸ hvectored)
  have hstep : s.step = _ := Exec.step_of_entry hentry
  have hafter : s.step.2.cpu.regs.sp = s.cpu.regs.sp - 2 := by
    rw [hstep]
    show (Exec.enter entry s.atBoundary).2.cpu.regs.sp = _
    rw [hsp, hregs]
    rfl
  rw [hreads, hregs] at hcycles
  refine ⟨?_, hafter, ?_, fun hrecalls => ?_, fun t ht hword hreturn => ?_⟩
  · rw [hstep]
    exact hrunning
  · unfold cycles
    rw [hentry]
    exact congrArg _ hcycles
  · let table := s.atBoundary.board.perform (s.tableReads entry)
    have htable : s.board.SameMemory table :=
      hmemory.trans (sameMemory_tableReads s entry _)
    have hbus := Exec.sameBus_enter entry s.atBoundary
    rw [hcycles, Board.perform_append] at hbus
    have hpushed : (table.pokeWord (s.cpu.regs.sp - 2) (h + 1)).SameMemory
        s.step.2.board := by
      rw [hstep]
      exact hbus.sameMemory
    rw [hafter, hpushed.peekWord_eq]
    exact hrecalls.of_sameMemory htable (h + 1)
  · obtain ⟨hpc, hback⟩ := Exec.instruct_return hreturn
    have hsum : s.cpu.regs.sp - 2 + 2 = s.cpu.regs.sp := by grind
    rw [hword] at hpc
    rw [ht, hafter, hsum] at hback
    exact ⟨hpc, hback⟩

/-- In mode 0 the opcode that is supplied is carried out behind the
halt. -/
theorem AtHalt.supplies {s : Computer μ} {h : UInt16} (hs : s.AtHalt h)
    {channel : UInt8} (hentry : s.interrupt? = some (.maskable channel))
    (him : s.cpu.regs.im = .im0) : ∃ t, Supplies h channel s t := by
  obtain ⟨hhalted, ⟨r, hregs⟩, -, hmemory⟩ := hs
  let heeded := (Exec.heed channel s.atBoundary).2
  let t := (Exec.note
    (.im0Taken channel (2 * channel) heeded.cpu.regs.pc) heeded).2
  have hmode : heeded.cpu.regs.im = .im0 := by
    have hkept := Exec.heed_im channel s.atBoundary
    rw [hregs] at hkept
    exact hkept.trans him
  refine ⟨t, ?_, ?_, ?_, ?_, ?_⟩
  · exact Exec.halted_leaveHalt (Exec.acknowledge channel s.atBoundary).2
  · have hpc := Exec.pc_heed channel hhalted
    rw [hregs] at hpc
    exact hpc
  · have hsp := Exec.sp_heed channel s.atBoundary
    rw [hregs] at hsp
    exact hsp
  · have hheeded := Exec.sameMemory_heed channel s.atBoundary
    exact (hmemory.trans hheeded).trans (.note [_] heeded.board)
  · have hvector := Exec.vector_im0 channel hmode
    have hstep : s.step = _ := Exec.step_of_entry hentry
    rw [hstep]
    dsimp only
    rw [← hvector]
    rfl

/-- At the boundary that comes next the halted computer attends to an
interrupt if one can be taken, and goes on after the halt. -/
structure Attends (h : UInt16) (s : Computer μ) : Prop where
  quiet (hready : s.cpu.eiDelay = false) :
    s.interrupt? = none ↔ s.interruptReady = false
  vectored (entry : Entry) (hentry : s.interrupt? = some entry)
    (hvectored : entry.IsVectored s.cpu.regs.im) : Resumes h entry s
  supplied (channel : UInt8)
    (hentry : s.interrupt? = some (.maskable channel))
    (him : s.cpu.regs.im = .im0) : ∃ t, Supplies h channel s t

/-- So whichever interrupt is taken at a halt, the CPU attends to it and
goes on. -/
theorem AtHalt.attends {s : Computer μ} {h : UInt16} (hs : s.AtHalt h) :
    Attends h s :=
  ⟨hs.interrupt?_eq_none_iff, fun _ => hs.resumes, fun _ => hs.supplies⟩

/-- A halt leaves the program counter on itself and changes nothing else
but what its fetches do. While no interrupt can be taken, idle cycles
follow in any number. Any interrupt that comes, with the halt or after
any number of them, makes the CPU go on after the halt. -/
theorem halt_waits_and_resumes :
    (∀ s : Computer μ, s.cpu.halted = false →
      (Exec.instruct s).2.cpu.halted = true → ∃ h n, s.Halts h n)
    ∧ ∀ (s : Computer μ) (h : UInt16) (n : Nat), s.Halts h n →
      Attends h s
      ∧ (s.interrupt? = none →
        s.step.2.cpu = { s.cpu with
            regs := s.cpu.regs.fetched h (refreshed^[n] s.cpu.regs.r)
            halted := true
            eiDelay := false
            cost := s.cpu.cost + 4 * n }
          ∧ s.board.SameButLog s.step.2.board
          ∧ ∀ acts : List (Board μ → Board μ),
            ¬ Sometime stepAfter
              (fun s act => (s.onBoard act).interruptReady = true)
              acts s.step.2 →
            Rests acts s.step.2
              ∧ Counted acts.length s.step.2.cpu.regs.r
                (acts.foldl stepAfter s.step.2).cpu.regs.r
              ∧ ∀ act, Attends h
                ((acts.foldl stepAfter s.step.2).onBoard act)) := by
  refine ⟨fun s => Exec.halts_of_halted, fun s h n hs => ?_⟩
  refine ⟨hs.atHalt.attends, fun hnone => ?_⟩
  obtain ⟨hwaits, hcpu, hboard⟩ := hs.waits_step hnone
  refine ⟨hcpu, hboard, fun acts hquiet => ?_⟩
  have hrests := hwaits.rests hquiet
  rw [hrests.state]
  refine ⟨hrests, .iterate _ _, fun act => ?_⟩
  exact (((hwaits.onBoard _).resting _).onBoard act).atHalt.attends

/-- A halt after an index byte at address zero, two idle cycles, and then a
non-maskable interrupt. -/
theorem halt_waits_and_resumes_nmi :
    let s := holding [0xFD, 0x76]
    let acts : List (Board Windowed → Board Windowed) := [id, id]
    let waiting := acts.foldl stepAfter s.step.2
    s.Halts 1 2
      ∧ s.step.2.cpu.regs.pc = 1
      ∧ Rests acts s.step.2
      ∧ Counted 2 s.step.2.cpu.regs.r waiting.cpu.regs.r
      ∧ Resumes 1 .nmi (waiting.onBoard (·.onLines (·.raiseNmi))) := by
  intro s acts waiting
  have hs : s.Halts 1 2 :=
    .indexed rfl (by decide +kernel) (by decide +kernel)
  have hnone : s.interrupt? = none := interrupt?_of_idle ⟨rfl, rfl⟩
  obtain ⟨hcpu, -, hacts⟩ := (halt_waits_and_resumes.2 s 1 2 hs).2 hnone
  have hquiet : ¬ Sometime stepAfter
      (fun s act => (s.onBoard act).interruptReady = true)
      acts s.step.2 := by
    rw [Sometime.cons_iff, Sometime.cons_iff, Sometime.nil_iff]
    decide +kernel
  obtain ⟨hrests, hcounted, hattends⟩ := hacts acts hquiet
  have hresumes := (hattends (·.onLines (·.raiseNmi))).vectored .nmi
    (interrupt?_of_nmi rfl) (.inl rfl)
  refine ⟨hs, ?_, hrests, hcounted, hresumes⟩
  rw [hcpu]
  rfl

end Computer
end HomeZ80
