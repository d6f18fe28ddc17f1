/-
What running costs. An instruction has its opcode fetches, at four
T-states each, and a rest that depends on little more than what it is
(`Instruction.mostCost`); over the opcode tables this bounds what any
opcode costs, an interrupt entry with a supplied opcode included
(`Exec.cost_opcode`, `Exec.cost_enter`). The account of the CPU is moved
at the end of a step and nowhere else, by what the step returns.

A bounded loop may be cut anywhere. Whatever ends it, a stop that is
requested or a fault, is looked at in every step alike, so the loop that
is taken up again where it was left goes on as if it had never been left
(`Attended.stepNFrom_add`). This needs nothing of what goes on around the
CPU meanwhile, not even that no stop is requested.

The account and what a loop returns are numbers without a bound. That 64
bits are enough for them, and for how many steps, follows from what a
step may cost (`Computer.counts_lt_size`, `Attended.spent_lt_size`).
-/
import HomeZ80.Cpu.Session
import HomeZ80.Proofs.Cpu.Undefined

namespace HomeZ80

-- ========================================================== instructions

namespace Instruction

/-- A bound on the T-states of an instruction beyond its opcode fetches:
what depends on the operand, and else what the most expensive branch
costs. -/
def mostCost : Instruction → Nat
  | .load dst src => Exec.operandCost 3 dst + Exec.operandCost 3 src
  | .loadByte _ => 11
  | .alu _ src => Exec.operandCost 3 src
  | .inc target | .dec target | .bits _ target =>
    Exec.operandCost 7 target
  | .exStack _ => 15
  | _ => 13

end Instruction

namespace Decode

/-- The most expensive instruction of the main page is the exchange with
the stack. -/
theorem mostCost_main {role : Role} {op : UInt8} {i : Instruction}
    (h : main role op = .instruction i) : i.mostCost ≤ 15 := by
  have hall : ∀ i ∈ (main role op).instruction?, i.mostCost ≤ 15 := by
    clear h
    obtain ⟨⟨v⟩⟩ := op
    revert v
    cases role <;> decide +kernel
  rw [h] at hall
  exact hall i rfl

/-- The bit page has an operand in memory at most. -/
theorem mostCost_bit (op : UInt8) : (bit op).mostCost ≤ 7 := by
  obtain ⟨⟨v⟩⟩ := op
  revert v
  decide +kernel

/-- The extended page has words in memory and the block instructions. -/
theorem mostCost_extended (op : UInt8) : (extended op).mostCost ≤ 13 := by
  obtain ⟨⟨v⟩⟩ := op
  revert v
  decide +kernel

/-- The one instruction of the main page that costs more has an odd
opcode. -/
theorem mostCost_supplied {channel : UInt8} {i : Instruction}
    (h : main .hl (2 * channel) = .instruction i) : i.mostCost ≤ 13 := by
  have hall : ∀ i ∈ (main .hl (2 * channel)).instruction?,
      i.mostCost ≤ 13 := by
    clear h
    obtain ⟨⟨v⟩⟩ := channel
    revert v
    decide +kernel
  rw [h] at hall
  exact hall i rfl

end Decode

namespace Exec

/-- A cost that depends on the branch is bounded by a bound on both. -/
theorem branchCost_le (most : Nat) {yes no : Nat} (hyes : yes ≤ most)
    (hno : no ≤ most) (taken : Bool) : branchCost taken yes no ≤ most := by
  cases taken with
  | true => exact hyes
  | false => exact hno

variable {μ : Type} [Decoder μ]

/-- No branch of an instruction costs more than its bound. -/
theorem cost_execute (i : Instruction) (s : Computer μ) :
    (execute i s).1 ≤ i.mostCost := by
  cases i with
  | load | alu | inc | dec => exact Nat.le_refl _
  | loadByte dst =>
    rcases dst with name | role
    · exact Nat.le_of_ble_eq_true rfl
    · cases role <;> exact Nat.le_of_ble_eq_true rfl
  | bits op target =>
    -- a test costs less than an operation that writes back
    rcases target with name | role
    · cases op <;> exact Nat.le_of_ble_eq_true rfl
    · cases op <;> cases role <;> exact Nat.le_of_ble_eq_true rfl
  | jump | block =>
    simp only [execute, bind_apply]
    split <;> exact Nat.le_of_ble_eq_true rfl
  | jumpRelative =>
    exact branchCost_le 13 (by decide) (by decide) _
  | djnz =>
    exact branchCost_le 13 (by decide) (by decide) _
  | call =>
    simp only [execute, bind_apply]
    split <;> exact branchCost_le 13 (by decide) (by decide) _
  | ret cond =>
    cases cond with
    | none => exact Nat.le_of_ble_eq_true rfl
    | some cond =>
      simp only [execute, bind_apply]
      split <;> exact branchCost_le 13 (by decide) (by decide) _
  | inC name | outC name =>
    cases name <;> exact Nat.le_of_ble_eq_true rfl
  | _ => exact Nat.le_of_ble_eq_true rfl

-- ============================================================== opcodes

/-- A test of a displaced byte costs less than what writes it back. -/
theorem cost_indexedBits (role : Role) (s : Computer μ) :
    (indexedBits role s).1 ≤ 15 := by
  unfold indexedBits
  simp only [bind_apply]
  split
  · exact Nat.le_of_ble_eq_true rfl
  · exact Nat.le_refl 15

/-- The opcode after an index byte, whether it is carried out or left for
the next step. -/
theorem cost_indexed (role : Role) (s : Computer μ) :
    4 ≤ (indexed role s).1 ∧ (indexed role s).1 ≤ 23 := by
  let t := (fetchOpcode s).2
  unfold indexed
  rw [bind_apply]
  cases hop : Decode.main role (fetchOpcode s).1 with
  | instruction i =>
    have hrest := cost_execute i t
    have hmost := Decode.mostCost_main hop
    show 4 ≤ 8 + (execute i t).1 ∧ 8 + (execute i t).1 ≤ 23
    omega
  | bitPage =>
    have hrest := cost_indexedBits role t
    show 4 ≤ 8 + (indexedBits role t).1 ∧ 8 + (indexedBits role t).1 ≤ 23
    omega
  | extendedPage | indexPage other =>
    exact ⟨Nat.le_refl 4, Nat.le_of_ble_eq_true rfl⟩

/-- Whatever opcode is fetched, its fetches are at least one and it costs
no more than 23 with them. -/
theorem cost_opcode (op : UInt8) (s : Computer μ) :
    4 ≤ (opcode op s).1 ∧ (opcode op s).1 ≤ 23 := by
  unfold opcode
  cases hop : Decode.main .hl op with
  | instruction i =>
    have hrest := cost_execute i s
    have hmost := Decode.mostCost_main hop
    show 4 ≤ 4 + (execute i s).1 ∧ 4 + (execute i s).1 ≤ 23
    omega
  | bitPage =>
    let next := fetchOpcode s
    let rest := (execute (Decode.bit next.1) next.2).1
    have hrest : rest ≤ _ := cost_execute (Decode.bit next.1) next.2
    have hmost := Decode.mostCost_bit next.1
    show 4 ≤ 8 + rest ∧ 8 + rest ≤ 23
    omega
  | extendedPage =>
    let next := fetchOpcode s
    let rest := (execute (Decode.extended next.1) next.2).1
    have hrest : rest ≤ _ := cost_execute (Decode.extended next.1) next.2
    have hmost := Decode.mostCost_extended next.1
    show 4 ≤ 8 + rest ∧ 8 + rest ≤ 23
    omega
  | indexPage role => exact cost_indexed role s

/-- An opcode that is supplied is none of the most expensive ones. -/
theorem cost_supplied (channel : UInt8) (s : Computer μ) :
    (opcode (2 * channel) s).1 ≤ 17 := by
  obtain ⟨i, hmain, -⟩ := Decode.main_supplied channel
  have hrest := cost_execute i s
  have hmost := Decode.mostCost_supplied hmain
  unfold opcode
  rw [hmain]
  show 4 + (execute i s).1 ≤ 17
  omega

-- ================================================================ steps

/-- An idle cycle costs as little as any instruction. -/
theorem cost_instruct (s : Computer μ) :
    4 ≤ (instruct s).1 ∧ (instruct s).1 ≤ 23 := by
  unfold instruct
  split
  · exact ⟨Nat.le_refl 4, Nat.le_of_ble_eq_true rfl⟩
  · exact cost_opcode (fetchOpcode s).1 (fetchOpcode s).2

/-- The table is the most expensive way in. -/
theorem cost_vector (channel : UInt8) (s : Computer μ) :
    (vector channel s).1 ≤ 19 := by
  rw [vector, bind_apply]
  dsimp only [regs]
  cases s.cpu.regs.im with
  | im0 =>
    let noted := (note (.im0Taken channel
      (loByte (Controller.offsetOf channel)) s.cpu.regs.pc) s).2
    have hsupplied := cost_supplied channel noted
    rw [← loByte_offsetOf] at hsupplied
    show 2 + (opcode (loByte (Controller.offsetOf channel)) noted).1 ≤ 19
    omega
  | im1 => exact Nat.le_of_ble_eq_true rfl
  | im2 => exact Nat.le_refl 19

/-- A non-maskable entry has a fixed cost, below that. -/
theorem cost_enter (entry : Entry) (s : Computer μ) :
    (enter entry s).1 ≤ 19 := by
  cases entry with
  | nmi => exact Nat.le_of_ble_eq_true rfl
  | maskable channel => exact cost_vector channel (heed channel s).2

/-- An instruction costs up to 23, and an entry up to 19 more. -/
theorem cost_step (s : Computer μ) :
    4 ≤ (step s).1 ∧ (step s).1 ≤ 42 := by
  obtain ⟨hleast, hmost⟩ := cost_instruct s
  cases hentry : s.interrupt? with
  | none =>
    rw [step_of_no_entry hentry]
    dsimp only
    omega
  | some entry =>
    have hentered := cost_enter entry s.atBoundary
    rw [step_of_entry hentry]
    dsimp only
    omega

end Exec

-- ========================================================== the account

/-- The account depends on neither the registers nor the halt. -/
theorem Cpu.aside_cost : Aside Cpu.cost where
  apart _ := rfl
  halted _ _ := rfl

/-- No instruction touches the account. -/
theorem Instruction.cost_mark (i : Instruction) (c : Cpu) :
    (i.mark c).cost = c.cost := by
  cases i <;> rfl

namespace Exec

variable {μ : Type} [Decoder μ]

/-- No opcode moves the account by itself. -/
theorem account_opcode (op : UInt8) (s : Computer μ) :
    (opcode op s).2.cpu.cost = s.cpu.cost := by
  rw [Cpu.aside_cost.opcode]
  cases decoded? op s with
  | none => rfl
  | some i => exact i.cost_mark s.cpu

/-- The account is at the boundary what it was before the instruction. -/
theorem account_instruct (s : Computer μ) :
    (instruct s).2.cpu.cost = s.cpu.cost := by
  unfold instruct
  split
  · rfl
  · exact account_opcode (fetchOpcode s).1 (fetchOpcode s).2

/-- What a step returns is what it adds to the account. -/
theorem account_step (s : Computer μ) :
    (step s).2.cpu.cost = s.cpu.cost + (step s).1 := by
  have hat : s.atBoundary.cpu.cost = s.cpu.cost := account_instruct s
  cases hentry : s.interrupt? with
  | none =>
    rw [step_of_no_entry hentry]
    show s.atBoundary.cpu.cost + _ = _
    rw [hat]
  | some entry =>
    rw [step_of_entry hentry]
    show (enter entry s.atBoundary).2.cpu.cost + _ = _
    rw [Cpu.aside_cost.enter, hat]

end Exec

-- ============================================================= the loop

namespace Attended

variable {σ μ : Type} [Decoder μ] [Attendant σ μ]

omit [Decoder μ] in
/-- What happens before a fetch happens to the board. -/
theorem cpu_beforeStep (s : Attended σ μ) :
    s.beforeStep.computer.cpu = s.computer.cpu := by
  unfold beforeStep
  dsimp only
  split <;> rfl

/-- The attendant has no part in what a step costs. -/
theorem account_step (s : Attended σ μ) :
    s.step.2.computer.cpu.cost = s.computer.cpu.cost + s.step.1 := by
  rw [← cpu_beforeStep s]
  exact Exec.account_step s.beforeStep.computer

/-- A loop that is cut is taken up again where it was left, with what was
spent before. -/
theorem stepNFrom_add (spent m n : Nat) (s : Attended σ μ) :
    s.stepNFrom spent (m + n) =
      match s.stepNFrom spent m with
      | (.ok t, s') => s'.stepNFrom t n
      | (.error fault, s') => (.error fault, s') := by
  induction m generalizing spent s with
  | zero =>
    rw [Nat.zero_add]
    rfl
  | succ m ih =>
    rw [Nat.succ_add]
    cases hstop : s.computer.board.lines.stop with
    | true =>
      -- the stop is still there when the loop is taken up
      rw [stepNFrom_stopped hstop, stepNFrom_stopped hstop]
      exact (stepNFrom_stopped hstop spent n).symm
    | false =>
      rw [stepNFrom_succ hstop, stepNFrom_succ hstop]
      cases hlatch : s.step.2.computer.latch with
      | some fault => rfl
      | none => exact ih (spent + s.step.1) s.step.2

/-- What was spent before is added to what the loop returns, and has no
other effect. -/
theorem stepNFrom_spent (spent t n : Nat) (s : Attended σ μ) :
    s.stepNFrom (spent + t) n
      = ((s.stepNFrom t n).1.map (spent + ·), (s.stepNFrom t n).2) := by
  induction n generalizing t s with
  | zero => rfl
  | succ n ih =>
    cases hstop : s.computer.board.lines.stop with
    | true =>
      rw [stepNFrom_stopped hstop, stepNFrom_stopped hstop]
      rfl
    | false =>
      rw [stepNFrom_succ hstop, stepNFrom_succ hstop]
      cases hlatch : s.step.2.computer.latch with
      | some fault => rfl
      | none =>
        dsimp only
        rw [Nat.add_assoc]
        exact ih (t + s.step.1) s.step.2

/-- A loop is the same as its two parts. -/
theorem stepN_add {m t₁ : Nat} {s s₁ : Attended σ μ}
    (h : s.stepN m = (.ok t₁, s₁)) (n : Nat) :
    s.stepN (m + n) = ((s₁.stepN n).1.map (t₁ + ·), (s₁.stepN n).2) := by
  have hfirst : s.stepNFrom 0 m = (.ok t₁, s₁) := h
  have hrest := stepNFrom_spent t₁ 0 n s₁
  unfold stepN
  rw [stepNFrom_add, hfirst]
  exact hrest

/-- A fault in the first part is the fault of the whole. -/
theorem stepN_add_of_error {m : Nat} {fault : Fault} {s s₁ : Attended σ μ}
    (h : s.stepN m = (.error fault, s₁)) (n : Nat) :
    s.stepN (m + n) = (.error fault, s₁) := by
  have hfirst : s.stepNFrom 0 m = (.error fault, s₁) := h
  unfold stepN
  rw [stepNFrom_add, hfirst]

/-- What a loop without a fault has spent is on the account, and is
within the bounds of its steps. That it has made all of them, and spent
something on each, needs that no stop was requested. -/
theorem account_stepNFrom {spent n t : Nat} {s s' : Attended σ μ}
    (h : s.stepNFrom spent n = (.ok t, s')) :
    s'.computer.cpu.cost + spent = s.computer.cpu.cost + t
      ∧ t ≤ spent + 42 * n
      ∧ (s'.computer.board.lines.stop = false → spent + 4 * n ≤ t) := by
  induction n generalizing spent s with
  | zero =>
    cases h
    exact ⟨rfl, Nat.le_refl _, fun _ => Nat.le_refl _⟩
  | succ n ih =>
    cases hstop : s.computer.board.lines.stop with
    | true =>
      rw [stepNFrom_stopped hstop] at h
      cases h
      refine ⟨rfl, by omega, fun hnone => ?_⟩
      rw [hstop] at hnone
      cases hnone
    | false =>
      rw [stepNFrom_succ hstop] at h
      cases hlatch : s.step.2.computer.latch with
      | some fault =>
        rw [hlatch] at h
        cases h
      | none =>
        rw [hlatch] at h
        obtain ⟨haccount, hmost, hleast⟩ := ih h
        obtain ⟨hstepLeast, hstepMost⟩ :=
          Exec.cost_step s.beforeStep.computer
        have hstep := account_step s
        have hcycles : s.step.1 = (Exec.step s.beforeStep.computer).1 := rfl
        refine ⟨by omega, by omega, fun hnone => ?_⟩
        have hrest := hleast hnone
        omega

theorem account_stepN {n t : Nat} {s s' : Attended σ μ}
    (h : s.stepN n = (.ok t, s'))
    (hstop : s'.computer.board.lines.stop = false) :
    s'.computer.cpu.cost = s.computer.cpu.cost + t
      ∧ 4 * n ≤ t ∧ t ≤ 42 * n := by
  obtain ⟨haccount, hmost, hleast⟩ := account_stepNFrom h
  have hrest := hleast hstop
  omega

/-- What a bounded loop returns fits in a word of 64 bits, even if every
one of its steps is as expensive as a step can be. -/
theorem spent_lt_size {n t : Nat} {s s' : Attended σ μ}
    (h : s.stepN n = (.ok t, s')) (hn : n ≤ 2 ^ 58) :
    t < UInt64.size := by
  have hmost : t ≤ 0 + 42 * n := (account_stepNFrom h).2.1
  have hsize : UInt64.size = 2 ^ 64 := rfl
  omega

end Attended

namespace Computer

variable {μ : Type} [Decoder μ]

-- ==================================================== 64 bits are enough

/-- A run spends no more than 42 T-states for each of its steps, whatever
is done to the board in between. -/
theorem cost_run_le (acts : List (Board μ → Board μ)) (s : Computer μ) :
    (acts.foldl stepAfter s).cpu.cost ≤ s.cpu.cost + 42 * acts.length := by
  induction acts generalizing s with
  | nil => exact Nat.le_refl _
  | cons act rest ih =>
    have haccount : (s.stepAfter act).cpu.cost = s.cpu.cost + _ :=
      Exec.account_step (s.onBoard act)
    have hmost := (Exec.cost_step (s.onBoard act)).2
    have hrest := ih (s.stepAfter act)
    rw [List.foldl_cons, List.length_cons]
    omega

/-- A step counts at most one opcode that stands for nothing. -/
theorem undefinedAlong_le (acts : List (Board μ → Board μ))
    (s : Computer μ) : s.undefinedAlong acts ≤ acts.length := by
  induction acts generalizing s with
  | nil => exact Nat.le_refl 0
  | cons act rest ih =>
    have hrest := ih (s.stepAfter act)
    rw [undefinedAlong, List.length_cons]
    split <;> omega

/-- The two counts have no bound here. Words of 64 bits hold them for as
long as a CPU makes no more than 2 ^ 58 steps after its reset, and then
they never wrap. -/
theorem counts_lt_size {acts : List (Board μ → Board μ)}
    (h : acts.length ≤ 2 ^ 58) (b : Board μ) :
    let s := acts.foldl stepAfter ⟨{}, b⟩
    s.cpu.cost < UInt64.size ∧ s.cpu.undefinedCount < UInt64.size := by
  have hcost : _ ≤ 0 + 42 * acts.length := cost_run_le acts ⟨{}, b⟩
  have hcount := undefinedAlong_le acts ⟨{}, b⟩
  have hsize : UInt64.size = 2 ^ 64 := rfl
  dsimp only
  rw [undefinedCount_run]
  constructor
  · omega
  · show 0 + _ < _
    omega

-- ======================================================= the plain loop

/-- No program requests a stop. -/
theorem stop_steps (n : Nat) (s : Computer μ) :
    (s.steps n).board.lines.stop = s.board.lines.stop := by
  induction n with
  | zero => rfl
  | succ n ih =>
    rw [steps_succ, ← ih]
    exact Exec.stop_step (s.steps n)

/-- The plain loop is the loop with nothing going on around it. -/
theorem stepN_unit_iff {n : Nat} {s s₁ : Computer μ}
    {result : Except Fault Nat} :
    (⟨(), s⟩ : Attended Unit μ).stepN n = (result, ⟨(), s₁⟩)
      ↔ s.stepN n = (result, s₁) := by
  constructor
  · intro h
    have hresult := congrArg Prod.fst h
    have hafter := congrArg (fun p => p.2.computer) h
    exact Prod.ext hresult hafter
  · intro h
    obtain ⟨hresult, hafter⟩ := Prod.mk.inj h
    exact Prod.ext hresult (congrArg (Attended.mk ()) hafter)

/-- A loop that nobody disturbs ends without a request to stop, if it began
without one. -/
theorem stop_stepN {n t : Nat} {s s₁ : Computer μ}
    (hstop : s.board.lines.stop = false) (h : s.stepN n = (.ok t, s₁)) :
    s₁.board.lines.stop = false := by
  rcases faultsFirst_or_clear n s with ⟨k, fault, hle, hfirst⟩ | hclear
  · rw [stepN_of_faultsFirst hstop hfirst hle] at h
    cases h
  · rw [stepN_of_clear hstop hclear] at h
    obtain ⟨-, rfl⟩ := Prod.mk.inj h
    rw [stop_steps, hstop]

/-- A step costs between 4 and 42 T-states and puts them on the account.
A bounded loop may be cut anywhere: what it does is what its first part
and its second part do one after the other, and what it returns is what
the second part returns with what the first part spent, or the fault that
either of them meets. A loop without a fault and without a stop spends,
and puts on the account, between 4 and 42 T-states for each of its steps.
This is so whatever goes on around the CPU. -/
theorem costs_compose (s : Computer μ) :
    (4 ≤ s.step.1 ∧ s.step.1 ≤ 42
      ∧ s.step.2.cpu.cost = s.cpu.cost + s.step.1)
    ∧ (∀ m n t₁ s₁, s.stepN m = (.ok t₁, s₁) →
      s.stepN (m + n) = ((s₁.stepN n).1.map (t₁ + ·), (s₁.stepN n).2))
    ∧ (∀ m n fault s₁, s.stepN m = (.error fault, s₁) →
      s.stepN (m + n) = (.error fault, s₁))
    ∧ (s.board.lines.stop = false → ∀ n t s₁, s.stepN n = (.ok t, s₁) →
      s₁.cpu.cost = s.cpu.cost + t ∧ 4 * n ≤ t ∧ t ≤ 42 * n)
    ∧ ∀ (σ : Type) [Attendant σ μ] (w : σ),
      (∀ m n t₁ a₁, Attended.stepN m ⟨w, s⟩ = (.ok t₁, a₁) →
        Attended.stepN (m + n) ⟨w, s⟩
          = ((a₁.stepN n).1.map (t₁ + ·), (a₁.stepN n).2))
      ∧ (∀ m n fault a₁, Attended.stepN m ⟨w, s⟩ = (.error fault, a₁) →
        Attended.stepN (m + n) ⟨w, s⟩ = (.error fault, a₁))
      ∧ ∀ n t a₁, Attended.stepN n ⟨w, s⟩ = (.ok t, a₁) →
        a₁.computer.board.lines.stop = false →
        a₁.computer.cpu.cost = s.cpu.cost + t
          ∧ 4 * n ≤ t ∧ t ≤ 42 * n := by
  obtain ⟨hleast, hmost⟩ := Exec.cost_step s
  refine ⟨⟨hleast, hmost, Exec.account_step s⟩, ?_, ?_, ?_,
    fun σ _ w => ⟨?_, ?_, ?_⟩⟩
  · intro m n t₁ s₁ h
    exact stepN_unit_iff.1 (Attended.stepN_add (stepN_unit_iff.2 h) n)
  · intro m n fault s₁ h
    exact stepN_unit_iff.1
      (Attended.stepN_add_of_error (stepN_unit_iff.2 h) n)
  · intro hstop n t s₁ h
    exact Attended.account_stepN (stepN_unit_iff.2 h) (stop_stepN hstop h)
  · intro m n t₁ a₁ h
    exact Attended.stepN_add h n
  · intro m n fault a₁ h
    exact Attended.stepN_add_of_error h n
  · intro n t a₁ h hstop
    exact Attended.account_stepN h hstop

/-- The most expensive step there is: an exchange of the stack with an
index register, and an entry through the table. The loop that goes on
after it exchanges once more. Where memory ends a loop meets a fault, and
meets the same one if it may go further; and a session may ask for a stop
on the way. -/
theorem costs_compose_interrupted :
    let s := { (holding [0xDD, 0xE3, 0, 0, 0, 0]).onBoard
      (·.onLines (·.assertIrq 1)) with cpu.regs.sp := 4 }
    let short := holding [0]
    let w : Session Windowed := { cues := [⟨2, .stop⟩] }
    let stopping : Attended (Session Windowed) Windowed :=
      ⟨w, holding [0, 0, 0, 0]⟩
    s.step.1 = 42
      ∧ s.step.2.cpu.cost = 42
      ∧ (s.stepN 1).1 = .ok 42
      ∧ (s.stepN 2).1 = .ok 65
      ∧ s.stepN 2 = (((s.stepN 1).2.stepN 1).1.map (42 + ·),
        ((s.stepN 1).2.stepN 1).2)
      ∧ (s.stepN 2).2.cpu.cost = 65
      ∧ (short.stepN 2).1 = .error (.outOfRange "memory" 1)
      ∧ short.stepN 5 = short.stepN 2
      ∧ (stopping.stepN 4).1 = .ok 8
      ∧ stopping.stepN 4 = (((stopping.stepN 1).2.stepN 3).1.map (4 + ·),
        ((stopping.stepN 1).2.stepN 3).2)
      ∧ (stopping.stepN 1).2.computer.cpu.cost = 4 := by
  intro s short w stopping
  obtain ⟨⟨-, -, hstep⟩, hadd, -, haccount, -⟩ := costs_compose s
  obtain ⟨-, -, hfault, -⟩ := costs_compose short
  obtain ⟨-, -, -, -, haround⟩ := costs_compose stopping.computer
  obtain ⟨haddAround, -, haccountAround⟩ := haround (Session Windowed) w
  have hcycles : s.step.1 = 42 := by decide +kernel
  have hfirst : (s.stepN 1).1 = .ok 42 := by decide +kernel
  have hboth : (s.stepN 2).1 = .ok 65 := by decide +kernel
  have hcost : s.step.2.cpu.cost = 42 := by
    rw [hstep, hcycles]
    rfl
  have hmissed : (short.stepN 2).1 = .error (.outOfRange "memory" 1) := by
    decide +kernel
  have hshort : short.stepN 2
      = (.error (.outOfRange "memory" 1), (short.stepN 2).2) :=
    Prod.ext hmissed rfl
  have hnop : (stopping.stepN 1).1 = .ok 4 := by decide +kernel
  have hstop : (stopping.stepN 1).2.computer.board.lines.stop = false := by
    decide +kernel
  exact ⟨hcycles, hcost, hfirst, hboth,
    hadd 1 1 42 _ (Prod.ext hfirst rfl),
    (haccount rfl 2 65 _ (Prod.ext hboth rfl)).1,
    hmissed, (hfault 2 3 _ _ hshort).trans hshort.symm,
    by decide +kernel,
    haddAround 1 3 4 _ (Prod.ext hnop rfl),
    (haccountAround 1 4 _ (Prod.ext hnop rfl) hstop).1⟩

end Computer
end HomeZ80
