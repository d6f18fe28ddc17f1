/-
The two interrupt flip-flops. The first one says whether maskable
interrupts are accepted; the second one remembers this while a
non-maskable interrupt is served.

Five things move them (`FlipMove`): the instructions that enable and
disable interrupts, the return from a non-maskable interrupt, and the two
kinds of entry. Each step makes the moves that its instruction and its
entry stand for, and no other (`Exec.flips_step`), so after a run the
flip-flops are what the moves of the run have made of them
(`Computer.flips_run`). What can be said about them is then said about
lists of moves. They are equal at power-on, and after that they differ
exactly as long as the last move of all is a non-maskable entry that
found interrupts enabled (`Computer.differ_run`), so that a handler which
makes no move of its own returns to the value it has interrupted
(`Computer.restored`).

An opcode that an interrupt supplies in mode 0 is even, and all codes
that move a flip-flop begin with an odd byte. So what is executed on
behalf of a maskable interrupt never moves them.
-/
import HomeZ80.Proofs.Cpu.Apart
import HomeZ80.Proofs.Cpu.Writers

namespace HomeZ80

/-- The flip-flops, the first one first. -/
def Registers.flips (r : Registers) : Bool × Bool := (r.iff1, r.iff2)

/-- What moves the flip-flops. -/
inductive FlipMove where
  | enable
  | disable
  /-- The return from a non-maskable interrupt. -/
  | restore
  | nmi
  | maskable
  deriving DecidableEq, Repr

namespace FlipMove

/-- The flip-flops after a move. -/
def act (flips : Bool × Bool) : FlipMove → Bool × Bool
  | .enable => (true, true)
  | .disable => (false, false)
  | .restore => (flips.2, flips.2)
  | .nmi => (false, flips.1)
  | .maskable => (false, false)

/-- The move of the instruction with a code. The return has eight
codes. -/
def ofCode? (code : Code) : Option FlipMove :=
  if Guarded.isPlain [0xFB] code then some .enable
  else if Guarded.isPlain [0xF3] code then some .disable
  else if Guarded.isColumn 5 code then some .restore
  else none

/-- The move of an instruction. -/
def ofInstruction? : Instruction → Option FlipMove
  | .ei => some .enable
  | .di => some .disable
  | .retn => some .restore
  | _ => none

def ofEntry : Entry → FlipMove
  | .nmi => .nmi
  | .maskable _ => .maskable

/-- A code that stands for no move is that of no writer. -/
theorem isWriter_of_ofCode? {code : Code} (h : ofCode? code = none) :
    Guarded.iff1.isWriter code = false := by
  have hplain : Guarded.isPlain [0xF3, 0xFB] code
      = (Guarded.isPlain [0xF3] code || Guarded.isPlain [0xFB] code) := by
    simp only [Guarded.isPlain, List.any_cons, List.any_nil, Bool.or_false]
  show (Guarded.isPlain [0xF3, 0xFB] code || Guarded.isColumn 5 code)
    = false
  unfold ofCode? at h
  split at h
  · cases h
  · next henable =>
    split at h
    · cases h
    · next hdisable =>
      split at h
      · cases h
      · next hrestore =>
        rw [hplain]
        simp [henable, hdisable, hrestore]

/-- Twice a channel begins no code that stands for a move. -/
theorem ofCode?_of_even (channel : UInt8) (rest : Code) :
    ofCode? (2 * channel :: rest) = none := by
  have hodd : ∀ lead ∈ [0xFB, 0xF3, 0xED, 0xDD, 0xFD],
      2 * channel ≠ (lead : UInt8) := by
    obtain ⟨⟨v⟩⟩ := channel
    revert v
    decide +kernel
  have hcolumn : Guarded.isColumn 5 (2 * channel :: rest) = false := by
    unfold Guarded.isColumn
    split
    · next op hcode =>
      exact absurd (List.cons.inj hcode).1 (hodd _ (by decide))
    · rfl
  simp only [List.forall_mem_cons] at hodd
  obtain ⟨hei, hdi, -, hix, hiy, -⟩ := hodd
  simp [ofCode?, Guarded.isPlain, hcolumn, hei, hdi, hix, hiy]

-- ======================================================= moves in a row

variable {flips : Bool × Bool} {moves : List FlipMove}

/-- No move makes equal flip-flops differ, but a non-maskable entry. -/
theorem act_eq (flips : Bool × Bool) {m : FlipMove} (hm : m ≠ .nmi) :
    (act flips m).1 = (act flips m).2 := by
  cases m with
  | nmi => exact absurd rfl hm
  | enable | disable | restore | maskable => rfl

/-- No move sets the first flip-flop without the second one. -/
theorem act_le (flips : Bool × Bool) (m : FlipMove) :
    (act flips m).1 = true → (act flips m).2 = true := by
  cases m with
  | enable => exact fun _ => rfl
  | restore => exact id
  | disable | nmi | maskable => nofun

/-- No series of moves sets the first flip-flop and not the second. -/
theorem foldl_le (h : flips.1 = true → flips.2 = true) :
    (moves.foldl act flips).1 = true →
      (moves.foldl act flips).2 = true := by
  induction moves generalizing flips with
  | nil => exact h
  | cons m rest ih => exact ih (act_le flips m)

end FlipMove

-- ======================================================== instructions

namespace Decode

/-- The codes are those of the instructions that make the moves. -/
theorem flipMove_main (role : Role) (op : UInt8) :
    (match main role op with
      | .instruction i => FlipMove.ofInstruction? i
      | _ => none) = FlipMove.ofCode? (role.code ++ [op]) := by
  obtain ⟨⟨v⟩⟩ := op
  revert v
  cases role <;> decide +kernel

/-- On the extended page the moves are those of the returns from an
interrupt. -/
theorem flipMove_extended (op : UInt8) :
    FlipMove.ofInstruction? (extended op)
      = FlipMove.ofCode? [0xED, op] := by
  obtain ⟨⟨v⟩⟩ := op
  revert v
  decide +kernel

/-- On the bit page there are none. -/
theorem flipMove_bit (op : UInt8) :
    FlipMove.ofInstruction? (bit op) = FlipMove.ofCode? [0xCB, op] := by
  obtain ⟨⟨v⟩⟩ := op
  revert v
  decide +kernel

end Decode

/-- Flip-flops that hold the same are the same. -/
theorem Registers.flips_eq_of_value {r r' : Registers}
    (h1 : Guarded.iff1.value r' = Guarded.iff1.value r)
    (h2 : Guarded.iff2.value r' = Guarded.iff2.value r) :
    r'.flips = r.flips := by
  have hbit : ∀ a b : Bool, a.toNat = b.toNat → a = b := by decide
  exact Prod.ext (hbit _ _ h1) (hbit _ _ h2)

namespace Exec

variable {μ : Type}

/-- Whatever leaves both flip-flops alone leaves the pair alone. -/
theorem flips_of_spares {α : Type} (m : Exec μ α) [Spares .iff1 m]
    [Spares .iff2 m] (s : Computer μ) :
    (m s).2.cpu.regs.flips = s.cpu.regs.flips :=
  Registers.flips_eq_of_value (Spares.value_eq s) (Spares.value_eq s)

variable [Decoder μ]

/-- So the code of an opcode tells the move of what it leads to. -/
theorem flipMove_decoded (op : UInt8) (s : Computer μ) :
    (decoded? op s).bind FlipMove.ofInstruction?
      = FlipMove.ofCode? (codeOf op s) := by
  have hbyte := Decode.leadsOn op
  unfold decoded? codeOf
  cases hop : Decode.main .hl op with
  | instruction i =>
    have hmain := Decode.flipMove_main .hl op
    rw [hop] at hmain
    exact hmain
  | bitPage =>
    rw [hbyte.bitPage hop]
    exact Decode.flipMove_bit _
  | extendedPage =>
    rw [hbyte.extendedPage hop]
    exact Decode.flipMove_extended _
  | indexPage role =>
    have hmain := Decode.flipMove_main role (fetchOpcode s).1
    rw [hbyte.indexPage role hop] at hmain
    dsimp only
    rw [show [op, (fetchOpcode s).1] = [op] ++ [(fetchOpcode s).1] from rfl,
      ← hmain]
    cases Decode.main role (fetchOpcode s).1 <;> rfl

/-- An instruction makes the move that it stands for. -/
theorem flips_execute {i : Instruction} {move : FlipMove}
    (h : FlipMove.ofInstruction? i = some move) (s : Computer μ) :
    (execute i s).2.cpu.regs.flips = move.act s.cpu.regs.flips := by
  cases i with
  | ei | di | retn =>
    obtain rfl := Option.some.inj h
    rfl
  | _ => cases h

/-- The fetches that lead to it make none. -/
theorem flips_ledTo (op : UInt8) (s : Computer μ) :
    (ledTo op s).cpu.regs.flips = s.cpu.regs.flips := by
  unfold ledTo
  split
  · rfl
  · exact flips_of_spares fetchOpcode s
  · exact flips_of_spares fetchOpcode s
  · exact flips_of_spares fetchOpcode s

/-- An instruction makes the move that its code stands for, if any. -/
theorem flips_opcode (op : UInt8) (s : Computer μ) :
    (opcode op s).2.cpu.regs.flips
      = (FlipMove.ofCode? (codeOf op s)).toList.foldl FlipMove.act
        s.cpu.regs.flips := by
  cases hmove : FlipMove.ofCode? (codeOf op s) with
  | some move =>
    rw [← flipMove_decoded, Option.bind_eq_some_iff] at hmove
    obtain ⟨i, hi, hmove⟩ := hmove
    rw [opcode_of_decoded hi, flips_execute hmove, flips_ledTo]
    rfl
  | none =>
    have hspared := FlipMove.isWriter_of_ofCode? hmove
    exact Registers.flips_eq_of_value (value_opcode hspared)
      (value_opcode hspared)

end Exec

-- ================================================================ steps

variable {μ : Type} [Decoder μ]

namespace Computer

/-- The move of the next instruction. -/
def instructionMove? (s : Computer μ) : Option FlipMove :=
  if s.cpu.halted then none
  else
    FlipMove.ofCode?
      (Exec.codeOf (Exec.fetchOpcode s).1 (Exec.fetchOpcode s).2)

/-- The moves of the next step: that of its instruction, then that of the
entry. -/
def flipMoves (s : Computer μ) : List FlipMove :=
  s.instructionMove?.toList
    ++ (s.interrupt?.map FlipMove.ofEntry).toList

end Computer

namespace Exec

theorem flips_instruct (s : Computer μ) :
    (instruct s).2.cpu.regs.flips
      = s.instructionMove?.toList.foldl FlipMove.act s.cpu.regs.flips := by
  unfold instruct Computer.instructionMove?
  cases hhalted : s.cpu.halted with
  | true => exact flips_of_spares (modifyRegs (·.refresh)) s
  | false =>
    have hop := flips_opcode (fetchOpcode s).1 (fetchOpcode s).2
    rw [flips_of_spares fetchOpcode s] at hop
    exact hop

omit [Decoder μ] in
theorem flips_leaveHalt (s : Computer μ) :
    (leaveHalt s).2.cpu.regs.flips = s.cpu.regs.flips :=
  Registers.flips_eq_of_value (value_leaveHalt _ s) (value_leaveHalt _ s)

/-- A non-maskable entry saves the first flip-flop in the second and clears
it. -/
theorem flips_enterNmi (s : Computer μ) :
    (enterNmi s).2.cpu.regs.flips
      = FlipMove.act s.cpu.regs.flips .nmi := by
  let t := (modifyBoard (·.onLines (·.clearNmi)) s).2
  have hleave : (leaveHalt t).2.cpu.regs.flips = s.cpu.regs.flips :=
    flips_leaveHalt t
  show (false, (leaveHalt t).2.cpu.regs.iff1) = _
  exact congrArg (FlipMove.act · .nmi) hleave

/-- An opcode that is supplied with a channel makes no move. -/
theorem ofCode?_supplied (channel : UInt8) (s : Computer μ) :
    FlipMove.ofCode? (codeOf (2 * channel) s) = none := by
  unfold codeOf
  split <;> exact FlipMove.ofCode?_of_even _ _

/-- Where a maskable interrupt leads to, no flip-flop moves. -/
theorem flips_vector (channel : UInt8) (s : Computer μ) :
    (vector channel s).2.cpu.regs.flips = s.cpu.regs.flips := by
  cases him : s.cpu.regs.im with
  | im0 =>
    rw [vector_im0 channel him, flips_opcode, ofCode?_supplied]
    rfl
  | im1 | im2 =>
    rw [vector, bind_apply]
    dsimp only [regs]
    rw [him]
    rfl

/-- Every entry makes the move of its kind. -/
theorem flips_enter (entry : Entry) (s : Computer μ) :
    (enter entry s).2.cpu.regs.flips
      = FlipMove.act s.cpu.regs.flips (.ofEntry entry) := by
  cases entry with
  | nmi => exact flips_enterNmi s
  | maskable channel => exact flips_vector channel (heed channel s).2

/-- A step makes the moves of its instruction and of its entry. -/
theorem flips_step (s : Computer μ) :
    (step s).2.cpu.regs.flips
      = s.flipMoves.foldl FlipMove.act s.cpu.regs.flips := by
  have hinstruct : s.atBoundary.cpu.regs.flips = _ := flips_instruct s
  unfold Computer.flipMoves
  rw [List.foldl_append, ← hinstruct]
  cases hentry : s.interrupt? with
  | none =>
    rw [step_of_no_entry hentry]
    rfl
  | some entry =>
    rw [step_of_entry hentry]
    exact flips_enter entry s.atBoundary

end Exec

-- ================================================================= runs

namespace Computer

/-- The moves of a run, in which something happens to the board before
each step. -/
def movesAlong : List (Board μ → Board μ) → Computer μ → List FlipMove
  | [], _ => []
  | act :: rest, s =>
    (s.onBoard act).flipMoves ++ movesAlong rest (s.stepAfter act)

/-- A run makes the moves of its steps, in their order. -/
theorem flips_run (acts : List (Board μ → Board μ)) (s : Computer μ) :
    (acts.foldl stepAfter s).cpu.regs.flips
      = (s.movesAlong acts).foldl FlipMove.act s.cpu.regs.flips := by
  induction acts generalizing s with
  | nil => rfl
  | cons act rest ih =>
    have hstep : (s.stepAfter act).cpu.regs.flips = _ :=
      Exec.flips_step (s.onBoard act)
    rw [List.foldl_cons, ih, hstep, movesAlong, List.foldl_append]
    rfl

-- ========================================================= differences

/-- The next step takes a non-maskable interrupt that finds interrupts
enabled. -/
def SavesEnabled (s : Computer μ) : Prop :=
  s.interrupt? = some .nmi ∧ s.atBoundary.cpu.regs.iff1 = true

/-- A step of a run has saved that interrupts were enabled, and nothing
has moved the flip-flops since. -/
def SavedSince (acts : List (Board μ → Board μ)) (s : Computer μ) :
    Prop :=
  ∃ before act rest, acts = before ++ act :: rest ∧
    let t := (before.foldl stepAfter s).onBoard act
    t.SavesEnabled ∧ t.step.2.movesAlong rest = []

/-- Before anything is run nothing is saved. -/
theorem savedSince_nil (s : Computer μ) : ¬ SavedSince [] s := by
  rintro ⟨before, act, rest, hacts, -⟩
  cases before <;> cases hacts

/-- Either the first step saves and no move follows, or a later one
does. -/
theorem savedSince_cons (act : Board μ → Board μ)
    (rest : List (Board μ → Board μ)) (s : Computer μ) :
    SavedSince (act :: rest) s
      ↔ (s.onBoard act).SavesEnabled
          ∧ (s.stepAfter act).movesAlong rest = []
        ∨ SavedSince rest (s.stepAfter act) := by
  constructor
  · rintro ⟨before, last, later, hacts, hsaved⟩
    cases before with
    | nil =>
      cases hacts
      exact .inl hsaved
    | cons first before =>
      cases hacts
      exact .inr ⟨before, last, later, rfl, hsaved⟩
  · rintro (hsaved | ⟨before, last, later, rfl, hsaved⟩)
    · exact ⟨[], act, rest, rfl, hsaved⟩
    · exact ⟨act :: before, last, later, rfl, hsaved⟩

/-- The moves of instructions are none of entries. -/
theorem ne_nmi_of_instructionMove? {s : Computer μ} {m : FlipMove}
    (h : s.instructionMove? = some m) : m ≠ .nmi ∧ m ≠ .maskable := by
  unfold instructionMove? FlipMove.ofCode? at h
  split at h
  · cases h
  · split at h
    · cases h
      decide
    · split at h
      · cases h
        decide
      · split at h <;> cases h
        decide

/-- After a step the flip-flops differ if it saves that interrupts were
enabled, or if they did so before and it does not move them. -/
theorem differ_step (s : Computer μ) :
    s.step.2.cpu.regs.iff1 ≠ s.step.2.cpu.regs.iff2
      ↔ s.SavesEnabled
        ∨ s.flipMoves = [] ∧ s.cpu.regs.iff1 ≠ s.cpu.regs.iff2 := by
  unfold SavesEnabled
  cases hentry : s.interrupt? with
  | some entry =>
    have hmoves : s.flipMoves ≠ [] := by simp [flipMoves, hentry]
    have hflips : s.step.2.cpu.regs.flips = _ :=
      congrArg (fun r => r.2.cpu.regs.flips) (Exec.step_of_entry hentry)
    replace hflips := hflips.trans (Exec.flips_enter entry s.atBoundary)
    obtain ⟨h1, h2⟩ := Prod.mk.inj hflips
    rw [h1, h2]
    cases entry with
    | nmi =>
      show false ≠ s.atBoundary.cpu.regs.iff1 ↔ _
      cases s.atBoundary.cpu.regs.iff1 <;> simp [hmoves]
    | maskable channel => simp [hmoves, FlipMove.ofEntry]
  | none =>
    have hflips : s.step.2.cpu.regs.flips = _ := Exec.flips_step s
    obtain ⟨h1, h2⟩ := Prod.mk.inj hflips
    rw [h1, h2]
    have hmoves : s.flipMoves = s.instructionMove?.toList := by
      simp [flipMoves, hentry]
    rw [hmoves]
    cases hmove : s.instructionMove? with
    | none => simp [Registers.flips]
    | some m =>
      have heq := FlipMove.act_eq s.cpu.regs.flips
        (ne_nmi_of_instructionMove? hmove).1
      simp [heq]

/-- After a run the flip-flops differ if the enabled state was saved in
it and not touched since, or if they differed at first and nothing has
moved them. -/
theorem differ_run (acts : List (Board μ → Board μ)) (s : Computer μ) :
    let t := acts.foldl stepAfter s
    t.cpu.regs.iff1 ≠ t.cpu.regs.iff2
      ↔ SavedSince acts s
        ∨ s.movesAlong acts = [] ∧ s.cpu.regs.iff1 ≠ s.cpu.regs.iff2 := by
  induction acts generalizing s with
  | nil =>
    have hnil := savedSince_nil s
    simp [hnil, movesAlong]
  | cons act rest ih =>
    have hfirst := differ_step (s.onBoard act)
    have hrest := ih (s.stepAfter act)
    dsimp only at hrest ⊢
    rw [List.foldl_cons, hrest, savedSince_cons]
    show _ ∨ _ ∧ (s.onBoard act).step.2.cpu.regs.iff1
      ≠ (s.onBoard act).step.2.cpu.regs.iff2 ↔ _
    rw [hfirst, movesAlong, List.append_eq_nil_iff]
    show _ ↔ _ ∨ _ ∧ (s.onBoard act).cpu.regs.iff1
      ≠ (s.onBoard act).cpu.regs.iff2
    constructor
    · rintro (hsaved | ⟨hstill, hsaves | ⟨hnone, hdiffer⟩⟩)
      · exact .inl (.inr hsaved)
      · exact .inl (.inl ⟨hsaves, hstill⟩)
      · exact .inr ⟨⟨hnone, hstill⟩, hdiffer⟩
    · rintro ((⟨hsaves, hstill⟩ | hsaved) | ⟨⟨hnone, hstill⟩, hdiffer⟩)
      · exact .inr ⟨hstill, .inl hsaves⟩
      · exact .inl hsaved
      · exact .inr ⟨hstill, .inr ⟨hnone, hdiffer⟩⟩

/-- The moves of a run that is cut. -/
theorem movesAlong_append (before rest : List (Board μ → Board μ))
    (s : Computer μ) :
    s.movesAlong (before ++ rest)
      = s.movesAlong before
        ++ (before.foldl stepAfter s).movesAlong rest := by
  induction before generalizing s with
  | nil => rfl
  | cons act before ih =>
    rw [List.cons_append, movesAlong, ih, movesAlong, List.append_assoc,
      List.foldl_cons]

/-- Among the moves of a run that saved the enabled state is an entry
that did. -/
theorem nmi_mem_of_savedSince {acts : List (Board μ → Board μ)}
    {s : Computer μ} (h : SavedSince acts s) :
    .nmi ∈ s.movesAlong acts := by
  obtain ⟨before, act, rest, rfl, ⟨hentry, -⟩, -⟩ := h
  rw [movesAlong_append, movesAlong, flipMoves, hentry]
  simp [FlipMove.ofEntry]

-- ============================================================ a handler

/-- While the first flip-flop is down and only a maskable entry could
move it, nothing does. -/
theorem movesAlong_of_down {acts : List (Board μ → Board μ)}
    {s : Computer μ} (hdown : s.cpu.regs.iff1 = false)
    (h : ∀ m ∈ s.movesAlong acts, m = .maskable) :
    s.movesAlong acts = [] := by
  induction acts generalizing s with
  | nil => rfl
  | cons act rest ih =>
    let t := s.onBoard act
    rw [movesAlong] at h ⊢
    have hfirst : ∀ m ∈ t.flipMoves, m = .maskable :=
      fun m hm => h m (List.mem_append_left _ hm)
    have hinstruction : t.instructionMove? = none := by
      cases hmove : t.instructionMove? with
      | none => rfl
      | some m =>
        refine absurd (hfirst m ?_) (ne_nmi_of_instructionMove? hmove).2
        simp [flipMoves, hmove]
    have hboundary : t.atBoundary.cpu.regs.iff1 = false := by
      have hflips : t.atBoundary.cpu.regs.flips = _ := Exec.flips_instruct t
      rw [hinstruction] at hflips
      exact (congrArg Prod.fst hflips).trans hdown
    have hentry : t.interrupt? = none := by
      cases hentry : t.interrupt? with
      | none => rfl
      | some entry =>
        cases entry with
        | nmi =>
          refine absurd (hfirst .nmi ?_) (by decide)
          simp [flipMoves, hentry, FlipMove.ofEntry]
        | maskable channel =>
          have hup := (interrupt?_eq_maskable hentry).2.1
          rw [hboundary] at hup
          cases hup
    have hnone : t.flipMoves = [] := by
      rw [flipMoves, hinstruction, hentry]
      rfl
    have hflips : (s.stepAfter act).cpu.regs.flips = _ :=
      Exec.flips_step t
    rw [hnone] at hflips
    rw [hnone, List.nil_append]
    exact ih ((congrArg Prod.fst hflips).trans hdown)
      fun m hm => h m (List.mem_append_right _ hm)

/-- A handler that enables and disables nothing, and does not return, is
not interrupted by a maskable interrupt. When it returns, the first
flip-flop is what it was where the handler was entered. -/
theorem restored {u : Computer μ} (hentry : u.interrupt? = some .nmi)
    {rest : List (Board μ → Board μ)}
    (hrest : ∀ m ∈ u.step.2.movesAlong rest, m = .maskable) :
    u.step.2.movesAlong rest = []
      ∧ ∀ last,
        let v := (rest.foldl stepAfter u.step.2).onBoard last
        v.instructionMove? = some .restore →
          v.atBoundary.cpu.regs.iff1 = u.atBoundary.cpu.regs.iff1 := by
  have hflips : u.step.2.cpu.regs.flips
      = (false, u.atBoundary.cpu.regs.iff1) := by
    have hstep : u.step.2.cpu.regs.flips = _ :=
      congrArg (fun r => r.2.cpu.regs.flips) (Exec.step_of_entry hentry)
    exact hstep.trans (Exec.flips_enterNmi u.atBoundary)
  have hnone := movesAlong_of_down (congrArg Prod.fst hflips) hrest
  refine ⟨hnone, ?_⟩
  intro last v hreturn
  have hbefore : v.cpu.regs.flips = _ := flips_run rest u.step.2
  rw [hnone, List.foldl_nil, hflips] at hbefore
  have hafter : v.atBoundary.cpu.regs.flips = _ := Exec.flips_instruct v
  rw [hreturn, hbefore] at hafter
  exact congrArg Prod.fst hafter

-- ========================================================= from power-on

/-- The flip-flops of a computer that has been started. They are what the
moves of its run have made of them. The second one is up whenever the
first one is; they differ exactly from a non-maskable entry that found
interrupts enabled up to the next move, and so are equal if no such entry
was taken; and a handler that makes no move of its own returns to what it
has interrupted. -/
theorem flip_flops_disciplined {s : Computer μ} (hs : s.cpu = {})
    (acts : List (Board μ → Board μ)) :
    let t := acts.foldl stepAfter s
    t.cpu.regs.flips = (s.movesAlong acts).foldl FlipMove.act (true, true)
      ∧ (t.cpu.regs.iff1 = true → t.cpu.regs.iff2 = true)
      ∧ (t.cpu.regs.iff1 ≠ t.cpu.regs.iff2 ↔ SavedSince acts s)
      ∧ (.nmi ∉ s.movesAlong acts → t.cpu.regs.iff1 = t.cpu.regs.iff2)
      ∧ ∀ act,
        let u := t.onBoard act
        u.interrupt? = some .nmi → ∀ rest,
          (∀ m ∈ [FlipMove.enable, .disable, .restore, .nmi],
            m ∉ u.step.2.movesAlong rest) →
          u.step.2.movesAlong rest = []
            ∧ ∀ last,
              let v := (rest.foldl stepAfter u.step.2).onBoard last
              v.instructionMove? = some .restore →
                v.atBoundary.cpu.regs.iff1
                  = u.atBoundary.cpu.regs.iff1 := by
  intro t
  have hstart : s.cpu.regs.flips = (true, true) := by rw [hs]; rfl
  have hrun : t.cpu.regs.flips = _ := flips_run acts s
  rw [hstart] at hrun
  have hdiffer : t.cpu.regs.iff1 ≠ t.cpu.regs.iff2 ↔ SavedSince acts s := by
    refine (differ_run acts s).trans (or_iff_left ?_)
    rintro ⟨-, hne⟩
    exact hne (by rw [hs]; rfl)
  refine ⟨hrun, ?_, hdiffer, ?_, ?_⟩
  · have hle : t.cpu.regs.flips.1 = true → t.cpu.regs.flips.2 = true := by
      rw [hrun]
      exact FlipMove.foldl_le id
    exact hle
  · intro hnone
    refine Decidable.byContradiction fun hne => hnone ?_
    exact nmi_mem_of_savedSince (hdiffer.1 hne)
  · intro act u hentry rest hrest
    refine restored hentry fun m hm => ?_
    cases m with
    | maskable => rfl
    | enable | disable | restore | nmi =>
      exact absurd hm (hrest _ (by decide))

/-- A handler of two instructions is entered at its second boundary, with
interrupts enabled, and they are enabled again when it returns. -/
theorem flip_flops_disciplined_returning :
    let s := holding ([0x31, 0x60, 0x00] ++ List.replicate 99 0x00
      ++ [0x00, 0xED, 0x45])
    let u := (([id].foldl stepAfter s).onBoard (·.onLines (·.raiseNmi)))
    let v := ([id].foldl stepAfter u.step.2).onBoard id
    u.interrupt? = some .nmi ∧ u.atBoundary.cpu.regs.pc = 0x0004
      ∧ u.step.2.cpu.regs.flips = (false, true)
      ∧ SavedSince [id, (·.onLines (·.raiseNmi)), id] s
      ∧ v.atBoundary.cpu.regs.pc = 0x0004
      ∧ v.atBoundary.cpu.regs.iff1 = u.atBoundary.cpu.regs.iff1
      ∧ u.atBoundary.cpu.regs.iff1 = true := by
  intro s u v
  have hs : s.cpu = {} := rfl
  have hentry : u.interrupt? = some .nmi := by decide +kernel
  have hrun := flip_flops_disciplined hs
    [id, (·.onLines (·.raiseNmi)), id]
  have hhandler := (flip_flops_disciplined hs [id]).2.2.2.2
    (·.onLines (·.raiseNmi)) hentry [id] (by decide +kernel)
  exact ⟨hentry, by decide +kernel, by decide +kernel,
    hrun.2.2.1.1 (by decide +kernel), by decide +kernel,
    hhandler.2 id (by decide +kernel), by decide +kernel⟩

end Computer
end HomeZ80
