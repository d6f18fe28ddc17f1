/-
How far a step moves the refresh register. What the next instruction
fetches as opcode bytes can be told from the two bytes at the program
counter (`Computer.opcodeFetches`), and an interrupt entry counts as one
fetch more, whichever way it is made. By that number the low seven bits
move, and the highest bit stays (`Exec.r_step_counts`).

The instruction that loads the register is the exception: there the
accumulator takes the place of the old value and of the fetches that
came before. An opcode that is supplied in mode 0 is counted by the entry
alone, since it is a whole instruction that was never fetched, and no
such opcode loads the register (`Decode.main_supplied`).

A run counts the fetches of its steps, whatever happens to the board
between them (`Computer.r_run`), and a block instruction that repeats is
fetched anew in each of its rounds.
-/
import HomeZ80.Proofs.Cpu.IndexChain

namespace HomeZ80

-- ============================================================ the counter

/-- The refresh register has counted a number of fetches: its highest
bit is what it was, and the others count modulo 128. -/
structure Counted (n : Nat) (v w : UInt8) : Prop where
  high : w.toNat / 128 = v.toNat / 128
  low : w.toNat % 128 = (v.toNat + n) % 128

/-- A number of fetches, counted one by one. -/
theorem Counted.iterate (n : Nat) (v : UInt8) :
    Counted n v (refreshed^[n] v) := by
  have hn := toNat_refreshed_iterate n v
  constructor
  · omega
  · omega

-- ============================================================== decoding

namespace Decode

/-- An even opcode byte is a whole instruction, of which the refresh
register is not told. -/
theorem main_supplied (channel : UInt8) :
    ∃ i, main .hl (2 * channel) = .instruction i
      ∧ i.changes .r7 = false := by
  have hodd : ∀ lead ∈ [0xCB, 0xED, 0xDD, 0xFD],
      2 * channel ≠ (lead : UInt8) := by
    obtain ⟨⟨v⟩⟩ := channel
    revert v
    decide +kernel
  simp only [List.forall_mem_cons] at hodd
  obtain ⟨hbit, hextended, hix, hiy, -⟩ := hodd
  have hleads := leadsOn (2 * channel)
  cases hop : main .hl (2 * channel) with
  | instruction i =>
    refine ⟨i, rfl, Instruction.changes_of_isCoded (isCoded_main hop) ?_⟩
    simp [Guarded.isWriter, Role.code]
  | bitPage => exact absurd (hleads.bitPage hop) hbit
  | extendedPage => exact absurd (hleads.extendedPage hop) hextended
  | indexPage role =>
    have hcode := hleads.indexPage role hop
    cases role with
    | hl => cases hcode
    | ix => exact absurd (List.cons.inj hcode).1.symm hix
    | iy => exact absurd (List.cons.inj hcode).1.symm hiy

end Decode

variable {μ : Type} [Decoder μ]

namespace Computer

/-- The opcode bytes that the next step fetches. An idle cycle counts as
one. -/
def opcodeFetches (s : Computer μ) : Nat :=
  if s.cpu.halted then 1
  else if Decode.isIndexByte (s.codeByte 0) then
    if Decode.isLeft (s.codeByte 1) then 1 else 2
  else if s.codeByte 0 = 0xCB ∨ s.codeByte 0 = 0xED then 2
  else 1

/-- The next step loads the refresh register from the accumulator. -/
structure LoadsR (s : Computer μ) : Prop where
  running : s.cpu.halted = false
  lead : s.codeByte 0 = 0xED
  op : s.codeByte 1 = 0x4F

instance (s : Computer μ) : Decidable s.LoadsR :=
  decidable_of_iff (s.cpu.halted = false
      ∧ s.codeByte 0 = 0xED ∧ s.codeByte 1 = 0x4F)
    ⟨fun h => ⟨h.1, h.2.1, h.2.2⟩, fun h => ⟨h.running, h.lead, h.op⟩⟩

/-- An interrupt entry counts as a fetch. -/
def entryFetches (s : Computer μ) : Nat :=
  if s.interrupt?.isSome then 1 else 0

/-- The next step does one round of a block instruction that repeats. -/
def RepeatsBlock (s : Computer μ) : Prop :=
  s.cpu.halted = false ∧ s.codeByte 0 = 0xED
    ∧ ∃ op down, Decode.extended (s.codeByte 1) = .block op down true

end Computer

namespace Exec

-- =========================================================== instructions

/-- The bytes of the code tell how many more there are to fetch. -/
theorem furtherFetches_eq {s : Computer μ} (h : s.cpu.halted = false) :
    furtherFetches (fetchOpcode s).1 (fetchOpcode s).2 + 1
      = s.opcodeFetches := by
  have hleads := Decode.leadsOn (s.codeByte 0)
  unfold furtherFetches Computer.opcodeFetches
  rw [h, if_neg Bool.false_ne_true, fetched_eq, fetched_second_eq]
  cases hop : Decode.main .hl (s.codeByte 0) with
  | instruction i =>
    have hindex : Decode.isIndexByte (s.codeByte 0) = false := by
      refine Bool.eq_false_iff.2 fun hindex => ?_
      rw [Decode.main_indexByte hindex] at hop
      cases hop
    have hother : ¬ (s.codeByte 0 = 0xCB ∨ s.codeByte 0 = 0xED) := by
      rintro (hbyte | hbyte)
      · rw [hbyte] at hop
        cases hop
      · rw [hbyte] at hop
        cases hop
    rw [hindex, if_neg Bool.false_ne_true, if_neg hother]
  | bitPage =>
    rw [hleads.bitPage hop]
    rfl
  | extendedPage =>
    rw [hleads.extendedPage hop]
    rfl
  | indexPage role =>
    have hindex := Decode.isIndexByte_of_main hop
    rw [hindex, if_pos rfl]
    dsimp only
    split <;> rfl

/-- The code that loads the register is told by the two bytes at the
program counter. -/
theorem codeOf_eq_loading_iff {s : Computer μ} :
    codeOf (fetchOpcode s).1 (fetchOpcode s).2 = [0xED, 0x4F]
      ↔ s.codeByte 0 = 0xED ∧ s.codeByte 1 = 0x4F := by
  rw [← fetched_eq, ← fetched_second_eq]
  constructor
  · intro heq
    unfold codeOf at heq
    split at heq
    · have hlength : 1 = 2 := congrArg List.length heq
      omega
    · obtain ⟨hlead, htail⟩ := List.cons.inj heq
      exact ⟨hlead, (List.cons.inj htail).1⟩
  · rintro ⟨hlead, hop⟩
    unfold codeOf
    rw [hlead, ← hop]
    rfl

/-- Up to the boundary the opcode fetches of the instruction are
counted. -/
theorem r_instruct {s : Computer μ} (h : ¬ s.LoadsR) :
    (instruct s).2.cpu.regs.r
      = refreshed^[s.opcodeFetches] s.cpu.regs.r := by
  cases hhalted : s.cpu.halted with
  | true =>
    unfold instruct Computer.opcodeFetches
    rw [hhalted]
    rfl
  | false =>
    have hcode : codeOf (fetchOpcode s).1 (fetchOpcode s).2
        ≠ [0xED, 0x4F] := by
      intro heq
      obtain ⟨hlead, hop⟩ := codeOf_eq_loading_iff.1 heq
      exact h ⟨hhalted, hlead, hop⟩
    rw [instruct_of_running hhalted, ← furtherFetches_eq hhalted]
    exact r_opcode hcode

/-- The accumulator is what it was before the step. -/
theorem r_instruct_loads {s : Computer μ} (h : s.LoadsR) :
    (instruct s).2.cpu.regs.r = s.cpu.regs.a := by
  rw [instruct_of_running h.running]
  have hlead : (fetchOpcode s).1 = 0xED := by rw [fetched_eq, h.lead]
  have hop : (fetchOpcode (fetchOpcode s).2).1 = 0x4F := by
    rw [fetched_second_eq, h.op]
  show (opcode (fetchOpcode s).1 (fetchOpcode s).2).2.cpu.regs.r = _
  rw [hlead]
  show (execute (Decode.extended (fetchOpcode (fetchOpcode s).2).1)
    (fetchOpcode (fetchOpcode s).2).2).2.cpu.regs.r = _
  rw [hop]
  rfl

-- ============================================================== entries

omit [Decoder μ] in
theorem r_leaveHalt (s : Computer μ) :
    (leaveHalt s).2.cpu.regs.r = s.cpu.regs.r := by
  show (if s.cpu.halted then _ else s.cpu : Cpu).regs.r = _
  split <;> rfl

omit [Decoder μ] in
/-- Heeding an interrupt counts as one. -/
theorem r_heed (channel : UInt8) (s : Computer μ) :
    (heed channel s).2.cpu.regs.r = refreshed s.cpu.regs.r :=
  congrArg refreshed (r_leaveHalt (acknowledge channel s).2)

/-- Where it leads to is not counted, not even a supplied opcode. -/
theorem r_vector (channel : UInt8) (s : Computer μ) :
    (vector channel s).2.cpu.regs.r = s.cpu.regs.r := by
  cases him : s.cpu.regs.im with
  | im0 =>
    obtain ⟨i, hmain, hspares⟩ := Decode.main_supplied channel
    rw [vector_im0 channel him]
    unfold opcode
    rw [hmain]
    exact r_execute hspares _
  | im1 | im2 =>
    rw [vector, bind_apply]
    dsimp only [regs]
    rw [him]
    rfl

/-- The entry counts as one fetch, whichever interrupt it is made for and
whatever mode. -/
theorem r_enter (entry : Entry) (s : Computer μ) :
    (enter entry s).2.cpu.regs.r = refreshed s.cpu.regs.r := by
  cases entry with
  | nmi => exact congrArg refreshed (r_leaveHalt (s.onBoard _))
  | maskable channel =>
    show (vector channel (heed channel s).2).2.cpu.regs.r = _
    rw [r_vector, r_heed]

/-- So an entry counts as one fetch, whichever way it is made. -/
theorem r_boundary (s : Computer μ) :
    (step s).2.cpu.regs.r
      = refreshed^[s.entryFetches] (instruct s).2.cpu.regs.r := by
  unfold Computer.entryFetches
  cases hentry : s.interrupt? with
  | none =>
    rw [step_of_no_entry hentry]
    rfl
  | some entry =>
    rw [step_of_entry hentry]
    exact r_enter entry s.atBoundary

-- ================================================================ steps

/-- So a step counts its opcode fetches and one for an entry. -/
theorem r_step_counts {s : Computer μ} (h : ¬ s.LoadsR) :
    (step s).2.cpu.regs.r
      = refreshed^[s.opcodeFetches + s.entryFetches] s.cpu.regs.r := by
  rw [r_boundary, r_instruct h, ← Function.iterate_add_apply,
    Nat.add_comm]

end Exec

namespace Computer

-- ================================================================= runs

/-- The fetches of the steps of a run. -/
def fetchesAlong : List (Board μ → Board μ) → Computer μ → Nat
  | [], _ => 0
  | act :: rest, s =>
    let t := s.onBoard act
    t.opcodeFetches + t.entryFetches + fetchesAlong rest (s.stepAfter act)

/-- The interrupts that are entered in a run. -/
def entriesAlong : List (Board μ → Board μ) → Computer μ → Nat
  | [], _ => 0
  | act :: rest, s =>
    (s.onBoard act).entryFetches + entriesAlong rest (s.stepAfter act)

/-- A run counts those of its steps, unless it loads the register on the
way. -/
theorem r_run {acts : List (Board μ → Board μ)} {s : Computer μ}
    (h : ¬ Sometime stepAfter (fun s act => (s.onBoard act).LoadsR)
      acts s) :
    (acts.foldl stepAfter s).cpu.regs.r
      = refreshed^[s.fetchesAlong acts] s.cpu.regs.r := by
  induction acts generalizing s with
  | nil => rfl
  | cons act rest ih =>
    rw [Sometime.cons_iff, not_or] at h
    have hfirst : (s.stepAfter act).cpu.regs.r = refreshed^[_] _ :=
      Exec.r_step_counts h.1
    rw [List.foldl_cons, ih h.2, hfirst, ← Function.iterate_add_apply,
      Nat.add_comm]
    rfl

/-- A block instruction has two opcode bytes. -/
theorem RepeatsBlock.opcodeFetches_eq {s : Computer μ}
    (h : s.RepeatsBlock) : s.opcodeFetches = 2 := by
  obtain ⟨hrunning, hlead, -⟩ := h
  unfold opcodeFetches
  rw [hrunning, hlead]
  rfl

/-- The opcode of a block instruction is not that of the load. -/
theorem RepeatsBlock.not_loadsR {s : Computer μ} (h : s.RepeatsBlock) :
    ¬ s.LoadsR := by
  obtain ⟨-, -, op, down, hblock⟩ := h
  intro hloads
  rw [hloads.op] at hblock
  cases hblock

/-- Every round of a block instruction is fetched anew. -/
theorem fetchesAlong_of_repeatsBlock {acts : List (Board μ → Board μ)}
    {s : Computer μ}
    (h : ¬ Sometime stepAfter
      (fun s act => ¬ (s.onBoard act).RepeatsBlock) acts s) :
    s.fetchesAlong acts = 2 * acts.length + s.entriesAlong acts := by
  induction acts generalizing s with
  | nil => rfl
  | cons act rest ih =>
    rw [Sometime.cons_iff, not_or, not_not] at h
    unfold fetchesAlong entriesAlong
    dsimp only
    rw [ih h.2, h.1.opcodeFetches_eq, List.length_cons]
    omega

/-- A step moves the refresh register by the opcode bytes that it fetches
and by one more if it takes an interrupt. If it loads the register, then
that interrupt alone is counted, from the accumulator on. So a run that
never loads it counts the fetches of its steps; and as long as a block
instruction repeats, those are two for each round. -/
theorem refresh_counts_fetches :
    (∀ s : Computer μ, ¬ s.LoadsR →
      Counted (s.opcodeFetches + s.entryFetches)
        s.cpu.regs.r s.step.2.cpu.regs.r)
    ∧ (∀ s : Computer μ, s.LoadsR →
      Counted s.entryFetches s.cpu.regs.a s.step.2.cpu.regs.r)
    ∧ (∀ (acts : List (Board μ → Board μ)) (s : Computer μ),
      ¬ Sometime stepAfter (fun s act => (s.onBoard act).LoadsR) acts s →
      Counted (s.fetchesAlong acts)
        s.cpu.regs.r (acts.foldl stepAfter s).cpu.regs.r)
    ∧ ∀ (acts : List (Board μ → Board μ)) (s : Computer μ),
      ¬ Sometime stepAfter
        (fun s act => ¬ (s.onBoard act).RepeatsBlock) acts s →
      Counted (2 * acts.length + s.entriesAlong acts)
        s.cpu.regs.r (acts.foldl stepAfter s).cpu.regs.r := by
  refine ⟨fun s h => ?_, fun s h => ?_, fun acts s h => ?_,
    fun acts s h => ?_⟩
  · have hr : s.step.2.cpu.regs.r = _ := Exec.r_step_counts h
    rw [hr]
    exact .iterate _ _
  · have hr : s.step.2.cpu.regs.r = _ := Exec.r_boundary s
    rw [hr, Exec.r_instruct_loads h]
    exact .iterate _ _
  · rw [r_run h]
    exact .iterate _ _
  · rw [← fetchesAlong_of_repeatsBlock h, r_run]
    · exact .iterate _ _
    · rintro ⟨before, act, rest, hacts, hloads⟩
      refine h ⟨before, act, rest, hacts, fun hblock => ?_⟩
      exact hblock.not_loadsR hloads

/-- A rotation of a byte at an index, two fetches whatever is displaced;
the load of the register, with a non-maskable interrupt; and two rounds
of a block copy. -/
theorem refresh_counts_fetches_rounds :
    let rotating := holding [0xDD, 0xCB, 0x00, 0x06]
    let loading : Computer Windowed :=
      { (holding [0xED, 0x4F]).onBoard (·.onLines (·.raiseNmi)) with
        cpu.regs.a := 0xFF }
    let copying : Computer Windowed :=
      { holding [0xED, 0xB0] with cpu.regs.d := 0x80 }
    let rounds : List (Board Windowed → Board Windowed) := [id, id]
    Counted 2 rotating.cpu.regs.r rotating.step.2.cpu.regs.r
      ∧ Counted 1 0xFF loading.step.2.cpu.regs.r
      ∧ Counted (copying.fetchesAlong rounds)
        copying.cpu.regs.r (rounds.foldl stepAfter copying).cpu.regs.r
      ∧ Counted 4
        copying.cpu.regs.r (rounds.foldl stepAfter copying).cpu.regs.r := by
  intro rotating loading copying rounds
  obtain ⟨hcounts, hloads, hrun, hrounds⟩ :=
    refresh_counts_fetches (μ := Windowed)
  have hcopy : ∀ s : Computer Windowed, s.cpu.halted = false →
      s.codeByte 0 = 0xED → s.codeByte 1 = 0xB0 → s.RepeatsBlock := by
    intro s hrunning hlead hop
    refine ⟨hrunning, hlead, .copy, false, ?_⟩
    rw [hop]
    rfl
  have hfirst : copying.RepeatsBlock :=
    hcopy _ rfl (by decide +kernel) (by decide +kernel)
  have hsecond : (copying.stepAfter id).RepeatsBlock :=
    hcopy _ (by decide +kernel) (by decide +kernel) (by decide +kernel)
  have hnever : ¬ Sometime stepAfter
      (fun s act => (s.onBoard act).LoadsR) rounds copying := by
    rw [Sometime.cons_iff, Sometime.cons_iff, Sometime.nil_iff]
    rintro (h | h | h)
    · exact hfirst.not_loadsR h
    · exact hsecond.not_loadsR h
    · exact h
  have hblock : ¬ Sometime stepAfter
      (fun s act => ¬ (s.onBoard act).RepeatsBlock) rounds copying := by
    rw [Sometime.cons_iff, Sometime.cons_iff, Sometime.nil_iff]
    rintro (h | h | h)
    · exact h hfirst
    · exact h hsecond
    · exact h
  have htwo : rotating.opcodeFetches + rotating.entryFetches = 2 := by
    decide +kernel
  have hone : loading.entryFetches = 1 := by decide +kernel
  have hzero : copying.entriesAlong rounds = 0 := by decide +kernel
  have hrotating := hcounts rotating (by decide +kernel)
  have hloading := hloads loading (by decide +kernel)
  have hcopying := hrounds rounds copying hblock
  rw [htwo] at hrotating
  rw [hone] at hloading
  rw [hzero] at hcopying
  exact ⟨hrotating, hloading, hrun rounds copying hnever, hcopying⟩

end Computer
end HomeZ80
