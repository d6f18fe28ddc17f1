/-
The stack of the CPU is last in, first out. Memory below the first stack
pointer holds the words that were pushed and not popped yet, the one
pushed last at the bottom (`StackOp.Stacked`). A push puts one more word
there, where none of the others lie as long as there are no more than
32768 of them, and a pop takes the lowest one off. So the words that are
popped are those of a stack without bounds (`StackOp.popped`), whatever
address the stack begins at and wherever it wraps around.

Which push a pop belongs to is a matter of the operations alone. Between
the two there are pushes and pops that belong to one another
(`StackOp.Balanced`), and these leave the stack as it was.
-/
import Mathlib.Algebra.Ring.Int.Defs
import HomeZ80.Proofs.Interrupt.NonMaskable

namespace HomeZ80

/-- A use of the stack. -/
inductive StackOp where
  | push (v : UInt16)
  | pop
  deriving DecidableEq, Repr

namespace StackOp

-- ============================================== a stack without bounds

/-- The words that are popped, the first one first, off a stack that
begins with these words. -/
def popped : List StackOp → List UInt16 → List UInt16
  | [], _ => []
  | .push v :: later, stack => popped later (v :: stack)
  | .pop :: later, stack => stack.head?.toList ++ popped later stack.tail

/-- The words that are left. -/
def left : List StackOp → List UInt16 → List UInt16
  | [], stack => stack
  | .push v :: later, stack => left later (v :: stack)
  | .pop :: later, stack => left later stack.tail

/-- How much deeper the stack becomes. -/
def rise (ops : List StackOp) : Int :=
  (ops.map fun | .push _ => 1 | .pop => -1).sum

/-- The depth of the stack, which is `depth` at first, always stays
between nothing and `most`. -/
def StaysWithin (most depth : Nat) (ops : List StackOp) : Prop :=
  ∀ before, before <+: ops →
    0 ≤ depth + rise before ∧ depth + rise before ≤ most

variable {most depth : Nat} {ops : List StackOp}

/-- Operations raise the stack one after the other. -/
theorem rise_cons (op : StackOp) (ops : List StackOp) :
    rise (op :: ops) = rise [op] + rise ops := by
  simp [rise]

theorem rise_push (v : UInt16) : rise [.push v] = 1 := rfl

theorem rise_pop : rise [.pop] = -1 := rfl

/-- With nothing left to do only the present depth matters. -/
theorem staysWithin_nil :
    StaysWithin most depth [] ↔ depth ≤ most := by
  constructor
  · intro h
    have hstart := (h [] List.nil_prefix).2
    simpa [rise] using hstart
  · intro h before hbefore
    rw [List.prefix_nil.1 hbefore]
    simpa [rise] using h

/-- The depth to begin with is one that is allowed. -/
theorem StaysWithin.depth_le (h : StaysWithin most depth ops) :
    depth ≤ most :=
  staysWithin_nil.1 fun before hbefore =>
    h before (hbefore.trans List.nil_prefix)

/-- One operation more in front moves the depth on. -/
theorem staysWithin_cons {op : StackOp} :
    StaysWithin most depth (op :: ops)
      ↔ depth ≤ most ∧ ∀ before, before <+: ops →
        0 ≤ depth + rise [op] + rise before
          ∧ depth + rise [op] + rise before ≤ most := by
  constructor
  · intro h
    refine ⟨h.depth_le, fun before hbefore => ?_⟩
    have hmore := h (op :: before)
      (List.cons_prefix_cons.2 ⟨rfl, hbefore⟩)
    rw [rise_cons] at hmore
    omega
  · rintro ⟨hdepth, hlater⟩ before hbefore
    rcases List.prefix_cons_iff.1 hbefore with rfl | ⟨rest, rfl, hrest⟩
    · exact staysWithin_nil.2 hdepth [] List.nil_prefix
    · have hmore := hlater rest hrest
      rw [rise_cons]
      omega

/-- A push needs room for one word more. -/
theorem staysWithin_push {v : UInt16} :
    StaysWithin most depth (.push v :: ops)
      ↔ StaysWithin most (depth + 1) ops := by
  rw [staysWithin_cons, rise_push]
  constructor
  · intro h
    exact h.2
  · intro h
    exact ⟨by have hdepth := h.depth_le; omega, h⟩

theorem staysWithin_pop :
    StaysWithin most depth (.pop :: ops)
      ↔ ∃ left, depth = left + 1 ∧ depth ≤ most
          ∧ StaysWithin most left ops := by
  rw [staysWithin_cons, rise_pop]
  constructor
  · rintro ⟨hdepth, hlater⟩
    have hfirst := (hlater [] List.nil_prefix).1
    have hnone : rise [] = 0 := rfl
    refine ⟨depth - 1, by omega, hdepth, fun before hbefore => ?_⟩
    have hmore := hlater before hbefore
    omega
  · rintro ⟨left, rfl, hdepth, hlater⟩
    refine ⟨hdepth, fun before hbefore => ?_⟩
    have hmore := hlater before hbefore
    omega

/-- If all of it stays within bounds, its beginning does. -/
theorem StaysWithin.of_prefix {before : List StackOp}
    (h : StaysWithin most depth ops) (hbefore : before <+: ops) :
    StaysWithin most depth before :=
  fun earlier hearlier => h earlier (hearlier.trans hbefore)

/-- The depth that is reached is that of the words that are left. -/
theorem StaysWithin.later {before : List StackOp} {stack : List UInt16}
    (h : StaysWithin most stack.length (before ++ ops)) :
    StaysWithin most (left before stack).length ops := by
  induction before generalizing stack with
  | nil => exact h
  | cons op rest ih =>
    cases op with
    | push v => exact ih (staysWithin_push.1 h)
    | pop =>
      obtain ⟨depth, hdepth, -, hrest⟩ := staysWithin_pop.1 h
      refine ih ?_
      rw [List.length_tail, hdepth]
      exact hrest

-- ------------------------------------------------ all on, then all off

/-- Push words, and pop as many. -/
def allOnAndOff (words : List UInt16) : List StackOp :=
  words.map .push ++ List.replicate words.length .pop

/-- As many words as there are can be popped. -/
theorem staysWithin_pops (h : depth ≤ most) :
    StaysWithin most depth (List.replicate depth .pop) := by
  induction depth with
  | zero => exact staysWithin_nil.2 h
  | succ depth ih =>
    exact staysWithin_pop.2 ⟨depth, rfl, h, ih (by omega)⟩

/-- Words can be pushed as long as there is room for all of them. -/
theorem staysWithin_pushes (words : List UInt16)
    (h : StaysWithin most (depth + words.length) ops) :
    StaysWithin most depth (words.map .push ++ ops) := by
  induction words generalizing depth with
  | nil => exact h
  | cons v later ih =>
    refine staysWithin_push.2 (ih ?_)
    rw [List.length_cons, ← Nat.add_assoc, Nat.add_right_comm] at h
    exact h

/-- Pushing some words and popping them again needs room for these
words. -/
theorem staysWithin_allOnAndOff (words : List UInt16) :
    StaysWithin words.length 0 (allOnAndOff words) := by
  refine staysWithin_pushes words ?_
  rw [Nat.zero_add]
  exact staysWithin_pops (Nat.le_refl _)

/-- Popping everything gives the words from the top down. -/
theorem popped_pops (stack : List UInt16) :
    popped (List.replicate stack.length .pop) stack = stack
      ∧ left (List.replicate stack.length .pop) stack = [] := by
  induction stack with
  | nil => exact ⟨rfl, rfl⟩
  | cons v below ih => exact ⟨congrArg (v :: ·) ih.1, ih.2⟩

/-- Words that are pushed lie on top, the last one first. -/
theorem popped_pushes (words : List UInt16) (ops : List StackOp)
    (stack : List UInt16) :
    popped (words.map .push ++ ops) stack
        = popped ops (words.reverse ++ stack)
      ∧ left (words.map .push ++ ops) stack
        = left ops (words.reverse ++ stack) := by
  induction words generalizing stack with
  | nil => exact ⟨rfl, rfl⟩
  | cons v later ih =>
    rw [List.reverse_cons, List.append_assoc]
    exact ih (v :: stack)

/-- The words come off in reverse order. -/
theorem popped_allOnAndOff (words : List UInt16) :
    popped (allOnAndOff words) [] = words.reverse
      ∧ left (allOnAndOff words) [] = [] := by
  obtain ⟨hpopped, hleft⟩ :=
    popped_pushes words (List.replicate words.length .pop) []
  obtain ⟨hwords, hnone⟩ := popped_pops words.reverse
  rw [List.length_reverse] at hwords hnone
  rw [List.append_nil] at hpopped hleft
  exact ⟨hpopped.trans hwords, hleft.trans hnone⟩

-- ================================================= who belongs to whom

/-- Pushes and pops that belong to one another. -/
inductive Balanced : List StackOp → Prop
  | nil : Balanced []
  | nest {early inside : List StackOp} (v : UInt16) :
    Balanced early → Balanced inside →
    Balanced (early ++ .push v :: (inside ++ [.pop]))

/-- The push of a word is the one that a pop which comes now belongs
to. -/
def Awaits (v : UInt16) (before : List StackOp) : Prop :=
  ∃ early inside, before = early ++ .push v :: inside ∧ Balanced inside

/-- What is left after two parts is what the second leaves of the first. -/
theorem left_append (first second : List StackOp) (stack : List UInt16) :
    left (first ++ second) stack = left second (left first stack) := by
  induction first generalizing stack with
  | nil => rfl
  | cons op later ih => cases op <;> exact ih _

/-- What is balanced leaves the stack as it found it. -/
theorem Balanced.left_eq (h : Balanced ops) (stack : List UInt16) :
    left ops stack = stack := by
  induction h generalizing stack with
  | nil => rfl
  | nest v hearly hinside ihEarly ihInside =>
    rw [left_append, ihEarly]
    show left (_ ++ [.pop]) (v :: stack) = stack
    rw [left_append, ihInside]
    rfl

/-- The word that is awaited is on top of the stack. -/
theorem Awaits.left_eq {v : UInt16} {before : List StackOp}
    (h : Awaits v before) :
    ∃ below, left before [] = v :: below := by
  obtain ⟨early, inside, rfl, hinside⟩ := h
  refine ⟨left early [], ?_⟩
  rw [left_append]
  exact hinside.left_eq _

/-- The word on top was pushed by the push that a pop belongs to. -/
theorem exists_awaits {v : UInt16} {below : List UInt16}
    (h : left ops [] = v :: below) :
    ∃ early inside, ops = early ++ .push v :: inside ∧ Balanced inside
      ∧ left early [] = below := by
  -- a pop at the end is undone with its push, and both with what is before
  obtain ⟨n, hn⟩ : ∃ n, ops.length ≤ n := ⟨_, Nat.le_refl _⟩
  induction n generalizing ops v below with
  | zero =>
    rw [List.length_eq_zero_iff.1 (Nat.le_zero.1 hn)] at h
    cases h
  | succ n ih =>
    rcases List.eq_nil_or_concat ops with rfl | ⟨first, op, rfl⟩
    · cases h
    rw [List.concat_eq_append] at h hn ⊢
    rw [left_append] at h
    rw [List.length_append, List.length_singleton] at hn
    cases op with
    | push w =>
      obtain ⟨rfl, rfl⟩ := List.cons.inj h
      exact ⟨first, [], rfl, .nil, rfl⟩
    | pop =>
      obtain ⟨u, hu⟩ : ∃ u, left first [] = u :: v :: below := by
        change (left first []).tail = v :: below at h
        cases hfirst : left first [] with
        | nil =>
          rw [hfirst] at h
          cases h
        | cons u rest =>
          rw [hfirst] at h
          exact ⟨u, by rw [← h]; rfl⟩
      obtain ⟨middle, inside, rfl, hinside, hmiddle⟩ :=
        ih hu (by omega)
      rw [List.length_append] at hn
      obtain ⟨early, before, rfl, hbefore, hearly⟩ :=
        ih hmiddle (by omega)
      refine ⟨early, before ++ .push u :: (inside ++ [.pop]), ?_,
        .nest u hbefore hinside, hearly⟩
      simp

end StackOp

-- ======================================================= the addresses

/-- The address some bytes below another. -/
def bytesBelow (base : UInt16) (i : Nat) : UInt16 :=
  base - UInt16.ofNat i

/-- Addresses less than 65536 bytes apart differ. -/
theorem bytesBelow_inj {base : UInt16} {i j : Nat}
    (hi : 0 < i ∧ i ≤ 65536) (hj : 0 < j ∧ j ≤ 65536)
    (h : bytesBelow base i = bytesBelow base j) : i = j := by
  have hnat := congrArg UInt16.toNat h
  have hbase := base.toNat_lt
  simp only [bytesBelow, UInt16.toNat_sub, UInt16.toNat_ofNat'] at hnat
  omega

theorem bytesBelow_add_one (base : UInt16) (i : Nat) :
    bytesBelow base (i + 1) + 1 = bytesBelow base i := by
  apply UInt16.toNat_inj.1
  have hbase := base.toNat_lt
  simp only [bytesBelow, UInt16.toNat_sub, UInt16.toNat_add,
    UInt16.toNat_ofNat']
  have hone : (1 : UInt16).toNat = 1 := rfl
  omega

theorem bytesBelow_add_two (base : UInt16) (i : Nat) :
    bytesBelow base (i + 2) + 2 = bytesBelow base i := by
  have htwice : bytesBelow base (i + 2) + 2
      = bytesBelow base (i + 1 + 1) + 1 + 1 :=
    (UInt16.add_assoc _ 1 1).symm
  rw [htwice, bytesBelow_add_one, bytesBelow_add_one]

theorem bytesBelow_sub_two (base : UInt16) (i : Nat) :
    bytesBelow base i - 2 = bytesBelow base (i + 2) := by
  rw [← bytesBelow_add_two base i, UInt16.add_sub_cancel]

-- ===================================================== words in memory

/-- Memory holds words one below the other, the last one of the list
highest, from a base downwards. -/
def HoldsBelow (base : UInt16) (memory : UInt16 → UInt8) :
    List UInt16 → Prop
  | [] => True
  | v :: above =>
    memory (bytesBelow base (2 * above.length + 1)) = hiByte v
      ∧ memory (bytesBelow base (2 * above.length + 2)) = loByte v
      ∧ HoldsBelow base memory above

/-- A byte below all the words is none of theirs. -/
theorem HoldsBelow.update {base : UInt16} {memory : UInt16 → UInt8}
    {stack : List UInt16} (h : HoldsBelow base memory stack) {i : Nat}
    (hbelow : 2 * stack.length < i) (hi : i ≤ 65536) (v : UInt8) :
    HoldsBelow base (Function.update memory (bytesBelow base i) v)
      stack := by
  induction stack with
  | nil => trivial
  | cons w above ih =>
    obtain ⟨hhigh, hlow, habove⟩ := h
    rw [List.length_cons] at hbelow
    have hother {j : Nat} (hj : 0 < j ∧ j < i) :
        Function.update memory (bytesBelow base i) v (bytesBelow base j)
          = memory (bytesBelow base j) := by
      refine Function.update_of_ne (fun heq => ?_) _ _
      have hsame := bytesBelow_inj (by omega) (by omega) heq
      omega
    refine ⟨?_, ?_, ih habove (by omega)⟩
    · rw [hother (by omega), hhigh]
    · rw [hother (by omega), hlow]

namespace StackOp

variable {μ : Type} [Decoder μ]

/-- Use the stack of a computer. Returns the words that were popped, the
first one first. -/
def run : List StackOp → Computer μ → List UInt16 × Computer μ
  | [], s => ([], s)
  | .push v :: later, s => run later (Exec.push v s).2
  | .pop :: later, s =>
    let (v, s) := Exec.pop s
    let (words, s) := run later s
    (v :: words, s)

/-- The computer `t` has the words of `stack` on its stack, of which
there are at most `most`, and is otherwise as `s`. -/
structure Stacked (most : Nat) (s : Computer Flat) (stack : List UInt16)
    (t : Computer Flat) : Prop where
  fitted : Flat.Fitted t.board
  cpu : t.cpu = { s.cpu with
    regs.sp := bytesBelow s.cpu.regs.sp (2 * stack.length) }
  holds : HoldsBelow s.cpu.regs.sp t.board.memory stack
  frame (addr : UInt16) : t.board.memory addr ≠ s.board.memory addr →
    ∃ i, 0 < i ∧ i ≤ 2 * most ∧ addr = bytesBelow s.cpu.regs.sp i

variable {most : Nat} {s t : Computer Flat} {stack : List UInt16}
  {v : UInt16}

/-- At first nothing is on the stack. -/
theorem Stacked.start (hs : Flat.Fitted s.board) :
    Stacked most s [] s where
  fitted := hs
  cpu := by
    have hsp : bytesBelow s.cpu.regs.sp 0 = s.cpu.regs.sp :=
      UInt16.sub_zero _
    show s.cpu = { s.cpu with
      regs := { s.cpu.regs with sp := bytesBelow s.cpu.regs.sp 0 } }
    rw [hsp]
  holds := trivial
  frame _ h := absurd rfl h

/-- The stack pointer is two bytes below the base for each word. -/
theorem Stacked.sp (h : Stacked most s stack t) :
    t.cpu.regs.sp = bytesBelow s.cpu.regs.sp (2 * stack.length) := by
  rw [h.cpu]

/-- A push puts one more word below the others. -/
theorem Stacked.push (h : Stacked most s stack t)
    (hdepth : stack.length < most) (hmost : most ≤ 32768) :
    Stacked most s (v :: stack) (Exec.push v t).2 := by
  let base := s.cpu.regs.sp
  have hlow : t.cpu.regs.sp - 2
      = bytesBelow base (2 * stack.length + 2) := by
    rw [h.sp, bytesBelow_sub_two]
  have hhigh : t.cpu.regs.sp - 2 + 1
      = bytesBelow base (2 * stack.length + 1) := by
    rw [hlow, bytesBelow_add_one]
  obtain ⟨hfitted, hpoked⟩ := h.fitted.pokeWord (t.cpu.regs.sp - 2) v
  have hmemory : (Exec.push v t).2.board.memory
      = Function.update
          (Function.update t.board.memory
            (bytesBelow base (2 * stack.length + 2)) (loByte v))
          (bytesBelow base (2 * stack.length + 1)) (hiByte v) := by
    rw [← hhigh, ← hlow]
    exact hpoked
  have hne : bytesBelow base (2 * stack.length + 2)
      ≠ bytesBelow base (2 * stack.length + 1) := fun heq => by
    have hsame := bytesBelow_inj (by omega) (by omega) heq
    omega
  refine ⟨hfitted, ?_, ?_, fun addr hchanged => ?_⟩
  · show ({ t.cpu with
      regs := { t.cpu.regs with sp := t.cpu.regs.sp - 2 } } : Cpu) = _
    rw [hlow, h.cpu]
    rfl
  · rw [hmemory]
    have hrest : HoldsBelow base
        (Function.update t.board.memory
          (bytesBelow base (2 * stack.length + 2)) (loByte v)) stack :=
      h.holds.update (by omega) (by omega) (loByte v)
    refine ⟨Function.update_self .., ?_,
      hrest.update (by omega) (by omega) (hiByte v)⟩
    rw [Function.update_of_ne hne, Function.update_self]
  · rw [hmemory] at hchanged
    by_cases hfirst : addr = bytesBelow base (2 * stack.length + 1)
    · exact ⟨_, by omega, by omega, hfirst⟩
    by_cases hsecond : addr = bytesBelow base (2 * stack.length + 2)
    · exact ⟨_, by omega, by omega, hsecond⟩
    rw [Function.update_of_ne hfirst, Function.update_of_ne hsecond]
      at hchanged
    exact h.frame addr hchanged

/-- A pop takes the lowest word off. -/
theorem Stacked.pop (h : Stacked most s (v :: stack) t) :
    (Exec.pop t).1 = v ∧ Stacked most s stack (Exec.pop t).2 := by
  obtain ⟨hhigh, hlow, hholds⟩ := h.holds
  have hsp : t.cpu.regs.sp
      = bytesBelow s.cpu.regs.sp (2 * stack.length + 2) := h.sp
  have hnext : t.cpu.regs.sp + 1
      = bytesBelow s.cpu.regs.sp (2 * stack.length + 1) := by
    rw [hsp, bytesBelow_add_one]
  have hback : t.cpu.regs.sp + 2
      = bytesBelow s.cpu.regs.sp (2 * stack.length) := by
    rw [hsp, bytesBelow_add_two]
  -- a read leaves the flat board exactly as it is
  have hboard : (Exec.pop t).2.board = t.board := by
    have hfirst := h.fitted.afterRead_eq t.cpu.regs.sp
    have hsecond := h.fitted.afterRead_eq (t.cpu.regs.sp + 1)
    show (t.board.afterRead t.cpu.regs.sp).afterRead
      (t.cpu.regs.sp + 1) = t.board
    rw [hfirst, hsecond]
  refine ⟨?_, ?_, ?_, ?_, ?_⟩
  · show (t.board.peekWord t.cpu.regs.sp).1 = v
    rw [Board.peekWord_fst, hnext, hsp]
    show word (t.board.memory _) (t.board.memory _) = v
    rw [hhigh, hlow, word_hiByte_loByte]
  · rw [hboard]
    exact h.fitted
  · show ({ t.cpu with
      regs := { t.cpu.regs with sp := t.cpu.regs.sp + 2 } } : Cpu) = _
    rw [hback, h.cpu]
  · rw [hboard]
    exact hholds
  · rw [hboard]
    exact h.frame

/-- Whatever is pushed and popped, the words come off as from a stack
without bounds, and the rest of the computer stays. -/
theorem Stacked.run {ops : List StackOp} (h : Stacked most s stack t)
    (hmost : most ≤ 32768) (hops : StaysWithin most stack.length ops) :
    (run ops t).1 = popped ops stack
      ∧ Stacked most s (left ops stack) (run ops t).2 := by
  induction ops generalizing stack t with
  | nil => exact ⟨rfl, h⟩
  | cons op later ih =>
    cases op with
    | push v =>
      have hmore := staysWithin_push.1 hops
      have hdepth := hmore.depth_le
      exact ih (h.push (by omega) hmost) hmore
    | pop =>
      obtain ⟨depth, hdepth, -, hfewer⟩ := staysWithin_pop.1 hops
      cases stack with
      | nil => cases hdepth
      | cons v stack =>
        obtain ⟨hv, hpopped⟩ := h.pop
        obtain rfl : stack.length = depth := Nat.succ.inj hdepth
        obtain ⟨hwords, hleft⟩ := ih hpopped hfewer
        refine ⟨?_, hleft⟩
        show (Exec.pop t).1 :: (StackOp.run later (Exec.pop t).2).1
          = v :: popped later stack
        rw [hv, hwords]

-- ========================================================== the result

/-- **The stack is last in, first out.** On the flat board, wherever the
stack begins, words that are pushed and all popped again come back in
reverse order, the CPU is as it was, and of memory at most the two bytes
of each word below the first stack pointer have changed. In whatever
order words are pushed and popped, no more than 32768 of them being there
at once, each pop returns the word of the push that it belongs to. -/
theorem last_in_first_out {s : Computer Flat}
    (hs : Flat.Fitted s.board) :
    (∀ words : List UInt16, words.length ≤ 32768 →
      (run (allOnAndOff words) s).1 = words.reverse
      ∧ (run (allOnAndOff words) s).2.cpu = s.cpu
      ∧ ∀ addr, (run (allOnAndOff words) s).2.board.memory addr
            ≠ s.board.memory addr →
          ∃ i, 0 < i ∧ i ≤ 2 * words.length
            ∧ addr = s.cpu.regs.sp - UInt16.ofNat i)
    ∧ ∀ ops : List StackOp, StaysWithin 32768 0 ops →
        (run ops s).1 = popped ops []
        ∧ ∀ before after, ops = before ++ .pop :: after →
            (∃ v, Awaits v before)
            ∧ ∀ v, Awaits v before →
              (Exec.pop (run before s).2).1 = v := by
  refine ⟨fun words hwords => ?reversed,
    fun ops hops => ⟨?popped, ?each⟩⟩
  case reversed =>
    have hstart : Stacked words.length s [] s := .start hs
    obtain ⟨hrun, hend⟩ :=
      hstart.run hwords (staysWithin_allOnAndOff words)
    obtain ⟨hpopped, hleft⟩ := popped_allOnAndOff words
    rw [hleft] at hend
    refine ⟨hrun.trans hpopped, ?_, hend.frame⟩
    exact hend.cpu.trans hstart.cpu.symm
  case popped =>
    exact ((Stacked.start hs).run (Nat.le_refl _) hops).1
  case each =>
    rintro before after rfl
    have hbefore := hops.of_prefix (List.prefix_append before _)
    have hlater : StaysWithin 32768 (left before []).length
        (.pop :: after) := hops.later
    obtain ⟨depth, hdepth, -⟩ := staysWithin_pop.1 hlater
    obtain ⟨v, below, htop⟩ :
        ∃ v below, left before [] = v :: below :=
      List.exists_cons_of_length_eq_add_one hdepth
    obtain ⟨-, hstacked⟩ :=
      (Stacked.start hs).run (Nat.le_refl _) hbefore
    rw [htop] at hstacked
    have hpop := hstacked.pop.1
    obtain ⟨early, inside, hsplit, hinside, -⟩ := exists_awaits htop
    refine ⟨⟨v, early, inside, hsplit, hinside⟩, fun w hw => ?_⟩
    obtain ⟨below', htop'⟩ := hw.left_eq
    rw [hpop]
    exact (List.cons.inj (htop.symm.trans htop')).1

/-- A stack that begins at the address 1, with its first word at FFFF
and 0. -/
def wrapping : Computer Flat where
  cpu.regs.sp := 1
  board := Flat.board

/-- The stack of `wrapping` with words on top of words. -/
def nested : List StackOp :=
  [.push 0x1234, .push 0x5678, .pop, .push 0x9ABC, .pop, .pop]

/-- A stack that grows past address 0 to the other end of memory: two words
pushed and popped, and a series in which a word is pushed and popped before
the one below it. -/
theorem last_in_first_out_wrapping :
    (run (allOnAndOff [0x1234, 0x5678]) wrapping).1 = [0x5678, 0x1234]
    ∧ (run (allOnAndOff [0x1234, 0x5678]) wrapping).2.cpu
        = wrapping.cpu
    ∧ StaysWithin 32768 0 nested
    ∧ (run nested wrapping).1 = [0x5678, 0x9ABC, 0x1234]
    ∧ (Exec.pop (run (nested.take 5) wrapping).2).1 = 0x1234 := by
  obtain ⟨hreversed, hnested⟩ :=
    last_in_first_out (s := wrapping) Flat.fitted_board
  obtain ⟨hwords, hcpu, -⟩ := hreversed [0x1234, 0x5678] (by decide)
  have hwithin : StaysWithin 32768 0 nested :=
    staysWithin_push.2 (staysWithin_push.2
      (staysWithin_pop.2 ⟨1, rfl, by decide, staysWithin_push.2
        (staysWithin_pop.2 ⟨1, rfl, by decide,
          staysWithin_pop.2 ⟨0, rfl, by decide,
            staysWithin_nil.2 (by decide)⟩⟩)⟩))
  obtain ⟨hpopped, heach⟩ := hnested nested hwithin
  -- between the first push and the last pop two others are paired off
  have hawaits : Awaits 0x1234 (nested.take 5) :=
    ⟨[], [.push 0x5678, .pop, .push 0x9ABC, .pop], rfl,
      .nest 0x9ABC (.nest 0x5678 .nil .nil) .nil⟩
  exact ⟨hwords, hcpu, hwithin, hpopped,
    (heach (nested.take 5) [] rfl).2 _ hawaits⟩

end StackOp

end HomeZ80
