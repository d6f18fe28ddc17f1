/-
Activations of a handler that enables interrupts again and returns at
once, which is the shortest there is in mode 1. On the flat board such an
activation is two steps long, however many requests arrive meanwhile: the
first step enables interrupts and is the one boundary that accepts none,
and the second one has taken the way back from the stack when its
boundary is reached.

While it lasts the stack holds one return address (`Flat.Active`), and
when it is over the stack pointer and the program counter are back to
what the entry has saved (`Flat.Active.left`). If the next entry is made
there, it finds the stack as the one before has found it. So no
activation begins inside another one, in runs of any length
(`Flat.opened_run`).
-/
import HomeZ80.Proofs.Cpu.Latch
import HomeZ80.Proofs.Interrupt.Delay
import HomeZ80.Proofs.Interrupt.Sweep

namespace HomeZ80

-- =========================================================== the entry

section
variable {μ : Type}

/-- Where a program that is interrupted goes on later. If it is halted
this is after the halt. -/
def Computer.savedPc (s : Computer μ) : UInt16 :=
  if s.cpu.halted then s.cpu.regs.pc + 1 else s.cpu.regs.pc

/-- What heeding an interrupt does to the CPU. -/
theorem Exec.heed_cpu (channel : UInt8) (s : Computer μ) :
    (heed channel s).2.cpu = { s.cpu with
      halted := false
      regs := { s.cpu.regs with
        r := refreshed s.cpu.regs.r, iff1 := false, iff2 := false
        pc := s.savedPc } } := by
  have hleave : ∀ c : Cpu,
      (if c.halted then { c with halted := false, regs.pc := c.regs.pc + 1 }
        else c) = { c with
          halted := false
          regs.pc := if c.halted then c.regs.pc + 1 else c.regs.pc } := by
    rintro ⟨regs, halted, eiDelay, cost, undefinedCount⟩
    cases halted <;> rfl
  have hcpu : (heed channel s).2.cpu
      = let c := (leaveHalt (acknowledge channel s).2).2.cpu
        { c with regs := { c.regs.refresh with
          iff1 := false, iff2 := false } } := rfl
  have hleft : (leaveHalt (acknowledge channel s).2).2.cpu = _ :=
    hleave s.cpu
  rw [hcpu, hleft]
  rfl

variable [Decoder μ]

theorem Exec.enterMaskable_im1 {s : Computer μ}
    (h : s.cpu.regs.im = .im1) (channel : UInt8) :
    enterMaskable channel s =
      let r := s.cpu.regs
      (13, {
        cpu := { s.cpu with
          halted := false
          regs := { r with
            r := refreshed r.r, iff1 := false, iff2 := false
            pc := Entry.im1Target, sp := r.sp - 2 } }
        board := ((acknowledge channel s).2.board.pokeWord (r.sp - 2)
          s.savedPc).note
            [.im1Taken channel Entry.im1Target s.savedPc (r.sp - 2)] }) := by
  let t := (heed channel s).2
  have him : t.cpu.regs.im = .im1 := (heed_im channel s).trans h
  have hvector : vector channel t = (13,
      { t with
        cpu.regs := { t.cpu.regs with
          pc := Entry.im1Target, sp := t.cpu.regs.sp - 2 }
        board := (t.board.pokeWord (t.cpu.regs.sp - 2) t.cpu.regs.pc).note
          [.im1Taken channel Entry.im1Target t.cpu.regs.pc
            (t.cpu.regs.sp - 2)] }) := by
    unfold vector
    rw [bind_apply]
    dsimp only [regs]
    conv => lhs; rw [him]
    rfl
  have hcpu : t.cpu = _ := heed_cpu channel s
  show vector channel t = _
  rw [hvector, hcpu]
  rfl

end

namespace Flat

-- ===================================================== fitted throughout

/-- A board with the same memory is fitted, too. -/
theorem Fitted.sameMemory {b b' : Board Flat} (hb : Fitted b)
    (h : b.SameMemory b') : Fitted b' := by
  unfold Fitted Arena.layout
  rw [h.regions]
  exact hb

/-- No access changes the form of the memory. -/
theorem Fitted.touches {b b' : Board Flat} (hb : Fitted b)
    (h : b.Touches b') : Fitted b' := by
  induction h with
  | refl => exact hb
  | tail _ hlast ih => exact ih.touch hlast

theorem Fitted.step {s : Computer Flat} (hs : Fitted s.board) :
    Fitted s.step.2.board :=
  Exec.preserved_step (fun ht h => h.touch ht)
    (fun harena _ h => by
      unfold Fitted
      rw [harena]
      exact h) hs

theorem memory_of_sameMemory {b b' : Board Flat} (h : b.SameMemory b') :
    b'.memory = b.memory :=
  funext fun addr => h.valueAt_eq addr

/-- An acknowledgement changes none. -/
theorem sameMemory_acknowledge (channel : UInt8) (s : Computer Flat) :
    s.board.SameMemory (Exec.acknowledge channel s).2.board := by
  rw [← Exec.heed_board]
  exact Exec.sameMemory_heed channel s

-- ========================================================= the handler

/-- The handler of mode 1 enables interrupts and returns, and an entry
does not store at it. -/
structure ShortHandler (b : Computer Flat) : Prop where
  mode : b.cpu.regs.im = .im1
  ei : b.board.memory Entry.im1Target = 0xFB
  ret : b.board.memory (Entry.im1Target + 1) = 0xC9
  offEi : OffStack b Entry.im1Target
  offRet : OffStack b (Entry.im1Target + 1)

/-- What holds in the handler when it has interrupted `b`. -/
structure Active (b : Computer Flat) (pc : UInt16) (enabled : Bool)
    (s : Computer Flat) : Prop where
  fitted : Fitted s.board
  running : s.cpu.halted = false
  regs : s.cpu.regs = { b.cpu.regs with
    r := s.cpu.regs.r, iff1 := enabled, iff2 := enabled
    pc, sp := b.cpu.regs.sp - 2 }
  memory : ∀ addr, OffStack b addr →
    s.board.memory addr = b.board.memory addr
  back : word (s.board.memory (b.cpu.regs.sp - 1))
    (s.board.memory (b.cpu.regs.sp - 2)) = b.savedPc

/-- What holds at the boundary where it has returned. -/
structure Left (b t : Computer Flat) : Prop where
  fitted : Fitted t.board
  running : t.cpu.halted = false
  regs : t.cpu.regs = { b.cpu.regs with
    r := t.cpu.regs.r, iff1 := true, iff2 := true, pc := b.savedPc }
  memory : ∀ addr, OffStack b addr →
    t.board.memory addr = b.board.memory addr

section
variable {b s : Computer Flat} {pc : UInt16} {enabled : Bool}
  {act : Board Flat → Board Flat}

/-- Requests do not reach the handler. -/
theorem Active.onBoard (h : Active b pc enabled s)
    (hact : s.board.SameMemory (act s.board)) :
    Active b pc enabled (s.onBoard act) := by
  have hmemory : (s.onBoard act).board.memory = s.board.memory :=
    memory_of_sameMemory hact
  refine ⟨h.fitted.sameMemory hact, h.running, h.regs, ?_, ?_⟩
  · rw [hmemory]
    exact h.memory
  · rw [hmemory]
    exact h.back

/-- The entry leads into the handler. -/
theorem ShortHandler.entered (hb : ShortHandler b) (hfit : Fitted b.board)
    (channel : UInt8) :
    Active b Entry.im1Target false (Exec.enterMaskable channel b).2 := by
  have hsame := sameMemory_acknowledge channel b
  obtain ⟨hfitted, hmemory⟩ := (hfit.sameMemory hsame).pokeWord
    (b.cpu.regs.sp - 2) b.savedPc
  have hnext : b.cpu.regs.sp - 2 + 1 = b.cpu.regs.sp - 1 := by grind
  have hne : b.cpu.regs.sp - 2 ≠ b.cpu.regs.sp - 1 := by grind
  rw [memory_of_sameMemory hsame, hnext] at hmemory
  rw [Exec.enterMaskable_im1 hb.mode]
  dsimp only
  refine ⟨hfitted.note _, rfl, rfl, fun addr hoff => ?_, ?_⟩
  · rw [memory_note, hmemory, Function.update_of_ne hoff.1,
      Function.update_of_ne hoff.2]
  · rw [memory_note, hmemory, Function.update_self,
      Function.update_of_ne hne, Function.update_self]
    exact word_hiByte_loByte _

/-- The first instruction of the handler, and the byte that it is. -/
theorem Active.instruct_ei (h : Active b Entry.im1Target false s)
    (hb : ShortHandler b) :
    s.board.memory s.cpu.regs.pc = 0xFB
      ∧ Exec.instruct s = (4, { s with
          cpu.regs := { s.cpu.regs.fetched (Entry.im1Target + 1)
            (refreshed s.cpu.regs.r) with iff1 := true, iff2 := true }
          cpu.eiDelay := true }) := by
  have hpc : s.cpu.regs.pc = Entry.im1Target := by rw [h.regs]
  have hbyte : s.board.memory s.cpu.regs.pc = 0xFB := by
    rw [hpc, h.memory _ hb.offEi]
    exact hb.ei
  refine ⟨hbyte, ?_⟩
  rw [instruct_main (i := .ei) h.fitted h.running (by rw [hbyte]; rfl), hpc]
  rfl

/-- The second instruction of the handler, which returns. -/
theorem Active.instruct_ret (h : Active b (Entry.im1Target + 1) true s)
    (hb : ShortHandler b) :
    s.board.memory s.cpu.regs.pc = 0xC9
      ∧ Exec.instruct s = (10, { s with
          cpu.regs := { s.cpu.regs.fetched b.savedPc
            (refreshed s.cpu.regs.r) with sp := b.cpu.regs.sp } }) := by
  have hpc : s.cpu.regs.pc = Entry.im1Target + 1 := by rw [h.regs]
  have hsp : s.cpu.regs.sp = b.cpu.regs.sp - 2 := by rw [h.regs]
  have hbyte : s.board.memory s.cpu.regs.pc = 0xC9 := by
    rw [hpc, h.memory _ hb.offRet]
    exact hb.ret
  refine ⟨hbyte, ?_⟩
  have hnext : b.cpu.regs.sp - 2 + 1 = b.cpu.regs.sp - 1 := by grind
  have hrestored : b.cpu.regs.sp - 2 + 2 = b.cpu.regs.sp := by grind
  let t := s.fetched (s.cpu.regs.pc + 1) (refreshed s.cpu.regs.r)
  have ht : Fitted t.board := h.fitted
  have hpop : Exec.execute (.ret none) t =
      (6, { t with
        cpu.regs := { t.cpu.regs with
          pc := (t.board.peekWord t.cpu.regs.sp).1
          sp := t.cpu.regs.sp + 2 }
        board := (t.board.afterRead t.cpu.regs.sp).afterRead
          (t.cpu.regs.sp + 1) }) := rfl
  have hback : (t.board.peekWord t.cpu.regs.sp).1 = b.savedPc := by
    rw [Board.peekWord_fst]
    show word (s.board.memory (s.cpu.regs.sp + 1))
      (s.board.memory s.cpu.regs.sp) = _
    rw [hsp, hnext]
    exact h.back
  have hup : t.cpu.regs.sp + 2 = b.cpu.regs.sp := by
    show s.cpu.regs.sp + 2 = _
    rw [hsp, hrestored]
  rw [instruct_main (i := .ret none) h.fitted h.running
    (by rw [hbyte]; rfl)]
  dsimp only
  rw [hpop, hback, hup, ht.afterRead_eq, ht.afterRead_eq]
  rfl

/-- In mode 1 a step executes nothing but its instruction. -/
theorem codes_main (hs : Fitted s.board) (hhalted : s.cpu.halted = false)
    {i : Instruction}
    (hmain : Decode.main .hl (s.board.memory s.cpu.regs.pc)
      = .instruction i)
    (hmode : s.atBoundary.cpu.regs.im = .im1) :
    s.codes = [[s.board.memory s.cpu.regs.pc]] := by
  have hsupplied : ∀ channel, s.atBoundary.supplied channel = [] := by
    intro channel
    unfold Computer.supplied
    dsimp only
    rw [Exec.heed_im, hmode]
  have hexecuted : s.executed = [Exec.fetchOpcode s] := by
    unfold Computer.executed
    rw [hhalted]
    cases s.interrupt? with
    | none => rfl
    | some entry =>
      cases entry with
      | nmi => rfl
      | maskable channel =>
        dsimp only
        rw [hsupplied]
        rfl
  unfold Computer.codes Exec.codeOf
  rw [hexecuted, fetchOpcode_eq hs, List.map_cons, List.map_nil, hmain]

/-- An opcode of the main page tells by itself whether interrupts are
enabled. -/
theorem enables_main (hs : Fitted s.board) (hhalted : s.cpu.halted = false)
    {i : Instruction}
    (hmain : Decode.main .hl (s.board.memory s.cpu.regs.pc)
      = .instruction i) :
    s.enables = Guarded.isPlain [0xFB] [s.board.memory s.cpu.regs.pc] := by
  unfold Computer.enables Exec.codeOf
  rw [hhalted, fetchOpcode_eq hs]
  dsimp only
  rw [hmain]
  rfl

/-- The first step of an activation enables interrupts and accepts
none. -/
theorem Active.step_ei (h : Active b Entry.im1Target false s)
    (hb : ShortHandler b) (hnmi : s.interrupt? ≠ some .nmi) :
    s.codes = [[0xFB]] ∧ s.interrupt? = none
      ∧ Active b (Entry.im1Target + 1) true s.step.2 := by
  obtain ⟨hbyte, hinstruct⟩ := h.instruct_ei hb
  have hat : s.atBoundary = { s with
      cpu.regs := { s.cpu.regs.fetched (Entry.im1Target + 1)
        (refreshed s.cpu.regs.r) with iff1 := true, iff2 := true }
      cpu.eiDelay := false } := by
    unfold Computer.atBoundary
    rw [hinstruct]
  have hmode : s.atBoundary.cpu.regs.im = .im1 := by
    rw [hat]
    dsimp only
    rw [h.regs]
    exact hb.mode
  have hcodes := codes_main (i := .ei) h.fitted h.running
    (by rw [hbyte]; rfl) hmode
  have henables : s.enables = true := by
    rw [enables_main (i := .ei) h.fitted h.running (by rw [hbyte]; rfl),
      hbyte]
    decide
  have hentry : s.interrupt? = none := by
    cases hentry : s.interrupt? with
    | none => rfl
    | some entry =>
      cases entry with
      | nmi => exact absurd hentry hnmi
      | maskable channel =>
        exact absurd hentry (Computer.interrupt?_of_enables henables channel)
  refine ⟨by rw [hcodes, hbyte], hentry, ?_⟩
  have hstep : s.step.2 = _ :=
    congrArg Prod.snd (Exec.step_of_no_entry hentry)
  rw [hstep, hat]
  refine ⟨h.fitted, h.running, ?_, h.memory, h.back⟩
  dsimp only
  rw [h.regs]
  rfl

/-- The second step has returned when its boundary is reached. -/
theorem Active.left (h : Active b (Entry.im1Target + 1) true s)
    (hb : ShortHandler b) :
    s.codes = [[0xC9]] ∧ s.enables = false ∧ Left b s.atBoundary := by
  obtain ⟨hbyte, hinstruct⟩ := h.instruct_ret hb
  have hat : s.atBoundary = { s with
      cpu.regs := { s.cpu.regs.fetched b.savedPc
        (refreshed s.cpu.regs.r) with sp := b.cpu.regs.sp }
      cpu.eiDelay := false } := by
    unfold Computer.atBoundary
    rw [hinstruct]
  have hregs : s.atBoundary.cpu.regs = { b.cpu.regs with
      r := s.atBoundary.cpu.regs.r, iff1 := true, iff2 := true
      pc := b.savedPc } := by
    rw [hat]
    dsimp only
    rw [h.regs]
    rfl
  have hmode : s.atBoundary.cpu.regs.im = .im1 := by
    rw [hregs]
    exact hb.mode
  have hcodes := codes_main (i := .ret none) h.fitted h.running
    (by rw [hbyte]; rfl) hmode
  have henables : s.enables = false := by
    rw [enables_main (i := .ret none) h.fitted h.running
      (by rw [hbyte]; rfl), hbyte]
    decide
  refine ⟨by rw [hcodes, hbyte], henables, ?_⟩
  refine ⟨?_, ?_, hregs, ?_⟩ <;> rw [hat]
  · exact h.fitted
  · exact h.running
  · exact h.memory

/-- Where it has returned, the next entry finds the stack and the handler
as the entry before it has found them. -/
theorem Left.shortHandler {t : Computer Flat} (h : Left b t)
    (hb : ShortHandler b) : ShortHandler t := by
  have hsp : t.cpu.regs.sp = b.cpu.regs.sp := by rw [h.regs]
  have hoff : ∀ addr, OffStack b addr → OffStack t addr := by
    intro addr hoff
    unfold OffStack
    rw [hsp]
    exact hoff
  refine ⟨?_, ?_, ?_, hoff _ hb.offEi, hoff _ hb.offRet⟩
  · rw [h.regs]
    exact hb.mode
  · rw [h.memory _ hb.offEi]
    exact hb.ei
  · rw [h.memory _ hb.offRet]
    exact hb.ret

/-- A step that takes a maskable interrupt leads into the handler. -/
theorem ShortHandler.step (hb : ShortHandler s.atBoundary)
    (hs : Fitted s.board) {channel : UInt8}
    (hentry : s.interrupt? = some (.maskable channel)) :
    Active s.atBoundary Entry.im1Target false s.step.2 := by
  have hat : Fitted s.atBoundary.board := hs.touches (Exec.touches_instruct s)
  have hin := hb.entered hat channel
  have hstep : s.step.2 = _ :=
    congrArg Prod.snd (Exec.step_of_entry hentry)
  rw [hstep]
  exact ⟨hin.fitted, hin.running, hin.regs, hin.memory, hin.back⟩

end

end Flat

-- ================================================================= runs

section
variable {μ : Type} [Decoder μ]

namespace Computer

/-- The activations that are not over after the next step, each with the
stack pointer and the program counter that its entry has saved. One is
over at the boundary where both are back. -/
def openedAfter (opened : List (UInt16 × UInt16)) (s : Computer μ) :
    List (UInt16 × UInt16) :=
  let b := s.atBoundary
  let left := opened.filter (· != (b.cpu.regs.sp, b.cpu.regs.pc))
  match s.interrupt? with
  | some (.maskable _) => (b.cpu.regs.sp, b.savedPc) :: left
  | some .nmi | none => left

/-- The activations that are not over after a run. -/
def openedAlong (opened : List (UInt16 × UInt16)) :
    List (Board μ → Board μ) → Computer μ → List (UInt16 × UInt16)
  | [], _ => opened
  | act :: rest, s =>
    openedAlong ((s.onBoard act).openedAfter opened) rest (s.stepAfter act)

end Computer

end

namespace Flat

open Computer (stepAfter openedAfter openedAlong)

/-- At most one activation is not over, and if there is one, the computer
is in its handler. -/
inductive Opened : List (UInt16 × UInt16) → Computer Flat → Prop
  | none {s} : Opened [] s
  | first {b s} : ShortHandler b → Active b Entry.im1Target false s →
    Opened [(b.cpu.regs.sp, b.savedPc)] s
  | second {b s} : ShortHandler b →
    Active b (Entry.im1Target + 1) true s →
    Opened [(b.cpu.regs.sp, b.savedPc)] s

/-- No non-maskable interrupt is taken in a step, and a maskable one that
is taken meets the short handler. -/
def KeepsShort (s : Computer Flat) : Prop :=
  s.interrupt? ≠ some .nmi
    ∧ ∀ channel, s.interrupt? = some (.maskable channel) →
      ShortHandler s.atBoundary

/-- There is never more than one handler. -/
theorem Opened.length_le {opened : List (UInt16 × UInt16)}
    {s : Computer Flat} (h : Opened opened s) : opened.length ≤ 1 := by
  cases h with
  | none => exact Nat.zero_le 1
  | first _ _ | second _ _ => exact Nat.le_refl 1

/-- A step from where all activations are over, or are at its boundary. -/
theorem opened_of_over {opened : List (UInt16 × UInt16)} {s : Computer Flat}
    (hs : Fitted s.board) (hkeeps : KeepsShort s)
    (hover : ∀ a ∈ opened,
      a = (s.atBoundary.cpu.regs.sp, s.atBoundary.cpu.regs.pc)) :
    Opened (s.openedAfter opened) s.step.2 := by
  have hleft : opened.filter (· != (s.atBoundary.cpu.regs.sp,
      s.atBoundary.cpu.regs.pc)) = [] := by
    rw [List.filter_eq_nil_iff]
    intro a ha
    rw [hover a ha]
    simp
  unfold openedAfter
  dsimp only
  rw [hleft]
  cases hentry : s.interrupt? with
  | none => exact .none
  | some entry =>
    cases entry with
    | nmi => exact absurd hentry hkeeps.1
    | maskable channel =>
      have hb := hkeeps.2 channel hentry
      exact .first hb (hb.step hs hentry)

/-- A step ends the handler that is open, leaves it open, or opens one if
none is. -/
theorem Opened.step {opened : List (UInt16 × UInt16)} {s : Computer Flat}
    (h : Opened opened s) (hs : Fitted s.board) (hkeeps : KeepsShort s) :
    Opened (s.openedAfter opened) s.step.2 := by
  cases h with
  | none => exact opened_of_over hs hkeeps nofun
  | @first b _ hb hin =>
    obtain ⟨-, hentry, hnext⟩ := hin.step_ei hb hkeeps.1
    have hsp : s.atBoundary.cpu.regs.sp ≠ b.cpu.regs.sp := by
      unfold Computer.atBoundary
      rw [(hin.instruct_ei hb).2]
      show s.cpu.regs.sp ≠ b.cpu.regs.sp
      rw [hin.regs]
      grind
    have hstays : s.openedAfter [(b.cpu.regs.sp, b.savedPc)]
        = [(b.cpu.regs.sp, b.savedPc)] := by
      unfold openedAfter
      rw [hentry]
      simp [Ne.symm hsp]
    rw [hstays]
    exact .second hb hnext
  | @second b _ hb hin =>
    refine opened_of_over hs hkeeps fun a ha => ?_
    rw [List.mem_singleton.1 ha, (hin.left hb).2.2.regs]

/-- In a run in which nothing but requests happens between the steps, no
activation begins inside another one. -/
theorem opened_run {acts : List (Board Flat → Board Flat)}
    {opened : List (UInt16 × UInt16)} {s : Computer Flat}
    (h : Opened opened s) (hs : Fitted s.board)
    (hacts : ∀ act ∈ acts, ∀ b : Board Flat, b.SameMemory (act b))
    (hkeeps : ∀ before act rest, acts = before ++ act :: rest →
      KeepsShort ((before.foldl stepAfter s).onBoard act)) :
    Opened (openedAlong opened acts s) (acts.foldl stepAfter s) := by
  induction acts generalizing opened s with
  | nil => exact h
  | cons act rest ih =>
    obtain ⟨hact, hrest⟩ := List.forall_mem_cons.1 hacts
    have hsame := hact s.board
    have hfit : Fitted (s.onBoard act).board := hs.sameMemory hsame
    have hnow : Opened opened (s.onBoard act) := by
      cases h with
      | none => exact .none
      | first hb hin => exact .first hb (hin.onBoard hsame)
      | second hb hin => exact .second hb (hin.onBoard hsame)
    have hstep := hnow.step hfit (hkeeps [] act rest rfl)
    refine ih hstep hfit.step hrest fun before next later hsplit => ?_
    exact hkeeps (act :: before) next later (by rw [hsplit]; rfl)

-- ============================================================ together

/-- The wait after interrupts are enabled is over before the next step
begins. The boundary of an instruction that enables interrupts takes no
maskable interrupt, also if there are many of these instructions in a
row. The boundary of any other takes one whenever the line is up,
interrupts are enabled, and there is no non-maskable one.

So when mode 1 leads to a handler which enables interrupts and returns,
the two steps after an entry are these two, and the second one has
restored the stack pointer and the program counter before there can be
another entry. No activation begins inside another one. -/
theorem entries_wait {μ : Type} [Decoder μ] :
    (∀ s : Computer μ, s.step.2.cpu.eiDelay = false)
    ∧ (∀ (s : Computer μ) (acts : List (Board μ → Board μ)),
      s.cpu.eiDelay = false →
        let t := acts.foldl stepAfter s
        t.cpu.eiDelay = false
        ∧ ∀ act channel,
          let u := t.onBoard act
          (u.enables = true → u.interrupt? ≠ some (.maskable channel))
          ∧ (u.enables = false →
            (u.interrupt? = some (.maskable channel)
              ↔ u.atBoundary.board.lines.nmi = false
                ∧ u.atBoundary.cpu.regs.iff1 = true
                ∧ u.atBoundary.board.lines.irq = true
                ∧ u.atBoundary.requestedChannel = channel)))
    ∧ (∀ (s : Computer Flat) (channel : UInt8), Fitted s.board →
      s.interrupt? = some (.maskable channel) →
        let b := s.atBoundary
        ShortHandler b → ∀ first second : Board Flat → Board Flat,
          (∀ b : Board Flat, b.SameMemory (first b)) →
          (∀ b : Board Flat, b.SameMemory (second b)) →
          let u := s.step.2.onBoard first
          let v := u.step.2.onBoard second
          u.interrupt? ≠ some .nmi →
            u.codes = [[0xFB]] ∧ u.interrupt? = none
            ∧ v.codes = [[0xC9]]
            ∧ v.atBoundary.cpu.regs.sp = b.cpu.regs.sp
            ∧ v.atBoundary.cpu.regs.pc = b.savedPc)
    ∧ ∀ (s : Computer Flat) (acts : List (Board Flat → Board Flat)),
      Fitted s.board →
      (∀ act ∈ acts, ∀ b : Board Flat, b.SameMemory (act b)) →
      (∀ before act rest, acts = before ++ act :: rest →
        KeepsShort ((before.foldl stepAfter s).onBoard act)) →
        (openedAlong [] acts s).length ≤ 1 := by
  refine ⟨Exec.eiDelay_step, ?_, ?_, ?_⟩
  · intro s acts hs t
    have ht : t.cpu.eiDelay = false := Computer.eiDelay_run hs acts
    refine ⟨ht, fun act channel => ⟨fun h => ?_, fun h => ?_⟩⟩
    · exact Computer.interrupt?_of_enables h channel
    · exact Computer.interrupt?_eq_maskable_iff (s := t.onBoard act) ht h
        channel
  · intro s channel hs hentry b hb first second hfirst hsecond u v hnmi
    have hin : Active b Entry.im1Target false u :=
      (hb.step hs hentry).onBoard (hfirst _)
    obtain ⟨hei, hnone, hnext⟩ := hin.step_ei hb hnmi
    have hlast : Active b (Entry.im1Target + 1) true v :=
      hnext.onBoard (hsecond _)
    obtain ⟨hret, -, hleft⟩ := hlast.left hb
    exact ⟨hei, hnone, hret, by rw [hleft.regs], by rw [hleft.regs]⟩
  · intro s acts hs hacts hkeeps
    exact (opened_run .none hs hacts hkeeps).length_le

-- =============================================================== a storm

/-- A halted computer with such a handler, and a request for a
channel. -/
def besieged : Computer Flat where
  cpu :=
    { regs := { Registers.powerOn with im := .im1, sp := 0x8000 }
      halted := true }
  board := (holding [(0x38, 0xFB), (0x39, 0xC9)] board).onLines
    (·.assertIrq 2)

theorem besieged_board : besieged.board
    = (holding [(0x38, 0xFB), (0x39, 0xC9)] board).onLines
      (·.assertIrq 2) := by
  unfold besieged
  dsimp only

/-- The besieged CPU is halted, so that its next step is spent waiting. -/
theorem besieged_atBoundary : besieged.atBoundary
    = { besieged with cpu.regs := besieged.cpu.regs.refresh } := by
  unfold Computer.atBoundary Exec.instruct
  rw [if_pos (by unfold besieged; rfl)]
  unfold Exec.modifyRegs besieged
  rfl

theorem fitted_besieged : Fitted besieged.board
    ∧ besieged.board.lines = { irq := true, channel := 2 }
    ∧ ShortHandler besieged.atBoundary := by
  obtain ⟨hfitted, hsignals, hmemory⟩ :=
    fitted_board.holding [(0x38, 0xFB), (0x39, 0xC9)]
  simp only [List.foldl] at hmemory
  have hlines := Board.lines_eq_of_signals_eq hsignals
  have hbytes : besieged.atBoundary.board.memory
      = Function.update (Function.update board.memory 0x38 0xFB)
          0x39 0xC9 := by
    rw [besieged_atBoundary, ← hmemory]
    dsimp only
    rw [besieged_board]
    exact memory_onLines _ _
  rw [besieged_board]
  refine ⟨hfitted.sameMemory (.onLines _ _), ?_, ?_⟩
  · unfold Board.onLines
    dsimp only
    rw [hlines]
    rfl
  · refine ⟨?_, ?_, ?_, ?_, ?_⟩
    · rw [besieged_atBoundary]
      unfold besieged
      rfl
    · rw [hbytes]
      simp [Function.update, Entry.im1Target]
    · rw [hbytes]
      simp [Function.update, Entry.im1Target]
    · rw [besieged_atBoundary]
      unfold besieged
      decide
    · rw [besieged_atBoundary]
      unfold besieged
      decide

/-- A request for another channel in each of the two steps of the handler
leads from one activation straight into the next one, at the same place
of the stack. -/
theorem entries_wait_besieged :
    let again : Board Flat → Board Flat := (·.onLines (·.assertIrq 3))
    let u := besieged.step.2.onBoard again
    let v := u.step.2.onBoard again
    (∃ channel, besieged.interrupt? = some (.maskable channel))
      ∧ u.codes = [[0xFB]] ∧ u.interrupt? = none
      ∧ v.codes = [[0xC9]]
      ∧ (∃ channel, v.interrupt? = some (.maskable channel))
      ∧ v.atBoundary.cpu.regs.sp = 0x8000
      ∧ v.atBoundary.cpu.regs.pc = 0x0001
      ∧ (openedAlong [] [id, again, again] besieged).length ≤ 1 := by
  obtain ⟨hfitted, hlines, hb⟩ := fitted_besieged
  have hready : besieged.cpu.eiDelay = false := by unfold besieged; rfl
  have hidle : besieged.enables = false := by
    unfold Computer.enables besieged
    rfl
  have hiff : besieged.atBoundary.cpu.regs.iff1 = true := by
    rw [besieged_atBoundary]
    unfold besieged
    rfl
  have hsp : besieged.atBoundary.cpu.regs.sp = 0x8000 := by
    rw [besieged_atBoundary]
    unfold besieged
    rfl
  have hpc : besieged.atBoundary.savedPc = 0x0001 := by
    rw [besieged_atBoundary]
    unfold besieged
    rfl
  -- no step of it is to be carried out in order to check this
  obtain ⟨s, hs⟩ : ∃ s, s = besieged := ⟨besieged, rfl⟩
  rw [← hs] at hfitted hlines hb hready hidle hiff hsp hpc ⊢
  intro again u v
  obtain ⟨hwait, hboundary, hhandler, hopened⟩ := entries_wait (μ := Flat)
  have hkept : ∀ b : Board Flat, b.SameMemory (again b) :=
    fun b => .onLines _ b
  -- the lines at the three boundaries
  have hat : s.atBoundary.board.lines = s.board.lines :=
    (Exec.touches_instruct s).lines_eq
  have hvlines : v.atBoundary.board.lines = v.board.lines :=
    (Exec.touches_instruct v).lines_eq
  have hsnmi : s.board.lines.nmi = false := by rw [hlines]
  have hunmi : u.board.lines.nmi = false := Exec.nmi_step hsnmi
  have hvnmi : v.board.lines.nmi = false := Exec.nmi_step hunmi
  have hentry : s.interrupt?
      = some (.maskable s.atBoundary.requestedChannel) := by
    rw [Computer.interrupt?_eq_maskable_iff hready hidle, hat, hlines]
    exact ⟨rfl, hiff, rfl, rfl⟩
  have huentry := Computer.interrupt?_ne_nmi hunmi
  obtain ⟨hei, hnone, hret, hvsp, hvpc⟩ := hhandler s _ hfitted hentry hb
    again again hkept hkept huentry
  have hin : Active s.atBoundary Entry.im1Target false u :=
    (hb.step hfitted hentry).onBoard (hkept _)
  have hlast : Active s.atBoundary (Entry.im1Target + 1) true v :=
    (hin.step_ei hb huentry).2.2.onBoard (hkept _)
  obtain ⟨-, hvidle, hleft⟩ := hlast.left hb
  have hvready : v.cpu.eiDelay = false := Exec.eiDelay_step u
  have hvirq : v.board.lines.irq = true := rfl
  have hventry : v.interrupt?
      = some (.maskable v.atBoundary.requestedChannel) := by
    rw [Computer.interrupt?_eq_maskable_iff hvready hvidle, hvlines]
    exact ⟨hvnmi, by rw [hleft.regs], hvirq, rfl⟩
  refine ⟨⟨_, hentry⟩, hei, hnone, hret, ⟨_, hventry⟩, hvsp.trans hsp,
    hvpc.trans hpc, hopened s _ hfitted ?_ ?_⟩
  · intro act hact b
    have hone : act = id ∨ act = again := by simpa using hact
    rcases hone with rfl | rfl
    · exact .refl b
    · exact hkept b
  · have hs : KeepsShort (s.onBoard id) :=
      ⟨Computer.interrupt?_ne_nmi hsnmi, fun _ _ => hb⟩
    have hu : KeepsShort u :=
      ⟨huentry, fun channel h => absurd (hnone.symm.trans h) nofun⟩
    have hv : KeepsShort v :=
      ⟨Computer.interrupt?_ne_nmi hvnmi, fun _ _ => hleft.shortHandler hb⟩
    intro before act rest hsplit
    match before, hsplit with
    | [], hsplit =>
      obtain ⟨rfl, -⟩ := List.cons.inj hsplit
      exact hs
    | [_], hsplit =>
      cases hsplit
      exact hu
    | [_, _], hsplit =>
      cases hsplit
      exact hv
    | _ :: _ :: _ :: before, hsplit => simp at hsplit

end Flat
end HomeZ80
