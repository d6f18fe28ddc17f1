/-
Interrupt entries: which interrupt a step takes, and where the entry
leads.

A step is an instruction and then at most one entry. Which one it is
can be told before (`Computer.interrupt?`), from the lines and flip-flops
that the instruction leaves; the step then does exactly this entry
(`Exec.step_of_entry`), or none (`Exec.step_of_no_entry`).

A maskable entry heeds a channel and goes where the channel leads. The
three modes differ only in the second part, and there nothing but the
channel that was heeded is looked at: twice its number is the opcode of
mode 0 and the place in the table of mode 2.
-/
import HomeZ80.Proofs.Board.Memory
import HomeZ80.Proofs.Cpu.Footprint

namespace HomeZ80

variable {μ : Type}

-- ============================================================= heeding

namespace Exec

/-- A channel is acknowledged to the controller, if there is one. -/
theorem acknowledge_of_some {s : Computer μ} {c : Controller}
    (h : s.board.controller = some c) (channel : UInt8) :
    (acknowledge channel s).2.board = s.board.acknowledge channel := by
  unfold acknowledge modifyBoard
  simp only [h]

theorem acknowledge_of_none {s : Computer μ}
    (h : s.board.controller = none) (channel : UInt8) :
    (acknowledge channel s).2.board = s.board.onLines (·.clearIrq) := by
  unfold acknowledge modifyBoard
  simp only [h]

/-- An acknowledgement leaves mask and priority rule. -/
theorem standing_acknowledge (channel : UInt8) (s : Computer μ) :
    (acknowledge channel s).2.board.standing = s.board.standing := by
  cases hc : s.board.controller with
  | none =>
    rw [acknowledge_of_none hc]
    rfl
  | some c =>
    rw [acknowledge_of_some hc]
    exact Board.standing_acknowledge channel _

/-- Heeding an interrupt does nothing to the board but to acknowledge
the channel. -/
theorem heed_board (channel : UInt8) (s : Computer μ) :
    (heed channel s).2.board = (acknowledge channel s).2.board := rfl

/-- Heeding an interrupt leaves the mode. -/
theorem heed_im (channel : UInt8) (s : Computer μ) :
    (heed channel s).2.cpu.regs.im = s.cpu.regs.im := by
  show (if s.cpu.halted then _ else s.cpu : Cpu).regs.im = _
  split <;> rfl

theorem heed_i (channel : UInt8) (s : Computer μ) :
    (heed channel s).2.cpu.regs.i = s.cpu.regs.i := by
  show (if s.cpu.halted then _ else s.cpu : Cpu).regs.i = _
  split <;> rfl

theorem sameMemory_heed (channel : UInt8) (s : Computer μ) :
    s.board.SameMemory (heed channel s).2.board := by
  rw [heed_board]
  cases hc : s.board.controller with
  | none =>
    rw [acknowledge_of_none hc]
    exact .onLines _ _
  | some c =>
    rw [acknowledge_of_some hc]
    exact .onController _ _

end Exec

variable [Decoder μ]

namespace Computer

/-- The computer at the boundary after its next instruction. The wait
that enabling interrupts imposes is over there. -/
def atBoundary (s : Computer μ) : Computer μ :=
  { (Exec.instruct s).2 with cpu.eiDelay := false }

/-- The interrupt that the next step takes. -/
def interrupt? (s : Computer μ) : Option Entry :=
  s.atBoundary.accepted? (!(Exec.instruct s).2.cpu.eiDelay)

/-- Only a pending non-maskable interrupt, or the asserted line together
with the first flip-flop, make a step take an interrupt; and a maskable
one is taken for the channel that is requested. -/
theorem interrupt?_eq_maskable {s : Computer μ} {channel : UInt8}
    (h : s.interrupt? = some (.maskable channel)) :
    s.atBoundary.board.lines.nmi = false
      ∧ s.atBoundary.cpu.regs.iff1 = true
      ∧ s.atBoundary.board.lines.irq = true
      ∧ s.atBoundary.requestedChannel = channel := by
  unfold interrupt? accepted? at h
  split at h
  · cases h
  · next hnmi =>
    split at h
    · next hall =>
      simp only [Bool.and_eq_true] at hall
      obtain ⟨⟨-, hiff⟩, hirq⟩ := hall
      have hchannel := Entry.maskable.inj (Option.some.inj h)
      exact ⟨Bool.eq_false_iff.2 hnmi, hiff, hirq, hchannel⟩
    · cases h

end Computer

namespace Exec

-- =============================================================== steps

/-- The boundary enters the interrupt that is taken, if there is one. -/
theorem boundary_instruct (s : Computer μ) :
    boundary (instruct s).2 =
      match s.interrupt? with
      | some entry => enter entry s.atBoundary
      | none => (0, s.atBoundary) := rfl

/-- A step is an instruction and a boundary, and puts both on the
account. -/
theorem step_eq (s : Computer μ) :
    step s =
      let t := boundary (instruct s).2
      let cycles := (instruct s).1 + t.1
      (cycles, { t.2 with cpu.cost := t.2.cpu.cost + cycles }) := rfl

/-- A step that takes an interrupt does what the entry does at the
boundary. -/
theorem step_of_entry {s : Computer μ} {entry : Entry}
    (h : s.interrupt? = some entry) :
    step s =
      let t := enter entry s.atBoundary
      let cycles := (instruct s).1 + t.1
      (cycles, { t.2 with cpu.cost := t.2.cpu.cost + cycles }) := by
  rw [step_eq, boundary_instruct, h]

/-- A step that takes none is the instruction alone. -/
theorem step_of_no_entry {s : Computer μ} (h : s.interrupt? = none) :
    step s =
      ((instruct s).1, { s.atBoundary with
        cpu.cost := s.atBoundary.cpu.cost + (instruct s).1 }) := by
  rw [step_eq, boundary_instruct, h]
  rfl

/-- What survives every access, the lowering of the non-maskable line
and an acknowledgement survives a step, whatever it executes and
whichever interrupt it takes. -/
theorem step_preserves {P : Board μ → Prop}
    (htouch : ∀ {b b' : Board μ}, b.Touch b' → P b → P b')
    (hnmi : ∀ {b : Board μ}, P b → P (b.onLines (·.clearNmi)))
    (hacknowledge : ∀ {t : Computer μ} (channel : UInt8), P t.board →
      P (acknowledge channel t).2.board)
    {s : Computer μ} (h : P s.board) : P (step s).2.board := by
  have htouches : ∀ {b b' : Board μ}, b.Touches b' → P b → P b' := by
    intro b b' ht hb
    induction ht with
    | refl => exact hb
    | tail _ hlast ih => exact htouch hlast ih
  have hat : P s.atBoundary.board := htouches (touches_instruct s) h
  cases hentry : s.interrupt? with
  | none =>
    rw [step_of_no_entry hentry]
    exact hat
  | some entry =>
    rw [step_of_entry hentry]
    cases entry with
    | nmi => exact htouches (touches_enterNmi s.atBoundary) (hnmi hat)
    | maskable channel =>
      exact htouches (touches_enterMaskable channel s.atBoundary)
        (hacknowledge channel hat)

-- =============================================================== modes

/-- The low byte of a channel's offset is twice its number. -/
theorem loByte_offsetOf (channel : UInt8) :
    loByte (Controller.offsetOf channel) = 2 * channel := by
  apply UInt8.toNat_inj.1
  simp [loByte, Controller.offsetOf]
  omega

/-- The place of a channel in the table that register I points at. -/
theorem table_eq {channel : UInt8} (h : channel < Controller.channels)
    (i : UInt8) :
    word i 0 ||| Controller.offsetOf channel = word i (2 * channel) := by
  have hlt : channel.toNat < 8 := h
  have hi := i.toNat_lt
  have hor : 256 * i.toNat ||| 2 * channel.toNat
      = 256 * i.toNat + 2 * channel.toNat :=
    (Nat.two_pow_add_eq_or_of_lt
      (show 2 * channel.toNat < 2 ^ 8 by omega) i.toNat).symm
  have hoffset : channel.toNat * 2 % 65536 = 2 * channel.toNat := by
    omega
  apply UInt16.toNat_inj.1
  simp only [UInt16.toNat_or, toNat_word, Controller.offsetOf,
    UInt16.toNat_mul, UInt8.toNat_toUInt16, UInt8.toNat_mul]
  simp [hoffset, hor]
  omega

/-- Mode 0: twice the channel is carried out as an opcode. -/
theorem vector_im0 {s : Computer μ} (channel : UInt8)
    (h : s.cpu.regs.im = .im0) :
    (vector channel s).2 =
      (opcode (2 * channel)
        (note (.im0Taken channel (2 * channel) s.cpu.regs.pc) s).2).2 := by
  rw [← loByte_offsetOf, vector, bind_apply]
  dsimp only [regs]
  rw [h]
  rfl

/-- Mode 1: a fixed address, whatever the channel. -/
theorem vector_im1 {s : Computer μ} (channel : UInt8)
    (h : s.cpu.regs.im = .im1) :
    (vector channel s).2.cpu.regs.pc = Entry.im1Target := by
  rw [vector, bind_apply]
  dsimp only [regs]
  rw [h]
  rfl

/-- Mode 2: the word found in the table at twice the channel. -/
theorem vector_im2 {s : Computer μ} {channel : UInt8}
    (hlt : channel < Controller.channels) (h : s.cpu.regs.im = .im2) :
    (vector channel s).2.cpu.regs.pc =
      let table := word s.cpu.regs.i (2 * channel)
      word (s.board.valueAt (table + 1)) (s.board.valueAt table) := by
  have htarget : (vector channel s).2.cpu.regs.pc =
      (s.board.peekWord
        (word s.cpu.regs.i 0 ||| Controller.offsetOf channel)).1 := by
    rw [vector, bind_apply]
    dsimp only [regs]
    rw [h]
    rfl
  rw [htarget, Board.peekWord_fst, table_eq hlt]

end Exec
end HomeZ80
