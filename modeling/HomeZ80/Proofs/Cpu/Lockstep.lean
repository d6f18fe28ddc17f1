/-
Computers in lockstep, interrupts included. Where the boards of two
computers are related so closely that ports and interrupt lines agree
as well (`Board.Lockstep`), the CPUs stay equal whatever is executed and
whichever interrupt is taken (`Exec.agree_step_lockstep`), for as many
steps as one likes (`Computer.lockstep_steps`).
-/
import HomeZ80.Proofs.Cpu.Mirror

namespace HomeZ80

namespace Board

variable {μ : Type}

/-- The channel on whose behalf the maskable line is asserted. -/
def requested (b : Board μ) : UInt8 :=
  match b.controller with
  | some c => c.current
  | none => b.lines.channel

/-- The board after a channel was heeded. -/
def heeded (channel : UInt8) (b : Board μ) : Board μ :=
  match b.controller with
  | some _ => b.acknowledge channel
  | none => b.onLines (·.clearIrq)

end Board

variable {μ ν : Type} [Decoder μ] [Decoder ν]

/-- Related boards agree in memory, in ports and in what they ask of the
CPU, and stay related whatever the CPU does to them. The channel of the
maskable line matters only while the line is asserted. -/
class Board.Lockstep (R : Board μ → Board ν → Prop) : Prop
    extends Board.Mirror R where
  readPort {b : Board μ} {c : Board ν} (h : R b c) (port : UInt8) :
    c.readPort port = b.readPort port
  afterInput {b : Board μ} {c : Board ν} (h : R b c) (port : UInt8) :
    R (b.afterInput port) (c.afterInput port)
  writePort {b : Board μ} {c : Board ν} (h : R b c) (port v : UInt8) :
    R (b.writePort port v) (c.writePort port v)
  nmi {b : Board μ} {c : Board ν} (h : R b c) :
    c.lines.nmi = b.lines.nmi
  irq {b : Board μ} {c : Board ν} (h : R b c) :
    c.lines.irq = b.lines.irq
  requested {b : Board μ} {c : Board ν} (h : R b c)
    (hirq : b.lines.irq = true) : c.requested = b.requested
  clearNmi {b : Board μ} {c : Board ν} (h : R b c) :
    R (b.onLines (·.clearNmi)) (c.onLines (·.clearNmi))
  heeded {b : Board μ} {c : Board ν} (h : R b c) (channel : UInt8) :
    R (b.heeded channel) (c.heeded channel)

variable {R : Board μ → Board ν → Prop} [hR : Board.Lockstep R]

omit [Decoder μ] [Decoder ν] hR in
/-- The interrupt that is taken is told by CPU, lines and the channel that
is requested. -/
theorem Computer.accepted?_eq {s : Computer μ} {t : Computer ν}
    (hcpu : t.cpu = s.cpu) (hnmi : t.board.lines.nmi = s.board.lines.nmi)
    (hirq : t.board.lines.irq = s.board.lines.irq)
    (hchannel : s.board.lines.irq = true →
      t.board.requested = s.board.requested) (maskable : Bool) :
    t.accepted? maskable = s.accepted? maskable := by
  unfold accepted?
  rw [hnmi, hirq, hcpu]
  cases hup : s.board.lines.irq with
  | false => simp
  | true =>
    have hsame : t.requestedChannel = s.requestedChannel := hchannel hup
    rw [hsame]

namespace Exec

variable {s : Computer μ} {t : Computer ν}

/-- Boards in lockstep cannot be told apart by any use of a port. -/
theorem portUse_mirrored (use : PortUse) : use.Mirrored R := by
  cases use with
  | input port =>
    exact fun b c h => ⟨hR.readPort h port, hR.afterInput h port⟩
  | output port v => exact fun b c h => hR.writePort h port v

instance (op : UInt8) : Mirrors R (opcode op) (opcode op) :=
  ⟨fun h => agree_opcode op h fun use _ => portUse_mirrored use⟩

/-- So an instruction agrees on them, whatever it is. -/
theorem agree_instruct_lockstep (h : Twins R s t) :
    Agree R instruct instruct s t :=
  agree_instruct h fun use _ => portUse_mirrored use

-- ============================================================= entries

instance : Mirrors R (modifyBoard (·.onLines (·.clearNmi)))
    (modifyBoard (·.onLines (·.clearNmi))) :=
  ⟨fun h => ⟨rfl, h.cpu, hR.clearNmi h.board⟩⟩

instance (channel : UInt8) :
    Mirrors R (acknowledge channel) (acknowledge channel) :=
  ⟨fun h => ⟨rfl, h.cpu, hR.heeded h.board channel⟩⟩

-- a long sequence, past the usual bound on a search
set_option synthInstance.maxSize 256 in
instance : Mirrors R enterNmi enterNmi := by
  constructor
  intro s t h
  let clear : Exec μ Unit := modifyBoard (·.onLines (·.clearNmi))
  have hclear : Agree R clear (modifyBoard (·.onLines (·.clearNmi))) s t :=
    Mirrors.agree h
  have hwake : Agree R leaveHalt leaveHalt _ _ := Mirrors.agree hclear.2
  exact hclear.andThen (hwake.andThen (Mirrors.agree hwake.2))

instance (channel : UInt8) : Mirrors R (heed channel) (heed channel) := by
  unfold heed
  infer_instance

set_option synthInstance.maxSize 256 in
instance (entry : Entry) : Mirrors R (enter entry) (enter entry) := by
  cases entry with
  | nmi =>
    unfold enter
    infer_instance
  | maskable channel =>
    unfold enter enterMaskable
    infer_instance

-- =============================================================== steps

omit [Decoder μ] in
/-- The computer when the wait that enabling interrupts imposes is
over. -/
def undelayed (s : Computer μ) : Computer μ :=
  { s with cpu.eiDelay := false }

/-- What is done at a boundary, given what is accepted there. -/
def settle : Option Entry → Exec μ Nat
  | some entry => enter entry
  | none => pure 0

/-- The boundary decides first and acts then. -/
theorem boundary_eq_settle (s : Computer μ) :
    boundary s =
      settle ((undelayed s).accepted? (!s.cpu.eiDelay)) (undelayed s) := by
  unfold settle
  show (match (undelayed s).accepted? (!s.cpu.eiDelay) with
    | some entry => enter entry (undelayed s)
    | none => (0, (undelayed s))) = _
  cases (undelayed s).accepted? (!s.cpu.eiDelay) <;> rfl

instance (accepted : Option Entry) :
    Mirrors R (settle accepted) (settle accepted) := by
  cases accepted <;> (unfold settle; infer_instance)

theorem agree_boundary (h : Twins R s t) :
    Agree R boundary boundary s t := by
  have hcpu : (undelayed t).cpu = (undelayed s).cpu :=
    congrArg (fun c : Cpu => { c with eiDelay := false }) h.cpu
  have haccepted := Computer.accepted?_eq hcpu (hR.nmi h.board)
    (hR.irq h.board) (hR.requested h.board) (!s.cpu.eiDelay)
  unfold Agree
  rw [boundary_eq_settle, boundary_eq_settle, h.cpu, haccepted]
  exact Mirrors.agree ⟨hcpu, h.board⟩

/-- A step does the same on related boards, whatever it executes. -/
theorem agree_step_lockstep (h : Twins R s t) :
    Agree R step step s t := by
  have hinstruct := agree_instruct_lockstep h
  have hboundary := agree_boundary hinstruct.2
  exact hinstruct.andThen
    (hboundary.andThen (Mirrors.agree hboundary.2))

end Exec

theorem Computer.lockstep_steps {s : Computer μ} {t : Computer ν}
    (h : Twins R s t) (n : Nat) : Twins R (s.steps n) (t.steps n) := by
  induction n with
  | zero => exact h
  | succ n ih =>
    rw [steps_succ, steps_succ]
    exact (Exec.agree_step_lockstep ih).2

end HomeZ80
