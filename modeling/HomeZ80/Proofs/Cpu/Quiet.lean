/-
The log is only written. Boards that differ in nothing but their logs
(`Board.SameButLog`) show the same memory, ports and lines, and whatever
happens to both of them leaves boards that differ in nothing but their
logs. So computers on such boards run in lockstep, and what a program
does never depends on whether it is being logged.
-/
import HomeZ80.Proofs.Board.Stores
import HomeZ80.Proofs.Cpu.Lockstep

namespace HomeZ80

variable {μ : Type}

namespace Board

/-- The board with its log erased. -/
def quiet (b : Board μ) : Board μ := { b with log := {} }

def SameButLog (b c : Board μ) : Prop := c.quiet = b.quiet

@[simp] theorem quiet_note (notes : List Note) (b : Board μ) :
    (b.note notes).quiet = b.quiet := by
  cases notes <;> rfl

@[simp] theorem quiet_remarked [Decoder μ] (access : Access)
    (addr : UInt16) (b : Board μ) :
    (b.remarked access addr).quiet = b.quiet := by
  unfold remarked
  split
  · exact quiet_note _ b
  · rfl

namespace SameButLog

variable {b c : Board μ}

theorem refl (b : Board μ) : b.SameButLog b := rfl

theorem trans {d : Board μ} (h : b.SameButLog c) (h' : c.SameButLog d) :
    b.SameButLog d := Eq.trans h' h

/-- What does not look at the log is the same on both boards. -/
theorem view {α : Type} (h : b.SameButLog c) (f : Board μ → α)
    (hf : ∀ b : Board μ, f b.quiet = f b) : f c = f b := by
  rw [← hf c, ← hf b, show c.quiet = b.quiet from h]

/-- What changes a board without looking at the log, and may log
something, keeps them the same. -/
theorem act (h : b.SameButLog c) {f : Board μ → Board μ}
    (hf : ∀ b : Board μ, (f b.quiet).quiet = (f b).quiet) :
    (f b).SameButLog (f c) :=
  h.view (fun b => (f b).quiet) hf

/-- Boards may make different notes. -/
theorem note (h : b.SameButLog c) (notes notes' : List Note) :
    (b.note notes).SameButLog (c.note notes') := by
  unfold SameButLog
  rw [quiet_note, quiet_note]
  exact h

theorem raise (h : b.SameButLog c) (fault : Fault) :
    (b.raise fault).SameButLog (c.raise fault) :=
  h.act (f := Board.raise fault) fun _ => rfl

/-- A call to the controller has the same effect on both, whatever it
notes. -/
theorem onController (h : b.SameButLog c)
    (f : Controller.WithLines → Controller.WithLines × List Note) :
    (b.onController f).SameButLog (c.onController f) := by
  refine h.act (f := Board.onController f) fun b => ?_
  have hsame : b.quiet.controller = b.controller := rfl
  unfold Board.onController
  rw [hsame]
  cases b.controller with
  | none => rfl
  | some c =>
    dsimp only
    rw [quiet_note, quiet_note]
    rfl

/-- The source of an interrupt is told on both. -/
theorem heeded (h : b.SameButLog c) (channel : UInt8) :
    (b.heeded channel).SameButLog (c.heeded channel) := by
  have hcontroller : c.controller = b.controller :=
    h.view Board.controller fun _ => rfl
  unfold Board.heeded
  rw [hcontroller]
  cases b.controller with
  | none => exact h.act (f := (·.onLines (·.clearIrq))) fun _ => rfl
  | some _ => exact h.onController _

variable [Decoder μ]

/-- The remark on an access is nothing but a note. -/
theorem remarked (h : b.SameButLog c) (access : Access)
    (addr : UInt16) :
    (b.remarked access addr).SameButLog (c.remarked access addr) := by
  unfold SameButLog
  rw [quiet_remarked, quiet_remarked]
  exact h

/-- A byte other than 255 was read without a failure, which leaves
nothing but a remark. -/
theorem read {addr : UInt16} (h : b.valueAt addr ≠ 255) :
    b.SameButLog (b.afterRead addr) := by
  have hclear : b.failureAt addr = none := by
    unfold Board.valueAt at h
    unfold Board.failureAt
    cases hfetch : b.fetch addr with
    | ok v => rfl
    | error fault =>
      rw [hfetch] at h
      exact absurd rfl h
  unfold Board.afterRead
  rw [hclear]
  exact quiet_remarked .read addr b

/-- A read fails on both or on neither. -/
theorem afterRead (h : b.SameButLog c) (addr : UInt16) :
    (b.afterRead addr).SameButLog (c.afterRead addr) := by
  have hfailure : c.failureAt addr = b.failureAt addr :=
    h.view (Board.failureAt addr) fun _ => rfl
  unfold Board.afterRead
  rw [hfailure]
  cases b.failureAt addr with
  | none => exact h.remarked .read addr
  | some fault => exact (h.remarked .read addr).raise fault

/-- A write is stored by both or by neither. -/
theorem poke (h : b.SameButLog c) (addr : UInt16) (v : UInt8) :
    (b.poke addr v).SameButLog (c.poke addr v) := by
  have htarget : c.target addr = b.target addr :=
    h.view (Board.target addr) fun _ => rfl
  have hremarked := h.remarked .write addr
  unfold Board.poke
  rw [htarget]
  cases b.target addr with
  | ok p => exact hremarked.act (f := Board.store addr p v) fun _ => rfl
  | error fault => exact hremarked.raise fault

/-- Reading a port changes both decoders alike. -/
theorem afterInput (h : b.SameButLog c) (port : UInt8) :
    (b.afterInput port).SameButLog (c.afterInput port) :=
  h.act (f := Board.afterInput port) fun _ => rfl

/-- A write to a port does the same to both, the controller included. -/
theorem writePort (h : b.SameButLog c) (port v : UInt8) :
    (b.writePort port v).SameButLog (c.writePort port v) := by
  refine h.act (f := Board.writePort port v) fun b => ?_
  let decoder := Decoder.writePort port v b.decoder
  let after : Board μ := { b with decoder }
  let notes := Decoder.portRemark decoder port
  have hafter : (after.note notes).SameButLog (after.quiet.note notes) :=
    note (show after.SameButLog after.quiet from rfl) notes notes
  have hsame : b.quiet.decoder = b.decoder := rfl
  unfold Board.writePort
  dsimp only
  rw [note_decoder, note_decoder, hsame]
  cases Decoder.controllerPort decoder port with
  | none => exact hafter
  | some reg =>
    exact hafter.act (f := fun b => { b with
      decoder, controller := b.controller.map (·.writePort reg v) })
      fun _ => rfl

end SameButLog

instance [Decoder μ] : Lockstep (SameButLog (μ := μ)) where
  valueAt h addr := h.view (Board.valueAt addr) fun _ => rfl
  afterRead h addr := h.afterRead addr
  poke h addr v := h.poke addr v
  note h n := h.note [n] [n]
  readPort h port := h.view (Board.readPort port) fun _ => rfl
  afterInput h port := h.afterInput port
  writePort h port v := h.writePort port v
  nmi h := h.view (·.lines.nmi) fun _ => rfl
  irq h := h.view (·.lines.irq) fun _ => rfl
  requested h _ := h.view Board.requested fun _ => rfl
  clearNmi h := h.act (f := (·.onLines (·.clearNmi))) fun _ => rfl
  heeded h channel := h.heeded channel

end Board
end HomeZ80
