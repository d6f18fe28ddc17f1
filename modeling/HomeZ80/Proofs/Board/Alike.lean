/-
Boards that are alike: they hold the same memory, decoder and controller,
and the same lines. They may differ in the log and in the timers, of
which a CPU sees nothing, and in one thing that it may come to see: the
channel recorded on the maskable line. This is looked at while the line
is asserted and at no other time, and when it is asserted it is written
anew. So boards on which it has been asserted since they began to be
alike agree in the channel as well (`Board.Alike.hear`), and the ones on
which it has not may do without.

Either way all that the CPU does, and all that can be done to a board
from outside, leaves alike boards alike. Computers on them run in
lockstep.
-/
import HomeZ80.Proofs.Cpu.FirstFault
import HomeZ80.Proofs.Interrupt.Pending

namespace HomeZ80

/-- The same lines. The channel may differ unless it is known to agree,
or the line is up. -/
structure Lines.Alike (heard : Bool) (l l' : Lines) : Prop where
  irq : l'.irq = l.irq
  nmi : l'.nmi = l.nmi
  stop : l'.stop = l.stop
  channel : heard = true ∨ l.irq = true → l'.channel = l.channel

namespace Lines.Alike

variable {heard : Bool} {l l' : Lines}

/-- The line that is asserted has one channel on either board, so from here
on the channels agree. -/
theorem assertIrq (h : Alike heard l l') (channel : UInt8) :
    Alike heard (l.assertIrq channel) (l'.assertIrq channel) :=
  ⟨rfl, h.nmi, h.stop, fun _ => rfl⟩

/-- Lowering the line leaves the channel that is recorded on it. -/
theorem clearIrq (h : Alike heard l l') :
    Alike heard l.clearIrq l'.clearIrq := by
  refine ⟨rfl, h.nmi, h.stop, fun hagree => h.channel (.inl ?_)⟩
  exact hagree.resolve_right nofun

/-- The non-maskable line has no channel. -/
theorem raiseNmi (h : Alike heard l l') :
    Alike heard l.raiseNmi l'.raiseNmi :=
  ⟨h.irq, rfl, h.stop, h.channel⟩

theorem clearNmi (h : Alike heard l l') :
    Alike heard l.clearNmi l'.clearNmi :=
  ⟨h.irq, rfl, h.stop, h.channel⟩

end Lines.Alike

-- ======================================================== a controller

namespace Controller

/-- The same controller with lines that are alike. -/
structure WithLines.Alike (heard : Bool) (s t : WithLines) : Prop where
  controller : t.controller = s.controller
  lines : Lines.Alike heard s.lines t.lines

variable {heard : Bool} {s t : WithLines}

/-- A wired controller raises the line of both for its current channel. -/
theorem WithLines.Alike.signal (h : WithLines.Alike heard s t)
    (channel : UInt8) :
    WithLines.Alike heard (Controller.signal channel s).1
      (Controller.signal channel t).1 := by
  unfold Controller.signal
  rw [h.controller]
  cases s.controller.wire with
  | none => exact ⟨rfl, h.lines⟩
  | some _ => exact ⟨rfl, h.lines.assertIrq channel⟩

/-- A request is accepted by both controllers or by neither. -/
theorem WithLines.Alike.request (h : WithLines.Alike heard s t)
    (channel : UInt8) :
    WithLines.Alike heard (Controller.request channel s).1
      (Controller.request channel t).1 := by
  unfold Controller.request
  rw [h.controller]
  split
  · apply WithLines.Alike.signal
    exact ⟨rfl, h.lines⟩
  · exact h

/-- An acknowledgement lowers the line of both and raises it again for the
same channel. -/
theorem WithLines.Alike.acknowledge (h : WithLines.Alike heard s t)
    (channel : UInt8) :
    WithLines.Alike heard (Controller.acknowledge channel s).1
      (Controller.acknowledge channel t).1 := by
  unfold Controller.acknowledge
  rw [h.controller]
  split
  · exact h
  · have hlines : Lines.Alike heard
        (if s.controller.wire.isSome then s.lines.clearIrq else s.lines)
        (if s.controller.wire.isSome then t.lines.clearIrq
          else t.lines) := by
      split
      · exact h.lines.clearIrq
      · exact h.lines
    dsimp only
    split
    · apply WithLines.Alike.signal
      exact ⟨rfl, hlines⟩
    · constructor
      · rfl
      · exact hlines

end Controller

-- ============================================================== a board

variable {μ : Type}

namespace Board

/-- The board with other lines and other timers. -/
def rewired (lines : Lines) (timers : List Timer) (b : Board μ) :
    Board μ :=
  { b with lines, timers }

def Alike (heard : Bool) (b c : Board μ) : Prop :=
  ∃ lines timers, (b.rewired lines timers).SameButLog c
    ∧ Lines.Alike heard b.lines lines

/-- A note is made the same whatever the lines are. -/
theorem rewired_note (lines : Lines) (timers : List Timer)
    (notes : List Note) (b : Board μ) :
    (b.note notes).rewired lines timers
      = (b.rewired lines timers).note notes := by
  cases notes <;> rfl

theorem rewired_remarked [Decoder μ] (lines : Lines) (timers : List Timer)
    (access : Access) (addr : UInt16) (b : Board μ) :
    (b.remarked access addr).rewired lines timers
      = (b.rewired lines timers).remarked access addr := by
  have hkeeps : (b.rewired lines timers).log.keeps = b.log.keeps := rfl
  unfold Board.remarked
  rw [hkeeps]
  split
  · exact rewired_note lines timers _ b
  · rfl

namespace Alike

variable {heard : Bool} {b c : Board μ}

-- =============================================================== fields

/-- All that a CPU sees is in the arena, the decoder, the controller and
the lines. -/
theorem of_eq (harena : c.arena = b.arena) (hdecoder : c.decoder = b.decoder)
    (hcontroller : c.controller = b.controller)
    (hlines : Lines.Alike heard b.lines c.lines) : Alike heard b c := by
  refine ⟨c.lines, c.timers, ?_, hlines⟩
  show c.quiet = (b.rewired c.lines c.timers).quiet
  unfold quiet rewired
  rw [← harena, ← hdecoder, ← hcontroller]

theorem arena (h : Alike heard b c) : c.arena = b.arena := by
  obtain ⟨lines, timers, hsame, -⟩ := h
  exact hsame.view Board.arena fun _ => rfl

theorem decoder (h : Alike heard b c) : c.decoder = b.decoder := by
  obtain ⟨lines, timers, hsame, -⟩ := h
  exact hsame.view Board.decoder fun _ => rfl

theorem controller (h : Alike heard b c) : c.controller = b.controller := by
  obtain ⟨lines, timers, hsame, -⟩ := h
  exact hsame.view Board.controller fun _ => rfl

/-- The lines are alike on boards that are. -/
theorem lines (h : Alike heard b c) : Lines.Alike heard b.lines c.lines := by
  obtain ⟨lines, timers, hsame, hlines⟩ := h
  have hown : c.lines = lines := hsame.view Board.lines fun _ => rfl
  rw [hown]
  exact hlines

/-- No access to memory or to a port tells alike boards apart. -/
theorem sameBus (h : Alike heard b c) : b.SameBus c :=
  ⟨h.arena, h.decoder⟩

/-- They hold the same bytes and show them at the same addresses. -/
theorem sameMemory (h : Alike heard b c) : b.SameMemory c :=
  h.sameBus.sameMemory

/-- While the line is up the channels agree, and from then on. -/
theorem hear (h : Alike heard b c) (hup : b.lines.irq = true) :
    Alike true b c :=
  of_eq h.arena h.decoder h.controller
    { h.lines with channel := fun _ => h.lines.channel (.inr hup) }

-- =========================================================== operations

/-- What leaves lines and timers alone and acts on the rest, up to what it
logs. -/
theorem act (h : Alike heard b c) {f : Board μ → Board μ}
    (hrewired : ∀ (lines : Lines) (timers : List Timer) (b : Board μ),
      (f b).rewired lines timers = f (b.rewired lines timers))
    (hlines : (f b).lines = b.lines)
    (hlog : ∀ {b c : Board μ}, b.SameButLog c → (f b).SameButLog (f c)) :
    Alike heard (f b) (f c) := by
  obtain ⟨lines, timers, hsame, halike⟩ := h
  refine ⟨lines, timers, ?_, ?_⟩
  · rw [hrewired]
    exact hlog hsame
  · rw [hlines]
    exact halike

theorem note (h : Alike heard b c) (notes notes' : List Note) :
    Alike heard (b.note notes) (c.note notes') := by
  obtain ⟨lines, timers, hsame, halike⟩ := h
  refine ⟨lines, timers, ?_, ?_⟩
  · rw [rewired_note]
    exact hsame.note notes notes'
  · rw [note_lines]
    exact halike

/-- What can be done to alike lines can be done to the boards. -/
theorem onLines (h : Alike heard b c) {move : Lines → Lines}
    (hmove : ∀ {l l' : Lines}, Lines.Alike heard l l' →
      Lines.Alike heard (move l) (move l')) :
    Alike heard (b.onLines move) (c.onLines move) :=
  of_eq h.arena h.decoder h.controller (hmove h.lines)

/-- What can be done to one controller with alike lines can be done to the
boards. -/
theorem onController (h : Alike heard b c)
    {move : Controller.WithLines → Controller.WithLines × List Note}
    (hmove : ∀ {s t : Controller.WithLines},
      Controller.WithLines.Alike heard s t →
        Controller.WithLines.Alike heard (move s).1 (move t).1) :
    Alike heard (b.onController move) (c.onController move) := by
  have hcontroller := h.controller
  unfold Board.onController
  rw [hcontroller]
  cases hb : b.controller with
  | none => exact h
  | some k =>
    have hmoved := hmove (s := ⟨k, b.lines⟩) (t := ⟨k, c.lines⟩)
      ⟨rfl, h.lines⟩
    apply note
    apply of_eq
    · exact h.arena
    · exact h.decoder
    · exact congrArg some hmoved.controller
    · exact hmoved.lines

/-- Requests leave alike boards alike. -/
theorem request (h : Alike heard b c) (channel : UInt8) :
    Alike heard (b.request channel) (c.request channel) :=
  h.onController fun hs => hs.request channel

/-- Acknowledgements leave alike boards alike. -/
theorem acknowledge (h : Alike heard b c) (channel : UInt8) :
    Alike heard (b.acknowledge channel) (c.acknowledge channel) :=
  h.onController fun hs => hs.acknowledge channel

/-- A register of the controller is written directly. -/
theorem register (h : Alike heard b c) (f : Controller → Controller) :
    Alike heard { b with controller := b.controller.map f }
      { c with controller := c.controller.map f } := by
  refine of_eq h.arena h.decoder ?_ h.lines
  exact congrArg (Option.map f) h.controller

/-- So does telling the source of an interrupt, controller or line, that it
was taken. -/
theorem heeded (h : Alike heard b c) (channel : UInt8) :
    Alike heard (b.heeded channel) (c.heeded channel) := by
  unfold Board.heeded
  rw [h.controller]
  cases b.controller with
  | none => exact h.onLines fun hl => hl.clearIrq
  | some _ => exact h.acknowledge channel

/-- The latch of both may be set to the same content. -/
theorem unlatched (h : Alike heard b c) (fault : Option Fault) :
    Alike heard { b with arena.fault := fault }
      { c with arena.fault := fault } := by
  refine of_eq ?_ h.decoder h.controller h.lines
  show ({ c.arena with fault } : Arena) = { b.arena with fault }
  rw [h.arena]

variable [Decoder μ]

/-- A read finds the same on both, and may fail on both. -/
theorem afterRead (h : Alike heard b c) (addr : UInt16) :
    Alike heard (b.afterRead addr) (c.afterRead addr) := by
  refine h.act (f := Board.afterRead addr) ?_
    (lines_eq_of_signals_eq (signals_afterRead addr b))
    fun hsame => hsame.afterRead addr
  intro lines timers b
  have hfailure : (b.rewired lines timers).failureAt addr
      = b.failureAt addr := rfl
  unfold Board.afterRead
  rw [hfailure, ← rewired_remarked]
  split <;> rfl

/-- A write stores the same byte at the same place of both. -/
theorem poke (h : Alike heard b c) (addr : UInt16) (v : UInt8) :
    Alike heard (b.poke addr v) (c.poke addr v) := by
  refine h.act (f := Board.poke addr v) ?_
    (lines_eq_of_signals_eq (signals_poke addr v b))
    fun hsame => hsame.poke addr v
  intro lines timers b
  have htarget : (b.rewired lines timers).target addr = b.target addr :=
    rfl
  unfold Board.poke
  rw [htarget, ← rewired_remarked]
  split <;> rfl

/-- A block gets equally far on both. -/
theorem pokeBlock (h : Alike heard b c) (addr : UInt16)
    (bytes : List UInt8) :
    Alike heard (b.pokeBlock addr bytes) (c.pokeBlock addr bytes) := by
  have hb := SameDevices.pokeBlock addr bytes b
  have hc := SameDevices.pokeBlock addr bytes c
  obtain ⟨harena, hdecoder⟩ := h.sameBus.pokeBlock addr bytes
  apply of_eq harena hdecoder
  · rw [hb.controller, hc.controller, h.controller]
  · rw [hb.lines, hc.lines]
    exact h.lines

/-- Reading a port changes both decoders in the same way. -/
theorem afterInput (h : Alike heard b c) (port : UInt8) :
    Alike heard (b.afterInput port) (c.afterInput port) :=
  h.act (f := Board.afterInput port) (fun _ _ _ => rfl) rfl
    fun hsame => hsame.afterInput port

/-- A port that is written may lead to the controller on both. -/
theorem writePort (h : Alike heard b c) (port v : UInt8) :
    Alike heard (b.writePort port v) (c.writePort port v) := by
  refine h.act (f := Board.writePort port v) ?_
    (lines_eq_of_signals_eq (signals_writePort port v b))
    fun hsame => hsame.writePort port v
  intro lines timers b
  unfold Board.writePort rewired
  dsimp only
  rw [note_decoder, note_decoder]
  dsimp only
  cases Decoder.controllerPort (Decoder.writePort port v b.decoder) port with
  | none => exact rewired_note lines timers _ _
  | some reg =>
    cases Decoder.portRemark (Decoder.writePort port v b.decoder) port <;>
      rfl

end Alike

instance [Decoder μ] (heard : Bool) : Lockstep (Alike heard (μ := μ)) where
  valueAt h addr := h.sameMemory.valueAt_eq addr
  afterRead h addr := h.afterRead addr
  poke h addr v := h.poke addr v
  note h n := h.note [n] [n]
  readPort {b c} h port := congrArg (Decoder.readPort · port) h.decoder
  afterInput h port := h.afterInput port
  writePort h port v := h.writePort port v
  nmi h := h.lines.nmi
  irq h := h.lines.irq
  requested h hup := by
    unfold Board.requested
    rw [h.controller]
    split
    · rfl
    · exact h.lines.channel (.inr hup)
  clearNmi h := h.onLines fun hl => hl.clearNmi
  heeded h channel := h.heeded channel

end Board
end HomeZ80
