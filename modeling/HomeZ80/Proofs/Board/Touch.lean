/-
What a CPU can do to a board. All of it is a sequence of five kinds of
access (`Board.Touch`): a byte is read, a byte is written, a port is read,
a port is written, a note is made.

A property of boards that survives each of the five survives whatever a
program does (`Board.Touches`, an induction over the accesses). The
first use of this is what no program can do: the lines never move, and
of the controller only the mask and the priority rule ever change
(`Board.Touches.signals_eq`). The requests that wait are out of reach.
-/
import HomeZ80.Board.Basic
import Mathlib.Logic.Relation

namespace HomeZ80

-- ======================================================= small updates

namespace Board

variable {μ : Type}

theorem note_eq (notes : List Note) (b : Board μ) :
    b.note notes = { b with log := (b.note notes).log } := by
  cases notes <;> rfl

@[simp] theorem note_lines (notes : List Note) (b : Board μ) :
    (b.note notes).lines = b.lines := by
  cases notes <;> rfl

@[simp] theorem note_controller (notes : List Note) (b : Board μ) :
    (b.note notes).controller = b.controller := by
  cases notes <;> rfl

@[simp] theorem note_arena (notes : List Note) (b : Board μ) :
    (b.note notes).arena = b.arena := by
  cases notes <;> rfl

@[simp] theorem note_decoder (notes : List Note) (b : Board μ) :
    (b.note notes).decoder = b.decoder := by
  cases notes <;> rfl

@[simp] theorem note_timers (notes : List Note) (b : Board μ) :
    (b.note notes).timers = b.timers := by
  cases notes <;> rfl

/-- The controller has no part in memory. -/
@[simp] theorem onController_arena
    (act : Controller.WithLines → Controller.WithLines × List Note)
    (b : Board μ) : (b.onController act).arena = b.arena := by
  unfold onController
  dsimp only
  split
  · exact note_arena _ _
  · rfl

end Board

-- ============================================================ requests

/-- The part of a controller that requests and acknowledgements act on.
The mask and the priority rule are not in it: they decide about
requests to come, not about those that wait. -/
structure Controller.Requests where
  pending : UInt8
  current : UInt8
  wire : Option Nat
  deriving DecidableEq, Repr

def Controller.requests (c : Controller) : Controller.Requests :=
  ⟨c.pending, c.current, c.wire⟩

/-- A write to a register of the controller leaves its requests. -/
@[simp] theorem Controller.requests_writePort (reg : Controller.Port)
    (v : UInt8) (c : Controller) :
    (c.writePort reg v).requests = c.requests := by
  cases reg <;> rfl

namespace Controller

/-- The part of a controller that requests and acknowledgements leave
alone. -/
def standing (c : Controller) : Controller :=
  { c with pending := 0, current := 0 }

/-- Mask and priority rule outlast a signal to the CPU. -/
theorem standing_signal (channel : UInt8) (s : WithLines) :
    (signal channel s).1.controller.standing = s.controller.standing := by
  unfold signal
  dsimp only
  split <;> rfl

theorem standing_request (channel : UInt8) (s : WithLines) :
    (request channel s).1.controller.standing = s.controller.standing := by
  unfold request
  split
  · exact standing_signal channel _
  · rfl

/-- Mask and priority rule outlast an acknowledgement and the signal that
may come with it. -/
theorem standing_acknowledge (channel : UInt8) (s : WithLines) :
    (acknowledge channel s).1.controller.standing
      = s.controller.standing := by
  unfold acknowledge
  split
  · rfl
  · dsimp only
    split
    · exact standing_signal _ _
    · rfl

end Controller

namespace Board

variable {μ : Type}

/-- The standing part of the controller, if there is one. -/
def standing (b : Board μ) : Option Controller :=
  b.controller.map Controller.standing

/-- What a call leaves of the controller alone, it leaves of the board
alone. -/
theorem standing_onController (b : Board μ)
    {act : Controller.WithLines → Controller.WithLines × List Note}
    (hact : ∀ s, (act s).1.controller.standing = s.controller.standing) :
    (b.onController act).standing = b.standing := by
  unfold onController
  split
  · next c hc =>
    unfold standing
    rw [note_controller, hc]
    exact congrArg some (hact _)
  · rfl

/-- A request moves neither mask nor priority rule. -/
theorem standing_request (channel : UInt8) (b : Board μ) :
    (b.request channel).standing = b.standing :=
  b.standing_onController (Controller.standing_request channel)

theorem standing_acknowledge (channel : UInt8) (b : Board μ) :
    (b.acknowledge channel).standing = b.standing :=
  b.standing_onController (Controller.standing_acknowledge channel)

/-- The lines of a board with the requests behind them. -/
def signals (b : Board μ) : Lines × Option Controller.Requests :=
  (b.lines, b.controller.map Controller.requests)

theorem lines_eq_of_signals_eq {b b' : Board μ}
    (h : b'.signals = b.signals) : b'.lines = b.lines :=
  congrArg Prod.fst h

@[simp] theorem signals_raise (fault : Fault) (b : Board μ) :
    (b.raise fault).signals = b.signals := rfl

/-- A note does not move a line or a request. -/
@[simp] theorem signals_note (notes : List Note) (b : Board μ) :
    (b.note notes).signals = b.signals := by
  unfold signals
  rw [note_lines, note_controller]

-- ============================================================ accesses

variable [Decoder μ]

/-- One access to a board. -/
inductive Touch : Board μ → Board μ → Prop
  /-- A byte is read, or fails to be. -/
  | read (addr : UInt16) (b : Board μ) : Touch b (b.afterRead addr)
  /-- A byte is written, or fails to be. -/
  | write (addr : UInt16) (v : UInt8) (b : Board μ) :
      Touch b (b.poke addr v)
  /-- A port is read. -/
  | input (port : UInt8) (b : Board μ) : Touch b (b.afterInput port)
  /-- A port is written. -/
  | output (port v : UInt8) (b : Board μ) :
      Touch b (b.writePort port v)
  /-- A note is made. -/
  | note (n : Note) (b : Board μ) : Touch b (b.note [n])

/-- Any number of accesses to a board, one after the other. -/
def Touches : Board μ → Board μ → Prop := Relation.ReflTransGen Touch

-- =============================================== reads and whole blocks

/-- Two boards that differ in their arena and their log at most. -/
structure SameDevices (b b' : Board μ) : Prop where
  decoder : b'.decoder = b.decoder
  lines : b'.lines = b.lines
  controller : b'.controller = b.controller
  timers : b'.timers = b.timers

namespace SameDevices

omit [Decoder μ]

theorem refl (b : Board μ) : b.SameDevices b := ⟨rfl, rfl, rfl, rfl⟩

theorem trans {b c d : Board μ} (h : b.SameDevices c)
    (h' : c.SameDevices d) : b.SameDevices d :=
  ⟨h'.decoder.trans h.decoder, h'.lines.trans h.lines,
    h'.controller.trans h.controller, h'.timers.trans h.timers⟩

theorem signals_eq {b b' : Board μ} (h : b.SameDevices b') :
    b'.signals = b.signals := by
  unfold signals
  rw [h.lines, h.controller]

theorem note (notes : List Note) (b : Board μ) :
    b.SameDevices (b.note notes) :=
  ⟨note_decoder _ _, note_lines _ _, note_controller _ _, note_timers _ _⟩

theorem raise (fault : Fault) (b : Board μ) :
    b.SameDevices (b.raise fault) := ⟨rfl, rfl, rfl, rfl⟩

end SameDevices

theorem SameDevices.remarked (access : Access) (addr : UInt16)
    (b : Board μ) : b.SameDevices (b.remarked access addr) := by
  unfold Board.remarked
  split
  · exact .note _ b
  · exact .refl b

/-- A read has no part in the devices. -/
theorem SameDevices.afterRead (addr : UInt16) (b : Board μ) :
    b.SameDevices (b.afterRead addr) := by
  unfold Board.afterRead
  split
  · exact .remarked .read addr b
  · exact (SameDevices.remarked .read addr b).trans (.raise _ _)

/-- Nor has a whole block that is stored, however far it gets: unlike a
single byte it is not announced. -/
theorem SameDevices.pokeBlock (addr : UInt16) (bytes : List UInt8)
    (b : Board μ) : b.SameDevices (b.pokeBlock addr bytes) := by
  induction bytes generalizing addr b with
  | nil => exact .refl b
  | cons v rest ih =>
    have hremarked := SameDevices.remarked .write addr b
    unfold Board.pokeBlock
    split
    · next p _ =>
      let c : Board μ := { b.remarked .write addr with
        arena := (b.remarked .write addr).arena.put p v }
      have hstored : (b.remarked .write addr).SameDevices c :=
        ⟨rfl, rfl, rfl, rfl⟩
      exact (hremarked.trans hstored).trans (ih (addr + 1) c)
    · exact hremarked.trans (.raise _ _)

-- ================================================== the signals persist

/-- What the decoder remarks on an access moves no line. -/
@[simp] theorem signals_remarked (access : Access) (addr : UInt16)
    (b : Board μ) : (b.remarked access addr).signals = b.signals :=
  (SameDevices.remarked access addr b).signals_eq

/-- A byte that is stored moves no line. -/
@[simp] theorem signals_store (addr : UInt16) (p : Place) (v : UInt8)
    (b : Board μ) : (b.store addr p v).signals = b.signals := rfl

/-- A read moves no line, whether it fails or not. -/
@[simp] theorem signals_afterRead (addr : UInt16) (b : Board μ) :
    (b.afterRead addr).signals = b.signals := by
  unfold afterRead
  split <;> simp

/-- A write moves no line, whether it fails or not. -/
@[simp] theorem signals_poke (addr : UInt16) (v : UInt8) (b : Board μ) :
    (b.poke addr v).signals = b.signals := by
  unfold poke
  split <;> simp

/-- A port may reach the controller, but not its requests. -/
@[simp] theorem signals_writePort (port v : UInt8) (b : Board μ) :
    (b.writePort port v).signals = b.signals := by
  unfold writePort signals
  dsimp only
  split
  · cases b.controller <;> simp
  · simp

/-- No access moves a line or a request. -/
theorem Touch.signals_eq {b b' : Board μ} (h : Touch b b') :
    b'.signals = b.signals := by
  cases h with
  | read addr => exact signals_afterRead addr b
  | write addr v => exact signals_poke addr v b
  | input port => rfl
  | output port v => exact signals_writePort port v b
  | note n => exact signals_note [n] b

/-- No program moves a line or a request. -/
theorem Touches.signals_eq {b b' : Board μ} (h : Touches b b') :
    b'.signals = b.signals := by
  induction h with
  | refl => rfl
  | tail _ hlast ih => rw [hlast.signals_eq, ih]

/-- In particular the lines are as before. -/
theorem Touches.lines_eq {b b' : Board μ} (h : Touches b b') :
    b'.lines = b.lines :=
  lines_eq_of_signals_eq h.signals_eq

end Board
end HomeZ80
