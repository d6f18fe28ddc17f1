/-
Bus cycles: the accesses that a board is put through, one after the
other, and what becomes of those that fail.

A cycle that fails is reported to the latch. The latch keeps what it
holds, so after any series of cycles it holds the fault that it held
before, or else the first failure of the series, in the order in which
the cycles were made (`Board.fault_perform`).

Cycles see and change the arena and the decoder of a board. Lines,
controller and log are nothing to them (`Board.SameBus`).
-/
import HomeZ80.Proofs.Board.Stores

namespace HomeZ80

/-- One access to memory or to a port. -/
inductive BusCycle where
  | read (addr : UInt16)
  | write (addr : UInt16) (v : UInt8)
  | input (port : UInt8)
  | output (port v : UInt8)
  deriving DecidableEq, Repr

namespace BusCycle

variable {μ : Type} [Decoder μ]

def act (b : Board μ) : BusCycle → Board μ
  | .read addr => b.afterRead addr
  | .write addr v => b.poke addr v
  | .input port => b.afterInput port
  | .output port v => b.writePort port v

/-- Why a cycle fails, if it does. Ports never fail. -/
def failure? (b : Board μ) : BusCycle → Option Fault
  | .read addr => b.failureAt addr
  | .write addr _ =>
    match b.target addr with
    | .ok _ => none
    | .error fault => some fault
  | .input _ | .output _ _ => none

/-- A word is two bytes, the low one first. -/
def wordReads (addr : UInt16) : List BusCycle :=
  [.read addr, .read (addr + 1)]

def wordWrites (addr v : UInt16) : List BusCycle :=
  [.write addr (loByte v), .write (addr + 1) (hiByte v)]

/-- A failure is latched if nothing is latched yet. -/
theorem fault_act (x : BusCycle) (b : Board μ) :
    (x.act b).arena.fault = (b.arena.fault <|> x.failure? b) := by
  cases x with
  | read addr =>
    show (b.afterRead addr).arena.fault = (_ <|> b.failureAt addr)
    unfold Board.afterRead
    cases b.failureAt addr with
    | none => simp
    | some fault =>
      show ((b.remarked .read addr).arena.raise fault).fault = _
      rw [Board.remarked_arena]
      rfl
  | write addr v =>
    simp only [act, failure?]
    cases ht : b.target addr with
    | ok p =>
      rw [Board.poke_arena_of_ok ht]
      simp [Arena.put]
    | error fault =>
      rw [Board.poke_arena_of_error ht]
      rfl
  | input port => simp [act, failure?, Board.afterInput]
  | output port v => simp [act, failure?]

end BusCycle

namespace Board

variable {μ : Type} [Decoder μ]

/-- The board after a series of cycles, the first one first. -/
def perform (cycles : List BusCycle) (b : Board μ) : Board μ :=
  cycles.foldl BusCycle.act b

/-- The failures of a series of cycles, in the order of the cycles. -/
def failures : List BusCycle → Board μ → List Fault
  | [], _ => []
  | x :: rest, b => (x.failure? b).toList ++ failures rest (x.act b)

@[simp] theorem perform_nil (b : Board μ) : b.perform [] = b := rfl

@[simp] theorem perform_cons (x : BusCycle) (rest : List BusCycle)
    (b : Board μ) : b.perform (x :: rest) = (x.act b).perform rest := rfl

@[simp] theorem perform_append (first rest : List BusCycle)
    (b : Board μ) :
    b.perform (first ++ rest) = (b.perform first).perform rest :=
  List.foldl_append

/-- The first failure of a series is latched, unless something was
latched before. -/
theorem fault_perform (cycles : List BusCycle) (b : Board μ) :
    (b.perform cycles).arena.fault
      = (b.arena.fault <|> (b.failures cycles).head?) := by
  induction cycles generalizing b with
  | nil => simp [failures]
  | cons x rest ih =>
    have hcons : b.failures (x :: rest)
        = (x.failure? b).toList ++ (x.act b).failures rest := rfl
    rw [perform_cons, ih, x.fault_act, hcons]
    cases b.arena.fault with
    | some fault => rfl
    | none => cases x.failure? b <;> simp

-- ======================================================= what cycles see

omit [Decoder μ] in
/-- Two boards that no cycle can tell apart. -/
structure SameBus (b b' : Board μ) : Prop where
  arena : b'.arena = b.arena
  decoder : b'.decoder = b.decoder

namespace SameBus

section
variable {b b' b'' : Board μ}

omit [Decoder μ]

theorem refl (b : Board μ) : b.SameBus b := ⟨rfl, rfl⟩

theorem of_eq (h : b = b') : b.SameBus b' := h ▸ refl b

theorem symm (h : b.SameBus b') : b'.SameBus b :=
  ⟨h.arena.symm, h.decoder.symm⟩

theorem trans (h : b.SameBus b') (h' : b'.SameBus b'') : b.SameBus b'' :=
  ⟨h'.arena.trans h.arena, h'.decoder.trans h.decoder⟩

theorem note (notes : List Note) (b : Board μ) :
    b.SameBus (b.note notes) :=
  ⟨note_arena notes b, note_decoder notes b⟩

theorem onLines (act : Lines → Lines) (b : Board μ) :
    b.SameBus (b.onLines act) := ⟨rfl, rfl⟩

/-- Without the latch it is the same memory. -/
theorem sameMemory (h : b.SameBus b') : b.SameMemory b' :=
  ⟨congrArg Arena.regions h.arena, h.decoder⟩

end

section
variable {b b' : Board μ}

/-- A remark is nothing to the bus. -/
theorem remarked (access : Access) (addr : UInt16) (b : Board μ) :
    b.SameBus (b.remarked access addr) :=
  ⟨remarked_arena access addr b, remarked_decoder access addr b⟩

/-- A read fails on both or on neither. -/
theorem failureAt_eq (h : b.SameBus b') (addr : UInt16) :
    b'.failureAt addr = b.failureAt addr := by
  unfold failureAt
  rw [h.sameMemory.fetch_eq addr]

/-- A write is sent to the same place on both. -/
theorem target_eq (h : b.SameBus b') (addr : UInt16) :
    b'.target addr = b.target addr := by
  simp only [target, resolve, h.arena, h.decoder]

/-- Remarks do not make a difference. -/
theorem remark (h : b.SameBus b') (access : Access) (addr : UInt16) :
    (b.remarked access addr).SameBus (b'.remarked access addr) :=
  ((remarked access addr b).symm.trans h).trans (remarked access addr b')

/-- A cycle does the same to boards that it cannot tell apart. -/
theorem act (h : b.SameBus b') (x : BusCycle) :
    (x.act b).SameBus (x.act b') := by
  cases x with
  | read addr =>
    show (b.afterRead addr).SameBus (b'.afterRead addr)
    have hremarked := h.remark .read addr
    unfold afterRead
    rw [h.failureAt_eq]
    cases b.failureAt addr with
    | none => exact hremarked
    | some fault =>
      exact ⟨congrArg (·.raise fault) hremarked.arena, hremarked.decoder⟩
  | write addr v =>
    show (b.poke addr v).SameBus (b'.poke addr v)
    have htarget := h.target_eq addr
    constructor
    · cases ht : b.target addr with
      | ok p =>
        rw [ht] at htarget
        rw [poke_arena_of_ok ht, poke_arena_of_ok htarget, h.arena]
      | error fault =>
        rw [ht] at htarget
        rw [poke_arena_of_error ht, poke_arena_of_error htarget, h.arena]
    · exact (h.sameMemory.act (.write addr v)).decoder
  | input port =>
    exact ⟨h.arena, (h.sameMemory.act (.input port)).decoder⟩
  | output port v =>
    refine ⟨?_, (h.sameMemory.act (.output port v)).decoder⟩
    show (b'.writePort port v).arena = (b.writePort port v).arena
    rw [writePort_arena, writePort_arena, h.arena]

/-- A series of cycles does the same to both. -/
theorem perform (h : b.SameBus b') (cycles : List BusCycle) :
    (b.perform cycles).SameBus (b'.perform cycles) := by
  induction cycles generalizing b b' with
  | nil => exact h
  | cons x rest ih => exact ih (h.act x)

/-- A whole block does the same to them as well. -/
theorem pokeBlock (h : b.SameBus b') (addr : UInt16)
    (bytes : List UInt8) :
    (b.pokeBlock addr bytes).SameBus (b'.pokeBlock addr bytes) := by
  induction bytes generalizing addr b b' with
  | nil => exact h
  | cons v rest ih =>
    obtain ⟨harena, hdecoder⟩ := h.remark .write addr
    unfold Board.pokeBlock
    rw [h.target_eq]
    cases b.target addr with
    | ok p =>
      apply ih
      exact ⟨congrArg (Arena.put p v) harena, hdecoder⟩
    | error fault =>
      exact ⟨congrArg (Arena.raise fault) harena, hdecoder⟩

end
end SameBus
end Board
end HomeZ80
