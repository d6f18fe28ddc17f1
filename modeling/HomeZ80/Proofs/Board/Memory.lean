/-
What a read finds. It depends on the regions and on the decoding of
addresses, and on nothing else of the board (`Board.SameMemory`). A
read itself leaves both as they are, whatever it reports or latches,
and so does all that happens to lines and controller. The bytes of an
entry in a table of addresses can therefore be told from the board as it
was before the interrupt.
-/
import HomeZ80.Proofs.Board.Touch

namespace HomeZ80

namespace Board

variable {μ : Type}

/-- Two boards with the same bytes at the same places, and the same way
there. -/
structure SameMemory (b b' : Board μ) : Prop where
  regions : b'.arena.regions = b.arena.regions
  decoder : b'.decoder = b.decoder

namespace SameMemory

theorem refl (b : Board μ) : b.SameMemory b := ⟨rfl, rfl⟩

theorem trans {b b' b'' : Board μ} (h : b.SameMemory b')
    (h' : b'.SameMemory b'') : b.SameMemory b'' :=
  ⟨h'.regions.trans h.regions, h'.decoder.trans h.decoder⟩

theorem note (notes : List Note) (b : Board μ) :
    b.SameMemory (b.note notes) :=
  ⟨by rw [note_arena], note_decoder notes b⟩

/-- The latch is no part of memory. -/
theorem raise (fault : Fault) (b : Board μ) :
    b.SameMemory (b.raise fault) := ⟨rfl, rfl⟩

theorem onLines (act : Lines → Lines) (b : Board μ) :
    b.SameMemory (b.onLines act) := ⟨rfl, rfl⟩

theorem onController
    (act : Controller.WithLines → Controller.WithLines × List Note)
    (b : Board μ) : b.SameMemory (b.onController act) := by
  unfold Board.onController
  dsimp only
  split
  · exact ⟨by rw [note_arena], note_decoder _ _⟩
  · exact refl b

variable [Decoder μ]

/-- A read finds the same in the same memory. -/
theorem fetch_eq {b b' : Board μ} (h : b.SameMemory b')
    (addr : UInt16) : b'.fetch addr = b.fetch addr := by
  obtain ⟨hregions, hdecoder⟩ := h
  simp only [Board.fetch, resolve, Arena.read, Arena.byte?, Arena.name,
    hregions, hdecoder]

theorem valueAt_eq {b b' : Board μ} (h : b.SameMemory b')
    (addr : UInt16) : b'.valueAt addr = b.valueAt addr := by
  unfold Board.valueAt
  rw [h.fetch_eq addr]

/-- A remark does not change memory. -/
theorem remarked (access : Access) (addr : UInt16) (b : Board μ) :
    b.SameMemory (b.remarked access addr) := by
  unfold Board.remarked
  split
  · exact note _ b
  · exact refl b

/-- A read does not, even if it fails. -/
theorem afterRead (addr : UInt16) (b : Board μ) :
    b.SameMemory (b.afterRead addr) := by
  unfold Board.afterRead
  split
  · exact remarked .read addr b
  · exact (remarked .read addr b).trans (raise _ _)

theorem peekWord (addr : UInt16) (b : Board μ) :
    b.SameMemory (b.peekWord addr).2 :=
  (afterRead addr b).trans (afterRead (addr + 1) _)

end SameMemory

variable [Decoder μ]

/-- A word is the byte at its address with the one after it. -/
theorem peekWord_fst (addr : UInt16) (b : Board μ) :
    (b.peekWord addr).1
      = word (b.valueAt (addr + 1)) (b.valueAt addr) := by
  have hsame := SameMemory.afterRead addr b
  show word ((b.afterRead addr).valueAt (addr + 1)) (b.valueAt addr) = _
  rw [hsame.valueAt_eq]

end Board
end HomeZ80
