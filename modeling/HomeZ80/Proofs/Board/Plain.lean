/-
Plain memory: every address, read or written, leads to the byte of its
own number in a region of 64 KiB that may be written. No access fails
then, a read leaves the arena alone, and a write is an update of the
memory as a function of the address (`Board.Plain.memory_poke`).

The flat board is plain from the start and stays so, since its decoder
never looks at anything. The bank-switched board is plain while it shows
RAM throughout and no video plane.
-/
import HomeZ80.Board.Flat
import HomeZ80.Proofs.Board.MemoryMap

namespace HomeZ80

namespace Board

variable {μ ν : Type} [Decoder μ] [Decoder ν]

/-- The bytes that the addresses show. -/
def memory (b : Board μ) : UInt16 → UInt8 := fun addr => b.valueAt addr

structure Plain (b : Board μ) : Prop where
  resolve (access : Access) (addr : UInt16) :
    b.resolve access addr = .ok ⟨0, addr.toNat⟩
  form : ∃ name, b.arena.layout[0]? = some ⟨name, 65536, true⟩

namespace Plain

variable {b : Board μ} {c : Board ν}

-- =============================================================== access

/-- An address shows the byte of its number, and can always be read. -/
theorem byte?_eq (hb : b.Plain) (addr : UInt16) :
    b.arena.byte? ⟨0, addr.toNat⟩ = some (b.memory addr)
      ∧ b.failureAt addr = none := by
  obtain ⟨name, hform⟩ := hb.form
  exact byte?_of_resolve (hb.resolve .read addr)
    ⟨_, hform, addr.toNat_lt⟩

theorem afterRead_eq (hb : b.Plain) (addr : UInt16) :
    b.afterRead addr = b.remarked .read addr := by
  unfold afterRead
  rw [(hb.byte?_eq addr).2]

/-- A write is stored at the byte of its number. -/
theorem target_eq (hb : b.Plain) (addr : UInt16) :
    b.target addr = .ok ⟨0, addr.toNat⟩ := by
  obtain ⟨name, hform⟩ := hb.form
  rw [target_eq_ok_iff]
  refine ⟨hb.resolve .write addr, ?_⟩
  rw [Arena.refusal?_eq_none_iff]
  exact ⟨_, hform, rfl, addr.toNat_lt⟩

theorem poke_arena (hb : b.Plain) (addr : UInt16) (v : UInt8) :
    (b.poke addr v).arena = b.arena.put ⟨0, addr.toNat⟩ v :=
  poke_arena_of_ok (hb.target_eq addr) v

-- =============================================================== memory

/-- A write replaces one byte, provided that the board still is plain
when it has been announced. -/
theorem memory_poke (hb : b.Plain) {addr : UInt16} {v : UInt8}
    (hpoked : (b.poke addr v).Plain) :
    (b.poke addr v).memory = Function.update b.memory addr v := by
  funext other
  have hbyte := (hpoked.byte?_eq other).1
  rw [hb.poke_arena, Arena.byte?_put, (hb.byte?_eq other).1] at hbyte
  by_cases h : other = addr
  · subst h
    rw [if_pos rfl] at hbyte
    rw [Function.update_self]
    exact (Option.some.inj hbyte).symm
  · have hplace : (⟨0, addr.toNat⟩ : Place) ≠ ⟨0, other.toNat⟩ := by
      intro heq
      exact h (UInt16.toNat_inj.1 (congrArg Place.offset heq).symm)
    rw [if_neg hplace] at hbyte
    rw [Function.update_of_ne h]
    exact (Option.some.inj hbyte).symm

/-- The region is the memory written out. -/
theorem data_getElem? (hb : b.Plain) (i : Nat) :
    (b.arena.contents 0).data[i]?
      = if i < 65536 then some (b.memory (UInt16.ofNat i)) else none := by
  obtain ⟨name, hform⟩ := hb.form
  have hsize : (b.arena.contents 0).data.size = 65536 :=
    Arena.size_contents hform
  split
  · next hi =>
    have hbyte := (hb.byte?_eq (UInt16.ofNat i)).1
    rw [UInt16.toNat_ofNat_of_lt' hi] at hbyte
    rw [← hbyte]
    rw [Arena.layout_getElem?] at hform
    obtain ⟨r, hr, -⟩ := Option.map_eq_some_iff.1 hform
    unfold Arena.contents Arena.byte?
    rw [hr]
    exact (r.byte?_eq_getElem? i).symm
  · next hi => exact Array.getElem?_eq_none (by omega)

/-- Two plain boards show the same if their regions hold the same. -/
theorem memory_eq_iff (hb : b.Plain) (hc : c.Plain) :
    c.memory = b.memory ↔ c.arena.contents 0 = b.arena.contents 0 := by
  constructor
  · intro h
    apply ByteArray.ext
    apply Array.ext_getElem?
    intro i
    rw [hb.data_getElem?, hc.data_getElem?, h]
  · intro h
    funext addr
    have hi := hb.data_getElem? addr.toNat
    rw [← h, hc.data_getElem?, if_pos addr.toNat_lt,
      if_pos addr.toNat_lt, UInt16.ofNat_toNat] at hi
    exact Option.some.inj hi

end Plain
end Board

-- ======================================================= the flat board

/-- A latch that is set holds what it was set to, and the others what they
did. -/
theorem Ports.latch_setLatch (port other v : UInt8) (p : Ports) :
    (p.setLatch port v).latch other
      = if port = other then v else p.latch other := by
  have hport := port.toNat_lt
  have hother := other.toNat_lt
  show (Vector.set p port.toNat v)[other.toNat]
    = if port = other then v else p[other.toNat]
  rw [Vector.getElem_set]
  by_cases h : port = other
  · subst h
    rw [if_pos rfl, if_pos rfl]
  · have hval : port.toNat ≠ other.toNat := by
      intro heq
      exact h (UInt8.toNat_inj.1 heq)
    rw [if_neg hval, if_neg h]

namespace Flat

/-- The board has the one region of power-on, with whatever bytes. -/
def Fitted (b : Board Flat) : Prop :=
  b.arena.layout = #[⟨"ram", 65536, true⟩]

/-- The flat board at power-on is fitted. -/
theorem fitted_board : Fitted board := by
  show (Arena.addRam "ram" 65536 {}).layout = _
  unfold Arena.addRam
  rw [Arena.layout_add, Arena.layout_empty]
  rfl

/-- And it is plain, since its decoder looks at nothing. -/
theorem Fitted.plain {b : Board Flat} (hb : Fitted b) : b.Plain where
  resolve _ _ := rfl
  form := ⟨"ram", by rw [hb]; rfl⟩

/-- No access changes its one region but for the bytes. -/
theorem Fitted.touch {b b' : Board Flat} (hb : Fitted b)
    (h : b.Touch b') : Fitted b' :=
  h.layout_eq.trans hb

end Flat

-- ============================================== the bank-switched board

namespace Banked

/-- RAM throughout: neither a ROM nor the text window nor a video plane
is shown. -/
structure AllRam (m : Banked) : Prop where
  allRam : m.bank.allRam = true
  plane : m.bank.plane = none

/-- With RAM throughout, every access goes to the byte of its number. -/
theorem AllRam.resolve_eq {m : Banked} (hm : m.AllRam) (access : Access)
    (addr : UInt16) : m.resolve access addr = .ok ⟨mainRam, addr.toNat⟩ := by
  by_cases hlow : addr < 0x8000
  · cases access with
    | read => exact (Shows.lowRam hlow hm.allRam).resolve_eq
    | write => exact resolve_write_eq_ok_iff.2 (.low hlow)
  · have hhigh := UInt16.not_lt.1 hlow
    have hshows : m.Shows addr ⟨mainRam, addr.toNat⟩ := by
      by_cases hvideo : addr < 0xC000
      · exact .ram hhigh hvideo fun _ => hm.allRam
      · exact .highRam (UInt16.not_lt.1 hvideo) hm.plane
    cases access with
    | read => exact hshows.resolve_eq
    | write => exact resolve_write_eq_ok_iff.2 (.shown hhigh hshows)

theorem AllRam.plain {b : Board Banked} (hm : b.decoder.AllRam)
    (hb : Fitted b) : b.Plain where
  resolve := hm.resolve_eq
  form := ⟨"main-ram", by rw [hb]; rfl⟩

end Banked
end HomeZ80
