/-
Digits rotated along a string of bytes in memory. The two instructions
take one byte each, the one at HL; with HL led upwards over the string
and then downwards, they shift the number that it holds by one digit and
take the shift back (`Flat.digits_rotate`).

What the string is after a number of bytes is told on the bytes alone
(`Alu.roll`). Memory adds that a byte is done with once HL has left it:
the addresses differ, so no later byte touches it (`Flat.Rolled.along`).
-/
import Mathlib.Data.List.Nodup
import HomeZ80.Proofs.Alu.Digits
import HomeZ80.Proofs.Cpu.BlockCopy

namespace HomeZ80

open Alu Reading

-- ============================================================ in sequence

/-- Carry an instruction out with HL at one address after the other. -/
def Exec.along {μ : Type} [Decoder μ] (i : Instruction) :
    List UInt16 → Exec μ Unit
  | [] => pure ()
  | addr :: later => do
    set16 .hl addr
    let _ ← execute i
    along i later

/-- The address of a byte is put into HL, and the instruction is carried
out there. -/
theorem Exec.along_cons {μ : Type} [Decoder μ] (i : Instruction)
    (addr : UInt16) (later : List UInt16) (s : Computer μ) :
    (along i (addr :: later) s).2
      = (along i later (execute i (set16 .hl addr s).2).2).2 := rfl

namespace Flat

/-- The computer `t` is `s` after a rotation of the bytes at some
addresses, in their order. -/
structure Rolled (rotate : DigitRotation) (addrs : List UInt16)
    (s t : Computer Flat) : Prop where
  fitted : Fitted t.board
  bytes : addrs.map t.board.memory = (roll rotate
    (addrs.map s.board.memory) s.cpu.regs.a s.cpu.regs.f).1
  rest : (t.cpu.regs.a, t.cpu.regs.f) = (roll rotate
    (addrs.map s.board.memory) s.cpu.regs.a s.cpu.regs.f).2
  frame (addr : UInt16) (h : addr ∉ addrs) :
    t.board.memory addr = s.board.memory addr

/-- The byte at HL and the accumulator, and nothing else but the flags. -/
theorem digits_eq {s : Computer Flat} (hs : Fitted s.board)
    (rotate : DigitRotation) :
    let r := rotate s.cpu.regs.a (s.board.memory s.cpu.regs.hl)
      s.cpu.regs.f
    (Exec.execute.digits rotate s).2 = { s with
      cpu.regs := { s.cpu.regs with a := r.1, f := r.2.2 }
      board := s.board.poke s.cpu.regs.hl r.2.1 } := by
  intro r
  show ({ s with
    cpu.regs := { s.cpu.regs with a := r.1, f := r.2.2 }
    board := (s.board.afterRead s.cpu.regs.hl).poke s.cpu.regs.hl
      r.2.1 } : Computer Flat) = _
  rw [hs.afterRead_eq]

section

variable {i : Instruction} {rotate : DigitRotation}
  (hi : ∀ s : Computer Flat,
    (Exec.execute i s).2 = (Exec.execute.digits rotate s).2)

include hi

theorem digits_at {s : Computer Flat} (hs : Fitted s.board)
    (addr : UInt16) :
    let t := (Exec.execute i (Exec.set16 .hl addr s).2).2
    let r := rotate s.cpu.regs.a (s.board.memory addr) s.cpu.regs.f
    Fitted t.board ∧ (t.cpu.regs.a, t.cpu.regs.f) = (r.1, r.2.2)
      ∧ t.board.memory = Function.update s.board.memory addr r.2.1 := by
  intro t r
  have hfitted : Fitted (Exec.set16 .hl addr s).2.board := hs
  have hhl : (Exec.set16 .hl addr s).2.cpu.regs.hl = addr :=
    word_hiByte_loByte addr
  have ht : t = _ := (hi _).trans (digits_eq hfitted rotate)
  rw [hhl] at ht
  have hpoked : Fitted (s.board.poke addr r.2.1) :=
    hs.touch (.write addr r.2.1 s.board)
  rw [ht]
  exact ⟨hpoked, rfl, hs.plain.memory_poke hpoked.plain⟩

/-- At distinct addresses each byte is rolled once. -/
theorem Rolled.along {addrs : List UInt16} (haddrs : addrs.Nodup)
    {s : Computer Flat} (hs : Fitted s.board) :
    Rolled rotate addrs s (Exec.along i addrs s).2 := by
  induction addrs generalizing s with
  | nil => exact ⟨hs, rfl, rfl, fun _ _ => rfl⟩
  | cons addr later ih =>
    obtain ⟨haddr, hlater⟩ := List.nodup_cons.1 haddrs
    let first := (Exec.execute i (Exec.set16 .hl addr s).2).2
    let last := (Exec.along i later first).2
    let r := rotate s.cpu.regs.a (s.board.memory addr) s.cpu.regs.f
    obtain ⟨hfitted, hregisters, hmemory⟩ := digits_at hi hs addr
    obtain ⟨haccumulator, hflags⟩ := Prod.mk.inj hregisters
    have hrest : Rolled rotate later first last := ih hlater hfitted
    have hother {other : UInt16} (h : other ≠ addr) :
        first.board.memory other = s.board.memory other := by
      rw [hmemory, Function.update_of_ne h]
    -- the bytes still to come are as they were
    have hcoming : roll rotate (later.map first.board.memory)
          first.cpu.regs.a first.cpu.regs.f
        = roll rotate (later.map s.board.memory) r.1 r.2.2 := by
      have hbytes : later.map first.board.memory
          = later.map s.board.memory :=
        List.map_congr_left fun other h => hother fun heq =>
          haddr (heq ▸ h)
      rw [hbytes, haccumulator, hflags]
    -- and the byte that is done with stays as it is now
    have hdone : last.board.memory addr = r.2.1 := by
      rw [hrest.frame addr haddr, hmemory, Function.update_self]
    have hroll : roll rotate ((addr :: later).map s.board.memory)
          s.cpu.regs.a s.cpu.regs.f
        = (r.2.1 :: (roll rotate (later.map s.board.memory) r.1 r.2.2).1,
          (roll rotate (later.map s.board.memory) r.1 r.2.2).2) := rfl
    rw [Exec.along_cons]
    refine ⟨hrest.fitted, ?_, ?_, fun other h => ?_⟩
    · rw [hroll, ← hcoming, ← hrest.bytes, ← hdone]
      rfl
    · rw [hroll, ← hcoming]
      exact hrest.rest
    · obtain ⟨hne, hnever⟩ := List.ne_and_not_mem_of_not_mem_cons h
      exact (hrest.frame other hnever).trans (hother hne)

end

-- ============================================================= the result

/-- **A string of bytes moves by one digit.** From the lowest byte
upwards, a rotation to the left shifts the number that the bytes hold by
one hexadecimal digit: the low digit of the accumulator comes in at the
bottom, and the one that is shifted out is left there. A rotation to the
right from the highest byte downwards restores them all. The instructions
do the same to bytes in memory, at whatever addresses they are. -/
theorem digits_rotate :
    (∀ (x : List UInt8) (a : UInt8) (f g : Flags),
      let left := rollLeft x a f
      let back := rollRight left.1 left.2.1 g
      (left.1.length = x.length
        ∧ hexDigits left.1 ++ [left.2.1.toNat % 16]
          = a.toNat % 16 :: hexDigits x
        ∧ binary.number left.1
            + 16 ^ (2 * x.length) * (left.2.1.toNat % 16)
          = 16 * binary.number x + a.toNat % 16
        ∧ left.2.1.toNat / 16 = a.toNat / 16
        ∧ left.2.2.c = f.c)
      ∧ back.1 = x ∧ back.2.1 = a ∧ back.2.2.c = g.c)
    ∧ ∀ (s : Computer Flat) (addrs : List UInt16),
      Fitted s.board → addrs.Nodup →
      let left := (Exec.along (Decode.extended 0x6F) addrs s).2
      let back := (Exec.along (Decode.extended 0x67) addrs.reverse left).2
      (hexDigits (addrs.map left.board.memory)
            ++ [left.cpu.regs.a.toNat % 16]
          = s.cpu.regs.a.toNat % 16
            :: hexDigits (addrs.map s.board.memory)
        ∧ left.cpu.regs.a.toNat / 16 = s.cpu.regs.a.toNat / 16
        ∧ left.cpu.regs.f.c = s.cpu.regs.f.c
        ∧ ∀ addr, addr ∉ addrs →
          left.board.memory addr = s.board.memory addr)
      ∧ back.board.memory = s.board.memory
      ∧ back.cpu.regs.a = s.cpu.regs.a
      ∧ back.cpu.regs.f.c = s.cpu.regs.f.c := by
  refine ⟨fun x a f g => ?bytes, fun s addrs hs haddrs => ?memory⟩
  case bytes =>
    obtain ⟨hbytes, haccumulator⟩ := rollRight_rollLeft x a f g
    exact ⟨⟨length_roll x a f, hexDigits_rollLeft x a f,
      number_rollLeft x a f, high_rollLeft x a f, carry_rollLeft x a f⟩,
      hbytes, haccumulator, carry_rollRight _ _ g⟩
  case memory =>
    intro left back
    have hleft : Rolled rld addrs s left :=
      .along (fun _ => rfl) haddrs hs
    have hback : Rolled rrd addrs.reverse left back :=
      .along (fun _ => rfl) (List.nodup_reverse.2 haddrs) hleft.fitted
    let x := addrs.map s.board.memory
    let a := s.cpu.regs.a
    let f := s.cpu.regs.f
    let r := rollLeft x a f
    obtain ⟨haccumulator, hflags⟩ := Prod.mk.inj hleft.rest
    have hrow : roll rrd (addrs.reverse.map left.board.memory)
          left.cpu.regs.a left.cpu.regs.f
        = roll rrd r.1.reverse r.2.1 r.2.2 := by
      rw [List.map_reverse, hleft.bytes, haccumulator, hflags]
      rfl
    obtain ⟨haccumulator', hflags'⟩ := Prod.mk.inj (hback.rest.trans
      (congrArg Prod.snd hrow))
    obtain ⟨hbytes, hrestored⟩ := rollRight_rollLeft x a f r.2.2
    have hmemory : addrs.map back.board.memory = x := by
      rw [← hbytes, ← List.reverse_reverse (addrs.map _), ← List.map_reverse,
        hback.bytes, hrow]
      rfl
    refine ⟨⟨?_, ?_, ?_, hleft.frame⟩, ?_, ?_, ?_⟩
    · rw [hleft.bytes, haccumulator]
      exact hexDigits_rollLeft x a f
    · rw [haccumulator]
      exact high_rollLeft x a f
    · rw [hflags]
      exact carry_rollLeft x a f
    · funext addr
      by_cases haddr : addr ∈ addrs
      · exact List.map_inj_left.1 hmemory addr haddr
      · have hnever : addr ∉ addrs.reverse := by
          rwa [List.mem_reverse]
        exact (hback.frame addr hnever).trans (hleft.frame addr haddr)
    · exact haccumulator'.trans hrestored
    · rw [hflags']
      exact (carry_rollRight r.1 r.2.1 r.2.2).trans
        (carry_rollLeft x a f)

/-- 1234 in two bytes, the lower one at the top of memory and the other
one at its bottom. -/
def straddling : Computer Flat where
  cpu.regs := { Registers.powerOn with a := 0xA9 }
  board := holding [(0xFFFF, 0x34), (0x0000, 0x12)] board

theorem straddling_board : straddling.board
    = holding [(0xFFFF, 0x34), (0x0000, 0x12)] board := by
  unfold straddling
  dsimp only

/-- 1234 becomes 2349, with the 1 left in the accumulator. -/
theorem digits_rotate_straddling :
    let addrs : List UInt16 := [0xFFFF, 0x0000]
    let left := (Exec.along (Decode.extended 0x6F) addrs straddling).2
    let back := (Exec.along (Decode.extended 0x67) addrs.reverse left).2
    Fitted straddling.board ∧ addrs.Nodup
      ∧ hexDigits (addrs.map left.board.memory)
          ++ [left.cpu.regs.a.toNat % 16] = [9, 4, 3, 2, 1]
      ∧ left.cpu.regs.a.toNat / 16 = 10
      ∧ back.board.memory = straddling.board.memory
      ∧ back.cpu.regs.a = 0xA9 := by
  intro addrs left back
  obtain ⟨hfitted, -, hmemory⟩ :=
    fitted_board.holding [(0xFFFF, 0x34), (0x0000, 0x12)]
  rw [← straddling_board] at hfitted hmemory
  have haddrs : addrs.Nodup := by decide
  have hbytes : addrs.map straddling.board.memory = [0x34, 0x12] := by
    rw [hmemory]
    show [Function.update (Function.update board.memory 0xFFFF 0x34)
        0 0x12 0xFFFF,
      Function.update (Function.update board.memory 0xFFFF 0x34)
        0 0x12 0] = [0x34, 0x12]
    rw [Function.update_of_ne (by decide), Function.update_self,
      Function.update_self]
  obtain ⟨⟨hdigits, hhigh, -, -⟩, hrestored, haccumulator, -⟩ :=
    digits_rotate.2 straddling addrs hfitted haddrs
  rw [hbytes] at hdigits
  exact ⟨hfitted, haddrs, hdigits, hhigh, hrestored, haccumulator⟩

end Flat
end HomeZ80
