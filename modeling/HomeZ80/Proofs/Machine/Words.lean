/-
Words on the board of a machine. Wherever the map of a machine shows the
RAM that it stores to, a word survives whole: above the low half, and
everywhere while all of memory is RAM. This does not depend on how the
machine came to its state, since all that is needed of it is that its
board has the regions of power-on (`Machine.Driven.built`).

So a stack may lie across any border of the map, with its words in two
regions or on both ends of the RAM (`Driven.word_survives`).
-/
import HomeZ80.Proofs.Board.Words
import HomeZ80.Proofs.Machine.Driven

namespace HomeZ80
namespace Machine

open Banked (Transparent resolve_stored)

variable {config : MachineConfig} {log : Log} {m : Machine}

/-- A pop undoes a push. What was pushed from one pair may be popped into
another. -/
structure StackKeeps (s : Computer Banked) : Prop where
  word (v : UInt16) : (Exec.pop (Exec.push v s).2).1 = v
  cpu (v : UInt16) : (Exec.pop (Exec.push v s).2).2.cpu = s.cpu
  pair (src dst : Reg16) :
    (Exec.execute (.pop dst) (Exec.execute (.push src) s).2).2.cpu
      = { s.cpu with regs :=
          s.cpu.regs.set16 dst (s.cpu.regs.get16 src) }

/-- A stack on memory that recalls keeps what is pushed. -/
theorem stackKeeps_of_recalls {s : Computer Banked}
    (h : s.board.Recalls (s.cpu.regs.sp - 2)) : StackKeeps s where
  word v := (Exec.pop_push h v).1
  cpu v := (Exec.pop_push h v).2
  pair src dst := by
    obtain ⟨hword, hcpu⟩ := Exec.pop_push h (s.cpu.regs.get16 src)
    let popped := Exec.pop (Exec.push (s.cpu.regs.get16 src) s).2
    show { popped.2.cpu with regs :=
      popped.2.cpu.regs.set16 dst popped.1 } = _
    rw [hword, hcpu]

/-- Where an address and the next one are shown as they are stored, a
word that is written there is read again without a fault, and two bytes
have been replaced by it and no other; a stack that lies there is kept.
And no state of the map ever leads an address and the next one to the
same place. -/
theorem Driven.word_survives (h : Driven config log m) :
    (∀ addr v : UInt16,
      Transparent m.computer.board.decoder addr →
      Transparent m.computer.board.decoder (addr + 1) →
      ∃ p q, m.computer.board.decoder.Shows addr p
        ∧ m.computer.board.decoder.Shows (addr + 1) q ∧ p ≠ q
        ∧ m.computer.board.Survives addr v p q)
    ∧ (∀ cpu : Cpu,
      Transparent m.computer.board.decoder (cpu.regs.sp - 2) →
      Transparent m.computer.board.decoder (cpu.regs.sp - 1) →
      StackKeeps { m.computer with cpu })
    ∧ ∀ (map : Banked) (access access' : Access) (addr : UInt16)
      (p q : Place), map.resolve access addr = .ok p →
      map.resolve access' (addr + 1) = .ok q → p ≠ q := by
  have hfitted := h.built.sound.fitted
  refine ⟨?_, ?_, fun map access access' addr p q => ?_⟩
  · intro addr v hlow hhigh
    obtain ⟨p, q, hword⟩ := hfitted.exists_wordAt hlow hhigh
    exact ⟨p, q, Banked.resolve_read_eq_ok_iff.1 hword.lowShown,
      Banked.resolve_read_eq_ok_iff.1 hword.highShown, hword.ne,
      hword.survives resolve_stored v⟩
  · intro cpu hlow hhigh
    have hsucc : cpu.regs.sp - 2 + 1 = cpu.regs.sp - 1 := by grind
    obtain ⟨p, q, hword⟩ := hfitted.exists_wordAt hlow (hsucc ▸ hhigh)
    exact stackKeeps_of_recalls (hword.recalls resolve_stored)
  · exact Banked.ne_of_resolve_succ

/-- A machine whose text window runs over the end of RAM, and that shows
a video plane. -/
def wrapping : Machine :=
  let m := new {} {}
  let events : List Event := [.output 0x70 0xFF, .output 0x5D 0]
  { m with computer := after events m.computer }

/-- The last address of the window shows a byte of low RAM, and the next
one a byte far above it; and the word on top of the stack begins in RAM
and ends in a video plane. -/
theorem word_survives_wrapping :
    let b := wrapping.computer.board
    let cpu : Cpu := { regs := { Registers.powerOn with sp := 0xC001 } }
    (∃ p q, p ≠ q ∧ b.Survives 0x83FF 0x1234 p q)
      ∧ StackKeeps { wrapping.computer with cpu }
      ∧ ∃ p q, b.decoder.resolve .read 0x83FF = .ok p
        ∧ b.decoder.resolve .read 0x8400 = .ok q
        ∧ p = ⟨Banked.mainRam, 0x02FF⟩ ∧ p ≠ q := by
  intro b cpu
  have hdriven : Driven {} {} wrapping := (Reached.new.after _).driven
  obtain ⟨hword, hstack, hapart⟩ := hdriven.word_survives
  have hwindow : b.decoder.bank.textWindow = 0xFF := by decide +kernel
  have hmode : b.decoder.bank.allRam = false := by decide +kernel
  have hlow : b.decoder.resolve .read 0x83FF
      = .ok ⟨Banked.mainRam, 0x02FF⟩ := by
    have hshows : b.decoder.Shows 0x83FF _ :=
      .window (by decide) (by decide) hmode
    rw [hshows.resolve_eq, hwindow]
    rfl
  have hhigh : b.decoder.resolve .read 0x8400
      = .ok ⟨Banked.mainRam, 0x8400⟩ :=
    (Banked.Shows.ram (by decide) (by decide)
      fun hbelow => absurd hbelow (by decide)).resolve_eq
  obtain ⟨p, q, -, -, hne, hsurvives⟩ :=
    hword 0x83FF 0x1234 (.inl (by decide)) (.inl (by decide))
  exact ⟨⟨p, q, hne, hsurvives⟩,
    hstack cpu (.inl (by decide)) (.inl (by decide)),
    _, _, hlow, hhigh, rfl, hapart _ _ _ _ _ _ hlow hhigh⟩

end Machine
end HomeZ80
