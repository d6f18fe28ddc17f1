/-
Rewiring the register pairs. What index registers do can be told by
comparing two register files that differ in HL, IX and IY only, because
the pairs were exchanged, say, or because one of them was set aside. A
`Wiring` says what the pairs of the one are in terms of the pairs of the
other.

A computation on the rewired registers may do exactly what another
computation does on the registers as they are (`Exec.Rewired`): same
result, same board, same CPU but for the wiring. Most of what the CPU
does never looks at a pair by its name and is then related to itself,
whatever the wiring; a computation that names a register is related to
one that names another. Sequence keeps the relation, so it is put
together from the parts.
-/
import HomeZ80.Proofs.Cpu.Lifting

namespace HomeZ80

-- ============================================================= registers

/-- The registers that HL, IX and IY are made of. -/
structure Pairs where
  h : UInt8
  l : UInt8
  ix : UInt16
  iy : UInt16

/-- What becomes of the pairs. -/
abbrev Wiring := Pairs → Pairs

namespace Registers

def pairs (r : Registers) : Pairs := ⟨r.h, r.l, r.ix, r.iy⟩

/-- The register file with its pairs rewired. -/
def rewire (w : Wiring) (r : Registers) : Registers :=
  { r with
    h := (w r.pairs).h
    l := (w r.pairs).l
    ix := (w r.pairs).ix
    iy := (w r.pairs).iy }

end Registers

/-- The computer with the register pairs of its CPU rewired. -/
def Computer.rewire {μ : Type} (w : Wiring) (s : Computer μ) :
    Computer μ :=
  { s with cpu.regs := s.cpu.regs.rewire w }

/-- Under a wiring one byte register plays the part of another. -/
class Reg8.Rewired (w : Wiring) (reg reg' : Reg8) : Prop where
  get (r : Registers) : (r.rewire w).get8 reg = r.get8 reg'
  set (v : UInt8) (r : Registers) :
    (r.rewire w).set8 reg v = (r.set8 reg' v).rewire w

/-- Under a wiring one word register plays the part of another. -/
class Reg16.Rewired (w : Wiring) (reg reg' : Reg16) : Prop where
  get (r : Registers) : (r.rewire w).get16 reg = r.get16 reg'
  set (v : UInt16) (r : Registers) :
    (r.rewire w).set16 reg v = (r.set16 reg' v).rewire w

-- ================================================= registers in no pair

instance {w : Wiring} : Reg8.Rewired w .a .a :=
  ⟨fun _ => rfl, fun _ _ => rfl⟩

instance {w : Wiring} : Reg8.Rewired w .b .b :=
  ⟨fun _ => rfl, fun _ _ => rfl⟩

instance {w : Wiring} : Reg8.Rewired w .c .c :=
  ⟨fun _ => rfl, fun _ _ => rfl⟩

instance {w : Wiring} : Reg16.Rewired w .pc .pc :=
  ⟨fun _ => rfl, fun _ _ => rfl⟩

instance {w : Wiring} : Reg16.Rewired w .sp .sp :=
  ⟨fun _ => rfl, fun _ _ => rfl⟩

-- ========================================================== computations

namespace Exec

variable {μ α β : Type} {w : Wiring}

/-- The computations that do on rewired registers what others do on the
registers as they are. -/
def rewired (w : Wiring) : Rel μ μ := fun _ m m' =>
  ∀ s : Computer μ, m (s.rewire w) = ((m' s).1, (m' s).2.rewire w)

instance : Lifts (rewired (μ := μ) w) where
  pure _ _ := rfl
  bind {_ _ m m' f f'} hm hf s := by
    show f (m (s.rewire w)).1 (m (s.rewire w)).2 = _
    rw [hm s]
    exact hf (m' s).1 (m' s).2

/-- One computation does on rewired registers what another does on the
registers as they are. -/
abbrev Rewired (w : Wiring) (m m' : Exec μ α) : Prop :=
  Related (rewired w) m m'

/-- Run with the wires changed, a computation does what the other does with
them as they are. -/
theorem Rewired.eq {m m' : Exec μ α} (h : Rewired w m m')
    (s : Computer μ) : m (s.rewire w) = ((m' s).1, (m' s).2.rewire w) :=
  h.holds s

section primitives

/-- A change of rewired registers is related to one that may as well be
made before the rewiring. -/
theorem Rewired.modifyRegs {f f' : Registers → Registers}
    (h : ∀ r : Registers, f (r.rewire w) = (f' r).rewire w) :
    Rewired (μ := μ) w (modifyRegs f) (modifyRegs f') := by
  constructor
  intro s
  show ((), { s with cpu.regs := f (s.cpu.regs.rewire w) }) = _
  rw [h s.cpu.regs]
  rfl

instance (reg reg' : Reg8) [h : Reg8.Rewired w reg reg'] :
    Rewired (μ := μ) w (get8 reg) (get8 reg') :=
  ⟨fun s => congrArg (·, s.rewire w) (h.get s.cpu.regs)⟩

instance (reg reg' : Reg8) (v : UInt8) [h : Reg8.Rewired w reg reg'] :
    Rewired (μ := μ) w (set8 reg v) (set8 reg' v) :=
  .modifyRegs (h.set v)

instance (reg reg' : Reg16) [h : Reg16.Rewired w reg reg'] :
    Rewired (μ := μ) w (get16 reg) (get16 reg') :=
  ⟨fun s => congrArg (·, s.rewire w) (h.get s.cpu.regs)⟩

instance (reg reg' : Reg16) (v : UInt16)
    [h : Reg16.Rewired w reg reg'] :
    Rewired (μ := μ) w (set16 reg v) (set16 reg' v) :=
  .modifyRegs (h.set v)

instance : Rewired (μ := μ) w flags flags := ⟨fun _ => rfl⟩

instance (f : Flags) : Rewired (μ := μ) w (setFlags f) (setFlags f) :=
  ⟨fun _ => rfl⟩

instance (n : Note) : Rewired (μ := μ) w (note n) (note n) :=
  ⟨fun _ => rfl⟩

variable [Decoder μ]

instance (addr : UInt16) : Rewired (μ := μ) w (peek addr) (peek addr) :=
  ⟨fun _ => rfl⟩

instance (addr : UInt16) (v : UInt8) :
    Rewired (μ := μ) w (poke addr v) (poke addr v) :=
  ⟨fun _ => rfl⟩

instance (port : UInt8) :
    Rewired (μ := μ) w (readPort port) (readPort port) :=
  ⟨fun _ => rfl⟩

instance (port v : UInt8) :
    Rewired (μ := μ) w (writePort port v) (writePort port v) :=
  ⟨fun _ => rfl⟩

end primitives

-- ===================================================== code and stack

section helpers

variable [Decoder μ]

instance : Rewired (μ := μ) w fetchByte fetchByte := ⟨fun _ => rfl⟩

instance (op : AluOp) (v : UInt8) :
    Rewired (μ := μ) w (alu op v) (alu op v) :=
  ⟨fun _ => rfl⟩

instance : Rewired (μ := μ) w (modifyRegs (·.refresh))
    (modifyRegs (·.refresh)) :=
  .modifyRegs fun _ => rfl

instance (d : UInt8) : Rewired (μ := μ) w
    (modifyRegs fun r => { r with pc := displace r.pc d })
    (modifyRegs fun r => { r with pc := displace r.pc d }) :=
  .modifyRegs fun _ => rfl

-- ================================================================ sites

instance (reg reg' : Reg8) [Reg8.Rewired w reg reg'] :
    Rewired (μ := μ) w (readSite (.reg reg)) (readSite (.reg reg')) :=
  inferInstanceAs (Rewired w (get8 reg) (get8 reg'))

instance (addr : UInt16) :
    Rewired (μ := μ) w (readSite (.cell addr)) (readSite (.cell addr)) :=
  inferInstanceAs (Rewired w (peek addr) (peek addr))

instance (v : UInt8) (reg reg' : Reg8) [Reg8.Rewired w reg reg'] :
    Rewired (μ := μ) w (writeSite v (.reg reg))
      (writeSite v (.reg reg')) :=
  inferInstanceAs (Rewired w (set8 reg v) (set8 reg' v))

instance (v : UInt8) (addr : UInt16) :
    Rewired (μ := μ) w (writeSite v (.cell addr))
      (writeSite v (.cell addr)) :=
  inferInstanceAs (Rewired w (poke addr v) (poke addr v))

/-- An operation of the bit page that is not copied anywhere works on
sites that are related, and on nothing else. -/
theorem rewired_bits (op : BitOp) {p p' : Site}
    (hread : Rewired (μ := μ) w (readSite p) (readSite p'))
    (hwrite : ∀ v, Rewired (μ := μ) w (writeSite v p) (writeSite v p'))
    (hshown : ∀ v, p.shown v = p'.shown v) :
    Rewired (μ := μ) w (bits op p none) (bits op p' none) := by
  cases op with
  | test n =>
    simp only [bits, hshown]
    infer_instance
  | rotate op =>
    simp only [bits, bits.store]
    infer_instance
  | reset n =>
    simp only [bits, bits.store]
    infer_instance
  | set n =>
    simp only [bits, bits.store]
    infer_instance

instance (op : BitOp) (reg reg' : Reg8) [Reg8.Rewired w reg reg'] :
    Rewired (μ := μ) w (bits op (.reg reg) none)
      (bits op (.reg reg') none) :=
  rewired_bits op inferInstance (fun _ => inferInstance) fun _ => rfl

instance (op : BitOp) (addr : UInt16) :
    Rewired (μ := μ) w (bits op (.cell addr) none)
      (bits op (.cell addr) none) :=
  rewired_bits op inferInstance (fun _ => inferInstance) fun _ => rfl

end helpers

end Exec

end HomeZ80
