/-
In all-RAM mode the bank-switched board is a flat one. While it shows RAM
throughout and no video plane, a program runs on it as it would run on a
flat board that holds the same bytes and latches
(`Computer.flat_of_allRam`), and it cannot tell the two apart, with one
exception: the port of the text window reads the window and not its
latch.

The relation of the two boards survives every access to memory
(`Banked.Flattens`, a `Board.Mirror`), because all-RAM memory is plain.
It survives a port write unless the write leaves all-RAM mode or shows a
plane (`PortUse.StaysFlat`); the other bank registers may change, they
show nothing while RAM is shown throughout.
-/
import HomeZ80.Proofs.Board.Faithful
import HomeZ80.Proofs.Board.Plain
import HomeZ80.Proofs.Cpu.Mirror

namespace HomeZ80

-- ================================================================ ports

/-- A use of a port that neither leaves all-RAM mode nor shows a video
plane, and does not look at the text window. -/
def PortUse.StaysFlat : PortUse → Prop
  | .input port => port ≠ 0x70
  | .output port v =>
    (port = 0x31 → bitOf v 1 = true)
      ∧ port ≠ 0x5C ∧ port ≠ 0x5D ∧ port ≠ 0x5E

instance : DecidablePred PortUse.StaysFlat
  | .input port => inferInstanceAs (Decidable (port ≠ 0x70))
  | .output port v => inferInstanceAs (Decidable
      ((port = 0x31 → bitOf v 1 = true)
        ∧ port ≠ 0x5C ∧ port ≠ 0x5D ∧ port ≠ 0x5E))

namespace Banked

/-- The window has one port. -/
theorem portRole_eq_textWindow {port : UInt8}
    (h : portRole port = .textWindow) : port = 0x70 := by
  unfold portRole at h
  split at h <;> first | rfl | cases h

theorem portRole_eq_memoryMode {port : UInt8}
    (h : portRole port = .memoryMode) : port = 0x31 := by
  unfold portRole at h
  split at h <;> first | rfl | cases h

/-- The planes have these ports. -/
theorem portRole_eq_plane {port : UInt8} {k : Fin 3}
    (h : portRole port = .plane k) :
    port = 0x5C ∨ port = 0x5D ∨ port = 0x5E := by
  unfold portRole at h
  split at h <;> cases h <;> decide

/-- Every port but one reads its latch. -/
theorem readPort_eq_latch {port : UInt8} (h : port ≠ 0x70) (m : Banked) :
    m.readPort port = m.ports.latch port := by
  unfold readPort
  split
  · next hrole => exact absurd (portRole_eq_textWindow hrole) h
  · rfl

/-- Bit 1 of the memory mode is all-RAM mode. -/
theorem allRam_writeMode {v : UInt8} (h : bitOf v 1 = true) (b : Bank) :
    (b.writeMode v).allRam = true := by
  have hbit : v / 2 % 2 = 1 := by
    obtain ⟨⟨v⟩⟩ := v
    revert v
    decide +kernel
  exact decide_eq_true hbit

/-- A write that stays flat leaves RAM everywhere. -/
theorem AllRam.writePort {m : Banked} (hm : m.AllRam) {port v : UInt8}
    (h : (PortUse.output port v).StaysFlat) :
    (m.writePort port v).AllRam := by
  obtain ⟨hmode, h0, h1, h2⟩ := h
  show AllRam { m with
    ports := m.ports.setLatch port v
    bank := (portRole port).act v m.bank }
  cases hrole : portRole port with
  | memoryMode =>
    have hbit := hmode (portRole_eq_memoryMode hrole)
    exact ⟨allRam_writeMode hbit m.bank, hm.plane⟩
  | plane k =>
    rcases portRole_eq_plane hrole with hport | hport | hport
    · exact absurd hport h0
    · exact absurd hport h1
    · exact absurd hport h2
  | mainRam => exact ⟨hm.allRam, rfl⟩
  | _ => exact ⟨hm.allRam, hm.plane⟩

-- ========================================================= the relation

/-- A bank-switched board that shows RAM throughout, and a flat board
with the same bytes and latches. What they have latched of faults is
given by the way. -/
structure Flattens (fault flatFault : Option Fault) (b : Board Banked)
    (c : Board Flat) : Prop where
  fitted : Fitted b
  flat : Flat.Fitted c
  allRam : b.decoder.AllRam
  memory : c.memory = b.memory
  latches (port : UInt8) (h : port ≠ 0x70) :
    c.decoder.ports.latch port = b.decoder.ports.latch port
  fault_eq : b.arena.fault = fault
  flatFault_eq : c.arena.fault = flatFault

section
variable {fault flatFault : Option Fault} {b b' : Board Banked}
  {c c' : Board Flat}

/-- Only arena and decoder matter to this. -/
theorem Flattens.same (h : Flattens fault flatFault b c)
    (hb : b'.arena = b.arena) (hb' : b'.decoder = b.decoder)
    (hc : c'.arena = c.arena) (hc' : c'.decoder = c.decoder) :
    Flattens fault flatFault b' c' := by
  have hmemory : b'.memory = b.memory :=
    funext (Board.SameMemory.valueAt_eq ⟨by rw [hb], hb'⟩)
  have hflat : c'.memory = c.memory :=
    funext (Board.SameMemory.valueAt_eq ⟨by rw [hc], hc'⟩)
  constructor
  · show b'.arena.layout = _
    rw [hb]
    exact h.fitted
  · show c'.arena.layout = _
    rw [hc]
    exact h.flat
  · rw [hb']
    exact h.allRam
  · rw [hflat, hmemory]
    exact h.memory
  · rw [hb', hc']
    exact h.latches
  · rw [hb]
    exact h.fault_eq
  · rw [hc]
    exact h.flatFault_eq

/-- A write stores the same byte at the same address of both. -/
theorem Flattens.poke (h : Flattens fault flatFault b c) (addr : UInt16)
    (v : UInt8) :
    Flattens fault flatFault (b.poke addr v) (c.poke addr v) := by
  have hplain := h.allRam.plain h.fitted
  obtain ⟨dirty, hdirty⟩ := b.decoder.stored_eq addr
  have hdecoder : (b.poke addr v).decoder = { b.decoder with dirty } := by
    rw [Board.poke_decoder_of_ok (hplain.target_eq addr)]
    exact hdirty
  have hfitted : Fitted (b.poke addr v) :=
    (h.fitted.moves_poke addr v).layout_eq.trans h.fitted
  have hflat : Flat.Fitted (c.poke addr v) := h.flat.touch (.write addr v c)
  have hallRam : (b.poke addr v).decoder.AllRam := by
    rw [hdecoder]
    exact ⟨h.allRam.allRam, h.allRam.plane⟩
  have hcdecoder : (c.poke addr v).decoder = c.decoder :=
    Board.poke_decoder_of_ok (h.flat.plain.target_eq addr) v
  constructor
  · exact hfitted
  · exact hflat
  · exact hallRam
  · rw [hplain.memory_poke (hallRam.plain hfitted),
      h.flat.plain.memory_poke hflat.plain, h.memory]
  · rw [hdecoder, hcdecoder]
    exact h.latches
  · rw [hplain.poke_arena]
    exact h.fault_eq
  · rw [h.flat.plain.poke_arena]
    exact h.flatFault_eq

instance : Board.Mirror (Flattens fault flatFault) where
  valueAt h addr := congrFun h.memory addr
  note h n :=
    h.same (Board.note_arena _ _) (Board.note_decoder _ _)
      (Board.note_arena _ _) (Board.note_decoder _ _)
  poke h addr v := h.poke addr v
  afterRead h addr := by
    rw [(h.allRam.plain h.fitted).afterRead_eq, h.flat.plain.afterRead_eq]
    exact h.same (Board.remarked_arena _ _ _) (Board.remarked_decoder _ _ _)
      (Board.remarked_arena _ _ _) (Board.remarked_decoder _ _ _)

/-- A write that stays flat goes to the same latch of both. -/
theorem Flattens.writePort (h : Flattens fault flatFault b c)
    {port v : UInt8} (hport : (PortUse.output port v).StaysFlat) :
    Flattens fault flatFault (b.writePort port v)
      (c.writePort port v) := by
  have hdecoder := Board.writePort_decoder port v b
  have hcdecoder := Board.writePort_decoder port v c
  have hfitted : Fitted (b.writePort port v) := by
    show (b.writePort port v).arena.layout = _
    rw [Board.writePort_arena]
    exact h.fitted
  have hflat : Flat.Fitted (c.writePort port v) :=
    h.flat.touch (.output port v c)
  have hallRam : (b.writePort port v).decoder.AllRam := by
    rw [hdecoder]
    exact h.allRam.writePort hport
  have hplain := h.allRam.plain h.fitted
  constructor
  · exact hfitted
  · exact hflat
  · exact hallRam
  · rw [(hallRam.plain hfitted).memory_eq_iff hflat.plain,
      Board.writePort_arena, Board.writePort_arena]
    exact (hplain.memory_eq_iff h.flat.plain).1 h.memory
  · intro other hother
    rw [hdecoder, hcdecoder]
    show (c.decoder.ports.setLatch port v).latch other
      = (b.decoder.ports.setLatch port v).latch other
    rw [Ports.latch_setLatch, Ports.latch_setLatch, h.latches other hother]
  · rw [Board.writePort_arena]
    exact h.fault_eq
  · rw [Board.writePort_arena]
    exact h.flatFault_eq

/-- So the two boards cannot be told apart by uses of ports that stay
flat. -/
theorem mirrored_of_staysFlat {use : PortUse} (h : use.StaysFlat) :
    use.Mirrored (Flattens fault flatFault) := by
  cases use with
  | output port v => exact fun b c hbc => hbc.writePort h
  | input port =>
    -- a read leaves both decoders as they are
    refine fun b c hbc => ⟨?_, hbc⟩
    show c.decoder.ports.latch port = b.decoder.readPort port
    rw [readPort_eq_latch h]
    exact hbc.latches port h

end
end Banked

-- ================================================================ steps

namespace Computer

/-- While a bank-switched board shows RAM throughout, a program runs on
it as on a flat board with the same bytes and latches. -/
theorem flat_of_allRam {s : Computer Banked} {t : Computer Flat}
    (hcpu : t.cpu = s.cpu) (hfitted : Banked.Fitted s.board)
    (hflat : Flat.Fitted t.board)
    (hallRam : s.board.decoder.bank.allRam = true)
    (hplane : s.board.decoder.bank.plane = none)
    (hram : t.board.arena.contents 0
      = s.board.arena.contents Banked.mainRam)
    (hlatches : ∀ port, port ≠ 0x70 →
      t.board.decoder.ports.latch port = s.board.decoder.ports.latch port)
    (hs : s.board.Idle) (ht : t.board.Idle) (n : Nat)
    (hports : ∀ i < n, ∀ use, (s.steps i).portUse? = some use →
      use.StaysFlat) :
    (t.steps n).cpu = (s.steps n).cpu
      ∧ (t.steps n).board.arena.contents 0
        = (s.steps n).board.arena.contents Banked.mainRam
      ∧ (∀ port, port ≠ 0x70 →
          (t.steps n).board.decoder.ports.latch port
            = (s.steps n).board.decoder.ports.latch port)
      ∧ (s.steps n).board.arena.fault = s.board.arena.fault
      ∧ (t.steps n).board.arena.fault = t.board.arena.fault := by
  let R := Banked.Flattens s.board.arena.fault t.board.arena.fault
  have hshown : s.board.decoder.AllRam := ⟨hallRam, hplane⟩
  have hstart : Twins R s t := by
    refine ⟨hcpu, hfitted, hflat, hshown, ?_, hlatches, rfl, rfl⟩
    exact ((hshown.plain hfitted).memory_eq_iff hflat.plain).2 hram
  have hrun : ∀ i ≤ n, Twins R (s.steps i) (t.steps i) := by
    intro i hi
    induction i with
    | zero => exact hstart
    | succ i ih =>
      have htwins := ih (by omega)
      have hstep := Exec.agree_step htwins (idle_steps hs i)
        (idle_steps ht i) fun use huse =>
          Banked.mirrored_of_staysFlat (hports i (by omega) use huse)
      rw [steps_succ, steps_succ]
      exact hstep.2
  obtain ⟨hcpu', hboard⟩ := hrun n (Nat.le_refl n)
  have hplain := hboard.allRam.plain hboard.fitted
  exact ⟨hcpu', (hplain.memory_eq_iff hboard.flat.plain).1 hboard.memory,
    hboard.latches, hboard.fault_eq, hboard.flatFault_eq⟩

/-- A flat computer with the CPU, the RAM and the latches of a
bank-switched one. -/
def flattened (s : Computer Banked) : Computer Flat where
  cpu := s.cpu
  board :=
    { arena :=
        { regions :=
            #[⟨"ram", s.board.arena.contents Banked.mainRam, true⟩] }
      decoder := { ports := s.board.decoder.ports } }

/-- The flat board has the same bytes. -/
theorem flattened_contents (s : Computer Banked) :
    s.flattened.board.arena.contents 0
      = s.board.arena.contents Banked.mainRam := rfl

theorem flattened_ports (s : Computer Banked) :
    s.flattened.board.decoder.ports = s.board.decoder.ports := rfl

theorem fitted_flattened {s : Computer Banked}
    (h : Banked.Fitted s.board) : Flat.Fitted s.flattened.board := by
  have hform : s.board.arena.layout[Banked.mainRam]?
      = some ⟨"main-ram", 65536, true⟩ := by
    rw [h]
    rfl
  have hsize := Arena.size_contents hform
  simp [Flat.Fitted, flattened, Arena.layout, Region.form, hsize]

/-- A program that writes 6 to the memory mode, which keeps RAM throughout
and chooses the other ROM, to the page and to the switch of the extension
ROMs, and to address 0040. Then it clears A, reads the byte back, and
after it the latch of the page. -/
def bankingProgram : List UInt8 :=
  [0x3E, 0x06, 0xD3, 0x31, 0xD3, 0x32, 0xD3, 0x71, 0x32, 0x40, 0x00,
    0xAF, 0x3A, 0x40, 0x00, 0xDB, 0x32]

/-- A bank-switched computer in all-RAM mode with this program at
address 0. -/
def banking : Computer Banked where
  board :=
    { arena := bankingProgram.zipIdx.foldl
        (fun a p => a.put ⟨Banked.mainRam, p.2⟩ p.1) Banked.regions
      decoder := { bank := { allRam := true } } }

theorem fitted_banking : Banked.Fitted banking.board := by
  have hputs : ∀ (puts : List (UInt8 × Nat)) (a : Arena),
      (puts.foldl (fun a p => a.put ⟨Banked.mainRam, p.2⟩ p.1) a).layout
        = a.layout := by
    intro puts
    induction puts with
    | nil => exact fun _ => rfl
    | cons p rest ih => exact fun a => (ih _).trans (Arena.layout_put ..)
  exact (hputs _ _).trans Banked.layout_regions

/-- Three of its bank registers change on the way, and the flat computer
does the same throughout: it reads back what was stored below the ROMs,
and then the latch. -/
theorem flat_of_allRam_banking :
    (∀ i < 8, ∀ use ∈ (banking.steps i).portUse?, use.StaysFlat)
      ∧ (banking.steps 5).board.decoder.bank
        = { allRam := true, rom := .nBasic, extPage := 2,
            extEnabled := true }
      ∧ (banking.flattened.steps 6).cpu.regs.a = 0
      ∧ (banking.flattened.steps 7).cpu.regs.a = 6
      ∧ (banking.flattened.steps 8).board.arena.contents 0
        = (banking.steps 8).board.arena.contents Banked.mainRam
      ∧ (banking.flattened.steps 8).board.decoder.ports.latch 0x71 = 6
      ∧ (banking.steps 8).board.arena.fault = none := by
  have hrun : (∀ i < 8, ∀ use ∈ (banking.steps i).portUse?, use.StaysFlat)
      ∧ (banking.steps 5).board.decoder.bank
        = { allRam := true, rom := .nBasic, extPage := 2,
            extEnabled := true }
      ∧ (banking.steps 6).cpu.regs.a = 0
      ∧ (banking.steps 7).cpu.regs.a = 6
      ∧ (banking.steps 8).board.decoder.ports.latch 0x71 = 6 := by
    decide +kernel
  obtain ⟨hports, hbank, hcleared, hread, hlatch⟩ := hrun
  have hflat (n : Nat) (hn : n ≤ 8) :=
    flat_of_allRam (s := banking) (t := banking.flattened) rfl
      fitted_banking (fitted_flattened fitted_banking) rfl rfl
      (flattened_contents banking)
      (fun port _ =>
        congrArg (Ports.latch port) (flattened_ports banking))
      ⟨rfl, rfl⟩ ⟨rfl, rfl⟩ n
      fun i hi use huse => hports i (by omega) use huse
  obtain ⟨-, hram, hlatches, hfault, -⟩ := hflat 8 (by decide)
  refine ⟨hports, hbank, ?_, ?_, hram, ?_, hfault⟩
  · rw [(hflat 6 (by decide)).1]
    exact hcleared
  · rw [(hflat 7 (by decide)).1]
    exact hread
  · rw [hlatches 0x71 (by decide)]
    exact hlatch

end Computer
end HomeZ80
