/-
What is behind the ports of a machine is a matter of the writes to them
since the reset (`Driven.ports_reflect_last_writes`). A write comes from
outside or from an instruction that writes a port, and which instruction
does is told before it is carried out (`Computer.portUse?`), so the
writes of a history are a list that can be told along it (`portWrites`).

Nothing else that a machine does comes near these registers. Bank
registers and latches are a part of the decoder that no access to memory
changes; requests and acknowledgements leave the settings of the
controller alone, as does every interrupt entry. Both are views of a
board that are `Remote`, so a step changes them by the one write that is
told of its instruction. What can change them otherwise are two things
that the owner of a machine can do: reset the banks alone, and write a
register of the controller past its port.
-/
import HomeZ80.Proofs.Board.LastWrites
import HomeZ80.Proofs.Board.Words
import HomeZ80.Proofs.Interrupt.Ranking
import HomeZ80.Proofs.Machine.Driven

namespace HomeZ80

-- ================================================================ boards

namespace Board

variable {μ : Type}

/-- The registers of the controller that can be written, if there is a
controller. -/
def settings (b : Board μ) : Option Controller :=
  b.controller.map Controller.settings

/-- The settings are those of the controller. -/
theorem settings_of_controller_eq {b b' : Board μ}
    (h : b'.controller = b.controller) : b'.settings = b.settings := by
  unfold settings
  rw [h]

/-- The settings are in the part of the controller that requests and
acknowledgements leave alone. -/
theorem settings_of_standing_eq {b b' : Board μ}
    (h : b'.standing = b.standing) : b'.settings = b.settings := by
  have hsettings : (b'.controller.map Controller.standing).map
      Controller.settings
        = (b.controller.map Controller.standing).map
          Controller.settings :=
    congrArg (Option.map Controller.settings) h
  rw [Option.map_map, Option.map_map] at hsettings
  exact hsettings

/-- All that a write to a port does to a board of banks. -/
theorem exists_writePort (port v : UInt8) (b : Board Banked) :
    ∃ log, b.writePort port v =
      { b with
        decoder := b.decoder.writePort port v
        controller := b.controller.map (·.behind (port, v))
        log } := by
  let decoder := Decoder.writePort port v b.decoder
  let noted := ({ b with decoder } : Board Banked).note
    (Decoder.portRemark decoder port)
  have hnoted : noted = { b with decoder, log := noted.log } :=
    note_eq _ _
  have hbehind : Decoder.controllerPort noted.decoder port
      = Banked.controllerPort port := rfl
  refine ⟨noted.log, ?_⟩
  unfold writePort Controller.behind
  dsimp only
  rw [hbehind]
  cases Banked.controllerPort port with
  | some reg =>
    show { noted with controller := noted.controller.map _ } = _
    rw [hnoted]
    rfl
  | none =>
    show noted = { b with
      decoder
      controller := b.controller.map id
      log := noted.log }
    rw [Option.map_id_apply]
    exact hnoted

variable {β : Type} [Decoder μ]

/-- A view of a board that nothing but a write to a port can change. -/
structure Remote (view : Board μ → β) : Prop where
  afterRead (addr : UInt16) (b : Board μ) :
    view (b.afterRead addr) = view b
  poke (addr : UInt16) (v : UInt8) (b : Board μ) :
    view (b.poke addr v) = view b
  note (notes : List Note) (b : Board μ) : view (b.note notes) = view b
  afterInput (port : UInt8) (b : Board μ) :
    view (b.afterInput port) = view b
  clearNmi (b : Board μ) : view (b.onLines (·.clearNmi)) = view b
  acknowledge (channel : UInt8) (s : Computer μ) :
    view (Exec.acknowledge channel s).2.board = view s.board

/-- What is known of a remote view lasts until a port is written. -/
theorem Remote.lasting {view : Board μ → β} (h : Remote view)
    (Q : β → Prop) : Lasting fun b => Q (view b) where
  afterRead hb addr := by rwa [h.afterRead]
  poke hb addr v := by rwa [h.poke]
  note hb n := by rwa [h.note]
  afterInput hb port := by rwa [h.afterInput]
  clearNmi hb := by rwa [h.clearNmi]
  acknowledge hs channel := by rwa [h.acknowledge]

end Board

/-- The picture lines are not among the registers. -/
theorem Banked.registers_stored (addr : UInt16) (m : Banked) :
    (m.stored addr).registers = m.registers := by
  obtain ⟨dirty, h⟩ := m.stored_eq addr
  rw [h]
  rfl

theorem Board.registers_poke (addr : UInt16) (v : UInt8)
    (b : Board Banked) :
    (b.poke addr v).decoder.registers = b.decoder.registers := by
  unfold poke
  split
  · rw [← remarked_decoder .write addr b]
    exact Banked.registers_stored addr _
  · rw [← remarked_decoder .write addr b]
    rfl

open Board in
/-- Bank registers and latches can be changed through ports only. -/
theorem Banked.remote_registers :
    Remote fun b : Board Banked => b.decoder.registers where
  afterRead addr b := by rw [(SameMemory.afterRead addr b).decoder]
  poke := registers_poke
  note notes b := by rw [note_decoder]
  afterInput _ _ := rfl
  clearNmi _ := rfl
  acknowledge channel s := by rw [Exec.acknowledge_decoder]

open Board in
/-- So can mask and priority rule, as far as a CPU goes. -/
theorem Board.remote_settings {μ : Type} [Decoder μ] :
    Remote (settings (μ := μ)) where
  afterRead addr b :=
    settings_of_controller_eq (SameDevices.afterRead addr b).controller
  poke addr v b := settings_of_controller_eq (controller_poke addr v b)
  note notes b := settings_of_controller_eq (note_controller notes b)
  afterInput _ _ := rfl
  clearNmi _ := rfl
  acknowledge channel s :=
    settings_of_standing_eq (Exec.standing_acknowledge channel s)

/-- A write to a port may be one to the controller. -/
theorem Board.settings_writePort (port v : UInt8) (b : Board Banked) :
    (b.writePort port v).settings
      = b.settings.map (·.behind (port, v)) := by
  obtain ⟨log, h⟩ := exists_writePort port v b
  rw [h]
  unfold settings
  rw [Option.map_map, Option.map_map]
  congr 1
  funext c
  exact Controller.settings_behind c (port, v)

-- =============================================================== steps

/-- The write to a port that the next instruction makes, if it does. -/
def Computer.portWrite? {μ : Type} [Decoder μ] (s : Computer μ) :
    Option PortWrite :=
  match s.portUse? with
  | some (.output port v) => some (port, v)
  | _ => none

/-- The write to a port that an instruction makes is its use of a port. -/
theorem Computer.portUse?_of_portWrite? {μ : Type} [Decoder μ]
    {s : Computer μ} {w : PortWrite} (h : s.portWrite? = some w) :
    s.portUse? = some (.output w.1 w.2) := by
  unfold portWrite? at h
  split at h
  · next huse =>
    cases h
    exact huse
  · cases h

/-- The instruction that writes register A to a port given in its code. -/
theorem Computer.portWrite?_outA {μ : Type} [Decoder μ] {s : Computer μ}
    (hrunning : s.cpu.halted = false)
    (hop : s.board.valueAt s.cpu.regs.pc = 0xD3) :
    s.portWrite?
      = some (s.board.valueAt (s.cpu.regs.pc + 1), s.cpu.regs.a) := by
  have huse : s.portUse? = some
      (.output (s.board.valueAt (s.cpu.regs.pc + 1)) s.cpu.regs.a) := by
    have hread := Board.SameMemory.afterRead s.cpu.regs.pc s.board
    unfold portUse?
    dsimp only
    rw [hrunning, Exec.fetchOpcode_fst, hop,
      ← hread.valueAt_eq (s.cpu.regs.pc + 1)]
    rfl
  unfold portWrite?
  rw [huse]

namespace Exec

section
variable {μ β : Type} [Decoder μ] {view : Board μ → β}
  (hview : Board.Remote view) {s : Computer μ}
include hview

/-- An instruction that writes no port leaves the view alone. -/
theorem view_instruct (h : s.portWrite? = none) :
    view (instruct s).2.board = view s.board := by
  refine lasting_instruct (hview.lasting (· = view s.board)) rfl ?_
  intro use huse
  cases use with
  | input port => trivial
  | output port v =>
    unfold Computer.portWrite? at h
    rw [huse] at h
    cases h

theorem view_step : view (step s).2.board = view (instruct s).2.board := by
  cases hentry : s.interrupt? with
  | none =>
    rw [step_of_no_entry hentry]
    rfl
  | some entry =>
    rw [step_of_entry hentry]
    exact lasting_enter (hview.lasting (· = _)) entry rfl

end

/-- A step settles the registers by the write to a port that it makes, or
leaves them. -/
theorem registers_step (s : Computer Banked) :
    (step s).2.board.decoder.registers
      = s.portWrite?.elim s.board.decoder.registers
        (Banked.settle s.board.decoder.registers) := by
  rw [view_step Banked.remote_registers]
  cases hwrite : s.portWrite? with
  | none => exact view_instruct Banked.remote_registers hwrite
  | some w =>
    obtain ⟨read, hsame, hread⟩ := Computer.output_of_portUse?
      (Computer.portUse?_of_portWrite? hwrite)
    rw [hread, Board.writePort_decoder, hsame.decoder]
    exact Banked.registers_writePort w.1 w.2 s.board.decoder

/-- Of the board that the instruction has read before it writes, no more
is known than that it was the same memory. But its settings can only be
those before or those after the write, and the write leads from either
to the latter. -/
theorem settings_step (s : Computer Banked) :
    (step s).2.board.settings
      = s.portWrite?.elim s.board.settings
        fun w => s.board.settings.map (·.behind w) := by
  rw [view_step Board.remote_settings]
  cases hwrite : s.portWrite? with
  | none => exact view_instruct Board.remote_settings hwrite
  | some w =>
    have huse := Computer.portUse?_of_portWrite? hwrite
    let act : Option Controller → Option Controller :=
      Option.map (·.behind w)
    have hact : ∀ x, act (act x) = act x := by
      intro x
      cases x with
      | none => rfl
      | some c => exact congrArg some (c.behind_behind w)
    let Q : Option Controller → Prop := fun x =>
      x = s.board.settings ∨ x = act s.board.settings
    have heither : Q (instruct s).2.board.settings := by
      have hQ := (Board.remote_settings (μ := Banked)).lasting Q
      refine lasting_instruct hQ (.inl rfl) fun use hused => ?_
      obtain rfl : PortUse.output w.1 w.2 = use :=
        Option.some.inj (huse.symm.trans hused)
      intro b hb
      right
      rw [Board.settings_writePort]
      rcases hb with hb | hb
      · rw [hb]
      · rw [hb]
        exact hact _
    obtain ⟨read, -, hread⟩ := Computer.output_of_portUse? huse
    have hwritten : (instruct s).2.board.settings = act read.settings := by
      rw [hread, Board.settings_writePort]
    rcases heither with heq | heq
    · show _ = act s.board.settings
      rw [← heq, hwritten, hact]
    · exact heq

end Exec

namespace Machine

open Banked (settle)

variable {config : MachineConfig} {log : Log} {m : Machine}

-- ============================================================== histories

/-- The writes to ports that an event makes. -/
def Event.portWrites (s : Computer Banked) : Event → List PortWrite
  | .output port v => [(port, v)]
  | .step => s.portWrite?.toList
  | _ => []

/-- The writes to ports that a series of events makes, in their order. -/
def portWrites : List Event → Computer Banked → List PortWrite
  | [], _ => []
  | e :: rest, s => e.portWrites s ++ portWrites rest (e.act s)

/-- Of all events but a reset of the banks, those that write ports settle
the registers. -/
theorem registers_act {e : Event} (he : e ≠ .resetBanks)
    (s : Computer Banked) :
    (e.act s).board.decoder.registers
      = (e.portWrites s).foldl settle s.board.decoder.registers := by
  have hview := Banked.remote_registers
  have still {b : Board Banked} (h : s.board.SameMemory b) :
      b.decoder.registers = s.board.decoder.registers := by
    rw [h.decoder]
  cases e with
  | step =>
    show (Exec.step s).2.board.decoder.registers = _
    rw [Exec.registers_step]
    unfold Event.portWrites
    cases s.portWrite? <;> rfl
  | output port v =>
    show (s.board.writePort port v).decoder.registers = _
    rw [Board.writePort_decoder]
    exact Banked.registers_writePort port v s.board.decoder
  | request channel =>
    exact still (.onController (Controller.request channel) s.board)
  | acknowledge channel =>
    exact still (.onController (Controller.acknowledge channel) s.board)
  | peek addr => exact hview.afterRead addr s.board
  | poke addr v => exact hview.poke addr v s.board
  | pokeBlock addr bytes =>
    show (s.board.pokeBlock addr bytes).decoder.registers = _
    rw [(Board.SameDevices.pokeBlock addr bytes _).decoder]
    rfl
  | install rom image =>
    show (Banked.install rom image s.board).decoder.registers = _
    unfold Banked.install
    dsimp only
    rw [Board.note_decoder]
    cases rom <;> rfl
  | takeFault =>
    show (s.board.takeFault.2).decoder.registers = _
    unfold Board.takeFault
    split <;> rfl
  | note notes => exact hview.note notes s.board
  | resetBanks => exact absurd rfl he
  | _ => rfl

/-- Of all events but a direct write to the controller, they make the
settings. -/
theorem settings_act {e : Event} (he : ∀ reg v, e ≠ .register reg v)
    (s : Computer Banked) :
    (e.act s).board.settings = s.board.settings.map
      ((e.portWrites s).foldl Controller.behind ·) := by
  have hview := Board.remote_settings (μ := Banked)
  have still {b : Board Banked} (h : b.settings = s.board.settings) :
      b.settings = s.board.settings.map
        (([] : List PortWrite).foldl Controller.behind ·) := by
    rw [h]
    exact Option.map_id_apply.symm
  cases e with
  | step =>
    show (Exec.step s).2.board.settings = _
    rw [Exec.settings_step]
    unfold Event.portWrites
    cases s.portWrite? with
    | none => exact still rfl
    | some w => rfl
  | output port v => exact Board.settings_writePort port v s.board
  | request channel =>
    exact still (Board.settings_of_standing_eq
      (Board.standing_request channel _))
  | acknowledge channel =>
    exact still (Board.settings_of_standing_eq
      (Board.standing_acknowledge channel _))
  | register reg v => exact absurd rfl (he reg v)
  | peek addr => exact still (hview.afterRead addr s.board)
  | poke addr v => exact still (hview.poke addr v s.board)
  | pokeBlock addr bytes =>
    exact still (Board.settings_of_controller_eq
      (Board.SameDevices.pokeBlock _ _ _).controller)
  | install rom image => exact still (hview.note _ _)
  | takeFault =>
    apply still
    show (s.board.takeFault.2).settings = _
    unfold Board.takeFault
    split <;> rfl
  | note notes => exact still (hview.note notes s.board)
  | _ => exact still rfl

/-- After a history the registers are those that its writes to ports have
settled. -/
theorem registers_after {events : List Event}
    (h : .resetBanks ∉ events) (s : Computer Banked) :
    (after events s).board.decoder.registers
      = (portWrites events s).foldl settle s.board.decoder.registers := by
  induction events generalizing s with
  | nil => rfl
  | cons e rest ih =>
    have hfirst : e ≠ .resetBanks := fun he => h (he ▸ List.mem_cons_self)
    have hrest : .resetBanks ∉ rest := fun hmem =>
      h (List.mem_cons_of_mem e hmem)
    rw [after_cons, ih hrest, registers_act hfirst, portWrites,
      List.foldl_append]

theorem settings_after {events : List Event}
    (h : ∀ reg v, .register reg v ∉ events) (s : Computer Banked) :
    (after events s).board.settings
      = s.board.settings.map
        ((portWrites events s).foldl Controller.behind ·) := by
  induction events generalizing s with
  | nil => exact Option.map_id_apply.symm
  | cons e rest ih =>
    have hfirst : ∀ reg v, e ≠ .register reg v := fun reg v he =>
      h reg v (he ▸ List.mem_cons_self)
    have hrest : ∀ reg v, .register reg v ∉ rest := fun reg v hmem =>
      h reg v (List.mem_cons_of_mem e hmem)
    rw [after_cons, ih hrest, settings_act hfirst, Option.map_map]
    congr 1
    funext c
    exact (List.foldl_append).symm

-- ==================================================== writes from outside

/-- Writes to ports, made from outside. -/
def outputs (ws : List PortWrite) : List Event :=
  ws.map fun w => .output w.1 w.2

/-- All that writes to ports do to a board, and the log that they leave. -/
def written (ws : List PortWrite) (log : Log) (b : Board Banked) :
    Board Banked :=
  let r := ws.foldl settle b.decoder.registers
  { b with
    decoder := { b.decoder with bank := r.1, ports := r.2 }
    controller := b.controller.map (ws.foldl Controller.behind ·)
    log }

theorem written_nil (b : Board Banked) : written [] b.log b = b := by
  have hcontroller : b.controller.map
      (([] : List PortWrite).foldl Controller.behind ·) = b.controller :=
    Option.map_id_apply
  unfold written
  rw [hcontroller]
  rfl

theorem written_cons (w : PortWrite) (rest : List PortWrite) (log : Log)
    (b : Board Banked) : written rest log (b.writePort w.1 w.2)
      = written (w :: rest) log b := by
  obtain ⟨first, hfirst⟩ := b.exists_writePort w.1 w.2
  rw [hfirst]
  unfold written
  dsimp only
  rw [Option.map_map]
  rfl

/-- Writes from outside come to what the ports make of them, and to
notes. -/
theorem exists_written (ws : List PortWrite) (s : Computer Banked) :
    ∃ log, after (outputs ws) s = s.onBoard (written ws log) := by
  induction ws generalizing s with
  | nil =>
    refine ⟨s.board.log, ?_⟩
    unfold Computer.onBoard
    rw [written_nil]
    rfl
  | cons w rest ih =>
    obtain ⟨log, hrest⟩ := ih ((Event.output w.1 w.2).act s)
    refine ⟨log, hrest.trans ?_⟩
    exact congrArg (fun board => { s with board })
      (written_cons w rest log s.board)

/-- What the ports make of two series in the same order is the same. -/
theorem written_of_sameOrder {ws ws' : List PortWrite}
    (h : SameOrder ws ws') (log : Log) (b : Board Banked) :
    written ws' log b = written ws log b := by
  have hcontroller : (ws'.foldl Controller.behind ·)
      = (ws.foldl Controller.behind ·) := funext h.controller_eq
  unfold written
  rw [h.settled_eq, hcontroller]

-- ====================================================== since the reset

/-- Whatever came before a reset and whatever happens after it, bank
registers, latches and the settings of the controller are those that the
last write to each port, or group of ports, has made them. So only the
order within each group matters: a series of writes that is interleaved
in another way leaves the same computer, but for the log. -/
theorem Driven.ports_reflect_last_writes (h : Driven config log m) :
    (∀ events : List Event, .resetBanks ∉ events →
      let s := after events m.reset.computer
      let ws := portWrites events m.reset.computer
      s.board.decoder.Reflects ws
        ∧ ((∀ reg v, .register reg v ∉ events) →
          ∃ c, s.board.controller = some c ∧ c.Reflects ws))
    ∧ (∀ events events' : List Event,
      .resetBanks ∉ events → .resetBanks ∉ events' →
      let s := m.reset.computer
      SameOrder (portWrites events s) (portWrites events' s) →
      (after events' s).board.decoder.registers
          = (after events s).board.decoder.registers
        ∧ ((∀ reg v, .register reg v ∉ events) →
          (∀ reg v, .register reg v ∉ events') →
          (after events' s).board.settings
            = (after events s).board.settings))
    ∧ ∀ (s : Computer Banked) (ws ws' : List PortWrite), SameOrder ws ws' →
      ∃ log, after (outputs ws') s
        = (after (outputs ws) s).onBoard ({ · with log }) := by
  obtain ⟨c, hc, hwire⟩ := h.built.exists_controller
  obtain ⟨timers, log, hboard⟩ := reset_board hc (.inr hwire)
  have hregisters : m.reset.computer.board.decoder.registers
      = ({}, .powerOn) := by
    rw [hboard]
    rfl
  have hsettings : m.reset.computer.board.settings = some {} := by
    rw [hboard]
    rfl
  refine ⟨?_, ?_, ?_⟩
  · intro events hbanks s ws
    have hs := registers_after hbanks m.reset.computer
    rw [hregisters] at hs
    refine ⟨Banked.reflects_of_registers hs, fun hregister => ?_⟩
    have hcontroller := settings_after hregister m.reset.computer
    rw [hsettings] at hcontroller
    obtain ⟨c, hc, hreflects⟩ := Option.map_eq_some_iff.1 hcontroller
    exact ⟨c, hc, Controller.reflects_of_settings hreflects⟩
  · intro events events' hbanks hbanks' s horder
    refine ⟨?_, fun hregister hregister' => ?_⟩
    · rw [registers_after hbanks, registers_after hbanks',
        horder.settled_eq]
    · rw [settings_after hregister, settings_after hregister']
      congr 1
      exact funext horder.controller_eq
  · intro s ws ws' horder
    obtain ⟨log, hws⟩ := exists_written ws s
    obtain ⟨log', hws'⟩ := exists_written ws' s
    refine ⟨log', ?_⟩
    rw [hws, hws']
    exact congrArg (fun board => { s with board })
      (written_of_sameOrder horder log' s.board)

/-- The text window is set by an instruction, and moved on from outside
past its end; writes to other ports are made between. -/
def moving : List Event :=
  [.output 0x31 4, .poke 0x9000 0xD3, .poke 0x9001 0x70,
    .setCpu { regs := { Registers.powerOn with pc := 0x9000, a := 0xFF } },
    .step, .output 0x5D 9, .output 0x78 0, .output 0xE6 2]

/-- The writes of this history, in their order: two from outside and three
by a program. -/
theorem portWrites_moving {s : Computer Banked}
    (h : Banked.Fitted s.board) : portWrites moving s
      = [(0x31, 4), (0x70, 0xFF), (0x5D, 9), (0x78, 0), (0xE6, 2)] := by
  let b := s.board.writePort 0x31 4
  have hb : Banked.Fitted b := by
    show b.arena.layout = _
    rw [Board.writePort_arena]
    exact h
  obtain ⟨p, q, hword⟩ : ∃ p q, b.WordAt 0x9000 p q :=
    hb.exists_wordAt (.inl (by decide)) (.inl (by decide))
  have hread := (hword.survives Banked.resolve_stored 0x70D3).read
  rw [Board.peekWord_fst] at hread
  let t := after (moving.take 4) s
  have hcode : t.board = b.pokeWord 0x9000 0x70D3 := rfl
  rw [← hcode] at hread
  have hlow : t.board.valueAt 0x9000 = 0xD3 := by
    have hlow := congrArg loByte hread
    rw [loByte_word] at hlow
    exact hlow
  have hhigh : t.board.valueAt (0x9000 + 1) = 0x70 := by
    have hhigh := congrArg hiByte hread
    rw [hiByte_word] at hhigh
    exact hhigh
  have hwrite : t.portWrite? = some (0x70, 0xFF) := by
    rw [← hhigh]
    exact Computer.portWrite?_outA rfl hlow
  show (0x31, 4) :: (t.portWrite?.toList ++ _) = _
  rw [hwrite]
  rfl

theorem ports_reflect_last_writes_moving :
    let m : Machine := new {} {}
    let b := (after moving m.reset.computer).board
    b.decoder.bank.rom = .nBasic
      ∧ b.decoder.bank.textWindow = 0
      ∧ b.decoder.bank.plane = some 1
      ∧ b.decoder.readPort 0x5D = 9
      ∧ b.decoder.readPort 0x5E = 0xFF
      ∧ (∃ c, b.controller = some c
        ∧ bitOf c.enabled 0 = false ∧ bitOf c.enabled 1 = true)
      ∧ ∃ log, after (outputs [(0x78, 0), (0x5D, 9)]) m.computer
        = (after (outputs [(0x5D, 9), (0x78, 0)]) m.computer).onBoard
          ({ · with log }) := by
  intro m b
  have hdriven : Driven {} {} m := .new
  have hws := portWrites_moving hdriven.reset.built.sound.fitted
  obtain ⟨hreflects, -, hswap⟩ := hdriven.ports_reflect_last_writes
  obtain ⟨hbanks, hcontroller⟩ := hreflects moving (by simp [moving])
  rw [hws] at hbanks hcontroller
  obtain ⟨c, hc, hset⟩ := hcontroller (by simp [moving])
  exact ⟨hbanks.rom, hbanks.textWindow, hbanks.plane,
    hbanks.readPort 0x5D (by decide), hbanks.readPort 0x5E (by decide),
    ⟨c, hc, hset.enabled 0 (by decide), hset.enabled 1 (by decide)⟩,
    hswap _ _ _ (SameOrder.swap (by decide) [] [])⟩

end Machine
end HomeZ80
