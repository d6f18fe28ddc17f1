/-
The states that a machine comes to when anything at all may drive its
lines. A device that goes past the controller can assert the maskable
line for a channel that nobody requested, or lower it under a request
that waits; controller and lines need not agree then, as they do in the
states of `Machine.Reached`.

Three things are still so in every state (`Banked.Built`), because
neither the lines nor the order of events has a part in them:

- the regions are those of power-on (`Banked.Sound`);
- a ROM slot that is empty has the region that it had at power-on, since
  nothing but an image for it could change the one or the other;
- the controller is wired to the lines of its machine, as it has been
  since the machine was built.
-/
import HomeZ80.Proofs.Machine.Memory

namespace HomeZ80

open Banked (Sound)

-- ============================================================== wiring

namespace Controller

/-- A controller that is not wired to anything else comes out of a reset
like any other. -/
theorem attach_of_wire {c : Controller} {slot : Nat}
    (h : c.wire = none ∨ c.wire = some slot) :
    (c.attach (some slot)).1 = { wire := some slot } := by
  rw [attach_fst]
  rcases h with h | h
  · rw [h]
    rfl
  · rw [h]
    rfl

end Controller

namespace Board

variable {μ : Type}

/-- What the controller is connected to, if there is one. -/
def wiring (b : Board μ) : Option (Option Nat) :=
  b.controller.map (·.wire)

/-- What does not move the signals does not cut the wire. -/
theorem wiring_of_signals_eq {b b' : Board μ}
    (h : b'.signals = b.signals) : b'.wiring = b.wiring := by
  have hrequests : (b'.controller.map Controller.requests).map (·.wire)
      = (b.controller.map Controller.requests).map (·.wire) :=
    congrArg (Option.map (·.wire)) (congrArg Prod.snd h)
  rw [Option.map_map, Option.map_map] at hrequests
  exact hrequests

/-- The wire is in the part of the controller that calls leave alone. -/
theorem wiring_of_standing_eq {b b' : Board μ}
    (h : b'.standing = b.standing) : b'.wiring = b.wiring := by
  have hwire : (b'.controller.map Controller.standing).map (·.wire)
      = (b.controller.map Controller.standing).map (·.wire) :=
    congrArg (Option.map (·.wire)) h
  rw [Option.map_map, Option.map_map] at hwire
  exact hwire

end Board

namespace Exec

variable {μ : Type}

/-- No step connects the controller to anything else. -/
theorem wiring_step [Decoder μ] (s : Computer μ) :
    (step s).2.board.wiring = s.board.wiring := by
  apply step_preserves (P := fun b => b.wiring = s.board.wiring) _ _ _ rfl
  · intro b b' ht hb
    exact (Board.wiring_of_signals_eq ht.signals_eq).trans hb
  · exact id
  · intro t channel ht
    have hkept := standing_acknowledge channel t
    exact (Board.wiring_of_standing_eq hkept).trans ht

end Exec

-- ================================================================ built

namespace Banked

/-- Each ROM has a region of its own. -/
theorem Rom.region_injective {rom other : Rom}
    (h : rom.region = other.region) : rom = other := by
  cases rom <;> cases other <;>
    simp [region, n88Rom, nRom, extRom] at h ⊢ <;> omega

/-- A reset takes no ROM out of its slot. -/
theorem filled_reset (m : Banked) : m.reset.filled = m.filled := by
  funext rom
  cases rom <;> rfl

/-- What is so on the board of a machine, from the first on. -/
structure Built (b : Board Banked) : Prop where
  sound : Sound b
  blank (rom : Rom) (h : b.decoder.filled rom = false) :
    b.arena.contents rom.region = regions.contents rom.region
  wired : b.wiring = some (some Board.linesSlot)

/-- A machine has a controller, and it is wired to the lines. -/
theorem Built.exists_controller {b : Board Banked} (h : Built b) :
    ∃ c, b.controller = some c ∧ c.wire = some Board.linesSlot :=
  Option.map_eq_some_iff.1 h.wired

end Banked

namespace Machine

open Banked (Built)

theorem wiring_act (e : Event) (s : Computer Banked) :
    (e.act s).board.wiring = s.board.wiring := by
  cases he : e.isAside with
  | true =>
    obtain ⟨move, -, -, hsignals⟩ := signals_act he s
    exact (Board.wiring_of_signals_eq hsignals).trans rfl
  | false =>
    cases e with
    | step => exact Exec.wiring_step s
    | request channel =>
      exact Board.wiring_of_standing_eq (Board.standing_request channel _)
    | acknowledge channel =>
      exact Board.wiring_of_standing_eq
        (Board.standing_acknowledge channel _)
    | _ => cases he

/-- A slot that is still empty after an event has been blank all along. -/
theorem blank_act (e : Event) {s : Computer Banked} (hs : Built s.board)
    (rom : Banked.Rom) (h : (e.act s).board.decoder.filled rom = false) :
    (e.act s).board.arena.contents rom.region
      = Banked.regions.contents rom.region := by
  have hfitted := hs.sound.fitted
  rw [filled_act e hfitted, Bool.or_eq_false_iff] at h
  rw [← hs.blank rom h.1]
  cases he : e.isInstall with
  | false => exact (calm_act he hfitted).moves.contents_rom rom
  | true =>
    cases e with
    | install other image =>
      have hother : rom.region ≠ other.region := by
        intro hregion
        have hrom := Banked.Rom.region_injective hregion
        exact beq_eq_false_iff_ne.1 h.2 hrom.symm
      show (Banked.install other image s.board).arena.contents _ = _
      rw [install_arena, Arena.contents_load_of_ne hother]
    | _ => cases he

theorem built_act (e : Event) (s : Computer Banked) (hs : Built s.board) :
    Built (e.act s).board where
  sound := sound_act e hs.sound
  blank := blank_act e hs
  wired := (wiring_act e s).trans hs.wired

-- ================================================================ reset

/-- All that a reset does to the board of a machine, up to timers and
log. -/
theorem reset_board {m : Machine} {c : Controller}
    (hc : m.computer.board.controller = some c)
    (hwire : c.wire = none ∨ c.wire = some Board.linesSlot) :
    ∃ timers log, m.reset.computer.board =
      { m.computer.board with
        decoder := m.computer.board.decoder.reset
        lines := m.computer.board.lines.attach
        controller := some { wire := some Board.linesSlot }
        timers
        log } := by
  have hbanks : m.resetBanks.computer.board.controller = some c := hc
  have hattach := Controller.attach_of_wire hwire
  have hattached : ∃ timers log,
      m.resetBanks.computer.board.attachAll =
        { m.resetBanks.computer.board with
          lines := m.computer.board.lines.attach
          controller := some (c.attach (some Board.linesSlot)).1
          timers
          log } := by
    unfold Board.attachAll Board.attachTimers
    rw [hbanks]
    dsimp only
    rw [Board.note_eq]
    exact ⟨_, _, rfl⟩
  obtain ⟨timers, log, hboard⟩ := hattached
  rw [hattach] at hboard
  unfold reset
  show ∃ timers log, Board.note [_] m.resetBanks.computer.board.attachAll = _
  rw [hboard]
  exact ⟨timers, _, rfl⟩

-- ================================================================ states

/-- The states that a machine comes to when it is built and then used in
any way, its lines included. -/
inductive Driven (config : MachineConfig) (log : Log) : Machine → Prop
  | new : Driven config log (new config log)
  | event {m : Machine} (e : Event) : Driven config log m →
      Driven config log { m with computer := e.act m.computer }
  | lines {m : Machine} (move : Lines → Lines) : Driven config log m →
      Driven config log (m.onBoard (·.onLines move))
  | reset {m : Machine} : Driven config log m → Driven config log m.reset
  | stepN {m : Machine} (n : Nat) : Driven config log m →
      Driven config log (m.stepN n).2
  | run {m m' : Machine} {limit : Nat} {w w' : Session Banked}
      {result : Except Fault Unit} (hw : LeavesLine w)
      (hrun : m.run limit w = some (result, w', m')) :
      Driven config log m → Driven config log m'

variable {config : MachineConfig} {log : Log} {m : Machine}

/-- Leaving the maskable line to the controller is one way to use a
machine. -/
theorem Reached.driven (h : Reached config log m) :
    Driven config log m := by
  induction h with
  | new => exact .new
  | event e _ ih => exact ih.event e
  | reset _ ih => exact ih.reset
  | stepN n _ ih => exact ih.stepN n
  | run hw hrun _ ih => exact ih.run hw hrun

theorem built_reset (h : Built m.computer.board) :
    Built m.reset.computer.board := by
  obtain ⟨c, hc, hwire⟩ := h.exists_controller
  obtain ⟨timers, log, hboard⟩ := reset_board hc (.inr hwire)
  rw [hboard]
  constructor
  · exact ⟨h.sound.fitted, h.sound.latch⟩
  · intro rom hempty
    apply h.blank rom
    rw [← Banked.filled_reset]
    exact hempty
  · rfl

/-- What a new machine has on its board. -/
theorem new_board (config : MachineConfig) (log : Log) :
    ∃ timers log', (new config log).computer.board =
      { arena := Banked.regions
        decoder := {}
        controller := some { wire := some Board.linesSlot }
        timers
        log := log' } :=
  reset_board (m := { config, computer := { board := unwired config log } })
    (c := {}) rfl (.inl rfl)

theorem built_new : Built (new config log).computer.board := by
  obtain ⟨timers, log', hboard⟩ := new_board config log
  rw [hboard]
  constructor
  · exact ⟨Banked.layout_regions, nofun⟩
  · exact fun _ _ => rfl
  · rfl

/-- A machine that is driven from there is built, too. -/
theorem Driven.built (h : Driven config log m) :
    Built m.computer.board := by
  have hlead {s t : Computer Banked} (hst : Leads s t)
      (hs : Built s.board) : Built t.board :=
    hst.preserves (P := fun s => Built s.board) built_act hs
  induction h with
  | new => exact built_new
  | event e _ ih => exact built_act e _ ih
  | lines move _ ih =>
    exact ⟨⟨ih.sound.fitted, ih.sound.latch⟩, ih.blank, ih.wired⟩
  | reset _ ih => exact built_reset ih
  | stepN n _ ih => exact hlead (leads_stepN n _) ih
  | run hw hrun _ ih => exact hlead (leads_run hw hrun) ih

end Machine
end HomeZ80
