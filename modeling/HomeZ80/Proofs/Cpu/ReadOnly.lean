/-
What may not be written stays. A program reaches storage through writes
that the arena accepts or refuses, and through nothing else, however
addresses are decoded. So no access changes a byte of a region that may
not be written (`Board.Touch.keepsReadOnly`), no step does, and no loop
does unless what goes on around the CPU changes it
(`Attendant.SparesRegions`). The script and the timers of a session do
not (`Session.sparesRegions`): lines and controller are no memory.

With this the account of the arena is complete: what its own uses do to
it, and what a CPU can.
-/
import HomeZ80.Board.Windowed
import HomeZ80.Cpu.Session
import HomeZ80.Proofs.Board.Stores
import HomeZ80.Proofs.Cpu.FirstFault
import HomeZ80.Proofs.Memory.Uses

namespace HomeZ80

variable {σ μ : Type}

/-- An attendant that leaves the regions of the board alone. -/
structure Attendant.SparesRegions (σ μ : Type) [Attendant σ μ] :
    Prop where
  beforeFetch (r : Registers) (attendant : σ) (b : Board μ) :
    (Attendant.beforeFetch r attendant b).2.arena.regions
      = b.arena.regions
  afterTurn (c : Cpu) (waits : Bool) (attendant : σ) (b : Board μ) :
    (Attendant.afterTurn c waits attendant b).2.arena.regions
      = b.arena.regions

/-- An attendant that does nothing spares everything. -/
theorem Attendant.sparesRegions_unit : SparesRegions Unit μ :=
  ⟨fun _ _ _ => rfl, fun _ _ _ _ => rfl⟩

-- ============================================================ sessions

namespace Session

open Board (SameMemory)

theorem sameMemory_tick (number : Nat) (b : Board μ) :
    b.SameMemory (b.tick number) := by
  unfold Board.tick
  split
  · split
    · exact .onController _ b
    · exact .refl b
  · exact .refl b

/-- While time passes there is nothing but ticks. -/
theorem sameMemory_advance (t : Nat) (clock : Clock) (b : Board μ) :
    b.SameMemory (clock.advance Board.tick t b).2 := by
  show b.SameMemory
    (Clock.ringUpTo Board.tick t (clock.ringings t) clock.alarms b).2
  generalize clock.ringings t = n
  generalize clock.alarms = alarms
  induction n generalizing alarms b with
  | zero => exact .refl b
  | succ n ih =>
    cases alarms with
    | nil => exact .refl b
    | cons a rest =>
      unfold Clock.ringUpTo
      split
      · exact (sameMemory_tick a.source b).trans (ih _ _)
      · exact .refl b

/-- Time that passes is nothing to memory. -/
theorem sameMemory_pass (t : Nat) (w : Session μ) (b : Board μ) :
    b.SameMemory (w.pass t b).2 := by
  have hobserved (w : Session μ) (b : Board μ) :
      b.SameMemory (w.observeDeadline b) := by
    unfold observeDeadline
    split
    · split
      · exact .onLines _ b
      · exact .refl b
    · exact .refl b
  have hpassed := (sameMemory_advance t w.clock b).trans
    (hobserved { w with clock := (w.clock.advance Board.tick t b).1 } _)
  unfold pass
  dsimp only
  split
  · exact hpassed
  · exact hpassed

theorem sameMemory_idle (n : Nat) (w : Session μ) (b : Board μ) :
    b.SameMemory (w.idle n b).2 := by
  induction n generalizing w b with
  | zero => exact .refl b
  | succ n ih =>
    unfold idle
    split
    · next t _ =>
      have hpassed := sameMemory_pass t w b
      dsimp only
      split
      · exact hpassed.trans (ih _ _)
      · exact hpassed
    · exact .refl b

/-- Cues act on lines and requests. -/
theorem sameMemory_cues (fetches : Nat) (cues : List Cue) (b : Board μ) :
    b.SameMemory (cues.foldl
      (fun b cue => if cue.fetch = fetches then cue.action.act b else b)
      b) := by
  induction cues generalizing b with
  | nil => exact .refl b
  | cons cue rest ih =>
    refine SameMemory.trans ?_ (ih _)
    dsimp only
    split
    · cases cue.action with
      | stop | nmi | irq channel => exact .onLines _ b
      | request channel =>
        exact .onController (Controller.request channel) b
    · exact .refl b

theorem sparesRegions [DecidableEq μ] :
    Attendant.SparesRegions (Session μ) μ where
  beforeFetch r w b := by
    have hnoted : b.SameMemory
        (if w.notesFetches then b.note [.fetching r] else b) := by
      split
      · exact .note _ b
      · exact .refl b
    exact (hnoted.trans (sameMemory_cues (w.fetches + 1) w.cues _)).regions
  afterTurn c waits w b := by
    refine SameMemory.regions (b := b) ?_
    show b.SameMemory (w.afterTurn c waits b).2
    unfold afterTurn
    dsimp only
    split
    · exact sameMemory_pass _ w b
    · split
      · split
        · exact .refl b
        · exact sameMemory_idle _ _ b
      · split
        · split
          · exact sameMemory_idle _ _ b
          · exact .refl b
        · split
          · exact .refl b
          · exact .refl b

end Session

variable [Decoder μ] {a : Arena}

-- =============================================================== steps

/-- No access stores in a region that cannot be written. -/
theorem Board.Touch.keepsReadOnly {b b' : Board μ} (h : Touch b b')
    (hb : a.KeepsReadOnly b.arena) : a.KeepsReadOnly b'.arena := by
  cases h with
  | read addr =>
    exact hb.of_regions_eq (SameMemory.afterRead addr b).regions
  | write addr v =>
    cases htarget : b.target addr with
    | ok p =>
      rw [poke_arena_of_ok htarget]
      exact hb.put (target_eq_ok_iff.1 htarget).2 v
    | error fault =>
      rw [poke_arena_of_error htarget]
      exact hb.of_regions_eq rfl
  | input port => exact hb
  | output port v =>
    rw [writePort_arena]
    exact hb
  | note n =>
    rw [note_arena]
    exact hb

/-- No step stores in a region that cannot be written. -/
theorem Exec.keepsReadOnly_step {s : Computer μ}
    (h : a.KeepsReadOnly s.board.arena) :
    a.KeepsReadOnly (step s).2.board.arena :=
  preserved_step (P := fun b => a.KeepsReadOnly b.arena)
    (fun ht hb => ht.keepsReadOnly hb)
    (fun harena _ hb => harena ▸ hb) h

-- =============================================================== loops

namespace Attended

variable [Attendant σ μ] {s t : Attended σ μ}

/-- What the read-only regions of an arena hold, those of a computer
hold. -/
def KeepsReadOnly (a : Arena) (s : Attended σ μ) : Prop :=
  a.KeepsReadOnly s.computer.board.arena

/-- No step does with an attendant that spares the regions. -/
theorem keepsReadOnly_step (hspares : Attendant.SparesRegions σ μ)
    (h : KeepsReadOnly a s) : KeepsReadOnly a s.step.2 := by
  have hbefore : KeepsReadOnly a s.beforeStep := by
    unfold beforeStep
    dsimp only
    split
    · exact h
    · exact h.of_regions_eq (hspares.beforeFetch _ _ _)
  exact Exec.keepsReadOnly_step hbefore

theorem keepsReadOnly_stepNFrom (hspares : Attendant.SparesRegions σ μ)
    (h : KeepsReadOnly a s) (spent n : Nat) :
    KeepsReadOnly a (s.stepNFrom spent n).2 := by
  induction n generalizing spent s with
  | zero => exact h
  | succ n ih =>
    cases hstop : s.computer.board.lines.stop with
    | true =>
      rw [stepNFrom_stopped hstop]
      exact h
    | false =>
      have hstep := keepsReadOnly_step hspares h
      rw [stepNFrom_succ hstop]
      cases s.step.2.computer.latch with
      | some fault => exact hstep.of_regions_eq rfl
      | none => exact ih hstep _

/-- What a turn of the run loop leaves, whether it is the last or
not. -/
theorem keepsReadOnly_turn (hspares : Attendant.SparesRegions σ μ)
    (h : KeepsReadOnly a s) :
    match s.turn with
    | .ended _ t => KeepsReadOnly a t
    | .further t => KeepsReadOnly a t := by
  have hnoted {t : Attended σ μ} (n : Note) (ht : KeepsReadOnly a t) :
      KeepsReadOnly a (t.note n) :=
    ht.of_regions_eq (Board.SameMemory.note [n] _).regions
  have hstep := keepsReadOnly_step hspares h
  have htaken : KeepsReadOnly a
      ⟨s.step.2.attendant, s.step.2.computer.unlatched⟩ :=
    hstep.of_regions_eq rfl
  unfold turn
  cases hstop : s.computer.board.lines.stop with
  | true => exact hnoted _ h
  | false =>
    rw [if_neg Bool.false_ne_true]
    dsimp only
    rw [Computer.takeFault_eq]
    cases s.step.2.computer.latch with
    | some fault => exact hnoted _ htaken
    | none => exact htaken.of_regions_eq (hspares.afterTurn _ _ _ _)

theorem keepsReadOnly_turns (hspares : Attendant.SparesRegions σ μ)
    {limit : Nat} {result : Except Fault Unit}
    (h : KeepsReadOnly a s) (hended : s.turns limit = some (result, t)) :
    KeepsReadOnly a t := by
  induction limit generalizing s with
  | zero => cases hended
  | succ n ih =>
    have hturn := keepsReadOnly_turn hspares h
    unfold turns at hended
    cases hlast : s.turn with
    | ended result' last =>
      rw [hlast] at hended hturn
      cases hended
      exact hturn
    | further next =>
      rw [hlast] at hended hturn
      exact ih hturn hended

end Attended

-- ========================================================== the result

namespace Arena

/-- **Regions are kept apart, and what may not be written is not
written.** Whatever an arena is used for, regions are only added at the
end. In each the rules of `Obeys` hold, and a place reads as what was put
there last, or as at first. No step of a CPU, and no loop, changes a
byte of a region that may not be written, whatever program runs and
however addresses are decoded. -/
theorem regions_guarded :
    (∀ (a : Arena) (uses : List Use),
      (a.after uses).layout.toList
        = a.layout.toList ++ uses.filterMap Use.made?)
    ∧ (∀ (a : Arena) (p : Place) (form : Region.Form),
        a.layout[p.region]? = some form → a.Obeys p form)
    ∧ (∀ (a : Arena) (uses : List Use) (p : Place)
          (form : Region.Form),
        (a.after uses).layout[p.region]? = some form →
        p.offset < form.size →
        (a.after uses).read p
          = .ok (((lastPut? p uses a).or (a.byte? p)).getD form.fill))
    ∧ ∀ (σ μ : Type) [Decoder μ] [Attendant σ μ],
        Attendant.SparesRegions σ μ → ∀ s : Attended σ μ,
        s.computer.board.arena.KeepsReadOnly
            s.computer.step.2.board.arena
          ∧ (∀ n, s.computer.board.arena.KeepsReadOnly
              (s.stepN n).2.computer.board.arena)
          ∧ ∀ limit result t, s.run limit = some (result, t) →
            s.computer.board.arena.KeepsReadOnly
              t.computer.board.arena := by
  refine ⟨fun a uses => layout_after uses a,
    fun a p form => obeys_of_form, ?last, ?steps⟩
  case last =>
    intro a uses p form hform hlt
    exact read_eq_ok (byte?_after uses a hform hlt)
  case steps =>
    intro σ μ _ _ hspares s
    have hstart := KeepsReadOnly.refl s.computer.board.arena
    refine ⟨Exec.keepsReadOnly_step hstart,
      fun n => Attended.keepsReadOnly_stepNFrom hspares hstart 0 n, ?_⟩
    intro limit result t hrun
    have hentered : Attended.KeepsReadOnly s.computer.board.arena
        (s.note (.runEntered s.computer.cpu.regs.pc)) :=
      hstart.of_regions_eq (Board.SameMemory.note _ _).regions
    exact Attended.keepsReadOnly_turns hspares hentered hrun

/-- A region of each kind: a program is loaded into the one that may not
be written, and a byte is set past its protection. -/
def mixedUses : List Use :=
  [.addRam "ram" 4, .addRom "rom" 4, .load 1 ⟨#[0x32, 0x01, 0x00]⟩,
    .write ⟨0, 1⟩ 7, .set ⟨1, 3⟩ 5]

def mixed : Arena := ({} : Arena).after mixedUses

/-- The program stores A at the address 1, which is its own. -/
def storing : Computer Windowed where
  board :=
    { arena := mixed
      decoder := { windows := [⟨0, 3, true, true, 1, 0⟩] } }

/-- A script that interrupts the program. -/
def interrupting : Session Windowed where
  cues := [⟨1, .nmi⟩]

theorem regions_guarded_storing :
    mixed.layout[1]? = some ⟨"rom", 4, false⟩
    ∧ mixed.write ⟨1, 9⟩ 6 = .error (.readOnly "rom" 9)
    ∧ (Use.write ⟨1, 9⟩ 6).act mixed = mixed
    ∧ mixed.read ⟨1, 3⟩ = .ok 5
    ∧ mixed.read ⟨0, 0⟩ = .ok 0
    ∧ (storing.stepN 1).1 = .error (.readOnly "rom" 1)
    ∧ (storing.stepN 1).2.board.arena.byte? ⟨1, 1⟩ = some 1
    ∧ ((⟨interrupting, storing⟩ : Attended _ Windowed).stepN
        9).2.computer.board.arena.byte? ⟨1, 1⟩ = some 1 := by
  obtain ⟨-, hobeys, hread, hcpu⟩ := regions_guarded
  have hrom : mixed.layout[1]? = some ⟨"rom", 4, false⟩ := by
    decide +kernel
  have hram : mixed.layout[0]? = some ⟨"ram", 4, true⟩ := by
    decide +kernel
  have hrefused : mixed.write ⟨1, 9⟩ 6
      = .error (.readOnly "rom" 9) := by decide +kernel
  have hbeyond := hobeys mixed ⟨1, 9⟩ _ hrom
  obtain ⟨hsame, -⟩ := hbeyond.refuses 6 _ hrefused
  have hset : mixed.read ⟨1, 3⟩ = .ok 5 :=
    hread {} mixedUses ⟨1, 3⟩ _ hrom (by decide)
  have hfill : mixed.read ⟨0, 0⟩ = .ok 0 :=
    hread {} mixedUses ⟨0, 0⟩ _ hram (by decide)
  obtain ⟨-, halone, -⟩ :=
    hcpu Unit Windowed Attendant.sparesRegions_unit ⟨(), storing⟩
  obtain ⟨-, hscript, -⟩ :=
    hcpu _ Windowed Session.sparesRegions ⟨interrupting, storing⟩
  exact ⟨hrom, hrefused, hsame, hset, hfill, by decide +kernel,
    (halone 1).byte? ⟨1, 1⟩ _ hrom rfl,
    (hscript 9).byte? ⟨1, 1⟩ _ hrom rfl⟩

end Arena

end HomeZ80
