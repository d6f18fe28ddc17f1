/-
Registers behind ports, after any number of writes. Almost every one is
set anew by each write of some kind and is left alone by all others, so
it is what the last write of that kind has made it, however long ago that
was (`foldl_eq_lastWhere`). The kinds differ: a register may have one
port, a range of ports may set one register whatever the value, and every
port has a latch of its own.

Only the text window remembers more than one write. Its second port moves
it on, so it is the value last set and the number of moves since
(`Banked.textWindow_written`).

Writes that share no register may come in either order. What a series of
writes leaves depends only on the order within each group of ports
(`SameOrder`).
-/
import HomeZ80.Proofs.Board.Plain
import Mathlib.Data.List.Induction

namespace HomeZ80

attribute [ext] Bank Controller

/-- A port with the value that is written to it. -/
abbrev PortWrite := UInt8 × UInt8

-- ========================================================== last writes

section
variable (p : PortWrite → Bool) (port : UInt8) (ws : List PortWrite)

/-- The last of the writes that are of some kind. -/
def lastWhere : Option PortWrite := (ws.filter p).getLast?

/-- The value last written to a port. -/
def lastTo : Option UInt8 := (lastWhere (·.1 == port) ws).map (·.2)

/-- The last write of a kind is the last write if this is of the kind. -/
theorem lastWhere_concat (w : PortWrite) :
    lastWhere p (ws ++ [w]) = if p w then some w else lastWhere p ws := by
  unfold lastWhere
  rw [List.filter_append]
  split
  · next hw => rw [List.filter_cons_of_pos hw, List.filter_nil,
      List.getLast?_concat]
  · next hw => rw [List.filter_cons_of_neg hw, List.filter_nil,
      List.append_nil]

/-- The last value written to a port is that of the last write if this was
to the port. -/
theorem lastTo_concat (w : PortWrite) :
    lastTo port (ws ++ [w])
      = if w.1 = port then some w.2 else lastTo port ws := by
  unfold lastTo
  rw [lastWhere_concat]
  simp only [beq_iff_eq]
  split <;> rfl

end

section
variable {σ β : Type} {act : σ → PortWrite → σ} (view : σ → β)

/-- What each write of a kind sets anew, and no other write touches, is
what the last write of the kind has made it. -/
theorem foldl_eq_lastWhere {p : PortWrite → Bool} (set : PortWrite → β)
    (hact : ∀ s w, view (act s w) = if p w = true then set w else view s)
    (ws : List PortWrite) (s : σ) :
    view (ws.foldl act s) = (lastWhere p ws).elim (view s) set := by
  induction ws using List.reverseRecOn with
  | nil => rfl
  | append_singleton ws w ih =>
    rw [List.foldl_append, List.foldl_cons, List.foldl_nil, hact,
      lastWhere_concat, ih]
    split <;> rfl

/-- A view that a write to one port sets, and no other write changes, shows
the last write to that port. -/
theorem foldl_eq_lastTo {port : UInt8} (set : UInt8 → β)
    (hact : ∀ s w, view (act s w)
      = if w.1 = port then set w.2 else view s)
    (ws : List PortWrite) (s : σ) :
    view (ws.foldl act s) = (lastTo port ws).elim (view s) set := by
  have hkind : ∀ s w, view (act s w)
      = if (w.1 == port) = true then set w.2 else view s := by
    intro s w
    rw [hact]
    simp only [beq_iff_eq]
  rw [foldl_eq_lastWhere view _ hkind]
  unfold lastTo
  cases lastWhere (·.1 == port) ws <;> rfl

end

namespace Banked

-- ================================================================ ports

/-- The port of a register that has one port. -/
def PortRole.port? : PortRole → Option UInt8
  | .memoryMode => some 0x31
  | .extPage => some 0x32
  | .plane p => some (0x5C + UInt8.ofNat p)
  | .mainRam => some 0x5F
  | .textWindow => some 0x70
  | .extEnable => some 0x71
  | .textWindowStep => some 0x78
  | .controller .priority => some 0xE4
  | .controller .mask => some 0xE6
  | .latch => none

/-- A register that has one port is reached through this port alone. -/
theorem portRole_eq_iff {role : PortRole} {home : UInt8}
    (hrole : role.port? = some home) (port : UInt8) :
    portRole port = role ↔ port = home := by
  constructor
  · rintro rfl
    have hall : (portRole port).port? = some port
        ∨ (portRole port).port? = none := by
      clear hrole
      obtain ⟨⟨v⟩⟩ := port
      revert v
      decide +kernel
    rcases hall with hport | hport
    · exact Option.some.inj (hport.symm.trans hrole)
    · rw [hport] at hrole
      cases hrole
  · rintro rfl
    cases role with
    | plane p =>
      obtain rfl := Option.some.inj hrole
      revert p
      decide
    | controller reg =>
      cases reg <;> (cases hrole; rfl)
    | latch => cases hrole
    | _ => cases hrole; rfl

/-- The ports that choose what the top quarter of memory shows. -/
def isPlanePort (port : UInt8) : Bool := 0x5C ≤ port && port ≤ 0x5F

/-- What each of them chooses: the first three a video plane, the last
one RAM. -/
def planeOf (port : UInt8) : Option (Fin 3) :=
  if h : (port - 0x5C).toNat < 3 then some ⟨_, h⟩ else none

/-- The port last written to among these. -/
def lastPlane (ws : List PortWrite) : Option UInt8 :=
  (lastWhere (fun w => isPlanePort w.1) ws).map (·.1)

/-- The writes that move the text window since it was last set. -/
def windowSteps (ws : List PortWrite) : Nat :=
  (ws.reverse.takeWhile (·.1 != 0x70)).countP (·.1 == 0x78)

/-- A write to the window register starts the count of its steps anew. -/
theorem windowSteps_concat (ws : List PortWrite) (w : PortWrite) :
    windowSteps (ws ++ [w]) =
      if w.1 = 0x70 then 0
      else windowSteps ws + if w.1 = 0x78 then 1 else 0 := by
  unfold windowSteps
  rw [List.reverse_concat]
  by_cases h : w.1 = 0x70
  · rw [if_pos h, List.takeWhile_cons_of_neg (by simp [h])]
    rfl
  · rw [if_neg h, List.takeWhile_cons_of_pos (by simp [h]),
      List.countP_cons]
    simp only [beq_iff_eq]

-- ============================================================ registers

/-- What writes to ports change. -/
def registers (m : Banked) : Bank × Ports := (m.bank, m.ports)

/-- The registers after a write. -/
def settle (r : Bank × Ports) (w : PortWrite) : Bank × Ports :=
  ((portRole w.1).act w.2 r.1, r.2.setLatch w.1 w.2)

/-- A write to a port settles bank registers and latches, and nothing else
of the decoder. -/
theorem registers_writePort (port v : UInt8) (m : Banked) :
    (m.writePort port v).registers = settle m.registers (port, v) := rfl

section
variable (role : PortRole) (v : UInt8) (b : Bank)

/-- Bit 1 of the memory mode switches all RAM on and off. -/
theorem act_allRam : (role.act v b).allRam
    = if role = .memoryMode then bitOf v 1 else b.allRam := by
  have hbit : decide (v / 2 % 2 = 1) = bitOf v 1 := by
    obtain ⟨⟨v⟩⟩ := v
    revert v
    decide +kernel
  cases role with
  | memoryMode => exact hbit
  | _ => rfl

/-- Bit 2 of the memory mode selects the BASIC ROM. -/
theorem act_rom : (role.act v b).rom
    = if role = .memoryMode then if bitOf v 2 then .nBasic else .n88
      else b.rom := by
  have hbit : decide (v / 4 % 2 = 1) = bitOf v 2 := by
    obtain ⟨⟨v⟩⟩ := v
    revert v
    decide +kernel
  cases role with
  | memoryMode =>
    rw [if_pos rfl, ← hbit]
    simp only [decide_eq_true_eq]
    rfl
  | _ => rfl

/-- The page of the extension ROM is selected modulo 4. -/
theorem act_extPage : (role.act v b).extPage
    = if role = .extPage then Fin.ofNat 4 v.toNat else b.extPage := by
  cases role <;> rfl

/-- The extension ROM is enabled by a bit that is clear. -/
theorem act_extEnabled : (role.act v b).extEnabled
    = if role = .extEnable then !bitOf v 0 else b.extEnabled := by
  have hbit : decide (v % 2 = 0) = !bitOf v 0 := by
    obtain ⟨⟨v⟩⟩ := v
    revert v
    decide +kernel
  cases role with
  | extEnable => exact hbit
  | _ => rfl

/-- The window is set as a whole or moved by one. -/
theorem act_textWindow : (role.act v b).textWindow
    = if role = .textWindow then v
      else b.textWindow + if role = .textWindowStep then 1 else 0 := by
  cases role with
  | textWindow | textWindowStep => rfl
  | _ => exact (UInt8.add_zero _).symm

end

/-- What a role chooses to show in the top quarter, if it does. -/
def PortRole.shown? : PortRole → Option (Option (Fin 3))
  | .plane p => some (some p)
  | .mainRam => some none
  | _ => none

/-- Each of the plane ports shows the plane that it stands for, or none. -/
theorem shown?_portRole (port : UInt8) :
    (portRole port).shown?
      = if isPlanePort port = true then some (planeOf port) else none := by
  obtain ⟨⟨n⟩⟩ := port
  revert n
  decide +kernel

/-- The plane is that of the plane port written last, whatever the
value. -/
theorem act_plane (port v : UInt8) (b : Bank) :
    ((portRole port).act v b).plane
      = if isPlanePort port = true then planeOf port else b.plane := by
  have hact : ∀ role : PortRole,
      (role.act v b).plane = role.shown?.getD b.plane := by
    intro role
    cases role <;> rfl
  rw [hact, shown?_portRole]
  split <;> rfl

-- ============================================================== settling

theorem bank_settled {β : Type} {role : PortRole} {home : UInt8}
    (hhome : role.port? = some home) (view : Bank → β) (set : UInt8 → β)
    (hact : ∀ (other : PortRole) (v : UInt8) (b : Bank),
      view (other.act v b) = if other = role then set v else view b)
    (ws : List PortWrite) (r : Bank × Ports) :
    view (ws.foldl settle r).1
      = (lastTo home ws).elim (view r.1) set := by
  apply foldl_eq_lastTo (fun r : Bank × Ports => view r.1)
  intro r w
  show view ((portRole w.1).act w.2 r.1) = _
  rw [hact]
  exact if_congr (portRole_eq_iff hhome w.1) rfl rfl

/-- What is shown in the top quarter has four. -/
theorem plane_settled (ws : List PortWrite) (r : Bank × Ports) :
    (ws.foldl settle r).1.plane
      = (lastPlane ws).elim r.1.plane planeOf := by
  have hact (r : Bank × Ports) (w : PortWrite) : (settle r w).1.plane
      = if isPlanePort w.1 = true then planeOf w.1 else r.1.plane :=
    act_plane w.1 w.2 r.1
  rw [foldl_eq_lastWhere (fun r : Bank × Ports => r.1.plane) _ hact]
  unfold lastPlane
  cases lastWhere (fun w => isPlanePort w.1) ws <;> rfl

/-- The text window is the value last set, and the moves since. -/
theorem textWindow_settled (ws : List PortWrite) (r : Bank × Ports) :
    (ws.foldl settle r).1.textWindow
      = (lastTo 0x70 ws).getD r.1.textWindow
        + UInt8.ofNat (windowSteps ws) := by
  induction ws using List.reverseRecOn with
  | nil => exact (UInt8.add_zero _).symm
  | append_singleton ws w ih =>
    have hset : portRole w.1 = .textWindow ↔ w.1 = 0x70 :=
      portRole_eq_iff rfl w.1
    have hmove : portRole w.1 = .textWindowStep ↔ w.1 = 0x78 :=
      portRole_eq_iff rfl w.1
    rw [List.foldl_append, List.foldl_cons, List.foldl_nil,
      windowSteps_concat, lastTo_concat]
    show ((portRole w.1).act w.2 (ws.foldl settle r).1).textWindow = _
    rw [act_textWindow, ih]
    simp only [hset, hmove]
    by_cases h : w.1 = 0x70
    · rw [if_pos h, if_pos h, if_pos h]
      exact (UInt8.add_zero _).symm
    · rw [if_neg h, if_neg h, if_neg h, UInt8.ofNat_add, UInt8.add_assoc]
      split <;> rfl

/-- What is behind the ports of a board after a series of writes to them,
all registers having been those of power-on before. -/
structure Reflects (ws : List PortWrite) (m : Banked) : Prop where
  allRam : m.bank.allRam = (lastTo 0x31 ws).elim false (bitOf · 1)
  rom : m.bank.rom = (lastTo 0x31 ws).elim .n88 fun v =>
    if bitOf v 2 then .nBasic else .n88
  extPage : m.bank.extPage = (lastTo 0x32 ws).elim 0 fun v =>
    Fin.ofNat 4 v.toNat
  extEnabled : m.bank.extEnabled = (lastTo 0x71 ws).elim false fun v =>
    !bitOf v 0
  plane : m.bank.plane = (lastPlane ws).elim none planeOf
  textWindow : m.bank.textWindow
    = (lastTo 0x70 ws).getD 0 + UInt8.ofNat (windowSteps ws)
  readWindow : m.readPort 0x70 = m.bank.textWindow
  readPort (port : UInt8) (h : port ≠ 0x70) :
    m.readPort port = (lastTo port ws).getD 255

/-- A latch holds what was last written to its port. -/
theorem latch_settled (ws : List PortWrite) (port : UInt8)
    (r : Bank × Ports) :
    (ws.foldl settle r).2.latch port
      = (lastTo port ws).elim (r.2.latch port) id :=
  foldl_eq_lastTo (fun r : Bank × Ports => r.2.latch port) id
    (fun r w => Ports.latch_setLatch w.1 port w.2 r.2) ws r

/-- A port that was never written reads 255. -/
theorem latch_powerOn (port : UInt8) : Ports.powerOn.latch port = 255 :=
  Vector.getElem_replicate _

/-- Bank registers and latches that come of a series of writes reflect its
last ones. -/
theorem reflects_of_registers {ws : List PortWrite} {m : Banked}
    (h : m.registers = ws.foldl settle ({}, .powerOn)) :
    Reflects ws m := by
  have hbank : m.bank = (ws.foldl settle ({}, .powerOn)).1 :=
    congrArg Prod.fst h
  have hports : m.ports = (ws.foldl settle ({}, .powerOn)).2 :=
    congrArg Prod.snd h
  constructor
  · rw [hbank]
    exact bank_settled rfl _ _ act_allRam ws _
  · rw [hbank]
    exact bank_settled rfl _ _ act_rom ws _
  · rw [hbank]
    exact bank_settled rfl _ _ act_extPage ws _
  · rw [hbank]
    exact bank_settled rfl _ _ act_extEnabled ws _
  · rw [hbank]
    exact plane_settled ws _
  · rw [hbank]
    exact textWindow_settled ws _
  · rfl
  · intro port hport
    have hlatch : m.readPort port = m.ports.latch port := by
      unfold readPort
      split
      · next hrole =>
        exact absurd ((portRole_eq_iff rfl port).1 hrole) hport
      · rfl
    rw [hlatch, hports, latch_settled, latch_powerOn]
    cases lastTo port ws <;> rfl

end Banked

-- =========================================================== controller

namespace Controller

/-- The registers that can be written. -/
def settings (c : Controller) : Controller where
  enabled := c.enabled
  level := c.level
  priorityOnly := c.priorityOnly

/-- The controller after a write to a port of its board. -/
def behind (c : Controller) (w : PortWrite) : Controller :=
  match Banked.controllerPort w.1 with
  | some reg => c.writePort reg w.2
  | none => c

/-- The settings of a controller after a write depend on no more than its
settings before. -/
theorem settings_behind (c : Controller) (w : PortWrite) :
    (c.behind w).settings = c.settings.behind w := by
  unfold behind
  cases Banked.controllerPort w.1 with
  | none => rfl
  | some reg => cases reg <;> rfl

/-- It does not matter how often the same is written. -/
theorem behind_behind (c : Controller) (w : PortWrite) :
    (c.behind w).behind w = c.behind w := by
  unfold behind
  cases Banked.controllerPort w.1 with
  | none => rfl
  | some reg => cases reg <;> rfl

/-- Two ports lead to the controller, one to its mask and one to its
rule. -/
theorem behind_eq (c : Controller) (w : PortWrite) :
    c.behind w =
      if w.1 = 0xE6 then c.writeMask w.2
      else if w.1 = 0xE4 then c.writePriority w.2
      else c := by
  obtain ⟨port, v⟩ := w
  split
  · next hmask =>
    obtain rfl : port = 0xE6 := hmask
    rfl
  · next hmask =>
    split
    · next hpriority =>
      obtain rfl : port = 0xE4 := hpriority
      rfl
    · next hpriority =>
      have hnone : Banked.controllerPort port = none := by
        unfold Banked.controllerPort
        split
        · next reg hrole =>
          cases reg with
          | mask =>
            exact absurd ((Banked.portRole_eq_iff rfl port).1 hrole) hmask
          | priority =>
            exact absurd ((Banked.portRole_eq_iff rfl port).1 hrole)
              hpriority
        · rfl
      unfold behind
      rw [hnone]

/-- The registers of a controller after a series of writes to the ports
of its board. Channels 0 to 2 are enabled by bits 2 to 0, and all others
always. -/
structure Reflects (ws : List PortWrite) (c : Controller) : Prop where
  enabled (k : Nat) (hk : k < 8) : bitOf c.enabled k
    = (decide (3 ≤ k) || (lastTo 0xE6 ws).any fun v => bitOf v (2 - k))
  level : c.level = (lastTo 0xE4 ws).elim 7 (· % 8)
  priorityOnly : c.priorityOnly = (lastTo 0xE4 ws).elim true (bitOf · 3)

/-- The low three bits of a mask stand for channels 0 to 2, the highest bit
for channel 0; the other channels are always enabled. -/
theorem bitOf_mask (v : UInt8) : ∀ k < 8,
    bitOf (({} : Controller).writeMask v).enabled k
      = (decide (3 ≤ k) || bitOf v (2 - k)) := by
  obtain ⟨⟨v⟩⟩ := v
  revert v
  decide +kernel

/-- The two registers that one write sets together. -/
def rule (c : Controller) : UInt8 × Bool := (c.level, c.priorityOnly)

/-- The mask is that of the last write to its port. -/
theorem enabled_settled (ws : List PortWrite) (c : Controller) :
    (ws.foldl behind c).enabled
      = (lastTo 0xE6 ws).elim c.enabled fun v =>
        (({} : Controller).writeMask v).enabled := by
  refine foldl_eq_lastTo enabled
    (fun v => (({} : Controller).writeMask v).enabled) ?_ ws c
  intro c w
  rw [behind_eq]
  split
  · rfl
  · split <;> rfl

/-- The priority rule is that of the last write to its port. -/
theorem rule_settled (ws : List PortWrite) (c : Controller) :
    (ws.foldl behind c).rule
      = (lastTo 0xE4 ws).elim c.rule fun v => (v % 8, bitOf v 3) := by
  refine foldl_eq_lastTo rule (fun v => (v % 8, bitOf v 3)) ?_ ws c
  intro c w
  rw [behind_eq]
  split
  · next hport =>
    rw [if_neg (by rw [hport]; decide)]
    rfl
  · split <;> rfl

/-- Requests are none of the registers that can be written. -/
theorem requests_settled (ws : List PortWrite) (c : Controller) :
    (ws.foldl behind c).requests = c.requests := by
  induction ws generalizing c with
  | nil => rfl
  | cons w rest ih =>
    rw [List.foldl_cons, ih]
    unfold behind
    split
    · exact requests_writePort _ _ c
    · rfl

/-- Settings that come of a series of writes reflect its last ones. -/
theorem reflects_of_settings {ws : List PortWrite} {c : Controller}
    (h : c.settings = ws.foldl behind {}) : Reflects ws c := by
  have henabled : c.enabled = (ws.foldl behind {}).enabled :=
    (congrArg enabled h :)
  have hrule : c.rule = (ws.foldl behind {}).rule :=
    (congrArg rule h :)
  rw [enabled_settled] at henabled
  rw [rule_settled] at hrule
  constructor
  · intro k hk
    rw [henabled]
    cases lastTo 0xE6 ws with
    | none =>
      revert k
      decide
    | some v => exact bitOf_mask v k hk
  · have hlevel := congrArg Prod.fst hrule
    cases hlast : lastTo 0xE4 ws with
    | none | some v =>
      rw [hlast] at hlevel
      exact hlevel
  · have hfirst := congrArg Prod.snd hrule
    cases hlast : lastTo 0xE4 ws with
    | none | some v =>
      rw [hlast] at hfirst
      exact hfirst

end Controller

-- ================================================================= order

namespace Banked

/-- The ports that share a register have the same group. -/
def group (port : UInt8) : UInt8 :=
  if isPlanePort port then 0x5C
  else if port = 0x78 then 0x70
  else port

end Banked

/-- Two series of writes that agree on each group of ports: they differ
at most in how the groups are interleaved. -/
def SameOrder (ws ws' : List PortWrite) : Prop :=
  ∀ g, ws'.filter (Banked.group ·.1 == g)
    = ws.filter (Banked.group ·.1 == g)

namespace SameOrder

variable {ws ws' : List PortWrite}

/-- Neighbours of different groups may change places. -/
theorem swap {x y : PortWrite} (h : Banked.group x.1 ≠ Banked.group y.1)
    (before rest : List PortWrite) :
    SameOrder (before ++ x :: y :: rest) (before ++ y :: x :: rest) := by
  intro g
  simp only [List.filter_append]
  congr 1
  by_cases hx : Banked.group x.1 = g
  · have hy : Banked.group y.1 ≠ g := fun hy => h (hx.trans hy.symm)
    rw [List.filter_cons_of_neg (by simpa using hy),
      List.filter_cons_of_pos (by simpa using hx),
      List.filter_cons_of_pos (by simpa using hx),
      List.filter_cons_of_neg (by simpa using hy)]
  · rw [List.filter_cons, List.filter_cons_of_neg (by simpa using hx),
      List.filter_cons_of_neg (by simpa using hx), List.filter_cons]

/-- What is within a group is the same in both. -/
theorem filter_eq (h : SameOrder ws ws') {p : PortWrite → Bool} {g : UInt8}
    (hp : ∀ w, p w = true → Banked.group w.1 = g) :
    ws'.filter p = ws.filter p := by
  have hwithin : ∀ us : List PortWrite,
      us.filter p = (us.filter (Banked.group ·.1 == g)).filter p := by
    intro us
    rw [List.filter_filter]
    apply List.filter_congr
    intro w _
    cases hw : p w with
    | false => rfl
    | true => exact (beq_iff_eq.2 (hp w hw)).symm
  rw [hwithin ws', hwithin ws, h g]

/-- The order of writes to different ports does not matter to the last
write of each. -/
theorem lastTo_eq (h : SameOrder ws ws') (port : UInt8) :
    lastTo port ws' = lastTo port ws := by
  have hfilter := h.filter_eq (p := (·.1 == port))
    (g := Banked.group port) fun w hw => by rw [beq_iff_eq.1 hw]
  unfold lastTo lastWhere
  rw [hfilter]

/-- It matters to no plane, as long as the plane ports are written in one
order. -/
theorem lastPlane_eq (h : SameOrder ws ws') :
    Banked.lastPlane ws' = Banked.lastPlane ws := by
  have hfilter := h.filter_eq (p := fun w => Banked.isPlanePort w.1)
    (g := 0x5C) fun w hw => if_pos hw
  unfold Banked.lastPlane lastWhere
  rw [hfilter]

/-- The moves of the text window are told within its group. -/
theorem windowSteps_filter (ws : List PortWrite) :
    Banked.windowSteps (ws.filter (Banked.group ·.1 == 0x70))
      = Banked.windowSteps ws := by
  induction ws using List.reverseRecOn with
  | nil => rfl
  | append_singleton ws w ih =>
    rw [List.filter_append, Banked.windowSteps_concat]
    by_cases h : Banked.group w.1 = 0x70
    · rw [List.filter_cons_of_pos (by simpa using h), List.filter_nil,
        Banked.windowSteps_concat, ih]
    · rw [List.filter_cons_of_neg (by simpa using h), List.filter_nil,
        List.append_nil, ih]
      have hset : w.1 ≠ 0x70 := by
        intro hport
        rw [hport] at h
        exact h rfl
      have hmove : w.1 ≠ 0x78 := by
        intro hport
        rw [hport] at h
        exact h rfl
      rw [if_neg hset, if_neg hmove]
      rfl

/-- The order matters to no step of the window, as long as its two ports
are written in one order. -/
theorem windowSteps_eq (h : SameOrder ws ws') :
    Banked.windowSteps ws' = Banked.windowSteps ws := by
  rw [← windowSteps_filter ws', h 0x70, windowSteps_filter]

open Banked in
/-- Writes that touch different groups may change places. -/
theorem settled_eq (h : SameOrder ws ws') (r : Bank × Ports) :
    ws'.foldl settle r = ws.foldl settle r := by
  have hbank {β : Type} {role : PortRole} {home : UInt8}
      (hhome : role.port? = some home) (view : Bank → β) (set : UInt8 → β)
      (hact : ∀ (other : PortRole) (v : UInt8) (b : Bank),
        view (other.act v b) = if other = role then set v else view b) :
      view (ws'.foldl settle r).1 = view (ws.foldl settle r).1 := by
    rw [bank_settled hhome view set hact, bank_settled hhome view set hact,
      h.lastTo_eq]
  apply Prod.ext
  · apply Bank.ext
    · exact hbank rfl _ _ act_allRam
    · exact hbank rfl _ _ act_rom
    · exact hbank rfl _ _ act_extPage
    · exact hbank rfl _ _ act_extEnabled
    · rw [plane_settled, plane_settled, h.lastPlane_eq]
    · rw [textWindow_settled, textWindow_settled, h.lastTo_eq,
        h.windowSteps_eq]
  · apply Vector.ext
    intro i hi
    have hlatch := latch_settled ws' (UInt8.ofNat i) r
    rw [h.lastTo_eq, ← latch_settled] at hlatch
    have hindex : (UInt8.ofNat i).toNat = i := UInt8.toNat_ofNat_of_lt' hi
    unfold Ports.latch at hlatch
    simp only [hindex] at hlatch
    exact hlatch

open Controller in
theorem controller_eq (h : SameOrder ws ws') (c : Controller) :
    ws'.foldl behind c = ws.foldl behind c := by
  have henabled : (ws'.foldl behind c).enabled
      = (ws.foldl behind c).enabled := by
    rw [enabled_settled, enabled_settled, h.lastTo_eq]
  have hrule : (ws'.foldl behind c).rule = (ws.foldl behind c).rule := by
    rw [rule_settled, rule_settled, h.lastTo_eq]
  have hrequests : (ws'.foldl behind c).requests
      = (ws.foldl behind c).requests := by
    rw [requests_settled, requests_settled]
  obtain ⟨hlevel, hfirst⟩ := Prod.mk.inj hrule
  obtain ⟨hpending, hcurrent, hwire⟩ := Requests.mk.inj hrequests
  exact Controller.ext hpending henabled hlevel hfirst hcurrent hwire

end SameOrder
end HomeZ80
