/-
The register file by name. Twenty-six bytes hold what has a name: two for
each of the twelve words, and I and R (`RegByte`). A name stands for one
byte or for the two of a word (`RegName.bytes`).

# Names and bytes

Whoever reads by a name looks at its bytes alone (`read_congr`), and
whoever writes by a name changes them alone (`byteAt_write`). So it is
all one whether a half is written by its own name or with the word that
it is part of (`set8_eq`), and two names disturb each other only if they
have a byte in common. Such names are a word and one of its halves
(`overlap_iff`).

# Exchanges

An exchange renames the words and does nothing else (`get16_exAf`,
`get16_exx`). Since the words, I, R and the interrupt state are all there
is (`eq_of_words`), what holds of the names holds of the register file.

# The refresh register

R may as well be kept in two parts, the seven bits that count and the one
that does not (`RefreshParts`). A byte is its two parts and they are all
of it (`RefreshParts.equiv`). To count, or to take a count back, is to do
so in the first part alone, and a load sets both parts
(`refresh_eq_bump`, `unrefresh_eq_unbump`, `set8_r_eq_ofByte`).
-/
import Mathlib.Data.Finset.Disjoint
import Mathlib.Logic.Equiv.Defs
import Mathlib.Logic.Function.Basic
import HomeZ80.Registers

namespace HomeZ80

-- ================================================================= names

/-- A byte of the register file that has a name or is half of a word that
has one. -/
inductive RegByte where
  | high (reg : Reg16)
  | low (reg : Reg16)
  | i
  | r
  deriving DecidableEq, Repr

/-- The byte that a byte register is. -/
def Reg8.home : Reg8 → RegByte
  | .a => .high .af
  | .f => .low .af
  | .b => .high .bc
  | .c => .low .bc
  | .d => .high .de
  | .e => .low .de
  | .h => .high .hl
  | .l => .low .hl
  | .i => .i
  | .r => .r
  | .ixh => .high .ix
  | .ixl => .low .ix
  | .iyh => .high .iy
  | .iyl => .low .iy

/-- The names of the two halves of a word, the high one first. The stack
pointer, the program counter and the shadow set have none. -/
def Reg16.halves? : Reg16 → Option (Reg8 × Reg8)
  | .af => some (.a, .f)
  | .bc => some (.b, .c)
  | .de => some (.d, .e)
  | .hl => some (.h, .l)
  | .ix => some (.ixh, .ixl)
  | .iy => some (.iyh, .iyl)
  | _ => none

/-- The shadow set. -/
def Reg16.shadows : List Reg16 :=
  [.afAlt, .bcAlt, .deAlt, .hlAlt]

namespace Reg16

/-- AF and its shadow exchanged. -/
def exAf : Reg16 → Reg16
  | .af => .afAlt
  | .afAlt => .af
  | reg => reg

/-- BC, DE and HL exchanged with their shadows. -/
def exx : Reg16 → Reg16
  | .bc => .bcAlt
  | .de => .deAlt
  | .hl => .hlAlt
  | .bcAlt => .bc
  | .deAlt => .de
  | .hlAlt => .hl
  | reg => reg

/-- Each word of the main set exchanged with its shadow. -/
def alternate : Reg16 → Reg16
  | .af => .afAlt
  | .bc => .bcAlt
  | .de => .deAlt
  | .hl => .hlAlt
  | .afAlt => .af
  | .bcAlt => .bc
  | .deAlt => .de
  | .hlAlt => .hl
  | reg => reg

end Reg16

/-- A register of either width by its name. -/
inductive RegName where
  | byte (reg : Reg8)
  | word (reg : Reg16)
  deriving DecidableEq, Repr

namespace RegName

/-- The bytes that a name stands for. -/
def bytes : RegName → Finset RegByte
  | byte reg => {reg.home}
  | word reg => {.high reg, .low reg}

/-- What a register of that name holds. -/
abbrev Value : RegName → Type
  | byte _ => UInt8
  | word _ => UInt16

/-- A byte register is the high or the low half of a word. -/
def HalfOf : RegName → RegName → Prop
  | byte reg, word whole => ∃ high low,
    whole.halves? = some (high, low) ∧ (reg = high ∨ reg = low)
  | _, _ => False

end RegName

-- ================================================================ halves

/-- No two byte registers are the same byte. -/
theorem Reg8.home_inj {reg other : Reg8} (h : reg.home = other.home) :
    reg = other := by
  cases reg <;> cases other <;> simp [Reg8.home] at h ⊢

/-- The names of the halves of a word stand for its two bytes. -/
theorem Reg16.home_halves {whole : Reg16} {high low : Reg8}
    (h : whole.halves? = some (high, low)) :
    high.home = .high whole ∧ low.home = .low whole := by
  cases whole <;> cases h <;> exact ⟨rfl, rfl⟩

/-- A byte register is half of a word if its byte is one of those of the
word. -/
theorem RegName.halfOf_iff {reg : Reg8} {whole : Reg16} :
    (byte reg).HalfOf (word whole) ↔
      reg.home = .high whole ∨ reg.home = .low whole := by
  constructor
  · rintro ⟨high, low, hhalves, hreg⟩
    obtain ⟨hhigh, hlow⟩ := Reg16.home_halves hhalves
    rcases hreg with rfl | rfl
    · exact .inl hhigh
    · exact .inr hlow
  · rintro (h | h)
    · cases reg <;> cases h <;> exact ⟨_, _, rfl, .inl rfl⟩
    · cases reg <;> cases h <;> exact ⟨_, _, rfl, .inr rfl⟩

/-- Names that are not the same have a byte in common just if one is half
of the other. -/
theorem RegName.overlap_iff {x y : RegName} (hne : x ≠ y) :
    ¬ Disjoint x.bytes y.bytes ↔ x.HalfOf y ∨ y.HalfOf x := by
  cases x with
  | byte reg =>
    cases y with
    | byte other =>
      have hhome : reg.home ≠ other.home :=
        fun h => hne (congrArg byte (Reg8.home_inj h))
      simp [bytes, HalfOf, hhome]
    | word whole =>
      rw [halfOf_iff, bytes, bytes, Finset.disjoint_singleton_left,
        not_not, Finset.mem_insert, Finset.mem_singleton]
      exact (or_false _).symm.to_iff
  | word whole =>
    cases y with
    | byte reg =>
      rw [halfOf_iff, bytes, bytes, Finset.disjoint_singleton_right,
        not_not, Finset.mem_insert, Finset.mem_singleton]
      exact (false_or _).symm.to_iff
    | word other =>
      have hwhole : other ≠ whole := fun h => hne (congrArg word h.symm)
      simp [bytes, HalfOf, hwhole]

namespace Registers

variable {r s : Registers}

-- ================================================================= bytes

/-- What a byte of the register file holds. -/
def byteAt (r : Registers) : RegByte → UInt8
  | .high reg => hiByte (r.get16 reg)
  | .low reg => loByte (r.get16 reg)
  | .i => r.i
  | .r => r.r

/-- A word is read as its two bytes. -/
theorem get16_eq (r : Registers) (reg : Reg16) :
    r.get16 reg = word (r.byteAt (.high reg)) (r.byteAt (.low reg)) :=
  (word_hiByte_loByte _).symm

/-- A byte register is read as its byte. -/
theorem get8_eq (r : Registers) (reg : Reg8) :
    r.get8 reg = r.byteAt reg.home := by
  cases reg <;> simp [get8, byteAt, Reg8.home, get16, af, bc, de, hl]

/-- How interrupts are accepted. -/
def interruptState (r : Registers) : Bool × Bool × InterruptMode :=
  (r.iff1, r.iff2, r.im)

/-- What there is besides the words. -/
def apart (r : Registers) : UInt8 × UInt8 × Bool × Bool × InterruptMode :=
  (r.i, r.r, r.interruptState)

/-- The register file with given words. -/
def ofWords (value : Reg16 → UInt16)
    (rest : UInt8 × UInt8 × Bool × Bool × InterruptMode) : Registers where
  a := hiByte (value .af)
  f := .ofByte (loByte (value .af))
  b := hiByte (value .bc)
  c := loByte (value .bc)
  d := hiByte (value .de)
  e := loByte (value .de)
  h := hiByte (value .hl)
  l := loByte (value .hl)
  i := rest.1
  r := rest.2.1
  sp := value .sp
  pc := value .pc
  ix := value .ix
  iy := value .iy
  afAlt := value .afAlt
  bcAlt := value .bcAlt
  deAlt := value .deAlt
  hlAlt := value .hlAlt
  iff1 := rest.2.2.1
  iff2 := rest.2.2.2.1
  im := rest.2.2.2.2

/-- The words, I, R and the interrupt state are all there is. -/
theorem ofWords_get16 (r : Registers) : ofWords r.get16 r.apart = r := by
  simp [ofWords, get16, af, bc, de, hl, apart, interruptState,
    Flags.ofByte_toByte]

/-- So register files that agree in these are the same. -/
theorem eq_of_words (hwords : r.get16 = s.get16)
    (hapart : r.apart = s.apart) : r = s := by
  rw [← ofWords_get16 r, ← ofWords_get16 s, hwords, hapart]

/-- And so are those that agree in every byte and in the interrupt
state. -/
theorem eq_of_byteAt (hbytes : r.byteAt = s.byteAt)
    (hstate : r.interruptState = s.interruptState) : r = s := by
  have hi : r.i = s.i := congrFun hbytes .i
  have hr : r.r = s.r := congrFun hbytes .r
  refine eq_of_words (funext fun reg => ?_) ?_
  · rw [get16_eq, get16_eq, hbytes]
  · rw [apart, apart, hi, hr, hstate]

-- ================================================================ writes

/-- A word that is written reads what was written, and the others what they
did. -/
theorem get16_set16 (reg other : Reg16) (v : UInt16) (r : Registers) :
    (r.set16 reg v).get16 other
      = if other = reg then v else r.get16 other := by
  cases reg <;> cases other <;>
    simp [set16, setAf, setBc, setDe, setHl, get16, af, bc, de, hl,
      Flags.toByte_ofByte]

/-- A word is written as its two bytes. -/
theorem byteAt_set16 (reg : Reg16) (v : UInt16) (r : Registers) :
    (r.set16 reg v).byteAt = Function.update
      (Function.update r.byteAt (.high reg) (hiByte v))
      (.low reg) (loByte v) := by
  funext b
  cases b with
  | high other =>
    show hiByte ((r.set16 reg v).get16 other) = _
    rw [get16_set16]
    by_cases h : other = reg
    · subst h
      simp
    · rw [if_neg h, Function.update_of_ne (by simp),
        Function.update_of_ne (by simpa using h)]
      rfl
  | low other =>
    show loByte ((r.set16 reg v).get16 other) = _
    rw [get16_set16]
    by_cases h : other = reg
    · subst h
      simp
    · rw [if_neg h, Function.update_of_ne (by simpa using h),
        Function.update_of_ne (by simp)]
      rfl
  | i =>
    rw [Function.update_of_ne (by simp), Function.update_of_ne (by simp)]
    cases reg <;> rfl
  | r =>
    rw [Function.update_of_ne (by simp), Function.update_of_ne (by simp)]
    cases reg <;> rfl

/-- A half can as well be written with the word. -/
theorem set8_eq (reg : Reg8) (v : UInt8) (r : Registers) :
    r.set8 reg v = match reg.home with
      | .high whole => r.set16 whole (word v (r.byteAt (.low whole)))
      | .low whole => r.set16 whole (word (r.byteAt (.high whole)) v)
      | .i => { r with i := v }
      | .r => { r with r := v } := by
  cases reg <;>
    simp [set8, Reg8.home, set16, setAf, setBc, setDe, setHl, byteAt,
      get16, af, bc, de, hl, Flags.ofByte_toByte]

/-- A byte register is written as its byte. -/
theorem byteAt_set8 (reg : Reg8) (v : UInt8) (r : Registers) :
    (r.set8 reg v).byteAt = Function.update r.byteAt reg.home v := by
  rw [set8_eq]
  -- the other half of a word is written back as it was
  cases reg.home with
  | high whole =>
    have hlow : Function.update r.byteAt (.high whole) v (.low whole)
        = r.byteAt (.low whole) := Function.update_of_ne (by simp) _ _
    dsimp only
    rw [byteAt_set16, hiByte_word, loByte_word, ← hlow,
      Function.update_eq_self]
  | low whole =>
    dsimp only
    rw [byteAt_set16, hiByte_word, loByte_word, Function.update_eq_self]
  | i =>
    funext b
    cases b <;> rfl
  | r =>
    funext b
    cases b <;> rfl

/-- No word has a part in the interrupt state. -/
theorem interruptState_set16 (reg : Reg16) (v : UInt16) (r : Registers) :
    (r.set16 reg v).interruptState = r.interruptState := by
  cases reg <;> rfl

theorem interruptState_set8 (reg : Reg8) (v : UInt8) (r : Registers) :
    (r.set8 reg v).interruptState = r.interruptState := by
  cases reg <;> rfl

-- =============================================================== by name

variable {x y : RegName}

/-- What the register of a name holds. -/
def read (r : Registers) : (x : RegName) → x.Value
  | .byte reg => r.get8 reg
  | .word reg => r.get16 reg

/-- The register file with the register of a name set to a value. -/
def write (x : RegName) (v : x.Value) (r : Registers) : Registers :=
  match x, v with
  | .byte reg, v => r.set8 reg v
  | .word reg, v => r.set16 reg v

/-- What a name reads is told by its bytes. -/
theorem read_congr (h : ∀ b ∈ x.bytes, r.byteAt b = s.byteAt b) :
    r.read x = s.read x := by
  cases x with
  | byte reg =>
    show r.get8 reg = s.get8 reg
    rw [get8_eq, get8_eq]
    exact h _ (Finset.mem_singleton_self _)
  | word reg =>
    show r.get16 reg = s.get16 reg
    have hhigh : RegByte.high reg ∈ (RegName.word reg).bytes :=
      Finset.mem_insert_self _ _
    have hlow : RegByte.low reg ∈ (RegName.word reg).bytes :=
      Finset.mem_insert_of_mem (Finset.mem_singleton_self _)
    rw [get16_eq, get16_eq, h _ hhigh, h _ hlow]

/-- What a name writes is its bytes. -/
theorem byteAt_write (v : x.Value) (r : Registers) {b : RegByte}
    (h : b ∉ x.bytes) : (r.write x v).byteAt b = r.byteAt b := by
  cases x with
  | byte reg =>
    have hne : b ≠ reg.home := fun heq => h (Finset.mem_singleton.2 heq)
    show (r.set8 reg v).byteAt b = r.byteAt b
    rw [byteAt_set8, Function.update_of_ne hne]
  | word reg =>
    have hhigh : b ≠ .high reg :=
      fun heq => h (heq ▸ Finset.mem_insert_self _ _)
    have hlow : b ≠ .low reg := fun heq =>
      h (heq ▸ Finset.mem_insert_of_mem (Finset.mem_singleton_self _))
    show (r.set16 reg v).byteAt b = r.byteAt b
    rw [byteAt_set16, Function.update_of_ne hlow,
      Function.update_of_ne hhigh]

/-- No name reaches the interrupt state. -/
theorem interruptState_write (x : RegName) (v : x.Value) (r : Registers) :
    (r.write x v).interruptState = r.interruptState := by
  cases x with
  | byte reg => exact interruptState_set8 reg v r
  | word reg => exact interruptState_set16 reg v r

theorem read_write_self (x : RegName) (v : x.Value) (r : Registers) :
    (r.write x v).read x = v := by
  cases x with
  | byte reg =>
    show (r.set8 reg v).get8 reg = v
    rw [get8_eq, byteAt_set8, Function.update_self]
  | word reg =>
    show (r.set16 reg v).get16 reg = v
    rw [get16_set16, if_pos rfl]

/-- A write is not seen by names that share no byte with its own. -/
theorem read_write_of_disjoint (h : Disjoint x.bytes y.bytes)
    (v : x.Value) (r : Registers) : (r.write x v).read y = r.read y :=
  read_congr fun _ hb =>
    byteAt_write v r (Finset.disjoint_right.1 h hb)

/-- Writing back what has been read changes nothing. -/
theorem write_read (x : RegName) (r : Registers) :
    r.write x (r.read x) = r := by
  refine eq_of_byteAt ?_ (interruptState_write x _ r)
  cases x with
  | byte reg =>
    show (r.set8 reg (r.get8 reg)).byteAt = r.byteAt
    rw [byteAt_set8, get8_eq, Function.update_eq_self]
  | word reg =>
    show (r.set16 reg (r.get16 reg)).byteAt = r.byteAt
    have hhigh : hiByte (r.get16 reg) = r.byteAt (.high reg) := rfl
    have hlow : loByte (r.get16 reg) = r.byteAt (.low reg) := rfl
    rw [byteAt_set16, hhigh, hlow, Function.update_eq_self,
      Function.update_eq_self]

/-- A word is its halves. -/
theorem toNat_get16 (r : Registers) {whole : Reg16} {high low : Reg8}
    (h : whole.halves? = some (high, low)) :
    (r.get16 whole).toNat
      = 256 * (r.get8 high).toNat + (r.get8 low).toNat := by
  obtain ⟨hhigh, hlow⟩ := Reg16.home_halves h
  rw [get8_eq, get8_eq, hhigh, hlow, ← toNat_word, ← get16_eq]

theorem disjoint_shadow {shadow : Reg16} (h : shadow ∈ Reg16.shadows)
    (hne : x ≠ .word shadow) :
    Disjoint x.bytes (RegName.word shadow).bytes := by
  have hnone : shadow.halves? = none := by
    revert h
    cases shadow <;> decide
  by_contra hoverlap
  rcases (RegName.overlap_iff hne).1 hoverlap with hhalf | hwhole
  · cases x with
    | byte reg =>
      obtain ⟨high, low, hhalves, -⟩ := hhalf
      rw [hnone] at hhalves
      cases hhalves
    | word reg => exact hhalf
  · cases x <;> exact hwhole

-- ============================================================= exchanges

/-- The exchange of AF renames two words. -/
theorem get16_exAf (r : Registers) (reg : Reg16) :
    r.exAf.get16 reg = r.get16 reg.exAf := by
  cases reg <;>
    simp [exAf, setAf, get16, af, bc, de, hl, Reg16.exAf,
      Flags.toByte_ofByte]

/-- The exchange of the sets renames six. -/
theorem get16_exx (r : Registers) (reg : Reg16) :
    r.exx.get16 reg = r.get16 reg.exx := by
  cases reg <;>
    simp [exx, setBc, setDe, setHl, get16, af, bc, de, hl, Reg16.exx]

/-- What is not in a word takes no part in the exchange of AF. -/
theorem apart_exAf (r : Registers) : r.exAf.apart = r.apart := rfl

theorem apart_exx (r : Registers) : r.exx.apart = r.apart := rfl

/-- Exchanging AF twice changes nothing. -/
theorem exAf_exAf (r : Registers) : r.exAf.exAf = r := by
  refine eq_of_words (funext fun reg => ?_) ?_
  · rw [get16_exAf, get16_exAf]
    cases reg <;> rfl
  · rw [apart_exAf, apart_exAf]

/-- Exchanging the sets twice changes nothing. -/
theorem exx_exx (r : Registers) : r.exx.exx = r := by
  refine eq_of_words (funext fun reg => ?_) ?_
  · rw [get16_exx, get16_exx]
    cases reg <;> rfl
  · rw [apart_exx, apart_exx]

/-- The two exchanges may be made in either order. -/
theorem exAf_exx (r : Registers) : r.exx.exAf = r.exAf.exx := by
  refine eq_of_words (funext fun reg => ?_) ?_
  · rw [get16_exAf, get16_exx, get16_exx, get16_exAf]
    cases reg <;> rfl
  · rw [apart_exAf, apart_exx, apart_exx, apart_exAf]

theorem get16_exAf_exx (r : Registers) (reg : Reg16) :
    r.exAf.exx.get16 reg = r.get16 reg.alternate := by
  rw [get16_exx, get16_exAf]
  cases reg <;> rfl

-- ============================================================ the result

/-- **Registers are read and written by name without side effects.** What
has been written is read, writing back what has been read changes
nothing, and a write is seen only by names that share a byte with its
own. Such names are a word and its halves, and the word is 256 times the
high half and the low half, whichever of them was written last. No write
touches the interrupt state, or a word of the shadow set but by its own
name. The two exchanges undo themselves, commute, and together make AF,
BC, DE and HL change places with their shadows and nothing else. -/
theorem lens_laws (r : Registers) :
    (∀ (x : RegName) (v : x.Value), (r.write x v).read x = v)
    ∧ (∀ x : RegName, r.write x (r.read x) = r)
    ∧ (∀ (x y : RegName) (v : x.Value), Disjoint x.bytes y.bytes →
      (r.write x v).read y = r.read y)
    ∧ (∀ x y : RegName, x ≠ y →
      (¬ Disjoint x.bytes y.bytes ↔ x.HalfOf y ∨ y.HalfOf x))
    ∧ (∀ (whole : Reg16) (high low : Reg8),
      whole.halves? = some (high, low) →
      (r.get16 whole).toNat
        = 256 * (r.get8 high).toNat + (r.get8 low).toNat)
    ∧ (∀ (x : RegName) (v : x.Value),
      (r.write x v).iff1 = r.iff1 ∧ (r.write x v).iff2 = r.iff2
      ∧ (r.write x v).im = r.im
      ∧ ∀ shadow ∈ Reg16.shadows, x ≠ .word shadow →
        (r.write x v).get16 shadow = r.get16 shadow)
    ∧ (r.exAf.exAf = r ∧ r.exx.exx = r ∧ r.exx.exAf = r.exAf.exx)
    ∧ (∀ reg : Reg16, r.exAf.exx.get16 reg = r.get16 reg.alternate)
    ∧ r.exAf.exx.i = r.i ∧ r.exAf.exx.r = r.r
    ∧ r.exAf.exx.iff1 = r.iff1 ∧ r.exAf.exx.iff2 = r.iff2
    ∧ r.exAf.exx.im = r.im := by
  refine ⟨fun x v => read_write_self x v r, fun x => write_read x r,
    fun x y v h => read_write_of_disjoint h v r,
    fun x y => RegName.overlap_iff, fun _ _ _ => toNat_get16 r,
    fun x v => ?untouched, ⟨exAf_exAf r, exx_exx r, exAf_exx r⟩,
    get16_exAf_exx r, ?apart⟩
  case untouched =>
    have hstate := interruptState_write x v r
    obtain ⟨hiff1, hrest⟩ := Prod.mk.inj hstate
    obtain ⟨hiff2, him⟩ := Prod.mk.inj hrest
    exact ⟨hiff1, hiff2, him, fun shadow hshadow hne =>
      read_write_of_disjoint (disjoint_shadow hshadow hne) v r⟩
  case apart =>
    have hapart : r.exAf.exx.apart = r.apart :=
      (apart_exx r.exAf).trans (apart_exAf r)
    obtain ⟨hi, hrest⟩ := Prod.mk.inj hapart
    obtain ⟨hr, hstate⟩ := Prod.mk.inj hrest
    obtain ⟨hiff1, hrest⟩ := Prod.mk.inj hstate
    obtain ⟨hiff2, him⟩ := Prod.mk.inj hrest
    exact ⟨hi, hr, hiff1, hiff2, him⟩

/-- H is written, and HL is told from it. DE and the shadow of HL are as
before. -/
theorem lens_laws_high_half :
    let r : Registers :=
      { powerOn with l := 0x34, d := 0x56, e := 0x78, hlAlt := 0x9ABC }
    let written := r.write (.byte .h) 0x12
    Disjoint (RegName.byte .h).bytes (RegName.word .de).bytes
      ∧ written.read (.word .de) = 0x5678
      ∧ RegName.byte .h ≠ .word .hl
      ∧ (RegName.byte .h).HalfOf (.word .hl)
      ∧ ¬ Disjoint (RegName.byte .h).bytes (RegName.word .hl).bytes
      ∧ Reg16.hl.halves? = some (.h, .l)
      ∧ (written.get16 .hl).toNat = 0x1234
      ∧ Reg16.hlAlt ∈ Reg16.shadows ∧ RegName.byte .h ≠ .word .hlAlt
      ∧ written.get16 .hlAlt = 0x9ABC := by
  intro r written
  have hdisjoint :
      Disjoint (RegName.byte .h).bytes (RegName.word .de).bytes := by
    decide
  have hne : RegName.byte .h ≠ .word .hl := by decide
  have hhalf : (RegName.byte .h).HalfOf (.word .hl) :=
    ⟨.h, .l, rfl, .inl rfl⟩
  have hmem : Reg16.hlAlt ∈ Reg16.shadows := by decide
  have hshadow : RegName.byte .h ≠ .word .hlAlt := by decide
  obtain ⟨-, -, hframe, hoverlap, -, huntouched, -⟩ := lens_laws r
  obtain ⟨-, -, -, -, hview, -⟩ := lens_laws written
  obtain ⟨-, -, -, hkept⟩ := huntouched (.byte .h) 0x12
  have hde := hframe (.byte .h) (.word .de) 0x12 hdisjoint
  exact ⟨hdisjoint, hde.trans (by decide), hne, hhalf,
    (hoverlap _ _ hne).2 (.inl hhalf), rfl,
    (hview .hl .h .l rfl).trans (by decide), hmem, hshadow,
    (hkept .hlAlt hmem hshadow).trans rfl⟩

end Registers

-- ================================================= the refresh register

/-- The refresh register in two parts. -/
@[ext]
structure RefreshParts where
  /-- What counts, in the low seven bits. -/
  counter : UInt8
  /-- What was last loaded, in bit 7. -/
  high : UInt8
  counter_eq : counter &&& 0x7F = counter
  high_eq : high &&& 0x80 = high
  deriving DecidableEq, Repr

namespace RefreshParts

/-- The parts of a byte. -/
def ofByte (v : UInt8) : RefreshParts where
  counter := v &&& 0x7F
  high := v &&& 0x80
  counter_eq := by rw [UInt8.and_assoc]; rfl
  high_eq := by rw [UInt8.and_assoc]; rfl

/-- The byte that has these parts. -/
def toByte (p : RefreshParts) : UInt8 := (p.counter &&& 0x7F) ||| p.high

/-- Count one fetch. -/
def bump (p : RefreshParts) : RefreshParts where
  counter := (p.counter + 1) &&& 0x7F
  high := p.high
  counter_eq := by rw [UInt8.and_assoc]; rfl
  high_eq := p.high_eq

/-- Take back the count of one fetch. -/
def unbump (p : RefreshParts) : RefreshParts where
  counter := (p.counter - 1) &&& 0x7F
  high := p.high
  counter_eq := by rw [UInt8.and_assoc]; rfl
  high_eq := p.high_eq

/-- The parts of a byte make up the byte. -/
theorem toByte_ofByte (v : UInt8) : (ofByte v).toByte = v := by
  obtain ⟨⟨v⟩⟩ := v
  revert v
  decide +kernel

/-- A mask goes over both operands. -/
theorem or_and (x y mask : UInt8) :
    (x ||| y) &&& mask = (x &&& mask) ||| (y &&& mask) :=
  UInt8.toBitVec_inj.1 BitVec.and_or_distrib_right

/-- Two parts are those of the byte that they make up, since they have no
bit in common. -/
theorem ofByte_toByte (p : RefreshParts) : ofByte p.toByte = p := by
  obtain ⟨counter, high, hcounter, hhigh⟩ := p
  have hdisjoint : (0x80 : UInt8) &&& 0x7F = 0 := rfl
  have hlow : high &&& 0x7F = 0 := by
    rw [← hhigh, UInt8.and_assoc, hdisjoint, UInt8.and_zero]
  have htop : counter &&& 0x80 = 0 := by
    rw [← hcounter, UInt8.and_assoc, UInt8.and_comm 0x7F, hdisjoint,
      UInt8.and_zero]
  ext1
  · show ((counter &&& 0x7F) ||| high) &&& 0x7F = counter
    rw [or_and, hcounter, hcounter, hlow, UInt8.or_zero]
  · show ((counter &&& 0x7F) ||| high) &&& 0x80 = high
    rw [or_and, hcounter, htop, hhigh, UInt8.zero_or]

/-- A byte is its two parts. -/
def equiv : UInt8 ≃ RefreshParts where
  toFun := ofByte
  invFun := toByte
  left_inv := toByte_ofByte
  right_inv := ofByte_toByte

end RefreshParts

namespace Registers

open RefreshParts (ofByte)

/-- A fetch is counted in the first part. -/
theorem refresh_eq_bump (s : Registers) :
    s.refresh = { s with r := (ofByte s.r).bump.toByte } := by
  have hall : ∀ v : UInt8, (if v % 128 = 127 then v - 127 else v + 1)
      = (ofByte v).bump.toByte := by
    rintro ⟨⟨v⟩⟩
    revert v
    decide +kernel
  unfold refresh
  rw [hall]

theorem unrefresh_eq_unbump (s : Registers) :
    s.unrefresh = { s with r := (ofByte s.r).unbump.toByte } := by
  have hall : ∀ v : UInt8, (if v % 128 = 0 then v + 127 else v - 1)
      = (ofByte v).unbump.toByte := by
    rintro ⟨⟨v⟩⟩
    revert v
    decide +kernel
  unfold unrefresh
  rw [hall]

/-- A load sets both parts, and what is read is put together from them. -/
theorem set8_r_eq_ofByte (v : UInt8) (s : Registers) :
    s.set8 .r v = { s with r := (ofByte v).toByte } := by
  rw [RefreshParts.toByte_ofByte]
  rfl

end Registers
end HomeZ80
