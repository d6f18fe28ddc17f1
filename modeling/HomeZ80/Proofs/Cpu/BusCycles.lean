/-
The bus cycles that a step makes, in their order. They can be told
before the step is taken: the addresses come from the registers and from
the code, the values that are written from registers and from what was
read before. An instruction reads its code first, then its operands, and
writes last; the cycles of an interrupt entry follow those of the
instruction.

What a step does to a board is these cycles, and nothing else that a
cycle could see (`Exec.sameBus_step`). So a fact about all accesses of a
program is a fact about lists of cycles.
-/
import HomeZ80.Proofs.Board.BusCycle
import HomeZ80.Proofs.Cpu.DisplacedBits

namespace HomeZ80

open BusCycle (wordReads wordWrites)

variable {μ : Type} [Decoder μ]

/-- The word that the code continues with. -/
def Computer.codeWord (s : Computer μ) : UInt16 :=
  word (s.board.valueAt (s.cpu.regs.pc + 1))
    (s.board.valueAt s.cpu.regs.pc)

-- ============================================================= operands

omit [Decoder μ] in
/-- A displacement is read when the operand is settled. -/
def Operand.fetches (s : Computer μ) : Operand → List BusCycle
  | .reg _ | .mem .hl => []
  | .mem _ => [.read s.cpu.regs.pc]

def Site.reads : Site → List BusCycle
  | .reg _ => []
  | .cell addr => [.read addr]

def Site.writes (v : UInt8) : Site → List BusCycle
  | .reg _ => []
  | .cell addr => [.write addr v]

omit [Decoder μ] in
def Computer.pushes (v : UInt16) (s : Computer μ) : List BusCycle :=
  wordWrites (s.cpu.regs.sp - 2) v

omit [Decoder μ] in
def Computer.pops (s : Computer μ) : List BusCycle :=
  wordReads s.cpu.regs.sp

/-- A byte is read, and written back with the value that `f` makes of
it, if it makes any. -/
def Site.updates (f : UInt8 → Option UInt8) (v : UInt8) (p : Site) :
    List BusCycle :=
  p.reads ++ ((f v).map (p.writes ·)).getD []

def Operand.updates (f : UInt8 → Option UInt8) (s : Computer μ)
    (o : Operand) : List BusCycle :=
  let settled := Exec.site o s
  o.fetches s
    ++ settled.1.updates f (Exec.readSite settled.1 settled.2).1

-- ========================================================= instructions

/-- The cycles of an instruction, told from the computer as it is when
the opcode has been fetched. -/
def Instruction.cycles (s : Computer μ) : Instruction → List BusCycle
  | .load dst src =>
    let dest := Exec.site dst s
    let source := Exec.site src dest.2
    dst.fetches s ++ src.fetches dest.2 ++ source.1.reads
      ++ dest.1.writes (Exec.readSite source.1 source.2).1
  | .loadByte dst =>
    let dest := Exec.site dst s
    let pc := dest.2.cpu.regs.pc
    dst.fetches s ++ .read pc :: dest.1.writes (s.board.valueAt pc)
  | .loadA via => [.read (s.cpu.regs.get16 via)]
  | .storeA via => [.write (s.cpu.regs.get16 via) s.cpu.regs.a]
  | .loadADirect => wordReads s.cpu.regs.pc ++ [.read s.codeWord]
  | .storeADirect =>
    wordReads s.cpu.regs.pc ++ [.write s.codeWord s.cpu.regs.a]
  | .loadWord _ => wordReads s.cpu.regs.pc
  | .loadDirect _ => wordReads s.cpu.regs.pc ++ wordReads s.codeWord
  | .storeDirect src =>
    wordReads s.cpu.regs.pc ++ wordWrites s.codeWord
      ((Exec.fetchWord s).2.cpu.regs.get16 src)
  | .push src => s.pushes (s.cpu.regs.get16 src)
  | .pop _ => s.pops
  | .exStack reg =>
    s.pops ++ wordWrites s.cpu.regs.sp (s.cpu.regs.get16 reg)
  | .alu _ src => src.updates (fun _ => none) s
  | .aluByte _ => [.read s.cpu.regs.pc]
  | .inc target =>
    target.updates (fun v => some (Alu.inc8 v s.cpu.regs.f).1) s
  | .dec target =>
    target.updates (fun v => some (Alu.dec8 v s.cpu.regs.f).1) s
  | .digitsLeft =>
    let v := s.board.valueAt s.cpu.regs.hl
    [.read s.cpu.regs.hl,
      .write s.cpu.regs.hl (Alu.rld s.cpu.regs.a v s.cpu.regs.f).2.1]
  | .digitsRight =>
    let v := s.board.valueAt s.cpu.regs.hl
    [.read s.cpu.regs.hl,
      .write s.cpu.regs.hl (Alu.rrd s.cpu.regs.a v s.cpu.regs.f).2.1]
  | .bits op target =>
    target.updates (fun v => op.written v s.cpu.regs.f.c) s
  | .jump _ => wordReads s.cpu.regs.pc
  | .jumpRelative _ => [.read s.cpu.regs.pc]
  | .djnz => [.read s.cpu.regs.pc]
  | .call cond =>
    wordReads s.cpu.regs.pc ++
      if (Exec.taken cond s).1 then s.pushes (s.cpu.regs.pc + 2) else []
  | .ret cond => if (Exec.taken cond s).1 then s.pops else []
  | .retn => s.pops
  | .rst _ => s.pushes s.cpu.regs.pc
  | .inA =>
    [.read s.cpu.regs.pc, .input (s.board.valueAt s.cpu.regs.pc)]
  | .outA =>
    [.read s.cpu.regs.pc,
      .output (s.board.valueAt s.cpu.regs.pc) s.cpu.regs.a]
  | .inC _ => [.input s.cpu.regs.c]
  | .outC none => [.output s.cpu.regs.c 0]
  | .outC (some name) => [.output s.cpu.regs.c (s.cpu.regs.get8 name)]
  | .block .copy _ _ =>
    [.read s.cpu.regs.hl,
      .write s.cpu.regs.de (s.board.valueAt s.cpu.regs.hl)]
  | .block .compare _ _ => [.read s.cpu.regs.hl]
  | .block .input _ _ =>
    [.input s.cpu.regs.c,
      .write s.cpu.regs.hl (s.board.readPort s.cpu.regs.c)]
  | .block .output _ _ =>
    [.read s.cpu.regs.hl,
      .output s.cpu.regs.c (s.board.valueAt s.cpu.regs.hl)]
  | .nop | .halt | .di | .ei | .im _ | .loadASpecial _ | .storeASpecial _
  | .loadSp _ | .exAf | .exx | .exDeHl | .daa | .cpl | .scf | .ccf | .neg
  | .incWord _ | .decWord _ | .addWord _ _ | .adcHl _ | .sbcHl _
  | .rotateA _ | .jumpTo _ | .undefined _ => []

namespace Exec

-- ================================================================ parts

/-- Finding an operand takes the fetch of a displacement, if there is
one. -/
theorem site_board (o : Operand) (s : Computer μ) :
    (site o s).2.board = s.board.perform (o.fetches s) := by
  rcases o with name | role
  · rfl
  · cases role <;> rfl

theorem sameMemory_site (o : Operand) (s : Computer μ) :
    s.board.SameMemory (site o s).2.board := by
  rw [site_board]
  rcases o with name | role
  · exact .refl _
  · cases role
    · exact .refl _
    · exact .afterRead _ _
    · exact .afterRead _ _

/-- An operand in memory is read by one cycle, a register by none. -/
theorem readSite_board (p : Site) (s : Computer μ) :
    (readSite p s).2.board = s.board.perform p.reads := by
  cases p <;> rfl

/-- An operand in memory is written by one cycle, a register by none. -/
theorem writeSite_board (v : UInt8) (p : Site) (s : Computer μ) :
    (writeSite v p s).2.board = s.board.perform (p.writes v) := by
  cases p <;> rfl

/-- The word in the code is the two bytes at the program counter, low byte
first. -/
theorem fetchWord_fst (s : Computer μ) :
    (fetchWord s).1 = s.codeWord := by
  have hsame := Board.SameMemory.afterRead s.cpu.regs.pc s.board
  show word ((s.board.afterRead s.cpu.regs.pc).valueAt _) _ = _
  rw [hsame.valueAt_eq]
  rfl

/-- A call pushes the program counter. -/
theorem call_board (target : UInt16) (s : Computer μ) :
    (call target s).2.board
      = s.board.perform (s.pushes s.cpu.regs.pc) := rfl

/-- What updates an operand finds it, reads it, and writes it back if there
is something to write. -/
theorem updates_board (f : UInt8 → Option UInt8) (o : Operand)
    (s : Computer μ) :
    let settled := site o s
    s.board.perform (o.updates f s) = settled.2.board.perform
      (settled.1.updates f (readSite settled.1 settled.2).1) := by
  unfold Operand.updates
  dsimp only
  rw [Board.perform_append, site_board]

/-- An operation on a settled byte reads it, and writes the new value if
there is one. -/
theorem bits_board_site (op : BitOp) (p : Site) (copy : Option Reg8)
    (s : Computer μ) :
    (bits op p copy s).2.board = s.board.perform
      (p.updates (op.written · s.cpu.regs.f.c) (readSite p s).1) := by
  cases op <;> cases p <;> cases copy <;> rfl

/-- The displacement of a jump is fetched whether it is taken or not. -/
theorem jumpRelative_board (go : Bool) (s : Computer μ) :
    (execute.jumpRelative go s).2.board
      = s.board.perform [.read s.cpu.regs.pc] := by
  cases go <;> rfl

/-- A word of code moves the program counter by two. -/
theorem fetchWord_pc (s : Computer μ) :
    (fetchWord s).2.cpu.regs.pc = s.cpu.regs.pc + 2 :=
  UInt16.add_assoc s.cpu.regs.pc 1 1

/-- The target of a call is fetched whether it is taken or not. -/
theorem execute_call_board (cond : Option Condition) (s : Computer μ) :
    (execute (.call cond) s).2.board =
      if (taken cond s).1 then
        (call (fetchWord s).1 (fetchWord s).2).2.board
      else (fetchWord s).2.board := by
  cases cond with
  | none => rfl
  | some cond =>
    show ((if cond.holds s.cpu.regs.f = true then _ else _ : Exec μ Nat)
      (fetchWord s).2).2.board = if cond.holds s.cpu.regs.f then _ else _
    split <;> rfl

/-- Apart from the two instructions that make notes, what an instruction
does to the board is its cycles. -/
theorem execute_board (i : Instruction) (s : Computer μ)
    (hhalt : i ≠ .halt) (hundefined : ∀ op, i ≠ .undefined op) :
    (execute i s).2.board = s.board.perform (i.cycles s) := by
  cases i with
  | halt => exact absurd rfl hhalt
  | undefined op => exact absurd rfl (hundefined op)
  | load dst src =>
    let dest := site dst s
    let source := site src dest.2
    show (writeSite (readSite source.1 source.2).1 dest.1
      (readSite source.1 source.2).2).2.board = _
    simp only [Instruction.cycles, Board.perform_append]
    rw [writeSite_board, readSite_board, site_board, site_board]
  | loadByte dst =>
    let dest := site dst s
    have hv : (fetchByte dest.2).1
        = s.board.valueAt dest.2.cpu.regs.pc :=
      (sameMemory_site dst s).valueAt_eq dest.2.cpu.regs.pc
    show (writeSite (fetchByte dest.2).1 dest.1
      (fetchByte dest.2).2).2.board = _
    rw [writeSite_board, hv, Instruction.cycles, Board.perform_append,
      ← site_board]
    rfl
  | alu op src =>
    rw [Instruction.cycles, updates_board]
    show (readSite (site src s).1 (site src s).2).2.board = _
    rw [readSite_board]
    exact congrArg _ (List.append_nil _).symm
  | inc target | dec target =>
    rw [Instruction.cycles, updates_board, Site.updates,
      Board.perform_append, ← readSite_board]
    show (writeSite _ (site target s).1 _).2.board = _
    rw [writeSite_board]
    rfl
  | bits op target =>
    have hf : (site target s).2.cpu.regs.f = s.cpu.regs.f := by
      rcases target with name | role
      · rfl
      · cases role <;> rfl
    have hbits : (execute (.bits op target) s).2.board
        = (bits op (site target s).1 none (site target s).2).2.board := by
      cases op <;> rfl
    rw [hbits, bits_board_site, Instruction.cycles, updates_board, hf]
  | loadADirect =>
    show (peek (fetchWord s).1 (fetchWord s).2).2.board = _
    rw [fetchWord_fst]
    rfl
  | storeADirect =>
    show (poke (fetchWord s).1 _ (fetchWord s).2).2.board = _
    rw [fetchWord_fst]
    rfl
  | loadDirect dst =>
    show (peekWord (fetchWord s).1 (fetchWord s).2).2.board = _
    rw [fetchWord_fst]
    rfl
  | storeDirect src =>
    show (pokeWord (fetchWord s).1 _ (fetchWord s).2).2.board = _
    rw [fetchWord_fst]
    rfl
  | jump cond =>
    cases cond with
    | none => rfl
    | some cond =>
      simp only [execute]
      rw [bind_apply, bind_apply]
      split <;> rfl
  | jumpRelative cond =>
    simp only [execute]
    rw [bind_apply, bind_apply]
    cases cond <;> exact jumpRelative_board _ _
  | djnz =>
    simp only [execute]
    exact jumpRelative_board _ _
  | call cond =>
    rw [execute_call_board, call_board, fetchWord_pc,
      Instruction.cycles, Board.perform_append]
    split <;> rfl
  | ret cond =>
    cases cond with
    | none => rfl
    | some cond =>
      show ((if cond.holds s.cpu.regs.f = true then _ else _ : Exec μ Nat)
        s).2.board = s.board.perform
          (if cond.holds s.cpu.regs.f then s.pops else [])
      split <;> rfl
  | inC dst => cases dst <;> rfl
  | outC src => cases src <;> rfl
  | block op down again =>
    have hround : (blockRound op down s).2.board
        = s.board.perform (Instruction.cycles s (.block op down again)) := by
      cases op <;> rfl
    rw [← hround]
    simp only [execute]
    rw [bind_apply]
    split <;> rfl
  | _ => rfl

/-- Notes are nothing to the bus, so this is so of every instruction. -/
theorem sameBus_execute (i : Instruction) (s : Computer μ) :
    (s.board.perform (i.cycles s)).SameBus (execute i s).2.board := by
  by_cases hhalt : i = .halt
  · rw [hhalt]
    exact .note [.halted (s.cpu.regs.pc - 1)] s.board
  by_cases hundefined : ∃ op, i = .undefined op
  · obtain ⟨op, rfl⟩ := hundefined
    exact .note [.undefinedOpcode op (s.cpu.regs.pc - 2)] s.board
  · exact .of_eq (execute_board i s hhalt
      fun op h => hundefined ⟨op, h⟩).symm

-- ============================================================= opcodes

/-- The cycles of an operation of the bit page on a displaced byte. -/
def indexedBitsCycles (role : Role) (s : Computer μ) :
    List BusCycle :=
  let displaced := fetchDisplaced (s.cpu.regs.get16 role.pair) s
  let next := fetchByte displaced.2
  .read s.cpu.regs.pc :: .read displaced.2.cpu.regs.pc
    :: (Site.cell displaced.1).updates
      ((Decode.bitOp next.1).written · s.cpu.regs.f.c)
      (next.2.board.valueAt displaced.1)

def indexedCycles (role : Role) (s : Computer μ) : List BusCycle :=
  let next := fetchOpcode s
  .read s.cpu.regs.pc :: match Decode.main role next.1 with
    | .instruction i => i.cycles next.2
    | .bitPage => indexedBitsCycles role next.2
    | .extendedPage | .indexPage _ => []

/-- The cycles of the instruction that begins with an opcode byte,
already fetched. -/
def opcodeCycles (op : UInt8) (s : Computer μ) : List BusCycle :=
  let next := fetchOpcode s
  match Decode.main .hl op with
  | .instruction i => i.cycles s
  | .bitPage => .read s.cpu.regs.pc :: (Decode.bit next.1).cycles next.2
  | .extendedPage =>
    .read s.cpu.regs.pc :: (Decode.extended next.1).cycles next.2
  | .indexPage role => indexedCycles role s

/-- The opcode behind a displacement is fetched as an operand is. -/
theorem indexedBits_board (role : Role) (s : Computer μ) :
    (indexedBits role s).2.board
      = s.board.perform (indexedBitsCycles role s) := by
  let displaced := fetchDisplaced (s.cpu.regs.get16 role.pair) s
  let next := fetchByte displaced.2
  exact bits_board_site (Decode.bitOp next.1) (.cell displaced.1)
    (Decode.register? (next.1.toNat % 8)) next.2

/-- After an index byte the opcode is fetched, and carried out or left. -/
theorem sameBus_indexed (role : Role) (s : Computer μ) :
    (s.board.perform (indexedCycles role s)).SameBus
      (indexed role s).2.board := by
  unfold indexed indexedCycles
  dsimp only
  rw [bind_apply]
  cases hop : Decode.main role (fetchOpcode s).1 with
  | instruction i => exact sameBus_execute i (fetchOpcode s).2
  | bitPage => exact .of_eq (indexedBits_board role (fetchOpcode s).2).symm
  | extendedPage | indexPage other => exact .refl _

/-- Each page has its own number of fetches before its instructions. -/
theorem sameBus_opcode (op : UInt8) (s : Computer μ) :
    (s.board.perform (opcodeCycles op s)).SameBus
      (opcode op s).2.board := by
  unfold opcode opcodeCycles
  cases hop : Decode.main .hl op with
  | instruction i => exact sameBus_execute i s
  | bitPage | extendedPage => exact sameBus_execute _ (fetchOpcode s).2
  | indexPage role => exact sameBus_indexed role s

end Exec

-- =============================================================== steps

namespace Computer

/-- The cycles of the next instruction. -/
def instructCycles (s : Computer μ) : List BusCycle :=
  let next := Exec.fetchOpcode s
  if s.cpu.halted then []
  else .read s.cpu.regs.pc :: Exec.opcodeCycles next.1 next.2

/-- The cycles that lead where a channel leads: of the opcode that is
supplied, of a push, or of the table and a push. -/
def supplyCycles (channel : UInt8) (s : Computer μ) :
    List BusCycle :=
  let pc := s.cpu.regs.pc
  match s.cpu.regs.im with
  | .im0 =>
    Exec.opcodeCycles (2 * channel)
      (Exec.note (.im0Taken channel (2 * channel) pc) s).2
  | .im1 => s.pushes pc
  | .im2 =>
    wordReads (word s.cpu.regs.i 0 ||| Controller.offsetOf channel)
      ++ s.pushes pc

/-- The cycles of an interrupt entry, told at the boundary. The entry
leaves the halted state before the program counter is pushed. -/
def entryCycles (s : Computer μ) : Entry → List BusCycle
  | .nmi => s.pushes (Exec.leaveHalt s).2.cpu.regs.pc
  | .maskable channel =>
    (Exec.heed channel s).2.supplyCycles channel

/-- The cycles of the next step, in their order. -/
def cycles (s : Computer μ) : List BusCycle :=
  s.instructCycles ++
    match s.interrupt? with
    | some entry => s.atBoundary.entryCycles entry
    | none => []

end Computer

namespace Exec

theorem sameBus_instruct (s : Computer μ) :
    (s.board.perform s.instructCycles).SameBus
      (instruct s).2.board := by
  unfold instruct Computer.instructCycles
  cases hhalted : s.cpu.halted with
  | true => exact .refl _
  | false => exact sameBus_opcode _ (fetchOpcode s).2

omit [Decoder μ] in
/-- Leaving the halt does not use the stack. -/
theorem leaveHalt_sp (s : Computer μ) :
    (leaveHalt s).2.cpu.regs.sp = s.cpu.regs.sp := by
  show (if s.cpu.halted then _ else s.cpu : Cpu).regs.sp = _
  split <;> rfl

/-- The line is cleared and the halted state left, neither of which is
seen on the bus; then the program counter is pushed. -/
theorem sameBus_enterNmi (s : Computer μ) :
    (s.board.perform (s.entryCycles .nmi)).SameBus
      (enterNmi s).2.board := by
  let woken := (leaveHalt s).2
  have hpushes : s.entryCycles .nmi = woken.pushes woken.cpu.regs.pc := by
    show wordWrites _ _ = wordWrites (woken.cpu.regs.sp - 2) _
    rw [leaveHalt_sp]
  have hlines := Board.SameBus.onLines (·.clearNmi) s.board
  rw [hpushes]
  refine (hlines.perform _).trans ?_
  exact .note [_] _

omit [Decoder μ] in
/-- An acknowledgement is nothing to the bus. -/
theorem sameBus_acknowledge (channel : UInt8) (s : Computer μ) :
    s.board.SameBus (acknowledge channel s).2.board :=
  ⟨acknowledge_arena channel s, acknowledge_decoder channel s⟩

/-- What a maskable entry does to the bus depends on the mode: an opcode, a
call, or a look at the table and a call. -/
theorem sameBus_vector (channel : UInt8) (s : Computer μ) :
    (s.board.perform (s.supplyCycles channel)).SameBus
      (vector channel s).2.board := by
  unfold Computer.supplyCycles
  cases him : s.cpu.regs.im with
  | im0 =>
    let supplied :=
      (note (.im0Taken channel (2 * channel) s.cpu.regs.pc) s).2
    have hnote : s.board.SameBus supplied.board :=
      .note [.im0Taken channel (2 * channel) s.cpu.regs.pc] s.board
    rw [vector_im0 channel him]
    exact (hnote.perform _).trans (sameBus_opcode (2 * channel) supplied)
  | im1 =>
    have hcall := call_board Entry.im1Target s
    rw [vector, bind_apply]
    dsimp only [regs]
    rw [him, ← hcall]
    exact .note [_] (call Entry.im1Target s).2.board
  | im2 =>
    let table := word s.cpu.regs.i 0 ||| Controller.offsetOf channel
    let found := peekWord table s
    have hcall := call_board found.1 found.2
    rw [vector, bind_apply]
    dsimp only [regs]
    rw [him, Board.perform_append]
    exact .note [_] (call found.1 found.2).2.board

/-- So every entry is the cycles that are told of it. -/
theorem sameBus_enter (entry : Entry) (s : Computer μ) :
    (s.board.perform (s.entryCycles entry)).SameBus
      (enter entry s).2.board := by
  cases entry with
  | nmi => exact sameBus_enterNmi s
  | maskable channel =>
    have hheed : s.board.SameBus (heed channel s).2.board :=
      sameBus_acknowledge channel s
    exact (hheed.perform _).trans (sameBus_vector channel _)

/-- What a step does to the bus are the cycles that are told, in their
order. -/
theorem sameBus_step (s : Computer μ) :
    (s.board.perform s.cycles).SameBus (step s).2.board := by
  unfold Computer.cycles
  rw [Board.perform_append]
  have hinstruct : (s.board.perform s.instructCycles).SameBus
      s.atBoundary.board := sameBus_instruct s
  cases hentry : s.interrupt? with
  | none =>
    rw [step_of_no_entry hentry]
    exact hinstruct
  | some entry =>
    rw [step_of_entry hentry]
    exact (hinstruct.perform _).trans (sameBus_enter entry s.atBoundary)

end Exec
end HomeZ80
