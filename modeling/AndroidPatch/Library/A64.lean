import Mathlib.Data.Set.Insert
import Mathlib.Logic.Function.Iterate
import AndroidPatch.Library.ByteMemory

/-!
Contract: a processor that executes A64 instructions.

Owns:
- the instructions that read their own address, branches through a register and the
  few moves and loads that code generators put in their place, as the architecture
  decodes and executes them;
- one step of the processor, runs, and a pass: a run until the first jump;
- agreement of two states up to some registers and some bytes of the memory.

Every other instruction is executed by a parameter, which gets the address of the
instruction and may do anything.
-/

namespace AndroidPatch.Library.A64

open ByteMemory

universe u

abbrev Word := BitVec 32
abbrev Addr := BitVec 64
abbrev Reg := BitVec 5

inductive Instr where
  | ldrLiteral (rt : Reg) (imm19 : BitVec 19)
  | adr (rd : Reg) (imm21 : BitVec 21)
  | adrp (rd : Reg) (imm21 : BitVec 21)
  | b (imm26 : BitVec 26)
  | bl (imm26 : BitVec 26)
  | testBranch (nonzero : Bool) (position : BitVec 6) (rt : Reg) (imm14 : BitVec 14)
  | compareBranch (nonzero wide : Bool) (rt : Reg) (imm19 : BitVec 19)
  | branchIf (cond : BitVec 4) (imm19 : BitVec 19)
  | movz (rd : Reg) (hw : BitVec 2) (imm16 : BitVec 16)
  | movk (rd : Reg) (hw : BitVec 2) (imm16 : BitVec 16)
  | ldr (rt rn : Reg) (imm12 : BitVec 12)
  | add (rd rn : Reg) (imm12 : BitVec 12)
  | br (rn : Reg)
  | blr (rn : Reg)
  | nop
  | other
deriving DecidableEq, Repr

/-- The fields of a word. -/
def field (word : Word) (low width : Nat) : BitVec width := word.extractLsb' low width

def decode (word : Word) : Instr :=
  if word &&& 0xFF000000 = 0x58000000 then .ldrLiteral (field word 0 5) (field word 5 19)
  else if word &&& 0x9F000000 = 0x10000000 then
    .adr (field word 0 5) (field word 5 19 ++ field word 29 2)
  else if word &&& 0x9F000000 = 0x90000000 then
    .adrp (field word 0 5) (field word 5 19 ++ field word 29 2)
  else if word &&& 0xFC000000 = 0x14000000 then .b (field word 0 26)
  else if word &&& 0xFC000000 = 0x94000000 then .bl (field word 0 26)
  else if word &&& 0x7E000000 = 0x36000000 then
    .testBranch (word.getLsbD 24) (field word 31 1 ++ field word 19 5) (field word 0 5)
      (field word 5 14)
  else if word &&& 0x7E000000 = 0x34000000 then
    .compareBranch (word.getLsbD 24) (word.getLsbD 31) (field word 0 5) (field word 5 19)
  else if word &&& 0xFF000010 = 0x54000000 then .branchIf (field word 0 4) (field word 5 19)
  else if word &&& 0xFF800000 = 0xD2800000 then
    .movz (field word 0 5) (field word 21 2) (field word 5 16)
  else if word &&& 0xFF800000 = 0xF2800000 then
    .movk (field word 0 5) (field word 21 2) (field word 5 16)
  -- register 31 is the stack pointer in the next two: they are left to the parameter
  else if word &&& 0xFFC00000 = 0xF9400000 ∧ field word 5 5 ≠ 31 then
    .ldr (field word 0 5) (field word 5 5) (field word 10 12)
  else if word &&& 0xFFC00000 = 0x91000000 ∧ field word 0 5 ≠ 31 ∧ field word 5 5 ≠ 31 then
    .add (field word 0 5) (field word 5 5) (field word 10 12)
  else if word &&& 0xFFFFFC1F = 0xD61F0000 then .br (field word 5 5)
  else if word &&& 0xFFFFFC1F = 0xD63F0000 then .blr (field word 5 5)
  else if word = 0xD503201F then .nop
  else .other

/-! ## Decoding by class -/

/-- The known bits of a word tell that it is not of a class. -/
theorem and_ne {n : Nat} {word known value mask class_ : BitVec n} (isKnown : word &&& known = value)
    (differs : value &&& mask ≠ class_ &&& known) : word &&& mask ≠ class_ := by
  rintro rfl
  apply differs
  rw [← isKnown, BitVec.and_assoc, BitVec.and_assoc, BitVec.and_comm known mask]

/-- One more bit of a word. -/
theorem and_or_twoPow {n : Nat} {word mask value : BitVec n} (isKnown : word &&& mask = value)
    (bit : Nat) :
    word &&& (mask ||| .twoPow n bit) = value ∨
      word &&& (mask ||| .twoPow n bit) = value ||| .twoPow n bit := by
  rw [BitVec.and_or_distrib_left, isKnown, BitVec.and_twoPow]
  split
  · exact .inr rfl
  · exact .inl (BitVec.or_zero ..)

theorem decode_ldrLiteral {word : Word} (isClass : word &&& 0xFF000000 = 0x58000000) :
    decode word = .ldrLiteral (field word 0 5) (field word 5 19) :=
  if_pos isClass

theorem decode_adr {word : Word} (isClass : word &&& 0x9F000000 = 0x10000000) :
    decode word = .adr (field word 0 5) (field word 5 19 ++ field word 29 2) := by
  unfold decode
  rw [if_neg (and_ne isClass (by decide)), if_pos isClass]

theorem decode_adrp {word : Word} (isClass : word &&& 0x9F000000 = 0x90000000) :
    decode word = .adrp (field word 0 5) (field word 5 19 ++ field word 29 2) := by
  unfold decode
  iterate 2 rw [if_neg (and_ne isClass (by decide))]
  rw [if_pos isClass]

theorem decode_b {word : Word} (isClass : word &&& 0xFC000000 = 0x14000000) :
    decode word = .b (field word 0 26) := by
  unfold decode
  iterate 3 rw [if_neg (and_ne isClass (by decide))]
  rw [if_pos isClass]

theorem decode_bl {word : Word} (isClass : word &&& 0xFC000000 = 0x94000000) :
    decode word = .bl (field word 0 26) := by
  unfold decode
  iterate 4 rw [if_neg (and_ne isClass (by decide))]
  rw [if_pos isClass]

theorem decode_testBranch {word : Word} (isClass : word &&& 0x7E000000 = 0x36000000) :
    decode word = .testBranch (word.getLsbD 24) (field word 31 1 ++ field word 19 5)
      (field word 0 5) (field word 5 14) := by
  unfold decode
  iterate 5 rw [if_neg (and_ne isClass (by decide))]
  rw [if_pos isClass]

theorem decode_compareBranch {word : Word} (isClass : word &&& 0x7E000000 = 0x34000000) :
    decode word = .compareBranch (word.getLsbD 24) (word.getLsbD 31) (field word 0 5)
      (field word 5 19) := by
  unfold decode
  iterate 6 rw [if_neg (and_ne isClass (by decide))]
  rw [if_pos isClass]

theorem decode_branchIf {word : Word} (isClass : word &&& 0xFF000010 = 0x54000000) :
    decode word = .branchIf (field word 0 4) (field word 5 19) := by
  unfold decode
  iterate 7 rw [if_neg (and_ne isClass (by decide))]
  rw [if_pos isClass]

theorem decode_movz {word : Word} (isClass : word &&& 0xFF800000 = 0xD2800000) :
    decode word = .movz (field word 0 5) (field word 21 2) (field word 5 16) := by
  unfold decode
  iterate 8 rw [if_neg (and_ne isClass (by decide))]
  rw [if_pos isClass]

theorem decode_movk {word : Word} (isClass : word &&& 0xFF800000 = 0xF2800000) :
    decode word = .movk (field word 0 5) (field word 21 2) (field word 5 16) := by
  unfold decode
  iterate 9 rw [if_neg (and_ne isClass (by decide))]
  rw [if_pos isClass]

theorem decode_ldr {word : Word} (isClass : word &&& 0xFFC00000 = 0xF9400000)
    (proper : field word 5 5 ≠ 31) :
    decode word = .ldr (field word 0 5) (field word 5 5) (field word 10 12) := by
  unfold decode
  iterate 10 rw [if_neg (and_ne isClass (by decide))]
  rw [if_pos ⟨isClass, proper⟩]

theorem decode_add {word : Word} (isClass : word &&& 0xFFC00000 = 0x91000000)
    (proper : field word 0 5 ≠ 31) (proper' : field word 5 5 ≠ 31) :
    decode word = .add (field word 0 5) (field word 5 5) (field word 10 12) := by
  unfold decode
  iterate 10 rw [if_neg (and_ne isClass (by decide))]
  rw [if_neg fun both => and_ne isClass (by decide) both.1, if_pos ⟨isClass, proper, proper'⟩]

theorem decode_blr {word : Word} (isClass : word &&& 0xFFFFFC1F = 0xD63F0000) :
    decode word = .blr (field word 5 5) := by
  unfold decode
  iterate 10 rw [if_neg (and_ne isClass (by decide))]
  iterate 2 rw [if_neg fun both => and_ne isClass (by decide) both.1]
  rw [if_neg (and_ne isClass (by decide)), if_pos isClass]

/-! ## State -/

/-- The state of the processor besides the program counter. `rest` is everything that
the instructions above neither read nor change. -/
structure State (σ : Type u) where
  x : Reg → BitVec 64
  nzcv : BitVec 4
  rest : σ
  mem : Memory 64

namespace State

variable {σ : Type u}

/-- Register 31 reads as zero. -/
def reg (state : State σ) (r : Reg) : BitVec 64 := if r = 31 then 0 else state.x r

/-- A write to register 31 is dropped. -/
def setReg (state : State σ) (r : Reg) (value : BitVec 64) : State σ :=
  if r = 31 then state else { state with x := Function.update state.x r value }

@[simp]
theorem setReg_nzcv (state : State σ) (r : Reg) (value : BitVec 64) :
    (state.setReg r value).nzcv = state.nzcv := by
  unfold setReg
  split <;> rfl

@[simp]
theorem setReg_rest (state : State σ) (r : Reg) (value : BitVec 64) :
    (state.setReg r value).rest = state.rest := by
  unfold setReg
  split <;> rfl

@[simp]
theorem setReg_mem (state : State σ) (r : Reg) (value : BitVec 64) :
    (state.setReg r value).mem = state.mem := by
  unfold setReg
  split <;> rfl

theorem setReg_x_of_ne (state : State σ) {r other : Reg} (value : BitVec 64)
    (different : other ≠ r) : (state.setReg r value).x other = state.x other := by
  unfold setReg
  split
  · rfl
  · exact Function.update_of_ne different _ _

theorem setReg_x_self (state : State σ) {r : Reg} (value : BitVec 64) (proper : r ≠ 31) :
    (state.setReg r value).x r = value := by
  unfold setReg
  rw [if_neg proper]
  exact Function.update_self _ _ _

theorem reg_setReg_self (state : State σ) {r : Reg} (value : BitVec 64) (proper : r ≠ 31) :
    (state.setReg r value).reg r = value := by
  unfold reg
  rw [if_neg proper, setReg_x_self state value proper]

theorem setReg_setReg (state : State σ) (r : Reg) (first second : BitVec 64) :
    (state.setReg r first).setReg r second = state.setReg r second := by
  unfold setReg
  split
  · rfl
  · simp

end State

/-- Condition flags, as `B.cond` reads them. -/
def conditionHolds (cond nzcv : BitVec 4) : Bool :=
  let n := nzcv.getLsbD 3
  let z := nzcv.getLsbD 2
  let c := nzcv.getLsbD 1
  let v := nzcv.getLsbD 0
  let holds := match (cond.extractLsb' 1 3).toNat with
    | 0 => z
    | 1 => c
    | 2 => n
    | 3 => v
    | 4 => c && !z
    | 5 => n == v
    | 6 => n == v && !z
    | _ => true
  if cond.getLsbD 0 && cond != 15 then !holds else holds

/-- Flipping the lowest bit of a condition negates it, unless the condition is always. -/
theorem conditionHolds_flip (cond nzcv : BitVec 4) (proper : cond < 14) :
    conditionHolds (cond ^^^ 1) nzcv = !conditionHolds cond nzcv := by
  revert cond nzcv
  decide

/-- The value that half `hw` of a register gets in `MOVK`. -/
def insertHalf (value : BitVec 64) (hw : BitVec 2) (imm16 : BitVec 16) : BitVec 64 :=
  (value &&& ~~~((0xFFFF : BitVec 64) <<< (16 * hw.toNat))) |||
    (imm16.setWidth 64 <<< (16 * hw.toNat))

/-- A distance in instructions. -/
def distance {n : Nat} (imm : BitVec n) : Addr := (imm ++ 0#2).signExtend 64

def page (address : Addr) : Addr := address &&& ~~~(0xFFF : Addr)

variable {σ : Type u}

/-- What a processor does on an instruction that is not modelled here: the state it
leaves, and where it jumps, if it does. -/
abbrev Cpu (σ : Type u) := Word → Addr → State σ → State σ × Option Addr

def jumpIf (state : State σ) (taken : Bool) (target : Addr) : State σ × Option Addr :=
  (state, if taken then some target else none)

/-- One instruction, at an address. -/
def exec (cpu : Cpu σ) (word : Word) (pc : Addr) (state : State σ) : State σ × Option Addr :=
  match decode word with
  | .ldrLiteral rt imm19 => (state.setReg rt (read64 state.mem (pc + distance imm19)), none)
  | .adr rd imm21 => (state.setReg rd (pc + imm21.signExtend 64), none)
  | .adrp rd imm21 => (state.setReg rd (page pc + imm21.signExtend 64 <<< 12), none)
  | .b imm26 => (state, some (pc + distance imm26))
  | .bl imm26 => (state.setReg 30 (pc + 4#64), some (pc + distance imm26))
  | .testBranch nonzero position rt imm14 =>
      jumpIf state ((state.reg rt).getLsbD position.toNat == nonzero) (pc + distance imm14)
  | .compareBranch nonzero wide rt imm19 =>
      let value := if wide then state.reg rt else (state.reg rt).setWidth 32 |>.setWidth 64
      jumpIf state ((value != 0) == nonzero) (pc + distance imm19)
  | .branchIf cond imm19 =>
      jumpIf state (conditionHolds cond state.nzcv) (pc + distance imm19)
  | .movz rd hw imm16 => (state.setReg rd (insertHalf 0 hw imm16), none)
  | .movk rd hw imm16 => (state.setReg rd (insertHalf (state.reg rd) hw imm16), none)
  | .ldr rt rn imm12 =>
      (state.setReg rt (read64 state.mem (state.reg rn + imm12.setWidth 64 <<< 3)), none)
  | .add rd rn imm12 => (state.setReg rd (state.reg rn + imm12.setWidth 64), none)
  | .br rn => (state, some (state.reg rn))
  -- the target is read before the link register is written
  | .blr rn => (state.setReg 30 (pc + 4#64), some (state.reg rn))
  | .nop => (state, none)
  | .other => cpu word pc state

/-- A processor with its program counter. -/
abbrev Machine (σ : Type u) := Addr × State σ

/-- Fetch and execute. -/
def step (cpu : Cpu σ) (machine : Machine σ) : Machine σ :=
  let result := exec cpu (read32 machine.2.mem machine.1) machine.1 machine.2
  (result.2.getD (machine.1 + 4#64), result.1)

/-- The machine comes to be like that. -/
def Reaches (cpu : Cpu σ) (machine machine' : Machine σ) : Prop :=
  ∃ count, (step cpu)^[count] machine = machine'

theorem Reaches.refl (cpu : Cpu σ) (machine : Machine σ) : Reaches cpu machine machine :=
  ⟨0, rfl⟩

theorem Reaches.trans {cpu : Cpu σ} {first second third : Machine σ}
    (early : Reaches cpu first second) (late : Reaches cpu second third) :
    Reaches cpu first third := by
  obtain ⟨early, rfl⟩ := early
  obtain ⟨late, rfl⟩ := late
  exact ⟨late + early, Function.iterate_add_apply _ _ _ _⟩

/-- The instruction at the program counter is executed first. -/
theorem Reaches.head {cpu : Cpu σ} {machine machine' : Machine σ} {word : Word}
    {result : State σ × Option Addr}
    (fetched : read32 machine.2.mem machine.1 = word)
    (executed : exec cpu word machine.1 machine.2 = result)
    (late : Reaches cpu (result.2.getD (machine.1 + 4#64), result.1) machine') :
    Reaches cpu machine machine' := by
  refine Reaches.trans ⟨1, ?_⟩ late
  rw [Function.iterate_one, step, fetched, executed]

/-- A run of at most so many instructions, which ends with the first that jumps. -/
def onePass (cpu : Cpu σ) : Nat → Machine σ → Machine σ
  | 0, machine => machine
  | count + 1, machine =>
      match exec cpu (read32 machine.2.mem machine.1) machine.1 machine.2 with
      | (state, none) => onePass cpu count (machine.1 + 4#64, state)
      | (state, some target) => (target, state)

theorem reaches_onePass (cpu : Cpu σ) (count : Nat) (machine : Machine σ) :
    Reaches cpu machine (onePass cpu count machine) := by
  induction count generalizing machine with
  | zero => exact .refl cpu machine
  | succ count inductionHypothesis =>
      unfold onePass
      split
      case _ state executed =>
        exact .head rfl executed (inductionHypothesis _)
      case _ state target executed =>
        exact .head rfl executed (.refl cpu _)

/-- The property holds of every instruction of a pass, where it is executed. -/
def Along (cpu : Cpu σ) (property : Word → Addr → State σ → Prop) : Nat → Machine σ → Prop
  | 0, _ => True
  | count + 1, machine =>
      property (read32 machine.2.mem machine.1) machine.1 machine.2 ∧
        ∀ state, exec cpu (read32 machine.2.mem machine.1) machine.1 machine.2 = (state, none) →
          Along cpu property count (machine.1 + 4#64, state)

/-! ## Agreement -/

/-- The states are alike besides some registers and some bytes of the memory. -/
structure Agrees (hidden : Set Reg) (unlike : Set Addr) (state state' : State σ) : Prop where
  x : ∀ r, r ∉ hidden → state'.x r = state.x r
  nzcv : state'.nzcv = state.nzcv
  rest : state'.rest = state.rest
  mem : ∀ address, address ∉ unlike → state'.mem address = state.mem address

namespace Agrees

variable {hidden : Set Reg} {unlike : Set Addr} {state state' : State σ}

theorem refl (state : State σ) : Agrees hidden unlike state state where
  x _ _ := rfl
  nzcv := rfl
  rest := rfl
  mem _ _ := rfl

theorem trans {state'' : State σ} (first : Agrees hidden unlike state state')
    (second : Agrees hidden unlike state' state'') : Agrees hidden unlike state state'' where
  x r visible := (second.x r visible).trans (first.x r visible)
  nzcv := second.nzcv.trans first.nzcv
  rest := second.rest.trans first.rest
  mem address alike := (second.mem address alike).trans (first.mem address alike)

theorem mono {hidden' : Set Reg} {unlike' : Set Addr} (agrees : Agrees hidden unlike state state')
    (more : hidden ⊆ hidden') (moreBytes : unlike ⊆ unlike') :
    Agrees hidden' unlike' state state' where
  x r visible := agrees.x r fun isHidden => visible (more isHidden)
  nzcv := agrees.nzcv
  rest := agrees.rest
  mem address alike := agrees.mem address fun isUnlike => alike (moreBytes isUnlike)

theorem reg_eq (agrees : Agrees hidden unlike state state') {r : Reg} (visible : r ∉ hidden) :
    state'.reg r = state.reg r := by
  unfold State.reg
  rw [agrees.x r visible]

/-- Both states get the same value. -/
theorem setReg (agrees : Agrees hidden unlike state state') (r : Reg) (value : BitVec 64) :
    Agrees hidden unlike (state.setReg r value) (state'.setReg r value) where
  x other visible := by
    unfold State.setReg
    split
    · exact agrees.x other visible
    · rcases eq_or_ne other r with rfl | different
      · simp
      · simp only [Function.update_of_ne different]
        exact agrees.x other visible
  nzcv := by simpa using agrees.nzcv
  rest := by simpa using agrees.rest
  mem := by simpa using agrees.mem

/-- A hidden register of the second state gets a value. -/
theorem setReg_right (agrees : Agrees hidden unlike state state') {r : Reg} (value : BitVec 64)
    (isHidden : r ∈ hidden) : Agrees hidden unlike state (state'.setReg r value) where
  x other visible := by
    rw [State.setReg_x_of_ne]
    · exact agrees.x other visible
    · rintro rfl
      exact visible isHidden
  nzcv := by simpa using agrees.nzcv
  rest := by simpa using agrees.rest
  mem := by simpa using agrees.mem

/-- A hidden register gets a value in each state. -/
theorem setReg_hidden (agrees : Agrees hidden unlike state state') {r : Reg}
    (value value' : BitVec 64) (isHidden : r ∈ hidden) :
    Agrees hidden unlike (state.setReg r value) (state'.setReg r value') := by
  have overwritten := (agrees.setReg r value).setReg_right value' isHidden
  rwa [State.setReg_setReg] at overwritten

theorem read64_eq (agrees : Agrees hidden unlike state state') {address : Addr}
    (alike : ∀ part < 8, address + BitVec.ofNat 64 part ∉ unlike) :
    read64 state'.mem address = read64 state.mem address :=
  read64_congr fun part small => agrees.mem _ (alike part small)

end Agrees

end AndroidPatch.Library.A64
