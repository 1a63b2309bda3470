import AndroidPatch.Dobby.Arm64.Emitted

/-!
Contract: running the code that the assembler emits.

Owns:
- words at a place of a buffer that stands in memory, and stepping through them;
- what each emitted piece does: the moves that build a value, the load that was linked to
  the pool, the branches through the temporary register.
-/

namespace AndroidPatch.Dobby.Arm64

open Library.A64 Library.ByteMemory TurboAssembler

universe u
variable {σ : Type u} (cpu : Cpu σ)

/-- The address of a word. -/
def wordAt (start : Addr) (index : Nat) : Addr := start + BitVec.ofNat 64 (4 * index)

theorem wordAt_add (start : Addr) (index more : Nat) :
    wordAt (wordAt start index) more = wordAt start (index + more) := by
  unfold wordAt
  rw [BitVec.add_assoc, ← BitVec.ofNat_add, Nat.mul_add]

theorem wordAt_succ (start : Addr) (index : Nat) :
    wordAt start index + 4#64 = wordAt start (index + 1) :=
  wordAt_add start index 1

/-- The words stand in the buffer, from a place on. -/
def At (buffer : List Word) (place : Nat) (words : List Word) : Prop :=
  ∀ index word, words[index]? = some word → buffer[place + index]? = some word

theorem At.head {buffer words : List Word} {place : Nat} {word : Word}
    (stands : At buffer place (word :: words)) : buffer[place]? = some word :=
  stands 0 word rfl

theorem At.tail {buffer words : List Word} {place : Nat} {word : Word}
    (stands : At buffer place (word :: words)) : At buffer (place + 1) words := by
  intro index next isNext
  rw [Nat.add_assoc, Nat.add_comm 1]
  exact stands (index + 1) next isNext

theorem At.left {buffer first second : List Word} {place : Nat}
    (stands : At buffer place (first ++ second)) : At buffer place first := by
  intro index word isWord
  apply stands
  rw [List.getElem?_append_left (List.getElem?_eq_some_iff.mp isWord).1, isWord]

theorem At.right {buffer first second : List Word} {place : Nat}
    (stands : At buffer place (first ++ second)) :
    At buffer (place + first.length) second := by
  intro index word isWord
  rw [Nat.add_assoc]
  apply stands
  rw [List.getElem?_append_right (Nat.le_add_right _ _), Nat.add_sub_cancel_left, isWord]

section Steps

variable {cpu} {start : Addr} {buffer : List Word} {state : State σ} {place : Nat} {word : Word}
variable (holds : Holds state.mem start buffer)
include holds

/-- A word that does not jump. -/
theorem reaches_next (isWord : buffer[place]? = some word) {after : State σ}
    (executed : exec cpu word (wordAt start place) state = (after, none)) :
    Reaches cpu (wordAt start place, state) (wordAt start (place + 1), after) := by
  refine .head (holds place word isWord) executed ?_
  rw [Option.getD_none, wordAt_succ]
  exact .refl cpu _

/-- A word that jumps. -/
theorem reaches_jump (isWord : buffer[place]? = some word) {after : State σ} {target : Addr}
    (executed : exec cpu word (wordAt start place) state = (after, some target)) :
    Reaches cpu (wordAt start place, state) (target, after) :=
  .head (holds place word isWord) executed (.refl cpu _)

end Steps

/-! ## Emitted code -/

theorem exec_nop (pc : Addr) (state : State σ) :
    exec cpu 0xD503201F pc state = (state, none) := by
  have decoded : decode 0xD503201F = .nop := by decide
  simp only [exec, decoded]

/-- The branch through the temporary register. -/
def branchTmpWord (link : Bool) : Word :=
  (if link then 0xD63F0000 else 0xD61F0000) ||| Rn tmpReg0

theorem exec_branchTmp (pc : Addr) (state : State σ) (link : Bool) :
    exec cpu (branchTmpWord link) pc state =
      (if link then state.setReg 30 (pc + 4#64) else state, some (state.x 17)) := by
  cases link with
  | false =>
      have decoded : decode (branchTmpWord false) = .br 17 := by decide
      simp only [exec, decoded]
      rfl
  | true =>
      have decoded : decode (branchTmpWord true) = .blr 17 := by decide
      simp only [exec, decoded]
      rfl

theorem exec_ldrTmp (pc : Addr) (state : State σ) (rt : Reg) :
    exec cpu (ldrTmpWord rt) pc state = (state.setReg rt (read64 state.mem (state.x 17)), none) := by
  simp only [exec, decode_ldrTmpWord]
  simp [State.reg]

theorem distance_ofNat {count : Nat} (small : count < 2 ^ 18) :
    distance (BitVec.ofNat 19 count) = BitVec.ofNat 64 (4 * count) := by
  have positive : (BitVec.ofNat 19 count ++ 0#2).msb = false := by
    rw [BitVec.msb_eq_false_iff_two_mul_lt, BitVec.toNat_append, Nat.shiftLeft_eq]
    simp
    omega
  unfold distance
  rw [BitVec.signExtend_eq_setWidth_of_msb_false positive, ← setWidth_shiftLeft_two _ (by omega)]
  apply BitVec.eq_of_toNat_eq
  simp [Nat.shiftLeft_eq]
  omega

/-- The load that was linked gets the data from the pool. -/
theorem exec_linked {buffer : List Word} {start : Addr} {state : State σ}
    (holds : Holds state.mem start buffer) {position : Nat} {data : BitVec 64}
    (loads : LoadsLiteral buffer position data) (small : buffer.length ≤ 2 ^ 18) :
    ∃ word, buffer[position]? = some word ∧
      exec cpu word (wordAt start position) state = (state.setReg 17 data, none) := by
  obtain ⟨place, before, isWord, isLow, isHigh⟩ := loads
  refine ⟨_, isWord, ?_⟩
  have inside := (List.getElem?_eq_some_iff.mp isHigh).1
  have offset : (BitVec.ofInt 32 ((4 * (place : Int) - 4 * position) >>> (2 : Nat))).setWidth 19 =
      BitVec.ofNat 19 (place - position) := by
    rw [show (4 * (place : Int) - 4 * position) >>> (2 : Nat) = ((place - position : Nat) : Int) by
      rw [Int.shiftRight_eq_div_pow]; omega]
    apply BitVec.eq_of_toNat_eq
    simp
  have target : wordAt start position + distance (BitVec.ofNat 19 (place - position)) =
      wordAt start place := by
    rw [distance_ofNat (by omega)]
    exact (wordAt_add start position (place - position)).trans
      (congrArg (wordAt start) (by omega))
  have found : read64 state.mem (wordAt start place) = data := by
    rw [show wordAt start place = start + BitVec.ofNat 64 (4 * place) from rfl,
      holds.read64_eq isLow isHigh]
    exact halves_append data
  simp only [exec, PseudoLabel.encodeLdrLiteral, decode_linked, offset, target, found]

/-- The four moves that build a value. -/
def movWords (rd : Reg) (imm : BitVec 64) : List Word :=
  [moveWideWord (X rd) (imm.extractLsb' 0 16) 0 0x40000000,
    moveWideWord (X rd) (imm.extractLsb' 16 16) 16 0x60000000,
    moveWideWord (X rd) (imm.extractLsb' 32 16) 32 0x60000000,
    moveWideWord (X rd) (imm.extractLsb' 48 16) 48 0x60000000]

theorem mov_buffer (assembler : TurboAssembler) (rd : Reg) (imm : BitVec 64) :
    assembler.mov (X rd) imm = ⟨assembler.buffer ++ movWords rd imm, assembler.dataLabels⟩ := by
  simp [mov, movz, movk, emit, movWords]

theorem insertHalves (imm : BitVec 64) :
    insertHalf (insertHalf (insertHalf (insertHalf 0 0 (imm.extractLsb' 0 16)) 1
      (imm.extractLsb' 16 16)) 2 (imm.extractLsb' 32 16)) 3 (imm.extractLsb' 48 16) = imm := by
  ext i inside
  simp only [insertHalf]
  interval_cases i <;> simp

theorem exec_movz (pc : Addr) (state : State σ) (rd : Reg) (imm : BitVec 16) :
    exec cpu (moveWideWord (X rd) imm 0 0x40000000) pc state =
      (state.setReg rd (insertHalf 0 0 imm), none) := by
  simp only [exec, decode_movzWord]

/-- A half is put into the value that was built so far. -/
theorem exec_movk_setReg (pc : Addr) (state : State σ) (rd : Reg) (value : BitVec 64)
    (hw : BitVec 2) (imm : BitVec 16) :
    exec cpu (moveWideWord (X rd) imm (16 * hw.toNat) 0x60000000) pc (state.setReg rd value) =
      (state.setReg rd (insertHalf value hw imm), none) := by
  simp only [exec, decode_movkWord, State.setReg_setReg]
  by_cases isZero : rd = 31
  · simp [State.setReg, isZero]
  · rw [State.reg_setReg_self state value isZero]

/-- The moves put the value into the register. -/
theorem reaches_mov {start : Addr} {buffer : List Word} {state : State σ} {place : Nat}
    (holds : Holds state.mem start buffer) {rd : Reg} {imm : BitVec 64}
    (stands : At buffer place (movWords rd imm)) :
    Reaches cpu (wordAt start place, state) (wordAt start (place + 4), state.setReg rd imm) := by
  have holdsSet (value : BitVec 64) : Holds (state.setReg rd value).mem start buffer := by
    rwa [State.setReg_mem]
  refine (reaches_next holds stands.head (exec_movz ..)).trans ?_
  refine (reaches_next (holdsSet _) stands.tail.head
    (exec_movk_setReg cpu _ state rd _ 1 _)).trans ?_
  refine (reaches_next (holdsSet _) stands.tail.tail.head
    (exec_movk_setReg cpu _ state rd _ 2 _)).trans ?_
  have last : Reaches cpu _ _ := reaches_next (holdsSet _) stands.tail.tail.tail.head
    (exec_movk_setReg cpu _ state rd (insertHalf (insertHalf (insertHalf 0 0
      (imm.extractLsb' 0 16)) 1 (imm.extractLsb' 16 16)) 2 (imm.extractLsb' 32 16)) 3 _)
  rwa [insertHalves] at last

end AndroidPatch.Dobby.Arm64
