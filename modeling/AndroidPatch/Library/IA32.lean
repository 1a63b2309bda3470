import AndroidPatch.Library.ByteMemory

/-!
Contract: the relative branches of 32-bit x86 code.

Owns:
- bytes that stand at an address, one behind the other;
- which branch stands at an address and where it goes;
- the branches in the bytes of their long forms, and in code that was moved.

Does **not** own: any other instruction, prefixes, and the branches of `loop` and `jecxz`.
-/

namespace AndroidPatch.Library.IA32

open ByteMemory

abbrev Byte := BitVec 8

abbrev Addr := BitVec 32

/-! ## Code in memory -/

/-- The bytes stand at the address. -/
def CodeAt (memory : Memory 32) (address : Addr) (code : List Byte) : Prop :=
  ∀ distance byte, code[distance]? = some byte → memory (address + BitVec.ofNat 32 distance) = byte

namespace CodeAt

variable {memory memory' : Memory 32} {address address' : Addr} {code rest : List Byte}

theorem left (stands : CodeAt memory address (code ++ rest)) : CodeAt memory address code := by
  intro distance byte isByte
  apply stands
  rw [List.getElem?_append_left (List.getElem?_eq_some_iff.mp isByte).1]
  exact isByte

theorem right (stands : CodeAt memory address (code ++ rest)) :
    CodeAt memory (address + BitVec.ofNat 32 code.length) rest := by
  intro distance byte isByte
  rw [BitVec.add_assoc, ← BitVec.ofNat_add]
  apply stands
  rw [List.getElem?_append_right (Nat.le_add_right _ _), Nat.add_sub_cancel_left]
  exact isByte

theorem read32_eq {word : BitVec 32} (stands : CodeAt memory address (bytes32 word)) :
    read32 memory address = word := by
  apply ByteMemory.read32_eq
  intro part small
  exact stands part _ (List.getElem?_eq_getElem small)

/-- What was read elsewhere stands here. -/
theorem moved {length : Nat} (stands : CodeAt memory' address' (read memory address length))
    {distance : Nat} (inside : distance < length) :
    memory' (address' + BitVec.ofNat 32 distance) =
      memory (address + BitVec.ofNat 32 distance) := by
  apply stands
  simp [ByteMemory.read, inside]

end CodeAt

theorem codeAt_write (memory : Memory 32) (address : Addr) {code : List Byte}
    (fits : code.length ≤ 2 ^ 32) : CodeAt (write memory address code) address code := by
  intro distance byte isByte
  obtain ⟨inside, isByte⟩ := List.getElem?_eq_some_iff.mp isByte
  rw [write_add memory address inside fits, isByte]

/-! ## Branches -/

/-- The branches, with the width of their displacement. -/
inductive Branch where
  | jcc8 (condition : BitVec 4)
  | jmp8
  | call32
  | jmp32
  | jcc32 (condition : BitVec 4)
deriving DecidableEq, Repr

namespace Branch

def length : Branch → Nat
  | jcc8 _ | jmp8 => 2
  | call32 | jmp32 => 5
  | jcc32 _ => 6

/-- The number behind the opcode. -/
def displacement (memory : Memory 32) (address : Addr) : Branch → BitVec 32
  | jcc8 _ | jmp8 => (memory (address + 1)).signExtend 32
  | call32 | jmp32 => read32 memory (address + 1)
  | jcc32 _ => read32 memory (address + 2)

/-- A branch goes relative to its end. -/
def goal (memory : Memory 32) (address : Addr) (branch : Branch) : Addr :=
  address + BitVec.ofNat 32 branch.length + branch.displacement memory address

end Branch

/-- The branch that stands at an address. -/
def branchAt (memory : Memory 32) (address : Addr) : Option Branch :=
  let first := memory address
  let second := memory (address + 1)
  if first.extractLsb' 4 4 = 0x7#4 then some (.jcc8 (first.extractLsb' 0 4))
  else if first = 0xEB#8 then some .jmp8
  else if first = 0xE8#8 then some .call32
  else if first = 0xE9#8 then some .jmp32
  else if first = 0x0F#8 ∧ second.extractLsb' 4 4 = 0x8#4 then some (.jcc32 (second.extractLsb' 0 4))
  else none

/-! ## Nibbles -/

theorem high_append (high low : BitVec 4) : (high ++ low).extractLsb' 4 4 = high := by
  apply BitVec.eq_of_getLsbD_eq
  intro i inside
  rw [BitVec.getLsbD_extractLsb', BitVec.getLsbD_append]
  simp [inside]

theorem low_append (high low : BitVec 4) : (high ++ low).extractLsb' 0 4 = low := by
  apply BitVec.eq_of_getLsbD_eq
  intro i inside
  rw [BitVec.getLsbD_extractLsb', BitVec.getLsbD_append]
  simp [inside]

theorem append_nibbles (byte : Byte) : byte.extractLsb' 4 4 ++ byte.extractLsb' 0 4 = byte := by
  apply BitVec.eq_of_getLsbD_eq
  intro i inside
  rw [BitVec.getLsbD_append]
  interval_cases i <;> simp

section Forms

variable {memory : Memory 32} {address : Addr}

/-- The bytes of each branch. -/
theorem branchAt_cases {branch : Branch} (stands : branchAt memory address = some branch) :
    (∃ condition, branch = .jcc8 condition ∧ memory address = 0x7#4 ++ condition) ∨
    (branch = .jmp8 ∧ memory address = 0xEB#8) ∨
    (branch = .call32 ∧ memory address = 0xE8#8) ∨
    (branch = .jmp32 ∧ memory address = 0xE9#8) ∨
    ∃ condition, branch = .jcc32 condition ∧ memory address = 0x0F#8 ∧
      memory (address + 1) = 0x8#4 ++ condition := by
  unfold branchAt at stands
  dsimp only at stands
  split_ifs at stands with isJcc8 isJmp8 isCall32 isJmp32 isJcc32
  · refine .inl ⟨_, (Option.some.inj stands).symm, ?_⟩
    rw [← isJcc8, append_nibbles]
  · exact .inr (.inl ⟨(Option.some.inj stands).symm, isJmp8⟩)
  · exact .inr (.inr (.inl ⟨(Option.some.inj stands).symm, isCall32⟩))
  · exact .inr (.inr (.inr (.inl ⟨(Option.some.inj stands).symm, isJmp32⟩)))
  · refine .inr (.inr (.inr (.inr ⟨_, (Option.some.inj stands).symm, isJcc32.1, ?_⟩)))
    rw [← isJcc32.2, append_nibbles]

theorem branchAt_jmp32 {offset : BitVec 32}
    (stands : CodeAt memory address (0xE9#8 :: bytes32 offset)) :
    branchAt memory address = some .jmp32 ∧
      Branch.jmp32.goal memory address = address + 5 + offset := by
  have first : memory address = 0xE9#8 := by simpa using stands 0 _ rfl
  have stands : CodeAt memory address ([0xE9#8] ++ bytes32 offset) := stands
  have isOffset : read32 memory (address + 1) = offset := stands.right.read32_eq
  constructor
  · simp [branchAt, first]
  · rw [Branch.goal, Branch.displacement, isOffset]
    rfl

theorem branchAt_call32 {offset : BitVec 32}
    (stands : CodeAt memory address (0xE8#8 :: bytes32 offset)) :
    branchAt memory address = some .call32 ∧
      Branch.call32.goal memory address = address + 5 + offset := by
  have first : memory address = 0xE8#8 := by simpa using stands 0 _ rfl
  have stands : CodeAt memory address ([0xE8#8] ++ bytes32 offset) := stands
  have isOffset : read32 memory (address + 1) = offset := stands.right.read32_eq
  constructor
  · simp [branchAt, first]
  · rw [Branch.goal, Branch.displacement, isOffset]
    rfl

theorem branchAt_jcc32 {condition : BitVec 4} {offset : BitVec 32}
    (stands : CodeAt memory address (0x0F#8 :: (0x8#4 ++ condition) :: bytes32 offset)) :
    branchAt memory address = some (.jcc32 condition) ∧
      (Branch.jcc32 condition).goal memory address = address + 6 + offset := by
  have first : memory address = 0x0F#8 := by simpa using stands 0 _ rfl
  have second : memory (address + 1) = 0x8#4 ++ condition := stands 1 _ rfl
  have stands : CodeAt memory address ([0x0F#8, 0x8#4 ++ condition] ++ bytes32 offset) := stands
  have isOffset : read32 memory (address + 2) = offset := stands.right.read32_eq
  constructor
  · unfold branchAt
    dsimp only
    rw [first, second, high_append, low_append]
    simp
  · rw [Branch.goal, Branch.displacement, isOffset]
    rfl

end Forms

/-- A branch that was moved goes as far as before, so its goal moves with it. -/
theorem branchAt_moved {memory memory' : Memory 32} {address address' : Addr} {branch : Branch}
    (stands : branchAt memory address = some branch)
    (same : ∀ distance < branch.length, memory' (address' + BitVec.ofNat 32 distance) =
      memory (address + BitVec.ofNat 32 distance)) :
    branchAt memory' address' = some branch ∧
      branch.goal memory' address' = branch.goal memory address + (address' - address) := by
  have far : 2 ≤ branch.length := by cases branch <;> simp [Branch.length]
  have first : memory' address' = memory address := by
    simpa using same 0 (by omega)
  have second : memory' (address' + 1) = memory (address + 1) := same 1 (by omega)
  have word (start : Nat) (inside : start + 4 ≤ branch.length) :
      read32 memory' (address' + BitVec.ofNat 32 start) =
        read32 memory (address + BitVec.ofNat 32 start) := by
    have part (index : Nat) (small : index < 4) :
        memory' (address' + BitVec.ofNat 32 start + BitVec.ofNat 32 index) =
          memory (address + BitVec.ofNat 32 start + BitVec.ofNat 32 index) := by
      rw [BitVec.add_assoc, BitVec.add_assoc, ← BitVec.ofNat_add]
      exact same _ (by omega)
    have start := part 0 (by omega)
    rw [show BitVec.ofNat 32 0 = 0#32 from rfl, BitVec.add_zero, BitVec.add_zero] at start
    unfold read32
    rw [start, part 1 (by omega), part 2 (by omega), part 3 (by omega)]
  have isDisplacement : branch.displacement memory' address' =
      branch.displacement memory address := by
    cases branch with
    | jcc8 condition => rw [Branch.displacement, second, Branch.displacement]
    | jmp8 => rw [Branch.displacement, second, Branch.displacement]
    | call32 => exact word 1 (by decide)
    | jmp32 => exact word 1 (by decide)
    | jcc32 condition => exact word 2 (Nat.le_refl 6)
  constructor
  · unfold branchAt
    rw [first, second]
    exact stands
  · rw [Branch.goal, Branch.goal, isDisplacement]
    generalize branch.displacement memory address = offset
    generalize BitVec.ofNat 32 branch.length = size
    grind

end AndroidPatch.Library.IA32
