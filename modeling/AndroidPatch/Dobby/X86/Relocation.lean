import AndroidPatch.Dobby.MemoryArena
import AndroidPatch.Library.IA32

/-!
Contract: moving x86 instructions out of the way of a trampoline.

Owns:
- `GenRelocateCodeFixed`: the instructions one by one, and the jump back behind them;
- `GenRelocateCodeAndBranch`: larger chunks until the code fits;
- where every branch goes after it was moved, which is often not where it went before.

Does **not** own: the decoder. `x86_insn_decode` looks for operands past the end of its
table, so what it answers depends on what lies there. Here it is any function that uses up
the opcode at least, and the results about branches ask of it that it reads these well.

This is the build without `LOGGING_DEBUG`, where `UNIMPLEMENTED` does nothing. Offsets are
numbers: no function goes round the end of the address space.
-/

namespace AndroidPatch.Dobby.X86

open Library.IA32 Library.ByteMemory

/-- `x86_insn_decode_t`, as far as the relocation reads it. -/
structure Insn where
  length : Nat
  primaryOpcode : Byte
  immediate : BitVec 64
  immediateOffset : Nat
deriving DecidableEq, Repr

/-- `x86_insn_decode` -/
structure Decoder where
  decode : Memory 32 → Addr → Insn
  length_pos : ∀ memory address, 0 < (decode memory address).length

/-- What one instruction is replaced by. -/
def relocateInsn (memory : Memory 32) (bufferCursor : Addr) (insn : Insn)
    (currOrigIp currReloIp : BitVec 64) : List Byte :=
  let opcode := insn.primaryOpcode
  if 0x70#8 ≤ opcode ∧ opcode ≤ 0x7F#8 then
    -- jc rel8
    let origOffset : BitVec 8 := insn.immediate.setWidth 8
    let newOffset : BitVec 32 := (currOrigIp + origOffset.signExtend 64 - currReloIp).setWidth 32
    [0x0F#8, 0x80#8 ||| (opcode &&& 0x0F#8)] ++ bytes32 newOffset
  else if opcode = 0xEB#8 then
    -- jmp rel8, whose new offset is cut to 8 bits too
    let origOffset : BitVec 8 := insn.immediate.setWidth 8
    let newOffset : BitVec 8 := (currOrigIp + origOffset.signExtend 64 - currReloIp).setWidth 8
    [0xE9#8] ++ bytes32 (newOffset.signExtend 32)
  else if opcode = 0xE8#8 ∨ opcode = 0xE9#8 then
    -- call or jmp rel32
    let origOffset : BitVec 32 := insn.immediate.setWidth 32
    let offset : BitVec 32 := (currOrigIp + origOffset.signExtend 64 - currReloIp).setWidth 32
    read memory bufferCursor insn.immediateOffset ++ bytes32 offset
  else if 0xE0#8 ≤ opcode ∧ opcode ≤ 0xE3#8 then
    -- the loops and jecxz are not implemented
    []
  else
    read memory bufferCursor insn.length

/-- `CodeGen::JmpNear` -/
def jmpNear (currentIP address : Addr) : List Byte :=
  let currIP := currentIP + 5
  0xE9#8 :: bytes32 (address - currIP)

/-- `GenerateNormalTrampolineBuffer` -/
def generateNormalTrampolineBuffer (source target : Addr) : List Byte := jmpNear source target

section Relocation

variable (decoder : Decoder) (memory : Memory 32) (buffer : Addr)

/-- The instruction at an offset. -/
def insnAt (offset : Nat) : Insn := decoder.decode memory (buffer + BitVec.ofNat 32 offset)

/-- What the instruction at an offset is replaced by, at an offset of the new code. -/
def pieceAt (origin relocated : MemoryChunk) (offset reloOffset : Nat) : List Byte :=
  relocateInsn memory (buffer + BitVec.ofNat 32 offset) (insnAt decoder memory buffer offset)
    (BitVec.ofNat 64 (origin.address + offset)) (BitVec.ofNat 64 (relocated.address + reloOffset))

/-- The loop. Every instruction takes a byte at least, so that as many rounds as there are
bytes are enough. -/
def relocateLoop (origin relocated : MemoryChunk) :
    Nat → Nat → List Byte → Nat × List Byte
  | 0, offset, code => (offset, code)
  | rounds + 1, offset, code =>
      if offset < origin.length then
        relocateLoop origin relocated rounds
          (offset + (insnAt decoder memory buffer offset).length)
          (code ++ pieceAt decoder memory buffer origin relocated offset code.length)
      else
        (offset, code)

/-- `GenRelocateCodeFixed`: the origin with its new length, and the code if it fits. -/
def genRelocateCodeFixed (origin relocated : MemoryChunk) : MemoryChunk × Option (List Byte) :=
  let moved := relocateLoop decoder memory buffer origin relocated origin.length 0 []
  let code := moved.2 ++ jmpNear (BitVec.ofNat 32 (relocated.address + moved.2.length))
    (BitVec.ofNat 32 (origin.address + moved.1))
  (⟨origin.address, moved.1⟩, if code.length > relocated.length then none else some code)

/-- The tries of `GenRelocateCodeAndBranch`. `MemoryArena::Destroy` does nothing, so that the
chunks that were too small stay taken. -/
def tryChunks (pageSize : Nat) (mapped : Nat → Option Nat) :
    Nat → Nat → List PageChunk → MemoryChunk →
      Option (List PageChunk × MemoryChunk × Option (MemoryChunk × List Byte))
  | 0, _, _, _ => none
  | tries + 1, chunkSize, pages, origin =>
      match allocateCodeChunk pageSize (mapped chunkSize) pages chunkSize with
      | (pages, none) => some (pages, origin, none)
      | (pages, some chunk) =>
          match genRelocateCodeFixed decoder memory buffer origin chunk with
          | (origin, some code) => some (pages, origin, some (chunk, code))
          | (origin, none) => tryChunks pageSize mapped tries (chunkSize + 16) pages origin

/-- `GenRelocateCodeAndBranch`, for as many tries. -/
def genRelocateCodeAndBranch (pageSize : Nat) (mapped : Nat → Option Nat) (tries : Nat)
    (pages : List PageChunk) (origin : MemoryChunk) :
    Option (List PageChunk × MemoryChunk × Option (MemoryChunk × List Byte)) :=
  tryChunks decoder memory buffer pageSize mapped tries 32 pages origin

end Relocation

/-! ## The loop -/

/-- How many bytes an instruction is replaced by. -/
def emittedLength (insn : Insn) : Nat :=
  if 0x70#8 ≤ insn.primaryOpcode ∧ insn.primaryOpcode ≤ 0x7F#8 then 6
  else if insn.primaryOpcode = 0xEB#8 then 5
  else if insn.primaryOpcode = 0xE8#8 ∨ insn.primaryOpcode = 0xE9#8 then insn.immediateOffset + 4
  else if 0xE0#8 ≤ insn.primaryOpcode ∧ insn.primaryOpcode ≤ 0xE3#8 then 0
  else insn.length

theorem length_relocateInsn (memory : Memory 32) (bufferCursor : Addr) (insn : Insn)
    (currOrigIp currReloIp : BitVec 64) :
    (relocateInsn memory bufferCursor insn currOrigIp currReloIp).length = emittedLength insn := by
  unfold relocateInsn emittedLength
  dsimp only
  split_ifs <;> simp [bytes32]

section Loop

variable (decoder : Decoder) (memory : Memory 32) (buffer : Addr) (origin relocated : MemoryChunk)

/-- The offsets of the instructions that the loop comes to. -/
def insnOffsets (size : Nat) : Nat → Nat → List Nat
  | 0, _ => []
  | rounds + 1, offset =>
      if offset < size then
        offset :: insnOffsets size rounds (offset + (insnAt decoder memory buffer offset).length)
      else []

theorem insnAt_length_pos (offset : Nat) : 0 < (insnAt decoder memory buffer offset).length :=
  decoder.length_pos _ _

variable {decoder memory buffer} in
theorem le_of_mem_insnOffsets {size rounds offset other : Nat}
    (isOffset : other ∈ insnOffsets decoder memory buffer size rounds offset) : offset ≤ other := by
  induction rounds generalizing offset with
  | zero => exact absurd isOffset List.not_mem_nil
  | succ rounds inductionHypothesis =>
      unfold insnOffsets at isOffset
      split_ifs at isOffset
      · rcases List.mem_cons.mp isOffset with rfl | isLater
        · exact Nat.le_refl _
        · exact Nat.le_of_add_right_le (inductionHypothesis isLater)
      · exact absurd isOffset List.not_mem_nil

/-- The loop goes on from where it is, and adds to the code. -/
theorem relocateLoop_extends (rounds offset : Nat) (code : List Byte) :
    offset ≤ (relocateLoop decoder memory buffer origin relocated rounds offset code).1 ∧
      ∃ late, (relocateLoop decoder memory buffer origin relocated rounds offset code).2 =
        code ++ late := by
  induction rounds generalizing offset code with
  | zero => exact ⟨Nat.le_refl _, [], (List.append_nil code).symm⟩
  | succ rounds inductionHypothesis =>
      unfold relocateLoop
      split_ifs
      · obtain ⟨further, late, isLate⟩ := inductionHypothesis
          (offset + (insnAt decoder memory buffer offset).length)
          (code ++ pieceAt decoder memory buffer origin relocated offset code.length)
        exact ⟨Nat.le_of_add_right_le further, _, isLate.trans (List.append_assoc _ _ _)⟩
      · exact ⟨Nat.le_refl _, [], (List.append_nil code).symm⟩

/-- With enough rounds the loop comes to the end of the origin. -/
theorem le_relocateLoop {rounds offset : Nat} (code : List Byte)
    (enough : origin.length ≤ offset + rounds) :
    origin.length ≤ (relocateLoop decoder memory buffer origin relocated rounds offset code).1 := by
  induction rounds generalizing offset code with
  | zero => exact enough
  | succ rounds inductionHypothesis =>
      unfold relocateLoop
      split_ifs with inside
      · have positive := insnAt_length_pos decoder memory buffer offset
        exact inductionHypothesis _ (by omega)
      · exact Nat.le_of_not_lt inside

theorem mem_insnOffsets {size rounds offset : Nat} (inside : offset < size) (more : 0 < rounds) :
    offset ∈ insnOffsets decoder memory buffer size rounds offset := by
  cases rounds with
  | zero => exact absurd more (Nat.lt_irrefl 0)
  | succ rounds =>
      rw [insnOffsets, if_pos inside]
      exact List.mem_cons_self

theorem relocateLoop_of_le (rounds : Nat) {offset : Nat} (code : List Byte)
    (atEnd : origin.length ≤ offset) :
    relocateLoop decoder memory buffer origin relocated rounds offset code = (offset, code) := by
  cases rounds with
  | zero => rfl
  | succ rounds => rw [relocateLoop, if_neg (Nat.not_lt.mpr atEnd)]

/-- Behind an instruction is the next one, or the end. -/
theorem insnOffsets_next {rounds offset other : Nat} (code : List Byte)
    (enough : origin.length ≤ offset + rounds)
    (isOffset : other ∈ insnOffsets decoder memory buffer origin.length rounds offset) :
    other + (insnAt decoder memory buffer other).length ∈
        insnOffsets decoder memory buffer origin.length rounds offset ∨
      other + (insnAt decoder memory buffer other).length =
        (relocateLoop decoder memory buffer origin relocated rounds offset code).1 := by
  induction rounds generalizing offset code with
  | zero => exact absurd isOffset List.not_mem_nil
  | succ rounds inductionHypothesis =>
      have positive := insnAt_length_pos decoder memory buffer offset
      unfold insnOffsets at isOffset ⊢
      unfold relocateLoop
      split_ifs at isOffset with inside
      · rw [if_pos inside, if_pos inside]
        rcases List.mem_cons.mp isOffset with rfl | isLater
        · by_cases more : other + (insnAt decoder memory buffer other).length < origin.length
          · have start := mem_insnOffsets decoder memory buffer more (by omega : 0 < rounds)
            exact .inl (List.mem_cons_of_mem _ start)
          · rw [relocateLoop_of_le decoder memory buffer origin relocated _ _ (Nat.le_of_not_lt more)]
            exact .inr rfl
        · rcases inductionHypothesis _ (by omega) isLater with found | ends
          · exact .inl (List.mem_cons_of_mem _ found)
          · exact .inr ends
      · exact absurd isOffset List.not_mem_nil

/-- The piece of an instruction stands where the pieces before it end. -/
structure Placed (code : List Byte) (place : Nat → Nat) (offset : Nat) : Prop where
  next : place (offset + (insnAt decoder memory buffer offset).length) =
    place offset + emittedLength (insnAt decoder memory buffer offset)
  stands : ∃ early late, early.length = place offset ∧
    code = early ++ pieceAt decoder memory buffer origin relocated offset (place offset) ++ late

theorem relocateLoop_placed (rounds offset : Nat) (code : List Byte) :
    ∃ place : Nat → Nat, place offset = code.length ∧
      (∀ other ∈ insnOffsets decoder memory buffer origin.length rounds offset,
        Placed decoder memory buffer origin relocated
          (relocateLoop decoder memory buffer origin relocated rounds offset code).2 place other) ∧
      place (relocateLoop decoder memory buffer origin relocated rounds offset code).1 =
        (relocateLoop decoder memory buffer origin relocated rounds offset code).2.length := by
  induction rounds generalizing offset code with
  | zero =>
      refine ⟨fun _ => code.length, rfl, fun other impossible => ?_, rfl⟩
      exact absurd impossible List.not_mem_nil
  | succ rounds inductionHypothesis =>
      unfold relocateLoop insnOffsets
      split_ifs with inside
      · set insn := insnAt decoder memory buffer offset with isInsn
        set piece := pieceAt decoder memory buffer origin relocated offset code.length with isPiece
        have positive : 0 < insn.length := insnAt_length_pos decoder memory buffer offset
        have pieceLength : piece.length = emittedLength insn := length_relocateInsn _ _ _ _ _
        obtain ⟨place, starts, placed, ends⟩ :=
          inductionHypothesis (offset + insn.length) (code ++ piece)
        obtain ⟨further, late, isLate⟩ := relocateLoop_extends decoder memory buffer origin relocated
          rounds (offset + insn.length) (code ++ piece)
        rw [List.length_append, pieceLength] at starts
        -- the places of the rest, and the place of this instruction before them
        set places := Function.update place offset code.length
        have here : places offset = code.length := Function.update_self _ _ _
        have later {other : Nat} (behind : offset < other) : places other = place other :=
          Function.update_of_ne (Nat.ne_of_gt behind) _ _
        refine ⟨places, here, fun other isOther => ?_, ?_⟩
        · rcases List.mem_cons.mp isOther with isOffset | isLater
          · rw [isOffset]
            refine ⟨?_, code, late, here.symm, ?_⟩
            · rw [here, later (Nat.lt_add_of_pos_right positive)]
              exact starts
            · rw [here]
              exact isLate
          · have behind : offset < other :=
              Nat.lt_of_lt_of_le (Nat.lt_add_of_pos_right positive) (le_of_mem_insnOffsets isLater)
            obtain ⟨next, stands⟩ := placed other isLater
            refine ⟨?_, ?_⟩
            · rw [later behind, later (Nat.lt_add_right _ behind)]
              exact next
            · rw [later behind]
              exact stands
        · rw [later (Nat.lt_of_lt_of_le (Nat.lt_add_of_pos_right positive) further)]
          exact ends
      · refine ⟨fun _ => code.length, rfl, fun other impossible => ?_, rfl⟩
        exact absurd impossible List.not_mem_nil

end Loop

/-! ## Branches -/

/-- The decoder reads branches as they are: how long they are, their opcode, and the number
behind it. -/
structure Decoder.ReadsBranches (decoder : Decoder) (memory : Memory 32) : Prop where
  length : ∀ address branch, branchAt memory address = some branch →
    (decoder.decode memory address).length = branch.length
  short : ∀ address branch, branchAt memory address = some branch → branch.length = 2 →
    (decoder.decode memory address).primaryOpcode = memory address ∧
      (decoder.decode memory address).immediate.setWidth 8 = memory (address + 1)
  long : ∀ address branch, branchAt memory address = some branch → branch.length = 5 →
    (decoder.decode memory address).primaryOpcode = memory address ∧
      (decoder.decode memory address).immediateOffset = 1 ∧
      (decoder.decode memory address).immediate.setWidth 32 = read32 memory (address + 1)
  twoBytes : ∀ address branch, branchAt memory address = some branch → branch.length = 6 →
    (decoder.decode memory address).primaryOpcode = memory (address + 1)

/-- What becomes of a branch that is moved from the source to the target. -/
def Moved (memory memory' : Memory 32) (source target : Addr) : Branch → Prop
  | .jcc8 condition => branchAt memory' target = some (.jcc32 condition) ∧
      (Branch.jcc32 condition).goal memory' target =
        (Branch.jcc8 condition).goal memory source + 4
  | .jmp8 => branchAt memory' target = some .jmp32 ∧
      Branch.jmp32.goal memory' target ≠ Branch.jmp8.goal memory source
  | .call32 => branchAt memory' target = some .call32 ∧
      Branch.call32.goal memory' target = Branch.call32.goal memory source
  | .jmp32 => branchAt memory' target = some .jmp32 ∧
      Branch.jmp32.goal memory' target = Branch.jmp32.goal memory source
  | .jcc32 condition => branchAt memory' target = some (.jcc32 condition) ∧
      (Branch.jcc32 condition).goal memory' target =
        (Branch.jcc32 condition).goal memory source + (target - source)

section Widths

variable {m : Nat}

theorem setWidth_signExtend (offset : BitVec m) {width wide : Nat} (narrow : width ≤ wide) :
    (offset.signExtend wide).setWidth width = offset.signExtend width := by
  apply BitVec.eq_of_getLsbD_eq
  intro i inside
  rw [BitVec.getLsbD_setWidth, BitVec.getLsbD_signExtend, BitVec.getLsbD_signExtend]
  have small : i < wide := Nat.lt_of_lt_of_le inside narrow
  simp [inside, small]

/-- The new offset, which the source computes with 64 bits and then cuts. -/
theorem setWidth_newOffset (source target : Nat) (offset : BitVec m) {width : Nat}
    (narrow : width ≤ 64) :
    (BitVec.ofNat 64 source + offset.signExtend 64 - BitVec.ofNat 64 target).setWidth width =
      BitVec.ofNat width source + offset.signExtend width - BitVec.ofNat width target := by
  rw [BitVec.sub_eq_add_neg, BitVec.sub_eq_add_neg, BitVec.setWidth_add _ _ narrow,
    BitVec.setWidth_add _ _ narrow, BitVec.setWidth_neg_of_le narrow,
    BitVec.setWidth_ofNat_of_le narrow, BitVec.setWidth_ofNat_of_le narrow,
    setWidth_signExtend offset narrow]

end Widths

section Branches

theorem opcode_jcc8 : ∀ condition : BitVec 4,
    0x70#8 ≤ 0x7#4 ++ condition ∧ 0x7#4 ++ condition ≤ 0x7F#8 := by
  decide

theorem opcode_jcc32 : ∀ condition : BitVec 4,
    0x80#8 ||| ((0x7#4 ++ condition) &&& 0x0F#8) = 0x8#4 ++ condition := by
  decide

/-- The second byte of a long conditional branch is none of the opcodes that are looked for. -/
theorem opcode_copied : ∀ condition : BitVec 4,
    ¬ (0x70#8 ≤ 0x8#4 ++ condition ∧ 0x8#4 ++ condition ≤ 0x7F#8) ∧
      0x8#4 ++ condition ≠ 0xEB#8 ∧
      ¬ (0x8#4 ++ condition = 0xE8#8 ∨ 0x8#4 ++ condition = 0xE9#8) ∧
      ¬ (0xE0#8 ≤ 0x8#4 ++ condition ∧ 0x8#4 ++ condition ≤ 0xE3#8) := by
  decide

variable {memory memory' : Memory 32} {insn : Insn} {source target : Nat}

theorem moved_jcc8 {condition : BitVec 4} (isOpcode : insn.primaryOpcode = 0x7#4 ++ condition)
    (isOffset : insn.immediate.setWidth 8 = memory (BitVec.ofNat 32 source + 1))
    (stands : CodeAt memory' (BitVec.ofNat 32 target) (relocateInsn memory (BitVec.ofNat 32 source)
      insn (BitVec.ofNat 64 source) (BitVec.ofNat 64 target))) :
    Moved memory memory' (BitVec.ofNat 32 source) (BitVec.ofNat 32 target) (.jcc8 condition) := by
  unfold relocateInsn at stands
  dsimp only at stands
  rw [isOpcode, if_pos (opcode_jcc8 condition), opcode_jcc32, isOffset,
    setWidth_newOffset _ _ _ (by decide)] at stands
  obtain ⟨isBranch, isGoal⟩ := branchAt_jcc32 stands
  refine ⟨isBranch, ?_⟩
  rw [isGoal, Branch.goal, Branch.length, Branch.displacement]
  generalize BitVec.ofNat 32 source = source
  generalize BitVec.ofNat 32 target = target
  grind

/-- The offset is cut to 8 bits, and it is counted from the wrong end anyway: the goals
differ in their last byte. -/
theorem moved_jmp8 (isOpcode : insn.primaryOpcode = 0xEB#8)
    (isOffset : insn.immediate.setWidth 8 = memory (BitVec.ofNat 32 source + 1))
    (stands : CodeAt memory' (BitVec.ofNat 32 target) (relocateInsn memory (BitVec.ofNat 32 source)
      insn (BitVec.ofNat 64 source) (BitVec.ofNat 64 target))) :
    Moved memory memory' (BitVec.ofNat 32 source) (BitVec.ofNat 32 target) .jmp8 := by
  unfold relocateInsn at stands
  dsimp only at stands
  rw [isOpcode, if_neg (by decide), if_pos rfl, isOffset,
    setWidth_newOffset _ _ _ (by decide)] at stands
  obtain ⟨isBranch, isGoal⟩ := branchAt_jmp32 stands
  refine ⟨isBranch, fun same => ?_⟩
  rw [isGoal, Branch.goal, Branch.length, Branch.displacement] at same
  have narrow : 8 ≤ 32 := by decide
  have lastByte := congrArg (BitVec.setWidth 8) same
  rw [BitVec.setWidth_add _ _ narrow, BitVec.setWidth_add _ _ narrow,
    BitVec.setWidth_add _ _ narrow, BitVec.setWidth_add _ _ narrow,
    setWidth_signExtend _ narrow, setWidth_signExtend _ narrow, BitVec.signExtend_eq,
    BitVec.signExtend_eq, BitVec.setWidth_ofNat_of_le narrow,
    BitVec.setWidth_ofNat_of_le narrow] at lastByte
  generalize BitVec.ofNat 8 source = source at lastByte
  generalize BitVec.ofNat 8 target = target at lastByte
  rw [show (5 : BitVec 32).setWidth 8 = 5#8 from rfl,
    show (BitVec.ofNat 32 2).setWidth 8 = 2#8 from rfl] at lastByte
  -- five bytes of the long jump against two of the short one
  grind

/-- A call or a jump with 32 bits, in the place of the one that was there. -/
theorem stands_rel32 {opcode : Byte} (isOpcode : insn.primaryOpcode = opcode)
    (isLong : opcode = 0xE8#8 ∨ opcode = 0xE9#8) (offsetAt : insn.immediateOffset = 1)
    (first : memory (BitVec.ofNat 32 source) = opcode)
    (isOffset : insn.immediate.setWidth 32 = read32 memory (BitVec.ofNat 32 source + 1))
    (stands : CodeAt memory' (BitVec.ofNat 32 target) (relocateInsn memory (BitVec.ofNat 32 source)
      insn (BitVec.ofNat 64 source) (BitVec.ofNat 64 target))) :
    CodeAt memory' (BitVec.ofNat 32 target) (opcode :: bytes32 (BitVec.ofNat 32 source +
      read32 memory (BitVec.ofNat 32 source + 1) - BitVec.ofNat 32 target)) := by
  have copied : read memory (BitVec.ofNat 32 source) 1 = [opcode] := by
    rw [← first]
    simp [Library.ByteMemory.read]
  unfold relocateInsn at stands
  dsimp only at stands
  rw [isOpcode, if_neg (by rcases isLong with rfl | rfl <;> decide),
    if_neg (by rcases isLong with rfl | rfl <;> decide), if_pos isLong, offsetAt, copied, isOffset,
    setWidth_newOffset _ _ _ (by decide), BitVec.signExtend_eq] at stands
  exact stands

/-- A long conditional branch is copied like any other instruction. -/
theorem moved_jcc32 {condition : BitVec 4} (isOpcode : insn.primaryOpcode = 0x8#4 ++ condition)
    (isLength : insn.length = 6)
    (isBranch : branchAt memory (BitVec.ofNat 32 source) = some (.jcc32 condition))
    (stands : CodeAt memory' (BitVec.ofNat 32 target) (relocateInsn memory (BitVec.ofNat 32 source)
      insn (BitVec.ofNat 64 source) (BitVec.ofNat 64 target))) :
    Moved memory memory' (BitVec.ofNat 32 source) (BitVec.ofNat 32 target) (.jcc32 condition) := by
  obtain ⟨notJcc8, notJmp8, notLong, notLoop⟩ := opcode_copied condition
  unfold relocateInsn at stands
  dsimp only at stands
  rw [isOpcode, if_neg notJcc8, if_neg notJmp8, if_neg notLong, if_neg notLoop, isLength] at stands
  exact branchAt_moved isBranch fun distance inside => stands.moved inside

/-- What becomes of a branch of any kind. -/
theorem moved_of_stands {decoder : Decoder} (reads : decoder.ReadsBranches memory)
    {branch : Branch} (isBranch : branchAt memory (BitVec.ofNat 32 source) = some branch)
    (stands : CodeAt memory' (BitVec.ofNat 32 target) (relocateInsn memory (BitVec.ofNat 32 source)
      (decoder.decode memory (BitVec.ofNat 32 source))
      (BitVec.ofNat 64 source) (BitVec.ofNat 64 target))) :
    Moved memory memory' (BitVec.ofNat 32 source) (BitVec.ofNat 32 target) branch := by
  have isLength := reads.length _ _ isBranch
  have short := reads.short _ _ isBranch
  have long := reads.long _ _ isBranch
  have twoBytes := reads.twoBytes _ _ isBranch
  obtain ⟨condition, rfl, first⟩ | ⟨rfl, first⟩ | ⟨rfl, first⟩ | ⟨rfl, first⟩ |
    ⟨condition, rfl, first, second⟩ := branchAt_cases isBranch
  · obtain ⟨isOpcode, isOffset⟩ := short rfl
    exact moved_jcc8 (isOpcode.trans first) isOffset stands
  · obtain ⟨isOpcode, isOffset⟩ := short rfl
    exact moved_jmp8 (isOpcode.trans first) isOffset stands
  · obtain ⟨isOpcode, offsetAt, isOffset⟩ := long rfl
    obtain ⟨isCall, isGoal⟩ := branchAt_call32
      (stands_rel32 (isOpcode.trans first) (.inl rfl) offsetAt first isOffset stands)
    refine ⟨isCall, ?_⟩
    rw [isGoal, Branch.goal, Branch.length, Branch.displacement]
    generalize BitVec.ofNat 32 source = source
    generalize BitVec.ofNat 32 target = target
    grind
  · obtain ⟨isOpcode, offsetAt, isOffset⟩ := long rfl
    obtain ⟨isJump, isGoal⟩ := branchAt_jmp32
      (stands_rel32 (isOpcode.trans first) (.inr rfl) offsetAt first isOffset stands)
    refine ⟨isJump, ?_⟩
    rw [isGoal, Branch.goal, Branch.length, Branch.displacement]
    generalize BitVec.ofNat 32 source = source
    generalize BitVec.ofNat 32 target = target
    grind
  · exact moved_jcc32 ((twoBytes rfl).trans second) isLength isBranch stands

/-- The jump goes where it is told to. -/
theorem jmpNear_lands {currentIP address : Addr}
    (stands : CodeAt memory currentIP (jmpNear currentIP address)) :
    branchAt memory currentIP = some .jmp32 ∧ Branch.jmp32.goal memory currentIP = address := by
  obtain ⟨isJump, isGoal⟩ := branchAt_jmp32 stands
  refine ⟨isJump, isGoal.trans ?_⟩
  grind

end Branches

/-- Instructions that are copied byte by byte. -/
def Copied (insn : Insn) : Prop :=
  ¬ (0x70#8 ≤ insn.primaryOpcode ∧ insn.primaryOpcode ≤ 0x7F#8) ∧
    insn.primaryOpcode ≠ 0xEB#8 ∧
    ¬ (insn.primaryOpcode = 0xE8#8 ∨ insn.primaryOpcode = 0xE9#8) ∧
    ¬ (0xE0#8 ≤ insn.primaryOpcode ∧ insn.primaryOpcode ≤ 0xE3#8)

instance (insn : Insn) : Decidable (Copied insn) := inferInstanceAs (Decidable (_ ∧ _))

/-- What becomes of the instruction at an address. -/
structure Relocated (decoder : Decoder) (memory memory' : Memory 32) (source target : Addr) :
    Prop where
  branch : ∀ branch, branchAt memory source = some branch →
    Moved memory memory' source target branch
  copy : Copied (decoder.decode memory source) →
    ∀ distance < (decoder.decode memory source).length,
      memory' (target + BitVec.ofNat 32 distance) = memory (source + BitVec.ofNat 32 distance)

theorem relocated_of_stands {decoder : Decoder} {memory memory' : Memory 32} {source target : Nat}
    (reads : decoder.ReadsBranches memory)
    (stands : CodeAt memory' (BitVec.ofNat 32 target) (relocateInsn memory (BitVec.ofNat 32 source)
      (decoder.decode memory (BitVec.ofNat 32 source))
      (BitVec.ofNat 64 source) (BitVec.ofNat 64 target))) :
    Relocated decoder memory memory' (BitVec.ofNat 32 source) (BitVec.ofNat 32 target) where
  branch branch isBranch := moved_of_stands reads isBranch stands
  copy isCopied distance inside := by
    obtain ⟨notJcc8, notJmp8, notLong, notLoop⟩ := isCopied
    unfold relocateInsn at stands
    dsimp only at stands
    rw [if_neg notJcc8, if_neg notJmp8, if_neg notLong, if_neg notLoop] at stands
    exact stands.moved inside

/-- A decoder for code of branches and of instructions of one byte. -/
def branchDecoder : Decoder where
  decode memory address :=
    match branchAt memory address with
    | none => ⟨1, memory address, 0, 0⟩
    | some (.jcc32 _) =>
        ⟨6, memory (address + 1), (read32 memory (address + 2)).setWidth 64, 2⟩
    | some branch =>
        ⟨branch.length, memory address, (read32 memory (address + 1)).setWidth 64, 1⟩
  length_pos memory address := by
    cases branchAt memory address with
    | none => exact Nat.one_pos
    | some branch => cases branch <;> exact Nat.succ_pos _

theorem branchDecoder_reads (memory : Memory 32) : branchDecoder.ReadsBranches memory where
  length address branch isBranch := by
    cases branch <;> simp [branchDecoder, isBranch, Branch.length]
  short address branch isBranch isShort := by
    have low : ((read32 memory (address + 1)).setWidth 64).setWidth 8 = memory (address + 1) := by
      apply BitVec.eq_of_getLsbD_eq
      intro i inside
      rw [BitVec.getLsbD_setWidth, BitVec.getLsbD_setWidth, read32, BitVec.getLsbD_append]
      simp [inside, show i < 64 by omega]
    cases branch <;> simp_all [branchDecoder, Branch.length]
  long address branch isBranch isLong := by
    cases branch <;> simp_all [branchDecoder, Branch.length]
  twoBytes address branch isBranch isTwo := by
    cases branch <;> simp_all [branchDecoder, Branch.length]

/-- `je` over sixteen bytes, a call, and then `nop`s. -/
def conditionalCall : Memory 32 :=
  write (fun _ => 0x90#8) 0x1000#32 [0x74#8, 0x10#8, 0xE8#8, 0x20#8, 0x00#8, 0x00#8, 0x00#8]

/-- What becomes of it at `0x2000`. -/
def conditionalCallMoved : List Byte :=
  [0x0F#8, 0x84#8, 0x10#8, 0xF0#8, 0xFF#8, 0xFF#8] ++
    [0xE8#8, 0x1C#8, 0xF0#8, 0xFF#8, 0xFF#8] ++ [0xE9#8, 0xF7#8, 0xEF#8, 0xFF#8, 0xFF#8]

section Tries

variable (decoder : Decoder) (memory : Memory 32) (buffer : Addr) (origin : MemoryChunk)

/-- Where the code is going to be does not change how much there is of it. -/
theorem relocateLoop_elsewhere (relocated relocated' : MemoryChunk) (rounds offset : Nat)
    (code code' : List Byte) :
    (relocateLoop decoder memory buffer origin relocated rounds offset code).1 =
        (relocateLoop decoder memory buffer origin relocated' rounds offset code').1 ∧
      (relocateLoop decoder memory buffer origin relocated rounds offset code).2.length +
          code'.length =
        (relocateLoop decoder memory buffer origin relocated' rounds offset code').2.length +
          code.length := by
  induction rounds generalizing offset code code' with
  | zero => exact ⟨rfl, Nat.add_comm _ _⟩
  | succ rounds inductionHypothesis =>
      unfold relocateLoop
      split_ifs
      · obtain ⟨sameStop, sameLength⟩ := inductionHypothesis
          (offset + (insnAt decoder memory buffer offset).length)
          (code ++ pieceAt decoder memory buffer origin relocated offset code.length)
          (code' ++ pieceAt decoder memory buffer origin relocated' offset code'.length)
        refine ⟨sameStop, ?_⟩
        unfold pieceAt at sameLength ⊢
        simp only [List.length_append, length_relocateInsn] at sameLength
        omega
      · exact ⟨rfl, Nat.add_comm _ _⟩

/-- How long the code is, with the jump behind it. -/
def codeLength : Nat :=
  (relocateLoop decoder memory buffer origin ⟨0, 0⟩ origin.length 0 []).2.length + 5

/-- The origin that ends with an instruction has the same instructions. -/
theorem relocateLoop_resized (relocated : MemoryChunk) {rounds rounds' offset : Nat}
    (code : List Byte) (enough : origin.length ≤ offset + rounds)
    (enough' : (relocateLoop decoder memory buffer origin relocated rounds offset code).1 ≤
      offset + rounds') :
    relocateLoop decoder memory buffer
        ⟨origin.address, (relocateLoop decoder memory buffer origin relocated rounds offset code).1⟩
        relocated rounds' offset code =
      relocateLoop decoder memory buffer origin relocated rounds offset code := by
  induction rounds generalizing rounds' offset code with
  | zero => exact relocateLoop_of_le _ _ _ _ _ _ _ (Nat.le_refl _)
  | succ rounds inductionHypothesis =>
      by_cases inside : offset < origin.length
      · have reaches := le_relocateLoop decoder memory buffer origin relocated code enough
        have positive := insnAt_length_pos decoder memory buffer offset
        have step : relocateLoop decoder memory buffer origin relocated (rounds + 1) offset code =
            relocateLoop decoder memory buffer origin relocated rounds
              (offset + (insnAt decoder memory buffer offset).length)
              (code ++ pieceAt decoder memory buffer origin relocated offset code.length) := by
          rw [relocateLoop, if_pos inside]
        rw [step] at enough' reaches ⊢
        cases rounds' with
        | zero => omega
        | succ rounds' =>
            rw [relocateLoop, if_pos (show offset < _ from Nat.lt_of_lt_of_le inside reaches)]
            exact inductionHypothesis _ (by omega) (by omega)
      · have atEnd := relocateLoop_of_le decoder memory buffer origin relocated (rounds + 1) code
          (Nat.le_of_not_lt inside)
        rw [atEnd]
        exact relocateLoop_of_le _ _ _ _ _ _ _ (Nat.le_refl _)

theorem genRelocateCodeFixed_resized (relocated relocated' : MemoryChunk) :
    genRelocateCodeFixed decoder memory buffer
        (genRelocateCodeFixed decoder memory buffer origin relocated').1 relocated =
      genRelocateCodeFixed decoder memory buffer origin relocated := by
  have sameStop := (relocateLoop_elsewhere decoder memory buffer origin relocated' relocated
    origin.length 0 [] []).1
  unfold genRelocateCodeFixed
  dsimp only
  rw [sameStop, relocateLoop_resized _ _ _ _ _ _ (Nat.le_add_left _ _) (Nat.le_add_left _ _)]

/-- A chunk is large enough or not, wherever it is. -/
theorem genRelocateCodeFixed_fits (relocated : MemoryChunk) :
    (genRelocateCodeFixed decoder memory buffer origin relocated).2.isSome ↔
      codeLength decoder memory buffer origin ≤ relocated.length := by
  have sameLength := (relocateLoop_elsewhere decoder memory buffer origin relocated ⟨0, 0⟩
    origin.length 0 [] []).2
  unfold genRelocateCodeFixed codeLength
  dsimp only
  split_ifs with small
  · simp only [List.length_append, jmpNear, bytes32, List.length_cons, List.length_nil] at *
    simp
    omega
  · simp only [List.length_append, jmpNear, bytes32, List.length_cons, List.length_nil] at *
    simp
    omega

theorem allocateCodeChunk_cases (pageSize : Nat) (mapped : Option Nat) (pages : List PageChunk)
    (allocSize : Nat) :
    (mapped = none ∧ allocateCodeChunk pageSize mapped pages allocSize = (pages, none)) ∨
      ∃ pages' chunk, chunk.length = allocSize ∧
        allocateCodeChunk pageSize mapped pages allocSize = (pages', some chunk) := by
  unfold allocateCodeChunk
  rcases allocateChunk_cases pageSize mapped pages allocSize .kReadExecute with
    missed | ⟨before, page, after, -, -, isFound⟩ | ⟨address, -, -, isNew⟩
  · exact .inl missed
  · exact .inr ⟨_, _, rfl, isFound⟩
  · exact .inr ⟨_, _, rfl, isNew⟩

/-- The result of the tries: the operating system gives no page, or the last chunk is not
larger than it has to be, and the code is that of a first try with this chunk. -/
def Found (mapped : Nat → Option Nat) (chunkSize : Nat) (origin' : MemoryChunk) :
    Option (MemoryChunk × List Byte) → Prop
  | none => ∃ size, mapped size = none
  | some (chunk, code) =>
      genRelocateCodeFixed decoder memory buffer origin chunk = (origin', some code) ∧
        (chunk.length = chunkSize ∨
          chunk.length < codeLength decoder memory buffer origin + 16)

/-- What one try does. -/
theorem tryChunks_cases (pageSize : Nat) (mapped : Nat → Option Nat) (chunkSize : Nat)
    (pages : List PageChunk) :
    (mapped chunkSize = none ∧ ∀ tries,
      tryChunks decoder memory buffer pageSize mapped (tries + 1) chunkSize pages origin =
        some (pages, origin, none)) ∨
    (∃ pages' chunk origin' code, chunk.length = chunkSize ∧
      genRelocateCodeFixed decoder memory buffer origin chunk = (origin', some code) ∧ ∀ tries,
      tryChunks decoder memory buffer pageSize mapped (tries + 1) chunkSize pages origin =
        some (pages', origin', some (chunk, code))) ∨
    ∃ pages' chunk, chunkSize < codeLength decoder memory buffer origin ∧ ∀ tries,
      tryChunks decoder memory buffer pageSize mapped (tries + 1) chunkSize pages origin =
        tryChunks decoder memory buffer pageSize mapped tries (chunkSize + 16) pages'
          (genRelocateCodeFixed decoder memory buffer origin chunk).1 := by
  rcases allocateCodeChunk_cases pageSize (mapped chunkSize) pages chunkSize with
    ⟨isNone, missed⟩ | ⟨pages', chunk, isLength, allocated⟩
  · refine .inl ⟨isNone, fun tries => ?_⟩
    rw [tryChunks, missed]
  · cases generated : (genRelocateCodeFixed decoder memory buffer origin chunk).2 with
    | none =>
        refine .inr (.inr ⟨pages', chunk, ?_, fun tries => ?_⟩)
        · rw [← isLength, ← Nat.not_le, ← genRelocateCodeFixed_fits, generated]
          exact Bool.false_ne_true
        · simp only [tryChunks, allocated]
          rw [show genRelocateCodeFixed decoder memory buffer origin chunk = (_, none) from
            Prod.ext rfl generated]
    | some code =>
        have pair : genRelocateCodeFixed decoder memory buffer origin chunk = (_, some code) :=
          Prod.ext rfl generated
        refine .inr (.inl ⟨pages', chunk, _, code, isLength, pair, fun tries => ?_⟩)
        simp only [tryChunks, allocated]
        rw [pair]

/-- The length shows in which chunks are large enough. -/
theorem codeLength_congr {current : MemoryChunk}
    (same : ∀ chunk, genRelocateCodeFixed decoder memory buffer current chunk =
      genRelocateCodeFixed decoder memory buffer origin chunk) :
    codeLength decoder memory buffer current = codeLength decoder memory buffer origin := by
  have alike (size : Nat) : codeLength decoder memory buffer current ≤ size ↔
      codeLength decoder memory buffer origin ≤ size := by
    have left := genRelocateCodeFixed_fits decoder memory buffer current ⟨0, size⟩
    have right := genRelocateCodeFixed_fits decoder memory buffer origin ⟨0, size⟩
    rw [← left, ← right, same]
  exact Nat.le_antisymm ((alike _).mpr (Nat.le_refl _)) ((alike _).mp (Nat.le_refl _))

theorem tryChunks_found (pageSize : Nat) (mapped : Nat → Option Nat) {tries chunkSize : Nat}
    (pages : List PageChunk) {current : MemoryChunk}
    (same : ∀ chunk, genRelocateCodeFixed decoder memory buffer current chunk =
      genRelocateCodeFixed decoder memory buffer origin chunk)
    (enough : codeLength decoder memory buffer origin ≤ chunkSize + 16 * tries) :
    ∃ pages' origin' outcome,
      (∀ more, tryChunks decoder memory buffer pageSize mapped (tries + 1 + more) chunkSize pages
        current = some (pages', origin', outcome)) ∧
      Found decoder memory buffer origin mapped chunkSize origin' outcome := by
  induction tries using Nat.strong_induction_on generalizing chunkSize pages current with
  | _ tries inductionHypothesis =>
      have sameLength := codeLength_congr decoder memory buffer origin same
      simp only [Nat.add_right_comm tries 1]
      rcases tryChunks_cases decoder memory buffer current pageSize mapped chunkSize pages with
        ⟨isNone, missed⟩ | ⟨pages', chunk, origin', code, isLength, generated, found⟩ |
        ⟨pages', chunk, small, again⟩
      · exact ⟨pages, current, none, fun more => missed _, _, isNone⟩
      · rw [same] at generated
        exact ⟨pages', origin', some (chunk, code), fun more => found _, generated, .inl isLength⟩
      · -- the origin is changed by then, to one with the same instructions
        have resized (other : MemoryChunk) : genRelocateCodeFixed decoder memory buffer
            (genRelocateCodeFixed decoder memory buffer current chunk).1 other =
              genRelocateCodeFixed decoder memory buffer origin other := by
          rw [genRelocateCodeFixed_resized, same]
        obtain ⟨tries, rfl⟩ : ∃ fewer, tries = fewer + 1 := ⟨tries - 1, by omega⟩
        obtain ⟨pages'', origin', outcome, later, found⟩ :=
          inductionHypothesis tries (Nat.lt_succ_self _) pages' resized
            (show _ ≤ chunkSize + 16 + 16 * tries by omega)
        refine ⟨pages'', origin', outcome, fun more => ?_, ?_⟩
        · rw [again]
          exact later more
        · cases outcome with
          | none => exact found
          | some outcome =>
              obtain ⟨generated, isSize | short⟩ := found
              · exact ⟨generated, .inr (by omega)⟩
              · exact ⟨generated, .inr short⟩

/-- Instructions as x86 has them: none is longer than 15 bytes, and a branch that becomes
longer has two bytes at least. -/
def Decoder.Bounded (decoder : Decoder) (memory : Memory 32) : Prop :=
  ∀ address, emittedLength (decoder.decode memory address) ≤ 15 ∧
    emittedLength (decoder.decode memory address) ≤ 3 * (decoder.decode memory address).length

variable {decoder memory} in
/-- All instructions but the last lie before the end of the origin. -/
theorem length_relocateLoop_le (bounded : decoder.Bounded memory) (relocated : MemoryChunk)
    (rounds : Nat) {offset : Nat} {code : List Byte}
    (before : offset < origin.length → code.length ≤ 3 * offset)
    (behind : code.length ≤ 3 * (origin.length - 1) + 15) :
    (relocateLoop decoder memory buffer origin relocated rounds offset code).2.length ≤
      3 * (origin.length - 1) + 15 := by
  induction rounds generalizing offset code with
  | zero => exact behind
  | succ rounds inductionHypothesis =>
      unfold relocateLoop
      split_ifs with inside
      · have early := before inside
        obtain ⟨short, growth⟩ := bounded (buffer + BitVec.ofNat 32 offset)
        have grown : (code ++ pieceAt decoder memory buffer origin relocated offset
            code.length).length =
            code.length + emittedLength (insnAt decoder memory buffer offset) := by
          rw [List.length_append, pieceAt, length_relocateInsn]
        unfold insnAt at grown ⊢
        apply inductionHypothesis
        · intro more
          rw [grown]
          omega
        · rw [grown]
          omega
      · exact behind

end Tries

end AndroidPatch.Dobby.X86
