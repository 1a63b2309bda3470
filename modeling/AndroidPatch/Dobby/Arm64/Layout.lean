import AndroidPatch.Dobby.Arm64.Running

/-!
Contract: where the pieces of the relocated code stand.

Owns:
- the words of the block for each instruction and its waiting loads;
- the place of every block in the generated code, the branch behind the last one, and
  that every load is linked to its data;
- the size of the whole.
-/

namespace AndroidPatch.Dobby.Arm64

open Library.A64 Library.ByteMemory TurboAssembler

/-! ## Blocks -/

/-- The `nop` before and behind a block. -/
def padding (debug : Bool) : List Word := if debug then [0xD503201F] else []

theorem length_padding (debug : Bool) : (padding debug).length ≤ 1 := by
  cases debug <;> decide

theorem debugNop_eq (debug : Bool) (assembler : TurboAssembler) :
    debugNop debug assembler =
      ⟨assembler.buffer ++ padding debug, assembler.dataLabels⟩ := by
  cases debug <;> simp [debugNop, padding, nop, emit]

theorem relocateBranch_new (debug : Bool) (branchInstr : Word) (branchAddress : BitVec 64) :
    relocateBranch debug branchInstr branchAddress .new =
      ⟨(padding debug ++ [branchInstr]) ++ unlinkedLdr :: branchTmpWord false :: padding debug,
        [⟨⟨0, [4 * (padding debug ++ [branchInstr]).length]⟩, branchAddress⟩]⟩ := by
  cases debug <;> rfl

theorem relocateUnconditionalBranch_new (debug : Bool) (currOrigPc : BitVec 64) (instr : Word) :
    relocateUnconditionalBranch debug currOrigPc instr .new =
      ⟨padding debug ++ unlinkedLdr :: branchTmpWord (instr &&& 0xFC000000 = 0x94000000) ::
          padding debug,
        [⟨⟨0, [4 * (padding debug).length]⟩, decodeImm26Offset instr + currOrigPc⟩]⟩ := by
  unfold relocateUnconditionalBranch branchTmpWord
  simp only [decide_eq_true_eq]
  split <;> cases debug <;> rfl

/-- The address that `adr` or `adrp` computes. -/
def runtimeAddress (currOrigPc : BitVec 64) (instr : Word) : BitVec 64 :=
  if instr &&& 0x9F000000 = 0x10000000 then currOrigPc + decodeImmhiImmloOffset instr
  else alignFloor currOrigPc (1#64 <<< 12) + decodeImmhiImmloZero12Offset instr

theorem relocatePcRelAddressing_new (debug : Bool) (currOrigPc : BitVec 64) (instr : Word) :
    relocatePcRelAddressing debug currOrigPc instr .new =
      ⟨padding debug ++ (movWords (decodeRd instr) (runtimeAddress currOrigPc instr) ++
        padding debug), []⟩ := by
  simp [relocatePcRelAddressing, runtimeAddress, debugNop_eq, mov_buffer, new]

/-- The load of a literal: the moves, and a load or, without debugging, nothing. -/
theorem relocateLdrLiteral_new {debug : Bool} {currOrigPc : BitVec 64} {instr : Word}
    {block : TurboAssembler}
    (emitted : relocateLdrLiteral debug currOrigPc instr .new = some block) :
    ∃ load after : List Word, load.length ≤ 1 ∧ after.length ≤ 1 ∧
      block = ⟨padding debug ++ (movWords 17 (decodeImm19Offset instr + currOrigPc) ++
        (load ++ after)), []⟩ ∧
      (bits instr 30 31 = 1 → load = [ldrTmpWord (decodeRt instr)] ∧ after = padding debug) := by
  unfold relocateLdrLiteral at emitted
  simp only [debugNop_eq, tmpReg0, mov_buffer, new, List.nil_append] at emitted
  split at emitted
  case isTrue isWord =>
    obtain rfl := Option.some.inj emitted
    refine ⟨[ldrTmpWord (decodeRt instr)], padding debug, Nat.le_refl _, length_padding debug,
      ?_, ?_⟩
    · simp only [ldrMem, emit, List.append_assoc]
      rfl
    · intro isDouble
      rw [isWord] at isDouble
      exact absurd isDouble (by decide)
  case isFalse =>
    split at emitted
    case isTrue =>
      obtain rfl := Option.some.inj emitted
      refine ⟨[ldrTmpWord (decodeRt instr)], padding debug, Nat.le_refl _, length_padding debug,
        ?_, fun _ => ⟨rfl, rfl⟩⟩
      simp only [ldrMem, emit, List.append_assoc]
      rfl
    case isFalse notDouble =>
      split at emitted
      · exact absurd emitted (by simp)
      · obtain rfl := Option.some.inj emitted
        exact ⟨[], [], Nat.zero_le _, Nat.zero_le _, by simp,
          fun isDouble => absurd isDouble notDouble⟩

/-- At most seven words for each instruction, the pool included. -/
theorem relocateInstr_words {debug : Bool} {currOrigPc : BitVec 64} {instr : Word}
    {block : TurboAssembler} (emitted : relocateInstr debug currOrigPc instr .new = some block) :
    block.buffer.length + 2 * block.dataLabels.length ≤ 7 := by
  have padded := length_padding debug
  unfold relocateInstr at emitted
  split at emitted
  · obtain ⟨load, after, loadLength, afterLength, rfl, -⟩ := relocateLdrLiteral_new emitted
    simp [movWords]
    omega
  split at emitted
  · rw [relocatePcRelAddressing_new] at emitted
    obtain rfl := Option.some.inj emitted
    simp [movWords]
    omega
  split at emitted
  · rw [relocateUnconditionalBranch_new] at emitted
    obtain rfl := Option.some.inj emitted
    simp
    omega
  iterate 3
    split at emitted
    · rw [relocateBranch_new] at emitted
      obtain rfl := Option.some.inj emitted
      simp
      omega
  · obtain rfl := Option.some.inj emitted
    simp [emit, new]

theorem Pending.of_dataLabels_nil (words : List Word) : Pending ⟨words, []⟩ where
  waits := by simp
  distinct := .nil

theorem Pending.single {words : List Word} {position : Nat} (data : BitVec 64)
    (isLdr : words[position]? = some unlinkedLdr) :
    Pending ⟨words, [⟨⟨0, [4 * position]⟩, data⟩]⟩ where
  waits := by
    intro entry isEntry
    obtain rfl := List.mem_singleton.mp isEntry
    exact ⟨position, rfl, isLdr⟩
  distinct := List.pairwise_singleton ..

/-- More words behind it. -/
theorem Pending.append {assembler : TurboAssembler} (pending : Pending assembler)
    (words : List Word) : Pending ⟨assembler.buffer ++ words, assembler.dataLabels⟩ where
  waits := by
    intro entry isEntry
    obtain ⟨position, isLabel, isLdr⟩ := pending.waits entry isEntry
    refine ⟨position, isLabel, ?_⟩
    rw [List.getElem?_append_left (List.getElem?_eq_some_iff.mp isLdr).1, isLdr]
  distinct := pending.distinct

theorem relocateInstr_pending {debug : Bool} {currOrigPc : BitVec 64} {instr : Word}
    {block : TurboAssembler} (emitted : relocateInstr debug currOrigPc instr .new = some block) :
    Pending block := by
  unfold relocateInstr at emitted
  split at emitted
  · obtain ⟨load, after, -, -, rfl, -⟩ := relocateLdrLiteral_new emitted
    exact .of_dataLabels_nil _
  split at emitted
  · rw [relocatePcRelAddressing_new] at emitted
    obtain rfl := Option.some.inj emitted
    exact .of_dataLabels_nil _
  split at emitted
  · rw [relocateUnconditionalBranch_new] at emitted
    obtain rfl := Option.some.inj emitted
    apply Pending.single
    simp
  iterate 3
    split at emitted
    · rw [relocateBranch_new] at emitted
      obtain rfl := Option.some.inj emitted
      apply Pending.single
      simp
  · obtain rfl := Option.some.inj emitted
    exact .of_dataLabels_nil _

/-! ## The whole -/

/-- What the loop emits has its loads pending, and is not long. -/
theorem relocateLoop_pending {debug : Bool} {currOrigPc : BitVec 64} {instrs : List Word}
    {whole : TurboAssembler} (emitted : relocateLoop debug currOrigPc instrs .new = some whole) :
    Pending whole ∧ whole.buffer.length + 2 * whole.dataLabels.length ≤ 7 * instrs.length := by
  induction instrs generalizing currOrigPc whole with
  | nil =>
      obtain rfl := Option.some.inj emitted
      exact ⟨.new, by simp [new]⟩
  | cons instr rest inductionHypothesis =>
      obtain ⟨block, isBlock, emitted⟩ := Option.bind_eq_some_iff.mp emitted
      rw [relocateLoop_extend] at emitted
      obtain ⟨later, isLater, rfl⟩ := Option.map_eq_some_iff.mp emitted
      obtain ⟨pending, words⟩ := inductionHypothesis isLater
      have blockWords := relocateInstr_words isBlock
      refine ⟨(relocateInstr_pending isBlock).extend pending, ?_⟩
      simp [TurboAssembler.extend]
      omega

theorem literalLdrBranch_eq (assembler : TurboAssembler) (address : BitVec 64) :
    assembler.literalLdrBranch address =
      ⟨assembler.buffer ++ [PseudoLabel.encodeLdrLiteral unlinkedLdr 8, branchTmpWord false,
        address.extractLsb' 0 32, address.extractLsb' 32 32], assembler.dataLabels⟩ := by
  have waiting : (assembler.ldrLabel tmpReg0 .new).1.br tmpReg0 =
      ⟨assembler.buffer ++ [unlinkedLdr, branchTmpWord false], assembler.dataLabels⟩ := by
    simp [ldrLabel, PseudoLabel.isBound, PseudoLabel.new, ldrLiteral, br, emit]
    decide
  have label : (assembler.ldrLabel tmpReg0 .new).2 = ⟨0, [4 * assembler.buffer.length]⟩ := rfl
  unfold literalLdrBranch
  simp only [waiting, label, pseudoBind_single, emitInt64, linkToEnd]
  simp
  congr 1
  omega

/-- The block stands at the place, and its loads are linked. -/
structure Located (buffer : List Word) (place : Nat) (block : TurboAssembler) : Prop where
  word : ∀ index word, block.buffer[index]? = some word →
    (∀ entry ∈ block.dataLabels, entry.label.instructions ≠ [4 * index]) →
    buffer[place + index]? = some word
  load : ∀ entry ∈ block.dataLabels, ∀ position, entry.label = ⟨0, [4 * position]⟩ →
    LoadsLiteral buffer (place + position) entry.data

/-- A part of the block that holds no waiting load. -/
theorem Located.at {buffer : List Word} (before words after : List Word) {place : Nat}
    {entries : List RelocLabelEntry}
    (located : Located buffer place ⟨before ++ (words ++ after), entries⟩)
    (noLoad : ∀ index < words.length, ∀ entry ∈ entries,
      entry.label.instructions ≠ [4 * (before.length + index)]) :
    At buffer (place + before.length) words := by
  intro index word isWord
  have inside := (List.getElem?_eq_some_iff.mp isWord).1
  rw [Nat.add_assoc]
  refine located.word (before.length + index) word ?_ (noLoad index inside)
  rw [List.getElem?_append_right (Nat.le_add_right _ _), Nat.add_sub_cancel_left,
    List.getElem?_append_left inside, isWord]

theorem Located.whole {buffer words : List Word} {place : Nat}
    (located : Located buffer place ⟨words, []⟩) : At buffer place words := by
  intro index word isWord
  exact located.word index word isWord (by simp)

/-- The words before and behind the only load of a block, and the load. -/
theorem Located.single {buffer before after : List Word} {place : Nat} {data : BitVec 64}
    (located : Located buffer place
      ⟨before ++ unlinkedLdr :: after, [⟨⟨0, [4 * before.length]⟩, data⟩]⟩) :
    At buffer place before ∧ LoadsLiteral buffer (place + before.length) data ∧
      At buffer (place + before.length + 1) after := by
  refine ⟨?_, located.load _ List.mem_cons_self _ rfl, ?_⟩
  · exact located.at [] before _ (by
      simp
      omega)
  · intro index word isWord
    have found := located.word (before.length + 1 + index) word (by
      rw [List.getElem?_append_right (by omega),
        show before.length + 1 + index - before.length = index + 1 by omega,
        List.getElem?_cons_succ, isWord]) (by
      simp
      omega)
    rwa [Nat.add_assoc place, Nat.add_assoc place]

/-- A block in the middle of what was emitted. -/
theorem Located.of_extend {buffer : List Word} {before block after : TurboAssembler}
    (pendingBefore : Pending before) (pendingAfter : Pending after)
    (located : Located buffer 0 ((before.extend block).extend after)) :
    Located buffer before.buffer.length block where
  word := by
    intro index word isWord notWaiting
    have inside := (List.getElem?_eq_some_iff.mp isWord).1
    rw [← Nat.zero_add (before.buffer.length + index)]
    apply located.word
    · simp only [TurboAssembler.extend]
      rw [List.getElem?_append_left (by simp; omega),
        List.getElem?_append_right (Nat.le_add_right _ _), Nat.add_sub_cancel_left, isWord]
    · intro entry isEntry
      simp only [TurboAssembler.extend, List.mem_append, List.mem_map] at isEntry
      rcases isEntry with (isEntry | ⟨entry, isEntry, rfl⟩) | ⟨entry, isEntry, rfl⟩
      · obtain ⟨position, isLabel, isLdr⟩ := pendingBefore.waits entry isEntry
        have := (List.getElem?_eq_some_iff.mp isLdr).1
        simp [isLabel]
        omega
      · intro same
        apply notWaiting entry isEntry
        simp only [RelocLabelEntry.shift] at same
        obtain ⟨position, isPosition, shifted⟩ := List.map_eq_singleton_iff.mp same
        rw [isPosition]
        congr 1
        omega
      · obtain ⟨position, isLabel, -⟩ := pendingAfter.waits entry isEntry
        simp [RelocLabelEntry.shift, isLabel]
        omega
  load := by
    intro entry isEntry position isLabel
    have linked := located.load (entry.shift before.buffer.length) (by
      simp only [TurboAssembler.extend, List.mem_append, List.mem_map]
      exact Or.inl (Or.inr ⟨entry, isEntry, rfl⟩)) (before.buffer.length + position) (by
      simp [RelocLabelEntry.shift, isLabel]
      omega)
    rwa [Nat.zero_add] at linked

section Generated

variable {debug : Bool} {origin : BitVec 64} {instrs buffer : List Word}

/-- What is generated: the whole with its loads linked, and the branch behind it. -/
theorem generated_located
    (generated : genRelocateCodeAndBranch debug origin instrs = some buffer) :
    ∃ whole, relocateLoop debug origin instrs .new = some whole ∧
      Located buffer 0 (whole.literalLdrBranch (wordAt origin instrs.length)) ∧
      buffer.length ≤ 7 * instrs.length + 4 := by
  obtain ⟨whole, emitted, rfl⟩ := Option.map_eq_some_iff.mp generated
  obtain ⟨pending, words⟩ := relocateLoop_pending emitted
  set branched := whole.literalLdrBranch (wordAt origin instrs.length) with isBranched
  rw [literalLdrBranch_eq] at isBranched
  have stillPending : Pending branched := by
    rw [isBranched]
    exact pending.append _
  have bound := relocBind_entries stillPending.waits stillPending.distinct
  refine ⟨whole, emitted, ⟨?_, ?_⟩, ?_⟩
  · intro index word isWord notWaiting
    rw [Nat.zero_add]
    exact (bound.2.1 index (List.getElem?_eq_some_iff.mp isWord).1 notWaiting).trans isWord
  · intro entry isEntry position isLabel
    rw [Nat.zero_add]
    exact bound.2.2 entry isEntry position isLabel
  · refine Nat.le_trans (Nat.le_of_eq bound.1) ?_
    simp only [isBranched, List.length_append, List.length_cons, List.length_nil]
    omega

theorem entryOf_length {whole : TurboAssembler}
    (emitted : relocateLoop debug origin instrs .new = some whole) :
    entryOf debug origin instrs instrs.length = whole.buffer.length := by
  simp [entryOf, emitted]

/-- The block of every instruction. -/
theorem generated_block
    (generated : genRelocateCodeAndBranch debug origin instrs = some buffer)
    {index : Nat} {instr : Word} (isInstr : instrs[index]? = some instr) :
    ∃ block, relocateInstr debug (wordAt origin index) instr .new = some block ∧
      Located buffer (entryOf debug origin instrs index) block ∧
      entryOf debug origin instrs (index + 1) =
        entryOf debug origin instrs index + block.buffer.length := by
  obtain ⟨whole, emitted, located, -⟩ := generated_located generated
  obtain ⟨before, block, after, isBefore, isBlock, isAfter, rfl, entry, next⟩ :=
    exists_block emitted isInstr
  refine ⟨block, isBlock, ?_, by rw [next, entry]⟩
  rw [entry]
  have branch : ((before.extend block).extend after).literalLdrBranch
      (wordAt origin instrs.length) = (before.extend block).extend
        (after.literalLdrBranch (wordAt origin instrs.length)) := by
    simp [literalLdrBranch_eq, TurboAssembler.extend]
  rw [branch] at located
  refine located.of_extend (relocateLoop_pending isBefore).1 ?_
  rw [literalLdrBranch_eq]
  exact (relocateLoop_pending isAfter).1.append _

/-- The branch to the rest of the function. -/
theorem generated_rest
    (generated : genRelocateCodeAndBranch debug origin instrs = some buffer) :
    LoadsLiteral buffer (entryOf debug origin instrs instrs.length)
        (wordAt origin instrs.length) ∧
      buffer[entryOf debug origin instrs instrs.length + 1]? = some (branchTmpWord false) := by
  obtain ⟨whole, emitted, located, -⟩ := generated_located generated
  have pending := (relocateLoop_pending emitted).1
  rw [literalLdrBranch_eq] at located
  have stands := (located.at whole.buffer [_, _, _, _] []
    (by
      intro index _ entry isEntry
      obtain ⟨position, isLabel, isLdr⟩ := pending.waits entry isEntry
      have := (List.getElem?_eq_some_iff.mp isLdr).1
      simp [isLabel]
      omega))
  rw [entryOf_length emitted]
  rw [Nat.zero_add] at stands
  refine ⟨⟨whole.buffer.length + 2, by omega, ?_, stands.tail.tail.head,
    stands.tail.tail.tail.head⟩, stands.tail.head⟩
  rw [stands.head]
  congr 2
  omega

theorem generated_length
    (generated : genRelocateCodeAndBranch debug origin instrs = some buffer) :
    buffer.length ≤ 7 * instrs.length + 4 := by
  obtain ⟨-, -, -, short⟩ := generated_located generated
  exact short

end Generated

end AndroidPatch.Dobby.Arm64
