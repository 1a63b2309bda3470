import AndroidPatch.Dobby.Arm64.Assembler

/-!
Contract: `GenRelocateCodeAndBranch` for A64, which rewrites the instructions that a
trampoline is about to overwrite so that they can run elsewhere.

Owns:
- the offsets it decodes and the code it emits for each instruction;
- the layout of what it emits: the blocks of the instructions one behind the other, the
  branch to the rest of the function, the pool of branch targets.

`debug` is `DOBBY_DEBUG`: the blocks are wrapped in `nop`s, and `UNIMPLEMENTED()` aborts,
which is `none` here; without it, it does nothing.
-/

namespace AndroidPatch.Dobby.Arm64

open Library.A64

/-! ## Decoding -/

/-- `SignExtend` -/
def signExtend (x : BitVec 64) (M N : Nat) : BitVec 64 :=
  (x <<< (N - M)).sshiftRight (N - M)

def decodeImm14Offset (instr : Word) : BitVec 64 :=
  signExtend (bits instr 5 18 <<< 2) (2 + 14) 64

def decodeImm19Offset (instr : Word) : BitVec 64 :=
  signExtend (bits instr 5 23 <<< 2) (2 + 19) 64

def decodeImm26Offset (instr : Word) : BitVec 64 :=
  signExtend (bits instr 0 25 <<< 2) (2 + 26) 64

def decodeImmhiImmloOffset (instr : Word) : BitVec 64 :=
  let immhi := bits instr 5 23
  let immlo := bits instr 29 30
  signExtend (immlo + (immhi <<< 2)) (2 + 19) 64

def decodeImmhiImmloZero12Offset (instr : Word) : BitVec 64 :=
  decodeImmhiImmloOffset instr <<< 12

def decodeRt (instr : Word) : Reg := (bits instr 0 4).setWidth 5

def decodeRd (instr : Word) : Reg := (bits instr 0 4).setWidth 5

/-! ## Relocation -/

def debugNop (debug : Bool) (assembler : TurboAssembler) : TurboAssembler :=
  if debug then assembler.nop else assembler

/-- `ldr x0, #16`: the address is moved into the temporary register, the value loaded
from there. The register file is not looked at. -/
def relocateLdrLiteral (debug : Bool) (currOrigPc : BitVec 64) (instr : Word)
    (assembler : TurboAssembler) : Option TurboAssembler :=
  let rt := decodeRt instr
  let opc := bits instr 30 31
  let memoryAddress := decodeImm19Offset instr + currOrigPc
  let assembler := debugNop debug assembler
  let assembler := assembler.mov tmpReg0 memoryAddress
  if opc = 0 then
    some (debugNop debug (assembler.ldrMem (W rt) tmpReg0 0))
  else if opc = 1 then
    some (debugNop debug (assembler.ldrMem (X rt) tmpReg0 0))
  else if debug then none
  else some assembler

/-- `adr` and `adrp`. -/
def relocatePcRelAddressing (debug : Bool) (currOrigPc : BitVec 64) (instr : Word)
    (assembler : TurboAssembler) : TurboAssembler :=
  let rd := decodeRd instr
  let runtimeAddress :=
    if instr &&& 0x9F000000 = 0x10000000 then
      currOrigPc + decodeImmhiImmloOffset instr
    else
      alignFloor currOrigPc (1#64 <<< 12) + decodeImmhiImmloZero12Offset instr
  let assembler := debugNop debug assembler
  let assembler := assembler.mov (X rd) runtimeAddress
  debugNop debug assembler

/-- `b` and `bl`. -/
def relocateUnconditionalBranch (debug : Bool) (currOrigPc : BitVec 64) (instr : Word)
    (assembler : TurboAssembler) : TurboAssembler :=
  let branchAddress := decodeImm26Offset instr + currOrigPc
  let (assembler, entry) := assembler.appendRelocLabelEntry branchAddress
  let assembler := debugNop debug assembler
  let assembler := assembler.ldrEntry tmpReg0 entry
  let assembler :=
    if instr &&& 0xFC000000 = 0x94000000 then assembler.blr tmpReg0
    else assembler.br tmpReg0
  debugNop debug assembler

/-- The inverted branch over the two instructions that jump to the target. -/
def relocateBranch (debug : Bool) (branchInstr : Word) (branchAddress : BitVec 64)
    (assembler : TurboAssembler) : TurboAssembler :=
  let (assembler, entry) := assembler.appendRelocLabelEntry branchAddress
  let assembler := debugNop debug assembler
  let assembler := assembler.emit branchInstr
  let assembler := assembler.ldrEntry tmpReg0 entry
  let assembler := assembler.br tmpReg0
  debugNop debug assembler

/-- `tbz` and `tbnz` with the other outcome, three instructions ahead. -/
def invertTestBranch (instr : Word) : Word :=
  let op := (bits instr 24 24).setWidth 32 ^^^ 1
  setBits (setBit instr 24 op) 5 18 3

/-- `cbz` and `cbnz` with the other outcome, three instructions ahead. -/
def invertCompareBranch (instr : Word) : Word :=
  let op := (bits instr 24 24).setWidth 32 ^^^ 1
  setBits (setBit instr 24 op) 5 23 3

/-- `b.cond` with the lowest bit of the condition flipped, three instructions ahead. -/
def invertConditionalBranch (instr : Word) : Word :=
  let cond := (bits instr 0 3).setWidth 32 ^^^ 1
  setBits (setBits instr 0 3 cond) 5 23 3

/-- One iteration of the loop. -/
def relocateInstr (debug : Bool) (currOrigPc : BitVec 64) (instr : Word)
    (assembler : TurboAssembler) : Option TurboAssembler :=
  if instr &&& 0x3B000000 = 0x18000000 then
    relocateLdrLiteral debug currOrigPc instr assembler
  else if instr &&& 0x1F000000 = 0x10000000 then
    some (relocatePcRelAddressing debug currOrigPc instr assembler)
  else if instr &&& 0x7C000000 = 0x14000000 then
    some (relocateUnconditionalBranch debug currOrigPc instr assembler)
  else if instr &&& 0x7E000000 = 0x36000000 then
    some (relocateBranch debug (invertTestBranch instr)
      (decodeImm14Offset instr + currOrigPc) assembler)
  else if instr &&& 0x7E000000 = 0x34000000 then
    some (relocateBranch debug (invertCompareBranch instr)
      (decodeImm19Offset instr + currOrigPc) assembler)
  else if instr &&& 0xFE000000 = 0x54000000 then
    some (relocateBranch debug (invertConditionalBranch instr)
      (decodeImm19Offset instr + currOrigPc) assembler)
  else some (assembler.emit instr)

/-- The loop over the instructions to relocate. -/
def relocateLoop (debug : Bool) (currOrigPc : BitVec 64) :
    List Word → TurboAssembler → Option TurboAssembler
  | [], assembler => some assembler
  | instr :: rest, assembler =>
      (relocateInstr debug currOrigPc instr assembler).bind
        (relocateLoop debug (currOrigPc + 4#64) rest)

/-- `GenRelocateCodeAndBranch`: the words of the code it generates for the instructions
that stand at `origin`. -/
def genRelocateCodeAndBranch (debug : Bool) (origin : BitVec 64) (instrs : List Word) :
    Option (List Word) :=
  (relocateLoop debug origin instrs .new).map fun assembler =>
    let currOrigPc := origin + BitVec.ofNat 64 (4 * instrs.length)
    (assembler.literalLdrBranch currOrigPc).relocBind.buffer

/-! ## Blocks -/

/-- The entry of a block that stands behind so many words. -/
def RelocLabelEntry.shift (words : Nat) (entry : RelocLabelEntry) : RelocLabelEntry :=
  { entry with label :=
    { entry.label with instructions := entry.label.instructions.map (· + 4 * words) } }

namespace TurboAssembler

/-- What was emitted, and the block behind it. -/
def extend (assembler block : TurboAssembler) : TurboAssembler where
  buffer := assembler.buffer ++ block.buffer
  dataLabels :=
    assembler.dataLabels ++ block.dataLabels.map (RelocLabelEntry.shift assembler.buffer.length)

@[simp]
theorem extend_new (assembler : TurboAssembler) : assembler.extend .new = assembler := by
  simp [extend, new]

theorem extend_extend (assembler first second : TurboAssembler) :
    (assembler.extend first).extend second = assembler.extend (first.extend second) := by
  simp [extend, RelocLabelEntry.shift, Nat.mul_add, Nat.add_comm]

theorem emit_extend (assembler block : TurboAssembler) (word : Word) :
    (assembler.extend block).emit word = assembler.extend (block.emit word) := by
  simp [extend, emit]

theorem appendRelocLabelEntry_extend (assembler block : TurboAssembler) (data : BitVec 64) :
    (assembler.extend block).appendRelocLabelEntry data =
      (assembler.extend (block.appendRelocLabelEntry data).1,
        assembler.dataLabels.length + block.dataLabels.length) := by
  simp [extend, appendRelocLabelEntry, RelocLabelEntry.shift, PseudoLabel.new]

theorem mov_extend (assembler block : TurboAssembler) (rd : Register) (imm : BitVec 64) :
    (assembler.extend block).mov rd imm = assembler.extend (block.mov rd imm) := by
  simp only [mov, movz, movk, emit_extend]

/-- The load of an entry that is not bound waits for it. -/
theorem ldrEntry_eq {assembler : TurboAssembler} {rt : Register} {entry : Nat}
    {found : RelocLabelEntry} (isEntry : assembler.dataLabels[entry]? = some found)
    (unbound : found.label.pos_ = 0) :
    assembler.ldrEntry rt entry =
      { buffer := (assembler.ldrLiteral rt 0).buffer
        dataLabels := assembler.dataLabels.set entry
          { found with label := found.label.linkTo assembler.getSize } } := by
  unfold ldrEntry ldrLabel
  rw [isEntry]
  simp [PseudoLabel.isBound, unbound, ldrLiteral, emit]

theorem ldrEntry_extend {assembler block : TurboAssembler} {rt : Register} {entry : Nat}
    {found : RelocLabelEntry} (isEntry : block.dataLabels[entry]? = some found)
    (unbound : found.label.pos_ = 0) :
    (assembler.extend block).ldrEntry rt (assembler.dataLabels.length + entry) =
      assembler.extend (block.ldrEntry rt entry) := by
  have shifted : (assembler.extend block).dataLabels[assembler.dataLabels.length + entry]? =
      some (found.shift assembler.buffer.length) := by
    rw [extend, List.getElem?_append_right (Nat.le_add_right _ _), Nat.add_sub_cancel_left,
      List.getElem?_map, isEntry]
    rfl
  rw [ldrEntry_eq shifted unbound, ldrEntry_eq isEntry unbound]
  simp [extend, ldrLiteral, emit, RelocLabelEntry.shift, PseudoLabel.linkTo, getSize,
    List.map_set, Nat.mul_add, Nat.add_comm]

end TurboAssembler

open TurboAssembler

theorem debugNop_extend (debug : Bool) (assembler block : TurboAssembler) :
    debugNop debug (assembler.extend block) = assembler.extend (debugNop debug block) := by
  unfold debugNop
  split
  · exact emit_extend ..
  · rfl

/-- An entry is appended, a load of it emitted a little later. -/
theorem ldrEntry_appended (assembler block : TurboAssembler) (rt : Register)
    (data : BitVec 64) (isEntry : block.dataLabels = [⟨.new, data⟩]) :
    (assembler.extend block).ldrEntry rt assembler.dataLabels.length =
      assembler.extend (block.ldrEntry rt 0) := by
  have found : block.dataLabels[0]? = some ⟨.new, data⟩ := by
    rw [isEntry]
    rfl
  exact ldrEntry_extend found rfl

theorem debugNop_dataLabels (debug : Bool) (assembler : TurboAssembler) :
    (debugNop debug assembler).dataLabels = assembler.dataLabels := by
  unfold debugNop
  split <;> rfl

theorem relocateBranch_extend (debug : Bool) (branchInstr : Word) (branchAddress : BitVec 64)
    (assembler : TurboAssembler) :
    relocateBranch debug branchInstr branchAddress assembler =
      assembler.extend (relocateBranch debug branchInstr branchAddress .new) := by
  have appended := appendRelocLabelEntry_extend assembler .new branchAddress
  rw [extend_new] at appended
  simp only [relocateBranch, appended, debugNop_extend, emit_extend, br]
  rw [show assembler.dataLabels.length + TurboAssembler.new.dataLabels.length =
      assembler.dataLabels.length from rfl,
    ldrEntry_appended assembler _ _ branchAddress
      (by simp [emit, debugNop_dataLabels, appendRelocLabelEntry, new])]
  simp only [emit_extend, debugNop_extend]
  rfl

theorem relocateUnconditionalBranch_extend (debug : Bool) (currOrigPc : BitVec 64)
    (instr : Word) (assembler : TurboAssembler) :
    relocateUnconditionalBranch debug currOrigPc instr assembler =
      assembler.extend (relocateUnconditionalBranch debug currOrigPc instr .new) := by
  have appended := appendRelocLabelEntry_extend assembler .new
    (decodeImm26Offset instr + currOrigPc)
  rw [extend_new] at appended
  simp only [relocateUnconditionalBranch, appended, debugNop_extend]
  rw [show assembler.dataLabels.length + TurboAssembler.new.dataLabels.length =
      assembler.dataLabels.length from rfl,
    ldrEntry_appended assembler _ _ (decodeImm26Offset instr + currOrigPc)
      (by simp [debugNop_dataLabels, appendRelocLabelEntry, new])]
  split <;> simp only [br, blr, emit_extend, debugNop_extend] <;> rfl

theorem relocatePcRelAddressing_extend (debug : Bool) (currOrigPc : BitVec 64) (instr : Word)
    (assembler : TurboAssembler) :
    relocatePcRelAddressing debug currOrigPc instr assembler =
      assembler.extend (relocatePcRelAddressing debug currOrigPc instr .new) := by
  conv_lhs => rw [← extend_new assembler]
  simp only [relocatePcRelAddressing, debugNop_extend, mov_extend]

theorem relocateLdrLiteral_extend (debug : Bool) (currOrigPc : BitVec 64) (instr : Word)
    (assembler : TurboAssembler) :
    relocateLdrLiteral debug currOrigPc instr assembler =
      (relocateLdrLiteral debug currOrigPc instr .new).map assembler.extend := by
  conv_lhs => rw [← extend_new assembler]
  simp only [relocateLdrLiteral, debugNop_extend, mov_extend, ldrMem, emit_extend]
  split
  · rfl
  split
  · rfl
  split <;> rfl

/-- Every instruction is relocated alike, whatever has been emitted before. -/
theorem relocateInstr_extend (debug : Bool) (currOrigPc : BitVec 64) (instr : Word)
    (assembler : TurboAssembler) :
    relocateInstr debug currOrigPc instr assembler =
      (relocateInstr debug currOrigPc instr .new).map assembler.extend := by
  unfold relocateInstr
  split
  · exact relocateLdrLiteral_extend ..
  split
  · exact congrArg some (relocatePcRelAddressing_extend ..)
  split
  · exact congrArg some (relocateUnconditionalBranch_extend ..)
  split
  · exact congrArg some (relocateBranch_extend ..)
  split
  · exact congrArg some (relocateBranch_extend ..)
  split
  · exact congrArg some (relocateBranch_extend ..)
  · have emitted := emit_extend assembler .new instr
    rw [extend_new] at emitted
    exact congrArg some emitted

/-! ## The loop -/

theorem relocateLoop_extend (debug : Bool) (currOrigPc : BitVec 64) (instrs : List Word)
    (assembler : TurboAssembler) :
    relocateLoop debug currOrigPc instrs assembler =
      (relocateLoop debug currOrigPc instrs .new).map assembler.extend := by
  induction instrs generalizing currOrigPc assembler with
  | nil => simp [relocateLoop]
  | cons instr rest inductionHypothesis =>
      unfold relocateLoop
      rw [relocateInstr_extend]
      cases relocateInstr debug currOrigPc instr .new with
      | none => rfl
      | some block =>
          simp only [Option.map_some, Option.bind_some]
          rw [inductionHypothesis _ (assembler.extend block), inductionHypothesis _ block]
          cases relocateLoop debug (currOrigPc + 4#64) rest .new with
          | none => rfl
          | some later => simp [extend_extend]

theorem relocateLoop_append (debug : Bool) (currOrigPc : BitVec 64) (early late : List Word)
    (assembler : TurboAssembler) :
    relocateLoop debug currOrigPc (early ++ late) assembler =
      (relocateLoop debug currOrigPc early assembler).bind
        (relocateLoop debug (currOrigPc + BitVec.ofNat 64 (4 * early.length)) late) := by
  induction early generalizing currOrigPc assembler with
  | nil => simp [relocateLoop]
  | cons instr rest inductionHypothesis =>
      have next : currOrigPc + 4#64 + BitVec.ofNat 64 (4 * rest.length) =
          currOrigPc + BitVec.ofNat 64 (4 * (instr :: rest).length) := by
        rw [List.length_cons, Nat.mul_succ, Nat.add_comm, BitVec.ofNat_add, BitVec.add_assoc]
      simp only [List.cons_append, relocateLoop]
      cases relocateInstr debug currOrigPc instr assembler with
      | none => rfl
      | some block => simp only [Option.bind_some, inductionHypothesis, next]

/-- The index of the first word for the instruction with this number. -/
def entryOf (debug : Bool) (origin : BitVec 64) (instrs : List Word) (index : Nat) : Nat :=
  ((relocateLoop debug origin (instrs.take index) .new).map (·.buffer.length)).getD 0

/-- What was emitted splits at every instruction. -/
theorem exists_block {debug : Bool} {origin : BitVec 64} {instrs : List Word}
    {whole : TurboAssembler} (emitted : relocateLoop debug origin instrs .new = some whole)
    {index : Nat} {instr : Word} (isInstr : instrs[index]? = some instr) :
    ∃ before block after : TurboAssembler,
      relocateLoop debug origin (instrs.take index) .new = some before ∧
      relocateInstr debug (origin + BitVec.ofNat 64 (4 * index)) instr .new = some block ∧
      relocateLoop debug (origin + BitVec.ofNat 64 (4 * index) + 4#64) (instrs.drop (index + 1))
        .new = some after ∧
      whole = (before.extend block).extend after ∧
      entryOf debug origin instrs index = before.buffer.length ∧
      entryOf debug origin instrs (index + 1) = before.buffer.length + block.buffer.length := by
  obtain ⟨inside, isInstr⟩ := List.getElem?_eq_some_iff.mp isInstr
  have split : instrs = instrs.take index ++ instr :: instrs.drop (index + 1) := by
    rw [← isInstr, ← List.drop_eq_getElem_cons inside, List.take_append_drop]
  have takeLength : (instrs.take index).length = index := by
    rw [List.length_take]
    omega
  rw [split, relocateLoop_append, takeLength] at emitted
  obtain ⟨before, isBefore, emitted⟩ := Option.bind_eq_some_iff.mp emitted
  rw [relocateLoop, relocateInstr_extend] at emitted
  obtain ⟨_, extended, emitted⟩ := Option.bind_eq_some_iff.mp emitted
  obtain ⟨block, isBlock, rfl⟩ := Option.map_eq_some_iff.mp extended
  rw [relocateLoop_extend] at emitted
  obtain ⟨after, isAfter, rfl⟩ := Option.map_eq_some_iff.mp emitted
  refine ⟨before, block, after, isBefore, isBlock, isAfter, rfl, ?_, ?_⟩
  · simp [entryOf, isBefore]
  · have takeNext : instrs.take (index + 1) = instrs.take index ++ [instr] := by
      rw [List.take_succ_eq_append_getElem inside, isInstr]
    unfold entryOf
    rw [takeNext, relocateLoop_append, takeLength, isBefore, Option.bind_some, relocateLoop,
      relocateInstr_extend, isBlock]
    simp [relocateLoop, extend]

/-! ## Waiting loads -/

/-- `ldr x17` before it is linked. -/
def unlinkedLdr : Word := 0x58000011

/-- The loads that wait for an entry, one for each. -/
structure Pending (assembler : TurboAssembler) : Prop where
  waits : ∀ entry ∈ assembler.dataLabels, ∃ position,
    entry.label = ⟨0, [4 * position]⟩ ∧ assembler.buffer[position]? = some unlinkedLdr
  distinct : assembler.dataLabels.Pairwise fun entry other =>
    entry.label.instructions ≠ other.label.instructions

theorem Pending.new : Pending .new where
  waits := by simp [TurboAssembler.new]
  distinct := .nil

theorem Pending.extend {assembler block : TurboAssembler} (pending : Pending assembler)
    (later : Pending block) : Pending (assembler.extend block) where
  waits := by
    intro entry isEntry
    rcases List.mem_append.mp isEntry with isEntry | isEntry
    · obtain ⟨position, isLabel, isLdr⟩ := pending.waits entry isEntry
      have inside := (List.getElem?_eq_some_iff.mp isLdr).1
      exact ⟨position, isLabel, by rw [TurboAssembler.extend, List.getElem?_append_left inside, isLdr]⟩
    · obtain ⟨entry, isLater, rfl⟩ := List.mem_map.mp isEntry
      obtain ⟨position, isLabel, isLdr⟩ := later.waits entry isLater
      refine ⟨assembler.buffer.length + position, ?_, ?_⟩
      · simp [RelocLabelEntry.shift, isLabel]
        omega
      · rw [TurboAssembler.extend, List.getElem?_append_right (Nat.le_add_right _ _),
          Nat.add_sub_cancel_left, isLdr]
  distinct := by
    refine List.pairwise_append.mpr ⟨pending.distinct, ?_, ?_⟩
    · refine List.pairwise_map.mpr (later.distinct.imp fun different same => different ?_)
      exact List.map_injective_iff.mpr (fun _ _ => Nat.add_right_cancel) same
    · intro entry isEntry other isOther
      obtain ⟨other, isLater, rfl⟩ := List.mem_map.mp isOther
      obtain ⟨position, isLabel, isLdr⟩ := pending.waits entry isEntry
      obtain ⟨position', isLabel', -⟩ := later.waits other isLater
      have inside := (List.getElem?_eq_some_iff.mp isLdr).1
      simp [RelocLabelEntry.shift, isLabel, isLabel']
      omega

/-! ## Binding -/

/-- The load at the position gets the data. -/
def LoadsLiteral (buffer : List Word) (position : Nat) (data : BitVec 64) : Prop :=
  ∃ place : Nat, position < place ∧
    buffer[position]? =
      some (PseudoLabel.encodeLdrLiteral unlinkedLdr (4 * place - 4 * position)) ∧
    buffer[place]? = some (data.extractLsb' 0 32) ∧
    buffer[place + 1]? = some (data.extractLsb' 32 32)

/-- The load at the position, linked to the end of the buffer. -/
def linkToEnd (buffer : List Word) (position : Nat) : List Word :=
  buffer.set position (PseudoLabel.encodeLdrLiteral (buffer.getD position 0)
    (4 * buffer.length - 4 * position))

theorem PseudoLabel.pos_bindTo (label : PseudoLabel) (position : Nat) :
    (label.bindTo position).pos = position := by
  unfold PseudoLabel.bindTo PseudoLabel.pos
  rw [if_pos (by simp only; omega)]
  simp only
  omega

theorem pseudoBind_single (assembler : TurboAssembler) (position : Nat) :
    assembler.pseudoBind ⟨0, [4 * position]⟩ =
      ⟨linkToEnd assembler.buffer position, assembler.dataLabels⟩ := by
  simp only [pseudoBind, PseudoLabel.linkConfusedInstructions, PseudoLabel.pos_bindTo]
  simp [PseudoLabel.bindTo, PseudoLabel.hasConfusedInstructions, getSize, linkToEnd]

/-- What `RelocBind` makes of the buffer: it is filled in where a load waits, the data
stand behind it, and nothing else changes. -/
theorem relocBind_entries {entries : List RelocLabelEntry} {assembler : TurboAssembler}
    (waits : ∀ entry ∈ entries, ∃ position,
      entry.label = ⟨0, [4 * position]⟩ ∧ assembler.buffer[position]? = some unlinkedLdr)
    (distinct : entries.Pairwise fun entry other =>
      entry.label.instructions ≠ other.label.instructions) :
    let bound := (entries.foldl (fun assembler entry =>
      (assembler.pseudoBind entry.label).emitInt64 entry.data) assembler).buffer
    bound.length = assembler.buffer.length + 2 * entries.length ∧
    (∀ index < assembler.buffer.length,
      (∀ entry ∈ entries, entry.label.instructions ≠ [4 * index]) →
      bound[index]? = assembler.buffer[index]?) ∧
    ∀ entry ∈ entries, ∀ position, entry.label = ⟨0, [4 * position]⟩ →
      LoadsLiteral bound position entry.data := by
  induction entries generalizing assembler with
  | nil => simp
  | cons head rest inductionHypothesis =>
      obtain ⟨position, isLabel, isLdr⟩ := waits head List.mem_cons_self
      obtain ⟨inside, isLdr⟩ := List.getElem?_eq_some_iff.mp isLdr
      obtain ⟨different, distinct⟩ := List.pairwise_cons.mp distinct
      set stepped := (assembler.pseudoBind head.label).emitInt64 head.data with isStepped
      have buffer : stepped.buffer = assembler.buffer.set position
          (PseudoLabel.encodeLdrLiteral unlinkedLdr
            (4 * assembler.buffer.length - 4 * position)) ++
          [head.data.extractLsb' 0 32, head.data.extractLsb' 32 32] := by
        rw [isStepped, isLabel, pseudoBind_single, emitInt64, linkToEnd,
          List.getD_eq_getElem?_getD, List.getElem?_eq_getElem inside, isLdr, Option.getD_some]
      have untouched (index : Nat) (small : index < assembler.buffer.length)
          (other : index ≠ position) : stepped.buffer[index]? = assembler.buffer[index]? := by
        rw [buffer, List.getElem?_append_left (by simpa), List.getElem?_set_ne other.symm]
      have stillWaits : ∀ entry ∈ rest, ∃ position, entry.label = ⟨0, [4 * position]⟩ ∧
          stepped.buffer[position]? = some unlinkedLdr := by
        intro entry isEntry
        obtain ⟨position', isLabel', isLdr'⟩ := waits entry (List.mem_cons_of_mem _ isEntry)
        refine ⟨position', isLabel', ?_⟩
        rw [untouched position' (List.getElem?_eq_some_iff.mp isLdr').1, isLdr']
        rintro rfl
        exact different entry isEntry (by rw [isLabel, isLabel'])
      obtain ⟨length, kept, loads⟩ := inductionHypothesis stillWaits distinct
      simp only [List.foldl_cons, ← isStepped]
      have steppedLength : stepped.buffer.length = assembler.buffer.length + 2 := by
        simp [buffer]
      refine ⟨by rw [length, steppedLength, List.length_cons]; omega, ?_, ?_⟩
      · intro index small notWaiting
        rw [kept index (by omega) fun entry isEntry =>
          notWaiting entry (List.mem_cons_of_mem _ isEntry)]
        apply untouched index small
        rintro rfl
        exact notWaiting head List.mem_cons_self (by rw [isLabel])
      · intro entry isEntry position' isLabel'
        rcases List.mem_cons.mp isEntry with rfl | isEntry
        · obtain rfl : position' = position := by
            rw [isLabel] at isLabel'
            simpa using isLabel'.symm
          have keptHere := kept position' (by omega) fun other isOther same =>
            different other isOther (by rw [isLabel, same])
          have keptBehind (place : Nat) (behind : assembler.buffer.length ≤ place)
              (small : place < stepped.buffer.length) :=
            kept place small fun other isOther same => by
              obtain ⟨_, isLabel', isLdr'⟩ := waits other (List.mem_cons_of_mem _ isOther)
              have := (List.getElem?_eq_some_iff.mp isLdr').1
              simp [isLabel'] at same
              omega
          refine ⟨assembler.buffer.length, inside, ?_, ?_, ?_⟩
          · rw [keptHere, buffer, List.getElem?_append_left (by simpa),
              List.getElem?_set_self inside]
          · rw [keptBehind _ (Nat.le_refl _) (by omega), buffer]
            simp
          · rw [keptBehind _ (Nat.le_succ _) (by omega), buffer]
            simp
        · exact loads entry isEntry position' isLabel'

end AndroidPatch.Dobby.Arm64
