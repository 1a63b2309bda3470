import AndroidPatch.Dobby.Arm64.Layout

/-!
Contract: the relocated code does what the instructions at the origin do.

Owns:
- which instructions may be relocated, and where: the rest is relocated to code that does
  something else;
- what the block of an instruction does, by class;
- that entering the relocated code at the block of any instruction ends where a pass over
  the instructions from there on ends, with the same state up to the hidden registers.

`hidden` are the registers whose values may differ between the two runs, the temporary
register among them. `unlike` are the bytes of the memory that may differ: the patched
instructions and the generated code. `code` are the bytes that must not be stored to.
-/

namespace AndroidPatch.Dobby.Arm64

open Library.A64 Library.ByteMemory TurboAssembler

universe u
variable {σ : Type u} (cpu : Cpu σ) (hidden : Set Reg) (unlike code : Set Addr)

/-- Neither the place of the instruction nor anything hidden matters for what it does, and
it does not store to the code. -/
structure Blind (word : Word) (pc : Addr) (state : State σ) : Prop where
  target : ∀ pc' state', Agrees hidden unlike state state' →
    (exec cpu word pc' state').2 = (exec cpu word pc state).2
  agrees : ∀ pc' state', Agrees hidden unlike state state' →
    Agrees hidden unlike (exec cpu word pc state).1 (exec cpu word pc' state').1
  keeps : ∀ pc' state', Agrees hidden unlike state state' →
    ∀ address ∈ code, (exec cpu word pc' state').1.mem address = state'.mem address

/-- The instruction keeps its meaning when it is relocated, in the order in which the
relocation tells the classes apart:
* a literal is loaded as 64 bits into a general register, whatever the instruction says;
* the inverse of a condition is its lowest bit flipped, but not for the two conditions that
  always hold;
* what is copied must not depend on where it stands, `blr` apart. -/
def Relocatable (word : Word) (pc : Addr) (state : State σ) : Prop :=
  if word &&& 0x3B000000 = 0x18000000 then
    word &&& 0xFF000000 = 0x58000000 ∧
      ∀ part < 8, pc + distance (field word 5 19) + BitVec.ofNat 64 part ∉ unlike
  else if word &&& 0x1F000000 = 0x10000000 then True
  else if word &&& 0x7C000000 = 0x14000000 then True
  else if word &&& 0x7E000000 = 0x36000000 then field word 0 5 ∉ hidden
  else if word &&& 0x7E000000 = 0x34000000 then field word 0 5 ∉ hidden
  else if word &&& 0xFE000000 = 0x54000000 then
    word &&& 0xFF000010 = 0x54000000 ∧ field word 0 4 < 14
  else if word &&& 0xFFFFFC1F = 0xD63F0000 then field word 5 5 ∉ hidden
  else Blind cpu hidden unlike code word pc state

/-! ## Blocks at work -/

section Blocks

variable {cpu} {start : Addr} {buffer : List Word} {state : State σ} {place : Nat}
variable (holds : Holds state.mem start buffer)
include holds

theorem reaches_padding {debug : Bool} (stands : At buffer place (padding debug)) :
    Reaches cpu (wordAt start place, state)
      (wordAt start (place + (padding debug).length), state) := by
  cases debug with
  | false => exact .refl cpu _
  | true => exact reaches_next holds stands.head (exec_nop ..)

/-- A block without waiting loads goes through its `nop`s. -/
theorem reaches_padded {debug : Bool} {words : List Word} {after : State σ}
    (stands : At buffer place (padding debug ++ (words ++ padding debug)))
    (holdsAfter : Holds after.mem start buffer)
    (core : Reaches cpu (wordAt start (place + (padding debug).length), state)
      (wordAt start (place + (padding debug).length + words.length), after)) :
    Reaches cpu (wordAt start place, state)
      (wordAt start (place + (padding debug ++ (words ++ padding debug)).length), after) := by
  refine (reaches_padding holds stands.left).trans (core.trans ?_)
  have last : Reaches cpu _ _ := reaches_padding holdsAfter stands.right.right
  rwa [show place + (padding debug).length + words.length + (padding debug).length =
      place + (padding debug ++ (words ++ padding debug)).length by
    simp only [List.length_append]
    omega] at last

/-- The load from the pool and the branch through the temporary register. -/
theorem reaches_branchTmp {data : BitVec 64} {link : Bool} (small : buffer.length ≤ 2 ^ 18)
    (loads : LoadsLiteral buffer place data)
    (branch : buffer[place + 1]? = some (branchTmpWord link)) :
    Reaches cpu (wordAt start place, state)
      (data, if link then (state.setReg 17 data).setReg 30 (wordAt start (place + 2))
        else state.setReg 17 data) := by
  obtain ⟨word, isWord, executed⟩ := exec_linked cpu holds loads small
  refine (reaches_next holds isWord executed).trans (reaches_jump ?_ branch ?_)
  · rwa [State.setReg_mem]
  · rw [exec_branchTmp, State.setReg_x_self _ _ (by decide), wordAt_succ]

end Blocks

/-! ## Instructions at the origin -/

section Origin

variable {cpu} {instr : Word} {pc : Addr} {state : State σ}

theorem opc_of_ldrLiteral (isClass : instr &&& 0xFF000000 = 0x58000000) :
    bits instr 30 31 = 1 := by
  have opc : field instr 30 2 = field (instr &&& 0xFF000000) 30 2 := by
    unfold field
    rw [BitVec.extractLsb'_and, show BitVec.extractLsb' 30 2 (0xFF000000 : Word) = .allOnes 2
      from rfl, BitVec.and_allOnes]
  rw [bits_eq_field instr 30 31 2 rfl (by omega), opc, isClass]
  rfl

theorem exec_pcRelAddressing (isClass : instr &&& 0x1F000000 = 0x10000000) :
    exec cpu instr pc state = (state.setReg (field instr 0 5) (runtimeAddress pc instr), none) := by
  rcases and_or_twoPow isClass 31 with isAdr | isAdrp
  · have isAdr : instr &&& 0x9F000000 = 0x10000000 := isAdr
    simp only [exec, decode_adr isAdr, runtimeAddress, if_pos isAdr, decodeImmhiImmloOffset_eq]
  · have isAdrp : instr &&& 0x9F000000 = 0x90000000 := isAdrp
    have notAdr : instr &&& 0x9F000000 ≠ 0x10000000 := by
      rw [isAdrp]
      decide
    simp only [exec, decode_adrp isAdrp, runtimeAddress, if_neg notAdr,
      decodeImmhiImmloZero12Offset, decodeImmhiImmloOffset_eq]
    rfl

theorem exec_unconditionalBranch (isClass : instr &&& 0x7C000000 = 0x14000000) :
    exec cpu instr pc state =
      (if instr &&& 0xFC000000 = 0x94000000 then state.setReg 30 (pc + 4#64) else state,
        some (decodeImm26Offset instr + pc)) := by
  rw [decodeImm26Offset_eq, BitVec.add_comm (distance _)]
  rcases and_or_twoPow isClass 31 with isB | isBl
  · have isB : instr &&& 0xFC000000 = 0x14000000 := isB
    have notBl : instr &&& 0xFC000000 ≠ 0x94000000 := by
      rw [isB]
      decide
    simp only [exec, decode_b isB, if_neg notBl]
  · have isBl : instr &&& 0xFC000000 = 0x94000000 := isBl
    simp only [exec, decode_bl isBl, if_pos isBl]

end Origin

/-! ## Relocated code -/

/-- Instructions at their origin and the code generated for them. The loads from the pool
reach a megabyte, which bounds the number of instructions. -/
structure Relocated where
  debug : Bool
  origin : Addr
  instrs : List Word
  start : Addr
  buffer : List Word
  generated : genRelocateCodeAndBranch debug origin instrs = some buffer
  few : instrs.length ≤ 2 ^ 15

namespace Relocated

variable (relocated : Relocated)

/-- The index of the first word for an instruction. -/
def entry (index : Nat) : Nat := entryOf relocated.debug relocated.origin relocated.instrs index

theorem small : relocated.buffer.length ≤ 2 ^ 18 := by
  have short := generated_length relocated.generated
  have few := relocated.few
  omega

/-- Control may come here to go on with the instruction: to the first word for it or to
the `nop` that ends the block before it. -/
def Landing (index : Nat) (pc : Addr) : Prop :=
  ∃ place, pc = wordAt relocated.start place ∧
    (place = relocated.entry index ∨
      place + 1 = relocated.entry index ∧ relocated.buffer[place]? = some 0xD503201F)

/-- The states agree or, after a call, they agree up to the link register, which holds the
return address in one and a landing for the instruction there in the other. -/
def Resumes (state state' : State σ) : Prop :=
  Agrees hidden unlike state state' ∨
    ∃ index ≤ relocated.instrs.length, state.x 30 = wordAt relocated.origin index ∧
      relocated.Landing index (state'.x 30) ∧ Agrees (insert 30 hidden) unlike state state'

/-- The block of an instruction does what the instruction does. -/
def Follows (index : Nat) (state state' : State σ) (result : State σ × Option Addr) : Prop :=
  ∃ after', Reaches cpu (wordAt relocated.start (relocated.entry index), state')
      (result.2.getD (wordAt relocated.start (relocated.entry (index + 1))), after') ∧
    relocated.Resumes hidden unlike result.1 after' ∧
    (result.2 = none → Agrees hidden unlike result.1 after') ∧
    ∀ address ∈ code,
      result.1.mem address = state.mem address ∧ after'.mem address = state'.mem address

variable {relocated cpu hidden unlike code} {index : Nat} {instr : Word} {state state' : State σ}
variable {result : State σ × Option Addr}

theorem follows_of_agrees (after' : State σ)
    (reaches : Reaches cpu (wordAt relocated.start (relocated.entry index), state')
      (result.2.getD (wordAt relocated.start (relocated.entry (index + 1))), after'))
    (agrees : Agrees hidden unlike result.1 after')
    (kept : ∀ address ∈ code,
      result.1.mem address = state.mem address ∧ after'.mem address = state'.mem address) :
    relocated.Follows cpu hidden unlike code index state state' result :=
  ⟨after', reaches, .inl agrees, fun _ => agrees, kept⟩

/-- The place behind the linking branch is a landing for the next instruction. -/
theorem landing_of_call {debug : Bool} (isDebug : debug = relocated.debug) {place : Nat}
    (isNext : relocated.entry (index + 1) = place + (padding debug).length)
    (stands : At relocated.buffer place (padding debug)) :
    relocated.Landing (index + 1) (wordAt relocated.start place) := by
  refine ⟨place, rfl, ?_⟩
  cases debug with
  | false => exact .inl isNext.symm
  | true => exact .inr ⟨isNext.symm, stands.head⟩

section Blocks

variable (relocated)
variable (holds : Holds state'.mem relocated.start relocated.buffer)
variable {block : TurboAssembler}
  (located : Located relocated.buffer (relocated.entry index) block)
  (next : relocated.entry (index + 1) = relocated.entry index + block.buffer.length)
include holds located next

/-- The literal is loaded from where the instruction at the origin would load it. -/
theorem reaches_ldrLiteral
    (emitted : relocateLdrLiteral relocated.debug (wordAt relocated.origin index) instr .new =
      some block)
    (isClass : instr &&& 0xFF000000 = 0x58000000) {literal : Addr}
    (isLiteral : literal = wordAt relocated.origin index + distance (field instr 5 19)) :
    Reaches cpu (wordAt relocated.start (relocated.entry index), state')
      (wordAt relocated.start (relocated.entry (index + 1)),
        (state'.setReg 17 literal).setReg (field instr 0 5) (read64 state'.mem literal)) := by
  obtain ⟨load, after, -, -, rfl, isLoad⟩ := relocateLdrLiteral_new emitted
  obtain ⟨rfl, rfl⟩ := isLoad (opc_of_ldrLiteral isClass)
  rw [decodeImm19Offset_eq, BitVec.add_comm, ← isLiteral, decodeRt_eq] at located next
  rw [← List.append_assoc (movWords _ _)] at located next
  have stands := located.whole
  rw [next]
  refine reaches_padded holds stands (by simpa using holds) ?_
  have core := stands.right.left
  refine (reaches_mov cpu holds core.left).trans ?_
  refine (reaches_next (by simpa using holds) core.right.head (exec_ldrTmp ..)).trans ?_
  rw [State.setReg_mem, State.setReg_x_self _ _ (by decide)]
  exact .refl cpu _

theorem reaches_pcRelAddressing
    (isBlock : relocatePcRelAddressing relocated.debug (wordAt relocated.origin index) instr .new =
      block) :
    Reaches cpu (wordAt relocated.start (relocated.entry index), state')
      (wordAt relocated.start (relocated.entry (index + 1)),
        state'.setReg (field instr 0 5) (runtimeAddress (wordAt relocated.origin index) instr)) := by
  rw [relocatePcRelAddressing_new] at isBlock
  subst isBlock
  rw [next]
  refine reaches_padded holds located.whole (by simpa using holds) ?_
  have moved := reaches_mov cpu holds located.whole.right.left
  rwa [show decodeRd instr = field instr 0 5 from decodeRt_eq instr] at moved

/-- What is copied stands at the entry. -/
theorem reaches_copied (isBlock : TurboAssembler.new.emit instr = block)
    {result : State σ × Option Addr}
    (executed : exec cpu instr (wordAt relocated.start (relocated.entry index)) state' = result) :
    Reaches cpu (wordAt relocated.start (relocated.entry index), state')
      (result.2.getD (wordAt relocated.start (relocated.entry (index + 1))), result.1) := by
  subst isBlock
  have stands : At relocated.buffer (relocated.entry index) [instr] := located.whole
  have isNext : relocated.entry index + 1 = relocated.entry (index + 1) := next.symm
  rw [← isNext, ← wordAt_succ, ← executed]
  exact .head (holds _ _ stands.head) rfl (.refl cpu _)

end Blocks

section Classes

variable (relocated)
variable (holds : Holds state'.mem relocated.start relocated.buffer)
variable (agrees : Agrees hidden unlike state state')
variable {block : TurboAssembler}
  (located : Located relocated.buffer (relocated.entry index) block)
  (next : relocated.entry (index + 1) = relocated.entry index + block.buffer.length)
include holds agrees located next

theorem follows_ldrLiteral (tmp : 17 ∈ hidden)
    (emitted : relocateLdrLiteral relocated.debug (wordAt relocated.origin index) instr .new =
      some block)
    (isClass : instr &&& 0xFF000000 = 0x58000000)
    (alike : ∀ part < 8, wordAt relocated.origin index + distance (field instr 5 19) +
      BitVec.ofNat 64 part ∉ unlike) :
    relocated.Follows cpu hidden unlike code index state state'
      (exec cpu instr (wordAt relocated.origin index) state) := by
  set literal := wordAt relocated.origin index + distance (field instr 5 19) with isLiteral
  have executed : exec cpu instr (wordAt relocated.origin index) state =
      (state.setReg (field instr 0 5) (read64 state.mem literal), none) := by
    simp only [exec, decode_ldrLiteral isClass, ← isLiteral]
  rw [executed]
  refine follows_of_agrees ((state'.setReg 17 literal).setReg (field instr 0 5)
    (read64 state.mem literal)) ?_ ((agrees.setReg_right _ tmp).setReg _ _) (by simp)
  rw [Option.getD_none, ← agrees.read64_eq alike]
  exact relocated.reaches_ldrLiteral holds located next emitted isClass isLiteral

theorem follows_pcRelAddressing
    (isBlock : relocatePcRelAddressing relocated.debug (wordAt relocated.origin index) instr .new =
      block)
    (isClass : instr &&& 0x1F000000 = 0x10000000) :
    relocated.Follows cpu hidden unlike code index state state'
      (exec cpu instr (wordAt relocated.origin index) state) := by
  rw [exec_pcRelAddressing isClass]
  refine follows_of_agrees _ ?_ (agrees.setReg _ _) (by simp)
  exact relocated.reaches_pcRelAddressing holds located next isBlock

theorem follows_unconditionalBranch (tmp : 17 ∈ hidden)
    (inside : index < relocated.instrs.length)
    (isBlock : relocateUnconditionalBranch relocated.debug (wordAt relocated.origin index) instr
      .new = block)
    (isClass : instr &&& 0x7C000000 = 0x14000000) :
    relocated.Follows cpu hidden unlike code index state state'
      (exec cpu instr (wordAt relocated.origin index) state) := by
  rw [relocateUnconditionalBranch_new] at isBlock
  subst isBlock
  obtain ⟨before, loads, behind⟩ := located.single
  rw [exec_unconditionalBranch isClass]
  set target := decodeImm26Offset instr + wordAt relocated.origin index
  have branched : Reaches cpu _ _ := (reaches_padding holds before).trans
    (reaches_branchTmp holds relocated.small loads behind.head)
  refine ⟨_, branched, ?_, by simp, ?_⟩
  · by_cases isCall : instr &&& 0xFC000000 = 0x94000000
    · simp only [isCall, decide_true, if_true]
      refine .inr ⟨index + 1, inside, ?_, ?_, ?_⟩
      · rw [State.setReg_x_self _ _ (by decide), wordAt_succ]
      · rw [State.setReg_x_self _ _ (by decide)]
        refine landing_of_call rfl ?_ behind.tail
        simp only [next, List.length_append, List.length_cons]
        omega
      · have more := agrees.mono (Set.subset_insert 30 hidden) (Set.Subset.refl unlike)
        exact (more.setReg_right _ (Set.mem_insert_of_mem 30 tmp)).setReg_hidden _ _
          (Set.mem_insert 30 hidden)
    · simp only [isCall, decide_false, if_false]
      exact .inl (agrees.setReg_right _ tmp)
  · intro address _
    simp only [decide_eq_true_eq]
    split <;> simp only [State.setReg_mem, and_self]

/-- The inverted branch goes over the jump exactly when the branch is not taken. -/
theorem follows_branch (tmp : 17 ∈ hidden) {branchInstr : Word} {branchAddress : Addr}
    (taken : Bool)
    (isBlock : relocateBranch relocated.debug branchInstr branchAddress .new = block)
    (executed : exec cpu instr (wordAt relocated.origin index) state =
      jumpIf state taken branchAddress)
    (inverted : ∀ pc, exec cpu branchInstr pc state' = jumpIf state' (!taken) (pc + 12#64)) :
    relocated.Follows cpu hidden unlike code index state state'
      (exec cpu instr (wordAt relocated.origin index) state) := by
  rw [relocateBranch_new] at isBlock
  subst isBlock
  obtain ⟨before, loads, behind⟩ := located.single
  set place := relocated.entry index + (padding relocated.debug).length with isPlace
  rw [List.length_append, List.length_singleton, ← Nat.add_assoc, ← isPlace] at loads behind
  have entered : Reaches cpu _ _ := reaches_padding holds before.left
  rw [executed]
  cases taken with
  | true =>
      -- the inverted branch falls through to the jump
      refine follows_of_agrees _ ?_ (agrees.setReg_right branchAddress tmp)
        (by simp [jumpIf])
      refine entered.trans ((reaches_next holds before.right.head (inverted _)).trans ?_)
      exact reaches_branchTmp holds relocated.small loads behind.head
  | false =>
      refine follows_of_agrees _ ?_ agrees (by simp [jumpIf])
      refine entered.trans ((reaches_jump holds before.right.head (inverted _)).trans ?_)
      have past : wordAt relocated.start place + 12#64 = wordAt relocated.start (place + 1 + 1 + 1) :=
        wordAt_add relocated.start place 3
      rw [← isPlace, past]
      have left : Reaches cpu _ _ := reaches_padding holds behind.tail
      rwa [show place + 1 + 1 + 1 + (padding relocated.debug).length =
          relocated.entry (index + 1) by
        rw [next]
        simp only [List.length_append, List.length_cons, List.length_nil]
        omega] at left

theorem follows_testBranch (tmp : 17 ∈ hidden) (visible : field instr 0 5 ∉ hidden)
    (isBlock : relocateBranch relocated.debug (invertTestBranch instr)
      (decodeImm14Offset instr + wordAt relocated.origin index) .new = block)
    (isClass : instr &&& 0x7E000000 = 0x36000000) :
    relocated.Follows cpu hidden unlike code index state state'
      (exec cpu instr (wordAt relocated.origin index) state) := by
  refine relocated.follows_branch holds agrees located next tmp
    ((state.reg (field instr 0 5)).getLsbD (field instr 31 1 ++ field instr 19 5).toNat ==
      instr.getLsbD 24) isBlock ?_ ?_
  · simp only [exec, decode_testBranch isClass, decodeImm14Offset_eq, BitVec.add_comm]
  · intro pc
    simp only [exec, decode_invertTestBranch isClass, agrees.reg_eq visible]
    congr 1
    cases instr.getLsbD 24 <;> simp

theorem follows_compareBranch (tmp : 17 ∈ hidden) (visible : field instr 0 5 ∉ hidden)
    (isBlock : relocateBranch relocated.debug (invertCompareBranch instr)
      (decodeImm19Offset instr + wordAt relocated.origin index) .new = block)
    (isClass : instr &&& 0x7E000000 = 0x34000000) :
    relocated.Follows cpu hidden unlike code index state state'
      (exec cpu instr (wordAt relocated.origin index) state) := by
  refine relocated.follows_branch holds agrees located next tmp
    (((if instr.getLsbD 31 then state.reg (field instr 0 5)
      else (state.reg (field instr 0 5)).setWidth 32 |>.setWidth 64) != 0) == instr.getLsbD 24)
    isBlock ?_ ?_
  · simp only [exec, decode_compareBranch isClass, decodeImm19Offset_eq, BitVec.add_comm]
  · intro pc
    simp only [exec, decode_invertCompareBranch isClass, agrees.reg_eq visible]
    congr 1
    cases instr.getLsbD 24 <;> simp

theorem follows_conditionalBranch (tmp : 17 ∈ hidden) (proper : field instr 0 4 < 14)
    (isBlock : relocateBranch relocated.debug (invertConditionalBranch instr)
      (decodeImm19Offset instr + wordAt relocated.origin index) .new = block)
    (isClass : instr &&& 0xFF000010 = 0x54000000) :
    relocated.Follows cpu hidden unlike code index state state'
      (exec cpu instr (wordAt relocated.origin index) state) := by
  refine relocated.follows_branch holds agrees located next tmp
    (conditionHolds (field instr 0 4) state.nzcv) isBlock ?_ ?_
  · simp only [exec, decode_branchIf isClass, decodeImm19Offset_eq, BitVec.add_comm]
  · intro pc
    simp only [exec, decode_invertConditionalBranch isClass, agrees.nzcv,
      conditionHolds_flip _ _ proper]
    rfl

theorem follows_blr (inside : index < relocated.instrs.length)
    (isBlock : TurboAssembler.new.emit instr = block) (visible : field instr 5 5 ∉ hidden)
    (isClass : instr &&& 0xFFFFFC1F = 0xD63F0000) :
    relocated.Follows cpu hidden unlike code index state state'
      (exec cpu instr (wordAt relocated.origin index) state) := by
  have executed (pc : Addr) (state : State σ) : exec cpu instr pc state =
      (state.setReg 30 (pc + 4#64), some (state.reg (field instr 5 5))) := by
    simp only [exec, decode_blr isClass]
  have copied := relocated.reaches_copied holds located next isBlock (executed _ _)
  subst isBlock
  have isNext : relocated.entry index + 1 = relocated.entry (index + 1) := next.symm
  rw [executed, ← agrees.reg_eq visible]
  refine ⟨_, copied, .inr ⟨index + 1, inside, ?_, ?_, ?_⟩, by simp, by simp⟩
  · rw [State.setReg_x_self _ _ (by decide), wordAt_succ]
  · rw [State.setReg_x_self _ _ (by decide), wordAt_succ]
    exact ⟨_, rfl, .inl isNext⟩
  · have more := agrees.mono (Set.subset_insert 30 hidden) (Set.Subset.refl unlike)
    exact more.setReg_hidden _ _ (Set.mem_insert 30 hidden)

theorem follows_blind (isBlock : TurboAssembler.new.emit instr = block)
    (blind : Blind cpu hidden unlike code instr (wordAt relocated.origin index) state) :
    relocated.Follows cpu hidden unlike code index state state'
      (exec cpu instr (wordAt relocated.origin index) state) := by
  set place := wordAt relocated.start (relocated.entry index) with isPlace
  refine follows_of_agrees (exec cpu instr place state').1 ?_
    (blind.agrees place state' agrees) fun address isCode =>
      ⟨blind.keeps _ state (.refl state) address isCode, blind.keeps _ state' agrees address isCode⟩
  rw [← blind.target place state' agrees]
  exact relocated.reaches_copied holds located next isBlock rfl

end Classes

/-! ## Runs -/

/-- Every relocatable instruction is followed by its block. -/
theorem follows (tmp : 17 ∈ hidden) (isInstr : relocated.instrs[index]? = some instr)
    (relocatable : Relocatable cpu hidden unlike code instr (wordAt relocated.origin index) state)
    (agrees : Agrees hidden unlike state state')
    (holds : Holds state'.mem relocated.start relocated.buffer) :
    relocated.Follows cpu hidden unlike code index state state'
      (exec cpu instr (wordAt relocated.origin index) state) := by
  obtain ⟨block, emitted, located, next⟩ := generated_block relocated.generated isInstr
  have inside := (List.getElem?_eq_some_iff.mp isInstr).1
  unfold relocateInstr at emitted
  unfold Relocatable at relocatable
  split at emitted
  case isTrue isClass =>
    rw [if_pos isClass] at relocatable
    exact relocated.follows_ldrLiteral holds agrees located next tmp emitted relocatable.1
      relocatable.2
  rename_i notLdr
  rw [if_neg notLdr] at relocatable
  split at emitted
  case isTrue isClass =>
    exact relocated.follows_pcRelAddressing holds agrees located next (Option.some.inj emitted)
      isClass
  rename_i notPcRel
  rw [if_neg notPcRel] at relocatable
  split at emitted
  case isTrue isClass =>
    exact relocated.follows_unconditionalBranch holds agrees located next tmp inside
      (Option.some.inj emitted) isClass
  rename_i notB
  rw [if_neg notB] at relocatable
  split at emitted
  case isTrue isClass =>
    rw [if_pos isClass] at relocatable
    exact relocated.follows_testBranch holds agrees located next tmp relocatable
      (Option.some.inj emitted) isClass
  rename_i notTest
  rw [if_neg notTest] at relocatable
  split at emitted
  case isTrue isClass =>
    rw [if_pos isClass] at relocatable
    exact relocated.follows_compareBranch holds agrees located next tmp relocatable
      (Option.some.inj emitted) isClass
  rename_i notCompare
  rw [if_neg notCompare] at relocatable
  split at emitted
  case isTrue isClass =>
    rw [if_pos isClass] at relocatable
    exact relocated.follows_conditionalBranch holds agrees located next tmp relocatable.2
      (Option.some.inj emitted) relocatable.1
  rename_i notConditional
  rw [if_neg notConditional] at relocatable
  split at relocatable
  case isTrue isClass =>
    exact relocated.follows_blr holds agrees located next inside (Option.some.inj emitted)
      relocatable isClass
  case isFalse =>
    exact relocated.follows_blind holds agrees located next (Option.some.inj emitted) relocatable

variable (relocated)

/-- The bytes of the instructions and of the code generated for them. -/
def bytes : Set Addr :=
  range relocated.origin (4 * relocated.instrs.length) ∪
    range relocated.start (4 * relocated.buffer.length)

/-- Behind the last block the function goes on. -/
theorem reaches_rest (holds : Holds state'.mem relocated.start relocated.buffer) :
    Reaches cpu (wordAt relocated.start (relocated.entry relocated.instrs.length), state')
      (wordAt relocated.origin relocated.instrs.length,
        state'.setReg 17 (wordAt relocated.origin relocated.instrs.length)) := by
  obtain ⟨loads, branch⟩ := generated_rest relocated.generated
  have branched : Reaches cpu _ _ := reaches_branchTmp holds relocated.small loads branch
  exact branched

/-- A landing leads to the entry. -/
theorem reaches_entry {pc : Addr} (landing : relocated.Landing index pc)
    (holds : Holds state'.mem relocated.start relocated.buffer) :
    Reaches cpu (pc, state') (wordAt relocated.start (relocated.entry index), state') := by
  obtain ⟨place, rfl, rfl | ⟨isEntry, isNop⟩⟩ := landing
  · exact .refl cpu _
  · rw [← isEntry]
    exact reaches_next holds isNop (exec_nop ..)

/-- From the entry of any instruction on, the relocated code does what a pass over the
instructions does. The induction is on the instructions that are left. -/
theorem reaches_of_entry (tmp : 17 ∈ hidden) {count : Nat}
    (isCount : index + count = relocated.instrs.length)
    (agrees : Agrees hidden unlike state state')
    (holds : Holds state.mem relocated.origin relocated.instrs)
    (holds' : Holds state'.mem relocated.start relocated.buffer)
    (along : Along cpu (Relocatable cpu hidden unlike relocated.bytes) count
      (wordAt relocated.origin index, state)) :
    ∃ after', Reaches cpu (wordAt relocated.start (relocated.entry index), state')
        ((onePass cpu count (wordAt relocated.origin index, state)).1, after') ∧
      relocated.Resumes hidden unlike (onePass cpu count (wordAt relocated.origin index, state)).2
        after' ∧
      Holds after'.mem relocated.start relocated.buffer := by
  have fitsInstrs : 4 * relocated.instrs.length ≤ 2 ^ 64 := by
    have few := relocated.few
    omega
  have fitsBuffer : 4 * relocated.buffer.length ≤ 2 ^ 64 := by
    have small := relocated.small
    omega
  induction count generalizing index state state' with
  | zero =>
      obtain rfl : index = relocated.instrs.length := isCount
      exact ⟨_, relocated.reaches_rest holds', .inl (agrees.setReg_right _ tmp),
        by rwa [State.setReg_mem]⟩
  | succ count inductionHypothesis =>
      have inside : index < relocated.instrs.length := by omega
      have isInstr := List.getElem?_eq_getElem inside
      obtain ⟨relocatable, along⟩ := along
      have fetched : read32 state.mem (wordAt relocated.origin index) =
          relocated.instrs[index] := holds index _ isInstr
      simp only [fetched] at relocatable along
      unfold onePass
      simp only [fetched]
      obtain ⟨after', reached, resumes, agreesAfter, kept⟩ :=
        follows tmp isInstr relocatable agrees holds'
      have holdsAfter' : Holds after'.mem relocated.start relocated.buffer :=
        holds'.congr fitsBuffer fun address isCode => (kept address (.inr isCode)).2
      rcases executed : exec cpu relocated.instrs[index] (wordAt relocated.origin index) state with
        ⟨after, _ | target⟩
      · rw [executed] at reached agreesAfter kept along
        have holdsAfter : Holds after.mem relocated.origin relocated.instrs :=
          holds.congr fitsInstrs fun address isCode => (kept address (.inl isCode)).1
        rw [wordAt_succ] at along ⊢
        obtain ⟨last', later, result⟩ := inductionHypothesis
          (show index + 1 + count = relocated.instrs.length by omega)
          (agreesAfter rfl) holdsAfter holdsAfter' (along after rfl)
        exact ⟨last', reached.trans later, result⟩
      · rw [executed] at reached resumes
        exact ⟨after', reached, resumes, holdsAfter'⟩

end Relocated

/-- `cbz x0` and `bl`, relocated. -/
def cbzCall : Relocated where
  debug := false
  origin := 0x1000
  instrs := [0xB4000080, 0x94000040]
  start := 0x2000
  buffer := [0xB5000060, 0x58000111, 0xD61F0220, 0x58000111, 0xD63F0220, 0x58000051, 0xD61F0220,
    0x1008, 0, 0x1010, 0, 0x1104, 0]
  generated := by decide
  few := by decide

/-- Memory with both, and registers that are not zero. -/
def cbzCallState : State Unit where
  x _ := 1
  nzcv := 0
  rest := ()
  mem := write (write (fun _ => 0) cbzCall.origin (bytesOf cbzCall.instrs)) cbzCall.start
    (bytesOf cbzCall.buffer)

end AndroidPatch.Dobby.Arm64
