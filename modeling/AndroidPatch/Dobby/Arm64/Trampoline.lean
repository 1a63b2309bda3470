import AndroidPatch.Dobby.Arm64.Preservation

/-!
Contract: the trampolines that are written over the first instructions of a function.

Owns:
- `GenerateNormalTrampolineBuffer`, and the near trampoline with its forwarding code;
- where a trampoline leads.

Does **not** own: where the forwarding code is placed. The addresses that
`NearMemoryArena` answers with are a parameter.

## Pages

`adrp` counts pages and holds 21 bits of the count, so it reaches from `2 ^ 32` bytes
below the page of the instruction to one page less than that above it. The range that the
trampoline tests is about the bytes, not about the pages: a distance of less than `2 ^ 32`
bytes can still be `2 ^ 20` pages.
-/

namespace AndroidPatch.Dobby.Arm64

open Library.A64 Library.ByteMemory TurboAssembler

universe u
variable {σ : Type u} (cpu : Cpu σ)

/-- `llabs((int64_t)(a - b))` -/
def llabs (a b : Addr) : Nat := (a - b).toInt.natAbs

def adrpRange : Nat := 2 ^ (2 + 19 + 12 - 1)

def generateNormalTrampolineBuffer (fromAddr toAddr : Addr) : List Word :=
  if llabs fromAddr toAddr < adrpRange then
    ((TurboAssembler.new.adrpAdd tmpReg0 fromAddr toAddr).br tmpReg0).buffer
  else (TurboAssembler.new.literalLdrBranch toAddr).buffer

/-! ## Pages -/

/-- What `adrp` makes of the distance between two pages. -/
def adrpTarget (fromAddr toAddr : Addr) : Addr :=
  let shifted := (alignFloor toAddr 0x1000 - alignFloor fromAddr 0x1000).sshiftRight 12
  page fromAddr + (shifted.setWidth 21).signExtend 64 <<< 12

theorem alignFloor_page (address : Addr) : alignFloor address 0x1000 = page address := by
  have mask : (0x1000 : Addr) - 1 = 0xFFF := by decide
  unfold alignFloor page
  rw [mask]

theorem toNat_page (address : Addr) : (page address).toNat = 4096 * (address.toNat / 4096) := by
  have shifted : page address = address >>> 12 <<< 12 := by
    ext i inside
    simp only [page]
    interval_cases i <;> simp
  rw [shifted, BitVec.toNat_shiftLeft, BitVec.toNat_ushiftRight, Nat.shiftLeft_eq,
    Nat.shiftRight_eq_div_pow]
  omega

/-- A number of pages between the two. -/
theorem exists_pages {fromAddr toAddr : Addr} (near : llabs fromAddr toAddr < adrpRange) :
    ∃ pages : Int, page toAddr - page fromAddr = BitVec.ofInt 64 (4096 * pages) ∧
      -(2 ^ 20) ≤ pages ∧ pages ≤ 2 ^ 20 := by
  unfold llabs adrpRange at near
  rw [BitVec.toInt_eq_toNat_cond, BitVec.toNat_sub] at near
  have fromLt := fromAddr.isLt
  have toLt := toAddr.isLt
  -- the addresses may lie on both sides of the end of the address space
  obtain ⟨wrap, isWrap, lower, upper⟩ : ∃ wrap : Int, (wrap = -1 ∨ wrap = 0 ∨ wrap = 1) ∧
      -(2 ^ 32) < (toAddr.toNat : Int) - fromAddr.toNat + 2 ^ 64 * wrap ∧
      (toAddr.toNat : Int) - fromAddr.toNat + 2 ^ 64 * wrap < 2 ^ 32 := by
    split at near
    · by_cases below : toAddr.toNat ≤ fromAddr.toNat
      · exact ⟨0, by omega, by omega, by omega⟩
      · exact ⟨-1, by omega, by omega, by omega⟩
    · by_cases below : toAddr.toNat ≤ fromAddr.toNat
      · exact ⟨1, by omega, by omega, by omega⟩
      · exact ⟨0, by omega, by omega, by omega⟩
  refine ⟨toAddr.toNat / 4096 - fromAddr.toNat / 4096 + 2 ^ 52 * wrap, ?_, by omega, by omega⟩
  apply BitVec.eq_of_toNat_eq
  rw [BitVec.toNat_sub, toNat_page, toNat_page, BitVec.toNat_ofInt]
  omega

theorem toInt_ofInt_of_small {value : Int} (lower : -(2 ^ 32) ≤ value) (upper : value ≤ 2 ^ 32) :
    (BitVec.ofInt 64 value).toInt = value := by
  rw [BitVec.toInt_ofInt, Int.bmod_eq_of_le (by omega) (by omega)]

/-- The lowest bits of a number, as a number. -/
theorem signExtend_ofInt {m : Nat} (small : m ≤ 32) (value : Int) :
    ((BitVec.ofInt 64 value).setWidth m).signExtend 64 =
      BitVec.ofInt 64 (value.bmod (2 ^ m)) := by
  have power : 2 ^ m ≤ 2 ^ 32 := Nat.pow_le_pow_right (by omega) small
  have positive : 0 < 2 ^ m := Nat.two_pow_pos m
  have narrow : (BitVec.ofInt 64 value).setWidth m = BitVec.ofInt m value := by
    apply BitVec.eq_of_toInt_eq
    rw [BitVec.toInt_setWidth, BitVec.toInt_ofInt, BitVec.toNat_ofInt]
    have divides : ((2 ^ m : Nat) : Int) ∣ ((2 ^ 64 : Nat) : Int) :=
      Int.natCast_dvd_natCast.mpr (Nat.pow_dvd_pow 2 (by omega))
    rw [Int.toNat_of_nonneg (Int.emod_nonneg _ (by decide)), ← Int.emod_bmod,
      Int.emod_emod_of_dvd _ divides, Int.emod_bmod]
  have lower : -((2 ^ m : Nat) / 2 : Int) ≤ value.bmod (2 ^ m) := Int.le_bmod positive
  have upper : value.bmod (2 ^ m) < ((2 ^ m : Nat) + 1) / 2 := Int.bmod_lt positive
  apply BitVec.eq_of_toInt_eq
  rw [narrow, BitVec.toInt_signExtend_of_le (by omega), BitVec.toInt_ofInt,
    toInt_ofInt_of_small (by omega) (by omega)]

/-- `adrp` finds the page, unless it is `2 ^ 20` pages ahead. -/
theorem adrpTarget_eq {fromAddr toAddr : Addr} (near : llabs fromAddr toAddr < adrpRange) :
    adrpTarget fromAddr toAddr =
      if page toAddr - page fromAddr = 0x100000000 then page toAddr - 0x200000000
      else page toAddr := by
  obtain ⟨pages, isDistance, lower, upper⟩ := exists_pages near
  have shifted : (page toAddr - page fromAddr).sshiftRight 12 = BitVec.ofInt 64 pages := by
    rw [isDistance]
    apply BitVec.eq_of_toInt_eq
    rw [BitVec.toInt_sshiftRight, toInt_ofInt_of_small (by omega) (by omega),
      toInt_ofInt_of_small (by omega) (by omega), Int.shiftRight_eq_div_pow]
    omega
  have counted : adrpTarget fromAddr toAddr =
      page fromAddr + BitVec.ofInt 64 (4096 * pages.bmod (2 ^ 21)) := by
    unfold adrpTarget
    simp only [alignFloor_page, shifted]
    rw [signExtend_ofInt (by decide), BitVec.shiftLeft_eq_mul_twoPow, Int.mul_comm, BitVec.ofInt_mul]
    rfl
  have arrived : page fromAddr + BitVec.ofInt 64 (4096 * pages) = page toAddr := by
    rw [← isDistance, BitVec.add_comm, BitVec.sub_add_cancel]
  rw [counted, isDistance]
  by_cases edge : pages = 2 ^ 20
  · rw [edge] at arrived ⊢
    have back : BitVec.ofInt 64 (4096 * (2 ^ 20 : Int).bmod (2 ^ 21)) =
        BitVec.ofInt 64 (4096 * 2 ^ 20) - 0x200000000 := by decide
    rw [if_pos (by decide), ← arrived, back, BitVec.sub_eq_add_neg, ← BitVec.add_assoc,
      ← BitVec.sub_eq_add_neg]
  · have small : pages.bmod (2 ^ 21) = pages := Int.bmod_eq_of_le (by omega) (by omega)
    rw [small, arrived, if_neg]
    intro isEdge
    apply edge
    have same := congrArg BitVec.toInt isEdge
    rw [toInt_ofInt_of_small (by omega) (by omega),
      show (0x100000000 : Addr).toInt = 2 ^ 32 by decide] at same
    omega

/-! ## Running -/

/-- `adrp x17` -/
def adrpTmpWord (shifted : BitVec 64) : Word :=
  0x90000000 ||| Rd tmpReg0 ||| leftShift ((shifted &&& submask 1).setWidth 32) 2 29 |||
    leftShift (((shifted.sshiftRight 2) &&& submask 18).setWidth 32) 19 5

theorem adrpTmpWord_class (shifted : BitVec 64) :
    adrpTmpWord shifted &&& 0x9F000000 = 0x90000000 := by
  ext i inside
  simp only [adrpTmpWord, leftShift, submask, Rd, tmpReg0, X]
  interval_cases i <;> simp

theorem decode_adrpTmpWord (shifted : BitVec 64) :
    decode (adrpTmpWord shifted) = .adrp 17 (shifted.setWidth 21) := by
  rw [decode_adrp (adrpTmpWord_class shifted)]
  · congr 1
    · ext i inside
      simp only [adrpTmpWord, leftShift, submask, Rd, tmpReg0, X, field]
      interval_cases i <;> simp
    · apply BitVec.eq_of_getLsbD_eq
      intro i inside
      rw [BitVec.getLsbD_append]
      simp only [adrpTmpWord, leftShift, submask, Rd, tmpReg0, X, field]
      interval_cases i <;> simp [BitVec.getElem_sshiftRight]

/-- `add x17, x17` -/
def addTmpWord (imm : BitVec 64) : Word :=
  0x91000000 ||| Rd tmpReg0 ||| Rn tmpReg0 ||| leftShift (imm.setWidth 32) 12 10

theorem addTmpWord_class (imm : BitVec 64) : addTmpWord imm &&& 0xFFC00000 = 0x91000000 := by
  ext i inside
  simp only [addTmpWord, leftShift, Rd, Rn, tmpReg0, X]
  interval_cases i <;> simp

theorem decode_addTmpWord (imm : BitVec 64) :
    decode (addTmpWord imm) = .add 17 17 (imm.setWidth 12) := by
  have isRd : field (addTmpWord imm) 0 5 = 17 := by
    ext i inside
    simp only [addTmpWord, leftShift, Rd, Rn, tmpReg0, X, field]
    interval_cases i <;> simp
  have isRn : field (addTmpWord imm) 5 5 = 17 := by
    ext i inside
    simp only [addTmpWord, leftShift, Rd, Rn, tmpReg0, X, field]
    interval_cases i <;> simp
  have isImm : field (addTmpWord imm) 10 12 = imm.setWidth 12 := by
    ext i inside
    simp only [addTmpWord, leftShift, Rd, Rn, tmpReg0, X, field]
    interval_cases i <;> simp
  rw [decode_add (addTmpWord_class imm)]
  · rw [isRd, isRn, isImm]
  · rw [isRd]
    decide
  · rw [isRn]
    decide

theorem adrpAdd_buffer (assembler : TurboAssembler) (fromAddr toAddr : Addr) :
    (assembler.adrpAdd tmpReg0 fromAddr toAddr).buffer = assembler.buffer ++
      [adrpTmpWord ((alignFloor toAddr 0x1000 - alignFloor fromAddr 0x1000).sshiftRight 12),
        addTmpWord (toAddr % 0x1000)] := by
  simp only [adrpAdd, adrp, add, emit, List.append_assoc]
  rfl

theorem nearTrampoline_words {fromAddr toAddr : Addr} (near : llabs fromAddr toAddr < adrpRange) :
    generateNormalTrampolineBuffer fromAddr toAddr =
      [adrpTmpWord ((alignFloor toAddr 0x1000 - alignFloor fromAddr 0x1000).sshiftRight 12),
        addTmpWord (toAddr % 0x1000), branchTmpWord false] := by
  rw [generateNormalTrampolineBuffer, if_pos near, br, emit, adrpAdd_buffer]
  rfl

theorem farTrampoline_words {fromAddr toAddr : Addr} (far : ¬ llabs fromAddr toAddr < adrpRange) :
    generateNormalTrampolineBuffer fromAddr toAddr =
      [PseudoLabel.encodeLdrLiteral unlinkedLdr 8, branchTmpWord false,
        toAddr.extractLsb' 0 32, toAddr.extractLsb' 32 32] := by
  rw [generateNormalTrampolineBuffer, if_neg far, literalLdrBranch_eq]
  rfl

theorem exec_adrpTmpWord (fromAddr toAddr : Addr) (state : State σ) :
    exec cpu
      (adrpTmpWord ((alignFloor toAddr 0x1000 - alignFloor fromAddr 0x1000).sshiftRight 12))
      fromAddr state = (state.setReg 17 (adrpTarget fromAddr toAddr), none) := by
  simp only [exec, decode_adrpTmpWord, adrpTarget]

theorem exec_addTmpWord (toAddr pc value : Addr) (state : State σ) :
    exec cpu (addTmpWord (toAddr % 0x1000)) pc (state.setReg 17 value) =
      (state.setReg 17 (value + toAddr % 0x1000), none) := by
  have offset : ((toAddr % 0x1000).setWidth 12).setWidth 64 = toAddr % 0x1000 := by
    apply BitVec.eq_of_toNat_eq
    simp only [BitVec.toNat_setWidth, BitVec.toNat_umod]
    simp
    omega
  simp only [exec, decode_addTmpWord, State.setReg_setReg, offset]
  rw [State.reg_setReg_self _ _ (by decide)]

/-- The first two instructions of a trampoline to a near target, at the address they were
assembled for. -/
theorem reaches_adrpAdd {fromAddr toAddr : Addr} {buffer : List Word} {state : State σ}
    (holds : Holds state.mem fromAddr buffer)
    (stands : At buffer 0
      [adrpTmpWord ((alignFloor toAddr 0x1000 - alignFloor fromAddr 0x1000).sshiftRight 12),
        addTmpWord (toAddr % 0x1000)]) :
    Reaches cpu (wordAt fromAddr 0, state) (wordAt fromAddr 2,
      state.setReg 17 (adrpTarget fromAddr toAddr + toAddr % 0x1000)) := by
  have paged : exec cpu
      (adrpTmpWord ((alignFloor toAddr 0x1000 - alignFloor fromAddr 0x1000).sshiftRight 12))
      (wordAt fromAddr 0) state = (state.setReg 17 (adrpTarget fromAddr toAddr), none) := by
    rw [show wordAt fromAddr 0 = fromAddr from BitVec.add_zero fromAddr]
    exact exec_adrpTmpWord cpu fromAddr toAddr state
  refine (reaches_next holds stands.head paged).trans ?_
  exact reaches_next (by simpa using holds) stands.tail.head (exec_addTmpWord cpu toAddr _ _ state)

/-- Where the trampoline leads. -/
def trampolineTarget (fromAddr toAddr : Addr) : Addr :=
  if llabs fromAddr toAddr < adrpRange ∧ page toAddr - page fromAddr = 0x100000000 then
    toAddr - 0x200000000
  else toAddr

theorem page_add_offset (address : Addr) : page address + address % 0x1000 = address := by
  have below := address.isLt
  apply BitVec.eq_of_toNat_eq
  rw [BitVec.toNat_add, toNat_page, BitVec.toNat_umod]
  simp
  omega

/-- A near target is found by its page and the offset in it. -/
theorem adrpTarget_add_offset {fromAddr toAddr : Addr}
    (near : llabs fromAddr toAddr < adrpRange) :
    adrpTarget fromAddr toAddr + toAddr % 0x1000 = trampolineTarget fromAddr toAddr := by
  rw [adrpTarget_eq near, trampolineTarget]
  by_cases edge : page toAddr - page fromAddr = 0x100000000
  · rw [if_pos edge, if_pos ⟨near, edge⟩, BitVec.sub_eq_add_neg, BitVec.add_assoc,
      BitVec.add_comm _ (toAddr % 0x1000), ← BitVec.add_assoc, page_add_offset,
      ← BitVec.sub_eq_add_neg]
  · rw [if_neg edge, if_neg fun both => edge both.2, page_add_offset]

theorem At.refl (words : List Word) : At words 0 words := by
  intro index word isWord
  rwa [Nat.zero_add]

/-- The three instructions for a near target. -/
theorem reaches_adrpAddBr {fromAddr toAddr : Addr} {state : State σ}
    (near : llabs fromAddr toAddr < adrpRange)
    (holds : Holds state.mem fromAddr
      ((TurboAssembler.new.adrpAdd tmpReg0 fromAddr toAddr).br tmpReg0).buffer) :
    Reaches cpu (fromAddr, state) (trampolineTarget fromAddr toAddr,
      state.setReg 17 (trampolineTarget fromAddr toAddr)) := by
  rw [br, emit, adrpAdd_buffer] at holds
  have stands := At.refl (TurboAssembler.new.buffer ++
    [adrpTmpWord ((alignFloor toAddr 0x1000 - alignFloor fromAddr 0x1000).sshiftRight 12),
      addTmpWord (toAddr % 0x1000)] ++ [0xD61F0000 ||| Rn tmpReg0])
  have found := reaches_adrpAdd cpu holds stands.left
  rw [adrpTarget_add_offset near, show wordAt fromAddr 0 = fromAddr from BitVec.add_zero _] at found
  refine found.trans (reaches_jump (by simpa using holds) stands.right.head ?_)
  have branched := exec_branchTmp cpu (wordAt fromAddr 2)
    (state.setReg 17 (trampolineTarget fromAddr toAddr)) false
  rwa [State.setReg_x_self _ _ (by decide)] at branched

/-- A trampoline leads to its target with nothing changed but the temporary register,
unless the target is `2 ^ 20` pages ahead. -/
theorem trampoline_reaches {fromAddr toAddr : Addr} {state : State σ}
    (holds : Holds state.mem fromAddr (generateNormalTrampolineBuffer fromAddr toAddr)) :
    Reaches cpu (fromAddr, state) (trampolineTarget fromAddr toAddr,
      state.setReg 17 (trampolineTarget fromAddr toAddr)) := by
  unfold generateNormalTrampolineBuffer at holds
  split at holds
  case isTrue near => exact reaches_adrpAddBr cpu near holds
  case isFalse far =>
    rw [literalLdrBranch_eq] at holds
    have target : trampolineTarget fromAddr toAddr = toAddr := if_neg fun both => far both.1
    have loads : LoadsLiteral (TurboAssembler.new.buffer ++
        [PseudoLabel.encodeLdrLiteral unlinkedLdr 8, branchTmpWord false,
          toAddr.extractLsb' 0 32, toAddr.extractLsb' 32 32]) 0 toAddr :=
      ⟨2, by omega, rfl, rfl, rfl⟩
    have reached : Reaches cpu _ _ := reaches_branchTmp holds (by simp [new]) loads rfl
    rw [show wordAt fromAddr 0 = fromAddr from BitVec.add_zero fromAddr] at reached
    rwa [target]

/-- A trampoline leads to its target exactly if the target is not `2 ^ 20` pages ahead of
the trampoline and less than `2 ^ 32` bytes away: there it leads `2 ^ 33` bytes too low. -/
theorem normalTrampoline_lands {fromAddr toAddr : Addr} {state : State σ}
    (holds : Holds state.mem fromAddr (generateNormalTrampolineBuffer fromAddr toAddr)) :
    ∃ landing, Reaches cpu (fromAddr, state) (landing, state.setReg 17 landing) ∧
      (landing = toAddr ↔
        ¬ (llabs fromAddr toAddr < adrpRange ∧ page toAddr - page fromAddr = 0x100000000)) ∧
      (landing = toAddr ∨ landing = toAddr - 0x200000000) := by
  refine ⟨_, trampoline_reaches cpu holds, ?_⟩
  have moved : toAddr - 0x200000000 ≠ toAddr := by
    intro same
    have cancelled := congrArg (toAddr - ·) same
    simp only [BitVec.sub_self] at cancelled
    bv_omega
  rw [trampolineTarget]
  split
  case isTrue edge =>
    exact ⟨⟨fun same => absurd same moved, fun outside => absurd edge outside⟩, .inr rfl⟩
  case isFalse inside => exact ⟨⟨fun _ => inside, fun _ => rfl⟩, .inl rfl⟩

/-- A trampoline at the end of a page, to a target `2 ^ 20` pages ahead. -/
def endOfPageState : State Unit where
  x _ := 0
  nzcv := 0
  rest := ()
  mem := write (fun _ => 0) 0x1FFC (bytesOf [0x90800011, 0x91000231, 0xD61F0220])

theorem normalTrampoline_lands_low :
    ∃ landing, Reaches (fun _ _ state => (state, none)) (0x1FFC, endOfPageState)
      (landing, endOfPageState.setReg 17 landing) ∧ landing ≠ 0x100001000 := by
  have words : generateNormalTrampolineBuffer 0x1FFC 0x100001000 =
      [0x90800011, 0x91000231, 0xD61F0220] := by decide
  have holds : Holds endOfPageState.mem 0x1FFC
      (generateNormalTrampolineBuffer 0x1FFC 0x100001000) := by
    rw [words]
    exact holds_write _ _ (by decide)
  obtain ⟨landing, reached, lands, -⟩ :=
    normalTrampoline_lands (fun _ _ state => (state, none)) holds
  refine ⟨landing, reached, fun isTarget => lands.mp isTarget ?_⟩
  decide

/-! ## Near trampolines -/

/-- `ARM64_B_XXX_RANGE` -/
def branchRange : Nat := 2 ^ 25 * 2 ^ 2

/-- `GenerateFastForwardTrampoline`: the code that forwards to the target and where it
goes. `allocate` are the answers of `NearMemoryArena::AllocateCodeChunk` by size. -/
def generateFastForwardTrampoline (allocate : Nat → Option Addr) (targetAddress : Addr) :
    Option (Addr × List Word) :=
  match allocate (3 * 4) with
  | none => none
  | some address =>
      if llabs address targetAddress < adrpRange then
        some (address,
          ((TurboAssembler.new.adrpAdd tmpReg0 address targetAddress).br tmpReg0).buffer)
      else
        let moved := (TurboAssembler.new.mov tmpReg0 targetAddress).br tmpReg0
        (allocate moved.getSize).map fun address => (address, moved.buffer)

/-- `GenerateNearTrampolineBuffer`: the trampoline and the code it is forwarded by, if any. -/
def generateNearTrampolineBuffer (allocate : Nat → Option Addr) (src dst : Addr) :
    Option (List Word × Option (Addr × List Word)) :=
  if llabs dst src < branchRange then
    some ((TurboAssembler.new.b (dst - src)).buffer, none)
  else
    (generateFastForwardTrampoline allocate dst).map fun forward =>
      ((TurboAssembler.new.b (forward.1 - src)).buffer, some forward)

/-- `b` -/
def bWord (imm : BitVec 64) : Word :=
  0x14000000 ||| ((imm.sshiftRight 2) &&& submask 25).setWidth 32

theorem decode_bWord (imm : BitVec 64) :
    decode (bWord imm) = .b ((imm.sshiftRight 2).setWidth 26) := by
  rw [decode_b]
  · congr 1
    ext i inside
    simp only [bWord, submask, field]
    interval_cases i <;> simp
  · ext i inside
    simp only [bWord, submask]
    interval_cases i <;> simp

theorem distance_eq_shiftLeft {n : Nat} (imm : BitVec n) :
    distance imm = imm.signExtend 64 <<< 2 := by
  apply BitVec.eq_of_getLsbD_eq
  intro i inside
  unfold distance
  rw [BitVec.getLsbD_signExtend, BitVec.getLsbD_shiftLeft, BitVec.getLsbD_signExtend,
    BitVec.getLsbD_append, BitVec.msb_append]
  by_cases low : i < 2
  · simp [low, show i < n + 2 by omega]
  · by_cases covered : i < n + 2
    · simp [low, covered, inside, show i - 2 < n by omega, show i - 2 < 64 by omega]
    · by_cases empty : n = 0
      · subst empty
        simp [low, BitVec.eq_nil imm]
      · simp [low, covered, empty, inside, show ¬ i - 2 < n by omega, show i - 2 < 64 by omega]

/-- A distance in whole instructions is what `b` makes of it, if it is in range. -/
theorem distance_of_near {imm : BitVec 64} (near : imm.toInt.natAbs < branchRange)
    (aligned : imm % 4 = 0) : distance ((imm.sshiftRight 2).setWidth 26) = imm := by
  have below : -(2 ^ 27) < imm.toInt ∧ imm.toInt < 2 ^ 27 := by
    unfold branchRange at near
    omega
  have whole : imm.toInt % 4 = 0 := by
    have low := congrArg BitVec.toNat aligned
    rw [BitVec.toNat_umod] at low
    rw [BitVec.toInt_eq_toNat_cond]
    split <;> simp at low <;> omega
  have shifted : imm.sshiftRight 2 = BitVec.ofInt 64 (imm.toInt / 4) := by
    apply BitVec.eq_of_toInt_eq
    rw [BitVec.toInt_sshiftRight, Int.shiftRight_eq_div_pow,
      toInt_ofInt_of_small (by omega) (by omega)]
    rfl
  have counted : (imm.toInt / 4).bmod (2 ^ 26) = imm.toInt / 4 :=
    Int.bmod_eq_of_le (by omega) (by omega)
  rw [distance_eq_shiftLeft, shifted, signExtend_ofInt (by decide), counted,
    BitVec.shiftLeft_eq_mul_twoPow]
  calc BitVec.ofInt 64 (imm.toInt / 4) * BitVec.twoPow 64 2
      = BitVec.ofInt 64 (imm.toInt / 4 * 4) := by rw [BitVec.ofInt_mul]; rfl
    _ = BitVec.ofInt 64 imm.toInt := by rw [Int.ediv_mul_cancel (by omega)]
    _ = imm := BitVec.ofInt_toInt

theorem reaches_b {src dst : Addr} {state : State σ} (inRange : llabs dst src < branchRange)
    (aligned : (dst - src) % 4 = 0)
    (holds : Holds state.mem src (TurboAssembler.new.b (dst - src)).buffer) :
    Reaches cpu (src, state) (dst, state) := by
  have executed (pc : Addr) : exec cpu (bWord (dst - src)) pc state =
      (state, some (pc + (dst - src))) := by
    simp only [exec, decode_bWord, distance_of_near inRange aligned]
  have jumped := reaches_jump holds (At.refl [bWord (dst - src)]).head (executed _)
  rwa [show wordAt src 0 = src from BitVec.add_zero src, BitVec.add_comm,
    BitVec.sub_add_cancel] at jumped

/-- The forwarding code leads to the target from where it was placed. -/
theorem forward_reaches {allocate : Nat → Option Addr} {targetAddress : Addr}
    {forward : Addr × List Word} {state : State σ}
    (generated : generateFastForwardTrampoline allocate targetAddress = some forward)
    (holds : Holds state.mem forward.1 forward.2)
    (inside : page targetAddress - page forward.1 ≠ 0x100000000) :
    Reaches cpu (forward.1, state) (targetAddress, state.setReg 17 targetAddress) := by
  unfold generateFastForwardTrampoline at generated
  split at generated
  · exact absurd generated (by simp)
  case _ address isAddress =>
    split at generated
    case isTrue near =>
      obtain rfl := Option.some.inj generated
      have reached := reaches_adrpAddBr cpu near holds
      rwa [trampolineTarget, if_neg fun both => inside both.2] at reached
    case isFalse =>
      obtain ⟨place, isPlace, rfl⟩ := Option.map_eq_some_iff.mp generated
      rw [br, emit, tmpReg0, mov_buffer] at holds
      have stands := At.refl (TurboAssembler.new.buffer ++ movWords 17 targetAddress ++
        [0xD61F0000 ||| Rn (X 17)])
      have moved := reaches_mov cpu holds stands.left
      rw [show wordAt place 0 = place from BitVec.add_zero place] at moved
      refine moved.trans (reaches_jump (by simpa using holds) stands.right.head ?_)
      have branched := exec_branchTmp cpu (wordAt place 4) (state.setReg 17 targetAddress) false
      rwa [State.setReg_x_self _ _ (by decide)] at branched

/-- A trampoline that is forwarded, and the code behind it. -/
def forwardedState : State Unit where
  x _ := 0
  nzcv := 0
  rest := ()
  mem := write (write (fun _ => 0) 0x1000 (bytesOf [0x1403FC00])) 0x100000
    (bytesOf [0x900FF811, 0x91000231, 0xD61F0220])

end AndroidPatch.Dobby.Arm64
