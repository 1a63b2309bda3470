import AndroidPatch.Dobby.Arm64.Relocation

/-!
Contract: the instructions that the relocation reads and the ones that it emits, as the
processor decodes them.

Owns:
- that the offsets and registers it decodes are the fields of the instruction;
- what the emitted words decode to, whatever registers and values went into them.
-/

namespace AndroidPatch.Dobby.Arm64

open Library.A64 TurboAssembler

/-! ## Decoding -/

theorem toNat_submask {x : Nat} (small : x < 63) : (submask x).toNat = 2 ^ (x + 1) - 1 := by
  have power : 2 ^ (x + 1) < 2 ^ 64 := Nat.pow_lt_pow_right (by omega) (by omega)
  have positive : 0 < 2 ^ (x + 1) := Nat.two_pow_pos _
  unfold submask
  rw [BitVec.toNat_sub, BitVec.toNat_shiftLeft]
  simp only [BitVec.toNat_ofNat, Nat.shiftLeft_eq]
  omega

theorem bits_eq_field (obj : Word) (st fn width : Nat) (isWidth : fn - st + 1 = width)
    (small : fn < 32) : bits obj st fn = (field obj st width).setWidth 64 := by
  subst isWidth
  apply BitVec.eq_of_toNat_eq
  unfold bits field
  rw [BitVec.toNat_and, toNat_submask (by omega), Nat.and_two_pow_sub_one_eq_mod]
  simp only [BitVec.toNat_setWidth, BitVec.toNat_ushiftRight, BitVec.extractLsb'_toNat]
  have below : obj.toNat >>> st < 2 ^ 64 :=
    Nat.lt_of_le_of_lt (Nat.shiftRight_le _ _) (Nat.lt_trans obj.isLt (by decide))
  have power : 2 ^ (fn - st + 1) ≤ 2 ^ 64 := Nat.pow_le_pow_right (by omega) (by omega)
  rw [Nat.mod_eq_of_lt below, Nat.mod_eq_of_lt (a := _ % _)]
  exact Nat.lt_of_lt_of_le (Nat.mod_lt _ (Nat.two_pow_pos _)) power

theorem signExtend_setWidth {m : Nat} (x : BitVec m) (positive : 0 < m) (small : m ≤ 64) :
    signExtend (x.setWidth 64) m 64 = x.signExtend 64 := by
  apply BitVec.eq_of_getLsbD_eq
  intro i inside
  unfold signExtend
  rw [BitVec.getLsbD_sshiftRight, BitVec.getLsbD_signExtend]
  have notPast : (decide (64 ≤ i)) = false := by simpa using inside
  simp only [notPast, inside, decide_true, Bool.not_false, Bool.true_and]
  by_cases low : i < m
  · rw [if_pos (by omega), if_pos low, BitVec.getLsbD_shiftLeft]
    simp [show 64 - m + i < 64 by omega, inside]
  · rw [if_neg (by omega), if_neg low, BitVec.msb_eq_getLsbD_last, BitVec.getLsbD_shiftLeft,
      BitVec.msb_eq_getLsbD_last]
    simp [show ¬ 63 < 64 - m by omega, show 63 - (64 - m) = m - 1 by omega,
      show m - 1 < 64 by omega]

theorem setWidth_shiftLeft_two {m : Nat} (x : BitVec m) (small : m + 2 ≤ 64) :
    x.setWidth 64 <<< 2 = (x ++ 0#2).setWidth 64 := by
  have power : 2 ^ (m + 2) ≤ 2 ^ 64 := Nat.pow_le_pow_right (by omega) small
  have below : x.toNat * 2 ^ 2 < 2 ^ (m + 2) := by
    rw [Nat.pow_add]
    exact Nat.mul_lt_mul_of_pos_right x.isLt (by decide)
  apply BitVec.eq_of_toNat_eq
  simp only [BitVec.toNat_shiftLeft, BitVec.toNat_setWidth, BitVec.toNat_append, Nat.shiftLeft_eq,
    BitVec.toNat_ofNat, Nat.zero_mod, Nat.or_zero]
  rw [Nat.mod_eq_of_lt (a := x.toNat) (by omega)]

/-- The distance that a field counts in instructions. -/
theorem signExtend_bits (instr : Word) {st fn width : Nat} (isWidth : fn - st + 1 = width)
    (small : fn < 32) :
    signExtend (bits instr st fn <<< 2) (2 + width) 64 = distance (field instr st width) := by
  rw [bits_eq_field instr st fn width isWidth small, setWidth_shiftLeft_two _ (by omega),
    show 2 + width = width + 2 from Nat.add_comm 2 width,
    signExtend_setWidth _ (by omega) (by omega)]
  rfl

theorem decodeImm14Offset_eq (instr : Word) :
    decodeImm14Offset instr = distance (field instr 5 14) :=
  signExtend_bits instr rfl (by omega)

theorem decodeImm19Offset_eq (instr : Word) :
    decodeImm19Offset instr = distance (field instr 5 19) :=
  signExtend_bits instr rfl (by omega)

theorem decodeImm26Offset_eq (instr : Word) :
    decodeImm26Offset instr = distance (field instr 0 26) :=
  signExtend_bits instr rfl (by omega)

theorem decodeRt_eq (instr : Word) : decodeRt instr = field instr 0 5 := by
  unfold decodeRt
  rw [bits_eq_field instr 0 4 5 rfl (by omega)]
  simp

theorem decodeImmhiImmloOffset_eq (instr : Word) :
    decodeImmhiImmloOffset instr = (field instr 5 19 ++ field instr 29 2).signExtend 64 := by
  unfold decodeImmhiImmloOffset
  rw [← signExtend_setWidth (m := 19 + 2) _ (by omega) (by omega)]
  simp only [bits_eq_field instr 5 23 19 rfl (by omega),
    bits_eq_field instr 29 30 2 rfl (by omega)]
  congr 1
  have low := (field instr 29 2).isLt
  have high := (field instr 5 19).isLt
  apply BitVec.eq_of_toNat_eq
  simp only [BitVec.toNat_add, BitVec.toNat_shiftLeft, BitVec.toNat_setWidth,
    BitVec.toNat_append]
  rw [← Nat.shiftLeft_add_eq_or_of_lt low]
  simp only [Nat.shiftLeft_eq]
  omega

/-! ## Emitted words -/

theorem decode_movzWord (rd : Reg) (imm : BitVec 16) :
    decode (moveWideWord (X rd) imm 0 0x40000000) = .movz rd 0 imm := by
  rw [decode_movz]
  · congr 1
    all_goals
      ext i inside
      simp only [moveWideWord, leftShift, sf, X, Rd, field]
      interval_cases i <;> simp
  · ext i inside
    simp only [moveWideWord, leftShift, sf, X, Rd]
    interval_cases i <;> simp

theorem decode_movkWord (rd : Reg) (hw : BitVec 2) (imm : BitVec 16) :
    decode (moveWideWord (X rd) imm (16 * hw.toNat) 0x60000000) = .movk rd hw imm := by
  have cases : hw = 0 ∨ hw = 1 ∨ hw = 2 ∨ hw = 3 := by
    revert hw
    decide
  rw [decode_movk]
  · congr 1
    all_goals
      ext i inside
      simp only [moveWideWord, leftShift, sf, X, Rd, field]
      rcases cases with rfl | rfl | rfl | rfl <;> interval_cases i <;> simp
  · ext i inside
    simp only [moveWideWord, leftShift, sf, X, Rd]
    rcases cases with rfl | rfl | rfl | rfl <;> interval_cases i <;> simp

/-- `ldr rt, [x17]` -/
def ldrTmpWord (rt : Reg) : Word :=
  0x39000000 ||| 0xC0400000 ||| leftShift ((0#64 : BitVec 64).sshiftRight 3 |>.setWidth 32) 12 10 |||
    Rn tmpReg0 ||| Rt (X rt)

theorem decode_ldrTmpWord (rt : Reg) : decode (ldrTmpWord rt) = .ldr rt 17 0 := by
  have base : field (ldrTmpWord rt) 5 5 = 17 := by
    ext i inside
    simp only [ldrTmpWord, leftShift, X, Rn, Rt, tmpReg0, field]
    interval_cases i <;> simp
  rw [decode_ldr]
  · rw [base]
    congr 1
    all_goals
      ext i inside
      simp only [ldrTmpWord, leftShift, X, Rn, Rt, tmpReg0, field]
      interval_cases i <;> simp
  · ext i inside
    simp only [ldrTmpWord, leftShift, X, Rn, Rt, tmpReg0]
    interval_cases i <;> simp
  · rw [base]
    decide

theorem decode_linked (offset : BitVec 32) :
    decode ((unlinkedLdr &&& 0xFF00001F#32) ||| leftShift offset 19 5) =
      .ldrLiteral 17 (offset.setWidth 19) := by
  rw [decode_ldrLiteral]
  · congr 1
    all_goals
      ext i inside
      simp only [unlinkedLdr, leftShift, field]
      interval_cases i <;> simp
  · ext i inside
    simp only [unlinkedLdr, leftShift]
    interval_cases i <;> simp

theorem decode_invertTestBranch {instr : Word} (isClass : instr &&& 0x7E000000 = 0x36000000) :
    decode (invertTestBranch instr) =
      .testBranch (!instr.getLsbD 24) (field instr 31 1 ++ field instr 19 5) (field instr 0 5) 3 := by
  rw [decode_testBranch]
  · congr 1
    · simp [invertTestBranch, setBits, setBit, bits, submask]
    · congr 1
      all_goals
        ext i inside
        simp only [invertTestBranch, setBits, setBit, bits, submask, field]
        interval_cases i <;> simp
    all_goals
      ext i inside
      simp only [invertTestBranch, setBits, setBit, bits, submask, field]
      interval_cases i <;> simp
  · rw [← isClass]
    ext i inside
    simp only [invertTestBranch, setBits, setBit, bits, submask]
    interval_cases i <;> simp

theorem decode_invertCompareBranch {instr : Word} (isClass : instr &&& 0x7E000000 = 0x34000000) :
    decode (invertCompareBranch instr) =
      .compareBranch (!instr.getLsbD 24) (instr.getLsbD 31) (field instr 0 5) 3 := by
  rw [decode_compareBranch]
  · congr 1
    · simp [invertCompareBranch, setBits, setBit, bits, submask]
    · simp [invertCompareBranch, setBits, setBit, bits, submask]
    all_goals
      ext i inside
      simp only [invertCompareBranch, setBits, setBit, bits, submask, field]
      interval_cases i <;> simp
  · rw [← isClass]
    ext i inside
    simp only [invertCompareBranch, setBits, setBit, bits, submask]
    interval_cases i <;> simp

theorem decode_invertConditionalBranch {instr : Word}
    (isClass : instr &&& 0xFF000010 = 0x54000000) :
    decode (invertConditionalBranch instr) = .branchIf (field instr 0 4 ^^^ 1) 3 := by
  rw [decode_branchIf]
  · congr 1
    all_goals
      ext i inside
      simp only [invertConditionalBranch, setBits, bits, submask, field]
      interval_cases i <;> simp
  · rw [← isClass]
    ext i inside
    simp only [invertConditionalBranch, setBits, bits, submask]
    interval_cases i <;> simp

end AndroidPatch.Dobby.Arm64
