import AndroidPatch.Dobby.Arm64.Hooked

/-!
Contract: what happens when a function that is hooked is hooked again.

Owns:
- the code that a trampoline is relocated to, and where it leads.

The first trampoline is relocated like any code. The one for a near target keeps its
meaning. The one for a far target loads the target from the bytes behind it, and so does
the code it is relocated to, but the second trampoline stands there by then.
-/

namespace AndroidPatch.Dobby.Arm64

open Library.A64 Library.ByteMemory

universe u
variable {σ : Type u} (cpu : Cpu σ)

/-! ## Relocated trampolines -/

theorem Holds.readWords {memory : Memory 64} {start : Addr} {words : List Word}
    (holds : Holds memory start words) {index count : Nat} {word : Word}
    (isWord : words[index]? = some word) (inside : index < count) :
    (readWords memory start count)[index]? = some word := by
  rw [Library.ByteMemory.readWords, List.getElem?_map, List.getElem?_range inside, Option.map_some,
    holds index word isWord]

theorem adrpTmpWord_pcRel (shifted : BitVec 64) :
    adrpTmpWord shifted &&& 0x1F000000 = 0x10000000 := by
  have masked := congrArg (· &&& (0x1F000000 : Word)) (adrpTmpWord_class shifted)
  simp only [BitVec.and_assoc] at masked
  exact masked

theorem relocateInstr_adrp (debug : Bool) (pc : Addr) (shifted : BitVec 64)
    (assembler : TurboAssembler) :
    relocateInstr debug pc (adrpTmpWord shifted) assembler =
      some (relocatePcRelAddressing debug pc (adrpTmpWord shifted) assembler) := by
  rw [relocateInstr, if_neg (and_ne (adrpTmpWord_class shifted) (by decide)),
    if_pos (adrpTmpWord_pcRel shifted)]

theorem relocateInstr_add (debug : Bool) (pc : Addr) (imm : BitVec 64)
    (assembler : TurboAssembler) :
    relocateInstr debug pc (addTmpWord imm) assembler = some (assembler.emit (addTmpWord imm)) := by
  have isClass := addTmpWord_class imm
  rw [relocateInstr, if_neg (and_ne isClass (by decide)), if_neg (and_ne isClass (by decide)),
    if_neg (and_ne isClass (by decide)), if_neg (and_ne isClass (by decide)),
    if_neg (and_ne isClass (by decide)), if_neg (and_ne isClass (by decide))]

namespace Relocated

variable {cpu} {relocated : Relocated} {state' : State σ}
variable (holds : Holds state'.mem relocated.start relocated.buffer)
include holds

/-- The branch at the end of a trampoline is copied. -/
theorem reaches_branchTmp_copied {index : Nat} (target : Addr)
    (isInstr : relocated.instrs[index]? = some (branchTmpWord false)) :
    Reaches cpu (wordAt relocated.start (relocated.entry index), state'.setReg 17 target)
      (target, state'.setReg 17 target) := by
  obtain ⟨block, emitted, located, next⟩ := generated_block relocated.generated isInstr
  have executed := exec_branchTmp cpu (wordAt relocated.start (relocated.entry index))
    (state'.setReg 17 target) false
  rw [State.setReg_x_self _ _ (by decide)] at executed
  exact relocated.reaches_copied (by simpa using holds) located next (Option.some.inj emitted)
    executed

/-- A trampoline to a near target leads there after it is relocated. -/
theorem reaches_nearTrampoline {toAddr : Addr} (near : llabs relocated.origin toAddr < adrpRange)
    (instrs : ∀ index word, (generateNormalTrampolineBuffer relocated.origin toAddr)[index]? =
      some word → index < 3 → relocated.instrs[index]? = some word) :
    Reaches cpu (wordAt relocated.start (relocated.entry 0), state')
      (trampolineTarget relocated.origin toAddr,
        state'.setReg 17 (trampolineTarget relocated.origin toAddr)) := by
  rw [nearTrampoline_words near] at instrs
  have first := instrs 0 _ rfl (by omega)
  have second := instrs 1 _ rfl (by omega)
  obtain ⟨block, emitted, located, next⟩ := generated_block relocated.generated first
  rw [relocateInstr_adrp] at emitted
  have paged : Reaches cpu _ _ :=
    relocated.reaches_pcRelAddressing holds located next (Option.some.inj emitted)
  have executed := exec_adrpTmpWord cpu relocated.origin toAddr state'
  rw [exec_pcRelAddressing (adrpTmpWord_pcRel _)] at executed
  rw [show wordAt relocated.origin 0 = relocated.origin from BitVec.add_zero _,
    (Prod.mk.inj executed).1] at paged
  obtain ⟨block', emitted', located', next'⟩ := generated_block relocated.generated second
  rw [relocateInstr_add] at emitted'
  have added : Reaches cpu _ _ := relocated.reaches_copied (by simpa using holds) located' next'
    (Option.some.inj emitted') (exec_addTmpWord cpu toAddr _
      (adrpTarget relocated.origin toAddr) state')
  rw [adrpTarget_add_offset near] at added
  exact paged.trans (added.trans
    (reaches_branchTmp_copied holds _ (instrs 2 _ rfl (by omega))))

/-- A trampoline to a far target leads where the bytes behind its branch say, after it is
relocated. -/
theorem reaches_farTrampoline {toAddr : Addr} (far : ¬ llabs relocated.origin toAddr < adrpRange)
    (instrs : ∀ index word, (generateNormalTrampolineBuffer relocated.origin toAddr)[index]? =
      some word → index < 3 → relocated.instrs[index]? = some word) :
    Reaches cpu (wordAt relocated.start (relocated.entry 0), state')
      (read64 state'.mem (wordAt relocated.origin 2),
        state'.setReg 17 (read64 state'.mem (wordAt relocated.origin 2))) := by
  rw [farTrampoline_words far] at instrs
  obtain ⟨block, emitted, located, next⟩ :=
    generated_block relocated.generated (instrs 0 _ rfl (by omega))
  rw [relocateInstr, if_pos (by decide)] at emitted
  have isLiteral : wordAt relocated.origin 2 = wordAt relocated.origin 0 +
      distance (field (PseudoLabel.encodeLdrLiteral unlinkedLdr 8) 5 19) := by
    rw [show distance (field (PseudoLabel.encodeLdrLiteral unlinkedLdr 8) 5 19) = 8 by decide]
    exact (wordAt_add relocated.origin 0 2).symm
  have loaded : Reaches cpu _ _ :=
    relocated.reaches_ldrLiteral holds located next emitted (by decide) isLiteral
  rw [show field (PseudoLabel.encodeLdrLiteral unlinkedLdr 8) 0 5 = 17 by decide,
    State.setReg_setReg] at loaded
  exact loaded.trans (reaches_branchTmp_copied holds _ (instrs 1 _ rfl (by omega)))

end Relocated

/-! ## Second hooks -/

variable {platform : Platform} {debug : Bool}

theorem three_le_length_trampoline (fromAddr toAddr : Addr) :
    3 ≤ (generateNormalTrampolineBuffer fromAddr toAddr).length := by
  by_cases near : llabs fromAddr toAddr < adrpRange
  · rw [nearTrampoline_words near]
    simp
  · rw [farTrampoline_words near]
    simp

end AndroidPatch.Dobby.Arm64
