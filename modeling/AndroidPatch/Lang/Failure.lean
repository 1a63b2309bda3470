import AndroidPatch.Lang.Patchwork
import AndroidPatch.Lang.Execution

/-!
Contract: what a failed `patch` leaves behind.

Owns:
- the exact state after a call that throws: the state before it, or that state
  with one more struct for the member, whose set is empty;
- the executions of such a member;
- the comparison of two runs, one with the failed call and one without it.

A struct that is left behind spares later calls one attempt to hook the member.
That is the only way in which the two runs can be told apart, so the run
without the failed call is one in which this attempt is not refused.
-/

namespace AndroidPatch.Lang

open AndroidPatch.Library

/-! ## `addPatch` as a function of the mapping and the faults -/

namespace Kernel

variable (kernel : Kernel) (member : Member) (patch : Patch) (faults : AddFaults)

/-- The map holds a struct for the executable. -/
def maps (executable : Executable) : Bool :=
  (kernel.val.mMemberMapping.lookup executable).isSome

/-- The kernel with a new struct for a member that had none. -/
def hooked (unmapped : kernel.val.mMemberMapping.lookup member.executable = none) : Kernel :=
  ⟨kernel.val.hooked member, kernel.property.hooked unmapped⟩

/-- How `addPatch` ends: the hook is tried only for an unmapped member. -/
def verdict (mapped : Bool) (faults : AddFaults) : Except Throwable Unit :=
  match mapped, faults.hook, faults.sort with
  | false, some throwable, _ => .error throwable
  | _, _, some throwable => .error throwable
  | _, _, none => .ok ()

/-- `addToStruct` does not touch the map. -/
theorem mapping_addToStruct (kernel : ExternalKernel) (ref : StructRef) (patch : Patch)
    (interruption : Option Throwable) :
    (kernel.addToStruct ref patch interruption).2.mMemberMapping = kernel.mMemberMapping := by
  unfold ExternalKernel.addToStruct
  cases kernel.structs[ref]? with
  | none => rfl
  | some struct =>
      dsimp only
      cases struct.mPatches.add Patch.Precedes kernel.arrays patch interruption with
      | error throwable => rfl
      | ok result => rfl

theorem mapping_removePatch :
    (kernel.removePatch member patch).2.val.mMemberMapping = kernel.val.mMemberMapping := by
  show (kernel.val.removePatch member patch).2.mMemberMapping = _
  rw [ExternalKernel.removePatch_halves]
  cases kernel.val.mMemberMapping.lookup member.executable with
  | none => rfl
  | some ref =>
      dsimp only
      unfold ExternalKernel.removeFromStruct
      cases kernel.val.structs[ref]? with
      | none => rfl
      | some struct =>
          dsimp only
          cases raised (struct.mPatches.remove kernel.val.arrays patch) with
          | error throwable => rfl
          | ok result => rfl

theorem addToStruct_fst {kernel : ExternalKernel} (wellFormed : kernel.WellFormed)
    {executable : Executable} {ref : StructRef}
    (lookup : kernel.mMemberMapping.lookup executable = some ref) (patch : Patch)
    (interruption : Option Throwable) :
    (kernel.addToStruct ref patch interruption).1 =
      match interruption with
      | some throwable => .error throwable
      | none => .ok () := by
  cases interruption with
  | some throwable => rw [wellFormed.addToStruct_some lookup]
  | none =>
      obtain ⟨kernel', result, -⟩ := wellFormed.addToStruct_none lookup patch
      rw [result]

theorem addPatch_fst :
    (kernel.addPatch member patch faults).1 =
      verdict (kernel.maps member.executable) faults := by
  show (kernel.val.addPatch member patch faults).1 = _
  unfold ExternalKernel.addPatch maps verdict
  cases lookup : kernel.val.mMemberMapping.lookup member.executable with
  | some ref =>
      dsimp only [Option.isSome]
      rw [addToStruct_fst kernel.property lookup]
      cases faults.sort <;> rfl
  | none =>
      cases hook : faults.hook with
      | some throwable => rfl
      | none =>
          have added := addToStruct_fst (kernel.property.hooked lookup)
            ExternalKernel.lookup_hooked_self patch faults.sort
          refine Eq.trans added ?_
          cases faults.sort <;> rfl

/-- The map grows by the member, unless the hook was refused. -/
theorem maps_addPatch (executable : Executable) :
    (kernel.addPatch member patch faults).2.maps executable =
      (kernel.maps executable ||
        (decide (executable = member.executable) && faults.hook.isNone)) := by
  show ((kernel.val.addPatch member patch faults).2.mMemberMapping.lookup executable).isSome = _
  unfold ExternalKernel.addPatch maps
  cases lookup : kernel.val.mMemberMapping.lookup member.executable with
  | some ref =>
      dsimp only
      rw [mapping_addToStruct]
      by_cases same : executable = member.executable
      · rw [same, lookup]
        rfl
      · simp [same]
  | none =>
      cases hook : faults.hook with
      | some throwable => simp [ExternalKernel.hookMember]
      | none =>
          have mapping := mapping_addToStruct (kernel.val.hooked member)
            kernel.val.structs.length patch faults.sort
          refine Eq.trans (congrArg (fun map => (AList.lookup executable map).isSome) mapping) ?_
          by_cases same : executable = member.executable
          · rw [same, ExternalKernel.lookup_hooked_self]
            simp
          · rw [ExternalKernel.lookup_hooked_of_ne same]
            simp [same]

/-- **What a failed `addPatch` leaves behind.** -/
theorem addPatch_of_error {throwable : Throwable}
    (failed : (kernel.addPatch member patch faults).1 = .error throwable) :
    (kernel.addPatch member patch faults).2 = kernel ∨
      ∃ unmapped, (kernel.addPatch member patch faults).2 = kernel.hooked member unmapped := by
  rw [addPatch_fst] at failed
  by_cases lookup : kernel.val.mMemberMapping.lookup member.executable = none
  · cases hook : faults.hook with
    | some refusal =>
        refine Or.inl (Subtype.ext ?_)
        show (kernel.val.addPatch member patch faults).2 = kernel.val
        unfold ExternalKernel.addPatch
        rw [lookup, hook]
        rfl
    | none =>
        refine Or.inr ⟨lookup, Subtype.ext ?_⟩
        show (kernel.val.addPatch member patch faults).2 = kernel.val.hooked member
        cases sort : faults.sort with
        | none =>
            unfold verdict maps at failed
            rw [lookup, sort, hook] at failed
            cases failed
        | some interruption =>
            unfold ExternalKernel.addPatch
            rw [lookup, hook, sort]
            exact congrArg Prod.snd ((kernel.property.hooked lookup).addToStruct_some
              ExternalKernel.lookup_hooked_self patch interruption)
  · obtain ⟨ref, lookup⟩ := Option.ne_none_iff_exists'.mp lookup
    refine Or.inl (Subtype.ext ?_)
    show (kernel.val.addPatch member patch faults).2 = kernel.val
    cases sort : faults.sort with
    | none =>
        unfold verdict maps at failed
        rw [lookup, sort] at failed
        cases failed
    | some interruption =>
        unfold ExternalKernel.addPatch
        rw [lookup, sort]
        exact congrArg Prod.snd
          (kernel.property.addToStruct_some lookup patch interruption)

theorem snapshot_hooked
    (unmapped : kernel.val.mMemberMapping.lookup member.executable = none)
    (executable : Executable) :
    (kernel.hooked member unmapped).snapshot executable = kernel.snapshot executable :=
  kernel.property.snapshot_hooked unmapped executable

/-- An unmapped member has no patches. -/
theorem snapshot_eq_nil
    (unmapped : kernel.val.mMemberMapping.lookup member.executable = none) :
    kernel.snapshot member.executable = [] := by
  unfold snapshot ExternalKernel.snapshot
  rw [unmapped]

end Kernel

namespace Patchwork

/-! ## The state after a failed call -/

/-- The registry and every snapshot are the same. -/
structure Alike (left right : Patchwork) : Prop where
  count : left.count = right.count
  pairs : left.pairs = right.pairs
  snapshot : ∀ executable, left.snapshot executable = right.snapshot executable

/-- `left` is `state` with one more struct, for a member that had none. Its set
is empty. -/
def LeavesStruct (state : Patchwork) (member : Member) (left : Patchwork) : Prop :=
  ∃ kernel unmapped, state.externalKernel = some kernel ∧
    left = { state with externalKernel := some (kernel.hooked member unmapped) }

theorem LeavesStruct.alike {state left : Patchwork} {member : Member}
    (leaves : state.LeavesStruct member left) : left.Alike state := by
  obtain ⟨kernel, unmapped, isKernel, rfl⟩ := leaves
  refine ⟨rfl, rfl, fun executable => ?_⟩
  have current : state.kernel = kernel := by simp [Patchwork.kernel, isKernel]
  show (kernel.hooked member unmapped).snapshot executable = state.kernel.snapshot executable
  rw [Kernel.snapshot_hooked, current]

/-- No patch is registered for the member the struct was left for. -/
theorem LeavesStruct.snapshot_eq_nil {state left : Patchwork} {member : Member}
    (leaves : state.LeavesStruct member left) : left.snapshot member.executable = [] := by
  rw [leaves.alike.snapshot]
  obtain ⟨kernel, unmapped, isKernel, rfl⟩ := leaves
  have current : state.kernel = kernel := by simp [Patchwork.kernel, isKernel]
  show state.kernel.snapshot member.executable = []
  rw [current]
  exact kernel.snapshot_eq_nil member unmapped

theorem patch_of_error {state : Patchwork} {member : Option Member} {patch : Option Patch}
    {faults : AddFaults} {throwable : Throwable}
    (failed : (state.patch member patch faults).1 = .error throwable) :
    (state.patch member patch faults).2 = state ∨
      ∃ hooked, member = some hooked ∧
        state.LeavesStruct hooked (state.patch member patch faults).2 := by
  rcases member with _ | member
  · exact Or.inl rfl
  rcases patch with _ | patch
  · exact Or.inl rfl
  revert failed
  simp only [Patchwork.patch]
  cases state.findPair member patch with
  | some id => exact fun _ => Or.inl rfl
  | none =>
      cases isKernel : state.externalKernel with
      | none => exact fun _ => Or.inl rfl
      | some kernel =>
          dsimp only
          have left := fun throwable failed =>
            @Kernel.addPatch_of_error kernel member patch faults throwable failed
          revert left
          rcases kernel.addPatch member patch faults with ⟨cause | _, kernel'⟩
          · intro left _
            rcases left cause rfl with same | ⟨unmapped, isHooked⟩
            · obtain rfl : kernel' = kernel := same
              refine Or.inl ?_
              show { state with externalKernel := some kernel' } = state
              rw [← isKernel]
            · obtain rfl : kernel' = kernel.hooked member unmapped := isHooked
              exact Or.inr ⟨member, rfl, kernel, unmapped, isKernel, rfl⟩
          · intro _ failed
            cases failed

/-! ## Two runs in lockstep -/

/-- The same call when hooking members equal to `executable` is not refused. -/
def Call.admitting (executable : Executable) : Call → Call
  | .patch (some member) added faults =>
      .patch (some member) added
        (if member.executable = executable then { faults with hook := none } else faults)
  | call => call

/-- **The invariant of the two runs.**  They show the same registry and
snapshots. The left one holds a struct for `executable`; the right one may still
have to create it. -/
structure Twins (executable : Executable) (left right : Patchwork) : Prop extends
    Alike left right where
  hosted : ∃ leftKernel rightKernel, left.externalKernel = some leftKernel ∧
    right.externalKernel = some rightKernel ∧ leftKernel.maps executable = true ∧
    ∀ other, other ≠ executable → leftKernel.maps other = rightKernel.maps other

theorem LeavesStruct.twins {state left : Patchwork} {member : Member}
    (leaves : state.LeavesStruct member left) : Twins member.executable left state := by
  have alike := leaves.alike
  obtain ⟨kernel, unmapped, isKernel, rfl⟩ := leaves
  refine ⟨alike, kernel.hooked member unmapped, kernel, rfl, isKernel, ?_, ?_⟩
  · show ((kernel.val.hooked member).mMemberMapping.lookup member.executable).isSome = true
    rw [ExternalKernel.lookup_hooked_self]
    rfl
  · intro other different
    show ((kernel.val.hooked member).mMemberMapping.lookup other).isSome = _
    rw [ExternalKernel.lookup_hooked_of_ne different]
    rfl

/-- Both runs hook and sort alike: the left one does not need the hook, in the
right one it is not refused. -/
theorem verdict_admitting {executable : Executable} {leftKernel rightKernel : Kernel}
    (mapped : leftKernel.maps executable = true)
    (same : ∀ other, other ≠ executable → leftKernel.maps other = rightKernel.maps other)
    (member : Member) (faults : AddFaults) :
    let admitted := if member.executable = executable then { faults with hook := none }
      else faults
    Kernel.verdict (leftKernel.maps member.executable) faults =
        Kernel.verdict (rightKernel.maps member.executable) admitted ∧
      ∀ other, other ≠ executable →
        (decide (other = member.executable) && faults.hook.isNone) =
          (decide (other = member.executable) && admitted.hook.isNone) := by
  by_cases isMember : member.executable = executable
  · simp only [if_pos isMember]
    refine ⟨?_, fun other different => ?_⟩
    · rw [isMember, mapped]
      unfold Kernel.verdict
      cases faults.sort <;> cases rightKernel.maps executable <;> rfl
    · rw [isMember]
      simp [different]
  · simp only [if_neg isMember]
    exact ⟨by rw [same _ isMember], fun _ _ => trivial⟩

/-- The kernels of the two runs. -/
structure KernelTwins (executable : Executable) (left right : Kernel) : Prop where
  snapshot : ∀ other, left.snapshot other = right.snapshot other
  mapped : left.maps executable = true
  same : ∀ other, other ≠ executable → left.maps other = right.maps other

theorem KernelTwins.addPatch {executable : Executable} {left right : Kernel}
    (twins : KernelTwins executable left right) (member : Member) (patch : Patch)
    (faults : AddFaults) :
    let admitted := if member.executable = executable then { faults with hook := none }
      else faults
    (left.addPatch member patch faults).1 = (right.addPatch member patch admitted).1 ∧
      KernelTwins executable (left.addPatch member patch faults).2
        (right.addPatch member patch admitted).2 := by
  intro admitted
  obtain ⟨sameVerdict, sameGrowth⟩ := verdict_admitting twins.mapped twins.same member faults
  have sameEnd : (left.addPatch member patch faults).1 =
      (right.addPatch member patch admitted).1 := by
    rw [Kernel.addPatch_fst, Kernel.addPatch_fst]
    exact sameVerdict
  refine ⟨sameEnd, fun other => ?_, ?_, fun other different => ?_⟩
  · cases leftEnd : (left.addPatch member patch faults).1 with
    | error throwable =>
        rw [leftEnd] at sameEnd
        rw [Kernel.snapshot_addPatch_of_error _ _ _ _ leftEnd,
          Kernel.snapshot_addPatch_of_error _ _ _ _ sameEnd.symm, twins.snapshot]
    | ok =>
        rw [leftEnd] at sameEnd
        rw [Kernel.snapshot_addPatch_of_ok _ _ _ _ leftEnd,
          Kernel.snapshot_addPatch_of_ok _ _ _ _ sameEnd.symm, twins.snapshot, twins.snapshot]
  · rw [Kernel.maps_addPatch, twins.mapped]
    rfl
  · rw [Kernel.maps_addPatch, Kernel.maps_addPatch, twins.same other different,
      sameGrowth other different]

theorem KernelTwins.removePatch {executable : Executable} {left right : Kernel}
    (twins : KernelTwins executable left right) (member : Member) (patch : Patch) :
    KernelTwins executable (left.removePatch member patch).2
      (right.removePatch member patch).2 := by
  have leftMaps : ∀ other, (left.removePatch member patch).2.maps other = left.maps other := by
    intro other
    unfold Kernel.maps
    rw [Kernel.mapping_removePatch]
  have rightMaps : ∀ other, (right.removePatch member patch).2.maps other =
      right.maps other := by
    intro other
    unfold Kernel.maps
    rw [Kernel.mapping_removePatch]
  refine ⟨fun other => ?_, ?_, fun other different => ?_⟩
  · rw [Kernel.snapshot_removePatch, Kernel.snapshot_removePatch, twins.snapshot, twins.snapshot]
  · rw [leftMaps, twins.mapped]
  · rw [leftMaps, rightMaps, twins.same other different]

theorem Twins.kernels {executable : Executable} {left right : Patchwork}
    (twins : Twins executable left right) :
    ∃ leftKernel rightKernel, left.externalKernel = some leftKernel ∧
      right.externalKernel = some rightKernel ∧
        KernelTwins executable leftKernel rightKernel := by
  obtain ⟨leftKernel, rightKernel, isLeft, isRight, mapped, same⟩ := twins.hosted
  refine ⟨leftKernel, rightKernel, isLeft, isRight, fun other => ?_, mapped, same⟩
  have visible := twins.snapshot other
  simpa [snapshot, Patchwork.kernel, isLeft, isRight] using visible

theorem Twins.patch {executable : Executable} {left right : Patchwork}
    (twins : Twins executable left right) (member : Member) (patch : Patch)
    (faults : AddFaults) :
    let admitted := if member.executable = executable then { faults with hook := none }
      else faults
    (left.patch (some member) (some patch) faults).1 =
        (right.patch (some member) (some patch) admitted).1 ∧
      Twins executable (left.patch (some member) (some patch) faults).2
        (right.patch (some member) (some patch) admitted).2 := by
  intro admitted
  obtain ⟨leftKernel, rightKernel, isLeft, isRight, kernels⟩ := twins.kernels
  have pairSearch : left.findPair member patch = right.findPair member patch := by
    unfold findPair
    rw [twins.pairs]
  have afterwards : (leftKernel.addPatch member patch faults).1 =
        (rightKernel.addPatch member patch admitted).1 ∧
      KernelTwins executable (leftKernel.addPatch member patch faults).2
        (rightKernel.addPatch member patch admitted).2 :=
    kernels.addPatch member patch faults
  simp only [Patchwork.patch, pairSearch, isLeft, isRight]
  cases found : right.findPair member patch with
  | some id => exact ⟨rfl, twins⟩
  | none =>
      dsimp only
      revert afterwards
      generalize leftKernel.addPatch member patch faults = leftResult
      generalize rightKernel.addPatch member patch admitted = rightResult
      obtain ⟨leftEnd, leftKernel'⟩ := leftResult
      obtain ⟨rightEnd, rightKernel'⟩ := rightResult
      rintro ⟨sameEnd, after⟩
      obtain rfl : leftEnd = rightEnd := sameEnd
      cases leftEnd with
      | error throwable =>
          exact ⟨rfl, ⟨twins.count, twins.pairs, after.snapshot⟩,
            leftKernel', rightKernel', rfl, rfl, after.mapped, after.same⟩
      | ok =>
          dsimp only
          rw [twins.count, twins.pairs]
          exact ⟨rfl, ⟨rfl, rfl, after.snapshot⟩,
            leftKernel', rightKernel', rfl, rfl, after.mapped, after.same⟩

theorem Twins.recover {executable : Executable} {left right : Patchwork}
    (twins : Twins executable left right) (id : Int64) :
    (left.recover id).1 = (right.recover id).1 ∧
      Twins executable (left.recover id).2 (right.recover id).2 := by
  obtain ⟨leftKernel, rightKernel, isLeft, isRight, kernels⟩ := twins.kernels
  unfold Patchwork.recover
  rw [twins.pairs]
  cases live : right.pairs.lookup id with
  | none => exact ⟨rfl, twins⟩
  | some pair =>
      obtain ⟨member, patch⟩ := pair
      simp only [isLeft, isRight]
      have after := kernels.removePatch member patch
      have leftEnd := leftKernel.removePatch_ok member patch
      have rightEnd := rightKernel.removePatch_ok member patch
      revert after leftEnd rightEnd
      generalize leftKernel.removePatch member patch = leftResult
      generalize rightKernel.removePatch member patch = rightResult
      obtain ⟨leftEnd, leftKernel'⟩ := leftResult
      obtain ⟨rightEnd, rightKernel'⟩ := rightResult
      rintro after ⟨rfl⟩ ⟨rfl⟩
      exact ⟨rfl, ⟨twins.count, rfl, after.snapshot⟩,
        leftKernel', rightKernel', rfl, rfl, after.mapped, after.same⟩

/-- One call of the two runs. -/
theorem Twins.step {executable : Executable} {left right : Patchwork}
    (twins : Twins executable left right) (call : Call) :
    (left.step call).1 = (right.step (call.admitting executable)).1 ∧
      Twins executable (left.step call).2 (right.step (call.admitting executable)).2 := by
  cases call with
  | recover id =>
      obtain ⟨sameAnswer, twinsAfter⟩ := twins.recover id
      exact ⟨congrArg Answer.recovered sameAnswer, twinsAfter⟩
  | patch member patch faults =>
      rcases member with _ | member
      · exact ⟨rfl, twins⟩
      rcases patch with _ | patch
      · exact ⟨rfl, twins⟩
      obtain ⟨sameAnswer, twinsAfter⟩ := twins.patch member patch faults
      exact ⟨congrArg Answer.patched sameAnswer, twinsAfter⟩

/-- **Atomic failure of `patch`.**  A call that throws leaves the registry and
every snapshot as they were. All it can leave behind is a struct with an empty
set for its member, and executions of a member without patches are those of the
original. No later call can tell: any later run answers as a run in which the
failed call was not made, and so does a later `patch` of the same pair. -/
theorem patch_failure_atomic (state : Patchwork) (member : Option Member)
    (patch : Option Patch) (faults : AddFaults) (throwable : Throwable)
    (failed : (state.patch member patch faults).1 = .error throwable) :
    let left := (state.patch member patch faults).2
    left.pairs = state.pairs ∧ left.count = state.count ∧
    (∀ executable, left.snapshot executable = state.snapshot executable) ∧
    (left = state ∨ ∃ hooked, member = some hooked ∧ state.LeavesStruct hooked left ∧
      left.snapshot hooked.executable = []) ∧
    (∀ (W : Type) (callbacks : Callbacks W) (kernel : W → Kernel) (executed : Member)
        (object : Obj) (objects : Option ArrayHeap.Ref) (world : W),
      (kernel world).snapshot executed.executable = [] →
        callbacks.execute kernel executed object objects world =
          ((callbacks.invokeOriginalMember object objects world).1.map Slot.value,
            (callbacks.invokeOriginalMember object objects world).2)) ∧
    ∀ later : List Call, ∃ twin : List Call,
      (twin = later ∨ ∃ hooked, member = some hooked ∧
        twin = later.map (Call.admitting hooked.executable)) ∧
      (history step left later).map Prod.snd = (history step state twin).map Prod.snd ∧
      Alike (run step left later) (run step state twin) ∧
      ((run step left later).patch member patch .none).1 =
        ((run step state twin).patch member patch .none).1 ∧
      Alike ((run step left later).patch member patch .none).2
        ((run step state twin).patch member patch .none).2 := by
  intro left
  have original : ∀ (W : Type) (callbacks : Callbacks W) (kernel : W → Kernel)
      (executed : Member) (object : Obj) (objects : Option ArrayHeap.Ref) (world : W),
      (kernel world).snapshot executed.executable = [] →
        callbacks.execute kernel executed object objects world =
          ((callbacks.invokeOriginalMember object objects world).1.map Slot.value,
            (callbacks.invokeOriginalMember object objects world).2) :=
    fun _ _ _ _ object objects _ unpatched =>
      Callbacks.execute_of_snapshot_nil unpatched object objects
  rcases patch_of_error failed with same | ⟨hooked, isMember, leaves⟩
  · have unchanged : left = state := same
    rw [unchanged]
    exact ⟨rfl, rfl, fun _ => rfl, Or.inl rfl, original, fun later =>
      ⟨later, Or.inl rfl, rfl, ⟨rfl, rfl, fun _ => rfl⟩, rfl, ⟨rfl, rfl, fun _ => rfl⟩⟩⟩
  · have alike := leaves.alike
    refine ⟨alike.pairs, alike.count, alike.snapshot,
      Or.inr ⟨hooked, isMember, leaves, leaves.snapshot_eq_nil⟩, original, fun later => ?_⟩
    obtain ⟨answers, twins⟩ := run_lockstep (Twins hooked.executable)
      (Call.admitting hooked.executable) (fun _ _ call twins => twins.step call)
      leaves.twins later
    refine ⟨later.map (Call.admitting hooked.executable), Or.inr ⟨hooked, isMember, rfl⟩,
      answers, twins.toAlike, ?_⟩
    rcases patch with _ | patch
    · rw [isMember]
      exact ⟨rfl, twins.toAlike⟩
    · obtain ⟨sameAnswer, twinsAfter⟩ := twins.patch hooked patch .none
      have quiet : (if hooked.executable = hooked.executable then
          { AddFaults.none with hook := none } else AddFaults.none) = AddFaults.none := by
        simp [AddFaults.none]
      rw [quiet] at sameAnswer twinsAfter
      rw [isMember]
      exact ⟨sameAnswer, twinsAfter.toAlike⟩

/-- The sort throws when a member gets its first patch; the next attempt takes
the first id. -/
theorem patch_failure_of_firstPatch :
    let failing : AddFaults := ⟨none, some (.other 0)⟩
    let left := (provided.patch (some .objectToString) (some (.sample 1)) failing).2
    (provided.patch (some .objectToString) (some (.sample 1)) failing).1 =
        .error (.patchErrorOf (.other 0)) ∧
      left.snapshot Member.objectToString.executable = [] ∧
      (left.patch (some .objectToString) (some (.sample 1)) .none).1 = .ok 1 := by
  intro failing left
  have failed : (provided.patch (some .objectToString) (some (.sample 1)) failing).1 =
      .error (.patchErrorOf (.other 0)) := rfl
  obtain ⟨-, -, unchanged, -, -, later⟩ := patch_failure_atomic provided _ _ failing _ failed
  obtain ⟨twin, isTwin, -, -, sameAnswer, -⟩ := later []
  have noCalls : twin = [] := by
    rcases isTwin with same | ⟨hooked, -, same⟩
    · exact same
    · exact same
  rw [noCalls] at sameAnswer
  exact ⟨failed, unchanged _, sameAnswer⟩

end Patchwork

end AndroidPatch.Lang
