import Mathlib.Algebra.Ring.Nat
import AndroidPatch.Library.Run
import AndroidPatch.Lang.ExternalKernel

/-!
Contract: `Patchwork`, the registry of patch ids.

Owns:
- `patch` and `recover` over the counter, the map of pairs and the kernel, with
  every failure the two methods can end in;
- the case analysis of both methods, from which all invariants follow;
- runs of calls from a freshly provided kernel.

The registry compares members and patches by identity, the kernel compares
members by `equals`. Ids are `long`s: the counter wraps around.
-/

namespace AndroidPatch.Lang

open AndroidPatch.Library

/-- The static state of the class. The entry order of `pairs` stands for the
iteration order of the hash map. -/
structure Patchwork where
  externalKernel : Option Kernel
  count : Int64
  pairs : AList (fun _ : Int64 => Member × Patch)

/-- `catch (PatchError e) { throw e; } catch (Throwable t) { throw new
PatchError(t); }` -/
def asPatchError : Throwable → Throwable
  | .patchError identity => .patchError identity
  | .patchErrorOf cause => .patchErrorOf cause
  | throwable => .patchErrorOf throwable

namespace Patchwork

/-- The state after the constructor of the one kernel has called `provide`. -/
def provided : Patchwork where
  externalKernel := some Kernel.initial
  count := 0
  pairs := ∅

/-- The loop over `pairs` that looks for an already patched pair. -/
def findPair (state : Patchwork) (member : Member) (patch : Patch) : Option Int64 :=
  (state.pairs.entries.find? fun entry => entry.2 = (member, patch)).map Sigma.fst

/-- `Patchwork.patch`; a null argument is `none`. -/
def patch (state : Patchwork) (member : Option Member) (patch : Option Patch)
    (faults : AddFaults) : Except Throwable Int64 × Patchwork :=
  match member, patch with
  | none, _ => (.error (.illegalArgument "member cannot be null"), state)
  | some _, none => (.error (.illegalArgument "patch cannot be null"), state)
  | some member, some patch =>
      match state.findPair member patch with
      | some id => (.ok id, state)
      | none =>
          match state.externalKernel with
          | none => (.error (asPatchError .nullPointer), state)
          | some kernel =>
              match kernel.addPatch member patch faults with
              | (.error throwable, kernel) =>
                  (.error (asPatchError throwable),
                    { state with externalKernel := some kernel })
              | (.ok (), kernel) =>
                  let count := state.count + 1
                  (.ok count,
                    { externalKernel := some kernel
                      count := count
                      pairs := state.pairs.insert count (member, patch) })

/-- `Patchwork.recover`. The pair is out of the map before the kernel is
called. -/
def recover (state : Patchwork) (id : Int64) : Except Throwable Bool × Patchwork :=
  match state.pairs.lookup id with
  | none => (.ok false, state)
  | some (member, patch) =>
      let state := { state with pairs := state.pairs.erase id }
      match state.externalKernel with
      | none => (.error (asPatchError .nullPointer), state)
      | some kernel =>
          match kernel.removePatch member patch with
          | (.error throwable, kernel) =>
              (.error (asPatchError throwable),
                { state with externalKernel := some kernel })
          | (.ok (), kernel) => (.ok true, { state with externalKernel := some kernel })

/-- The kernel whose hooks are in place; without one nothing is hooked. -/
def kernel (state : Patchwork) : Kernel :=
  state.externalKernel.getD Kernel.initial

/-- The snapshot of the struct the kernel holds for an executable. -/
def snapshot (state : Patchwork) (executable : Executable) : List Patch :=
  state.kernel.snapshot executable

/-- The published arrays. -/
def arrays (state : Patchwork) : ArrayHeap Patch :=
  state.kernel.arrays

theorem snapshot_sorted (state : Patchwork) (executable : Executable) :
    (state.snapshot executable).Pairwise Patch.Precedes :=
  (state.kernel.snapshot_sorted_nodup executable).1

theorem snapshot_nodup (state : Patchwork) (executable : Executable) :
    (state.snapshot executable).Nodup :=
  (state.kernel.snapshot_sorted_nodup executable).2

/-! ## Looking up a pair -/

theorem mem_entries_iff {state : Patchwork} {id : Int64} {pair : Member × Patch} :
    (⟨id, pair⟩ : Sigma fun _ : Int64 => Member × Patch) ∈ state.pairs.entries ↔
      state.pairs.lookup id = some pair :=
  AList.mem_lookup_iff.symm

theorem findPair_eq_some {state : Patchwork} {member : Member} {patch : Patch}
    {id : Int64} (found : state.findPair member patch = some id) :
    state.pairs.lookup id = some (member, patch) := by
  obtain ⟨⟨key, pair⟩, isFound, isKey⟩ := Option.map_eq_some_iff.mp found
  have matching : pair = (member, patch) := by
    simpa using List.find?_some isFound
  subst matching
  obtain rfl : key = id := isKey
  exact mem_entries_iff.mp (List.mem_of_find?_eq_some isFound)

theorem findPair_eq_none {state : Patchwork} {member : Member} {patch : Patch}
    (missing : state.findPair member patch = none) (id : Int64) :
    state.pairs.lookup id ≠ some (member, patch) := by
  intro live
  have notFound := Option.map_eq_none_iff.mp missing
  have different := List.find?_eq_none.mp notFound _ (mem_entries_iff.mpr live)
  simp at different

/-! ## Everything the two methods can do -/

/-- A kernel has been provided. -/
def Hosted (state : Patchwork) : Prop :=
  state.externalKernel.isSome = true

/-- A failed call leaves the registry and every snapshot alone; a repeated one
changes nothing at all; a new registration takes the next id. -/
inductive PatchResult (state : Patchwork) (member : Option Member)
    (patch : Option Patch) (faults : AddFaults) :
    Except Throwable Int64 × Patchwork → Prop where
  | failed (throwable : Throwable)
      (cause : member = none ∨ patch = none ∨ faults ≠ .none)
      (state' : Patchwork) (hosted : state'.Hosted)
      (growth : ArrayHeap.Grows state.arrays state'.arrays)
      (count : state'.count = state.count) (pairs : state'.pairs = state.pairs)
      (snapshot : ∀ executable, state'.snapshot executable = state.snapshot executable) :
      PatchResult state member patch faults (.error throwable, state')
  | existing (member' : Member) (patch' : Patch)
      (isMember : member = some member') (isPatch : patch = some patch') (id : Int64)
      (live : state.pairs.lookup id = some (member', patch')) :
      PatchResult state member patch faults (.ok id, state)
  | registered (member' : Member) (patch' : Patch)
      (isMember : member = some member') (isPatch : patch = some patch')
      (unpaired : ∀ id, state.pairs.lookup id ≠ some (member', patch'))
      (state' : Patchwork) (hosted : state'.Hosted)
      (growth : ArrayHeap.Grows state.arrays state'.arrays)
      (count : state'.count = state.count + 1)
      (pairs : state'.pairs = state.pairs.insert (state.count + 1) (member', patch'))
      (snapshot : ∀ executable, state'.snapshot executable =
        if executable = member'.executable then
          CopyOnWriteSortedSet.added Patch.Precedes
            (state.snapshot member'.executable) patch'
        else state.snapshot executable) :
      PatchResult state member patch faults (.ok (state.count + 1), state')

theorem patch_cases {state : Patchwork} (hosted : state.Hosted)
    (member : Option Member) (patch : Option Patch) (faults : AddFaults) :
    PatchResult state member patch faults (state.patch member patch faults) := by
  obtain ⟨kernel, isKernel⟩ := Option.isSome_iff_exists.mp hosted
  rcases member with _ | member
  · exact .failed _ (Or.inl rfl) state hosted (ArrayHeap.Grows.refl _) rfl rfl
      (fun _ => rfl)
  rcases patch with _ | patch
  · exact .failed _ (Or.inr (Or.inl rfl)) state hosted (ArrayHeap.Grows.refl _) rfl rfl
      (fun _ => rfl)
  have isHosted : state.kernel = kernel := by simp [Patchwork.kernel, isKernel]
  have snapshot : ∀ executable, state.snapshot executable = kernel.snapshot executable :=
    fun executable => congrArg (Kernel.snapshot · executable) isHosted
  cases found : state.findPair member patch with
  | some id =>
      simp only [Patchwork.patch, found]
      exact .existing member patch rfl rfl id (findPair_eq_some found)
  | none =>
      simp only [Patchwork.patch, found, isKernel]
      have growth := kernel.addPatch_grows member patch faults
      cases added : kernel.addPatch member patch faults with
      | mk result kernel' =>
          rw [added] at growth
          cases result with
          | error throwable =>
              have noisy : faults ≠ .none := by
                rintro rfl
                have quiet := kernel.addPatch_quiet member patch
                rw [added] at quiet
                cases quiet
              have unchanged := kernel.snapshot_addPatch_of_error member patch faults
                (by rw [added])
              rw [added] at unchanged
              refine .failed _ (Or.inr (Or.inr noisy)) _ ?_ ?_ rfl rfl ?_
              · exact rfl
              · rw [arrays, isHosted]
                exact growth
              · intro executable
                rw [snapshot]
                exact unchanged executable
          | ok =>
              have changed := kernel.snapshot_addPatch_of_ok member patch faults
                (by rw [added])
              rw [added] at changed
              refine .registered member patch rfl rfl (findPair_eq_none found) _ ?_ ?_ rfl
                rfl ?_
              · exact rfl
              · rw [arrays, isHosted]
                exact growth
              · intro executable
                rw [snapshot, snapshot]
                exact changed executable

/-- `recover` of an unknown id changes nothing; of a live one it takes the pair
out of the map and the patch out of the member's snapshot. -/
inductive RecoverResult (state : Patchwork) (id : Int64) :
    Except Throwable Bool × Patchwork → Prop where
  | unknown (absent : state.pairs.lookup id = none) :
      RecoverResult state id (.ok false, state)
  | recovered (member : Member) (patch : Patch)
      (live : state.pairs.lookup id = some (member, patch))
      (state' : Patchwork) (hosted : state'.Hosted)
      (growth : ArrayHeap.Grows state.arrays state'.arrays)
      (count : state'.count = state.count) (pairs : state'.pairs = state.pairs.erase id)
      (snapshot : ∀ executable, state'.snapshot executable =
        if executable = member.executable then
          (state.snapshot member.executable).erase patch
        else state.snapshot executable) :
      RecoverResult state id (.ok true, state')

theorem recover_cases {state : Patchwork} (hosted : state.Hosted) (id : Int64) :
    RecoverResult state id (state.recover id) := by
  obtain ⟨kernel, isKernel⟩ := Option.isSome_iff_exists.mp hosted
  have isHosted : state.kernel = kernel := by simp [Patchwork.kernel, isKernel]
  have snapshot : ∀ executable, state.snapshot executable = kernel.snapshot executable :=
    fun executable => congrArg (Kernel.snapshot · executable) isHosted
  unfold Patchwork.recover
  cases live : state.pairs.lookup id with
  | none => exact .unknown live
  | some pair =>
      obtain ⟨member, patch⟩ := pair
      simp only [isKernel]
      have growth := kernel.removePatch_grows member patch
      have changed := kernel.snapshot_removePatch member patch
      have succeeds := kernel.removePatch_ok member patch
      cases removed : kernel.removePatch member patch with
      | mk result kernel' =>
          rw [removed] at growth changed succeeds
          obtain rfl : result = .ok () := succeeds
          refine .recovered member patch live _ ?_ ?_ rfl rfl ?_
          · exact rfl
          · rw [arrays, isHosted]
            exact growth
          · intro executable
            rw [snapshot, snapshot]
            exact changed executable

/-! ## Runs -/

/-- One call on the registry by any of its users. -/
inductive Call where
  | patch (member : Option Member) (patch : Option Patch) (faults : AddFaults)
  | recover (id : Int64)
deriving DecidableEq, Repr

inductive Answer where
  | patched (result : Except Throwable Int64)
  | recovered (result : Except Throwable Bool)

def step (state : Patchwork) : Call → Answer × Patchwork
  | .patch member patch faults =>
      let (result, state) := state.patch member patch faults
      (.patched result, state)
  | .recover id =>
      let (result, state) := state.recover id
      (.recovered result, state)

/-- The state after a sequence of calls on a freshly provided kernel. -/
def after (calls : List Call) : Patchwork :=
  run step provided calls

/-- The id of the new registration a call makes, if it makes one. -/
def registration (state : Patchwork) : Call → Option Int64
  | .patch (some member) (some patch) faults =>
      match state.findPair member patch, state.patch (some member) (some patch) faults with
      | none, (.ok id, _) => some id
      | _, _ => none
  | _ => none

/-- **Everything a call can do.**  Either the registry and every snapshot stay as
they are, or one pair is registered under the next id, or one live pair is
recovered. -/
inductive Effect (state : Patchwork) : Call → Patchwork → Prop where
  | quiet (call : Call) (unregistered : state.registration call = none)
      (absent : ∀ id, call = .recover id → state.pairs.lookup id = none)
      (state' : Patchwork) (hosted : state'.Hosted) (count : state'.count = state.count)
      (pairs : state'.pairs = state.pairs)
      (snapshot : ∀ executable, state'.snapshot executable = state.snapshot executable) :
      Effect state call state'
  | registered (member : Member) (patch : Patch) (faults : AddFaults)
      (isNew : state.registration (.patch (some member) (some patch) faults) =
        some (state.count + 1))
      (unpaired : ∀ id, state.pairs.lookup id ≠ some (member, patch))
      (state' : Patchwork) (hosted : state'.Hosted)
      (count : state'.count = state.count + 1)
      (pairs : state'.pairs = state.pairs.insert (state.count + 1) (member, patch))
      (snapshot : ∀ executable, state'.snapshot executable =
        if executable = member.executable then
          CopyOnWriteSortedSet.added Patch.Precedes
            (state.snapshot member.executable) patch
        else state.snapshot executable) :
      Effect state (.patch (some member) (some patch) faults) state'
  | recovered (id : Int64) (member : Member) (patch : Patch)
      (live : state.pairs.lookup id = some (member, patch))
      (state' : Patchwork) (hosted : state'.Hosted) (count : state'.count = state.count)
      (pairs : state'.pairs = state.pairs.erase id)
      (snapshot : ∀ executable, state'.snapshot executable =
        if executable = member.executable then
          (state.snapshot member.executable).erase patch
        else state.snapshot executable) :
      Effect state (.recover id) state'

theorem step_effect {state : Patchwork} (hosted : state.Hosted) (call : Call) :
    Effect state call (state.step call).2 := by
  cases call with
  | patch member patch faults =>
      have noId : ∀ id, Call.patch member patch faults = .recover id →
          state.pairs.lookup id = none := fun _ impossible => nomatch impossible
      rcases member with _ | member
      · exact .quiet _ rfl noId state hosted rfl rfl (fun _ => rfl)
      rcases patch with _ | patch
      · exact .quiet _ rfl noId state hosted rfl rfl (fun _ => rfl)
      have result := patch_cases hosted (some member) (some patch) faults
      show Effect state _ (state.patch (some member) (some patch) faults).2
      cases outcome : state.patch (some member) (some patch) faults with
      | mk answer state' =>
          rw [outcome] at result
          cases result with
          | failed throwable _ _ hosted' _ count pairs snapshot =>
              refine .quiet _ ?_ noId state' hosted' count pairs snapshot
              simp only [registration, outcome]
              cases state.findPair member patch <;> rfl
          | existing member' patch' isMember isPatch id live =>
              refine .quiet _ ?_ noId state hosted rfl rfl (fun _ => rfl)
              cases isMember
              cases isPatch
              cases found : state.findPair member patch with
              | none => exact absurd live (findPair_eq_none found id)
              | some _ => simp only [registration, found]
          | registered member' patch' isMember isPatch unpaired _ hosted' _ count pairs
              snapshot =>
              cases isMember
              cases isPatch
              refine .registered member patch faults ?_ unpaired state' hosted' count pairs
                snapshot
              cases found : state.findPair member patch with
              | some id => exact absurd (findPair_eq_some found) (unpaired id)
              | none => simp only [registration, found, outcome]
  | recover id =>
      have result := recover_cases hosted id
      show Effect state _ (state.recover id).2
      generalize state.recover id = outcome at result
      cases result with
      | unknown absent =>
          refine .quiet _ rfl ?_ state hosted rfl rfl (fun _ => rfl)
          intro other same
          cases same
          exact absent
      | recovered member patch live state' hosted' _ count pairs snapshot =>
          exact .recovered id member patch live state' hosted' count pairs snapshot

theorem step_hosted {state : Patchwork} (hosted : state.Hosted) (call : Call) :
    (state.step call).2.Hosted := by
  have effect := step_effect hosted call
  cases effect with
  | quiet _ _ _ _ hosted' => exact hosted'
  | registered _ _ _ _ _ _ hosted' => exact hosted'
  | recovered _ _ _ _ _ hosted' => exact hosted'

/-- No call on the registry changes a published array. -/
theorem step_grows (state : Patchwork) (call : Call) :
    ArrayHeap.Grows state.arrays (state.step call).2.arrays := by
  by_cases hosted : state.Hosted
  · cases call with
    | patch member patch faults =>
        have result := patch_cases hosted member patch faults
        show ArrayHeap.Grows _ (state.patch member patch faults).2.arrays
        generalize state.patch member patch faults = outcome at result
        cases result with
        | failed _ _ _ _ growth => exact growth
        | existing => exact ArrayHeap.Grows.refl _
        | registered _ _ _ _ _ _ _ growth => exact growth
    | recover id =>
        have result := recover_cases hosted id
        show ArrayHeap.Grows _ (state.recover id).2.arrays
        generalize state.recover id = outcome at result
        cases result with
        | unknown => exact ArrayHeap.Grows.refl _
        | recovered _ _ _ _ _ growth => exact growth
  · have unhosted : state.externalKernel = none := by
      simpa [Hosted] using hosted
    have kept : (state.step call).2.kernel = state.kernel := by
      cases call with
      | patch member patch faults =>
          simp only [step, Patchwork.patch, unhosted]
          split <;> try rfl
          split <;> rfl
      | recover id =>
          simp only [step, Patchwork.recover, unhosted]
          split <;> simp [Patchwork.kernel, unhosted]
    rw [arrays, arrays, kept]
    exact ArrayHeap.Grows.refl _

theorem provided_hosted : provided.Hosted := rfl

theorem after_hosted (calls : List Call) : (after calls).Hosted :=
  run_induction Hosted provided_hosted (fun _ call hosted => step_hosted hosted call) calls

end Patchwork

end AndroidPatch.Lang
