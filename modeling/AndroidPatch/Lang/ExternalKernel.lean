import Mathlib.Data.List.AList
import AndroidPatch.Lang.CopyOnWriteSortedSet

/-!
Contract: the member table of `ExternalKernel`, with `hookMember` as
`XposedKernel` implements it.

Owns:
- `hookMember`, `addPatch` and `removePatch` over the heap of structs and
  published arrays;
- the invariant of the three layers: the map of structs, the closures installed
  in the bridge, and the sorted arrays;
- the effect of each operation on the snapshot of every member.

Does not own: what runs during an execution, or the ids handed to callers.
-/

namespace AndroidPatch.Lang

open AndroidPatch.Library

/-- A `MemberStruct` reference is its position in creation order. -/
abbrev StructRef := Nat

structure MemberStruct where
  mMember : Member
  mPatches : CopyOnWriteSortedSet
deriving DecidableEq, Repr

/-- `CopyOnWriteSortedSet.EMPTY_ARRAY`, allocated when the class is
initialised. -/
def emptyArray : ArrayHeap.Ref := 0

/-- The kernel and what hangs off it. `mMemberMapping` is keyed by
`Member.equals`; `hooks` lists the closures `hookMember` has installed, newest
first, each with the struct it captured. -/
structure ExternalKernel where
  arrays : ArrayHeap Patch
  structs : List MemberStruct
  mMemberMapping : AList (fun _ : Executable => StructRef)
  hooks : List (Executable × StructRef)

/-- What goes wrong during one `addPatch`: `hook` is thrown by `hookMember` if
it is called, `sort` escapes from the set's `equals` or from the sort. -/
structure AddFaults where
  hook : Option Throwable
  sort : Option Throwable
deriving DecidableEq, Repr

/-- Nothing goes wrong. -/
def AddFaults.none : AddFaults := ⟨.none, .none⟩

namespace ExternalKernel

def initial : ExternalKernel where
  arrays := ⟨[[]]⟩
  structs := []
  mMemberMapping := ∅
  hooks := []

/-- `XposedKernel.hookMember`. A closure is installed only when the bridge
accepts the member. -/
def hookMember (kernel : ExternalKernel) (member : Member)
    (failure : Option Throwable) : Except Throwable StructRef × ExternalKernel :=
  match failure with
  | some throwable => (.error throwable, kernel)
  | none =>
      let struct := kernel.structs.length
      (.ok struct,
        { kernel with
          structs := kernel.structs ++ [⟨member, ⟨emptyArray⟩⟩]
          hooks := (member.executable, struct) :: kernel.hooks })

/-- The assignment `elements = newElements` in the set of struct `ref`. -/
def publish (kernel : ExternalKernel) (ref : StructRef) (struct : MemberStruct)
    (set : CopyOnWriteSortedSet) (arrays : ArrayHeap Patch) : ExternalKernel :=
  { kernel with
    arrays := arrays
    structs := kernel.structs.set ref ⟨struct.mMember, set⟩ }

/-- `struct.getPatches().add(patch)`. -/
def addToStruct (kernel : ExternalKernel) (ref : StructRef) (patch : Patch)
    (interruption : Option Throwable) :
    Except Throwable Unit × ExternalKernel :=
  match kernel.structs[ref]? with
  | none => (.error .nullPointer, kernel)
  | some struct =>
      match struct.mPatches.add Patch.Precedes kernel.arrays patch interruption with
      | .error throwable => (.error throwable, kernel)
      | .ok (_, set, arrays) => (.ok (), kernel.publish ref struct set arrays)

def addPatch (kernel : ExternalKernel) (member : Member) (patch : Patch)
    (faults : AddFaults) : Except Throwable Unit × ExternalKernel :=
  match kernel.mMemberMapping.lookup member.executable with
  | some struct => kernel.addToStruct struct patch faults.sort
  | none =>
      match kernel.hookMember member faults.hook with
      | (.error throwable, kernel) => (.error throwable, kernel)
      | (.ok struct, kernel) =>
          let mapping := kernel.mMemberMapping.insert member.executable struct
          { kernel with mMemberMapping := mapping }.addToStruct struct patch faults.sort

def removePatch (kernel : ExternalKernel) (member : Member) (patch : Patch) :
    Except Throwable Unit × ExternalKernel :=
  match kernel.mMemberMapping.lookup member.executable with
  | none => (.ok (), kernel)
  | some ref =>
      match kernel.structs[ref]? with
      | none => (.error .nullPointer, kernel)
      | some struct =>
          match raised (struct.mPatches.remove kernel.arrays patch) with
          | .error throwable => (.error throwable, kernel)
          | .ok (_, set, arrays) => (.ok (), kernel.publish ref struct set arrays)

/-! ## Reading the tables -/

/-- The patches in the array a struct currently publishes. -/
def patchesOf (kernel : ExternalKernel) (ref : StructRef) : List Patch :=
  match kernel.structs[ref]? with
  | none => []
  | some struct =>
      (ArrayHeap.present (kernel.arrays.contents struct.mPatches.getSnapshot)).getD []

/-- The snapshot of the struct the kernel holds for an executable. -/
def snapshot (kernel : ExternalKernel) (executable : Executable) : List Patch :=
  match kernel.mMemberMapping.lookup executable with
  | none => []
  | some ref => kernel.patchesOf ref

/-- The struct the bridge routes executions of an executable to: the one
captured by the closure installed last. -/
def route (kernel : ExternalKernel) (executable : Executable) : Option StructRef :=
  kernel.hooks.lookup executable

/-! ## The invariant of the three layers -/

/-- The set of struct `ref` holds exactly `values`. -/
def Publishes (kernel : ExternalKernel) (ref : StructRef) (values : List Patch) :
    Prop :=
  ∃ struct, kernel.structs[ref]? = some struct ∧
    CopyOnWriteSortedSet.Holds Patch.Precedes kernel.arrays struct.mPatches values

structure WellFormed (kernel : ExternalKernel) : Prop where
  /-- A mapped struct was created for an equal member. -/
  mapped : ∀ executable ref,
    kernel.mMemberMapping.lookup executable = some ref →
      ∃ struct, kernel.structs[ref]? = some struct ∧
        struct.mMember.executable = executable
  published : ∀ ref < kernel.structs.length, ∃ values, kernel.Publishes ref values
  routed : ∀ executable,
    kernel.route executable = kernel.mMemberMapping.lookup executable
  hookedOnce : (kernel.hooks.map Prod.fst).Nodup
  shared : emptyArray < kernel.arrays.cells.length ∧
    kernel.arrays.contents emptyArray = []

theorem initial_wellFormed : initial.WellFormed where
  mapped := by simp [initial]
  published := by simp [initial]
  routed := by simp [initial, route]
  hookedOnce := by simp [initial]
  shared := by decide

theorem Publishes.patchesOf_eq {kernel : ExternalKernel} {ref : StructRef}
    {values : List Patch} (publishes : kernel.Publishes ref values) :
    kernel.patchesOf ref = values := by
  obtain ⟨struct, found, holds⟩ := publishes
  simp [patchesOf, found, CopyOnWriteSortedSet.getSnapshot, holds.contents]

/-! ## Publishing a new array -/

section Publish

variable {kernel : ExternalKernel} {ref : StructRef} {struct : MemberStruct}
  {set : CopyOnWriteSortedSet} {arrays : ArrayHeap Patch} {values : List Patch}

theorem publishes_self (found : kernel.structs[ref]? = some struct)
    (holds : CopyOnWriteSortedSet.Holds Patch.Precedes arrays set values) :
    (kernel.publish ref struct set arrays).Publishes ref values := by
  have below : ref < kernel.structs.length :=
    (List.getElem?_eq_some_iff.mp found).1
  exact ⟨⟨struct.mMember, set⟩, by simp [publish, below], holds⟩

/-- Publishing in one struct leaves every other struct's array alone. -/
theorem Publishes.publish_of_ne {other : StructRef} {otherValues : List Patch}
    (publishes : kernel.Publishes other otherValues) (different : other ≠ ref)
    (growth : ArrayHeap.Grows kernel.arrays arrays) :
    (kernel.publish ref struct set arrays).Publishes other otherValues := by
  obtain ⟨otherStruct, otherFound, otherHolds⟩ := publishes
  refine ⟨otherStruct, ?_, otherHolds.of_grows growth⟩
  simpa [publish, List.getElem?_set_ne (Ne.symm different)] using otherFound

theorem WellFormed.publish (wellFormed : kernel.WellFormed)
    (found : kernel.structs[ref]? = some struct)
    (growth : ArrayHeap.Grows kernel.arrays arrays)
    (holds : CopyOnWriteSortedSet.Holds Patch.Precedes arrays set values) :
    (kernel.publish ref struct set arrays).WellFormed where
  mapped := by
    intro executable mappedRef lookup
    obtain ⟨mappedStruct, mappedFound, same⟩ :=
      wellFormed.mapped executable mappedRef lookup
    by_cases isRef : mappedRef = ref
    · subst isRef
      rw [found] at mappedFound
      have below : mappedRef < kernel.structs.length :=
        (List.getElem?_eq_some_iff.mp found).1
      exact ⟨⟨struct.mMember, set⟩, by simp [ExternalKernel.publish, below],
        by rwa [Option.some.inj mappedFound]⟩
    · refine ⟨mappedStruct, ?_, same⟩
      simpa [ExternalKernel.publish, List.getElem?_set_ne (Ne.symm isRef)]
        using mappedFound
  published := by
    intro publishedRef below
    by_cases isRef : publishedRef = ref
    · subst isRef
      exact ⟨values, publishes_self found holds⟩
    · obtain ⟨otherValues, publishes⟩ :=
        wellFormed.published publishedRef (by simpa [ExternalKernel.publish] using below)
      exact ⟨otherValues, publishes.publish_of_ne isRef growth⟩
  routed := wellFormed.routed
  hookedOnce := wellFormed.hookedOnce
  shared := by
    obtain ⟨allocated, empty⟩ := wellFormed.shared
    exact ⟨lt_of_lt_of_le allocated growth.length_le,
      (growth.contents_eq allocated).trans empty⟩

/-- Only the snapshot of the struct's own member changes: two executables never
share a struct, because a struct remembers the member it was created for. -/
theorem WellFormed.snapshot_publish (wellFormed : kernel.WellFormed)
    {executable : Executable}
    (lookup : kernel.mMemberMapping.lookup executable = some ref)
    (found : kernel.structs[ref]? = some struct)
    (growth : ArrayHeap.Grows kernel.arrays arrays)
    (holds : CopyOnWriteSortedSet.Holds Patch.Precedes arrays set values)
    (other : Executable) :
    (kernel.publish ref struct set arrays).snapshot other =
      if other = executable then values else kernel.snapshot other := by
  unfold snapshot
  show (match kernel.mMemberMapping.lookup other with
    | none => []
    | some otherRef => (kernel.publish ref struct set arrays).patchesOf otherRef) = _
  by_cases same : other = executable
  · subst same
    rw [if_pos rfl, lookup]
    exact (publishes_self found holds).patchesOf_eq
  · rw [if_neg same]
    cases otherLookup : kernel.mMemberMapping.lookup other with
    | none => rfl
    | some otherRef =>
        obtain ⟨otherStruct, otherFound, otherMember⟩ :=
          wellFormed.mapped other otherRef otherLookup
        obtain ⟨ownStruct, ownFound, ownMember⟩ :=
          wellFormed.mapped executable ref lookup
        have different : otherRef ≠ ref := by
          rintro rfl
          rw [otherFound] at ownFound
          rw [Option.some.inj ownFound, ownMember] at otherMember
          exact same otherMember.symm
        obtain ⟨otherValues, publishes⟩ := wellFormed.published otherRef
          (List.getElem?_eq_some_iff.mp otherFound).1
        show (kernel.publish ref struct set arrays).patchesOf otherRef =
          kernel.patchesOf otherRef
        rw [(publishes.publish_of_ne different growth).patchesOf_eq,
          publishes.patchesOf_eq]

end Publish

/-! ## Hooking a member -/

/-- The kernel after `hookMember` succeeded and its struct was put into the
map. -/
def hooked (kernel : ExternalKernel) (member : Member) : ExternalKernel :=
  { kernel with
    structs := kernel.structs ++ [⟨member, ⟨emptyArray⟩⟩]
    hooks := (member.executable, kernel.structs.length) :: kernel.hooks
    mMemberMapping :=
      kernel.mMemberMapping.insert member.executable kernel.structs.length }

section Hooked

variable {kernel : ExternalKernel} {member : Member}

theorem lookup_hooked_self :
    (kernel.hooked member).mMemberMapping.lookup member.executable =
      some kernel.structs.length := by
  simp [hooked]

theorem lookup_hooked_of_ne {executable : Executable}
    (different : executable ≠ member.executable) :
    (kernel.hooked member).mMemberMapping.lookup executable =
      kernel.mMemberMapping.lookup executable := by
  simp [hooked, AList.lookup_insert_ne different]

theorem getElem?_hooked_of_lt {ref : StructRef} (below : ref < kernel.structs.length) :
    (kernel.hooked member).structs[ref]? = kernel.structs[ref]? := by
  simp [hooked, List.getElem?_append_left below]

theorem Publishes.hooked {ref : StructRef} {values : List Patch}
    (publishes : kernel.Publishes ref values) :
    (kernel.hooked member).Publishes ref values := by
  obtain ⟨struct, found, holds⟩ := publishes
  exact ⟨struct, by rwa [getElem?_hooked_of_lt (List.getElem?_eq_some_iff.mp found).1],
    holds⟩

theorem WellFormed.publishes_new (wellFormed : kernel.WellFormed) :
    (kernel.hooked member).Publishes kernel.structs.length [] :=
  ⟨⟨member, ⟨emptyArray⟩⟩, by simp [ExternalKernel.hooked],
    wellFormed.shared.1, wellFormed.shared.2, List.Pairwise.nil, List.nodup_nil⟩

theorem WellFormed.hooked (wellFormed : kernel.WellFormed)
    (unmapped : kernel.mMemberMapping.lookup member.executable = none) :
    (kernel.hooked member).WellFormed where
  mapped := by
    intro executable ref lookup
    by_cases same : executable = member.executable
    · subst same
      rw [lookup_hooked_self] at lookup
      exact ⟨⟨member, ⟨emptyArray⟩⟩,
        by simp [ExternalKernel.hooked, ← Option.some.inj lookup], rfl⟩
    · rw [lookup_hooked_of_ne same] at lookup
      obtain ⟨struct, found, owner⟩ := wellFormed.mapped executable ref lookup
      exact ⟨struct,
        by rwa [getElem?_hooked_of_lt (List.getElem?_eq_some_iff.mp found).1], owner⟩
  published := by
    intro ref below
    by_cases old : ref < kernel.structs.length
    · obtain ⟨values, publishes⟩ := wellFormed.published ref old
      exact ⟨values, publishes.hooked⟩
    · have isNew : ref = kernel.structs.length := by
        simp [ExternalKernel.hooked] at below
        omega
      exact ⟨[], isNew ▸ wellFormed.publishes_new⟩
  routed := by
    intro executable
    by_cases same : executable = member.executable
    · subst same
      rw [lookup_hooked_self]
      simp [route, ExternalKernel.hooked]
    · rw [lookup_hooked_of_ne same, ← wellFormed.routed]
      have unequal : (executable == member.executable) = false := by simpa using same
      simp [route, ExternalKernel.hooked, List.lookup_cons, unequal]
  hookedOnce := by
    have unrouted : kernel.hooks.lookup member.executable = none :=
      (wellFormed.routed member.executable).trans unmapped
    have fresh : member.executable ∉ kernel.hooks.map Prod.fst := by
      intro present
      obtain ⟨entry, inHooks, same⟩ := List.mem_map.mp present
      have different := List.lookup_eq_none_iff.mp unrouted entry inHooks
      simp [same] at different
    exact List.nodup_cons.mpr ⟨fresh, wellFormed.hookedOnce⟩
  shared := wellFormed.shared

/-- A fresh struct has an empty snapshot, as an unhooked member has. -/
theorem WellFormed.snapshot_hooked (wellFormed : kernel.WellFormed)
    (unmapped : kernel.mMemberMapping.lookup member.executable = none)
    (executable : Executable) :
    (kernel.hooked member).snapshot executable = kernel.snapshot executable := by
  unfold snapshot
  by_cases same : executable = member.executable
  · subst same
    rw [lookup_hooked_self, unmapped]
    exact wellFormed.publishes_new.patchesOf_eq
  · rw [lookup_hooked_of_ne same]
    cases lookup : kernel.mMemberMapping.lookup executable with
    | none => rfl
    | some ref =>
        obtain ⟨struct, found, -⟩ := wellFormed.mapped executable ref lookup
        obtain ⟨values, publishes⟩ := wellFormed.published ref
          (List.getElem?_eq_some_iff.mp found).1
        show (kernel.hooked member).patchesOf ref = kernel.patchesOf ref
        rw [publishes.hooked.patchesOf_eq, publishes.patchesOf_eq]

end Hooked

/-! ## The two operations -/

section Operations

variable {kernel : ExternalKernel} (wellFormed : kernel.WellFormed)

include wellFormed

theorem WellFormed.addToStruct_none {executable : Executable} {ref : StructRef}
    (lookup : kernel.mMemberMapping.lookup executable = some ref) (patch : Patch) :
    ∃ kernel', kernel.addToStruct ref patch none = (.ok (), kernel') ∧
      kernel'.WellFormed ∧ ArrayHeap.Grows kernel.arrays kernel'.arrays ∧
      kernel'.hooks = kernel.hooks ∧
      ∀ other, kernel'.snapshot other =
        if other = executable then
          CopyOnWriteSortedSet.added Patch.Precedes (kernel.snapshot executable) patch
        else kernel.snapshot other := by
  obtain ⟨struct, found, -⟩ := wellFormed.mapped executable ref lookup
  obtain ⟨values, publishes⟩ := wellFormed.published ref
    (List.getElem?_eq_some_iff.mp found).1
  have current : kernel.snapshot executable = values := by
    rw [snapshot, lookup]
    exact publishes.patchesOf_eq
  obtain ⟨ownStruct, ownFound, holds⟩ := publishes
  obtain rfl : struct = ownStruct := Option.some.inj (found.symm.trans ownFound)
  obtain ⟨set, arrays, result, growth, holdsAfter⟩ := holds.add_spec patch
  refine ⟨kernel.publish ref struct set arrays, ?_,
    wellFormed.publish found growth holdsAfter, growth, rfl, ?_⟩
  · simp only [addToStruct, found, result]
  · intro other
    rw [current]
    exact wellFormed.snapshot_publish lookup found growth holdsAfter other

theorem WellFormed.addToStruct_some {executable : Executable} {ref : StructRef}
    (lookup : kernel.mMemberMapping.lookup executable = some ref) (patch : Patch)
    (throwable : Throwable) :
    kernel.addToStruct ref patch (some throwable) = (.error throwable, kernel) := by
  obtain ⟨struct, found, -⟩ := wellFormed.mapped executable ref lookup
  simp [addToStruct, found, CopyOnWriteSortedSet.add]

end Operations

/-- Everything `addPatch` can do. It raises what `hookMember` raised and
leaves the kernel as it was, or it raises what the set raised after the member
was hooked, or it adds the patch to the member's snapshot. -/
inductive AddPatchResult (kernel : ExternalKernel) (member : Member) (patch : Patch)
    (faults : AddFaults) : Except Throwable Unit × ExternalKernel → Prop where
  | refused (throwable : Throwable) (raised : faults.hook = some throwable)
      (unmapped : kernel.mMemberMapping.lookup member.executable = none) :
      AddPatchResult kernel member patch faults (.error throwable, kernel)
  | interrupted (throwable : Throwable) (raised : faults.sort = some throwable)
      (kernel' : ExternalKernel) (wellFormed : kernel'.WellFormed)
      (growth : ArrayHeap.Grows kernel.arrays kernel'.arrays)
      (snapshot : ∀ other, kernel'.snapshot other = kernel.snapshot other) :
      AddPatchResult kernel member patch faults (.error throwable, kernel')
  | added (quiet : faults.sort = none)
      (kernel' : ExternalKernel) (wellFormed : kernel'.WellFormed)
      (growth : ArrayHeap.Grows kernel.arrays kernel'.arrays)
      (snapshot : ∀ other, kernel'.snapshot other =
        if other = member.executable then
          CopyOnWriteSortedSet.added Patch.Precedes
            (kernel.snapshot member.executable) patch
        else kernel.snapshot other) :
      AddPatchResult kernel member patch faults (.ok (), kernel')

/-- `addToStruct` on a mapped struct, reported against an earlier kernel with
the same arrays and snapshots. -/
private theorem WellFormed.addToStruct_cases (base : ExternalKernel)
    {kernel : ExternalKernel} (wellFormed : kernel.WellFormed) (arrays : base.arrays = kernel.arrays)
    (snapshots : ∀ other, kernel.snapshot other = base.snapshot other)
    {member : Member} {ref : StructRef}
    (lookup : kernel.mMemberMapping.lookup member.executable = some ref)
    (patch : Patch) (faults : AddFaults) :
    AddPatchResult base member patch faults
      (kernel.addToStruct ref patch faults.sort) := by
  cases sort : faults.sort with
  | some throwable =>
      rw [wellFormed.addToStruct_some lookup]
      exact .interrupted throwable sort kernel wellFormed
        (arrays ▸ ArrayHeap.Grows.refl _) snapshots
  | none =>
      obtain ⟨kernel', result, wellFormed', growth, -, snapshot'⟩ :=
        wellFormed.addToStruct_none lookup patch
      rw [result]
      refine .added sort kernel' wellFormed' (arrays ▸ growth) ?_
      intro other
      rw [snapshot' other, snapshots, snapshots]

theorem WellFormed.addPatch_cases {kernel : ExternalKernel}
    (wellFormed : kernel.WellFormed) (member : Member) (patch : Patch)
    (faults : AddFaults) :
    AddPatchResult kernel member patch faults (kernel.addPatch member patch faults) := by
  unfold addPatch
  cases lookup : kernel.mMemberMapping.lookup member.executable with
  | some ref =>
      exact wellFormed.addToStruct_cases kernel rfl (fun _ => rfl) lookup patch faults
  | none =>
      cases hook : faults.hook with
      | some throwable => exact .refused throwable hook lookup
      | none =>
          exact (wellFormed.hooked lookup).addToStruct_cases kernel rfl
            (wellFormed.snapshot_hooked lookup) lookup_hooked_self patch faults

/-- `removePatch` never raises; it takes the patch out of the member's
snapshot and changes nothing else. -/
theorem WellFormed.removePatch_spec {kernel : ExternalKernel}
    (wellFormed : kernel.WellFormed) (member : Member) (patch : Patch) :
    ∃ kernel', kernel.removePatch member patch = (.ok (), kernel') ∧
      kernel'.WellFormed ∧ ArrayHeap.Grows kernel.arrays kernel'.arrays ∧
      ∀ other, kernel'.snapshot other =
        if other = member.executable then (kernel.snapshot member.executable).erase patch
        else kernel.snapshot other := by
  unfold removePatch
  cases lookup : kernel.mMemberMapping.lookup member.executable with
  | none =>
      refine ⟨kernel, rfl, wellFormed, ArrayHeap.Grows.refl _, ?_⟩
      intro other
      split_ifs with same
      · subst same
        simp [snapshot, lookup]
      · rfl
  | some ref =>
      obtain ⟨struct, found, -⟩ := wellFormed.mapped member.executable ref lookup
      obtain ⟨values, publishes⟩ := wellFormed.published ref
        (List.getElem?_eq_some_iff.mp found).1
      have current : kernel.snapshot member.executable = values := by
        rw [snapshot, lookup]
        exact publishes.patchesOf_eq
      obtain ⟨ownStruct, ownFound, holds⟩ := publishes
      obtain rfl : struct = ownStruct := Option.some.inj (found.symm.trans ownFound)
      obtain ⟨set, arrays, result, growth, holdsAfter⟩ := holds.remove_spec patch
      refine ⟨kernel.publish ref struct set arrays, ?_,
        wellFormed.publish found growth holdsAfter, growth, ?_⟩
      · simp only [found, result, raised]
      · intro other
        rw [current]
        exact wellFormed.snapshot_publish lookup found growth holdsAfter other

end ExternalKernel

/-! ## Kernels that carry their invariant -/

/-- A kernel whose three layers agree. Every kernel reached from the initial
one is of this kind, so callers never re-establish the invariant. -/
def Kernel := { kernel : ExternalKernel // kernel.WellFormed }

namespace Kernel

def initial : Kernel := ⟨ExternalKernel.initial, ExternalKernel.initial_wellFormed⟩

def snapshot (kernel : Kernel) (executable : Executable) : List Patch :=
  kernel.val.snapshot executable

def arrays (kernel : Kernel) : ArrayHeap Patch := kernel.val.arrays

private theorem addPatch_wellFormed (kernel : Kernel) (member : Member) (patch : Patch)
    (faults : AddFaults) : (kernel.val.addPatch member patch faults).2.WellFormed := by
  have result := kernel.property.addPatch_cases member patch faults
  generalize kernel.val.addPatch member patch faults = outcome at result
  cases result with
  | refused => exact kernel.property
  | interrupted _ _ _ wellFormed => exact wellFormed
  | added _ _ wellFormed => exact wellFormed

def addPatch (kernel : Kernel) (member : Member) (patch : Patch) (faults : AddFaults) :
    Except Throwable Unit × Kernel :=
  ((kernel.val.addPatch member patch faults).1,
    ⟨(kernel.val.addPatch member patch faults).2,
      kernel.addPatch_wellFormed member patch faults⟩)

private theorem removePatch_wellFormed (kernel : Kernel) (member : Member)
    (patch : Patch) : (kernel.val.removePatch member patch).2.WellFormed := by
  obtain ⟨kernel', result, wellFormed, -, -⟩ := kernel.property.removePatch_spec member patch
  rwa [result]

def removePatch (kernel : Kernel) (member : Member) (patch : Patch) :
    Except Throwable Unit × Kernel :=
  ((kernel.val.removePatch member patch).1,
    ⟨(kernel.val.removePatch member patch).2,
      kernel.removePatch_wellFormed member patch⟩)

variable (kernel : Kernel) (member : Member) (patch : Patch) (faults : AddFaults)

theorem snapshot_initial (executable : Executable) : initial.snapshot executable = [] :=
  rfl

/-- A snapshot is the list some set of the kernel holds, or empty. -/
theorem snapshot_sorted_nodup (executable : Executable) :
    (kernel.snapshot executable).Pairwise Patch.Precedes ∧
      (kernel.snapshot executable).Nodup := by
  unfold snapshot ExternalKernel.snapshot
  cases lookup : kernel.val.mMemberMapping.lookup executable with
  | none => exact ⟨List.Pairwise.nil, List.nodup_nil⟩
  | some ref =>
      obtain ⟨struct, found, -⟩ := kernel.property.mapped executable ref lookup
      obtain ⟨values, publishes⟩ := kernel.property.published ref
        (List.getElem?_eq_some_iff.mp found).1
      show (kernel.val.patchesOf ref).Pairwise _ ∧ (kernel.val.patchesOf ref).Nodup
      rw [publishes.patchesOf_eq]
      obtain ⟨_, _, holds⟩ := publishes
      exact ⟨holds.sorted, holds.nodup⟩

theorem snapshot_addPatch_of_error {throwable : Throwable}
    (failed : (kernel.addPatch member patch faults).1 = .error throwable)
    (executable : Executable) :
    (kernel.addPatch member patch faults).2.snapshot executable =
      kernel.snapshot executable := by
  have result := kernel.property.addPatch_cases member patch faults
  change (kernel.val.addPatch member patch faults).1 = _ at failed
  show (kernel.val.addPatch member patch faults).2.snapshot executable = _
  generalize kernel.val.addPatch member patch faults = outcome at result failed
  cases result with
  | refused => rfl
  | interrupted _ _ _ _ _ unchanged => exact unchanged executable
  | added => cases failed

theorem snapshot_addPatch_of_ok
    (succeeded : (kernel.addPatch member patch faults).1 = .ok ())
    (executable : Executable) :
    (kernel.addPatch member patch faults).2.snapshot executable =
      if executable = member.executable then
        CopyOnWriteSortedSet.added Patch.Precedes
          (kernel.snapshot member.executable) patch
      else kernel.snapshot executable := by
  have result := kernel.property.addPatch_cases member patch faults
  change (kernel.val.addPatch member patch faults).1 = _ at succeeded
  show (kernel.val.addPatch member patch faults).2.snapshot executable = _
  generalize kernel.val.addPatch member patch faults = outcome at result succeeded
  cases result with
  | refused => cases succeeded
  | interrupted => cases succeeded
  | added _ _ _ _ snapshot => exact snapshot executable

theorem addPatch_quiet : (kernel.addPatch member patch .none).1 = .ok () := by
  have result := kernel.property.addPatch_cases member patch .none
  show (kernel.val.addPatch member patch .none).1 = _
  generalize kernel.val.addPatch member patch .none = outcome at result
  cases result with
  | refused _ raised => cases raised
  | interrupted _ raised => cases raised
  | added => rfl

theorem addPatch_grows :
    ArrayHeap.Grows kernel.arrays (kernel.addPatch member patch faults).2.arrays := by
  have result := kernel.property.addPatch_cases member patch faults
  show ArrayHeap.Grows kernel.val.arrays
    (kernel.val.addPatch member patch faults).2.arrays
  generalize kernel.val.addPatch member patch faults = outcome at result
  cases result with
  | refused => exact ArrayHeap.Grows.refl _
  | interrupted _ _ _ _ growth => exact growth
  | added _ _ _ growth => exact growth

theorem removePatch_ok : (kernel.removePatch member patch).1 = .ok () := by
  obtain ⟨kernel', result, -, -, -⟩ := kernel.property.removePatch_spec member patch
  exact congrArg Prod.fst result

theorem snapshot_removePatch (executable : Executable) :
    (kernel.removePatch member patch).2.snapshot executable =
      if executable = member.executable then
        (kernel.snapshot member.executable).erase patch
      else kernel.snapshot executable := by
  obtain ⟨kernel', result, -, -, snapshot⟩ :=
    kernel.property.removePatch_spec member patch
  show (kernel.val.removePatch member patch).2.snapshot executable = _
  rw [result]
  exact snapshot executable

theorem removePatch_grows :
    ArrayHeap.Grows kernel.arrays (kernel.removePatch member patch).2.arrays := by
  obtain ⟨kernel', result, -, growth, -⟩ := kernel.property.removePatch_spec member patch
  show ArrayHeap.Grows kernel.val.arrays (kernel.val.removePatch member patch).2.arrays
  rw [result]
  exact growth

end Kernel

/-! ## The two halves of each operation

`addPatch` and `removePatch` find the struct under the monitor of
`mMemberMapping` and change its set under the monitor of the set. Between the two
another thread can run. -/

namespace ExternalKernel

/-- The `synchronized (mMemberMapping)` block of `addPatch`. -/
def structFor (kernel : ExternalKernel) (member : Member) (failure : Option Throwable) :
    Except Throwable StructRef × ExternalKernel :=
  match kernel.mMemberMapping.lookup member.executable with
  | some struct => (.ok struct, kernel)
  | none =>
      match kernel.hookMember member failure with
      | (.error throwable, kernel) => (.error throwable, kernel)
      | (.ok struct, kernel) =>
          let mapping := kernel.mMemberMapping.insert member.executable struct
          (.ok struct, { kernel with mMemberMapping := mapping })

/-- `struct.getPatches().remove(patch)`. -/
def removeFromStruct (kernel : ExternalKernel) (ref : StructRef) (patch : Patch) :
    Except Throwable Unit × ExternalKernel :=
  match kernel.structs[ref]? with
  | none => (.error .nullPointer, kernel)
  | some struct =>
      match raised (struct.mPatches.remove kernel.arrays patch) with
      | .error throwable => (.error throwable, kernel)
      | .ok (_, set, arrays) => (.ok (), kernel.publish ref struct set arrays)

theorem addPatch_halves (kernel : ExternalKernel) (member : Member) (patch : Patch)
    (faults : AddFaults) :
    kernel.addPatch member patch faults =
      match (kernel.structFor member faults.hook).1 with
      | .error throwable => (.error throwable, (kernel.structFor member faults.hook).2)
      | .ok struct =>
          (kernel.structFor member faults.hook).2.addToStruct struct patch faults.sort := by
  unfold addPatch structFor
  cases kernel.mMemberMapping.lookup member.executable with
  | some struct => rfl
  | none =>
      cases faults.hook with
      | some throwable => rfl
      | none => rfl

theorem removePatch_halves (kernel : ExternalKernel) (member : Member) (patch : Patch) :
    kernel.removePatch member patch =
      match kernel.mMemberMapping.lookup member.executable with
      | none => (.ok (), kernel)
      | some ref => kernel.removeFromStruct ref patch :=
  rfl

theorem WellFormed.structFor {kernel : ExternalKernel} (wellFormed : kernel.WellFormed)
    (member : Member) (failure : Option Throwable) :
    (kernel.structFor member failure).2.WellFormed := by
  unfold ExternalKernel.structFor
  cases lookup : kernel.mMemberMapping.lookup member.executable with
  | some struct => exact wellFormed
  | none =>
      cases failure with
      | some throwable => exact wellFormed
      | none => exact wellFormed.hooked lookup

theorem WellFormed.addToStruct {kernel : ExternalKernel} (wellFormed : kernel.WellFormed)
    (ref : StructRef) (patch : Patch) (interruption : Option Throwable) :
    (kernel.addToStruct ref patch interruption).2.WellFormed := by
  unfold ExternalKernel.addToStruct
  cases found : kernel.structs[ref]? with
  | none => exact wellFormed
  | some struct =>
      obtain ⟨values, ownStruct, ownFound, holds⟩ := wellFormed.published ref
        (List.getElem?_eq_some_iff.mp found).1
      obtain rfl : struct = ownStruct := Option.some.inj (found.symm.trans ownFound)
      cases interruption with
      | some throwable =>
          simp only [CopyOnWriteSortedSet.add]
          exact wellFormed
      | none =>
          obtain ⟨set, arrays, result, growth, holdsAfter⟩ := holds.add_spec patch
          simp only [result]
          exact wellFormed.publish found growth holdsAfter

theorem WellFormed.removeFromStruct {kernel : ExternalKernel}
    (wellFormed : kernel.WellFormed) (ref : StructRef) (patch : Patch) :
    (kernel.removeFromStruct ref patch).2.WellFormed := by
  unfold ExternalKernel.removeFromStruct
  cases found : kernel.structs[ref]? with
  | none => exact wellFormed
  | some struct =>
      obtain ⟨values, ownStruct, ownFound, holds⟩ := wellFormed.published ref
        (List.getElem?_eq_some_iff.mp found).1
      obtain rfl : struct = ownStruct := Option.some.inj (found.symm.trans ownFound)
      obtain ⟨set, arrays, result, growth, holdsAfter⟩ := holds.remove_spec patch
      simp only [result, raised]
      exact wellFormed.publish found growth holdsAfter

end ExternalKernel

namespace Kernel

def structFor (kernel : Kernel) (member : Member) (failure : Option Throwable) :
    Except Throwable StructRef × Kernel :=
  ((kernel.val.structFor member failure).1,
    ⟨(kernel.val.structFor member failure).2, kernel.property.structFor member failure⟩)

def addToStruct (kernel : Kernel) (ref : StructRef) (patch : Patch)
    (interruption : Option Throwable) : Except Throwable Unit × Kernel :=
  ((kernel.val.addToStruct ref patch interruption).1,
    ⟨(kernel.val.addToStruct ref patch interruption).2,
      kernel.property.addToStruct ref patch interruption⟩)

def removeFromStruct (kernel : Kernel) (ref : StructRef) (patch : Patch) :
    Except Throwable Unit × Kernel :=
  ((kernel.val.removeFromStruct ref patch).1,
    ⟨(kernel.val.removeFromStruct ref patch).2,
      kernel.property.removeFromStruct ref patch⟩)

private theorem ext {A : Type} {left right : A × Kernel} (value : left.1 = right.1)
    (kernel : left.2.val = right.2.val) : left = right :=
  Prod.ext value (Subtype.ext kernel)

/-- With no other thread between them the halves make up `addPatch`. -/
theorem addPatch_eq (kernel : Kernel) (member : Member) (patch : Patch)
    (faults : AddFaults) :
    kernel.addPatch member patch faults =
      match (kernel.structFor member faults.hook).1 with
      | .error throwable => (.error throwable, (kernel.structFor member faults.hook).2)
      | .ok struct =>
          (kernel.structFor member faults.hook).2.addToStruct struct patch faults.sort := by
  have halves := kernel.val.addPatch_halves member patch faults
  have value := congrArg Prod.fst halves
  have left := congrArg Prod.snd halves
  cases outcome : (kernel.structFor member faults.hook).1 with
  | error throwable =>
      have found : (kernel.val.structFor member faults.hook).1 = .error throwable := outcome
      rw [found] at value left
      exact ext value left
  | ok struct =>
      have found : (kernel.val.structFor member faults.hook).1 = .ok struct := outcome
      rw [found] at value left
      exact ext value left

theorem removePatch_eq (kernel : Kernel) (member : Member) (patch : Patch) :
    kernel.removePatch member patch =
      match kernel.val.mMemberMapping.lookup member.executable with
      | none => (.ok (), kernel)
      | some ref => kernel.removeFromStruct ref patch := by
  have halves := kernel.val.removePatch_halves member patch
  have value := congrArg Prod.fst halves
  have left := congrArg Prod.snd halves
  cases lookup : kernel.val.mMemberMapping.lookup member.executable with
  | none =>
      rw [lookup] at value left
      exact ext value left
  | some ref =>
      rw [lookup] at value left
      exact ext value left

end Kernel

end AndroidPatch.Lang
