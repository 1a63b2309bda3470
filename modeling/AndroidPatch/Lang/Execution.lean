import AndroidPatch.Lang.ExternalKernel
import AndroidPatch.Lang.Dispatch

/-!
Contract: the execution of a member on a kernel.

Owns:
- the route from an executed member to the struct its closure captured, and the
  array that struct publishes when the call starts;
- the events of an execution as a function of the member's snapshot, for hooked
  and for unhooked members alike.

The world is a parameter that shows a kernel. Code that runs during the call
may change this kernel in any way that only allocates arrays.
-/

namespace AndroidPatch.Lang

open AndroidPatch.Library

variable {W : Type}

/-- The struct that an execution of `executable` is dispatched on. -/
def Kernel.target (kernel : Kernel) (executable : Executable) : Option MemberStruct :=
  (kernel.val.route executable).bind fun ref => kernel.val.structs[ref]?

/-- An unhooked member has no patches. -/
theorem Kernel.target_eq_none {kernel : Kernel} {executable : Executable}
    (unhooked : kernel.target executable = none) : kernel.snapshot executable = [] := by
  unfold Kernel.target at unhooked
  unfold Kernel.snapshot ExternalKernel.snapshot
  rw [kernel.property.routed] at unhooked
  cases lookup : kernel.val.mMemberMapping.lookup executable with
  | none => rfl
  | some ref =>
      obtain ⟨struct, found, -⟩ := kernel.property.mapped executable ref lookup
      rw [lookup, Option.bind_some, found] at unhooked
      exact absurd unhooked (Option.some_ne_none struct)

/-- The closure's struct is the mapped one: its set holds the snapshot. -/
theorem Kernel.target_eq_some {kernel : Kernel} {executable : Executable}
    {struct : MemberStruct} (hooked : kernel.target executable = some struct) :
    struct.mMember.executable = executable ∧
      CopyOnWriteSortedSet.Holds Patch.Precedes kernel.arrays struct.mPatches
        (kernel.snapshot executable) := by
  unfold Kernel.target at hooked
  unfold Kernel.snapshot ExternalKernel.snapshot
  rw [kernel.property.routed] at hooked
  obtain ⟨ref, lookup, found⟩ := Option.bind_eq_some_iff.mp hooked
  obtain ⟨mapped, isMapped, same⟩ := kernel.property.mapped executable ref lookup
  obtain ⟨values, publishes⟩ := kernel.property.published ref
    (List.getElem?_eq_some_iff.mp found).1
  have current := publishes.patchesOf_eq
  obtain ⟨published, isPublished, holds⟩ := publishes
  rw [found] at isMapped isPublished
  rw [lookup]
  show _ ∧ CopyOnWriteSortedSet.Holds _ _ _ (kernel.val.patchesOf ref)
  rw [current, Option.some.inj isMapped]
  exact ⟨same, Option.some.inj isMapped ▸ Option.some.inj isPublished ▸ holds⟩

namespace Callbacks

variable (callbacks : Callbacks W) (kernel : W → Kernel)

/-- The environment of a call on `struct`, whose array is the one published
when the call starts. -/
def on (struct : MemberStruct) : Environment W :=
  callbacks.reading (fun world => (kernel world).arrays) struct.mPatches.getSnapshot

/-- `patches.length` when the call starts. -/
def patchesLength (struct : MemberStruct) (world : W) : Nat :=
  ((kernel world).arrays.contents struct.mPatches.getSnapshot).length

/-- An execution of `member`. The bridge runs an unhooked member as it is. -/
def execute (member : Member) (object : Obj) (objects : Option ArrayHeap.Ref)
    (world : W) : Except Throwable Slot × W :=
  match (kernel world).target member.executable with
  | none =>
      let (result, world) := callbacks.invokeOriginalMember object objects world
      (result.map Slot.value, world)
  | some struct =>
      (callbacks.on kernel struct).replaceHookedMember
        (patchesLength kernel struct world) struct.mMember object objects world

/-- The events of an execution of `member`. -/
def executeEvents (member : Member) (object : Obj) (objects : Option ArrayHeap.Ref)
    (world : W) : List (Environment.Event W) :=
  match (kernel world).target member.executable with
  | none =>
      [.original object objects world
        (callbacks.invokeOriginalMember object objects world).1]
  | some struct =>
      (callbacks.on kernel struct).events (patchesLength kernel struct world)
        struct.mMember object objects world

/-- Everything that runs during a call leaves the published arrays alone. -/
structure Grows : Prop where
  before : ∀ patch registers world, ArrayHeap.Grows (kernel world).arrays
    (kernel (callbacks.beforeExecuted patch registers world).world).arrays
  after : ∀ patch registers world, ArrayHeap.Grows (kernel world).arrays
    (kernel (callbacks.afterExecuted patch registers world).world).arrays
  original : ∀ object objects world, ArrayHeap.Grows (kernel world).arrays
    (kernel (callbacks.invokeOriginalMember object objects world).2).arrays
  report : ∀ throwable world, ArrayHeap.Grows (kernel world).arrays
    (kernel (callbacks.wtf throwable world).2).arrays

variable {callbacks kernel}

theorem Grows.keeps (grows : callbacks.Grows kernel) (struct : MemberStruct)
    (start : ArrayHeap Patch) :
    (callbacks.on kernel struct).Keeps
      (fun world => ArrayHeap.Grows start (kernel world).arrays) where
  before := fun patch registers world kept => kept.trans (grows.before patch registers world)
  after := fun patch registers world kept => kept.trans (grows.after patch registers world)
  original := fun object objects world kept =>
    kept.trans (grows.original object objects world)
  report := fun throwable world kept => kept.trans (grows.report throwable world)

/-- An execution leaves the published arrays alone, however it ends. -/
theorem Grows.execute (grows : callbacks.Grows kernel) (member : Member) (object : Obj)
    (objects : Option ArrayHeap.Ref) (world : W) :
    ArrayHeap.Grows (kernel world).arrays
      (kernel (callbacks.execute kernel member object objects world).2).arrays := by
  unfold Callbacks.execute
  cases (kernel world).target member.executable with
  | none => exact grows.original object objects world
  | some struct =>
      exact (grows.keeps struct (kernel world).arrays).replaceHookedMember_kept _ _ object
        objects (ArrayHeap.Grows.refl _)

/-- The snapshot of a member is walked to its end, whatever happens to the set
meanwhile. -/
theorem Grows.holds (grows : callbacks.Grows kernel) (world : W) {member : Member}
    {struct : MemberStruct}
    (hooked : (kernel world).target member.executable = some struct) :
    (callbacks.on kernel struct).Holds ((kernel world).snapshot member.executable)
      (fun later => ArrayHeap.Grows (kernel world).arrays (kernel later).arrays) :=
  reading_holds (Kernel.target_eq_some hooked).2.allocated
    (Kernel.target_eq_some hooked).2.contents (grows.keeps struct _)

theorem patchesLength_eq (kernel : W → Kernel) (world : W) {member : Member} {struct : MemberStruct}
    (hooked : (kernel world).target member.executable = some struct) :
    patchesLength kernel struct world =
      ((kernel world).snapshot member.executable).length := by
  have contents := (Kernel.target_eq_some hooked).2.contents
  unfold patchesLength CopyOnWriteSortedSet.getSnapshot
  rw [contents, List.length_map]

/-- The member object that callbacks see in their registers. -/
def calledMember (kernel : Kernel) (member : Member) : Member :=
  match kernel.target member.executable with
  | none => member
  | some struct => struct.mMember

theorem calledMember_equals (kernel : Kernel) (member : Member) :
    (calledMember kernel member).Equals member := by
  unfold calledMember
  cases hooked : kernel.target member.executable with
  | none => rfl
  | some struct => exact (Kernel.target_eq_some hooked).1

/-- An execution of a member without patches goes straight to the original,
whether the member was ever hooked or not. -/
theorem executeEvents_of_snapshot_nil {member : Member} {world : W}
    (unpatched : (kernel world).snapshot member.executable = []) (object : Obj)
    (objects : Option ArrayHeap.Ref) :
    callbacks.executeEvents kernel member object objects world =
      [.original object objects world
        (callbacks.invokeOriginalMember object objects world).1] := by
  unfold executeEvents
  cases hooked : (kernel world).target member.executable with
  | none => rfl
  | some struct =>
      simp only [patchesLength_eq kernel world hooked, unpatched]
      rfl

/-- Such an execution ends as the original does. -/
theorem execute_of_snapshot_nil {member : Member} {world : W}
    (unpatched : (kernel world).snapshot member.executable = []) (object : Obj)
    (objects : Option ArrayHeap.Ref) :
    callbacks.execute kernel member object objects world =
      ((callbacks.invokeOriginalMember object objects world).1.map Slot.value,
        (callbacks.invokeOriginalMember object objects world).2) := by
  unfold execute
  cases hooked : (kernel world).target member.executable with
  | none => rfl
  | some struct =>
      simp only [patchesLength_eq kernel world hooked, unpatched]
      rfl

/-- **The events of an execution.**  With reporting that returns: the before
callbacks of the snapshot in its order, the original if the registers were then
clear, and the after callbacks in reverse. An empty snapshot leaves only the
original. -/
theorem Grows.executeEvents_eq (grows : callbacks.Grows kernel)
    (reports : callbacks.Reports)
    (member : Member) (object : Obj) (objects : Option ArrayHeap.Ref) (world : W) :
    let patches := (kernel world).snapshot member.executable
    let start :=
      (Registers.create (calledMember (kernel world) member) object objects, world)
    let early := callbacks.runBefores patches start
    let middle := callbacks.originalStep object objects early.1 early.2
    callbacks.executeEvents kernel member object objects world =
      callbacks.beforeEvents patches start ++ callbacks.originalEvents object objects early ++
        callbacks.afterEvents patches middle := by
  intro patches start early middle
  cases hooked : (kernel world).target member.executable with
  | none =>
      have unpatched : patches = [] := Kernel.target_eq_none hooked
      simp only [executeEvents, hooked, early, middle, unpatched]
      rfl
  | some struct =>
      have holds := grows.holds world hooked
      have isMember : calledMember (kernel world) member = struct.mMember := by
        simp [calledMember, hooked]
      simp only [executeEvents, hooked, patchesLength_eq kernel world hooked]
      by_cases unpatched : patches = []
      · have empty : (kernel world).snapshot member.executable = [] := unpatched
        simp only [early, middle, unpatched, empty]
        rfl
      · unfold Environment.events
        rw [holds.observe_replaceHookedMember reports unpatched struct.mMember object
          objects (ArrayHeap.Grows.refl _), ← isMember]
        rfl

end Callbacks

end AndroidPatch.Lang
