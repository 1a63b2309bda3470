import AndroidPatch.Library.Run
import AndroidPatch.Lang.Execution

/-!
Contract: which patches an execution runs, after any calls on the kernel.

Owns:
- runs of `addPatch` and `removePatch`, failing calls included;
- `Active`, the abstract meaning of such a run: the most recent completed call
  on a member and a patch was an `addPatch`;
- the simulation of that meaning by snapshots, closures and arrays, and its
  exact condition: error reporting must return.

Members are compared by `equals`, patches by identity. Code that runs during an
execution may itself make any calls on the kernel.
-/

namespace AndroidPatch.Lang

open AndroidPatch.Library

/-- One call on the kernel, with what goes wrong during it. -/
inductive KernelCall where
  | addPatch (member : Member) (patch : Patch) (faults : AddFaults)
  | removePatch (member : Member) (patch : Patch)
deriving DecidableEq, Repr

namespace KernelCall

def member : KernelCall → Member
  | addPatch member _ _ => member
  | removePatch member _ => member

def patch : KernelCall → Patch
  | addPatch _ patch _ => patch
  | removePatch _ patch => patch

/-- The call is about this member and this patch. -/
def Concerns (executable : Executable) (patch : Patch) (call : KernelCall) : Prop :=
  call.member.executable = executable ∧ call.patch = patch

instance (executable : Executable) (patch : Patch) :
    DecidablePred (Concerns executable patch) := fun call =>
  inferInstanceAs (Decidable (call.member.executable = executable ∧ call.patch = patch))

def IsAdd : KernelCall → Prop
  | addPatch _ _ _ => True
  | removePatch _ _ => False

end KernelCall

namespace Kernel

def step (kernel : Kernel) : KernelCall → Except Throwable Unit × Kernel
  | .addPatch member patch faults => kernel.addPatch member patch faults
  | .removePatch member patch => kernel.removePatch member patch

/-- The kernel after a sequence of calls. -/
def after (calls : List KernelCall) : Kernel :=
  run step initial calls

/-- The calls of a sequence with the way each of them ended. -/
def past (calls : List KernelCall) : List (KernelCall × Except Throwable Unit) :=
  history step initial calls

end Kernel

/-- The most recent call on this member and this patch that completed. -/
def lastCompleted (past : List (KernelCall × Except Throwable Unit))
    (executable : Executable) (patch : Patch) : Option KernelCall :=
  (past.filter fun entry => entry.1.Concerns executable patch ∧ entry.2.isOk).getLast?.map
    Prod.fst

/-- The most recent completed call on the member and the patch was an
`addPatch`. -/
def Active (past : List (KernelCall × Except Throwable Unit)) (executable : Executable)
    (patch : Patch) : Prop :=
  ∃ call, lastCompleted past executable patch = some call ∧ call.IsAdd

/-! ## Snapshots simulate the meaning of a run -/

theorem lastCompleted_append (past : List (KernelCall × Except Throwable Unit))
    (call : KernelCall) (result : Except Throwable Unit) (executable : Executable)
    (patch : Patch) :
    lastCompleted (past ++ [(call, result)]) executable patch =
      if call.Concerns executable patch ∧ result.isOk then some call
      else lastCompleted past executable patch := by
  unfold lastCompleted
  rw [List.filter_append]
  split_ifs with counts
  · rw [List.filter_cons_of_pos (by simpa using counts)]
    simp
  · rw [List.filter_cons_of_neg (by simpa using counts)]
    simp

theorem active_append_of_counts {past : List (KernelCall × Except Throwable Unit)}
    {call : KernelCall} {result : Except Throwable Unit} {executable : Executable}
    {patch : Patch} (concerns : call.Concerns executable patch) (ok : result.isOk) :
    Active (past ++ [(call, result)]) executable patch ↔ call.IsAdd := by
  unfold Active
  rw [lastCompleted_append, if_pos ⟨concerns, ok⟩]
  simp

theorem active_append_of_not {past : List (KernelCall × Except Throwable Unit)}
    {call : KernelCall} {result : Except Throwable Unit} {executable : Executable}
    {patch : Patch} (irrelevant : ¬ (call.Concerns executable patch ∧ result.isOk)) :
    Active (past ++ [(call, result)]) executable patch ↔ Active past executable patch := by
  unfold Active
  rw [lastCompleted_append, if_neg irrelevant]

/-- A completed call puts its patch into its member's snapshot, or takes it
out. -/
theorem Kernel.mem_snapshot_step_of_counts {kernel : Kernel} {call : KernelCall}
    {executable : Executable} {patch : Patch} (concerns : call.Concerns executable patch)
    (ok : (kernel.step call).1.isOk) :
    patch ∈ (kernel.step call).2.snapshot executable ↔ call.IsAdd := by
  obtain ⟨rfl, rfl⟩ := concerns
  cases call with
  | addPatch member patch faults =>
      cases result : (kernel.addPatch member patch faults).1 with
      | error throwable =>
          change (kernel.addPatch member patch faults).1.isOk at ok
          rw [result] at ok
          cases ok
      | ok =>
          have changed := kernel.snapshot_addPatch_of_ok member patch faults result
          simp [step, KernelCall.member, KernelCall.patch, KernelCall.IsAdd, changed,
            CopyOnWriteSortedSet.mem_added]
  | removePatch member patch =>
      have nodup := (kernel.snapshot_sorted_nodup member.executable).2
      simp [step, KernelCall.member, KernelCall.patch, KernelCall.IsAdd,
        kernel.snapshot_removePatch, nodup.mem_erase_iff]

/-- Every other call leaves it where it was. -/
theorem Kernel.mem_snapshot_step_of_not {kernel : Kernel} {call : KernelCall}
    {executable : Executable} {patch : Patch}
    (irrelevant : ¬ (call.Concerns executable patch ∧ (kernel.step call).1.isOk)) :
    patch ∈ (kernel.step call).2.snapshot executable ↔
      patch ∈ kernel.snapshot executable := by
  cases call with
  | addPatch member target faults =>
      show patch ∈ (kernel.addPatch member target faults).2.snapshot executable ↔ _
      cases result : (kernel.addPatch member target faults).1 with
      | error throwable =>
          rw [kernel.snapshot_addPatch_of_error member target faults result]
      | ok =>
          rw [kernel.snapshot_addPatch_of_ok member target faults result]
          split_ifs with same
          · have different : target ≠ patch := fun isPatch =>
              irrelevant ⟨⟨same.symm, isPatch⟩, by rw [step, result]; rfl⟩
            rw [CopyOnWriteSortedSet.mem_added, same]
            exact or_iff_right different.symm
          · rfl
  | removePatch member target =>
      show patch ∈ (kernel.removePatch member target).2.snapshot executable ↔ _
      rw [kernel.snapshot_removePatch]
      split_ifs with same
      · have different : target ≠ patch := fun isPatch =>
          irrelevant ⟨⟨same.symm, isPatch⟩, by rw [step, kernel.removePatch_ok]; rfl⟩
        rw [List.mem_erase_of_ne different.symm, same]
      · rfl

/-- **The snapshot of a member holds exactly the active patches.** -/
theorem Kernel.mem_snapshot_after (calls : List KernelCall) (executable : Executable)
    (patch : Patch) :
    patch ∈ (Kernel.after calls).snapshot executable ↔
      Active (Kernel.past calls) executable patch := by
  apply history_induction (fun past kernel =>
    patch ∈ Kernel.snapshot kernel executable ↔ Active past executable patch)
  · simp [Kernel.snapshot_initial, Active, lastCompleted]
  · intro past kernel call inductionHypothesis
    by_cases counts : call.Concerns executable patch ∧ (kernel.step call).1.isOk
    · rw [Kernel.mem_snapshot_step_of_counts counts.1 counts.2,
        active_append_of_counts counts.1 counts.2]
    · rw [Kernel.mem_snapshot_step_of_not counts, active_append_of_not counts]
      exact inductionHypothesis

/-! ## Executions -/

section Executions

variable {V : Type}

/-- What code outside the framework did: the calls it made on the kernel, in
order, and what it left of its own state. -/
structure Doing (V : Type) where
  kernelCalls : List KernelCall
  rest : V

def Doing.world (doing : Doing V) (kernel : Kernel) : Kernel × V :=
  (run Kernel.step kernel doing.kernelCalls, doing.rest)

/-- The patches and the original member of one execution. -/
structure Behaviour (V : Type) where
  beforeExecuted : Patch → Registers → Kernel × V →
    List RegisterCall × Except Throwable Unit × Doing V
  afterExecuted : Patch → Registers → Kernel × V →
    List RegisterCall × Except Throwable Unit × Doing V
  invokeOriginalMember : Obj → Option ArrayHeap.Ref → Kernel × V →
    Except Throwable Obj × Doing V

/-- A behaviour under the reporting of its kernel. -/
def Behaviour.callbacks (behaviour : Behaviour V)
    (wtf : Throwable → V → Except Throwable Unit × Doing V) : Callbacks (Kernel × V) where
  beforeExecuted := fun patch registers world =>
    let (calls, finish, doing) := behaviour.beforeExecuted patch registers world
    ⟨calls, finish, doing.world world.1⟩
  afterExecuted := fun patch registers world =>
    let (calls, finish, doing) := behaviour.afterExecuted patch registers world
    ⟨calls, finish, doing.world world.1⟩
  invokeOriginalMember := fun object objects world =>
    let (result, doing) := behaviour.invokeOriginalMember object objects world
    (result, doing.world world.1)
  wtf := fun throwable world =>
    let (reported, doing) := wtf throwable world.2
    (reported, doing.world world.1)

theorem Kernel.step_grows (kernel : Kernel) (call : KernelCall) :
    ArrayHeap.Grows kernel.arrays (kernel.step call).2.arrays := by
  cases call with
  | addPatch member patch faults => exact kernel.addPatch_grows member patch faults
  | removePatch member patch => exact kernel.removePatch_grows member patch

theorem Kernel.run_grows (kernel : Kernel) (calls : List KernelCall) :
    ArrayHeap.Grows kernel.arrays (run Kernel.step kernel calls).arrays :=
  run_induction (fun later => ArrayHeap.Grows kernel.arrays (Kernel.arrays later))
    (ArrayHeap.Grows.refl _) (fun later call kept => kept.trans (later.step_grows call)) calls

theorem Behaviour.grows (behaviour : Behaviour V)
    (wtf : Throwable → V → Except Throwable Unit × Doing V) :
    (behaviour.callbacks wtf).Grows Prod.fst where
  before := fun _ _ world => world.1.run_grows _
  after := fun _ _ world => world.1.run_grows _
  original := fun _ _ world => world.1.run_grows _
  report := fun _ world => world.1.run_grows _

/-- The patch whose callback an event is. -/
def Environment.Event.patch {W : Type} : Environment.Event W → Option Patch
  | .before patch _ _ => some patch
  | .original _ _ _ _ => none
  | .after patch _ _ => some patch

variable (wtf : Throwable → V → Except Throwable Unit × Doing V)

/-- An execution of `member` after `calls` runs a callback of `patch`. -/
def Runs (behaviour : Behaviour V) (calls : List KernelCall) (member : Member)
    (object : Obj) (objects : Option ArrayHeap.Ref) (rest : V) (patch : Patch) : Prop :=
  some patch ∈ ((behaviour.callbacks wtf).executeEvents Prod.fst member object objects
    (Kernel.after calls, rest)).map Environment.Event.patch

variable {wtf}

/-- With reporting that returns, an execution runs the patches of the snapshot
and no others. -/
theorem runs_iff_mem_snapshot
    (returns : ∀ throwable rest, (wtf throwable rest).1 = .ok ()) (behaviour : Behaviour V)
    (calls : List KernelCall) (member : Member) (object : Obj)
    (objects : Option ArrayHeap.Ref) (rest : V) (patch : Patch) :
    Runs wtf behaviour calls member object objects rest patch ↔
      patch ∈ (Kernel.after calls).snapshot member.executable := by
  have events := (behaviour.grows wtf).executeEvents_eq
    (fun throwable world => returns throwable world.2) member object objects
    (Kernel.after calls, rest)
  unfold Runs
  rw [events, List.map_append, List.map_append]
  unfold Callbacks.beforeEvents Callbacks.afterEvents
  rw [Callbacks.callbackEvents_map _ _ _ _ some (fun _ _ _ => rfl),
    Callbacks.callbackEvents_map _ _ _ _ some (fun _ _ _ => rfl)]
  unfold Callbacks.originalEvents
  split_ifs <;> simp [Environment.Event.patch]

/-- **The kernel runs the active patches.**  `exactly` is the simulation,
`unaffected` its frame, and `hookedOnce` says that no struct is created twice. -/
structure RunsActivePatches (wtf : Throwable → V → Except Throwable Unit × Doing V) :
    Prop where
  exactly : ∀ behaviour calls member object objects rest patch,
    Runs wtf behaviour calls member object objects rest patch ↔
      Active (Kernel.past calls) member.executable patch
  unaffected : ∀ behaviour calls call member object objects rest patch,
    ¬ call.Concerns member.executable patch →
      (Runs wtf behaviour (calls ++ [call]) member object objects rest patch ↔
        Runs wtf behaviour calls member object objects rest patch)
  hookedOnce : ∀ calls, ((Kernel.after calls).val.hooks.map Prod.fst).Nodup

theorem Kernel.mem_snapshot_after_append {calls : List KernelCall} {call : KernelCall}
    {executable : Executable} {patch : Patch}
    (irrelevant : ¬ call.Concerns executable patch) :
    patch ∈ (Kernel.after (calls ++ [call])).snapshot executable ↔
      patch ∈ (Kernel.after calls).snapshot executable := by
  unfold Kernel.after
  rw [run_append]
  exact Kernel.mem_snapshot_step_of_not (fun counts => irrelevant counts.1)

theorem runsActivePatches_of_returns
    (returns : ∀ throwable rest, (wtf throwable rest).1 = .ok ()) :
    RunsActivePatches wtf where
  exactly := by
    intro behaviour calls member object objects rest patch
    rw [runs_iff_mem_snapshot returns, Kernel.mem_snapshot_after]
  unaffected := by
    intro behaviour calls call member object objects rest patch irrelevant
    rw [runs_iff_mem_snapshot returns, runs_iff_mem_snapshot returns,
      Kernel.mem_snapshot_after_append irrelevant]
  hookedOnce := fun calls => (Kernel.after calls).property.hookedOnce

/-! ## A report that throws

Two patches on one member; the callback of the first throws and so does its
report. -/

def twoPatches : List KernelCall :=
  [.addPatch .objectToString (.sample 1) .none, .addPatch .objectToString (.sample 2) .none]

theorem twoPatches_snapshot :
    (Kernel.after twoPatches).snapshot Member.objectToString.executable =
      [.sample 1, .sample 2] := by
  rfl

theorem twoPatches_active :
    Active (Kernel.past twoPatches) Member.objectToString.executable (.sample 2) :=
  ⟨.addPatch .objectToString (.sample 2) .none, rfl, trivial⟩

/-- Every before callback throws. -/
def Behaviour.throwing (throwable : Throwable) (rest : V) : Behaviour V where
  beforeExecuted := fun _ _ _ => ([], .error throwable, ⟨[], rest⟩)
  afterExecuted := fun _ _ _ => ([], .ok (), ⟨[], rest⟩)
  invokeOriginalMember := fun _ _ _ => (.ok .null, ⟨[], rest⟩)

theorem throwing_skips {throwable escaped : Throwable} {rest : V}
    (escapes : (wtf throwable rest).1 = .error escaped) :
    ¬ Runs wtf (.throwing throwable rest) twoPatches .objectToString .null none rest
      (.sample 2) := by
  have events : ((Behaviour.throwing throwable rest).callbacks wtf).executeEvents Prod.fst
      .objectToString .null none (Kernel.after twoPatches, rest) =
        [.before (.sample 1) (Registers.create (Callbacks.calledMember
          (Kernel.after twoPatches) .objectToString) .null none) []] := by
    cases hooked : (Kernel.after twoPatches).target Member.objectToString.executable with
    | none =>
        have unpatched := Kernel.target_eq_none hooked
        rw [twoPatches_snapshot] at unpatched
        exact absurd unpatched (List.cons_ne_nil _ _)
    | some struct =>
        have holds := ((Behaviour.throwing throwable rest).grows wtf).holds
          (Kernel.after twoPatches, rest) hooked
        have length : Callbacks.patchesLength Prod.fst struct (Kernel.after twoPatches, rest) =
            1 + 1 := by
          rw [Callbacks.patchesLength_eq Prod.fst (Kernel.after twoPatches, rest) hooked,
            twoPatches_snapshot]
          rfl
        have nonempty :
            0 < ((Kernel.after twoPatches).snapshot Member.objectToString.executable).length := by
          rw [twoPatches_snapshot]
          decide
        have isMember : Callbacks.calledMember (Kernel.after twoPatches) .objectToString =
            struct.mMember := by
          simp [Callbacks.calledMember, hooked]
        simp only [Callbacks.executeEvents, hooked, length, isMember]
        exact Environment.events_escape _ 1 struct.mMember .null none _
          (holds.element _ (ArrayHeap.Grows.refl _) 0 nonempty) rfl escapes
  unfold Runs
  rw [events]
  simp [Environment.Event.patch, Patch.sample]

end Executions

end AndroidPatch.Lang
