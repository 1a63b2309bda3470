import AndroidPatch.Lang.Dispatch

/-!
Contract: two systems of callbacks that run in step.

Owns:
- `Related`: callbacks over two worlds that end alike and keep a relation
  between the worlds;
- the loops over related callbacks keep the relation and the registers;
- a call whose error reporting returns, in closed form for any snapshot.

The relation may hold of some patches only; the callbacks of the others are
stepped through one at a time, and may move on to another relation.
-/

namespace AndroidPatch.Lang

open AndroidPatch.Library

variable {W V : Type}

/-- Two runs of a callback that made the same setter calls, ended the same way
and left related worlds. -/
structure RunsAlike (R : W → V → Prop) (left : CallbackRun W) (right : CallbackRun V) :
    Prop where
  calls : left.calls = right.calls
  finish : left.finish = right.finish
  world : R left.world right.world

/-- The same registers, and related worlds. -/
def InStep (R : W → V → Prop) (left : Registers × W) (right : Registers × V) : Prop :=
  left.1 = right.1 ∧ R left.2 right.2

namespace Callbacks

/-- The original member and the reporting of failures run in step. -/
structure Supports (R : W → V → Prop) (left : Callbacks W) (right : Callbacks V) :
    Prop where
  original : ∀ object objects world other, R world other →
    (left.invokeOriginalMember object objects world).1 =
        (right.invokeOriginalMember object objects other).1 ∧
      R (left.invokeOriginalMember object objects world).2
        (right.invokeOriginalMember object objects other).2
  report : ∀ throwable world other, R world other →
    (left.wtf throwable world).1 = (right.wtf throwable other).1 ∧
      R (left.wtf throwable world).2 (right.wtf throwable other).2

/-- So do the callbacks of the patches `On`. -/
structure Related (On : Patch → Prop) (R : W → V → Prop) (left : Callbacks W)
    (right : Callbacks V) : Prop extends Supports R left right where
  before : ∀ patch, On patch → ∀ registers world other, R world other →
    RunsAlike R (left.beforeExecuted patch registers world)
      (right.beforeExecuted patch registers other)
  after : ∀ patch, On patch → ∀ registers world other, R world other →
    RunsAlike R (left.afterExecuted patch registers world)
      (right.afterExecuted patch registers other)

variable {On : Patch → Prop} {R : W → V → Prop} {left : Callbacks W} {right : Callbacks V}

theorem Supports.report_inStep (supports : Supports R left right)
    (finish : Except Throwable Unit) (registers : Registers) {world : W} {other : V}
    (related : R world other) :
    InStep R (left.report finish registers world).2
      (right.report finish registers other).2 := by
  cases finish with
  | ok => exact ⟨rfl, related⟩
  | error throwable => exact ⟨rfl, (supports.report throwable world other related).2⟩

/-- One callback, reported in worlds that its runs leave related. -/
theorem Supports.callbackStep (supports : Supports R left right)
    (callback : Patch → Registers → W → CallbackRun W)
    (callback' : Patch → Registers → V → CallbackRun V) (patch : Patch)
    {state : Registers × W} {state' : Registers × V} (same : state.1 = state'.1)
    (alike : ∀ registers, RunsAlike R (callback patch registers state.2)
      (callback' patch registers state'.2)) :
    InStep R (left.callbackStep callback state patch)
      (right.callbackStep callback' state' patch) := by
  have ran := alike state'.1
  unfold Callbacks.callbackStep
  simp only [same, ran.finish, ran.calls]
  exact supports.report_inStep _ _ ran.world

theorem Supports.originalStep (supports : Supports R left right) (object : Obj)
    (objects : Option ArrayHeap.Ref) {state : Registers × W} {state' : Registers × V}
    (inStep : InStep R state state') :
    InStep R (left.originalStep object objects state.1 state.2)
      (right.originalStep object objects state'.1 state'.2) := by
  unfold Callbacks.originalStep
  rw [inStep.1]
  obtain ⟨result, related⟩ := supports.original object objects state.2 state'.2 inStep.2
  split_ifs
  · exact ⟨congrArg state'.1.settle result, related⟩
  · exact ⟨rfl, inStep.2⟩

theorem Related.runBefores (related : Related On R left right) {patches : List Patch}
    (all : ∀ patch ∈ patches, On patch) {state : Registers × W} {state' : Registers × V}
    (inStep : InStep R state state') :
    InStep R (left.runBefores patches state) (right.runBefores patches state') := by
  induction patches generalizing state state' with
  | nil => exact inStep
  | cons patch rest inductionHypothesis =>
      apply inductionHypothesis (fun other present => all other (List.mem_cons_of_mem _ present))
      apply related.toSupports.callbackStep _ _ patch inStep.1
      intro registers
      exact related.before patch (all patch List.mem_cons_self) registers _ _ inStep.2

theorem Related.runAfters (related : Related On R left right) {patches : List Patch}
    (all : ∀ patch ∈ patches, On patch) {state : Registers × W} {state' : Registers × V}
    (inStep : InStep R state state') :
    InStep R (left.runAfters patches state) (right.runAfters patches state') := by
  suffices folds : ∀ visited : List Patch, (∀ patch ∈ visited, On patch) →
      ∀ state state', InStep R state state' →
        InStep R (visited.foldl (left.callbackStep left.afterExecuted) state)
          (visited.foldl (right.callbackStep right.afterExecuted) state') from
    folds patches.reverse (fun patch present => all patch (List.mem_reverse.mp present)) _ _
      inStep
  intro visited
  induction visited with
  | nil => exact fun _ _ _ together => together
  | cons patch rest inductionHypothesis =>
      intro allVisited state state' together
      apply inductionHypothesis
        (fun other present => allVisited other (List.mem_cons_of_mem _ present))
      apply related.toSupports.callbackStep _ _ patch together.1
      intro registers
      exact related.after patch (allVisited patch List.mem_cons_self) registers _ _ together.2

/-! ## Whole calls -/

/-- A call in closed form: before callbacks, the original member unless the call
is decided, and after callbacks in reverse. -/
def dispatch (callbacks : Callbacks W) (patches : List Patch) (object : Obj)
    (objects : Option ArrayHeap.Ref) (state : Registers × W) : Registers × W :=
  let early := callbacks.runBefores patches state
  callbacks.runAfters patches (callbacks.originalStep object objects early.1 early.2)

/-- **A call whose reporting returns**, for empty snapshots, too. -/
theorem replaceHookedMember_eq_dispatch (callbacks : Callbacks W)
    (reports : callbacks.Reports) (patches : List Patch) (func : Member) (object : Obj)
    (objects : Option ArrayHeap.Ref) (world : W) :
    (callbacks.over patches).replaceHookedMember patches.length func object objects world =
      (Environment.conclude (callbacks.dispatch patches object objects
          (Registers.create func object objects, world)).1,
        (callbacks.dispatch patches object objects
          (Registers.create func object objects, world)).2) := by
  cases patches with
  | nil =>
      have clear : (Registers.create func object objects).Clear := ⟨rfl, rfl⟩
      have ran : callbacks.dispatch [] object objects
          (Registers.create func object objects, world) =
            ((Registers.create func object objects).settle
                (callbacks.invokeOriginalMember object objects world).1,
              (callbacks.invokeOriginalMember object objects world).2) := by
        show callbacks.originalStep object objects
          (Registers.create func object objects) world = _
        unfold originalStep
        rw [if_pos clear]
      rw [ran]
      show ((callbacks.invokeOriginalMember object objects world).1.map Slot.value,
        (callbacks.invokeOriginalMember object objects world).2) = _
      cases (callbacks.invokeOriginalMember object objects world).1 with
      | ok value => rfl
      | error throwable => rfl
  | cons patch rest =>
      exact (callbacks.over_holds (patch :: rest)).replaceHookedMember_eq reports
        (List.cons_ne_nil _ _) func object objects trivial

/-- A call around one of its patches. -/
theorem dispatch_append_cons (callbacks : Callbacks W) (early late : List Patch)
    (patch : Patch) (object : Obj) (objects : Option ArrayHeap.Ref) (state : Registers × W) :
    callbacks.dispatch (early ++ patch :: late) object objects state =
      callbacks.runAfters early (callbacks.callbackStep callbacks.afterExecuted
        (callbacks.dispatch late object objects
          (callbacks.callbackStep callbacks.beforeExecuted (callbacks.runBefores early state)
            patch)) patch) := by
  simp only [dispatch, runBefores, runAfters, List.foldl_append, List.foldl_cons,
    List.reverse_append, List.reverse_cons, List.foldl_nil]

theorem Related.dispatch (related : Related On R left right) {patches : List Patch}
    (all : ∀ patch ∈ patches, On patch) (object : Obj) (objects : Option ArrayHeap.Ref)
    {state : Registers × W} {state' : Registers × V} (inStep : InStep R state state') :
    InStep R (left.dispatch patches object objects state)
      (right.dispatch patches object objects state') :=
  related.runAfters all
    (related.toSupports.originalStep object objects (related.runBefores all inStep))

/-- A call that starts in related worlds. -/
theorem Related.call (related : Related On R left right) {patches : List Patch}
    (all : ∀ patch ∈ patches, On patch) (func : Member) (object : Obj)
    (objects : Option ArrayHeap.Ref) {world : W} {other : V} (together : R world other) :
    InStep R
      (left.dispatch patches object objects (Registers.create func object objects, world))
      (right.dispatch patches object objects
        (Registers.create func object objects, other)) :=
  related.dispatch all object objects ⟨rfl, together⟩

/-! ## Invariants of the world -/

/-- Every callback keeps what holds of the world. -/
structure Keeps (Inv : W → Prop) (callbacks : Callbacks W) : Prop where
  original : ∀ object objects world, Inv world →
    Inv (callbacks.invokeOriginalMember object objects world).2
  report : ∀ throwable world, Inv world → Inv (callbacks.wtf throwable world).2
  before : ∀ patch registers world, Inv world →
    Inv (callbacks.beforeExecuted patch registers world).world
  after : ∀ patch registers world, Inv world →
    Inv (callbacks.afterExecuted patch registers world).world

/-- Such callbacks run in step with themselves. -/
theorem Keeps.related {Inv : W → Prop} {callbacks : Callbacks W} (keeps : Keeps Inv callbacks) :
    Related (fun _ => True) (fun world other => other = world ∧ Inv world) callbacks
      callbacks where
  original := by
    rintro object objects world other ⟨rfl, holds⟩
    exact ⟨rfl, rfl, keeps.original object objects other holds⟩
  report := by
    rintro throwable world other ⟨rfl, holds⟩
    exact ⟨rfl, rfl, keeps.report throwable other holds⟩
  before := by
    rintro patch _ registers world other ⟨rfl, holds⟩
    exact ⟨rfl, rfl, rfl, keeps.before patch registers other holds⟩
  after := by
    rintro patch _ registers world other ⟨rfl, holds⟩
    exact ⟨rfl, rfl, rfl, keeps.after patch registers other holds⟩

theorem Keeps.dispatch {Inv : W → Prop} {callbacks : Callbacks W} (keeps : Keeps Inv callbacks)
    (patches : List Patch) (object : Obj) (objects : Option ArrayHeap.Ref)
    {state : Registers × W} (holds : Inv state.2) :
    Inv (callbacks.dispatch patches object objects state).2 :=
  (keeps.related.dispatch (fun _ _ => trivial) object objects ⟨rfl, rfl, holds⟩).2.2

end Callbacks

end AndroidPatch.Lang
