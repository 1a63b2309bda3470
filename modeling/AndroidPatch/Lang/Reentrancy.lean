import AndroidPatch.Lang.Patchwork
import AndroidPatch.Lang.Execution

/-!
Contract: hooked calls whose callbacks use the framework themselves.

Owns:
- `Script`, the behaviours of application and plugin code: register and array
  writes, `patch` and `recover` on any member, and nested executions with
  callbacks of their own, to any depth;
- the proof that no script changes a published array;
- the order in which one execution runs its callbacks and its original.

A call that another thread makes meanwhile is a call of the script during which
it happens. A script may depend on the whole world.
-/

namespace AndroidPatch.Lang

open AndroidPatch.Library

/-- The registry with its kernel, and the arrays of arguments. An element of
such an array is null or the identity of an object. -/
structure World where
  patchwork : Patchwork
  objects : ArrayHeap Nat

def World.kernel (world : World) : Kernel := world.patchwork.kernel

/-- Terminating code that runs while a hooked call is dispatched: a callback, an
original member or the reporting of a failure. `register` stands for a setter
call on the registers of the callback. -/
inductive Script where
  | finish (result : Except Throwable Obj)
  | inspect (next : World → Script)
  | register (call : RegisterCall) (next : Script)
  | newArray (length : Int) (next : Except ArrayFault ArrayHeap.Ref → Script)
  | store (array : ArrayHeap.Ref) (index : Int) (element : Option Nat)
      (next : Except ArrayFault Unit → Script)
  | patchwork (call : Patchwork.Call) (next : Patchwork.Answer → Script)
  | execute (member : Member) (object : Obj) (objects : Option ArrayHeap.Ref)
      (before after : Patch → Registers → Script)
      (original : Obj → Option ArrayHeap.Ref → Script)
      (report : Throwable → Script) (next : Except Throwable Slot → Script)

/-- How a script ended, with its setter calls in order. -/
structure ScriptRun where
  result : Except Throwable Obj
  calls : List RegisterCall
  world : World

namespace Script

def asCallback (run : ScriptRun) : CallbackRun World :=
  ⟨run.calls, run.result.map fun _ => (), run.world⟩

/-- The callbacks of an execution, given by what running their code does. -/
def callbacksOf (before after : Patch → Registers → World → ScriptRun)
    (original : Obj → Option ArrayHeap.Ref → World → ScriptRun)
    (report : Throwable → World → ScriptRun) : Callbacks World where
  beforeExecuted := fun patch registers world => asCallback (before patch registers world)
  afterExecuted := fun patch registers world => asCallback (after patch registers world)
  invokeOriginalMember := fun object objects world =>
    ((original object objects world).result, (original object objects world).world)
  wtf := fun throwable world =>
    ((report throwable world).result.map fun _ => (), (report throwable world).world)

def run : Script → World → ScriptRun
  | finish result, world => ⟨result, [], world⟩
  | inspect next, world => (next world).run world
  | register call next, world =>
      let later := next.run world
      { later with calls := call :: later.calls }
  | newArray length next, world =>
      match world.objects.newArray length with
      | .error fault => (next (.error fault)).run world
      | .ok (array, objects) => (next (.ok array)).run { world with objects := objects }
  | store array index element next, world =>
      match world.objects.store array index element with
      | .error fault => (next (.error fault)).run world
      | .ok objects => (next (.ok ())).run { world with objects := objects }
  | patchwork call next, world =>
      let (answer, state) := world.patchwork.step call
      (next answer).run { world with patchwork := state }
  | execute member object objects before after original report next, world =>
      let callbacks := callbacksOf (fun patch registers => (before patch registers).run)
        (fun patch registers => (after patch registers).run)
        (fun object objects => (original object objects).run)
        (fun throwable => (report throwable).run)
      let (result, world) := callbacks.execute World.kernel member object objects world
      (next result).run world

/-- The callbacks of an execution, given by scripts. -/
def callbacks (before after : Patch → Registers → Script)
    (original : Obj → Option ArrayHeap.Ref → Script) (report : Throwable → Script) :
    Callbacks World :=
  callbacksOf (fun patch registers => (before patch registers).run)
    (fun patch registers => (after patch registers).run)
    (fun object objects => (original object objects).run)
    (fun throwable => (report throwable).run)

/-! ## Published arrays survive -/

/-- Running from any world leaves the published arrays alone. -/
def Harmless (code : World → ScriptRun) : Prop :=
  ∀ world, ArrayHeap.Grows world.kernel.arrays (code world).world.kernel.arrays

theorem callbacksOf_grows {before after : Patch → Registers → World → ScriptRun}
    {original : Obj → Option ArrayHeap.Ref → World → ScriptRun}
    {report : Throwable → World → ScriptRun}
    (befores : ∀ patch registers, Harmless (before patch registers))
    (afters : ∀ patch registers, Harmless (after patch registers))
    (originals : ∀ object objects, Harmless (original object objects))
    (reports : ∀ throwable, Harmless (report throwable)) :
    (callbacksOf before after original report).Grows World.kernel where
  before := fun patch registers world => befores patch registers world
  after := fun patch registers world => afters patch registers world
  original := fun object objects world => originals object objects world
  report := fun throwable world => reports throwable world

/-- **No script changes a published array**, whatever it patches, recovers and
executes. -/
theorem run_harmless (script : Script) : Harmless script.run := by
  induction script with
  | finish result => exact fun world => ArrayHeap.Grows.refl _
  | inspect next inductionHypothesis => exact fun world => inductionHypothesis world world
  | register call next inductionHypothesis => exact inductionHypothesis
  | newArray length next inductionHypothesis =>
      intro world
      unfold run
      cases world.objects.newArray length with
      | error fault => exact inductionHypothesis (.error fault) world
      | ok allocation => exact inductionHypothesis (.ok allocation.1) ⟨_, allocation.2⟩
  | store array index element next inductionHypothesis =>
      intro world
      unfold run
      cases world.objects.store array index element with
      | error fault => exact inductionHypothesis (.error fault) world
      | ok objects => exact inductionHypothesis (.ok ()) ⟨world.patchwork, objects⟩
  | patchwork call next inductionHypothesis =>
      intro world
      exact (world.patchwork.step_grows call).trans (inductionHypothesis _ ⟨_, _⟩)
  | execute member object objects before after original report next befores afters
      originals reports inductionHypothesis =>
      intro world
      have execution := (callbacksOf_grows befores afters originals reports).execute member
        object objects world
      exact execution.trans (inductionHypothesis _ _)

theorem callbacks_grows (before after : Patch → Registers → Script)
    (original : Obj → Option ArrayHeap.Ref → Script) (report : Throwable → Script) :
    (callbacks before after original report).Grows World.kernel :=
  callbacksOf_grows (fun patch registers => (before patch registers).run_harmless)
    (fun patch registers => (after patch registers).run_harmless)
    (fun object objects => (original object objects).run_harmless)
    (fun throwable => (report throwable).run_harmless)

end Script

/-! ## The order of one execution -/

namespace Environment.Event

variable {W : Type}

/-- The patch whose `beforeExecuted` an event is. -/
def beforeOf : Event W → Option Patch
  | .before patch _ _ => some patch
  | _ => none

/-- The patch whose `afterExecuted` an event is. -/
def afterOf : Event W → Option Patch
  | .after patch _ _ => some patch
  | _ => none

/-- What the original member was entered with: receiver, argument array, and
the world that holds the array. -/
def originalOf : Event W → Option (Obj × Option ArrayHeap.Ref × W)
  | .original object objects world _ => some (object, objects, world)
  | _ => none

/-- Before callbacks, the original, after callbacks. -/
def phase : Event W → Nat
  | .before _ _ _ => 0
  | .original _ _ _ _ => 1
  | .after _ _ _ => 2

end Environment.Event

open Environment (Event)

variable {W : Type}

/-- **A snapshot is run in order**: every patch once before, in snapshot order;
then the original, exactly if `early`, the registers and the world after the
last before callback, hold no result yet; then every patch once after, in
reverse. -/
structure RunsInOrder (patches : List Patch) (object : Obj)
    (objects : Option ArrayHeap.Ref) (early : Registers × W) (events : List (Event W)) :
    Prop where
  once : patches.Nodup
  phases : (events.map Event.phase).Pairwise (· ≤ ·)
  befores : events.filterMap Event.beforeOf = patches
  originals : events.filterMap Event.originalOf =
    if early.1.returned = .NULL ∧ early.1.thrown = none then [(object, objects, early.2)]
    else []
  afters : events.filterMap Event.afterOf = patches.reverse
  paired : ∀ patch,
    patch ∈ events.filterMap Event.beforeOf ↔ patch ∈ events.filterMap Event.afterOf

/-- The before callbacks among the events of three phases in a row. -/
theorem Callbacks.filterMap_beforeOf (callbacks : Callbacks W) (patches : List Patch)
    (object : Obj) (objects : Option ArrayHeap.Ref) (start early middle : Registers × W) :
    (callbacks.beforeEvents patches start ++ callbacks.originalEvents object objects early ++
      callbacks.afterEvents patches middle).filterMap Event.beforeOf = patches := by
  unfold beforeEvents afterEvents originalEvents
  rw [List.filterMap_append, List.filterMap_append,
    callbackEvents_filterMap _ _ _ _ some (fun _ _ _ => rfl),
    callbackEvents_filterMap _ _ _ _ (fun _ => none) (fun _ _ _ => rfl)]
  split_ifs <;> simp [Event.beforeOf]

theorem Callbacks.filterMap_afterOf (callbacks : Callbacks W) (patches : List Patch)
    (object : Obj) (objects : Option ArrayHeap.Ref) (start early middle : Registers × W) :
    (callbacks.beforeEvents patches start ++ callbacks.originalEvents object objects early ++
      callbacks.afterEvents patches middle).filterMap Event.afterOf = patches.reverse := by
  unfold beforeEvents afterEvents originalEvents
  rw [List.filterMap_append, List.filterMap_append,
    callbackEvents_filterMap _ _ _ _ (fun _ => none) (fun _ _ _ => rfl),
    callbackEvents_filterMap _ _ _ _ some (fun _ _ _ => rfl)]
  split_ifs <;> simp [Event.afterOf]

/-- Three phases in a row, each of one kind. -/
theorem Callbacks.runsInOrder (callbacks : Callbacks W) {patches : List Patch}
    (nodup : patches.Nodup) (object : Obj) (objects : Option ArrayHeap.Ref)
    (start early middle : Registers × W) :
    RunsInOrder patches object objects early
      (callbacks.beforeEvents patches start ++ callbacks.originalEvents object objects early ++
        callbacks.afterEvents patches middle) := by
  have befores := callbacks.filterMap_beforeOf patches object objects start early middle
  have afters := callbacks.filterMap_afterOf patches object objects start early middle
  set events := callbacks.beforeEvents patches start ++
    callbacks.originalEvents object objects early ++ callbacks.afterEvents patches middle
    with isEvents
  unfold beforeEvents afterEvents originalEvents at isEvents
  refine ⟨nodup, ?_, befores, ?_, afters, fun patch => ?_⟩
  · rw [isEvents, List.map_append, List.map_append,
      callbackEvents_map _ _ _ _ (fun _ => 0) (fun _ _ _ => rfl),
      callbackEvents_map _ _ _ _ (fun _ => 2) (fun _ _ _ => rfl)]
    split_ifs <;> simp [List.pairwise_append, Event.phase]
  · rw [isEvents, List.filterMap_append, List.filterMap_append,
      callbackEvents_filterMap _ _ _ _ (fun _ => none) (fun _ _ _ => rfl),
      callbackEvents_filterMap _ _ _ _ (fun _ => none) (fun _ _ _ => rfl)]
    split_ifs <;> simp_all [Event.originalOf, Registers.Clear]
  · rw [befores, afters, List.mem_reverse]

/-- **Every execution runs the snapshot taken at its start, in order**, whatever
its callbacks, its original and its reporting do to registers, arguments and
registry, and whatever they execute. -/
theorem Script.execute_runsInOrder (before after : Patch → Registers → Script)
    (original : Obj → Option ArrayHeap.Ref → Script) (report : Throwable → Script)
    (returns : ∀ throwable world, ((report throwable).run world).result.isOk)
    (member : Member) (object : Obj) (objects : Option ArrayHeap.Ref) (world : World) :
    let patches := world.patchwork.snapshot member.executable
    let callbacks := callbacks before after original report
    let start :=
      (Registers.create (Callbacks.calledMember world.kernel member) object objects, world)
    RunsInOrder patches object objects (callbacks.runBefores patches start)
      (callbacks.executeEvents World.kernel member object objects world) := by
  intro patches callbacks start
  have reports : callbacks.Reports := by
    intro throwable world
    have ok := returns throwable world
    show ((report throwable).run world).result.map (fun _ => ()) = .ok ()
    cases ended : ((report throwable).run world).result with
    | ok value => rfl
    | error escaped =>
        rw [ended] at ok
        cases ok
  rw [(callbacks_grows before after original report).executeEvents_eq reports]
  exact callbacks.runsInOrder (world.kernel.snapshot_sorted_nodup _).2 object objects _ _ _

/-- Two patches on one member, with the ids 1 and 2. -/
def World.twoPatched : World where
  patchwork := Patchwork.after
    [.patch (some .objectToString) (some (.sample 1)) .none,
      .patch (some .objectToString) (some (.sample 2)) .none]
  objects := ⟨[]⟩

/-- Every before callback recovers the second patch, whose callbacks still
run. -/
theorem Script.recoverDuringCall_runs :
    let recovering : Patch → Registers → Script := fun _ _ =>
      .patchwork (.recover 2) fun _ => .finish (.ok .null)
    let callbacks := callbacks recovering (fun _ _ => .finish (.ok .null))
      (fun _ _ => .finish (.ok .null)) (fun _ => .finish (.ok .null))
    let events := callbacks.executeEvents World.kernel .objectToString .null none
      World.twoPatched
    events.filterMap Event.beforeOf = [.sample 1, .sample 2] ∧
      events.filterMap Event.afterOf = [.sample 2, .sample 1] :=
  let runs := execute_runsInOrder _ _ _ _ (fun _ _ => rfl) .objectToString .null none
    World.twoPatched
  ⟨runs.befores, runs.afters⟩

end AndroidPatch.Lang
