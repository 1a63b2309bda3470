import AndroidPatch.Lang.Registers

/-!
Contract: `ExternalKernel.replaceHookedMember`, the dispatch of one hooked call.

Owns:
- the two callback loops with their shared index, the original-member step and
  the decision of the result;
- the observation of a call: which callbacks and originals it ran, in which
  order, with which registers;
- the loops as folds over the snapshot, when error reporting returns.

The world is a parameter. A callback is any function of its registers and the
world, so it may throw, patch and recover, execute hooked members and change
the argument array; it reports the setter calls it made.
-/

namespace AndroidPatch.Lang

open AndroidPatch.Library

variable {W : Type}

/-- One run of a callback: its setter calls in order, how it ended, and the
world it left. -/
structure CallbackRun (W : Type) where
  calls : List RegisterCall
  finish : Except Throwable Unit
  world : W

/-- What a call runs, apart from the array of its patches. -/
structure Callbacks (W : Type) where
  beforeExecuted : Patch → Registers → W → CallbackRun W
  afterExecuted : Patch → Registers → W → CallbackRun W
  invokeOriginalMember : Obj → Option ArrayHeap.Ref → W → Except Throwable Obj × W
  wtf : Throwable → W → Except Throwable Unit × W

/-- What `replaceHookedMember` calls out to. `element` is `patches[index]` on
the array that `getSnapshot` returned, read in the current world. -/
structure Environment (W : Type) extends Callbacks W where
  element : Nat → W → Except Throwable Patch

/-- Registers and world, with the throwable that is leaving the method, if
any. -/
abbrev Progress (W : Type) := Except Throwable Unit × Registers × W

/-! ## Callbacks and the original member -/

/-- `registers.returned = ...` or `registers.thrown = t`, assigned directly. -/
def Registers.settle (registers : Registers) : Except Throwable Obj → Registers
  | .ok result => { registers with returned := .value result }
  | .error throwable => { registers with thrown := some throwable }

namespace Callbacks

variable (callbacks : Callbacks W)

/-- `catch (Throwable t) { wtf(t); }` around one callback. -/
def report (finish : Except Throwable Unit) (registers : Registers) (world : W) :
    Progress W :=
  match finish with
  | .ok () => (.ok (), registers, world)
  | .error throwable =>
      let (reported, world) := callbacks.wtf throwable world
      (reported, registers, world)

/-- One callback whose failure, if any, was reported. -/
def callbackStep (callback : Patch → Registers → W → CallbackRun W)
    (state : Registers × W) (patch : Patch) : Registers × W :=
  let run := callback patch state.1 state.2
  (callbacks.report run.finish (state.1.performAll run.calls) run.world).2

/-- The original member, unless a callback has already decided the call. -/
def originalStep (object : Obj) (objects : Option ArrayHeap.Ref)
    (registers : Registers) (world : W) : Registers × W :=
  if registers.Clear then
    let (result, world) := callbacks.invokeOriginalMember object objects world
    (registers.settle result, world)
  else
    (registers, world)

def runBefores (patches : List Patch) (state : Registers × W) : Registers × W :=
  patches.foldl (callbacks.callbackStep callbacks.beforeExecuted) state

def runAfters (patches : List Patch) (state : Registers × W) : Registers × W :=
  patches.reverse.foldl (callbacks.callbackStep callbacks.afterExecuted) state

/-- `wtf` returns normally. -/
def Reports : Prop :=
  ∀ throwable world, (callbacks.wtf throwable world).1 = .ok ()

variable {callbacks}

theorem Reports.report_eq (reports : callbacks.Reports) (finish : Except Throwable Unit)
    (registers : Registers) (world : W) :
    callbacks.report finish registers world =
      (.ok (), (callbacks.report finish registers world).2) := by
  cases finish with
  | ok => rfl
  | error throwable =>
      unfold report
      rw [← reports throwable world]

end Callbacks

open Callbacks

namespace Environment

variable (env : Environment W)

/-- The body of either loop at position `index`. -/
def callbackAt (callback : Patch → Registers → W → CallbackRun W) (index : Nat)
    (registers : Registers) (world : W) : Progress W :=
  match env.element index world with
  | .error throwable => env.report (.error throwable) registers world
  | .ok patch =>
      let run := callback patch registers world
      env.report run.finish (registers.performAll run.calls) run.world

/-- The first loop from position `index` on; `remaining` more positions
follow. -/
def beforeLoop : Nat → Nat → Registers → W → Progress W
  | 0, index, registers, world =>
      env.callbackAt env.beforeExecuted index registers world
  | remaining + 1, index, registers, world =>
      match env.callbackAt env.beforeExecuted index registers world with
      | (.ok (), registers, world) => beforeLoop remaining (index + 1) registers world
      | (.error throwable, registers, world) => (.error throwable, registers, world)

/-- The second loop from position `index` down to zero. -/
def afterLoop : Nat → Registers → W → Progress W
  | 0, registers, world => env.callbackAt env.afterExecuted 0 registers world
  | index + 1, registers, world =>
      match env.callbackAt env.afterExecuted (index + 1) registers world with
      | (.ok (), registers, world) => afterLoop index registers world
      | (.error throwable, registers, world) => (.error throwable, registers, world)

/-- `if (thrown != null) throw thrown; return registers.returned;` -/
def conclude (registers : Registers) : Except Throwable Slot :=
  match registers.thrown with
  | some throwable => .error throwable
  | none => .ok registers.returned

/-- `replaceHookedMember` on a snapshot of length `patchesLength`. -/
def replaceHookedMember (patchesLength : Nat) (func : Member) (object : Obj)
    (objects : Option ArrayHeap.Ref) (world : W) : Except Throwable Slot × W :=
  match patchesLength with
  | 0 =>
      let (result, world) := env.invokeOriginalMember object objects world
      (result.map Slot.value, world)
  | last + 1 =>
      match env.beforeLoop last 0 (Registers.create func object objects) world with
      | (.error throwable, _, world) => (.error throwable, world)
      | (.ok (), registers, world) =>
          let (registers, world) := env.originalStep object objects registers world
          match env.afterLoop last registers world with
          | (.error throwable, _, world) => (.error throwable, world)
          | (.ok (), registers, world) => (conclude registers, world)

/-! ## Observing a call -/

/-- What a call did, in order. A callback is observed with the registers it was
entered with and its setter calls; the original with the world it was entered
in and how it ended. -/
inductive Event (W : Type) where
  | before (patch : Patch) (registers : Registers) (calls : List RegisterCall)
  | original (object : Obj) (objects : Option ArrayHeap.Ref) (world : W)
      (result : Except Throwable Obj)
  | after (patch : Patch) (registers : Registers) (calls : List RegisterCall)

/-- The same environment over worlds that also record the events. Nothing else
in it depends on the record. -/
def observe : Environment (W × List (Event W)) where
  element := fun index world => env.element index world.1
  beforeExecuted := fun patch registers world =>
    let run := env.beforeExecuted patch registers world.1
    ⟨run.calls, run.finish,
      (run.world, world.2 ++ [.before patch registers run.calls])⟩
  afterExecuted := fun patch registers world =>
    let run := env.afterExecuted patch registers world.1
    ⟨run.calls, run.finish,
      (run.world, world.2 ++ [.after patch registers run.calls])⟩
  invokeOriginalMember := fun object objects world =>
    let run := env.invokeOriginalMember object objects world.1
    (run.1, (run.2, world.2 ++ [.original object objects world.1 run.1]))
  wtf := fun throwable world =>
    let run := env.wtf throwable world.1
    (run.1, (run.2, world.2))

/-- The events of a call. -/
def events (patchesLength : Nat) (func : Member) (object : Obj)
    (objects : Option ArrayHeap.Ref) (world : W) : List (Event W) :=
  (env.observe.replaceHookedMember patchesLength func object objects (world, [])).2.2

/-! ## The loops as folds -/

/-- Nothing the environment does ends `Kept`. -/
structure Keeps (Kept : W → Prop) : Prop where
  before : ∀ patch registers world, Kept world →
    Kept (env.beforeExecuted patch registers world).world
  after : ∀ patch registers world, Kept world →
    Kept (env.afterExecuted patch registers world).world
  original : ∀ object objects world, Kept world →
    Kept (env.invokeOriginalMember object objects world).2
  report : ∀ throwable world, Kept world → Kept (env.wtf throwable world).2

/-- As long as `Kept` holds of the world, the array reads as `patches`; and
nothing the environment does ends it. -/
structure Holds (patches : List Patch) (Kept : W → Prop) : Prop extends
    env.Keeps Kept where
  element : ∀ world, Kept world → ∀ index (below : index < patches.length),
    env.element index world = .ok (patches.get ⟨index, below⟩)

section Loops

variable {env}

variable {patches : List Patch} {Kept : W → Prop}

theorem Keeps.report_kept (keeps : env.Keeps Kept)
    (finish : Except Throwable Unit) (registers : Registers) {world : W}
    (kept : Kept world) : Kept (env.report finish registers world).2.2 := by
  cases finish with
  | ok => exact kept
  | error throwable => exact keeps.report throwable world kept

theorem Holds.beforeStep_kept (holds : env.Holds patches Kept)
    (state : Registers × W) (kept : Kept state.2) (patch : Patch) :
    Kept (env.callbackStep env.beforeExecuted state patch).2 :=
  holds.toKeeps.report_kept _ _ (holds.before patch state.1 state.2 kept)

theorem Holds.afterStep_kept (holds : env.Holds patches Kept)
    (state : Registers × W) (kept : Kept state.2) (patch : Patch) :
    Kept (env.callbackStep env.afterExecuted state patch).2 :=
  holds.toKeeps.report_kept _ _ (holds.after patch state.1 state.2 kept)

theorem Holds.callbackAt_eq (holds : env.Holds patches Kept) (reports : env.Reports)
    (callback : Patch → Registers → W → CallbackRun W) {index : Nat}
    (below : index < patches.length) (registers : Registers) {world : W}
    (kept : Kept world) :
    env.callbackAt callback index registers world =
      (.ok (), env.callbackStep callback (registers, world)
        (patches.get ⟨index, below⟩)) := by
  unfold callbackAt callbackStep
  rw [holds.element world kept index below]
  exact reports.report_eq _ _ _

/-- The first loop visits the positions from `index` to the end in order. -/
theorem Holds.beforeLoop_eq (holds : env.Holds patches Kept) (reports : env.Reports)
    (remaining index : Nat) (covers : index + remaining + 1 = patches.length)
    (registers : Registers) (world : W) (kept : Kept world) :
    env.beforeLoop remaining index registers world =
      (.ok (), env.runBefores (patches.drop index) (registers, world)) := by
  induction remaining generalizing index registers world with
  | zero =>
      have below : index < patches.length := by omega
      have last : patches.drop index = [patches.get ⟨index, below⟩] := by
        rw [List.drop_eq_getElem_cons below, List.drop_of_length_le (by omega)]
        rfl
      rw [last]
      exact holds.callbackAt_eq reports env.beforeExecuted below registers kept
  | succ remaining inductionHypothesis =>
      have below : index < patches.length := by omega
      have split : patches.drop index =
          patches.get ⟨index, below⟩ :: patches.drop (index + 1) :=
        List.drop_eq_getElem_cons below
      unfold beforeLoop
      rw [holds.callbackAt_eq reports env.beforeExecuted below registers kept, split]
      exact inductionHypothesis (index + 1) (by omega) _ _
        (holds.beforeStep_kept (registers, world) kept _)

/-- The second loop visits the positions from `index` down to zero. -/
theorem Holds.afterLoop_eq (holds : env.Holds patches Kept) (reports : env.Reports)
    (index : Nat) (below : index < patches.length) (registers : Registers) (world : W)
    (kept : Kept world) :
    env.afterLoop index registers world =
      (.ok (), env.runAfters (patches.take (index + 1)) (registers, world)) := by
  induction index generalizing registers world with
  | zero =>
      have first : patches.take (0 + 1) = [patches.get ⟨0, below⟩] := by
        rw [List.take_add_one, List.getElem?_eq_getElem below]
        rfl
      rw [first]
      exact holds.callbackAt_eq reports env.afterExecuted below registers kept
  | succ index inductionHypothesis =>
      have split : (patches.take (index + 1 + 1)).reverse =
          patches.get ⟨index + 1, below⟩ :: (patches.take (index + 1)).reverse := by
        rw [List.take_add_one (i := index + 1), List.getElem?_eq_getElem below]
        simp
      unfold afterLoop runAfters
      rw [holds.callbackAt_eq reports env.afterExecuted below registers kept, split]
      exact inductionHypothesis (by omega) _ _
        (holds.afterStep_kept (registers, world) kept _)

theorem Holds.runBefores_kept (holds : env.Holds patches Kept) (visited : List Patch)
    (state : Registers × W) (kept : Kept state.2) :
    Kept (env.runBefores visited state).2 := by
  induction visited generalizing state with
  | nil => exact kept
  | cons patch rest inductionHypothesis =>
      exact inductionHypothesis _ (holds.beforeStep_kept state kept patch)

theorem Keeps.originalStep_kept (keeps : env.Keeps Kept) (object : Obj)
    (objects : Option ArrayHeap.Ref) (registers : Registers) {world : W}
    (kept : Kept world) :
    Kept (env.originalStep object objects registers world).2 := by
  unfold originalStep
  split_ifs
  · exact keeps.original object objects world kept
  · exact kept

/-- **A hooked call in closed form.**  Before callbacks in snapshot order, the
original-member step, after callbacks in reverse order, and the result that the
registers then hold. -/
theorem Holds.replaceHookedMember_eq (holds : env.Holds patches Kept)
    (reports : env.Reports) (nonempty : patches ≠ []) (func : Member) (object : Obj)
    (objects : Option ArrayHeap.Ref) {world : W} (kept : Kept world) :
    env.replaceHookedMember patches.length func object objects world =
      let early := env.runBefores patches (Registers.create func object objects, world)
      let middle := env.originalStep object objects early.1 early.2
      let late := env.runAfters patches middle
      (conclude late.1, late.2) := by
  obtain ⟨last, size⟩ : ∃ last, patches.length = last + 1 :=
    Nat.exists_eq_add_one_of_ne_zero (by simpa using nonempty)
  have early := holds.beforeLoop_eq reports last 0 (by omega)
    (Registers.create func object objects) world kept
  rw [List.drop_zero] at early
  have keptEarly := holds.runBefores_kept patches
    (Registers.create func object objects, world) kept
  set middle := env.originalStep object objects
    (env.runBefores patches (Registers.create func object objects, world)).1
    (env.runBefores patches (Registers.create func object objects, world)).2 with isMiddle
  have late := holds.afterLoop_eq reports last (by omega) middle.1 middle.2
    (holds.toKeeps.originalStep_kept object objects _ keptEarly)
  rw [← size, List.take_length] at late
  rw [size]
  simp only [replaceHookedMember, early, ← isMiddle, late]

end Loops

/-! ## What a call keeps, however it ends -/

section Keeping

variable {env} {Kept : W → Prop}

theorem Keeps.callbackAt_kept (keeps : env.Keeps Kept)
    {callback : Patch → Registers → W → CallbackRun W}
    (run : ∀ patch registers world, Kept world → Kept (callback patch registers world).world)
    (index : Nat) (registers : Registers) {world : W} (kept : Kept world) :
    Kept (env.callbackAt callback index registers world).2.2 := by
  unfold callbackAt
  cases env.element index world with
  | error throwable => exact keeps.report_kept _ _ kept
  | ok patch => exact keeps.report_kept _ _ (run patch registers world kept)

theorem Keeps.beforeLoop_kept (keeps : env.Keeps Kept) (remaining index : Nat)
    (registers : Registers) {world : W} (kept : Kept world) :
    Kept (env.beforeLoop remaining index registers world).2.2 := by
  induction remaining generalizing index registers world with
  | zero => exact keeps.callbackAt_kept keeps.before index registers kept
  | succ remaining inductionHypothesis =>
      have step := keeps.callbackAt_kept keeps.before index registers kept
      unfold beforeLoop
      revert step
      rcases env.callbackAt env.beforeExecuted index registers world with
        ⟨_ | _, registers', world'⟩
      · exact id
      · exact fun step => inductionHypothesis (index + 1) registers' step

theorem Keeps.afterLoop_kept (keeps : env.Keeps Kept) (index : Nat)
    (registers : Registers) {world : W} (kept : Kept world) :
    Kept (env.afterLoop index registers world).2.2 := by
  induction index generalizing registers world with
  | zero => exact keeps.callbackAt_kept keeps.after 0 registers kept
  | succ index inductionHypothesis =>
      have step := keeps.callbackAt_kept keeps.after (index + 1) registers kept
      unfold afterLoop
      revert step
      rcases env.callbackAt env.afterExecuted (index + 1) registers world with
        ⟨_ | _, registers', world'⟩
      · exact id
      · exact fun step => inductionHypothesis registers' step

theorem Keeps.replaceHookedMember_kept (keeps : env.Keeps Kept) (patchesLength : Nat)
    (func : Member) (object : Obj) (objects : Option ArrayHeap.Ref) {world : W}
    (kept : Kept world) :
    Kept (env.replaceHookedMember patchesLength func object objects world).2 := by
  cases patchesLength with
  | zero => exact keeps.original object objects world kept
  | succ last =>
      have early := keeps.beforeLoop_kept last 0 (Registers.create func object objects) kept
      simp only [replaceHookedMember]
      cases befores : env.beforeLoop last 0 (Registers.create func object objects) world with
      | mk finish state =>
          rw [befores] at early
          cases finish with
          | error => exact early
          | ok =>
              have late := keeps.afterLoop_kept last
                (env.originalStep object objects state.1 state.2).1
                (keeps.originalStep_kept object objects state.1 early)
              simp only
              cases afters : env.afterLoop last
                  (env.originalStep object objects state.1 state.2).1
                  (env.originalStep object objects state.1 state.2).2 with
              | mk finish state =>
                  rw [afters] at late
                  cases finish with
                  | error => exact late
                  | ok => exact late

end Keeping

/-! ## The events of a call -/

end Environment

namespace Callbacks

variable (callbacks : Callbacks W)

open Environment (Event)

/-- The events of the callbacks of `patches`, entered in this order. -/
def callbackEvents (callback : Patch → Registers → W → CallbackRun W)
    (event : Patch → Registers → List RegisterCall → Event W) :
    List Patch → Registers × W → List (Event W)
  | [], _ => []
  | patch :: rest, state =>
      event patch state.1 (callback patch state.1 state.2).calls ::
        callbackEvents callback event rest (callbacks.callbackStep callback state patch)

def beforeEvents (patches : List Patch) (state : Registers × W) : List (Event W) :=
  callbacks.callbackEvents callbacks.beforeExecuted .before patches state

def afterEvents (patches : List Patch) (state : Registers × W) : List (Event W) :=
  callbacks.callbackEvents callbacks.afterExecuted .after patches.reverse state

def originalEvents (object : Obj) (objects : Option ArrayHeap.Ref)
    (state : Registers × W) : List (Event W) :=
  if state.1.Clear then
    [.original object objects state.2
      (callbacks.invokeOriginalMember object objects state.2).1]
  else
    []

/-- Events of one kind, read by a function that sees only the patch. -/
theorem callbackEvents_map {B : Type} (callback : Patch → Registers → W → CallbackRun W)
    (event : Patch → Registers → List RegisterCall → Event W) (read : Event W → B)
    (value : Patch → B)
    (shape : ∀ patch registers calls, read (event patch registers calls) = value patch)
    (visited : List Patch) (state : Registers × W) :
    (callbacks.callbackEvents callback event visited state).map read =
      visited.map value := by
  induction visited generalizing state with
  | nil => rfl
  | cons patch rest inductionHypothesis =>
      unfold callbackEvents
      rw [List.map_cons, List.map_cons, shape, inductionHypothesis]

theorem callbackEvents_filterMap {B : Type}
    (callback : Patch → Registers → W → CallbackRun W)
    (event : Patch → Registers → List RegisterCall → Event W) (read : Event W → Option B)
    (value : Patch → Option B)
    (shape : ∀ patch registers calls, read (event patch registers calls) = value patch)
    (visited : List Patch) (state : Registers × W) :
    (callbacks.callbackEvents callback event visited state).filterMap read =
      visited.filterMap value := by
  have reads := callbacks.callbackEvents_map callback event read value shape visited state
  have selected := congrArg (List.filterMap id) reads
  rwa [List.filterMap_map, List.filterMap_map] at selected

end Callbacks

namespace Environment

variable (env : Environment W)

section Observation

variable {env} {patches : List Patch} {Kept : W → Prop}

theorem observe_reports (reports : env.Reports) : env.observe.Reports :=
  fun throwable world => reports throwable world.1

theorem Holds.observe (holds : env.Holds patches Kept) :
    env.observe.Holds patches (fun world => Kept world.1) where
  element := fun world kept => holds.element world.1 kept
  before := fun patch registers world kept => holds.before patch registers world.1 kept
  after := fun patch registers world kept => holds.after patch registers world.1 kept
  original := fun object objects world kept => holds.original object objects world.1 kept
  report := fun throwable world kept => holds.report throwable world.1 kept

/-- Reporting does not touch the record. -/
private theorem report_observe (finish : Except Throwable Unit) (registers : Registers)
    (world : W) (record : List (Event W)) :
    (env.observe.report finish registers (world, record)).2 =
      ((env.report finish registers world).2.1,
        ((env.report finish registers world).2.2, record)) := by
  cases finish with
  | ok => rfl
  | error throwable => rfl

private theorem foldl_observe
    {observed : Patch → Registers → W × List (Event W) → CallbackRun (W × List (Event W))}
    {callback : Patch → Registers → W → CallbackRun W}
    {event : Patch → Registers → List RegisterCall → Event W}
    (agrees : ∀ patch registers world record,
      observed patch registers (world, record) =
        ⟨(callback patch registers world).calls, (callback patch registers world).finish,
          ((callback patch registers world).world,
            record ++ [event patch registers (callback patch registers world).calls])⟩)
    (visited : List Patch) (registers : Registers) (world : W) (record : List (Event W)) :
    visited.foldl (env.observe.callbackStep observed) (registers, (world, record)) =
      ((visited.foldl (env.callbackStep callback) (registers, world)).1,
        ((visited.foldl (env.callbackStep callback) (registers, world)).2,
          record ++ env.callbackEvents callback event visited (registers, world))) := by
  induction visited generalizing registers world record with
  | nil => simp [callbackEvents]
  | cons patch rest inductionHypothesis =>
      have step : env.observe.callbackStep observed (registers, (world, record)) patch =
          ((env.callbackStep callback (registers, world) patch).1,
            ((env.callbackStep callback (registers, world) patch).2,
              record ++ [event patch registers (callback patch registers world).calls])) := by
        unfold callbackStep
        rw [agrees, report_observe]
      rw [List.foldl_cons, List.foldl_cons, step, inductionHypothesis]
      simp [callbackEvents]

theorem runBefores_observe (visited : List Patch) (registers : Registers) (world : W)
    (record : List (Event W)) :
    env.observe.runBefores visited (registers, (world, record)) =
      ((env.runBefores visited (registers, world)).1,
        ((env.runBefores visited (registers, world)).2,
          record ++ env.beforeEvents visited (registers, world))) :=
  foldl_observe (fun _ _ _ _ => rfl) visited registers world record

theorem runAfters_observe (visited : List Patch) (registers : Registers) (world : W)
    (record : List (Event W)) :
    env.observe.runAfters visited (registers, (world, record)) =
      ((env.runAfters visited (registers, world)).1,
        ((env.runAfters visited (registers, world)).2,
          record ++ env.afterEvents visited (registers, world))) :=
  foldl_observe (fun _ _ _ _ => rfl) visited.reverse registers world record

theorem originalStep_observe (object : Obj) (objects : Option ArrayHeap.Ref)
    (registers : Registers) (world : W) (record : List (Event W)) :
    env.observe.originalStep object objects registers (world, record) =
      ((env.originalStep object objects registers world).1,
        ((env.originalStep object objects registers world).2,
          record ++ env.originalEvents object objects (registers, world))) := by
  unfold originalStep originalEvents
  by_cases clear : registers.Clear
  · simp only [if_pos clear]
    rfl
  · simp [if_neg clear]

/-- **The observed call.**  Observation changes neither the result nor the
world, and the record is: the before callbacks in snapshot order, the original
if the registers were then clear, the after callbacks in reverse order. -/
theorem Holds.observe_replaceHookedMember (holds : env.Holds patches Kept)
    (reports : env.Reports) (nonempty : patches ≠ []) (func : Member) (object : Obj)
    (objects : Option ArrayHeap.Ref) {world : W} (kept : Kept world) :
    let start := (Registers.create func object objects, world)
    let early := env.runBefores patches start
    let middle := env.originalStep object objects early.1 early.2
    env.observe.replaceHookedMember patches.length func object objects (world, []) =
      ((env.replaceHookedMember patches.length func object objects world).1,
        ((env.replaceHookedMember patches.length func object objects world).2,
          env.beforeEvents patches start ++ env.originalEvents object objects early ++
            env.afterEvents patches middle)) := by
  intro start early middle
  rw [holds.replaceHookedMember_eq reports nonempty func object objects kept,
    holds.observe.replaceHookedMember_eq (observe_reports reports) nonempty func object objects kept]
  simp only [runBefores_observe, originalStep_observe, runAfters_observe, List.nil_append]
  rfl

theorem observe_replaceHookedMember_zero (func : Member) (object : Obj)
    (objects : Option ArrayHeap.Ref) (world : W) :
    env.observe.replaceHookedMember 0 func object objects (world, []) =
      ((env.replaceHookedMember 0 func object objects world).1,
        ((env.replaceHookedMember 0 func object objects world).2,
          [.original object objects world
            (env.invokeOriginalMember object objects world).1])) :=
  rfl

end Observation

/-! ## A report that throws -/

section Escape

variable {patch : Patch} (last : Nat) (func : Member) (object : Obj)
  (objects : Option ArrayHeap.Ref) (world : W) {throwable escaped : Throwable}

/-- **A report that throws ends the call.**  When it is the first before
callback that is reported, what `wtf` threw leaves the method at once. -/
theorem replaceHookedMember_escape (first : env.element 0 world = .ok patch)
    (throws : (env.beforeExecuted patch (Registers.create func object objects)
      world).finish = .error throwable)
    (escapes : (env.wtf throwable (env.beforeExecuted patch
      (Registers.create func object objects) world).world).1 = .error escaped) :
    env.replaceHookedMember (last + 1) func object objects world =
      (.error escaped, (env.wtf throwable (env.beforeExecuted patch
        (Registers.create func object objects) world).world).2) := by
  cases last with
  | zero =>
      simp [replaceHookedMember, beforeLoop, callbackAt, first, report, throws, escapes]
  | succ last =>
      simp [replaceHookedMember, beforeLoop, callbackAt, first, report, throws, escapes]

/-- Then no other callback has run, and not the original either. -/
theorem events_escape (first : env.element 0 world = .ok patch)
    (throws : (env.beforeExecuted patch (Registers.create func object objects)
      world).finish = .error throwable)
    (escapes : (env.wtf throwable (env.beforeExecuted patch
      (Registers.create func object objects) world).world).1 = .error escaped) :
    env.events (last + 1) func object objects world =
      [.before patch (Registers.create func object objects)
        (env.beforeExecuted patch (Registers.create func object objects) world).calls] := by
  have observed := env.observe.replaceHookedMember_escape last func object objects
    (world, []) first throws escapes
  unfold events
  rw [observed]
  rfl

end Escape

end Environment

/-! ## A fixed snapshot

Published arrays are never written, so for most questions the array is a
constant list. -/

/-- The environment of a call whose snapshot is `patches`. -/
def Callbacks.over (callbacks : Callbacks W) (patches : List Patch) : Environment W where
  element := fun index _ =>
    match patches[index]? with
    | some patch => .ok patch
    | none => .error (.array .indexOutOfBounds)
  beforeExecuted := callbacks.beforeExecuted
  afterExecuted := callbacks.afterExecuted
  invokeOriginalMember := callbacks.invokeOriginalMember
  wtf := callbacks.wtf

theorem Callbacks.over_holds (callbacks : Callbacks W) (patches : List Patch) :
    (callbacks.over patches).Holds patches (fun _ => True) where
  element := by
    intro world _ index below
    simp [Callbacks.over, below]
  before := fun _ _ _ _ => trivial
  after := fun _ _ _ _ => trivial
  original := fun _ _ _ _ => trivial
  report := fun _ _ _ => trivial

/-! ## Reading the array from the heap -/

/-- `patches[index]`, and the call on the element. -/
def patchAt (arrays : ArrayHeap Patch) (array : ArrayHeap.Ref) (index : Nat) :
    Except Throwable Patch :=
  match arrays.load array index with
  | .error fault => .error (.array fault)
  | .ok none => .error .nullPointer
  | .ok (some patch) => .ok patch

/-- The environment of a call that walks the array `array` of the heap in the
current world. -/
def Callbacks.reading (callbacks : Callbacks W) (arrays : W → ArrayHeap Patch)
    (array : ArrayHeap.Ref) : Environment W where
  element := fun index world => patchAt (arrays world) array index
  beforeExecuted := callbacks.beforeExecuted
  afterExecuted := callbacks.afterExecuted
  invokeOriginalMember := callbacks.invokeOriginalMember
  wtf := callbacks.wtf

/-- A published array is walked as it was at the start of the call, as long as
the heap only grows. -/
theorem Callbacks.reading_holds {callbacks : Callbacks W} {arrays : W → ArrayHeap Patch}
    {array : ArrayHeap.Ref} {start : ArrayHeap Patch} {patches : List Patch}
    (allocated : array < start.cells.length)
    (contents : start.contents array = patches.map some)
    (keeps : (callbacks.reading arrays array).Keeps
      (fun world => ArrayHeap.Grows start (arrays world))) :
    (callbacks.reading arrays array).Holds patches
      (fun world => ArrayHeap.Grows start (arrays world)) where
  toKeeps := keeps
  element := by
    intro world growth index below
    show patchAt (arrays world) array index = _
    unfold patchAt
    rw [growth.load_eq allocated, ArrayHeap.load_map_some contents below]
    rfl

end AndroidPatch.Lang
