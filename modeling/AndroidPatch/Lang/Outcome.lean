import AndroidPatch.Lang.Dispatch

/-!
Contract: which write decides the result of a hooked call.

Owns:
- the register contents between any two operations of a call, and its
  successful writes in execution order;
- `DecidedByLastWrite`, and the proof that every call has it whose error
  reporting returns.

A `wtf` that throws ends the call inside a `catch` block: the throwable it
raises leaves the method and the registers are never read again. Whether the
reporting of a particular kernel can throw is not decided here; the last
section shows that it must not.
-/

namespace AndroidPatch.Lang

open AndroidPatch.Library

variable {W : Type}

/-- The register contents from entering a callback to its last setter call. -/
def Registers.trace (registers : Registers) : List RegisterCall → List Registers
  | [] => [registers]
  | call :: rest => registers :: (registers.after call).trace rest

theorem Registers.trace_forall {P : Registers → Prop}
    (kept : ∀ registers call, P registers → P (registers.after call))
    {registers : Registers} (start : P registers) (calls : List RegisterCall) :
    ∀ reached ∈ registers.trace calls, P reached := by
  induction calls generalizing registers with
  | nil =>
      intro reached member
      rw [List.mem_singleton.mp member]
      exact start
  | cons call rest inductionHypothesis =>
      intro reached member
      rcases List.mem_cons.mp member with rfl | later
      · exact start
      · exact inductionHypothesis (kept registers call start) reached later

theorem Registers.performAll_forall {P : Registers → Prop}
    (kept : ∀ registers call, P registers → P (registers.after call))
    {registers : Registers} (start : P registers) (calls : List RegisterCall) :
    P (registers.performAll calls) := by
  induction calls generalizing registers with
  | nil => exact start
  | cons call rest inductionHypothesis =>
      exact inductionHypothesis (kept registers call start)

open Callbacks

namespace Environment

namespace Event

/-- The register contents observed during an event. -/
def states : Event W → List Registers
  | .before _ registers calls => registers.trace calls
  | .original _ _ _ _ => []
  | .after _ registers calls => registers.trace calls

/-- The event lies behind the original-member step. -/
def Late : Event W → Prop
  | .after _ _ _ => True
  | _ => False

/-- The successful writes of an event, in order. -/
def writes : Event W → List (Except Throwable Obj)
  | .before _ _ calls => calls.filterMap RegisterCall.effective
  | .original _ _ _ result => [result]
  | .after _ _ calls => calls.filterMap RegisterCall.effective

end Event

/-- **The outcome is decided by the last effective write.**  `consistent` and
`decided` speak of the registers between any two operations, `lastWrite` and
`noSentinel` of the result. -/
structure DecidedByLastWrite (env : Environment W) (patchesLength : Nat)
    (func : Member) (object : Obj) (objects : Option ArrayHeap.Ref) (world : W) :
    Prop where
  consistent : ∀ event ∈ env.events patchesLength func object objects world,
    ∀ registers ∈ event.states, registers.Consistent
  decided : ∀ event ∈ env.events patchesLength func object objects world,
    event.Late → ∀ registers ∈ event.states, registers.Decided
  lastWrite : ∃ write,
    ((env.events patchesLength func object objects world).flatMap
      Event.writes).getLast? = some write ∧
    (env.replaceHookedMember patchesLength func object objects world).1 =
      write.map Slot.value
  noSentinel :
    (env.replaceHookedMember patchesLength func object objects world).1 ≠ .ok .NULL

/-! ## Callbacks and the original-member step -/

section Steps

variable (env : Environment W)

/-- Reporting a failed callback does not touch the registers. -/
theorem report_registers (finish : Except Throwable Unit) (registers : Registers)
    (world : W) : (env.report finish registers world).2.1 = registers := by
  cases finish with
  | ok => rfl
  | error throwable => rfl

theorem callbackStep_registers (callback : Patch → Registers → W → CallbackRun W)
    (state : Registers × W) (patch : Patch) :
    (env.callbackStep callback state patch).1 =
      state.1.performAll (callback patch state.1 state.2).calls :=
  env.report_registers _ _ _

variable {env} (callback : Patch → Registers → W → CallbackRun W)
  (event : Patch → Registers → List RegisterCall → Event W)

/-- A property that every setter call keeps holds throughout the callbacks. -/
theorem callbackEvents_forall (P : Registers → Prop)
    (kept : ∀ registers call, P registers → P (registers.after call))
    (shape : ∀ patch registers calls,
      (event patch registers calls).states = registers.trace calls)
    (visited : List Patch) (state : Registers × W) (start : P state.1) :
    (∀ observed ∈ env.callbackEvents callback event visited state,
      ∀ registers ∈ observed.states, P registers) ∧
    P (visited.foldl (env.callbackStep callback) state).1 := by
  induction visited generalizing state with
  | nil => exact ⟨fun _ member => absurd member List.not_mem_nil, start⟩
  | cons patch rest inductionHypothesis =>
      have next : P (env.callbackStep callback state patch).1 := by
        rw [callbackStep_registers]
        exact Registers.performAll_forall kept start _
      obtain ⟨laterStates, final⟩ := inductionHypothesis _ next
      refine ⟨?_, final⟩
      intro observed member registers present
      rcases List.mem_cons.mp member with rfl | later
      · rw [shape] at present
        exact Registers.trace_forall kept start _ registers present
      · exact laterStates observed later registers present

theorem callbackEvents_all (Q : Event W → Prop)
    (each : ∀ patch registers calls, Q (event patch registers calls))
    (visited : List Patch) (state : Registers × W) :
    ∀ observed ∈ env.callbackEvents callback event visited state, Q observed := by
  induction visited generalizing state with
  | nil => exact fun _ member => absurd member List.not_mem_nil
  | cons patch rest inductionHypothesis =>
      intro observed member
      rcases List.mem_cons.mp member with rfl | later
      · exact each _ _ _
      · exact inductionHypothesis _ observed later

/-- The writes of the callbacks carry the outcome of the registers along. -/
theorem callbackEvents_writes
    (shape : ∀ patch registers calls,
      (event patch registers calls).writes = calls.filterMap RegisterCall.effective)
    (visited : List Patch) (state : Registers × W) :
    (visited.foldl (env.callbackStep callback) state).1.outcome =
      ((env.callbackEvents callback event visited state).flatMap
        Event.writes).getLast?.or state.1.outcome := by
  induction visited generalizing state with
  | nil => rfl
  | cons patch rest inductionHypothesis =>
      rw [List.foldl_cons, inductionHypothesis, callbackStep_registers,
        Registers.outcome_performAll]
      simp only [callbackEvents, List.flatMap_cons, shape, List.getLast?_append]
      exact Option.or_assoc.symm

/-- The original-member step shows no registers and is not behind itself. -/
theorem originalEvents_all (object : Obj) (objects : Option ArrayHeap.Ref)
    (state : Registers × W) :
    ∀ observed ∈ env.originalEvents object objects state,
      observed.states = [] ∧ ¬ observed.Late := by
  intro observed member
  unfold originalEvents at member
  split_ifs at member
  · rw [List.mem_singleton.mp member]
    exact ⟨rfl, id⟩
  · exact absurd member List.not_mem_nil

theorem originalStep_decided (object : Obj) (objects : Option ArrayHeap.Ref)
    {registers : Registers} (consistent : registers.Consistent) (world : W) :
    (env.originalStep object objects registers world).1.Decided := by
  unfold originalStep
  split_ifs with clear
  · obtain ⟨noValue, noThrow⟩ := clear
    show (registers.settle (env.invokeOriginalMember object objects world).1).Decided
    cases (env.invokeOriginalMember object objects world).1 with
    | ok result => exact Or.inl ⟨Slot.noConfusion, noThrow⟩
    | error throwable => exact Or.inr ⟨noValue, Option.some_ne_none throwable⟩
  · exact consistent.decided clear

/-- The original writes its result exactly when the registers were clear. -/
theorem originalStep_outcome (object : Obj) (objects : Option ArrayHeap.Ref)
    (state : Registers × W) :
    (env.originalStep object objects state.1 state.2).1.outcome =
      ((env.originalEvents object objects state).flatMap Event.writes).getLast?.or
        state.1.outcome := by
  unfold originalStep originalEvents
  split_ifs with clear
  · obtain ⟨noValue, noThrow⟩ := clear
    show (state.1.settle (env.invokeOriginalMember object objects state.2).1).outcome =
      some (env.invokeOriginalMember object objects state.2).1
    cases (env.invokeOriginalMember object objects state.2).1 with
    | ok result => simp [Registers.settle, Registers.outcome, noThrow]
    | error throwable => simp [Registers.settle, Registers.outcome]
  · rfl

/-- The result of the method is the outcome of decided registers. -/
theorem conclude_eq {registers : Registers} {write : Except Throwable Obj}
    (outcome : registers.outcome = some write) :
    conclude registers = write.map Slot.value := by
  unfold Registers.outcome at outcome
  unfold conclude
  cases thrown : registers.thrown with
  | some throwable =>
      rw [thrown] at outcome
      cases outcome
      rfl
  | none =>
      cases returned : registers.returned with
      | NULL => simp [thrown, returned] at outcome
      | value object =>
          simp only [thrown, returned, Option.some.injEq] at outcome
          rw [← outcome]
          rfl

end Steps

theorem map_value_ne_sentinel (write : Except Throwable Obj) :
    write.map Slot.value ≠ .ok .NULL := by
  cases write with
  | ok result => exact fun same => Slot.noConfusion (Except.ok.inj same)
  | error throwable => exact fun same => nomatch same

/-! ## Whole calls -/

variable {env : Environment W} {patches : List Patch} {Kept : W → Prop}

private theorem decidedByLastWrite_zero (env : Environment W) (func : Member)
    (object : Obj) (objects : Option ArrayHeap.Ref) (world : W) :
    env.DecidedByLastWrite 0 func object objects world := by
  have events : env.events 0 func object objects world =
      [.original object objects world
        (env.invokeOriginalMember object objects world).1] := by
    unfold events
    rw [observe_replaceHookedMember_zero]
  refine ⟨?_, ?_, ⟨_, ?_, rfl⟩, map_value_ne_sentinel _⟩
  · rw [events]
    intro event member registers present
    rw [List.mem_singleton.mp member] at present
    exact absurd present List.not_mem_nil
  · rw [events]
    intro event member late
    rw [List.mem_singleton.mp member] at late
    exact late.elim
  · rw [events]
    rfl

section Phases

variable (holds : env.Holds patches Kept) (reports : env.Reports)
  (nonempty : patches ≠ []) (func : Member) (object : Obj)
  (objects : Option ArrayHeap.Ref) {world : W} (kept : Kept world)

include holds reports nonempty kept

theorem Holds.events_eq :
    let start := (Registers.create func object objects, world)
    let early := env.runBefores patches start
    let middle := env.originalStep object objects early.1 early.2
    env.events patches.length func object objects world =
      env.beforeEvents patches start ++ env.originalEvents object objects early ++
        env.afterEvents patches middle := by
  unfold events
  rw [holds.observe_replaceHookedMember reports nonempty func object objects kept]

/-- The outcome of the final registers is the last write of the call. -/
private theorem Holds.outcome_late :
    let start := (Registers.create func object objects, world)
    let early := env.runBefores patches start
    let middle := env.originalStep object objects early.1 early.2
    (env.runAfters patches middle).1.outcome =
      ((env.events patches.length func object objects world).flatMap
        Event.writes).getLast? := by
  intro start early middle
  have lateWrites : (env.runAfters patches middle).1.outcome = _ :=
    callbackEvents_writes _ .after (fun _ _ _ => rfl) patches.reverse middle
  have earlyWrites : early.1.outcome = _ :=
    callbackEvents_writes _ .before (fun _ _ _ => rfl) patches start
  have originalWrite : middle.1.outcome = _ :=
    originalStep_outcome object objects early
  have startClear : start.1.outcome = none :=
    Registers.Clear.outcome_eq_none ⟨rfl, rfl⟩
  rw [holds.events_eq reports nonempty func object objects kept, lateWrites,
    originalWrite, earlyWrites, startClear]
  simp only [List.flatMap_append, List.getLast?_append, Option.or_none]
  rfl

end Phases

/-- **Every call whose reporting returns is decided by its last effective
write.** -/
theorem Holds.decidedByLastWrite (holds : env.Holds patches Kept)
    (reports : env.Reports) (func : Member) (object : Obj)
    (objects : Option ArrayHeap.Ref) {world : W} (kept : Kept world) :
    env.DecidedByLastWrite patches.length func object objects world := by
  by_cases nonempty : patches = []
  · subst nonempty
    exact decidedByLastWrite_zero env func object objects world
  -- `Consistent` carries the first loop, `Decided` everything behind the original.
  obtain ⟨earlyStates, earlyConsistent⟩ := callbackEvents_forall
    env.beforeExecuted .before Registers.Consistent
    (fun _ call consistent => Registers.after_consistent consistent call)
    (fun _ _ _ => rfl) patches (Registers.create func object objects, world) (Or.inl rfl)
  obtain ⟨lateStates, lateDecided⟩ := callbackEvents_forall
    env.afterExecuted .after Registers.Decided
    (fun _ call decided => Registers.after_decided decided call)
    (fun _ _ _ => rfl) patches.reverse _
    (originalStep_decided object objects earlyConsistent _)
  obtain ⟨write, outcome⟩ := Option.ne_none_iff_exists'.mp lateDecided.outcome_ne_none
  have lastWrite := (holds.outcome_late reports nonempty func object objects kept).symm.trans
    outcome
  have result : (env.replaceHookedMember patches.length func object objects world).1 =
      write.map Slot.value := by
    rw [holds.replaceHookedMember_eq reports nonempty func object objects kept]
    exact conclude_eq outcome
  refine ⟨?_, ?_, ⟨write, lastWrite, result⟩, ?_⟩
  · rw [holds.events_eq reports nonempty func object objects kept]
    intro event member registers present
    rcases List.mem_append.mp member with member | member
    · rcases List.mem_append.mp member with member | member
      · exact earlyStates event member registers present
      · rw [(originalEvents_all object objects _ event member).1] at present
        exact absurd present List.not_mem_nil
    · exact Registers.Decided.consistent (lateStates event member registers present)
  · rw [holds.events_eq reports nonempty func object objects kept]
    intro event member late
    rcases List.mem_append.mp member with member | member
    · rcases List.mem_append.mp member with member | member
      · exact absurd late (callbackEvents_all _ _
          (fun observed => ¬ observed.Late) (fun _ _ _ => id) patches _ event member)
      · exact absurd late (originalEvents_all object objects _ event member).2
    · exact lateStates event member
  · rw [result]
    exact map_value_ne_sentinel write

end Environment

/-! ## Reporting that throws -/

/-- A before callback that does `setReturned(v)` with a non-null value and then
throws. -/
def Callbacks.returnThenThrow (throwable : Throwable)
    (wtf : Throwable → W → Except Throwable Unit × W) : Callbacks W where
  beforeExecuted := fun _ _ world =>
    ⟨[.setReturned (.value (.instance 1))], .error throwable, world⟩
  afterExecuted := fun _ _ world => ⟨[.setThrown none], .ok (), world⟩
  invokeOriginalMember := fun _ _ world => (.ok .null, world)
  wtf := wtf

/-- What `wtf` throws leaves the call, although the last write was a return
value. -/
theorem Callbacks.returnThenThrow_escapes
    {wtf : Throwable → W → Except Throwable Unit × W} {throwable escaped : Throwable}
    {world : W} (escapes : (wtf throwable world).1 = .error escaped) :
    ¬ ((returnThenThrow throwable wtf).over [Patch.sample 1]).DecidedByLastWrite
        [Patch.sample 1].length Member.objectToString .null none world := by
  intro decided
  obtain ⟨write, last, result⟩ := decided.lastWrite
  have events := ((returnThenThrow throwable wtf).over [Patch.sample 1]).events_escape 0
    Member.objectToString .null none world rfl rfl escapes
  have thrown := ((returnThenThrow throwable wtf).over
    [Patch.sample 1]).replaceHookedMember_escape 0 Member.objectToString .null none world rfl
      rfl escapes
  rw [List.length_singleton, events] at last
  rw [List.length_singleton, thrown] at result
  have returned : write = .ok (.instance 1) := (Option.some.inj last).symm
  rw [returned] at result
  exact nomatch result

end AndroidPatch.Lang
