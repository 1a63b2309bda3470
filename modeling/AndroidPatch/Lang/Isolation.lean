import AndroidPatch.Lang.Order
import AndroidPatch.Lang.Outcome

/-!
Contract: error reporting, and how far a failing callback is kept from the rest
of its call.

Owns:
- `wtf` of `ExternalKernel` and of `XposedKernel`, with the toast of the latter:
  the walk over its views, and the choice between running and posting it;
- `Reportable`: the throwables a device can report, as a condition on what the
  platform does with them;
- `Isolated`: the calls in which every callback runs and the caller sees what
  the registers hold.

Does not own: the platform. How a throwable prints, which thread reports, whether
an application is there and which view a toast has are data of a `Device`.
-/

namespace AndroidPatch.Lang

open AndroidPatch.Library

/-! ## The platform -/

/-- A view, with whether it has a background and whether it is a text view. A
group is not a text view. -/
inductive View where
  | view (identity : Nat) (background isTextView : Bool)
  | viewGroup (identity : Nat) (background : Bool) (children : List View)

/-- What reporting did, in order. -/
inductive Notice where
  | printed (throwable : Throwable)
  | logged (throwable : Throwable)
  | setColorFilter (view : Nat)
  | setTextColor (view : Nat)
  | setGravity (view : Nat)
  | shown (text : String)
  | posted (text : String)
deriving DecidableEq, Repr

/-- What the platform answers while a throwable is reported. The text of a
throwable comes from its own `toString` and `getMessage`, which may throw, so
every use of it can end in a throwable. `mainLooper` is the thread of the main
looper; `getView` is the view of a new toast, which may be null. -/
structure Device where
  printStackTrace : Throwable → Except Throwable Unit
  log : Throwable → Except Throwable Unit
  valueOf : Throwable → Except Throwable String
  mainLooper : Option Nat
  currentThread : Nat
  currentApplication : Option Nat
  getView : Nat → String → Option View

/-! ## The toast -/

mutual

def View.size : View → Nat
  | .view _ _ _ => 1
  | .viewGroup _ _ children => View.sizeAll children + 1

def View.sizeAll : List View → Nat
  | [] => 0
  | first :: rest => first.size + View.sizeAll rest

end

/-- How many views are still to be visited, those below the queued ones
included. -/
def pending : List (Option View) → Nat
  | [] => 0
  | none :: rest => pending rest + 1
  | some view :: rest => view.size + pending rest

theorem pending_append (left right : List (Option View)) :
    pending (left ++ right) = pending left + pending right := by
  induction left with
  | nil => simp [pending]
  | cons view rest inductionHypothesis =>
      cases view with
      | none =>
          simp only [List.cons_append, pending, inductionHypothesis]
          omega
      | some view =>
          simp only [List.cons_append, pending, inductionHypothesis]
          omega

/-- `views.add(viewGroup.getChildAt(i))` for every child. -/
def queued (children : List View) : List (Option View) :=
  children.map some

theorem pending_queued (children : List View) :
    pending (queued children) = View.sizeAll children := by
  induction children with
  | nil => simp [queued, pending, View.sizeAll]
  | cons child rest inductionHypothesis =>
      simp only [queued] at inductionHypothesis
      simp only [queued, List.map_cons, pending, View.sizeAll, inductionHypothesis]

/-- `view.getBackground()` and the colour filter on a background. -/
def filterBackground (identity : Nat) (background : Bool) : List Notice :=
  if background then [.setColorFilter identity] else []

/-- The loop of `showToast` on the queue `views`. -/
def styleViews (views : List (Option View)) : Except Throwable Unit × List Notice :=
  match views with
  | [] => (.ok (), [])
  | none :: _ => (.error .nullPointer, [])
  | some (.view identity background isTextView) :: rest =>
      let styled := styleViews rest
      (styled.1, filterBackground identity background ++
        (if isTextView then [.setTextColor identity, .setGravity identity] else []) ++ styled.2)
  | some (.viewGroup identity background children) :: rest =>
      let styled := styleViews (rest ++ queued children)
      (styled.1, filterBackground identity background ++ styled.2)
termination_by pending views
decreasing_by
  · simp only [pending, View.size]
    omega
  · simp only [pending_append, pending_queued, pending, View.size]
    omega

/-- `showToast`, on the view of the toast. -/
def showToast (view : Option View) (text : String) :
    Except Throwable Unit × List Notice :=
  match styleViews [view] with
  | (.error throwable, notices) => (.error throwable, notices)
  | (.ok (), notices) => (.ok (), notices ++ [.shown text])

/-- The walk ends unless a null view was queued: it visits every view. -/
theorem styleViews_returns_iff (views : List (Option View)) :
    (styleViews views).1 = .ok () ↔ none ∉ views := by
  induction views using styleViews.induct with
  | case1 => simp [styleViews]
  | case2 rest => simp [styleViews]
  | case3 identity background isTextView rest inductionHypothesis =>
      simp [styleViews, inductionHypothesis]
  | case4 identity background children rest inductionHypothesis =>
      have noNull : none ∉ queued children := by simp [queued]
      simp [styleViews, inductionHypothesis, noNull]

theorem showToast_returns_iff (view : Option View) (text : String) :
    (showToast view text).1 = .ok () ↔ view ≠ none := by
  have walk := styleViews_returns_iff [view]
  have single : none ∉ [view] ↔ view ≠ none := by
    rw [List.mem_singleton]
    exact ⟨fun other same => other same.symm, fun other same => other same.symm⟩
  rw [single] at walk
  rw [← walk]
  unfold showToast
  rcases styleViews [view] with ⟨throwable | _, notices⟩
  · simp
  · simp

/-! ## `wtf` -/

/-- `ExternalKernel.wtf`; a null argument is `none`. -/
def ExternalKernel.wtf (device : Device) : Option Throwable → Except Throwable Unit × List Notice
  | none => (.ok (), [])
  | some throwable =>
      match device.printStackTrace throwable with
      | .error escaped => (.error escaped, [])
      | .ok () => (.ok (), [.printed throwable])

namespace XposedKernel

/-- The `run` method of the runnable. -/
def run (device : Device) (text : String) : Except Throwable Unit × List Notice :=
  match device.currentApplication with
  | none => (.ok (), [])
  | some context => showToast (device.getView context text) text

/-- `XposedKernel.wtf`. A posted runnable runs later, from the main looper. -/
def wtf (device : Device) (throwable : Throwable) : Except Throwable Unit × List Notice :=
  match device.log throwable with
  | .error escaped => (.error escaped, [])
  | .ok () =>
      match device.mainLooper with
      | none => (.ok (), [.logged throwable])
      | some thread =>
          match device.valueOf throwable with
          | .error escaped => (.error escaped, [.logged throwable])
          | .ok text =>
              if device.currentThread ≠ thread ∨ device.currentApplication = none then
                (.ok (), [.logged throwable, .posted text])
              else
                let (finish, notices) := run device text
                (finish, .logged throwable :: notices)

end XposedKernel

/-- The kernel classes of the framework. -/
inductive KernelClass where
  | externalKernel
  | xposedKernel
deriving DecidableEq, Repr

def KernelClass.wtf : KernelClass → Device → Throwable → Except Throwable Unit × List Notice
  | .externalKernel, device, throwable => ExternalKernel.wtf device (some throwable)
  | .xposedKernel, device, throwable => XposedKernel.wtf device throwable

/-- What has to go well for a throwable to be reported. On the main thread of an
application the toast has to have a view. -/
def Reportable : KernelClass → Device → Throwable → Prop
  | .externalKernel, device, throwable => device.printStackTrace throwable = .ok ()
  | .xposedKernel, device, throwable =>
      device.log throwable = .ok () ∧
        ∀ thread, device.mainLooper = some thread →
          ∃ text, device.valueOf throwable = .ok text ∧
            ∀ context, device.currentThread = thread →
              device.currentApplication = some context → device.getView context text ≠ none

theorem XposedKernel.wtf_returns_iff (device : Device) (throwable : Throwable) :
    (XposedKernel.wtf device throwable).1 = .ok () ↔
      Reportable .xposedKernel device throwable := by
  unfold XposedKernel.wtf Reportable
  cases logged : device.log throwable with
  | error escaped => simp [logged]
  | ok =>
      cases looper : device.mainLooper with
      | none => simp [logged, looper]
      | some thread =>
          cases printed : device.valueOf throwable with
          | error escaped => simp [looper, printed]
          | ok text =>
              cases application : device.currentApplication with
              | none => simp [logged, looper, printed, application]
              | some context =>
                  by_cases here : device.currentThread = thread
                  · have returns := showToast_returns_iff (device.getView context text) text
                    simp [logged, looper, printed, application, here, XposedKernel.run, returns]
                  · simp [logged, looper, printed, application, here]

/-- **Reporting returns exactly when the platform can report the throwable.** -/
theorem KernelClass.wtf_returns_iff (kernel : KernelClass) (device : Device)
    (throwable : Throwable) :
    (kernel.wtf device throwable).1 = .ok () ↔ Reportable kernel device throwable := by
  cases kernel with
  | externalKernel =>
      show (ExternalKernel.wtf device (some throwable)).1 = .ok () ↔
        device.printStackTrace throwable = .ok ()
      cases printed : device.printStackTrace throwable with
      | error escaped => simp [ExternalKernel.wtf, printed]
      | ok => simp [ExternalKernel.wtf, printed]
  | xposedKernel => exact XposedKernel.wtf_returns_iff device throwable

/-! ## Reports that are never made

Only what a callback throws is reported, so reporting matters on these
throwables only. -/

/-- Some callback throws the throwable. -/
def Callbacks.Throws {W : Type} (callbacks : Callbacks W) (throwable : Throwable) : Prop :=
  ∃ patch registers world,
    (callbacks.beforeExecuted patch registers world).finish = .error throwable ∨
      (callbacks.afterExecuted patch registers world).finish = .error throwable

namespace Environment

variable {W : Type} {env : Environment W} {patches : List Patch} {Kept : W → Prop}

/-- The environment with another reporting. -/
def reportingTo (env : Environment W)
    (wtf : Throwable → W → Except Throwable Unit × W) : Environment W :=
  { env with wtf := wtf }

variable {wtf : Throwable → W → Except Throwable Unit × W}

theorem report_reportingTo {finish : Except Throwable Unit}
    (agrees : ∀ throwable world, finish = .error throwable →
      env.wtf throwable world = wtf throwable world)
    (registers : Registers) (world : W) :
    env.report finish registers world = (env.reportingTo wtf).report finish registers world := by
  cases finish with
  | ok => rfl
  | error throwable =>
      simp only [Callbacks.report, reportingTo, agrees throwable world rfl]

theorem Holds.callbackAt_reportingTo (holds : env.Holds patches Kept)
    {callback : Patch → Registers → W → CallbackRun W}
    (agrees : ∀ patch registers world throwable,
      (callback patch registers world).finish = .error throwable →
        ∀ later, env.wtf throwable later = wtf throwable later)
    {index : Nat} (below : index < patches.length) (registers : Registers) {world : W}
    (kept : Kept world) :
    env.callbackAt callback index registers world =
      (env.reportingTo wtf).callbackAt callback index registers world := by
  have element := holds.element world kept index below
  have sameElement : (env.reportingTo wtf).element index world = env.element index world := rfl
  unfold callbackAt
  rw [sameElement, element]
  exact report_reportingTo (fun throwable later ended =>
    agrees _ _ _ throwable ended later) _ _

section Calls

variable (holds : env.Holds patches Kept)
  (agrees : ∀ throwable, env.Throws throwable →
    ∀ world, env.wtf throwable world = wtf throwable world)

include holds agrees

theorem Holds.beforeLoop_reportingTo (remaining index : Nat)
    (covers : index + remaining + 1 = patches.length) (registers : Registers) {world : W}
    (kept : Kept world) :
    env.beforeLoop remaining index registers world =
      (env.reportingTo wtf).beforeLoop remaining index registers world := by
  have step := fun index below registers world kept =>
    @Holds.callbackAt_reportingTo W env patches Kept wtf holds env.beforeExecuted
      (fun patch registers world throwable ended =>
        agrees throwable ⟨patch, registers, world, Or.inl ended⟩)
      index below registers world kept
  induction remaining generalizing index registers world with
  | zero => exact step index (by omega) registers world kept
  | succ remaining inductionHypothesis =>
      have keptStep := holds.toKeeps.callbackAt_kept holds.before index registers kept
      unfold beforeLoop
      rw [← show env.callbackAt env.beforeExecuted index registers world =
        (env.reportingTo wtf).callbackAt (env.reportingTo wtf).beforeExecuted index registers
          world from step index (by omega) registers world kept]
      revert keptStep
      rcases env.callbackAt env.beforeExecuted index registers world with
        ⟨throwable | _, registers', world'⟩
      · exact fun _ => rfl
      · exact fun keptStep => inductionHypothesis (index + 1) (by omega) registers' keptStep

theorem Holds.afterLoop_reportingTo (index : Nat) (below : index < patches.length)
    (registers : Registers) {world : W} (kept : Kept world) :
    env.afterLoop index registers world =
      (env.reportingTo wtf).afterLoop index registers world := by
  have step := fun index below registers world kept =>
    @Holds.callbackAt_reportingTo W env patches Kept wtf holds env.afterExecuted
      (fun patch registers world throwable ended =>
        agrees throwable ⟨patch, registers, world, Or.inr ended⟩)
      index below registers world kept
  induction index generalizing registers world with
  | zero => exact step 0 below registers world kept
  | succ index inductionHypothesis =>
      have keptStep := holds.toKeeps.callbackAt_kept holds.after (index + 1) registers kept
      unfold afterLoop
      rw [← show env.callbackAt env.afterExecuted (index + 1) registers world =
        (env.reportingTo wtf).callbackAt (env.reportingTo wtf).afterExecuted (index + 1)
          registers world from step (index + 1) below registers world kept]
      revert keptStep
      rcases env.callbackAt env.afterExecuted (index + 1) registers world with
        ⟨throwable | _, registers', world'⟩
      · exact fun _ => rfl
      · exact fun keptStep => inductionHypothesis (by omega) registers' keptStep

/-- **A call depends on the reporting of what its callbacks throw only.** -/
theorem Holds.replaceHookedMember_reportingTo (func : Member) (object : Obj)
    (objects : Option ArrayHeap.Ref) (world : W) (kept : Kept world) :
    env.replaceHookedMember patches.length func object objects world =
      (env.reportingTo wtf).replaceHookedMember patches.length func object objects world := by
  cases size : patches.length with
  | zero => rfl
  | succ last =>
      have early := holds.beforeLoop_reportingTo agrees last 0 (by omega)
        (Registers.create func object objects) kept
      have keptEarly := holds.toKeeps.beforeLoop_kept last 0
        (Registers.create func object objects) kept
      simp only [replaceHookedMember]
      rw [← early]
      revert keptEarly
      rcases env.beforeLoop last 0 (Registers.create func object objects) world with
        ⟨throwable | _, registers, world'⟩
      · exact fun _ => rfl
      · intro keptEarly
        have sameOriginal : (env.reportingTo wtf).originalStep object objects registers world' =
            env.originalStep object objects registers world' := rfl
        have late := holds.afterLoop_reportingTo agrees last (by omega)
          (env.originalStep object objects registers world').1
          (holds.toKeeps.originalStep_kept object objects registers keptEarly)
        simp only [sameOriginal]
        rw [← late]

/-- So do its events. -/
theorem Holds.events_reportingTo (func : Member) (object : Obj)
    (objects : Option ArrayHeap.Ref) (world : W) (kept : Kept world) :
    env.events patches.length func object objects world =
      (env.reportingTo wtf).events patches.length func object objects world := by
  let observed : Throwable → W × List (Event W) → Except Throwable Unit × W × List (Event W) :=
    (env.reportingTo wtf).observe.wtf
  have agreesObserved : ∀ throwable, env.observe.Throws throwable →
      ∀ world, env.observe.wtf throwable world = observed throwable world := by
    intro throwable throws world
    obtain ⟨patch, registers, made, ended⟩ := throws
    have same := agrees throwable ⟨patch, registers, made.1, ended⟩ world.1
    simp only [observed, Environment.observe, reportingTo, same]
  have sameCall := holds.observe.replaceHookedMember_reportingTo agreesObserved func object
    objects (world, []) kept
  unfold events
  rw [sameCall]
  rfl

end Calls

/-! ## Isolation -/

/-- **A failing callback is isolated.**  Every before and every after callback
runs, and what the caller sees is what the registers hold behind the last after
callback; without patches it is the outcome of the original. -/
structure Isolated (env : Environment W) (patches : List Patch) (func : Member)
    (object : Obj) (objects : Option ArrayHeap.Ref) (world : W) : Prop where
  befores : (env.events patches.length func object objects world).filterMap
    Event.beforeOf = patches
  afters : (env.events patches.length func object objects world).filterMap
    Event.afterOf = patches.reverse
  outcome : patches ≠ [] → ∃ patch registers calls,
    (env.events patches.length func object objects world).getLast? =
        some (.after patch registers calls) ∧
      (env.replaceHookedMember patches.length func object objects world).1 =
        conclude (registers.performAll calls)
  original : patches = [] →
    (env.replaceHookedMember patches.length func object objects world).1 =
      (env.invokeOriginalMember object objects world).1.map Slot.value

/-- The last of a row of callbacks leaves the registers that the row ends
with. -/
theorem getLast?_callbackEvents (callbacks : Callbacks W)
    (callback : Patch → Registers → W → CallbackRun W)
    (event : Patch → Registers → List RegisterCall → Event W) {visited : List Patch}
    (nonempty : visited ≠ []) (state : Registers × W) :
    ∃ patch registers calls,
      (callbacks.callbackEvents callback event visited state).getLast? =
          some (event patch registers calls) ∧
        (visited.foldl (callbacks.callbackStep callback) state).1 =
          registers.performAll calls := by
  induction visited generalizing state with
  | nil => exact absurd rfl nonempty
  | cons patch rest inductionHypothesis =>
      cases rest with
      | nil =>
          refine ⟨patch, state.1, (callback patch state.1 state.2).calls, rfl, ?_⟩
          show (callbacks.callbackStep callback state patch).1 = _
          cases ended : (callback patch state.1 state.2).finish with
          | ok => simp only [Callbacks.callbackStep, Callbacks.report, ended]
          | error throwable => simp only [Callbacks.callbackStep, Callbacks.report, ended]
      | cons next others =>
          obtain ⟨last, registers, calls, isLast, isFinal⟩ :=
            inductionHypothesis (List.cons_ne_nil next others)
              (callbacks.callbackStep callback state patch)
          refine ⟨last, registers, calls, ?_, isFinal⟩
          rw [← isLast]
          rfl

theorem Holds.isolated (holds : env.Holds patches Kept) (reports : env.Reports)
    (func : Member) (object : Obj) (objects : Option ArrayHeap.Ref) (world : W)
    (kept : Kept world) : env.Isolated patches func object objects world := by
  obtain ⟨befores, afters⟩ := holds.events_complete reports func object objects kept
  refine ⟨befores, afters, fun nonempty => ?_, fun empty => ?_⟩
  · have reversed : patches.reverse ≠ [] := by simpa using nonempty
    obtain ⟨patch, registers, calls, isLast, isFinal⟩ := getLast?_callbackEvents env.toCallbacks
      env.afterExecuted .after reversed
      (env.originalStep object objects
        (env.runBefores patches (Registers.create func object objects, world)).1
        (env.runBefores patches (Registers.create func object objects, world)).2)
    refine ⟨patch, registers, calls, ?_, ?_⟩
    · rw [holds.events_eq reports nonempty func object objects kept, List.getLast?_append]
      unfold Callbacks.afterEvents
      rw [isLast]
      rfl
    · rw [holds.replaceHookedMember_eq reports nonempty func object objects kept]
      exact congrArg conclude isFinal
  · subst empty
    rfl

end Environment

/-- Reporting as the kernel does it, in a world that shows the device and takes
the notices. -/
def KernelClass.reporting {W : Type} (kernel : KernelClass) (device : W → Device)
    (notify : List Notice → W → W) (throwable : Throwable) (world : W) :
    Except Throwable Unit × W :=
  ((kernel.wtf (device world) throwable).1,
    notify (kernel.wtf (device world) throwable).2 world)

/-- A report that throws ends the call after the first callback. -/
theorem Environment.not_isolated {W : Type} {callbacks : Callbacks W} {func : Member}
    {object : Obj} {objects : Option ArrayHeap.Ref} {world : W}
    {throwable escaped : Throwable}
    (throws : (callbacks.beforeExecuted (.sample 1) (Registers.create func object objects)
      world).finish = .error throwable)
    (escapes : (callbacks.wtf throwable (callbacks.beforeExecuted (.sample 1)
      (Registers.create func object objects) world).world).1 = .error escaped) :
    ¬ (callbacks.over [.sample 1, .sample 2]).Isolated [.sample 1, .sample 2] func object
      objects world := by
  intro isolated
  have events := (callbacks.over [.sample 1, .sample 2]).events_escape 1 func object objects
    world rfl throws escapes
  have befores := isolated.befores
  rw [show [Patch.sample 1, Patch.sample 2].length = 1 + 1 from rfl, events] at befores
  exact absurd befores (by simp [Event.beforeOf])

/-- Every before callback throws `throwable`. -/
def Callbacks.throwing {W : Type} (throwable : Throwable)
    (wtf : Throwable → W → Except Throwable Unit × W) : Callbacks W where
  beforeExecuted := fun _ _ world => ⟨[], .error throwable, world⟩
  afterExecuted := fun _ _ world => ⟨[], .ok (), world⟩
  invokeOriginalMember := fun _ _ world => (.ok .null, world)
  wtf := wtf

theorem Callbacks.throwing_throws_iff {W : Type} [Nonempty W] (throwable : Throwable)
    (wtf : Throwable → W → Except Throwable Unit × W) (other : Throwable) :
    (throwing throwable wtf).Throws other ↔ other = throwable := by
  constructor
  · rintro ⟨patch, registers, world, ended | ended⟩
    · exact (Except.error.inj ended).symm
    · cases ended
  · intro same
    obtain ⟨world⟩ := ‹Nonempty W›
    exact ⟨.sample 1, Registers.create .objectToString .null none, world,
      Or.inl (congrArg Except.error same.symm)⟩

/-- **Failing callbacks are isolated exactly when what they throw can be
reported.**  For either kernel, any throwables that callbacks may throw and any
devices they may be thrown on: every call over every list of patches is isolated
if and only if each of these throwables can be reported on each of these
devices. -/
theorem isolated_iff_reportable (kernel : KernelClass) (thrown : Set Throwable)
    (devices : Set Device) :
    (∀ (W : Type) (device : W → Device) (notify : List Notice → W → W)
        (beforeExecuted afterExecuted : Patch → Registers → W → CallbackRun W)
        (invokeOriginalMember : Obj → Option ArrayHeap.Ref → W → Except Throwable Obj × W),
      let callbacks : Callbacks W := ⟨beforeExecuted, afterExecuted, invokeOriginalMember,
        kernel.reporting device notify⟩
      (∀ world, device world ∈ devices) →
      (∀ throwable, callbacks.Throws throwable → throwable ∈ thrown) →
      ∀ patches func object objects world,
        (callbacks.over patches).Isolated patches func object objects world) ↔
      ∀ device ∈ devices, ∀ throwable ∈ thrown, Reportable kernel device throwable := by
  constructor
  · intro isolated device isDevice throwable isThrown
    rw [← kernel.wtf_returns_iff]
    cases reported : (kernel.wtf device throwable).1 with
    | ok => rfl
    | error escaped =>
        let callbacks : Callbacks Unit := .throwing throwable
          (kernel.reporting (fun _ => device) (fun _ => id))
        refine absurd (isolated Unit (fun _ => device) (fun _ => id) callbacks.beforeExecuted
          callbacks.afterExecuted callbacks.invokeOriginalMember (fun _ => isDevice) ?_
          [.sample 1, .sample 2] .objectToString .null none ()) ?_
        · intro other throws
          rw [(Callbacks.throwing_throws_iff throwable _ other).mp throws]
          exact isThrown
        · exact Environment.not_isolated rfl reported
  · intro reportable W device notify beforeExecuted afterExecuted invokeOriginalMember callbacks
      onDevice throwsOnly patches func object objects world
    -- Reporting never throws on what is thrown, so it may as well never throw.
    let calm : Throwable → W → Except Throwable Unit × W :=
      fun throwable world => (.ok (), (kernel.reporting device notify throwable world).2)
    have agrees : ∀ throwable, callbacks.Throws throwable →
        ∀ world, callbacks.wtf throwable world = calm throwable world := by
      intro throwable throws world
      have returns := (kernel.wtf_returns_iff (device world) throwable).mpr
        (reportable _ (onDevice world) throwable (throwsOnly throwable throws))
      exact Prod.ext returns rfl
    have holds := callbacks.over_holds patches
    have calmHolds : ((callbacks.over patches).reportingTo calm).Holds patches
        (fun _ => True) :=
      ({ callbacks with wtf := calm } : Callbacks W).over_holds patches
    obtain ⟨befores, afters, outcome, original⟩ := calmHolds.isolated (fun _ _ => rfl) func
      object objects world trivial
    have sameEvents := holds.events_reportingTo agrees func object objects world trivial
    have sameResult := holds.replaceHookedMember_reportingTo agrees func object objects world
      trivial
    rw [← sameEvents] at befores afters outcome
    rw [← sameResult] at outcome original
    exact ⟨befores, afters, outcome, original⟩

/-- A device that prints every throwable, on the main thread of an application,
whose text toasts have no view. -/
def Device.viewless : Device where
  printStackTrace := fun _ => .ok ()
  log := fun _ => .ok ()
  valueOf := fun _ => .ok "java.lang.IllegalStateException"
  mainLooper := some 1
  currentThread := 1
  currentApplication := some 1
  getView := fun _ _ => none

/-- A device on which the throwables' own `toString` throws. -/
def Device.unprintable : Device :=
  { Device.viewless with
    printStackTrace := fun _ => .error .nullPointer
    log := fun _ => .error .nullPointer
    valueOf := fun _ => .error .nullPointer }

/-- The first callback throws. Under `XposedKernel` the toast has no view; under
`ExternalKernel` the throwable cannot be printed. -/
theorem throwing_not_isolated :
    let call := fun (kernel : KernelClass) (device : Device) =>
      ((Callbacks.throwing (.other 1) (kernel.reporting (fun _ : Unit => device)
        (fun _ => id))).over [.sample 1, .sample 2]).Isolated [.sample 1, .sample 2]
          .objectToString .null none ()
    ¬ call .xposedKernel .viewless ∧ ¬ call .externalKernel .unprintable := by
  have noToast : (XposedKernel.wtf .viewless (.other 1)).1 = .error .nullPointer := by
    simp [XposedKernel.wtf, XposedKernel.run, Device.viewless, showToast, styleViews]
  exact ⟨Environment.not_isolated rfl noToast, Environment.not_isolated rfl rfl⟩

end AndroidPatch.Lang
