import AndroidPatch.Lang.Objects

/-!
Contract: `initPatchLoader` and `initPatch`, from the text of a plugin to the
calls of `loadPatch`.

Owns:
- the lines of `assets/patch_loader`, and the class names among them;
- the loop that makes loaders, and the one that notifies them, with the failures
  that each of them survives;
- the whole run as a concatenation: what happens for one name, or for one loader,
  depends on nothing else.
-/

namespace AndroidPatch.Lang

/-! ## Lines -/

/-- The lines that `BufferedReader.readLine` returns, one call after the other, and
what ends the reading: null, or the exception that cuts the text. A line ends with
`\n`, `\r` or `\r\n`; one that the cut interrupts is lost. -/
def readLines (cut : Option Throwable) (line : List Char) (skipLF : Bool) :
    List Char → List (List Char) × Option Throwable
  | [] =>
      match cut with
      | some exception => ([], some exception)
      | none => if line = [] then ([], none) else ([line], none)
  | char :: rest =>
      if char = '\n' then
        if skipLF then readLines cut line false rest
        else (line :: (readLines cut [] false rest).1, (readLines cut [] false rest).2)
      else if char = '\r' then
        (line :: (readLines cut [] true rest).1, (readLines cut [] true rest).2)
      else readLines cut (line ++ [char]) false rest

/-- `String.trim`. -/
def trim (line : List Char) : List Char :=
  ((line.dropWhile (·.val ≤ 0x20)).reverse.dropWhile (·.val ≤ 0x20)).reverse

/-- The loop over the lines. -/
def classNamesOf : List (List Char) → List String
  | [] => []
  | line :: rest =>
      let line := trim line
      if line = [] ∨ ['#'] <+: line then classNamesOf rest
      else String.ofList line :: classNamesOf rest

/-! ## Loaders -/

/-- How `loadClass`, `getConstructor`, `newInstance` and the cast end for a class
name: with a new loader, with an exception of the constructor, an error of a static
initialiser, or anything else. -/
inductive Instantiation where
  | constructed (loader : Nat)
  | invocationTarget (cause : Option Throwable)
  | initializerError (cause : Option Throwable)
  | failed (throwable : Throwable)
deriving DecidableEq, Repr

inductive LoaderEvent where
  | instantiate (className : String)
  | wtf (throwable : Option Throwable)
  | loadPatch (loader : Nat)
deriving DecidableEq, Repr

/-- One call of `initPatchLoader`: the text of the resource as far as it can be
read, if there is one, and how the attempt for the n-th name ends. -/
structure LoaderCall where
  resource : Option (List Char × Option Throwable)
  outcome : Nat → Instantiation

/-- The loaders so far, and what has happened. -/
structure LoaderState where
  mPatchLoaders : List Nat
  events : List LoaderEvent
deriving DecidableEq, Repr

namespace LoaderState

def initial : LoaderState := ⟨[], []⟩

def happens (state : LoaderState) (event : LoaderEvent) : LoaderState :=
  { state with events := state.events ++ [event] }

/-- The loop over the class names. -/
def instantiateAll (outcome : Nat → Instantiation) :
    Nat → List String → LoaderState → LoaderState
  | _, [], state => state
  | n, className :: rest, state =>
      let state := state.happens (.instantiate className)
      let state := match outcome n with
        | .constructed loader => { state with mPatchLoaders := state.mPatchLoaders ++ [loader] }
        | .invocationTarget cause => state.happens (.wtf cause)
        | .initializerError cause => state.happens (.wtf cause)
        | .failed _ => state
      instantiateAll outcome (n + 1) rest state

/-- `ExternalKernel.initPatchLoader`. -/
def initPatchLoader (state : LoaderState) (call : LoaderCall) : LoaderState :=
  match call.resource with
  | none => instantiateAll call.outcome 0 ["patch.Loader"] state
  | some (text, cut) =>
      let lines := readLines cut [] false text
      let state := match lines.2 with
        | some exception => state.happens (.wtf (some exception))
        | none => state
      instantiateAll call.outcome 0 (classNamesOf lines.1) state

/-- The loop of `initPatch`; `throws loader` is what the `loadPatch` of that loader
throws, if it does. -/
def notifyAll (throws : Nat → Option Throwable) : List Nat → LoaderState → LoaderState
  | [], state => state
  | loader :: rest, state =>
      let state := state.happens (.loadPatch loader)
      let state := match throws loader with
        | some throwable => state.happens (.wtf (some throwable))
        | none => state
      notifyAll throws rest state

/-- `ExternalKernel.initPatch`. -/
def initPatch (state : LoaderState) (throws : Nat → Option Throwable) : LoaderState :=
  notifyAll throws state.mPatchLoaders state

end LoaderState

/-! ## Occurrences -/

/-- A class name that was read, and how the attempt for it ends. -/
structure Occurrence where
  className : String
  outcome : Instantiation
deriving DecidableEq, Repr

/-- What happens for a name. -/
def Occurrence.events (occurrence : Occurrence) : List LoaderEvent :=
  .instantiate occurrence.className :: match occurrence.outcome with
    | .constructed _ => []
    | .invocationTarget cause => [.wtf cause]
    | .initializerError cause => [.wtf cause]
    | .failed _ => []

def Occurrence.loader (occurrence : Occurrence) : Option Nat :=
  match occurrence.outcome with
  | .constructed loader => some loader
  | _ => none

/-- What happens for a loader. -/
def noticeEvents (loader : Nat) (thrown : Option Throwable) : List LoaderEvent :=
  .loadPatch loader :: match thrown with
    | some throwable => [.wtf (some throwable)]
    | none => []

namespace LoaderCall

/-- The names of a call: the trimmed lines read before the cut that are neither
empty nor comments. -/
def classNames (call : LoaderCall) : List String :=
  match call.resource with
  | none => ["patch.Loader"]
  | some (text, cut) =>
      (((readLines cut [] false text).1.map trim).filter fun line =>
        ¬ (line = [] ∨ ['#'] <+: line)).map String.ofList

/-- The report on a text that was cut. -/
def cutEvents (call : LoaderCall) : List LoaderEvent :=
  match call.resource with
  | some (_, some exception) => [.wtf (some exception)]
  | _ => []

def occurrences (call : LoaderCall) : List Occurrence :=
  call.classNames.mapIdx fun n className => ⟨className, call.outcome n⟩

end LoaderCall

def LoaderEvent.attempted : LoaderEvent → Option String
  | .instantiate className => some className
  | _ => none

def LoaderEvent.loaded : LoaderEvent → Option Nat
  | .loadPatch loader => some loader
  | _ => none

/-! ## One loop at a time -/

theorem classNamesOf_eq (lines : List (List Char)) :
    classNamesOf lines = ((lines.map trim).filter fun line =>
      ¬ (line = [] ∨ ['#'] <+: line)).map String.ofList := by
  induction lines with
  | nil => rfl
  | cons line rest inductionHypothesis =>
      unfold classNamesOf
      by_cases skipped : trim line = [] ∨ ['#'] <+: trim line
      · simp only [if_pos skipped, List.map_cons]
        rw [List.filter_cons_of_neg (by simp [skipped]), inductionHypothesis]
      · simp only [if_neg skipped, List.map_cons]
        rw [List.filter_cons_of_pos (by simp [skipped]), List.map_cons, inductionHypothesis]

/-- The reading ends with the exception that cuts the text, and with it only. -/
theorem readLines_ended (cut : Option Throwable) (line : List Char) (skipLF : Bool)
    (text : List Char) : (readLines cut line skipLF text).2 = cut := by
  induction text generalizing line skipLF with
  | nil =>
      unfold readLines
      cases cut with
      | some exception => rfl
      | none =>
          dsimp only
          split_ifs
          · rfl
          · rfl
  | cons char rest inductionHypothesis =>
      unfold readLines
      split_ifs
      · exact inductionHypothesis line false
      · exact inductionHypothesis [] false
      · exact inductionHypothesis [] true
      · exact inductionHypothesis (line ++ [char]) false

/-- A cut costs the line that it interrupts, and no other. -/
theorem readLines_cut (exception : Throwable) (line : List Char) (skipLF : Bool)
    (text : List Char) :
    ∃ lost, (readLines none line skipLF text).1 =
      (readLines (some exception) line skipLF text).1 ++ lost ∧ lost.length ≤ 1 := by
  induction text generalizing line skipLF with
  | nil =>
      unfold readLines
      by_cases isEmpty : line = []
      · exact ⟨[], by simp [isEmpty], by simp⟩
      · exact ⟨[line], by simp [isEmpty], by simp⟩
  | cons char rest inductionHypothesis =>
      unfold readLines
      split_ifs
      · exact inductionHypothesis line false
      · obtain ⟨lost, isLost, atMostOne⟩ := inductionHypothesis [] false
        exact ⟨lost, by rw [isLost]; rfl, atMostOne⟩
      · obtain ⟨lost, isLost, atMostOne⟩ := inductionHypothesis [] true
        exact ⟨lost, by rw [isLost]; rfl, atMostOne⟩
      · exact inductionHypothesis (line ++ [char]) false

namespace LoaderState

theorem instantiateAll_eq (outcome : Nat → Instantiation) (names : List String) (n : Nat)
    (state : LoaderState) :
    let occurrences := names.mapIdx fun i className =>
      (⟨className, outcome (n + i)⟩ : Occurrence)
    instantiateAll outcome n names state =
      ⟨state.mPatchLoaders ++ occurrences.filterMap Occurrence.loader,
        state.events ++ occurrences.flatMap Occurrence.events⟩ := by
  induction names generalizing n state with
  | nil => simp [instantiateAll]
  | cons className rest inductionHypothesis =>
      have shift : ∀ i, n + 1 + i = n + (i + 1) := by omega
      unfold instantiateAll
      simp only [inductionHypothesis, List.mapIdx_cons, Nat.add_zero, shift]
      cases isOutcome : outcome n with
      | constructed loader =>
          simp [happens, Occurrence.events, Occurrence.loader]
      | invocationTarget cause =>
          simp [happens, Occurrence.events, Occurrence.loader, List.filterMap_cons]
      | initializerError cause =>
          simp [happens, Occurrence.events, Occurrence.loader, List.filterMap_cons]
      | failed throwable =>
          simp [happens, Occurrence.events, Occurrence.loader, List.filterMap_cons]

theorem notifyAll_eq (throws : Nat → Option Throwable) (loaders : List Nat)
    (state : LoaderState) :
    notifyAll throws loaders state =
      ⟨state.mPatchLoaders, state.events ++
        loaders.flatMap fun loader => noticeEvents loader (throws loader)⟩ := by
  induction loaders generalizing state with
  | nil => simp [notifyAll]
  | cons loader rest inductionHypothesis =>
      unfold notifyAll
      simp only [inductionHypothesis, List.flatMap_cons]
      cases thrown : throws loader with
      | none => simp [happens, noticeEvents]
      | some throwable => simp [happens, noticeEvents]

/-- **One call of `initPatchLoader`.** -/
theorem initPatchLoader_eq (state : LoaderState) (call : LoaderCall) :
    state.initPatchLoader call =
      ⟨state.mPatchLoaders ++ call.occurrences.filterMap Occurrence.loader,
        state.events ++ (call.cutEvents ++ call.occurrences.flatMap Occurrence.events)⟩ := by
  obtain ⟨resource, outcome⟩ := call
  unfold initPatchLoader LoaderCall.occurrences LoaderCall.classNames LoaderCall.cutEvents
  cases resource with
  | none => simp [instantiateAll_eq]
  | some delivered =>
      obtain ⟨text, cut⟩ := delivered
      simp only [instantiateAll_eq, readLines_ended, classNamesOf_eq, Nat.zero_add]
      cases cut with
      | none => simp
      | some exception => simp [happens]

theorem initPatchLoader_all (calls : List LoaderCall) (state : LoaderState) :
    calls.foldl initPatchLoader state =
      ⟨state.mPatchLoaders ++
          (calls.flatMap LoaderCall.occurrences).filterMap Occurrence.loader,
        state.events ++ calls.flatMap fun call =>
          call.cutEvents ++ call.occurrences.flatMap Occurrence.events⟩ := by
  induction calls generalizing state with
  | nil => simp
  | cons call rest inductionHypothesis =>
      rw [List.foldl_cons, inductionHypothesis, initPatchLoader_eq]
      simp [List.filterMap_append]

end LoaderState

/-! ## The whole run -/

theorem attempted_occurrence (occurrence : Occurrence) :
    occurrence.events.filterMap LoaderEvent.attempted = [occurrence.className] := by
  unfold Occurrence.events
  cases occurrence.outcome with
  | constructed loader => rfl
  | invocationTarget cause => rfl
  | initializerError cause => rfl
  | failed throwable => rfl

theorem loaded_occurrence (occurrence : Occurrence) :
    occurrence.events.filterMap LoaderEvent.loaded = [] := by
  unfold Occurrence.events
  cases occurrence.outcome with
  | constructed loader => rfl
  | invocationTarget cause => rfl
  | initializerError cause => rfl
  | failed throwable => rfl

theorem attempted_notice (loader : Nat) (thrown : Option Throwable) :
    (noticeEvents loader thrown).filterMap LoaderEvent.attempted = [] := by
  cases thrown with
  | none => rfl
  | some throwable => rfl

theorem loaded_notice (loader : Nat) (thrown : Option Throwable) :
    (noticeEvents loader thrown).filterMap LoaderEvent.loaded = [loader] := by
  cases thrown with
  | none => rfl
  | some throwable => rfl

theorem loaded_call (call : LoaderCall) :
    (call.cutEvents ++ call.occurrences.flatMap Occurrence.events).filterMap
      LoaderEvent.loaded = [] := by
  have cutLoadsNone : call.cutEvents.filterMap LoaderEvent.loaded = [] := by
    obtain ⟨_ | ⟨text, _ | exception⟩, outcome⟩ := call
    · rfl
    · rfl
    · rfl
  rw [List.filterMap_append, cutLoadsNone, List.nil_append, List.filterMap_flatMap]
  simp [loaded_occurrence]

theorem attempted_call (call : LoaderCall) :
    (call.cutEvents ++ call.occurrences.flatMap Occurrence.events).filterMap
      LoaderEvent.attempted = call.classNames := by
  have cutAttemptsNone : call.cutEvents.filterMap LoaderEvent.attempted = [] := by
    obtain ⟨_ | ⟨text, _ | exception⟩, outcome⟩ := call
    · rfl
    · rfl
    · rfl
  have named : call.occurrences.map Occurrence.className = call.classNames := by
    unfold LoaderCall.occurrences
    refine List.ext_getElem (by simp) fun n _ _ => ?_
    simp
  rw [List.filterMap_append, cutAttemptsNone, List.nil_append, List.filterMap_flatMap]
  simp only [attempted_occurrence]
  rw [← List.map_eq_flatMap, named]

/-- **`loadPatch` is called once per occurrence that was constructed, in order, and
nothing that fails is felt elsewhere.** The run is the concatenation of what each
call reports on its text, what happens for each occurrence of a name, and what
happens for each loader; each part depends on the outcome of that occurrence, or on
what that loader throws, and on nothing else. -/
theorem loadPatch_per_occurrence (calls : List LoaderCall) (throws : Nat → Option Throwable) :
    let occurrences := calls.flatMap LoaderCall.occurrences
    let loaders := occurrences.filterMap Occurrence.loader
    let final := (calls.foldl LoaderState.initPatchLoader .initial).initPatch throws
    final.events =
        (calls.flatMap fun call => call.cutEvents ++ call.occurrences.flatMap Occurrence.events) ++
          loaders.flatMap (fun loader => noticeEvents loader (throws loader)) ∧
      final.events.filterMap LoaderEvent.loaded = loaders ∧
      final.events.filterMap LoaderEvent.attempted = calls.flatMap LoaderCall.classNames := by
  intro occurrences loaders final
  have eventsAre : final.events =
      (calls.flatMap fun call => call.cutEvents ++ call.occurrences.flatMap Occurrence.events) ++
        loaders.flatMap (fun loader => noticeEvents loader (throws loader)) := by
    unfold final LoaderState.initPatch
    rw [LoaderState.notifyAll_eq, LoaderState.initPatchLoader_all]
    simp [LoaderState.initial, loaders, occurrences]
  refine ⟨eventsAre, ?_, ?_⟩
  · rw [eventsAre, List.filterMap_append, List.filterMap_flatMap, List.filterMap_flatMap]
    simp only [loaded_call, loaded_notice]
    rw [← List.map_eq_flatMap]
    simp
  · rw [eventsAre, List.filterMap_append, List.filterMap_flatMap, List.filterMap_flatMap]
    simp only [attempted_call, attempted_notice]
    simp

/-- A comment, a blank line and the line that the cut interrupts name nothing. -/
example : (LoaderCall.mk (some ("# names\n  a.B\r\n\nc.D\ne.F".toList, some (.other 0)))
    fun _ => .constructed 0).classNames = ["a.B", "c.D"] := by
  decide

end AndroidPatch.Lang
