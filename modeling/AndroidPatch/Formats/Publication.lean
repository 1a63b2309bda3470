import AndroidPatch.Library.Transactions
import AndroidPatch.Formats.Registration

/-!
Contract: formats that are added and removed while other threads print.

Owns:
- `FormatEntry.add` and `FormatEntry.remove` with their `synchronized` blocks, where the list
  is changed in place and the array is replaced at the end;
- `toString`, which reads the array without the monitor, finds at every moment the formats
  that stand after some sequence of whole calls.
-/

namespace AndroidPatch.Formats.Publication

open AndroidPatch.Library Code

/-- `mFormatList` -/
inductive ListMonitor where
  | mFormatList
deriving DecidableEq, Repr

variable {F : Type} (equality : FormatEquality F)

abbrev Operation (F A : Type) := Code (FormatRegistry F) ListMonitor A

/-- `mFormatList.remove(format)` -/
def removeFromList (format : F) : Operation F Unit :=
  call fun registry =>
    ((), { registry with mFormatList := removeFormat equality format registry.mFormatList })

/-- `mFormatList.add(0, format)` -/
def addToList (format : F) : Operation F Unit :=
  call fun registry => ((), { registry with mFormatList := format :: registry.mFormatList })

/-- `flush()`, which writes the volatile field once. -/
def publish : Operation F Unit :=
  call fun registry => ((), registry.flush)

/-- `FormatEntry.add` -/
def add : Option F → Operation F Unit
  | none => pure ()
  | some format => sync .mFormatList do
      removeFromList equality format
      addToList format
      publish

/-- `FormatEntry.remove` -/
def remove : Option F → Operation F Unit
  | none => pure ()
  | some format => sync .mFormatList do
      removeFromList equality format
      publish

def perform : RegistryCall F → Operation F Unit
  | .add format => add equality format
  | .remove format => remove equality format

/-- The calls of one thread. -/
def performAll : List (RegistryCall F) → Operation F Unit
  | [] => pure ()
  | request :: rest => do
      perform equality request
      performAll rest

def start {T : Type} (requests : T → List (RegistryCall F)) :
    System T (FormatRegistry F) ListMonitor where
  shared := .initial
  threads thread := ⟨[], performAll equality (requests thread)⟩

/-! ## Calls as transactions -/

def effect (request : RegistryCall F) (registry : FormatRegistry F) : FormatRegistry F :=
  registry.call equality request

/-- The array is the old one or the new one. -/
def Between (request : RegistryCall F) (before now : FormatRegistry F) : Prop :=
  now.mFormatArray = before.mFormatArray ∨
    now.mFormatArray = (effect equality request before).mFormatArray

/-- The calls that come to the monitor: with null there is nothing to do. -/
def effective (requests : List (RegistryCall F)) : List (RegistryCall F) :=
  requests.filter (·.format.isSome)

abbrev Transacting (plan : List (RegistryCall F) → Prop) (code : Operation F Unit) : Prop :=
  Transacts id .mFormatList (effect equality) (Between equality) plan none code

theorem transacts_add (format : Option F) :
    Transacting equality (· = effective [.add format]) (add equality format) := by
  cases format with
  | none => exact transacts_pure rfl
  | some format =>
      have isPlan : (fun labels => labels = effective [RegistryCall.add (some format)])
          [.add (some format)] := rfl
      refine transacts_sync_self isPlan ?_
      intro before
      refine ⟨.inl rfl, ?_⟩
      rintro state rfl
      refine ⟨.inl rfl, ?_⟩
      rintro now rfl
      refine ⟨.inl rfl, ?_⟩
      rintro now rfl
      exact ⟨.inr rfl, rfl⟩

theorem transacts_remove (format : Option F) :
    Transacting equality (· = effective [.remove format]) (remove equality format) := by
  cases format with
  | none => exact transacts_pure rfl
  | some format =>
      have isPlan : (fun labels => labels = effective [RegistryCall.remove (some format)])
          [.remove (some format)] := rfl
      refine transacts_sync_self isPlan ?_
      intro before
      refine ⟨.inl rfl, ?_⟩
      rintro state rfl
      refine ⟨.inl rfl, ?_⟩
      rintro now rfl
      exact ⟨.inr rfl, rfl⟩

theorem transacts_performAll (requests : List (RegistryCall F)) :
    Transacting equality (· = effective requests) (performAll equality requests) := by
  induction requests with
  | nil => exact transacts_pure rfl
  | cons request rest inductionHypothesis =>
      have first : Transacting equality (· = effective [request]) (perform equality request) := by
        cases request with
        | add format => exact transacts_add equality format
        | remove format => exact transacts_remove equality format
      refine first.bind ?_
      rintro _ rfl _
      apply inductionHypothesis.mono
      rintro _ rfl
      exact (List.filter_append [request] rest).symm

theorem replay_eq_run {T : Type} (trace : List (T × RegistryCall F)) :
    System.replay (effect equality) trace .initial =
      FormatRegistry.run equality (trace.map Prod.snd) := by
  unfold System.replay FormatRegistry.run
  rw [List.foldl_map]
  rfl

/-- The formats of the array, when all calls were made. -/
def arrayAfter (calls : List (RegistryCall F)) : List (Slot F) :=
  [.objectB, .iterableB, .mapB] ++ (standing equality calls).map .custom ++
    [.mapA, .iterableA, .objectA]

theorem mFormatArray_run (calls : List (RegistryCall F)) :
    (FormatRegistry.run equality calls).mFormatArray = arrayAfter equality calls := by
  rw [FormatRegistry.run_eq]
  rfl

/-- A thread that adds a format and another one that adds and removes it. -/
def addingTwice : System Bool (FormatRegistry Nat) ListMonitor :=
  start numberedFormats fun thread =>
    if thread then [.add (some 7)] else [.add (some 7), .remove (some 7)]

end AndroidPatch.Formats.Publication
