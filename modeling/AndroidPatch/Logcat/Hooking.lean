import AndroidPatch.Lang.Patchwork

/-!
Contract: `Logcat.hook` and `Logcat.unhook`, and the overriding methods of
`Lucy`, over one registry that other users share.

Owns:
- the state of all loggers and of the registry's other users;
- one call by any of them, with every failure of reflection and of the kernel;
- runs of such calls.

Class reflection hands out fresh `Member` objects: which objects a call sees is
part of the call. Another user holds the ids that `patch` returned to it and
recovers no others.
-/

namespace AndroidPatch.Logcat

open AndroidPatch.Library AndroidPatch.Lang

/-- `getDeclaredConstructors` followed by `getDeclaredMethods`: the executables a
class declares, in the order of reflection. -/
structure Reflection where
  declared : JavaClass → List Executable
  declaringClass : ∀ clazz, ∀ executable ∈ declared clazz,
    executable.declaringClass = clazz
  nodup : ∀ clazz, (declared clazz).Nodup

/-- What one `hook` call meets: the throwable of the reflective lookup, if it
throws, else the `Member` objects it returns; and what goes wrong while each of
them is patched. -/
structure Lookup where
  failure : Option Throwable
  copy : Executable → Nat
  faults : Executable → AddFaults

def Lookup.members (found : Lookup) (reflection : Reflection) (clazz : JavaClass) :
    List Member :=
  (reflection.declared clazz).map fun executable => ⟨executable, found.copy executable⟩

/-- The patch objects of the three kinds of users. -/
abbrev Plugin := { patch : Patch // patch.kind = .plugin }

abbrev Logger := { patch : Patch // patch.kind = .logcat }

abbrev LucyObject := { patch : Patch // patch.kind = .lucy }

/-- `mUnhooks` of every logger, the two sets of `Lucy`, and the ids that were
returned to other users, newest first. Sets are lists without duplicates, in
their iteration order. -/
structure Framework where
  patchwork : Patchwork
  mUnhooks : Patch → AList (fun _ : JavaClass => List Int64)
  mIgnored : List String
  mHooking : List JavaClass
  userIds : List Int64

/-- `String.startsWith`. -/
def startsWith (text packageName : String) : Bool :=
  packageName.toList.isPrefixOf text.toList

def isPatchError : Throwable → Bool
  | .patchError _ => true
  | .patchErrorOf _ => true
  | _ => false

/-- The result of `Patchwork.patch` for every member of a class. -/
abbrev HookResults := List (Member × Except Throwable Int64)

/-- The ids a `hook` call collects. -/
def unhooks (results : HookResults) : List Int64 :=
  results.filterMap fun result => result.2.toOption

/-- An id collected by a `hook` call stands for a member it patched. -/
theorem mem_unhooks_iff {results : HookResults} {id : Int64} :
    id ∈ unhooks results ↔ ∃ member, (member, .ok id) ∈ results := by
  unfold unhooks
  rw [List.mem_filterMap]
  constructor
  · rintro ⟨⟨member, result⟩, present, isId⟩
    cases result with
    | error => exact nomatch isId
    | ok other =>
        cases isId
        exact ⟨member, present⟩
  · rintro ⟨member, present⟩
    exact ⟨_, present, rfl⟩

/-- The loop over the members in `Logcat.hook`; a `PatchError` is ignored. -/
def patchMembers (self : Patch) (faults : Executable → AddFaults) :
    List Member → Patchwork → Except Throwable HookResults × Patchwork
  | [], state => (.ok [], state)
  | member :: rest, state =>
      let (result, state) := state.patch (some member) (some self) (faults member.executable)
      match result with
      | .ok id =>
          match patchMembers self faults rest state with
          | (.ok results, state) => (.ok ((member, .ok id) :: results), state)
          | (.error throwable, state) => (.error throwable, state)
      | .error throwable =>
          if isPatchError throwable then
            match patchMembers self faults rest state with
            | (.ok results, state) => (.ok ((member, .error throwable) :: results), state)
            | (.error throwable, state) => (.error throwable, state)
          else
            (.error throwable, state)

/-- The loop over the ids in `Logcat.unhook`. -/
def recoverIds : List Int64 → Patchwork → Except Throwable Unit × Patchwork
  | [], state => (.ok (), state)
  | id :: rest, state =>
      match state.recover id with
      | (.ok _, state) => recoverIds rest state
      | (.error throwable, state) => (.error throwable, state)

/-- How a `hook` call ended. -/
inductive HookAnswer where
  | returned
  | created (results : HookResults)
  | threw (throwable : Throwable)

namespace Framework

def setUnhooks (state : Framework) (self : Patch)
    (entries : AList (fun _ : JavaClass => List Int64)) : Framework :=
  { state with mUnhooks := Function.update state.mUnhooks self entries }

/-- `Logcat.hook` on the logger `self`. -/
def hook (reflection : Reflection) (self : Patch) (clazz : Option JavaClass)
    (found : Lookup) (state : Framework) : HookAnswer × Framework :=
  match clazz with
  | none => (.returned, state)
  | some clazz =>
      if clazz ∈ state.mUnhooks self then
        (.returned, state)
      else
        match found.failure with
        | some throwable => (.threw throwable, state)
        | none =>
            match patchMembers self found.faults (found.members reflection clazz)
                state.patchwork with
            | (.error throwable, patchwork) =>
                (.threw throwable, { state with patchwork := patchwork })
            | (.ok results, patchwork) =>
                (.created results,
                  { state with patchwork := patchwork }.setUnhooks self
                    ((state.mUnhooks self).insert clazz (unhooks results)))

/-- `Logcat.unhook` on the logger `self`. -/
def unhook (self : Patch) (clazz : Option JavaClass) (state : Framework) :
    Except Throwable Unit × Framework :=
  match clazz with
  | none => (.ok (), state)
  | some clazz =>
      match (state.mUnhooks self).lookup clazz with
      | none => (.ok (), state)
      | some ids =>
          let state := state.setUnhooks self ((state.mUnhooks self).erase clazz)
          let (result, patchwork) := recoverIds ids state.patchwork
          (result, { state with patchwork := patchwork })

/-- `Lucy.unhook`. -/
def lucyUnhook (lucy : Patch) (clazz : Option JavaClass) (state : Framework) :
    Except Throwable Unit × Framework :=
  match clazz with
  | none => (.ok (), state)
  | some clazz =>
      match state.unhook lucy (some clazz) with
      | (.error throwable, state) => (.error throwable, state)
      | (.ok (), state) => (.ok (), { state with mHooking := state.mHooking.erase clazz })

/-- `Lucy.hook`. The class is recorded before the superclass method runs. -/
def lucyHook (reflection : Reflection) (lucy : Patch) (clazz : Option JavaClass)
    (found : Lookup) (state : Framework) : HookAnswer × Framework :=
  match clazz with
  | none => (.returned, state)
  | some clazz =>
      if state.mIgnored.any (startsWith clazz.name) then
        (.returned, state)
      else
        { state with mHooking := state.mHooking.insert clazz }.hook reflection lucy
          (some clazz) found

/-- The loop of `Lucy.ignore` over a copy of `mHooking`. -/
def unhookIgnored (lucy : Patch) (packageName : String) :
    List JavaClass → Framework → Except Throwable Unit × Framework
  | [], state => (.ok (), state)
  | clazz :: rest, state =>
      if startsWith clazz.name packageName then
        match state.lucyUnhook lucy (some clazz) with
        | (.error throwable, state) => (.error throwable, state)
        | (.ok (), state) => unhookIgnored lucy packageName rest state
      else
        unhookIgnored lucy packageName rest state

/-- `Lucy.ignore`. -/
def ignore (lucy : Patch) (packageName : Option String) (state : Framework) :
    Except Throwable Unit × Framework :=
  match packageName with
  | none => (.ok (), state)
  | some packageName =>
      unhookIgnored lucy packageName state.mHooking
        { state with mIgnored := state.mIgnored.insert packageName }

/-! ## Runs -/

/-- One call by any user of the framework. `recover` is the recovery of one of
the ids the other users hold. -/
inductive Op where
  | hook (logger : Logger) (clazz : Option JavaClass) (found : Lookup)
  | unhook (logger : Logger) (clazz : Option JavaClass)
  | lucyIgnore (packageName : Option String)
  | lucyHook (clazz : Option JavaClass) (found : Lookup)
  | lucyUnhook (clazz : Option JavaClass)
  | patch (member : Option Member) (plugin : Plugin) (faults : AddFaults)
  | recover (position : Nat)

inductive Answer where
  | hooked (answer : HookAnswer)
  | finished (result : Except Throwable Unit)
  | patched (result : Except Throwable Int64)
  | recovered (result : Except Throwable Bool)
  | notHeld

def step (reflection : Reflection) (lucy : LucyObject) (state : Framework) :
    Op → Answer × Framework
  | .hook logger clazz found =>
      let (answer, state) := state.hook reflection logger.val clazz found
      (.hooked answer, state)
  | .unhook logger clazz =>
      let (result, state) := state.unhook logger.val clazz
      (.finished result, state)
  | .lucyIgnore packageName =>
      let (result, state) := state.ignore lucy.val packageName
      (.finished result, state)
  | .lucyHook clazz found =>
      let (answer, state) := state.lucyHook reflection lucy.val clazz found
      (.hooked answer, state)
  | .lucyUnhook clazz =>
      let (result, state) := state.lucyUnhook lucy.val clazz
      (.finished result, state)
  | .patch member plugin faults =>
      match state.patchwork.patch member (some plugin.val) faults with
      | (.ok id, patchwork) =>
          (.patched (.ok id),
            { state with patchwork := patchwork, userIds := id :: state.userIds })
      | (.error throwable, patchwork) =>
          (.patched (.error throwable), { state with patchwork := patchwork })
  | .recover position =>
      match state.userIds[position]? with
      | none => (.notHeld, state)
      | some id =>
          let (result, patchwork) := state.patchwork.recover id
          (.recovered result, { state with patchwork := patchwork })

def initial : Framework where
  patchwork := .provided
  mUnhooks := fun _ => ∅
  mIgnored := []
  mHooking := []
  userIds := []

/-- The state after a sequence of calls. -/
def after (reflection : Reflection) (lucy : LucyObject) (ops : List Op) : Framework :=
  run (step reflection lucy) initial ops

/-- The calls of a sequence with their answers. -/
def past (reflection : Reflection) (lucy : LucyObject) (ops : List Op) :
    List (Op × Answer) :=
  history (step reflection lucy) initial ops

end Framework

/-! ## Objects for concrete runs -/

/-- Every class declares one method. -/
def Reflection.oneMethod : Reflection where
  declared := fun clazz => [.method clazz "run" .void []]
  declaringClass := by simp [Executable.declaringClass]
  nodup := by simp

/-- Nothing goes wrong. -/
def Lookup.quiet : Lookup := ⟨none, fun _ => 0, fun _ => .none⟩

def Logger.sample : Logger := ⟨⟨⟨3, 2147483647, 7, 3⟩, .logcat⟩, rfl⟩

def LucyObject.sample : LucyObject := ⟨⟨⟨4, 2147483647, 7, 4⟩, .lucy⟩, rfl⟩

def Plugin.sample : Plugin := ⟨.sample 1, rfl⟩

end AndroidPatch.Logcat
