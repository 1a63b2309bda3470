import Mathlib.Data.Fintype.EquivFin
import Mathlib.Order.Fin.Basic
import AndroidPatch.Library.Monitor
import AndroidPatch.Logcat.Hooking

/-!
Contract: the operations as threads run them, with their `synchronized` blocks.

Owns:
- the code of every operation down to the accesses it makes under its monitors;
- run by one thread alone it is the operation that the other modules are about;
- the order of the monitors, which the source leaves implicit, and that all
  operations keep it;
- no interleaving of any number of threads deadlocks.

`hookMember` and class reflection are single accesses: they do not call back.
-/

namespace AndroidPatch.Logcat

open AndroidPatch.Library AndroidPatch.Lang

/-- The objects that are synchronized on. -/
inductive Monitor where
  | mIgnored
  | mHooking
  | mUnhooks (logger : Patch)
  | patchworkClass
  | mMemberMapping
  | patches (struct : StructRef)
deriving DecidableEq

namespace Synchronized

open Code

abbrev Operation (A : Type) := Code Framework Monitor A

/-- An access to the object in the field `externalKernel`. -/
def onKernel {A : Type} (function : Kernel → Except Throwable A × Kernel) :
    Operation (Except Throwable A) :=
  call fun state =>
    match state.patchwork.externalKernel with
    | none => (.error .nullPointer, state)
    | some kernel =>
        ((function kernel).1,
          { state with
            patchwork := { state.patchwork with externalKernel := some (function kernel).2 } })

/-- The field `externalKernel` is not null. -/
def provided : Operation Bool :=
  call fun state => (state.patchwork.externalKernel.isSome, state)

/-- `ExternalKernel.addPatch`. -/
def addPatch (member : Member) (patch : Patch) (faults : AddFaults) :
    Operation (Except Throwable Unit) := do
  let found ← sync .mMemberMapping (onKernel fun kernel => kernel.structFor member faults.hook)
  match found with
  | .error throwable => pure (.error throwable)
  | .ok struct =>
      sync (.patches struct) (onKernel fun kernel => kernel.addToStruct struct patch faults.sort)

/-- `ExternalKernel.removePatch`. -/
def removePatch (member : Member) (patch : Patch) : Operation (Except Throwable Unit) := do
  let found ← sync .mMemberMapping
    (onKernel fun kernel => (.ok (kernel.val.mMemberMapping.lookup member.executable), kernel))
  match found with
  | .error throwable => pure (.error throwable)
  | .ok none => pure (.ok ())
  | .ok (some struct) =>
      sync (.patches struct) (onKernel fun kernel => kernel.removeFromStruct struct patch)

/-- `pairs.put(++count, ..)`. -/
def putPair (member : Member) (patch : Patch) : Operation Int64 :=
  call fun state =>
    let count := state.patchwork.count + 1
    (count, { state with
      patchwork := { state.patchwork with
        count := count
        pairs := state.patchwork.pairs.insert count (member, patch) } })

/-- `Patchwork.patch`. -/
def patch (member : Option Member) (patch : Option Patch) (faults : AddFaults) :
    Operation (Except Throwable Int64) :=
  sync .patchworkClass <|
    match member, patch with
    | none, _ => pure (.error (.illegalArgument "member cannot be null"))
    | some _, none => pure (.error (.illegalArgument "patch cannot be null"))
    | some member, some patch => do
        let existing ← call fun state => (state.patchwork.findPair member patch, state)
        match existing with
        | some id => pure (.ok id)
        | none =>
            if ← provided then
              match ← addPatch member patch faults with
              | .error throwable => pure (.error (asPatchError throwable))
              | .ok () => .ok <$> putPair member patch
            else
              pure (.error (asPatchError .nullPointer))

/-- `pairs.remove(id)`. -/
def removePair (id : Int64) : Operation (Option (Member × Patch)) :=
  call fun state =>
    (state.patchwork.pairs.lookup id, { state with
      patchwork := { state.patchwork with pairs := state.patchwork.pairs.erase id } })

/-- `Patchwork.recover`. -/
def recover (id : Int64) : Operation (Except Throwable Bool) :=
  sync .patchworkClass do
    match ← removePair id with
    | none => pure (.ok false)
    | some (member, patch) =>
        if ← provided then
          match ← removePatch member patch with
          | .error throwable => pure (.error (asPatchError throwable))
          | .ok () => pure (.ok true)
        else
          pure (.error (asPatchError .nullPointer))

/-- The loop over the members in `Logcat.hook`. -/
def patchMembers (self : Patch) (faults : Executable → AddFaults) :
    List Member → Operation (Except Throwable HookResults)
  | [] => pure (.ok [])
  | member :: rest => do
      match ← patch (some member) (some self) (faults member.executable) with
      | .ok id =>
          match ← patchMembers self faults rest with
          | .ok results => pure (.ok ((member, .ok id) :: results))
          | .error throwable => pure (.error throwable)
      | .error throwable =>
          if isPatchError throwable then
            match ← patchMembers self faults rest with
            | .ok results => pure (.ok ((member, .error throwable) :: results))
            | .error throwable => pure (.error throwable)
          else
            pure (.error throwable)

/-- `Logcat.hook`. -/
def hook (reflection : Reflection) (self : Patch) (clazz : Option JavaClass)
    (found : Lookup) : Operation HookAnswer :=
  match clazz with
  | none => pure .returned
  | some clazz =>
      sync (.mUnhooks self) do
        let contains ← call fun state => (decide (clazz ∈ state.mUnhooks self), state)
        if contains then
          pure .returned
        else
          match found.failure with
          | some throwable => pure (.threw throwable)
          | none =>
              match ← patchMembers self found.faults (found.members reflection clazz) with
              | .error throwable => pure (.threw throwable)
              | .ok results =>
                  call fun state =>
                    (.created results, state.setUnhooks self
                      ((state.mUnhooks self).insert clazz (unhooks results)))

/-- The loop over the ids in `Logcat.unhook`. -/
def recoverIds : List Int64 → Operation (Except Throwable Unit)
  | [] => pure (.ok ())
  | id :: rest => do
      match ← recover id with
      | .ok _ => recoverIds rest
      | .error throwable => pure (.error throwable)

/-- `Logcat.unhook`. -/
def unhook (self : Patch) (clazz : Option JavaClass) : Operation (Except Throwable Unit) :=
  match clazz with
  | none => pure (.ok ())
  | some clazz =>
      sync (.mUnhooks self) do
        let removed ← call fun state =>
          match (state.mUnhooks self).lookup clazz with
          | none => (none, state)
          | some ids =>
              (some ids, state.setUnhooks self ((state.mUnhooks self).erase clazz))
        match removed with
        | none => pure (.ok ())
        | some ids => recoverIds ids

/-- `Lucy.unhook`. -/
def lucyUnhook (lucy : Patch) (clazz : Option JavaClass) :
    Operation (Except Throwable Unit) :=
  match clazz with
  | none => pure (.ok ())
  | some clazz =>
      sync .mHooking do
        match ← unhook lucy (some clazz) with
        | .error throwable => pure (.error throwable)
        | .ok () =>
            call fun state => (.ok (), { state with mHooking := state.mHooking.erase clazz })

/-- `Lucy.hook`. -/
def lucyHook (reflection : Reflection) (lucy : Patch) (clazz : Option JavaClass)
    (found : Lookup) : Operation HookAnswer :=
  match clazz with
  | none => pure .returned
  | some clazz =>
      sync .mIgnored <| sync .mHooking do
        let ignored ← call fun state =>
          (state.mIgnored.any (startsWith clazz.name), state)
        if ignored then
          pure .returned
        else
          call fun state => ((), { state with mHooking := state.mHooking.insert clazz })
          hook reflection lucy (some clazz) found

/-- The loop of `Lucy.ignore`. -/
def unhookIgnored (lucy : Patch) (packageName : String) :
    List JavaClass → Operation (Except Throwable Unit)
  | [] => pure (.ok ())
  | clazz :: rest =>
      if startsWith clazz.name packageName then do
        match ← lucyUnhook lucy (some clazz) with
        | .error throwable => pure (.error throwable)
        | .ok () => unhookIgnored lucy packageName rest
      else
        unhookIgnored lucy packageName rest

/-- `Lucy.ignore`. -/
def ignore (lucy : Patch) (packageName : Option String) :
    Operation (Except Throwable Unit) :=
  match packageName with
  | none => pure (.ok ())
  | some packageName =>
      sync .mIgnored <| sync .mHooking do
        let classes ← call fun state =>
          (state.mHooking, { state with mIgnored := state.mIgnored.insert packageName })
        unhookIgnored lucy packageName classes

/-- One call by any user of the framework. -/
def perform (reflection : Reflection) (lucy : LucyObject) :
    Framework.Op → Operation Framework.Answer
  | .hook logger clazz found => .hooked <$> hook reflection logger.val clazz found
  | .unhook logger clazz => .finished <$> unhook logger.val clazz
  | .lucyIgnore packageName => .finished <$> ignore lucy.val packageName
  | .lucyHook clazz found => .hooked <$> lucyHook reflection lucy.val clazz found
  | .lucyUnhook clazz => .finished <$> lucyUnhook lucy.val clazz
  | .patch member plugin faults => do
      match ← patch member (some plugin.val) faults with
      | .ok id =>
          call fun state => (.patched (.ok id), { state with userIds := id :: state.userIds })
      | .error throwable => pure (.patched (.error throwable))
  | .recover position => do
      let held ← call fun state => (state.userIds[position]?, state)
      match held with
      | none => pure .notHeld
      | some id => .recovered <$> recover id

/-- What a thread calls: an operation of the framework, or the registry itself
with any arguments. -/
inductive Request where
  | call (op : Framework.Op)
  | patch (member : Option Member) (patch : Option Patch) (faults : AddFaults)
  | recover (id : Int64)

/-- The calls of one thread, one after the other, whether they throw or not. -/
def performAll (reflection : Reflection) (lucy : LucyObject) :
    List Request → Operation Unit
  | [] => pure ()
  | .call op :: rest => do
      let _ ← perform reflection lucy op
      performAll reflection lucy rest
  | .patch member self faults :: rest => do
      let _ ← patch member self faults
      performAll reflection lucy rest
  | .recover id :: rest => do
      let _ ← recover id
      performAll reflection lucy rest

/-! ## One thread alone -/

theorem alone_onKernel {A : Type} (function : Kernel → Except Throwable A × Kernel)
    {state : Framework} {kernel : Kernel}
    (isKernel : state.patchwork.externalKernel = some kernel) :
    (onKernel function).alone state =
      ((function kernel).1, { state with
        patchwork := { state.patchwork with externalKernel := some (function kernel).2 } }) := by
  unfold onKernel
  rw [alone_call]
  simp only [isKernel]

theorem alone_addPatch {state : Framework} {kernel : Kernel}
    (isKernel : state.patchwork.externalKernel = some kernel) (member : Member)
    (patch : Patch) (faults : AddFaults) :
    (addPatch member patch faults).alone state =
      ((kernel.addPatch member patch faults).1, { state with
        patchwork := { state.patchwork with
          externalKernel := some (kernel.addPatch member patch faults).2 } }) := by
  unfold addPatch
  rw [alone_bind, alone_sync, alone_onKernel _ isKernel, Kernel.addPatch_eq]
  cases found : (kernel.structFor member faults.hook).1 with
  | error throwable => rfl
  | ok struct =>
      simp only [alone_sync]
      rw [alone_onKernel _ rfl]

theorem alone_removePatch {state : Framework} {kernel : Kernel}
    (isKernel : state.patchwork.externalKernel = some kernel) (member : Member)
    (patch : Patch) :
    (removePatch member patch).alone state =
      ((kernel.removePatch member patch).1, { state with
        patchwork := { state.patchwork with
          externalKernel := some (kernel.removePatch member patch).2 } }) := by
  unfold removePatch
  rw [alone_bind, alone_sync, alone_onKernel _ isKernel, Kernel.removePatch_eq]
  cases kernel.val.mMemberMapping.lookup member.executable with
  | none => rfl
  | some struct =>
      simp only [alone_sync]
      rw [alone_onKernel _ rfl]

theorem alone_patch (state : Framework) (member : Option Member) (self : Option Patch)
    (faults : AddFaults) :
    (patch member self faults).alone state =
      ((state.patchwork.patch member self faults).1,
        { state with patchwork := (state.patchwork.patch member self faults).2 }) := by
  unfold patch
  rw [alone_sync]
  rcases member with _ | member
  · rfl
  rcases self with _ | self
  · rfl
  simp only [alone_bind, alone_call, Patchwork.patch]
  cases state.patchwork.findPair member self with
  | some id => rfl
  | none =>
      simp only [alone_bind, provided, alone_call]
      rcases Option.eq_none_or_eq_some state.patchwork.externalKernel with
        isKernel | ⟨kernel, isKernel⟩
      · simp only [isKernel]
        rfl
      · simp only [isKernel, Option.isSome_some, if_true, alone_bind,
          alone_addPatch isKernel]
        cases outcome : kernel.addPatch member self faults with
        | mk result kernel' =>
            cases result with
            | error throwable => rfl
            | ok _ => rfl

theorem alone_recover (state : Framework) (id : Int64) :
    (recover id).alone state =
      ((state.patchwork.recover id).1,
        { state with patchwork := (state.patchwork.recover id).2 }) := by
  unfold recover
  rw [alone_sync, alone_bind, removePair, alone_call]
  unfold Patchwork.recover
  cases live : state.patchwork.pairs.lookup id with
  | none =>
      have absent : id ∉ state.patchwork.pairs := AList.lookup_eq_none.mp live
      have unchanged : state.patchwork.pairs.erase id = state.patchwork.pairs :=
        AList.ext (List.kerase_of_notMem_keys absent)
      simp only [unchanged, alone_pure]
  | some pair =>
      obtain ⟨member, patch⟩ := pair
      simp only [alone_bind, provided, alone_call]
      rcases Option.eq_none_or_eq_some state.patchwork.externalKernel with
        isKernel | ⟨kernel, isKernel⟩
      · simp only [isKernel]
        rfl
      · simp only [isKernel, Option.isSome_some, if_true, alone_bind]
        rw [alone_removePatch rfl]
        cases outcome : kernel.removePatch member patch with
        | mk result kernel' =>
            cases result with
            | error throwable => rfl
            | ok _ => rfl

theorem alone_patchMembers (self : Patch) (faults : Executable → AddFaults)
    (members : List Member) (state : Framework) :
    (patchMembers self faults members).alone state =
      ((Logcat.patchMembers self faults members state.patchwork).1,
        { state with
          patchwork := (Logcat.patchMembers self faults members state.patchwork).2 }) := by
  induction members generalizing state with
  | nil => rfl
  | cons member rest inductionHypothesis =>
      simp only [patchMembers, Logcat.patchMembers, alone_bind, alone_patch]
      cases state.patchwork.patch (some member) (some self) (faults member.executable) with
      | mk result between =>
          have later := inductionHypothesis { state with patchwork := between }
          cases result with
          | ok id =>
              simp only [alone_bind, later]
              cases Logcat.patchMembers self faults rest between with
              | mk results final =>
                  cases results with
                  | ok => rfl
                  | error => rfl
          | error throwable =>
              by_cases isError : isPatchError throwable
              · simp only [isError, if_true, alone_bind, later]
                cases Logcat.patchMembers self faults rest between with
                | mk results final =>
                    cases results with
                    | ok => rfl
                    | error => rfl
              · simp only [isError]
                rfl

theorem alone_hook (reflection : Reflection) (self : Patch) (clazz : Option JavaClass)
    (found : Lookup) (state : Framework) :
    (hook reflection self clazz found).alone state =
      state.hook reflection self clazz found := by
  cases clazz with
  | none => rfl
  | some clazz =>
      simp only [hook, Framework.hook, alone_sync, alone_bind, alone_call, decide_eq_true_eq]
      by_cases contains : clazz ∈ state.mUnhooks self
      · simp only [if_pos contains]
        rfl
      · simp only [if_neg contains]
        cases found.failure with
        | some throwable => rfl
        | none =>
            simp only [alone_bind, alone_patchMembers]
            cases Logcat.patchMembers self found.faults (found.members reflection clazz)
                state.patchwork with
            | mk results patchwork =>
                cases results with
                | error => rfl
                | ok => rfl

theorem alone_recoverIds (ids : List Int64) (state : Framework) :
    (recoverIds ids).alone state =
      ((Logcat.recoverIds ids state.patchwork).1,
        { state with patchwork := (Logcat.recoverIds ids state.patchwork).2 }) := by
  induction ids generalizing state with
  | nil => rfl
  | cons id rest inductionHypothesis =>
      simp only [recoverIds, Logcat.recoverIds, alone_bind, alone_recover]
      cases state.patchwork.recover id with
      | mk result between =>
          cases result with
          | ok => exact inductionHypothesis { state with patchwork := between }
          | error => rfl

theorem alone_unhook (self : Patch) (clazz : Option JavaClass) (state : Framework) :
    (unhook self clazz).alone state = state.unhook self clazz := by
  cases clazz with
  | none => rfl
  | some clazz =>
      simp only [unhook, Framework.unhook, alone_sync, alone_bind, alone_call]
      cases (state.mUnhooks self).lookup clazz with
      | none => rfl
      | some ids => exact alone_recoverIds ids _

theorem alone_lucyUnhook (lucy : Patch) (clazz : Option JavaClass) (state : Framework) :
    (lucyUnhook lucy clazz).alone state = state.lucyUnhook lucy clazz := by
  cases clazz with
  | none => rfl
  | some clazz =>
      simp only [lucyUnhook, Framework.lucyUnhook, alone_sync, alone_bind, alone_unhook]
      cases state.unhook lucy (some clazz) with
      | mk result final =>
          cases result with
          | ok => rfl
          | error => rfl

theorem alone_lucyHook (reflection : Reflection) (lucy : Patch) (clazz : Option JavaClass)
    (found : Lookup) (state : Framework) :
    (lucyHook reflection lucy clazz found).alone state =
      state.lucyHook reflection lucy clazz found := by
  cases clazz with
  | none => rfl
  | some clazz =>
      simp only [lucyHook, Framework.lucyHook, alone_sync, alone_bind, alone_call]
      by_cases ignored : state.mIgnored.any (startsWith clazz.name)
      · simp only [ignored, if_true]
        rfl
      · simp only [ignored, Bool.false_eq_true, if_false, alone_bind, alone_call, alone_hook]

theorem alone_unhookIgnored (lucy : Patch) (packageName : String)
    (classes : List JavaClass) (state : Framework) :
    (unhookIgnored lucy packageName classes).alone state =
      state.unhookIgnored lucy packageName classes := by
  induction classes generalizing state with
  | nil => rfl
  | cons clazz rest inductionHypothesis =>
      unfold unhookIgnored Framework.unhookIgnored
      by_cases starts : startsWith clazz.name packageName
      · simp only [starts, if_true, alone_bind, alone_lucyUnhook]
        cases state.lucyUnhook lucy (some clazz) with
        | mk result final =>
            cases result with
            | ok => exact inductionHypothesis final
            | error => rfl
      · simp only [starts, Bool.false_eq_true, if_false]
        exact inductionHypothesis state

theorem alone_ignore (lucy : Patch) (packageName : Option String) (state : Framework) :
    (ignore lucy packageName).alone state = state.ignore lucy packageName := by
  cases packageName with
  | none => rfl
  | some packageName =>
      simp only [ignore, Framework.ignore, alone_sync, alone_bind, alone_call]
      exact alone_unhookIgnored lucy packageName _ _

/-- **One thread alone performs the calls of the sequential model.** -/
theorem alone_perform (reflection : Reflection) (lucy : LucyObject) (op : Framework.Op)
    (state : Framework) :
    (perform reflection lucy op).alone state = state.step reflection lucy op := by
  cases op with
  | hook logger clazz found => simp only [perform, alone_map, alone_hook, Framework.step]
  | unhook logger clazz => simp only [perform, alone_map, alone_unhook, Framework.step]
  | lucyIgnore packageName => simp only [perform, alone_map, alone_ignore, Framework.step]
  | lucyHook clazz found => simp only [perform, alone_map, alone_lucyHook, Framework.step]
  | lucyUnhook clazz => simp only [perform, alone_map, alone_lucyUnhook, Framework.step]
  | patch member plugin faults =>
      simp only [perform, Framework.step, alone_bind, alone_patch]
      cases state.patchwork.patch member (some plugin.val) faults with
      | mk result patchwork =>
          cases result with
          | ok => rfl
          | error => rfl
  | recover position =>
      simp only [perform, Framework.step, alone_bind, alone_call]
      cases state.userIds[position]? with
      | none => rfl
      | some id => simp only [alone_map, alone_recover]

theorem alone_performAll (reflection : Reflection) (lucy : LucyObject)
    (ops : List Framework.Op) (state : Framework) :
    ((performAll reflection lucy (ops.map .call)).alone state).2 =
      run (Framework.step reflection lucy) state ops := by
  induction ops generalizing state with
  | nil => rfl
  | cons op rest inductionHypothesis =>
      simp only [List.map_cons, performAll, run, alone_bind, alone_perform]
      exact inductionHypothesis _

/-! ## The order of the monitors -/

/-- The order in which the operations enter monitors. Two loggers, or two sets of
patches, are never entered one inside the other. -/
def rank : Monitor → Fin 6
  | .mIgnored => 0
  | .mHooking => 1
  | .mUnhooks _ => 2
  | .patchworkClass => 3
  | .mMemberMapping => 4
  | .patches _ => 5

/-- All monitors held rank below the level. -/
def Below (level : Fin 6) (held : List Monitor) : Prop :=
  ∀ monitor ∈ held, rank monitor < level

theorem Below.trans {level higher : Fin 6} {held : List Monitor} (below : Below level held)
    (less : level < higher) : Below higher held :=
  fun monitor isHeld => lt_trans (below monitor isHeld) less

/-- What is held inside a block. -/
theorem Below.inside {level : Fin 6} {held : List Monitor} {monitor : Monitor}
    (below : Below (rank monitor) held) (less : rank monitor < level) :
    Below level (monitor :: held) := by
  intro other isHeld
  rcases List.mem_cons.mp isHeld with same | earlier
  · rw [same]
    exact less
  · exact below.trans less other earlier

instance (level : Fin 6) (held : List Monitor) : Decidable (Below level held) :=
  inferInstanceAs (Decidable (∀ monitor ∈ held, rank monitor < level))

theorem rank_mUnhooks_lt {logger : Patch} :
    rank (.mUnhooks logger) < rank .patchworkClass := by
  change (2 : Fin 6) < 3
  decide

theorem rank_lt_patches {struct : StructRef} :
    rank .mMemberMapping < rank (.patches struct) := by
  change (4 : Fin 6) < 5
  decide

theorem disciplined_sync {A : Type} {held : List Monitor} {monitor : Monitor}
    {body : Operation A} (below : Below (rank monitor) held)
    (disciplined : Disciplined rank (monitor :: held) (monitor :: held) body) :
    Disciplined rank held held (sync monitor body) :=
  Disciplined.sync (Or.inr below) disciplined

section Discipline

variable {held : List Monitor}

theorem disciplined_onKernel {A : Type}
    (function : Kernel → Except Throwable A × Kernel) :
    Disciplined rank held held (onKernel function) :=
  disciplined_call held _

theorem disciplined_addPatch (below : Below (rank .mMemberMapping) held) (member : Member) (patch : Patch)
    (faults : AddFaults) :
    Disciplined rank held held (addPatch member patch faults) := by
  apply Disciplined.bind (disciplined_sync below (disciplined_onKernel _))
  intro found
  cases found with
  | error throwable => exact disciplined_pure held _
  | ok struct =>
      exact disciplined_sync (below.trans rank_lt_patches) (disciplined_onKernel _)

theorem disciplined_removePatch (below : Below (rank .mMemberMapping) held) (member : Member) (patch : Patch) :
    Disciplined rank held held (removePatch member patch) := by
  apply Disciplined.bind (disciplined_sync below (disciplined_onKernel _))
  intro found
  rcases found with throwable | _ | struct
  · exact disciplined_pure held _
  · exact disciplined_pure held _
  · exact disciplined_sync (below.trans rank_lt_patches) (disciplined_onKernel _)

theorem disciplined_patch (below : Below (rank .patchworkClass) held) (member : Option Member)
    (self : Option Patch) (faults : AddFaults) :
    Disciplined rank held held (patch member self faults) := by
  have inside : Below (rank .mMemberMapping) (.patchworkClass :: held) :=
    Below.inside below (by decide)
  apply disciplined_sync below
  rcases member with _ | member
  · exact disciplined_pure _ _
  rcases self with _ | self
  · exact disciplined_pure _ _
  apply Disciplined.bind (disciplined_call _ _)
  intro existing
  cases existing with
  | some id => exact disciplined_pure _ _
  | none =>
      apply Disciplined.bind (disciplined_call _ _)
      intro isProvided
      cases isProvided with
      | false => exact disciplined_pure _ _
      | true =>
          apply Disciplined.bind (disciplined_addPatch inside member self faults)
          intro added
          cases added with
          | error throwable => exact disciplined_pure _ _
          | ok => exact (disciplined_call _ _).map _

theorem disciplined_recover (below : Below (rank .patchworkClass) held) (id : Int64) :
    Disciplined rank held held (recover id) := by
  have inside : Below (rank .mMemberMapping) (.patchworkClass :: held) :=
    Below.inside below (by decide)
  apply disciplined_sync below
  apply Disciplined.bind (disciplined_call _ _)
  intro removed
  rcases removed with _ | ⟨member, patch⟩
  · exact disciplined_pure _ _
  · apply Disciplined.bind (disciplined_call _ _)
    intro isProvided
    cases isProvided with
    | false => exact disciplined_pure _ _
    | true =>
        apply Disciplined.bind (disciplined_removePatch inside member patch)
        intro result
        cases result with
        | error throwable => exact disciplined_pure _ _
        | ok => exact disciplined_pure _ _

theorem disciplined_patchMembers (below : Below (rank .patchworkClass) held) (self : Patch)
    (faults : Executable → AddFaults) (members : List Member) :
    Disciplined rank held held (patchMembers self faults members) := by
  induction members with
  | nil => exact disciplined_pure held _
  | cons member rest inductionHypothesis =>
      unfold patchMembers
      apply Disciplined.bind (disciplined_patch below _ _ _)
      intro result
      cases result with
      | ok id =>
          apply inductionHypothesis.bind
          intro results
          cases results with
          | ok => exact disciplined_pure held _
          | error => exact disciplined_pure held _
      | error throwable =>
          by_cases isError : isPatchError throwable
          · simp only [isError, if_true]
            apply inductionHypothesis.bind
            intro results
            cases results with
            | ok => exact disciplined_pure held _
            | error => exact disciplined_pure held _
          · simp only [isError]
            exact disciplined_pure held _

theorem disciplined_recoverIds (below : Below (rank .patchworkClass) held) (ids : List Int64) :
    Disciplined rank held held (recoverIds ids) := by
  induction ids with
  | nil => exact disciplined_pure held _
  | cons id rest inductionHypothesis =>
      unfold recoverIds
      apply Disciplined.bind (disciplined_recover below id)
      intro result
      cases result with
      | ok => exact inductionHypothesis
      | error => exact disciplined_pure held _

theorem disciplined_hook (reflection : Reflection) (self : Patch)
    (below : Below (rank (.mUnhooks self)) held) (clazz : Option JavaClass) (found : Lookup) :
    Disciplined rank held held (hook reflection self clazz found) := by
  cases clazz with
  | none => exact disciplined_pure held _
  | some clazz =>
      have inside : Below (rank .patchworkClass) (.mUnhooks self :: held) :=
        Below.inside below rank_mUnhooks_lt
      apply disciplined_sync below
      apply Disciplined.bind (disciplined_call _ _)
      intro contains
      cases contains with
      | true => exact disciplined_pure _ _
      | false =>
          simp only [Bool.false_eq_true, if_false]
          cases found.failure with
          | some throwable => exact disciplined_pure _ _
          | none =>
              apply Disciplined.bind (disciplined_patchMembers inside _ _ _)
              intro results
              cases results with
              | error => exact disciplined_pure _ _
              | ok => exact disciplined_call _ _

theorem disciplined_unhook (self : Patch) (below : Below (rank (.mUnhooks self)) held)
    (clazz : Option JavaClass) :
    Disciplined rank held held (unhook self clazz) := by
  cases clazz with
  | none => exact disciplined_pure held _
  | some clazz =>
      have inside : Below (rank .patchworkClass) (.mUnhooks self :: held) :=
        Below.inside below rank_mUnhooks_lt
      apply disciplined_sync below
      apply Disciplined.bind (disciplined_call _ _)
      intro removed
      cases removed with
      | none => exact disciplined_pure _ _
      | some ids => exact disciplined_recoverIds inside ids

/-- `Lucy.unhook` inside `Lucy.ignore` enters `mHooking` a second time. -/
theorem disciplined_lucyUnhook (lucy : Patch)
    (below : Below (rank (.mUnhooks lucy)) held)
    (mayEnter : MayEnter rank held .mHooking) (clazz : Option JavaClass) :
    Disciplined rank held held (lucyUnhook lucy clazz) := by
  cases clazz with
  | none => exact disciplined_pure held _
  | some clazz =>
      have inside : Below (rank (.mUnhooks lucy)) (.mHooking :: held) := by
        intro other isHeld
        rcases List.mem_cons.mp isHeld with same | earlier
        · rw [same]
          change (1 : Fin 6) < 2
          decide
        · exact below other earlier
      apply Disciplined.sync mayEnter
      apply Disciplined.bind (disciplined_unhook lucy inside (some clazz))
      intro result
      cases result with
      | error => exact disciplined_pure _ _
      | ok => exact disciplined_call _ _

theorem disciplined_unhookIgnored (lucy : Patch)
    (below : Below (rank (.mUnhooks lucy)) held)
    (mayEnter : MayEnter rank held .mHooking) (packageName : String)
    (classes : List JavaClass) :
    Disciplined rank held held (unhookIgnored lucy packageName classes) := by
  induction classes with
  | nil => exact disciplined_pure held _
  | cons clazz rest inductionHypothesis =>
      unfold unhookIgnored
      by_cases starts : startsWith clazz.name packageName
      · simp only [starts, if_true]
        apply Disciplined.bind (disciplined_lucyUnhook lucy below mayEnter (some clazz))
        intro result
        cases result with
        | error => exact disciplined_pure held _
        | ok => exact inductionHypothesis
      · simp only [starts, Bool.false_eq_true, if_false]
        exact inductionHypothesis

end Discipline

/-- Inside the two blocks of `Lucy`. -/
theorem below_lucy (lucy : Patch) :
    Below (rank (.mUnhooks lucy)) [.mHooking, .mIgnored] := by
  change Below 2 [.mHooking, .mIgnored]
  decide

theorem disciplined_blocks {A : Type} {body : Operation A}
    (disciplined : Disciplined rank [.mHooking, .mIgnored] [.mHooking, .mIgnored] body) :
    Disciplined rank [] [] (sync .mIgnored (sync .mHooking body)) := by
  apply disciplined_sync (by decide)
  exact disciplined_sync (by decide) disciplined

theorem disciplined_lucyHook (reflection : Reflection) (lucy : Patch)
    (clazz : Option JavaClass) (found : Lookup) :
    Disciplined rank [] [] (lucyHook reflection lucy clazz found) := by
  cases clazz with
  | none => exact disciplined_pure [] _
  | some clazz =>
      apply disciplined_blocks
      apply Disciplined.bind (disciplined_call _ _)
      intro ignored
      cases ignored with
      | true => exact disciplined_pure _ _
      | false =>
          apply Disciplined.bind (disciplined_call _ _)
          intro _
          exact disciplined_hook reflection lucy (below_lucy lucy) (some clazz) found

theorem disciplined_ignore (lucy : Patch) (packageName : Option String) :
    Disciplined rank [] [] (ignore lucy packageName) := by
  cases packageName with
  | none => exact disciplined_pure [] _
  | some packageName =>
      apply disciplined_blocks
      apply Disciplined.bind (disciplined_call _ _)
      intro classes
      exact disciplined_unhookIgnored lucy (below_lucy lucy) (Or.inl List.mem_cons_self)
        packageName classes

/-- **Every call keeps the order.** -/
theorem disciplined_perform (reflection : Reflection) (lucy : LucyObject)
    (op : Framework.Op) : Disciplined rank [] [] (perform reflection lucy op) := by
  have nothing : ∀ level, Below level [] := fun _ _ impossible => nomatch impossible
  cases op with
  | hook logger clazz found =>
      exact (disciplined_hook reflection logger.val (nothing _) clazz found).map _
  | unhook logger clazz => exact (disciplined_unhook logger.val (nothing _) clazz).map _
  | lucyIgnore packageName => exact (disciplined_ignore lucy.val packageName).map _
  | lucyHook clazz found =>
      exact (disciplined_lucyHook reflection lucy.val clazz found).map _
  | lucyUnhook clazz =>
      exact (disciplined_lucyUnhook lucy.val (nothing _) (Or.inr (nothing _)) clazz).map _
  | patch member plugin faults =>
      apply Disciplined.bind (disciplined_patch (nothing _) member _ faults)
      intro result
      cases result with
      | ok => exact disciplined_call _ _
      | error => exact disciplined_pure _ _
  | recover position =>
      apply Disciplined.bind (disciplined_call _ _)
      intro isHeld
      cases isHeld with
      | none => exact disciplined_pure _ _
      | some id => exact (disciplined_recover (nothing _) id).map _

theorem disciplined_performAll (reflection : Reflection) (lucy : LucyObject)
    (requests : List Request) :
    Disciplined rank [] [] (performAll reflection lucy requests) := by
  have nothing : Below (rank .patchworkClass) [] := by decide
  induction requests with
  | nil => exact disciplined_pure [] _
  | cons request rest inductionHypothesis =>
      cases request with
      | call op =>
          exact (disciplined_perform reflection lucy op).bind fun _ => inductionHypothesis
      | patch member self faults =>
          exact (disciplined_patch nothing member self faults).bind
            fun _ => inductionHypothesis
      | recover id =>
          exact (disciplined_recover nothing id).bind fun _ => inductionHypothesis

/-! ## Threads -/

/-- Every thread is about to make its calls. -/
def start {T : Type} (reflection : Reflection) (lucy : LucyObject) (shared : Framework)
    (requests : T → List Request) : System T Framework Monitor where
  shared := shared
  threads := fun thread => ⟨[], performAll reflection lucy (requests thread)⟩

theorem start_orderly {T : Type} (reflection : Reflection) (lucy : LucyObject)
    (shared : Framework) (requests : T → List Request) :
    System.Orderly rank (start reflection lucy shared requests) :=
  ⟨fun thread => disciplined_performAll reflection lucy (requests thread),
    fun _ _ _ impossible => nomatch impossible⟩

/-- **No deadlock.**  Whatever calls any number of threads make, and however
their steps interleave, no threads wait for monitors that others of them
hold. -/
theorem deadlockFree {T : Type} [DecidableEq T] (reflection : Reflection)
    (lucy : LucyObject) (shared : Framework) (requests : T → List Request)
    {system : System T Framework Monitor}
    (reached : System.Reaches (start reflection lucy shared requests) system) :
    ¬ system.Deadlocked :=
  ((start_orderly reflection lucy shared requests).reaches reached).not_deadlocked

/-- Two threads recover the same id: one is inside `Patchwork.class`, the other
waits for it. -/
def recoverTwice : System Bool Framework Monitor :=
  start .oneMethod .sample .initial fun _ => [.recover 1]

theorem recoverTwice_waits :
    ∃ system, recoverTwice.Reaches system ∧ system.Wants false .patchworkClass ∧
      system.Holds true .patchworkClass ∧ ¬ system.Deadlocked := by
  have apart : ∀ other, other ≠ true →
      Monitor.patchworkClass ∉ (recoverTwice.threads other).held :=
    fun _ _ impossible => nomatch impossible
  have reached : recoverTwice.Reaches _ :=
    Relation.ReflTransGen.single (.enter true .patchworkClass _ rfl apart)
  exact ⟨_, reached, ⟨_, rfl⟩, List.mem_cons_self, deadlockFree _ _ _ _ reached⟩

end Synchronized

end AndroidPatch.Logcat
