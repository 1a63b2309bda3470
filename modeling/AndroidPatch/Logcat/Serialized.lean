import AndroidPatch.Library.Transactions
import AndroidPatch.Logcat.Synchronized

/-!
Contract: any number of threads leave the registry as one thread would.

Owns:
- every change of the registry is one `patch` or `recover` call, inside the monitor of
  `Patchwork.class`;
- the registry after any interleaving is that after the calls one after the other, in an
  order that keeps the order of every thread;
- the snapshots, which executions read without any monitor, are at every moment those after
  such calls.

What was proved of sequences of calls therefore holds of threads.
-/

namespace AndroidPatch.Logcat.Synchronized

open AndroidPatch.Library AndroidPatch.Lang Code

/-! ## Calls as transactions -/

def effect (call : Patchwork.Call) (patchwork : Patchwork) : Patchwork :=
  (patchwork.step call).2

/-- Executions see the snapshots before the call or those after it. -/
def Between (call : Patchwork.Call) (start now : Patchwork) : Prop :=
  (∀ executable, now.snapshot executable = start.snapshot executable) ∨
    ∀ executable, now.snapshot executable = (effect call start).snapshot executable

/-- The code changes the registry by calls as planned. -/
def Calls {A : Type} (plan : List Patchwork.Call → Prop) (code : Operation A) : Prop :=
  Transacts Framework.patchwork .patchworkClass effect Between plan none code

section Sections

variable {A : Type} {safe : Patchwork → Prop} {now : Patchwork} {kernel : Kernel}

/-- The registry with another kernel. -/
def withKernel (patchwork : Patchwork) (kernel : Kernel) : Patchwork :=
  { patchwork with externalKernel := some kernel }

theorem section_onKernel {post : Except Throwable A → Patchwork → Prop}
    {function : Kernel → Except Throwable A × Kernel}
    (isKernel : now.externalKernel = some kernel) (isSafe : safe now)
    (safeAfter : safe (withKernel now (function kernel).2))
    (isPost : post (function kernel).1 (withKernel now (function kernel).2)) :
    Section Framework.patchwork Monitor.patchworkClass safe post now (onKernel function) := by
  apply section_call isSafe
  intro state isNow
  subst isNow
  simp only [isKernel]
  exact ⟨safeAfter, isPost⟩

/-- What is known of the result of an access to the kernel. -/
def Gives {A : Type} (now : Patchwork) (given : Except Throwable A × Kernel)
    (result : Except Throwable A) (now' : Patchwork) : Prop :=
  result = given.1 ∧ now' = withKernel now given.2

theorem section_addPatch (isKernel : now.externalKernel = some kernel) (member : Member)
    (patch : Patch) (faults : AddFaults) (isSafe : safe now)
    (safeStruct : safe (withKernel now (kernel.structFor member faults.hook).2))
    (safeAfter : safe (withKernel now (kernel.addPatch member patch faults).2)) :
    Section Framework.patchwork Monitor.patchworkClass safe
      (Gives now (kernel.addPatch member patch faults)) now (addPatch member patch faults) := by
  have found : Section Framework.patchwork Monitor.patchworkClass safe
      (Gives now (kernel.structFor member faults.hook)) now
      (sync .mMemberMapping (onKernel fun kernel => kernel.structFor member faults.hook)) := by
    refine Section.sync (by decide)
      (section_onKernel isKernel isSafe safeStruct ⟨rfl, rfl⟩) ?_
    rintro _ _ ⟨-, rfl⟩
    exact safeStruct
  apply found.bind
  rintro result _ ⟨isResult, rfl⟩
  have whole := kernel.addPatch_eq member patch faults
  cases result with
  | error throwable =>
      rw [← isResult] at whole
      rw [whole]
      exact section_pure safeStruct ⟨rfl, rfl⟩
  | ok struct =>
      rw [← isResult] at whole
      rw [whole] at safeAfter ⊢
      refine Section.sync (by simp)
        (section_onKernel rfl safeStruct safeAfter ⟨rfl, rfl⟩) ?_
      rintro _ _ ⟨-, rfl⟩
      exact safeAfter

theorem section_removePatch (isKernel : now.externalKernel = some kernel) (member : Member)
    (patch : Patch) (isSafe : safe now)
    (safeAfter : safe (withKernel now (kernel.removePatch member patch).2)) :
    Section Framework.patchwork Monitor.patchworkClass safe
      (Gives now (kernel.removePatch member patch)) now (removePatch member patch) := by
  have same : withKernel now kernel = now := by
    rw [withKernel, ← isKernel]
  have found : Section Framework.patchwork Monitor.patchworkClass safe
      (Gives now (.ok (kernel.val.mMemberMapping.lookup member.executable), kernel)) now
      (sync .mMemberMapping (onKernel fun kernel =>
        (.ok (kernel.val.mMemberMapping.lookup member.executable), kernel))) := by
    refine Section.sync (by decide)
      (section_onKernel isKernel isSafe (by rwa [same]) ⟨rfl, rfl⟩) ?_
    rintro _ _ ⟨-, rfl⟩
    rwa [same]
  apply found.bind
  rintro _ _ ⟨rfl, rfl⟩
  have whole := kernel.removePatch_eq member patch
  cases lookup : kernel.val.mMemberMapping.lookup member.executable with
  | none =>
      rw [lookup] at whole
      rw [whole, same]
      exact section_pure isSafe ⟨rfl, same.symm⟩
  | some struct =>
      rw [lookup] at whole
      rw [whole] at safeAfter ⊢
      rw [same]
      refine Section.sync (by simp)
        (section_onKernel isKernel isSafe safeAfter ⟨rfl, rfl⟩) ?_
      rintro _ _ ⟨-, rfl⟩
      exact safeAfter

end Sections

/-- A struct that was just made has no patches, as an unhooked member has none. -/
theorem snapshot_structFor (kernel : Kernel) (member : Member) (failure : Option Throwable)
    (executable : Executable) :
    (kernel.structFor member failure).2.snapshot executable = kernel.snapshot executable := by
  show (kernel.val.structFor member failure).2.snapshot executable = _
  unfold ExternalKernel.structFor
  cases lookup : kernel.val.mMemberMapping.lookup member.executable with
  | some struct => rfl
  | none =>
      cases failure with
      | some throwable => rfl
      | none => exact kernel.property.snapshot_hooked lookup executable

/-- A block of `Patchwork.class` is one call. -/
theorem calls_sync {A : Type} {call : Patchwork.Call} {body : Operation A}
    (inside : ∀ start, Section Framework.patchwork Monitor.patchworkClass (Between call start)
      (fun _ now => now = effect call start) start body) :
    Calls (· = [call]) (sync .patchworkClass body) := by
  have isPlan : (fun calls => calls = [call]) [call] := rfl
  exact transacts_sync_self isPlan inside

theorem between_refl (call : Patchwork.Call) (start : Patchwork) : Between call start start :=
  .inl fun _ => rfl

/-- The steps that only read. -/
theorem section_read {A : Type} {safe : Patchwork → Prop} {now : Patchwork}
    {function : Framework → A × Framework} (expected : A) (isSafe : safe now)
    (reads : ∀ state : Framework, state.patchwork = now → function state = (expected, state)) :
    Section Framework.patchwork Monitor.patchworkClass safe
      (fun result now' => result = expected ∧ now' = now) now (call function) := by
  apply section_call isSafe
  intro state isNow
  rw [reads state isNow, isNow]
  exact ⟨isSafe, rfl, rfl⟩

section Effects

variable {start : Patchwork} {kernel : Kernel}

/-- The effect of a call that comes to the kernel. -/
theorem effect_patch {member : Member} {self : Patch} (faults : AddFaults)
    (found : start.findPair member self = none) (isKernel : start.externalKernel = some kernel) :
    effect (.patch (some member) (some self) faults) start =
      match kernel.addPatch member self faults with
      | (.error _, kernel) => withKernel start kernel
      | (.ok (), kernel) =>
          { withKernel start kernel with
            count := start.count + 1
            pairs := start.pairs.insert (start.count + 1) (member, self) } := by
  simp only [effect, Patchwork.step, Patchwork.patch, found, isKernel]
  rcases kernel.addPatch member self faults with ⟨_ | _, _⟩ <;> rfl

theorem effect_recover {id : Int64} {member : Member} {self : Patch}
    (live : start.pairs.lookup id = some (member, self))
    (isKernel : start.externalKernel = some kernel) :
    effect (.recover id) start =
      withKernel { start with pairs := start.pairs.erase id } (kernel.removePatch member self).2 := by
  simp only [effect, Patchwork.step, Patchwork.recover, live, isKernel]
  rcases kernel.removePatch member self with ⟨_ | _, _⟩ <;> rfl

/-- The kernel is called and the pair is put into the map. -/
theorem section_newPair {member : Member} {self : Patch} (faults : AddFaults)
    (found : start.findPair member self = none) (isKernel : start.externalKernel = some kernel) :
    Section Framework.patchwork Monitor.patchworkClass
      (Between (.patch (some member) (some self) faults) start)
      (fun _ now => now = effect (.patch (some member) (some self) faults) start) start
      (do
        match ← addPatch member self faults with
        | .error throwable => pure (.error (asPatchError throwable))
        | .ok () => .ok <$> putPair member self : Operation (Except Throwable Int64)) := by
  have isEffect := effect_patch faults found isKernel
  have safeStruct : Between (.patch (some member) (some self) faults) start
      (withKernel start (kernel.structFor member faults.hook).2) := by
    refine .inl fun executable => ?_
    show (kernel.structFor member faults.hook).2.snapshot executable = _
    rw [snapshot_structFor, Patchwork.snapshot, Patchwork.kernel, isKernel]
    rfl
  have safeAfter : Between (.patch (some member) (some self) faults) start
      (withKernel start (kernel.addPatch member self faults).2) := by
    refine .inr fun executable => ?_
    rw [isEffect]
    rcases kernel.addPatch member self faults with ⟨_ | _, _⟩ <;> rfl
  refine (section_addPatch isKernel member self faults (between_refl _ start) safeStruct
    safeAfter).bind ?_
  rintro result _ ⟨isResult, rfl⟩
  rcases added : kernel.addPatch member self faults with ⟨_ | _, after⟩
  · rw [added] at isResult isEffect safeAfter
    subst isResult
    exact section_pure safeAfter isEffect.symm
  · rw [added] at isResult isEffect safeAfter
    subst isResult
    apply Section.map
    apply section_call safeAfter
    intro state isNow
    simp only [isNow, withKernel] at isEffect ⊢
    rw [← isEffect]
    exact ⟨.inr fun _ => rfl, .inr fun _ => rfl, rfl⟩

end Effects

theorem calls_patch (member : Option Member) (self : Option Patch) (faults : AddFaults) :
    Calls (· = [.patch member self faults]) (patch member self faults) := by
  apply calls_sync
  intro start
  have begins := between_refl (.patch member self faults) start
  rcases member with _ | member
  · exact section_pure begins rfl
  rcases self with _ | self
  · exact section_pure begins rfl
  refine (section_read (start.findPair member self) begins ?_).bind ?_
  · rintro state rfl
    rfl
  rintro _ start ⟨rfl, rfl⟩
  cases found : start.findPair member self with
  | some id =>
      have isEffect : start = effect (.patch (some member) (some self) faults) start := by
        simp [effect, Patchwork.step, Patchwork.patch, found]
      exact section_pure begins isEffect
  | none =>
      refine (section_read start.externalKernel.isSome begins ?_).bind ?_
      · rintro state rfl
        rfl
      rintro _ start ⟨rfl, rfl⟩
      cases isKernel : start.externalKernel with
      | none =>
          have isEffect : start = effect (.patch (some member) (some self) faults) start := by
            simp [effect, Patchwork.step, Patchwork.patch, found, isKernel]
          exact section_pure begins isEffect
      | some kernel => exact section_newPair faults found isKernel

theorem calls_recover (id : Int64) : Calls (· = [.recover id]) (recover id) := by
  apply calls_sync
  intro start
  have removed : Section Framework.patchwork Monitor.patchworkClass (Between (.recover id) start)
      (fun result now => result = start.pairs.lookup id ∧
        now = { start with pairs := start.pairs.erase id }) start (removePair id) := by
    apply section_call (between_refl _ start)
    rintro state rfl
    exact ⟨.inl fun _ => rfl, rfl, rfl⟩
  apply removed.bind
  rintro _ _ ⟨rfl, rfl⟩
  set now : Patchwork := { start with pairs := start.pairs.erase id } with isNow
  have begins : Between (.recover id) start now := .inl fun _ => rfl
  cases live : start.pairs.lookup id with
  | none =>
      have unchanged : start.pairs.erase id = start.pairs :=
        AList.ext (List.kerase_of_notMem_keys (AList.lookup_eq_none.mp live))
      have isEffect : now = effect (.recover id) start := by
        simp only [isNow, effect, Patchwork.step, Patchwork.recover, live, unchanged]
      exact section_pure begins isEffect
  | some pair =>
      obtain ⟨member, self⟩ := pair
      refine (section_read start.externalKernel.isSome begins ?_).bind ?_
      · rintro state isState
        rw [isState]
      rintro _ _ ⟨rfl, rfl⟩
      cases isKernel : start.externalKernel with
      | none =>
          have isEffect : now = effect (.recover id) start := by
            simp only [isNow, effect, Patchwork.step, Patchwork.recover, live, isKernel]
          exact section_pure begins isEffect
      | some kernel =>
          have isEffect := effect_recover live isKernel
          have safeAfter : Between (.recover id) start
              (withKernel now (kernel.removePatch member self).2) := by
            refine .inr fun executable => ?_
            rw [isEffect]
          have isKernelNow : now.externalKernel = some kernel := isKernel
          refine (section_removePatch isKernelNow member self begins safeAfter).bind ?_
          rintro result _ ⟨-, rfl⟩
          cases result with
          | error throwable => exact section_pure safeAfter isEffect.symm
          | ok => exact section_pure safeAfter isEffect.symm

/-! ## Operations as sequences of calls -/

/-- The calls that `Logcat.hook` makes, if nothing stops it. -/
def patchCalls (self : Patch) (faults : Executable → AddFaults) (members : List Member) :
    List Patchwork.Call :=
  members.map fun member => .patch (some member) (some self) (faults member.executable)

def hookCalls (reflection : Reflection) (self : Patch) (clazz : Option JavaClass)
    (found : Lookup) : List Patchwork.Call :=
  match clazz with
  | none => []
  | some clazz => patchCalls self found.faults (found.members reflection clazz)

/-- Nothing but `recover` is called. -/
def Recovers (calls : List Patchwork.Call) : Prop :=
  ∀ call ∈ calls, ∃ id, call = .recover id

theorem Recovers.append {early late : List Patchwork.Call} (first : Recovers early)
    (second : Recovers late) : Recovers (early ++ late) := by
  intro call isCall
  rcases List.mem_append.mp isCall with isEarly | isLate
  · exact first call isEarly
  · exact second call isLate

theorem recovers_nil : Recovers [] :=
  fun _ impossible => absurd impossible List.not_mem_nil

theorem calls_patchMembers (self : Patch) (faults : Executable → AddFaults)
    (members : List Member) :
    Calls (· <+: patchCalls self faults members) (patchMembers self faults members) := by
  induction members with
  | nil => exact transacts_pure List.nil_prefix
  | cons member rest inductionHypothesis =>
      refine (calls_patch _ _ _).bind ?_
      rintro _ rfl result
      -- the rest of the members, whatever became of this one: nothing is called after them
      have more (continuation : Except Throwable HookResults →
          Operation (Except Throwable HookResults))
          (returns : ∀ results, ∃ value, continuation results = pure value) :
          Transacts Framework.patchwork .patchworkClass effect Between
            (fun calls => [.patch (some member) (some self) (faults member.executable)] ++ calls <+:
              patchCalls self faults (member :: rest)) none
            (patchMembers self faults rest >>= continuation) := by
        apply inductionHypothesis.bind
        intro calls isPrefix results
        obtain ⟨value, isPure⟩ := returns results
        rw [isPure]
        apply transacts_pure
        rw [List.append_nil]
        exact List.prefix_cons_iff.mpr (.inr ⟨calls, rfl, isPrefix⟩)
      cases result with
      | ok id =>
          apply more
          intro results
          cases results <;> exact ⟨_, rfl⟩
      | error throwable =>
          by_cases isError : isPatchError throwable
          · simp only [isError, if_true]
            apply more
            intro results
            cases results <;> exact ⟨_, rfl⟩
          · simp only [isError]
            exact transacts_pure (List.prefix_cons_iff.mpr (.inr ⟨[], rfl, List.nil_prefix⟩))

theorem calls_hook (reflection : Reflection) (self : Patch) (clazz : Option JavaClass)
    (found : Lookup) :
    Calls (· <+: hookCalls reflection self clazz found) (hook reflection self clazz found) := by
  cases clazz with
  | none => exact transacts_pure List.nil_prefix
  | some clazz =>
      apply Transacts.sync (by simp)
      apply transacts_call_bind fun _ => rfl
      intro contains
      cases contains with
      | true => exact transacts_pure List.nil_prefix
      | false =>
          simp only [Bool.false_eq_true, if_false]
          cases found.failure with
          | some throwable => exact transacts_pure List.nil_prefix
          | none =>
              refine (calls_patchMembers _ _ _).bind ?_
              intro calls isPrefix results
              have whole : [] ++ (calls ++ []) <+: hookCalls reflection self (some clazz) found := by
                rw [List.nil_append, List.append_nil]
                exact isPrefix
              cases results with
              | error throwable => exact transacts_pure whole
              | ok results => exact transacts_call whole fun _ => rfl

theorem calls_recoverIds (ids : List Int64) : Calls Recovers (recoverIds ids) := by
  induction ids with
  | nil => exact transacts_pure recovers_nil
  | cons id rest inductionHypothesis =>
      refine (calls_recover id).bind ?_
      rintro _ rfl result
      have one : Recovers [.recover id] := by simp [Recovers]
      cases result with
      | ok => exact inductionHypothesis.mono fun calls isRest => one.append isRest
      | error throwable => exact transacts_pure one

theorem calls_unhook (self : Patch) (clazz : Option JavaClass) :
    Calls Recovers (unhook self clazz) := by
  cases clazz with
  | none => exact transacts_pure recovers_nil
  | some clazz =>
      apply Transacts.sync (by simp)
      apply transacts_call_bind
      · intro state
        cases (state.mUnhooks self).lookup clazz <;> rfl
      intro removed
      cases removed with
      | none => exact transacts_pure recovers_nil
      | some ids => exact calls_recoverIds ids

theorem calls_lucyUnhook (lucy : Patch) (clazz : Option JavaClass) :
    Calls Recovers (lucyUnhook lucy clazz) := by
  cases clazz with
  | none => exact transacts_pure recovers_nil
  | some clazz =>
      apply Transacts.sync (by simp)
      refine (calls_unhook lucy (some clazz)).bind ?_
      intro calls isRecovers result
      have whole : Recovers (calls ++ []) := by rwa [List.append_nil]
      cases result with
      | error throwable => exact transacts_pure whole
      | ok => exact transacts_call whole fun _ => rfl

theorem calls_lucyHook (reflection : Reflection) (lucy : Patch) (clazz : Option JavaClass)
    (found : Lookup) :
    Calls (· <+: hookCalls reflection lucy clazz found)
      (lucyHook reflection lucy clazz found) := by
  cases clazz with
  | none => exact transacts_pure List.nil_prefix
  | some clazz =>
      apply Transacts.sync (by simp)
      apply Transacts.sync (by simp)
      apply transacts_call_bind fun _ => rfl
      intro ignored
      cases ignored with
      | true => exact transacts_pure List.nil_prefix
      | false =>
          apply transacts_call_bind fun _ => rfl
          intro _
          exact calls_hook reflection lucy (some clazz) found

theorem calls_unhookIgnored (lucy : Patch) (packageName : String) (classes : List JavaClass) :
    Calls Recovers (unhookIgnored lucy packageName classes) := by
  induction classes with
  | nil => exact transacts_pure recovers_nil
  | cons clazz rest inductionHypothesis =>
      unfold unhookIgnored
      by_cases starts : startsWith clazz.name packageName
      · simp only [starts, if_true]
        refine (calls_lucyUnhook lucy (some clazz)).bind ?_
        intro calls isRecovers result
        cases result with
        | error throwable =>
            apply transacts_pure
            rwa [List.append_nil]
        | ok => exact inductionHypothesis.mono fun more isRest => isRecovers.append isRest
      · simp only [starts, Bool.false_eq_true, if_false]
        exact inductionHypothesis

theorem calls_ignore (lucy : Patch) (packageName : Option String) :
    Calls Recovers (ignore lucy packageName) := by
  cases packageName with
  | none => exact transacts_pure recovers_nil
  | some packageName =>
      apply Transacts.sync (by simp)
      apply Transacts.sync (by simp)
      apply transacts_call_bind fun _ => rfl
      intro classes
      exact calls_unhookIgnored lucy packageName classes

/-! ## Threads -/

/-- The calls on the registry that a request may come to. -/
def Comes (reflection : Reflection) (lucy : LucyObject) :
    Request → List Patchwork.Call → Prop
  | .call (.hook logger clazz found), calls => calls <+: hookCalls reflection logger.val clazz found
  | .call (.unhook _ _), calls => Recovers calls
  | .call (.lucyIgnore _), calls => Recovers calls
  | .call (.lucyHook clazz found), calls => calls <+: hookCalls reflection lucy.val clazz found
  | .call (.lucyUnhook _), calls => Recovers calls
  | .call (.patch member plugin faults), calls => calls = [.patch member (some plugin.val) faults]
  | .call (.recover _), calls => calls = [] ∨ ∃ id, calls = [.recover id]
  | .patch member self faults, calls => calls = [.patch member self faults]
  | .recover id, calls => calls = [.recover id]

/-- The calls are those of the requests, in their order. -/
def Plan (reflection : Reflection) (lucy : LucyObject) :
    List Request → List Patchwork.Call → Prop
  | [], calls => calls = []
  | request :: rest, calls => ∃ early late, calls = early ++ late ∧
      Comes reflection lucy request early ∧ Plan reflection lucy rest late

theorem calls_perform (reflection : Reflection) (lucy : LucyObject) (op : Framework.Op) :
    Calls (Comes reflection lucy (.call op)) (perform reflection lucy op) := by
  cases op with
  | hook logger clazz found => exact (calls_hook reflection logger.val clazz found).map _
  | unhook logger clazz => exact (calls_unhook logger.val clazz).map _
  | lucyIgnore packageName => exact (calls_ignore lucy.val packageName).map _
  | lucyHook clazz found => exact (calls_lucyHook reflection lucy.val clazz found).map _
  | lucyUnhook clazz => exact (calls_lucyUnhook lucy.val clazz).map _
  | patch member plugin faults =>
      refine (calls_patch member (some plugin.val) faults).bind ?_
      rintro _ rfl result
      cases result with
      | ok id => exact transacts_call rfl fun _ => rfl
      | error throwable => exact transacts_pure rfl
  | recover position =>
      apply transacts_call_bind fun _ => rfl
      intro isHeld
      cases isHeld with
      | none => exact transacts_pure (.inl rfl)
      | some id =>
          apply Transacts.map
          exact (calls_recover id).mono fun calls isCalls => .inr ⟨id, isCalls⟩

theorem calls_performAll (reflection : Reflection) (lucy : LucyObject)
    (requests : List Request) :
    Calls (Plan reflection lucy requests) (performAll reflection lucy requests) := by
  induction requests with
  | nil => exact transacts_pure rfl
  | cons request rest inductionHypothesis =>
      have later {A : Type} {code : Operation A} (calls : Calls (Comes reflection lucy request) code) :
          Calls (Plan reflection lucy (request :: rest))
            (code >>= fun _ => performAll reflection lucy rest) := by
        refine calls.bind fun early isEarly _ => ?_
        exact inductionHypothesis.mono fun late isLate => ⟨early, late, rfl, isEarly, isLate⟩
      cases request with
      | call op => exact later (calls_perform reflection lucy op)
      | patch member self faults => exact later (calls_patch member self faults)
      | recover id => exact later (calls_recover id)

theorem replay_eq_run {T : Type} (trace : List (T × Patchwork.Call)) (patchwork : Patchwork) :
    System.replay effect trace patchwork = run Patchwork.step patchwork (trace.map Prod.snd) := by
  induction trace generalizing patchwork with
  | nil => rfl
  | cons step rest inductionHypothesis => exact inductionHypothesis _

end AndroidPatch.Logcat.Synchronized
