import AndroidPatch.Logcat.Loops
import AndroidPatch.Lang.Registrations

/-!
Contract: where loggers are active, after any calls by any users.

Owns:
- `Coherent`, the ledger of a whole run together with what the answers of its
  `hook` calls say about the entries of `mUnhooks`;
- every call keeps it, as long as ids do not come back;
- a logger is active on a member exactly while its class has an entry whose
  creating call patched that member, and `unhook` undoes `hook`;
- a run of other users that brings an id back and makes a logger lose one.
-/

namespace AndroidPatch.Logcat

open AndroidPatch.Library AndroidPatch.Lang

namespace Framework

/-- The ids each logger holds for each class; none without an entry. -/
def held (state : Framework) : Held :=
  fun logger clazz => ((state.mUnhooks logger).lookup clazz).getD []

/-- The results of the call that an answer shows to have created the entry of a
class. -/
def creation (lucy : LucyObject) (logger : Patch) (clazz : JavaClass) :
    Op × Answer → Option HookResults
  | (.hook self (some other) _, .hooked (.created results)) =>
      if logger = self.val ∧ clazz = other then some results else none
  | (.lucyHook (some other) _, .hooked (.created results)) =>
      if logger = lucy.val ∧ clazz = other then some results else none
  | _ => none

/-- The results of the call that created the current entry of a class. -/
def creator (lucy : LucyObject) (past : List (Op × Answer)) (logger : Patch)
    (clazz : JavaClass) : Option HookResults :=
  (past.filterMap (creation lucy logger clazz)).getLast?

theorem creator_append (lucy : LucyObject) (past : List (Op × Answer))
    (entry : Op × Answer) (logger : Patch) (clazz : JavaClass) :
    creator lucy (past ++ [entry]) logger clazz =
      (creation lucy logger clazz entry).or (creator lucy past logger clazz) := by
  unfold creator
  rw [List.filterMap_append]
  cases made : creation lucy logger clazz entry with
  | none => simp [made]
  | some results => simp [made]

/-- **The ledger of a run.**  `recorded` says that the current entry of a class
holds the ids its creating call was answered with, and that they are live. -/
structure Coherent (lucy : LucyObject) (bound : Nat) (past : List (Op × Answer))
    (state : Framework) : Prop where
  ledger : Ledger bound state.patchwork state.held state.userIds
  recorded : ∀ logger clazz ids, IsLogger logger →
    (state.mUnhooks logger).lookup clazz = some ids →
      ∃ results, creator lucy past logger clazz = some results ∧ ids = unhooks results ∧
        ∀ member id, (member, .ok id) ∈ results →
          state.patchwork.pairs.lookup id = some (member, logger)

/-- **Where a logger is active.** -/
theorem Coherent.active_iff {lucy : LucyObject} {bound : Nat} {past : List (Op × Answer)}
    {state : Framework} (coherent : Coherent lucy bound past state) {logger : Patch}
    (isLogger : IsLogger logger) (executable : Executable) :
    logger ∈ state.patchwork.snapshot executable ↔
      executable.declaringClass ∈ state.mUnhooks logger ∧
        ∃ results, creator lucy past logger executable.declaringClass = some results ∧
          Succeeded results executable := by
  rw [coherent.ledger.effect logger executable isLogger]
  constructor
  · rintro ⟨id, member, live, rfl⟩
    have holds := coherent.ledger.complete id member logger isLogger live
    unfold held at holds
    cases entry : (state.mUnhooks logger).lookup member.executable.declaringClass with
    | none =>
        rw [entry] at holds
        exact nomatch holds
    | some ids =>
        rw [entry] at holds
        obtain ⟨results, isCreator, rfl, isLive⟩ :=
          coherent.recorded logger _ ids isLogger entry
        obtain ⟨holder, present⟩ := mem_unhooks_iff.mp holds
        have same := (isLive holder id present).symm.trans live
        cases same
        exact ⟨AList.lookup_isSome.mp (by rw [entry]; rfl), results, isCreator, member, id,
          present, rfl⟩
  · rintro ⟨hasEntry, results, isCreator, member, id, present, rfl⟩
    obtain ⟨ids, entry⟩ := Option.isSome_iff_exists.mp (AList.lookup_isSome.mpr hasEntry)
    obtain ⟨recorded, isRecorded, -, isLive⟩ := coherent.recorded logger _ ids isLogger entry
    obtain rfl : results = recorded := Option.some.inj (isCreator.symm.trans isRecorded)
    exact ⟨id, member, isLive member id present, rfl⟩

/-! ## Entries of `mUnhooks` -/

theorem lookup_update (state : Framework) {self logger : Patch}
    (entries : AList (fun _ : JavaClass => List Int64)) (clazz : JavaClass) :
    (Function.update state.mUnhooks self entries logger).lookup clazz =
      if logger = self then entries.lookup clazz
      else (state.mUnhooks logger).lookup clazz := by
  by_cases isSelf : logger = self
  · subst isSelf
    rw [Function.update_self, if_pos rfl]
  · rw [Function.update_of_ne isSelf, if_neg isSelf]

theorem lookup_update_insert (state : Framework) {self logger : Patch}
    {clazz other : JavaClass} (ids : List Int64) :
    (Function.update state.mUnhooks self ((state.mUnhooks self).insert clazz ids)
        logger).lookup other =
      if logger = self ∧ other = clazz then some ids
      else (state.mUnhooks logger).lookup other := by
  rw [lookup_update]
  by_cases same : other = clazz
  · subst same
    simp [AList.lookup_insert]
  · by_cases isSelf : logger = self <;> simp [AList.lookup_insert_ne, same, isSelf]

theorem lookup_update_erase (state : Framework) {self logger : Patch}
    {clazz other : JavaClass} :
    (Function.update state.mUnhooks self ((state.mUnhooks self).erase clazz)
        logger).lookup other =
      if logger = self ∧ other = clazz then none
      else (state.mUnhooks logger).lookup other := by
  rw [lookup_update]
  by_cases same : other = clazz
  · subst same
    simp [AList.lookup_erase]
  · by_cases isSelf : logger = self <;> simp [AList.lookup_erase_ne, same, isSelf]

theorem held_insert {state state' : Framework} {self : Patch} {clazz : JavaClass}
    {ids : List Int64}
    (entries : state'.mUnhooks =
      Function.update state.mUnhooks self ((state.mUnhooks self).insert clazz ids)) :
    state'.held = state.held.set self clazz ids := by
  funext logger other
  unfold held Held.set
  rw [entries, lookup_update_insert]
  split_ifs <;> rfl

theorem held_erase {state state' : Framework} {self : Patch} {clazz : JavaClass}
    (entries : state'.mUnhooks =
      Function.update state.mUnhooks self ((state.mUnhooks self).erase clazz)) :
    state'.held = state.held.set self clazz [] := by
  funext logger other
  unfold held Held.set
  rw [entries, lookup_update_erase]
  split_ifs <;> rfl

theorem held_eq_nil {state : Framework} {self : Patch} {clazz : JavaClass}
    (missing : clazz ∉ state.mUnhooks self) : state.held self clazz = [] := by
  unfold held
  rw [AList.lookup_eq_none.mpr missing]
  rfl

/-! ## One call -/

section Calls

variable {reflection : Reflection} {lucy : LucyObject} {bound : Nat}
  {past : List (Op × Answer)} {state : Framework}

/-- An answer that creates no entry. -/
theorem Coherent.answered (coherent : Coherent lucy bound past state) {entry : Op × Answer}
    (quiet : ∀ logger clazz, creation lucy logger clazz entry = none) :
    Coherent lucy bound (past ++ [entry]) state := by
  refine ⟨coherent.ledger, ?_⟩
  intro logger clazz ids isLogger isEntry
  rw [creator_append, quiet, Option.none_or]
  exact coherent.recorded logger clazz ids isLogger isEntry

/-- A step that touches no entry and no registration of a logger. -/
theorem Coherent.other (coherent : Coherent lucy bound past state)
    {bound' : Nat} {state' : Framework}
    (entries : state'.mUnhooks = state.mUnhooks)
    (ledger : Ledger bound' state'.patchwork state.held state'.userIds)
    (kept : ∀ id member logger, IsLogger logger →
      state.patchwork.pairs.lookup id = some (member, logger) →
        state'.patchwork.pairs.lookup id = some (member, logger)) :
    Coherent lucy bound' past state' := by
  have sameHeld : state'.held = state.held := by
    unfold held
    rw [entries]
  refine ⟨sameHeld ▸ ledger, ?_⟩
  intro logger clazz ids isLogger isEntry
  rw [entries] at isEntry
  obtain ⟨results, isCreator, isIds, live⟩ := coherent.recorded logger clazz ids isLogger
    isEntry
  exact ⟨results, isCreator, isIds, fun member id present =>
    kept id member logger isLogger (live member id present)⟩

/-- A call that creates the entry of a class. -/
theorem Coherent.create (coherent : Coherent lucy bound past state) {entry : Op × Answer}
    {self : Patch} {clazz : JavaClass} {members : List Member} {results : HookResults}
    {bound' : Nat} {state' : Framework}
    (creates : ∀ logger other, creation lucy logger other entry =
      if logger = self ∧ other = clazz then some results else none)
    (missing : clazz ∉ state.mUnhooks self)
    (entries : state'.mUnhooks = Function.update state.mUnhooks self
      ((state.mUnhooks self).insert clazz (unhooks results)))
    (users : state'.userIds = state.userIds)
    (loop : HookLoop self clazz members state.patchwork state.held state.userIds results
      bound' state'.patchwork) :
    Coherent lucy bound' (past ++ [entry]) state' := by
  refine ⟨?_, ?_⟩
  · have ledger := loop.ledger
    rw [held_eq_nil missing, List.nil_append] at ledger
    rw [held_insert entries, users]
    exact ledger
  · intro logger other ids isLogger isEntry
    rw [entries, lookup_update_insert] at isEntry
    rw [creator_append, creates]
    split_ifs at isEntry ⊢ with same
    · obtain ⟨rfl, rfl⟩ := same
      exact ⟨results, rfl, (Option.some.inj isEntry).symm, loop.live⟩
    · obtain ⟨earlier, isCreator, isIds, live⟩ := coherent.recorded logger other ids isLogger
        isEntry
      exact ⟨earlier, isCreator, isIds, fun member id present =>
        loop.kept id _ (live member id present)⟩

/-- A step that removes the entry of a class. -/
theorem Coherent.remove (coherent : Coherent lucy bound past state)
    {self : Patch} (isSelf : IsLogger self) {clazz : JavaClass} {ids : List Int64}
    {state' : Framework} (isEntry : (state.mUnhooks self).lookup clazz = some ids)
    (entries : state'.mUnhooks =
      Function.update state.mUnhooks self ((state.mUnhooks self).erase clazz))
    (users : state'.userIds = state.userIds)
    (loop : UnhookLoop self clazz ids bound state.patchwork state.held state.userIds
      state'.patchwork) :
    Coherent lucy bound past state' := by
  refine ⟨?_, ?_⟩
  · rw [held_erase entries, users]
    exact loop.ledger
  · intro logger other otherIds isLogger otherEntry
    rw [entries, lookup_update_erase] at otherEntry
    split_ifs at otherEntry with same
    obtain ⟨results, isCreator, isIds, live⟩ := coherent.recorded logger other otherIds
      isLogger otherEntry
    refine ⟨results, isCreator, isIds, ?_⟩
    intro member id present
    apply loop.kept id _ ?_ (live member id present)
    -- An id in both entries would be registered for both loggers and classes.
    intro shared
    have holds : id ∈ state.held self clazz := by
      unfold held
      rw [isEntry]
      exact shared
    have otherHolds : id ∈ state.held logger other := by
      unfold held
      rw [otherEntry, isIds]
      exact mem_unhooks_iff.mpr ⟨member, present⟩
    obtain ⟨holder, isLive, declares⟩ := coherent.ledger.sound self clazz isSelf id holds
    obtain ⟨otherHolder, otherLive, otherDeclares⟩ :=
      coherent.ledger.sound logger other isLogger id otherHolds
    rw [isLive] at otherLive
    cases otherLive
    exact same ⟨rfl, otherDeclares.symm.trans declares⟩

/-- Everything `Logcat.hook` can do. -/
inductive HookResult (reflection : Reflection) (bound : Nat) (state : Framework)
    (self : Patch) (clazz : Option JavaClass) : HookAnswer × Framework → Prop where
  | kept (answer : HookAnswer) (quiet : ∀ results, answer ≠ .created results) :
      HookResult reflection bound state self clazz (answer, state)
  | created (target : JavaClass) (isTarget : clazz = some target)
      (missing : target ∉ state.mUnhooks self) (members : List Member)
      (results : HookResults) (bound' : Nat)
      (atMost : bound' ≤ bound + (reflection.declared target).length)
      (patchwork : Patchwork)
      (loop : HookLoop self target members state.patchwork state.held state.userIds results
        bound' patchwork) :
      HookResult reflection bound state self clazz
        (.created results, { state with patchwork := patchwork }.setUnhooks self
          ((state.mUnhooks self).insert target (unhooks results)))

theorem hook_cases (ledger : Ledger bound state.patchwork state.held state.userIds)
    {self : Patch} (isSelf : IsLogger self) (clazz : Option JavaClass) (found : Lookup)
    (small : ∀ target, clazz = some target →
      bound + (reflection.declared target).length ≤ 2 ^ 64) :
    HookResult reflection bound state self clazz
      (state.hook reflection self clazz found) := by
  cases clazz with
  | none => exact .kept _ (fun _ impossible => nomatch impossible)
  | some target =>
      unfold hook
      by_cases hasEntry : target ∈ state.mUnhooks self
      · simp only [if_pos hasEntry]
        exact .kept _ (fun _ impossible => nomatch impossible)
      · simp only [if_neg hasEntry]
        cases found.failure with
        | some throwable => exact .kept _ (fun _ impossible => nomatch impossible)
        | none =>
            have size : (found.members reflection target).length =
                (reflection.declared target).length := List.length_map _
            have executables : (found.members reflection target).map Member.executable =
                reflection.declared target := by
              simp [Lookup.members, Function.comp_def]
            have declared : ∀ member ∈ found.members reflection target,
                member.executable.declaringClass = target := by
              intro member present
              apply reflection.declaringClass
              rw [← executables]
              exact List.mem_map_of_mem present
            have absent : ∀ member ∈ found.members reflection target, ∀ id holder,
                state.patchwork.pairs.lookup id = some (holder, self) →
                  holder.executable ≠ member.executable := by
              intro member present id holder live same
              have holds := ledger.complete id holder self isSelf live
              rw [same, declared member present, held_eq_nil hasEntry] at holds
              exact nomatch holds
            obtain ⟨results, bound', patchwork, loops, atMost, loop⟩ := patchMembers_spec
              isSelf found.faults (found.members reflection target) ledger
              (size ▸ small target rfl) declared (executables ▸ reflection.nodup target)
              absent
            simp only [loops]
            exact .created target rfl hasEntry _ results bound' (size ▸ atMost) patchwork loop

/-- Everything `Logcat.unhook` can do. -/
inductive UnhookResult (bound : Nat) (state : Framework) (self : Patch)
    (clazz : Option JavaClass) : Except Throwable Unit × Framework → Prop where
  | kept (missing : ∀ target, clazz = some target → target ∉ state.mUnhooks self) :
      UnhookResult bound state self clazz (.ok (), state)
  | removed (target : JavaClass) (isTarget : clazz = some target) (ids : List Int64)
      (isEntry : (state.mUnhooks self).lookup target = some ids) (patchwork : Patchwork)
      (loop : UnhookLoop self target ids bound state.patchwork state.held state.userIds
        patchwork) :
      UnhookResult bound state self clazz
        (.ok (), { state.setUnhooks self ((state.mUnhooks self).erase target) with
          patchwork := patchwork })

theorem unhook_cases (ledger : Ledger bound state.patchwork state.held state.userIds)
    {self : Patch} (isSelf : IsLogger self) (clazz : Option JavaClass) :
    UnhookResult bound state self clazz (state.unhook self clazz) := by
  cases clazz with
  | none => exact .kept (fun _ impossible => nomatch impossible)
  | some target =>
      cases isEntry : (state.mUnhooks self).lookup target with
      | none =>
          simp only [unhook, isEntry]
          refine .kept ?_
          intro other isOther
          cases isOther
          exact AList.lookup_eq_none.mp isEntry
      | some ids =>
          have isHeld : state.held self target = ids := by
            unfold held
            rw [isEntry]
            rfl
          obtain ⟨patchwork, loops, loop⟩ := recoverIds_spec isSelf ids ledger isHeld
          have unhooked : state.unhook self (some target) =
              (.ok (), { state.setUnhooks self ((state.mUnhooks self).erase target) with
                patchwork := patchwork }) := by
            simp only [unhook, isEntry, setUnhooks, loops]
          rw [unhooked]
          exact .removed target rfl ids isEntry patchwork loop

/-- `hook` on a logger, answered as one call of the run. -/
theorem Coherent.hook (coherent : Coherent lucy bound past state) {self : Patch}
    (isSelf : IsLogger self) (clazz : JavaClass) (found : Lookup)
    (small : bound + (reflection.declared clazz).length ≤ 2 ^ 64) (op : Op)
    (returns : ∀ logger other, creation lucy logger other (op, .hooked .returned) = none)
    (throws : ∀ throwable logger other,
      creation lucy logger other (op, .hooked (.threw throwable)) = none)
    (creates : ∀ results logger other,
      creation lucy logger other (op, .hooked (.created results)) =
        if logger = self ∧ other = clazz then some results else none) :
    ∃ bound' ≤ bound + (reflection.declared clazz).length, Coherent lucy bound'
      (past ++ [(op, .hooked (state.hook reflection self (some clazz) found).1)])
      (state.hook reflection self (some clazz) found).2 := by
  have result := hook_cases coherent.ledger isSelf (some clazz) found (by
    intro target isTarget
    cases isTarget
    exact small)
  generalize state.hook reflection self (some clazz) found = outcome at result
  cases result with
  | kept answer isQuiet =>
      refine ⟨bound, Nat.le_add_right _ _, coherent.answered ?_⟩
      cases answer with
      | returned => exact returns
      | threw throwable => exact throws throwable
      | created results => exact absurd rfl (isQuiet results)
  | created target isTarget missing members results bound' atMost patchwork loop =>
      cases isTarget
      exact ⟨bound', atMost, coherent.create (creates results) missing rfl rfl loop⟩

/-- `unhook` on a logger. -/
theorem Coherent.unhook (coherent : Coherent lucy bound past state) {self : Patch}
    (isSelf : IsLogger self) (clazz : Option JavaClass) :
    (state.unhook self clazz).1 = .ok () ∧
      Coherent lucy bound past (state.unhook self clazz).2 := by
  have result := unhook_cases coherent.ledger isSelf clazz
  generalize state.unhook self clazz = outcome at result
  cases result with
  | kept => exact ⟨rfl, coherent⟩
  | removed target isTarget ids isEntry patchwork loop =>
      exact ⟨rfl, coherent.remove isSelf isEntry rfl rfl loop⟩

/-- The sets of `Lucy` are no part of the ledger. -/
theorem Coherent.lucySets (coherent : Coherent lucy bound past state)
    (mIgnored : List String) (mHooking : List JavaClass) :
    Coherent lucy bound past
      { state with mIgnored := mIgnored, mHooking := mHooking } :=
  coherent.other rfl coherent.ledger (fun _ _ _ _ live => live)

theorem lucy_isLogger (lucy : LucyObject) : IsLogger lucy.val := by
  intro isPlugin
  rw [lucy.property] at isPlugin
  exact nomatch isPlugin

theorem logger_isLogger (logger : Logger) : IsLogger logger.val := by
  intro isPlugin
  rw [logger.property] at isPlugin
  exact nomatch isPlugin

theorem Coherent.lucyUnhook (coherent : Coherent lucy bound past state)
    (clazz : Option JavaClass) :
    (state.lucyUnhook lucy.val clazz).1 = .ok () ∧
      Coherent lucy bound past (state.lucyUnhook lucy.val clazz).2 := by
  cases clazz with
  | none => exact ⟨rfl, coherent⟩
  | some target =>
      obtain ⟨ok, coherent'⟩ := coherent.unhook (lucy_isLogger lucy) (some target)
      cases outcome : state.unhook lucy.val (some target) with
      | mk result state' =>
          rw [outcome] at ok coherent'
          obtain rfl : result = .ok () := ok
          simp only [Framework.lucyUnhook, outcome]
          exact ⟨trivial, coherent'.lucySets _ _⟩

theorem Coherent.unhookIgnored (packageName : String) (classes : List JavaClass)
    {state : Framework} (coherent : Coherent lucy bound past state) :
    (state.unhookIgnored lucy.val packageName classes).1 = .ok () ∧
      Coherent lucy bound past (state.unhookIgnored lucy.val packageName classes).2 := by
  induction classes generalizing state with
  | nil => exact ⟨rfl, coherent⟩
  | cons clazz rest inductionHypothesis =>
      by_cases ignored : startsWith clazz.name packageName
      · obtain ⟨ok, coherent'⟩ := coherent.lucyUnhook (some clazz)
        cases outcome : state.lucyUnhook lucy.val (some clazz) with
        | mk result state' =>
            rw [outcome] at ok coherent'
            obtain rfl : result = .ok () := ok
            simp only [Framework.unhookIgnored, ignored, if_true, outcome]
            exact inductionHypothesis coherent'
      · simp only [Framework.unhookIgnored, ignored, if_false, Bool.false_eq_true]
        exact inductionHypothesis coherent

theorem Coherent.ignore (coherent : Coherent lucy bound past state)
    (packageName : Option String) :
    (state.ignore lucy.val packageName).1 = .ok () ∧
      Coherent lucy bound past (state.ignore lucy.val packageName).2 := by
  cases packageName with
  | none => exact ⟨rfl, coherent⟩
  | some packageName => exact Coherent.unhookIgnored packageName _ (coherent.lucySets _ _)

/-- `patch` by another user. -/
theorem Coherent.patch (coherent : Coherent lucy bound past state) (small : bound < 2 ^ 64)
    (member : Option Member) (plugin : Plugin) (faults : AddFaults) :
    ∃ bound' ≤ bound + 1, Coherent lucy bound' past
      (state.step reflection lucy (.patch member plugin faults)).2 := by
  have ledger := coherent.ledger
  have result := Patchwork.patch_cases ledger.hosted member (some plugin.val) faults
  simp only [Framework.step]
  generalize state.patchwork.patch member (some plugin.val) faults = outcome at result
  cases result with
  | failed throwable _ patchwork hosted _ count pairs snapshot =>
      refine ⟨bound, by omega, coherent.other rfl (ledger.congr hosted count pairs snapshot) ?_⟩
      intro id holder logger _ live
      exact (congrArg (AList.lookup id) pairs).trans live
  | existing holder patch isMember isPatch id live =>
      cases isPatch
      exact ⟨bound, by omega, coherent.other rfl (ledger.repeat_plugin plugin.property live)
        (fun _ _ _ _ isLive => isLive)⟩
  | registered holder patch isMember isPatch _ patchwork hosted _ count pairs snapshot =>
      cases isPatch
      refine ⟨bound + 1, le_rfl, coherent.other rfl (ledger.register_plugin small
        plugin.property ⟨hosted, count, pairs, snapshot⟩) ?_⟩
      intro id member logger _ live
      change patchwork.pairs.lookup id = _
      rw [pairs, lookup_insert_iff (ledger.next_free small)]
      exact Or.inr live

/-- `recover` by another user. -/
theorem Coherent.recover (coherent : Coherent lucy bound past state) (position : Nat) :
    Coherent lucy bound past (state.step reflection lucy (.recover position)).2 := by
  have ledger := coherent.ledger
  simp only [Framework.step]
  cases isHeld : state.userIds[position]? with
  | none => exact coherent
  | some id =>
      have issued : id ∈ state.userIds := List.mem_of_getElem? isHeld
      have result := Patchwork.recover_cases ledger.hosted id
      simp only
      generalize state.patchwork.recover id = outcome at result
      cases result with
      | unknown => exact coherent
      | recovered member patch live patchwork hosted _ count pairs snapshot =>
          have plugin := ledger.foreign id issued member patch live
          refine coherent.other rfl (ledger.recover_plugin plugin
            ⟨live, hosted, count, pairs, snapshot⟩) ?_
          intro other holder logger isLogger isLive
          change patchwork.pairs.lookup other = _
          rw [pairs, lookup_erase_iff]
          refine ⟨?_, isLive⟩
          rintro rfl
          rw [live] at isLive
          cases isLive
          exact isLogger plugin

/-- How many `Patchwork.patch` calls an operation makes at most. -/
def Op.patchCalls (reflection : Reflection) : Op → Nat
  | .hook _ (some clazz) _ => (reflection.declared clazz).length
  | .lucyHook (some clazz) _ => (reflection.declared clazz).length
  | .patch _ _ _ => 1
  | _ => 0

def patchCalls (reflection : Reflection) (ops : List Op) : Nat :=
  (ops.map (Op.patchCalls reflection)).sum

/-- **Every call keeps the ledger**, as long as ids do not come back. -/
theorem Coherent.step (reflection : Reflection)
    (coherent : Coherent lucy bound past state) (op : Op)
    (small : bound + op.patchCalls reflection ≤ 2 ^ 64) :
    ∃ bound' ≤ bound + op.patchCalls reflection,
      Coherent lucy bound' (past ++ [(op, (state.step reflection lucy op).1)])
        (state.step reflection lucy op).2 := by
  cases op with
  | hook logger clazz found =>
      cases clazz with
      | none => exact ⟨bound, le_rfl, coherent.answered (fun _ _ => rfl)⟩
      | some clazz =>
          exact coherent.hook (logger_isLogger logger) clazz found small _ (fun _ _ => rfl)
            (fun _ _ _ => rfl) (fun _ _ _ => rfl)
  | unhook logger clazz =>
      exact ⟨bound, le_rfl, (coherent.unhook (logger_isLogger logger) clazz).2.answered
        (fun _ _ => rfl)⟩
  | lucyIgnore packageName =>
      exact ⟨bound, le_rfl, (coherent.ignore packageName).2.answered (fun _ _ => rfl)⟩
  | lucyHook clazz found =>
      cases clazz with
      | none => exact ⟨bound, le_rfl, coherent.answered (fun _ _ => rfl)⟩
      | some clazz =>
          by_cases ignored : state.mIgnored.any (Logcat.startsWith clazz.name)
          · simp only [Framework.step, lucyHook, ignored, if_true]
            exact ⟨bound, Nat.le_add_right _ _, coherent.answered (fun _ _ => rfl)⟩
          · simp only [Framework.step, lucyHook, ignored, if_false, Bool.false_eq_true]
            exact (coherent.lucySets state.mIgnored (state.mHooking.insert clazz)).hook
              (lucy_isLogger lucy) clazz found small _ (fun _ _ => rfl) (fun _ _ _ => rfl)
              (fun _ _ _ => rfl)
  | lucyUnhook clazz =>
      exact ⟨bound, le_rfl, (coherent.lucyUnhook clazz).2.answered (fun _ _ => rfl)⟩
  | patch member plugin faults =>
      obtain ⟨bound', atMost, coherent'⟩ := coherent.patch small member plugin faults
      exact ⟨bound', atMost, coherent'.answered (fun _ _ => rfl)⟩
  | recover position =>
      exact ⟨bound, le_rfl, (coherent.recover position).answered (fun _ _ => rfl)⟩

/-- **Every run keeps the ledger** that makes at most `2 ^ 64` registrations. -/
theorem coherent_after (reflection : Reflection) (lucy : LucyObject) (ops : List Op)
    (small : patchCalls reflection ops ≤ 2 ^ 64) :
    ∃ bound ≤ patchCalls reflection ops,
      Coherent lucy bound (Framework.past reflection lucy ops)
        (after reflection lucy ops) := by
  induction ops using List.reverseRecOn with
  | nil =>
      refine ⟨0, le_rfl, initial_ledger, ?_⟩
      intro logger clazz ids _ isEntry
      exact nomatch isEntry
  | append_singleton ops op inductionHypothesis =>
      have total : patchCalls reflection (ops ++ [op]) =
          patchCalls reflection ops + op.patchCalls reflection := by
        simp [patchCalls]
      rw [total] at small ⊢
      obtain ⟨bound, atMost, coherent⟩ := inductionHypothesis (by omega)
      obtain ⟨bound', atMost', coherent'⟩ := coherent.step reflection op (by omega)
      refine ⟨bound', by omega, ?_⟩
      unfold Framework.past after
      rw [history_append, run_append]
      exact coherent'

end Calls

/-! ## Hooking and unhooking a class -/

/-- The two loops, one after the other, leave every snapshot as it was. -/
theorem snapshot_unhook_hook {self : Patch} (isSelf : IsLogger self) {clazz : JavaClass}
    {members : List Member} {bound bound' : Nat} {state between final : Patchwork}
    {held : Held} {userIds : List Int64} {results : HookResults}
    (ledger : Ledger bound state held userIds) (missing : held self clazz = [])
    (hooked : HookLoop self clazz members state held userIds results bound' between)
    (unhooked : UnhookLoop self clazz (unhooks results) bound' between
      (held.set self clazz (unhooks results)) userIds final) (executable : Executable) :
    final.snapshot executable = state.snapshot executable := by
  by_cases succeeded : Succeeded results executable
  · obtain ⟨member, id, present, rfl⟩ := succeeded
    have collected : id ∈ unhooks results := mem_unhooks_iff.mpr ⟨member, present⟩
    have live := hooked.live member id present
    have declares : member.executable.declaringClass = clazz := by
      have holds : id ∈ held.set self clazz (held self clazz ++ unhooks results) self clazz := by
        rw [Held.set_self]
        exact List.mem_append_right _ collected
      obtain ⟨holder, isLive, declares⟩ := hooked.ledger.sound self clazz isSelf id holds
      rw [live] at isLive
      cases isLive
      exact declares
    have inactive : self ∉ state.snapshot member.executable := by
      intro active
      obtain ⟨other, holder, isLive, same⟩ :=
        (ledger.effect self member.executable isSelf).mp active
      have holds := ledger.complete other holder self isSelf isLive
      rw [same, declares, missing] at holds
      exact nomatch holds
    rw [unhooked.removed id collected member live,
      hooked.added _ ⟨member, id, present, rfl⟩]
    exact CopyOnWriteSortedSet.erase_added (state.snapshot_sorted _) inactive
  · rw [unhooked.unchanged, hooked.unchanged executable succeeded]
    intro id collected member live same
    obtain ⟨holder, present⟩ := mem_unhooks_iff.mp collected
    have isLive := hooked.live holder id present
    rw [live] at isLive
    cases isLive
    exact succeeded ⟨member, id, present, same⟩

theorem Coherent.restores {reflection : Reflection} {lucy : LucyObject} {bound : Nat}
    {past : List (Op × Answer)} {state : Framework}
    (coherent : Coherent lucy bound past state) {self : Patch} (isSelf : IsLogger self)
    {clazz : JavaClass} (found : Lookup)
    (small : bound + (reflection.declared clazz).length ≤ 2 ^ 64)
    (missing : clazz ∉ state.mUnhooks self) (executable : Executable) :
    ((state.hook reflection self (some clazz) found).2.unhook self
        (some clazz)).2.patchwork.snapshot executable =
      state.patchwork.snapshot executable := by
  have result := hook_cases coherent.ledger isSelf (some clazz) found (by
    intro target isTarget
    cases isTarget
    exact small)
  generalize state.hook reflection self (some clazz) found = outcome at result
  cases result with
  | kept answer _ =>
      have noEntry := AList.lookup_eq_none.mpr missing
      simp only [Framework.unhook, noEntry]
  | created target isTarget _ members results bound' _ patchwork loop =>
      cases isTarget
      have isEntry : ((Framework.setUnhooks { state with patchwork := patchwork } self
          ((state.mUnhooks self).insert clazz (unhooks results))).mUnhooks self).lookup clazz =
            some (unhooks results) := by
        simp [setUnhooks]
      have ledger := loop.ledger
      rw [held_eq_nil missing, List.nil_append] at ledger
      obtain ⟨final, loops, unhooked⟩ := recoverIds_spec isSelf (unhooks results) ledger
        (Held.set_self _ _ _ _)
      have result : ((Framework.setUnhooks { state with patchwork := patchwork } self
          ((state.mUnhooks self).insert clazz (unhooks results))).unhook self
            (some clazz)).2.patchwork = final := by
        simp only [Framework.unhook, isEntry]
        change (recoverIds (unhooks results) patchwork).2 = final
        rw [loops]
      change ((Framework.setUnhooks { state with patchwork := patchwork } self
        ((state.mUnhooks self).insert clazz (unhooks results))).unhook self
          (some clazz)).2.patchwork.snapshot executable = _
      rw [result]
      exact snapshot_unhook_hook isSelf coherent.ledger (held_eq_nil missing) loop unhooked
        executable

/-- **Loggers are active where their entries say**, and `unhook` undoes
`hook`. -/
structure LoggersAgree (reflection : Reflection) (lucy : LucyObject) (ops : List Op) :
    Prop where
  active : ∀ logger executable, IsLogger logger →
    (logger ∈ (after reflection lucy ops).patchwork.snapshot executable ↔
      executable.declaringClass ∈ (after reflection lucy ops).mUnhooks logger ∧
        ∃ results, creator lucy (Framework.past reflection lucy ops) logger
            executable.declaringClass = some results ∧ Succeeded results executable)
  restores : ∀ (logger : Logger) clazz found,
    patchCalls reflection (ops ++ [.hook logger (some clazz) found]) ≤ 2 ^ 64 →
    clazz ∉ (after reflection lucy ops).mUnhooks logger.val →
      ∀ executable, (after reflection lucy (ops ++ [.hook logger (some clazz) found,
          .unhook logger (some clazz)])).patchwork.snapshot executable =
        (after reflection lucy ops).patchwork.snapshot executable

theorem loggersAgree (reflection : Reflection) (lucy : LucyObject) (ops : List Op)
    (few : patchCalls reflection ops ≤ 2 ^ 64) : LoggersAgree reflection lucy ops := by
  obtain ⟨bound, atMost, coherent⟩ := coherent_after reflection lucy ops few
  refine ⟨fun logger executable isLogger => coherent.active_iff isLogger executable, ?_⟩
  intro logger clazz found fewer missing executable
  have total : patchCalls reflection (ops ++ [.hook logger (some clazz) found]) =
      patchCalls reflection ops + (reflection.declared clazz).length := by
    simp [patchCalls, Op.patchCalls]
  have final : after reflection lucy (ops ++ [.hook logger (some clazz) found,
      .unhook logger (some clazz)]) =
        (((after reflection lucy ops).hook reflection logger.val (some clazz) found).2.unhook
          logger.val (some clazz)).2 := by
    unfold after
    rw [run_append]
    rfl
  rw [final]
  exact coherent.restores (logger_isLogger logger) found (by omega) missing executable

/-! ## Two runs -/

/-- Hooked by a logger and by `Lucy`, and a member of the class patched by
another user. -/
theorem hookedTwice_agree :
    LoggersAgree .oneMethod .sample
      [.hook .sample (some ⟨"app.Main", 1⟩) .quiet, .lucyHook (some ⟨"app.Main", 1⟩) .quiet,
        .patch (some ⟨.method ⟨"app.Main", 1⟩ "run" .void [], 5⟩) .sample .none,
        .unhook .sample (some ⟨"app.Main", 1⟩)] :=
  loggersAgree _ _ _ (by decide)

/-- Rounds of another user: register a patch and recover it at once. -/
def userRounds : Nat → List Op
  | 0 => []
  | count + 1 =>
      userRounds count ++ [.patch (some .objectToString) .sample .none, .recover 0]

/-- A logger hooks a class, another user brings its id back and holds it, and
the logger unhooks the class. -/
def idBack (count : Nat) : List Op :=
  [.hook .sample (some ⟨"app.Main", 1⟩) .quiet] ++ userRounds count ++
    [.patch (some .objectToString) .sample .none, .unhook .sample (some ⟨"app.Main", 1⟩)]

/-- Another user registers its patch: it now holds the next id. -/
theorem step_userPatch {state : Framework} (hosted : state.patchwork.Hosted)
    (unpaired : ∀ id, state.patchwork.pairs.lookup id ≠
      some (.objectToString, Plugin.sample.val)) :
    (state.step .oneMethod .sample (.patch (some .objectToString) .sample .none)).2 =
      { state with
        patchwork := (state.patchwork.step
          (.patch (some .objectToString) (some Plugin.sample.val) .none)).2
        userIds := (state.patchwork.count + 1) :: state.userIds } := by
  have registers := (Patchwork.patch_of_unpaired hosted unpaired).1
  cases outcome : state.patchwork.patch (some .objectToString) (some Plugin.sample.val)
      .none with
  | mk result between =>
      rw [outcome] at registers
      obtain rfl : result = .ok (state.patchwork.count + 1) := registers
      simp only [step, outcome, Patchwork.step]

theorem run_userRound {state : Framework}
    (ready : state.patchwork.Ready .objectToString Plugin.sample.val) :
    (run (step .oneMethod .sample) state
        [.patch (some .objectToString) .sample .none, .recover 0]).patchwork =
      state.patchwork.round .objectToString Plugin.sample.val ∧
    (run (step .oneMethod .sample) state
        [.patch (some .objectToString) .sample .none, .recover 0]).mUnhooks =
      state.mUnhooks := by
  simp only [run, step_userPatch ready.hosted ready.unpaired]
  exact ⟨rfl, rfl⟩

theorem run_userRounds {state : Framework} {total : Nat}
    (clear : state.patchwork.Clear .objectToString Plugin.sample.val total) (count : Nat)
    (atMost : count ≤ total) :
    (run (step .oneMethod .sample) state (userRounds count)).patchwork =
        (Patchwork.round · .objectToString Plugin.sample.val)^[count] state.patchwork ∧
      (run (step .oneMethod .sample) state (userRounds count)).mUnhooks =
        state.mUnhooks := by
  induction count with
  | zero => exact ⟨rfl, rfl⟩
  | succ count inductionHypothesis =>
      obtain ⟨patchwork, entries⟩ := inductionHypothesis (by omega)
      have ready := (Patchwork.iterate_ready clear count (by omega)).2
      rw [← patchwork] at ready
      obtain ⟨patchwork', entries'⟩ := run_userRound ready
      unfold userRounds
      rw [run_append, Function.iterate_succ_apply', ← patchwork]
      exact ⟨patchwork', entries'.trans entries⟩

/-- The state after the first call of `idBack`. -/
def hookedOnce : Framework :=
  after .oneMethod .sample [.hook .sample (some ⟨"app.Main", 1⟩) .quiet]

theorem after_idBack (count : Nat) :
    after .oneMethod .sample (idBack count) =
      run (step .oneMethod .sample)
        (run (step .oneMethod .sample) hookedOnce (userRounds count))
        [.patch (some .objectToString) .sample .none,
          .unhook .sample (some ⟨"app.Main", 1⟩)] := by
  rw [after, idBack, run_append, run_append]
  rfl

private theorem hookedOnce_clear :
    hookedOnce.patchwork.Clear .objectToString Plugin.sample.val (2 ^ 64 - 1) := by
  have single : hookedOnce.patchwork.Single
      (⟨.method ⟨"app.Main", 1⟩ "run" .void [], 0⟩, Logger.sample.val) :=
    ⟨rfl, rfl, rfl⟩
  exact single.clear (by decide) (by decide)

theorem recoverIds_singleton (id : Int64) (state : Patchwork) :
    (recoverIds [id] state).2 = (state.recover id).2 := by
  cases outcome : state.recover id with
  | mk result final =>
      simp only [recoverIds, outcome]
      cases result <;> rfl

/-- The logger recovers the registration of the other user, and stays active on
a class without an entry. -/
theorem not_agree_of_idBack {count : Nat}
    (clear : hookedOnce.patchwork.Clear .objectToString Plugin.sample.val count)
    (back : hookedOnce.patchwork.count + Int64.ofNat count + 1 = 1) :
    ¬ LoggersAgree .oneMethod .sample (idBack count) := by
  intro agree
  obtain ⟨patchwork, entries⟩ := run_userRounds clear count le_rfl
  obtain ⟨hosted, reached, agrees⟩ := Patchwork.iterate_round clear count le_rfl
  rw [← patchwork] at hosted reached agrees
  have final := after_idBack count
  generalize run (step .oneMethod .sample) hookedOnce (userRounds count) = between
    at hosted reached agrees entries final
  have next : between.patchwork.count + 1 = 1 := by
    rw [reached, back]
  obtain ⟨unpaired, inactive⟩ := clear.unknown agrees
  have rounded := Patchwork.round_rounded hosted unpaired inactive
  have isEntry : (between.mUnhooks Logger.sample.val).lookup ⟨"app.Main", 1⟩ = some [1] := by
    rw [entries]
    rfl
  have unhooked : (after .oneMethod .sample (idBack count)).patchwork =
        between.patchwork.round .objectToString Plugin.sample.val ∧
      (after .oneMethod .sample (idBack count)).mUnhooks Logger.sample.val =
        (between.mUnhooks Logger.sample.val).erase ⟨"app.Main", 1⟩ := by
    rw [final]
    simp only [run, step_userPatch hosted unpaired]
    simp only [step, unhook, isEntry, setUnhooks]
    refine ⟨?_, Function.update_self _ _ _⟩
    rw [recoverIds_singleton, Patchwork.round, next]
    rfl
  have active := agree.active Logger.sample.val
    (.method ⟨"app.Main", 1⟩ "run" .void []) (logger_isLogger .sample)
  rw [unhooked.1, unhooked.2, rounded.snapshot, agrees.snapshot] at active
  have hasEntry := (active.mp (by decide)).1
  exact absurd rfl (AList.mem_erase.mp hasEntry).1

theorem idBack_not_agree :
    ¬ LoggersAgree .oneMethod .sample (idBack (2 ^ 64 - 1)) :=
  not_agree_of_idBack hookedOnce_clear (by decide)

end Framework

end AndroidPatch.Logcat
