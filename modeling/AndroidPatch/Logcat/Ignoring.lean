import AndroidPatch.Logcat.Agreement

/-!
Contract: the packages `Lucy` ignores, after any calls by any users.

Owns:
- where a call can make a patch active, whatever ids it meets;
- `LucyInvariant`: every class with an entry is in `mHooking`, and no class in
  `mHooking` is ignored;
- `Lucy` is never activated on a class of an ignored package, and is inactive
  there as long as ids do not come back;
- a run in which an id comes back and `ignore` leaves `Lucy` active.
-/

namespace AndroidPatch.Logcat

open AndroidPatch.Library AndroidPatch.Lang

/-! ## Where a call can make a patch active -/

/-- Nothing becomes active but `owner`, on members of the class. -/
structure Confined (owner : Patch) (clazz : Option JavaClass) (state final : Patchwork) :
    Prop where
  hosted : final.Hosted
  snapshot : ∀ patch executable, patch ∈ final.snapshot executable →
    patch ∈ state.snapshot executable ∨
      (patch = owner ∧ clazz = some executable.declaringClass)

namespace Confined

variable {owner : Patch} {clazz : Option JavaClass} {state between final : Patchwork}

theorem of_unchanged (hosted : final.Hosted)
    (snapshot : ∀ executable, final.snapshot executable = state.snapshot executable) :
    Confined owner clazz state final := by
  refine ⟨hosted, ?_⟩
  intro patch executable active
  rw [snapshot] at active
  exact Or.inl active

theorem trans (early : Confined owner clazz state between)
    (late : Confined owner clazz between final) : Confined owner clazz state final := by
  refine ⟨late.hosted, ?_⟩
  intro patch executable active
  rcases late.snapshot patch executable active with earlier | isSelf
  · exact early.snapshot patch executable earlier
  · exact Or.inr isSelf

end Confined

theorem patch_confined {state : Patchwork} (hosted : state.Hosted) (owner : Patch)
    (member : Option Member) (faults : AddFaults) :
    Confined owner (member.map fun member => member.executable.declaringClass) state
      (state.patch member (some owner) faults).2 := by
  have result := Patchwork.patch_cases hosted member (some owner) faults
  generalize state.patch member (some owner) faults = outcome at result
  cases result with
  | failed _ _ _ hosted' _ _ _ snapshot => exact .of_unchanged hosted' snapshot
  | existing => exact .of_unchanged hosted (fun _ => rfl)
  | registered target patch isMember isPatch _ _ hosted' _ _ _ snapshot =>
      cases isPatch
      refine ⟨hosted', ?_⟩
      intro other executable active
      rw [snapshot] at active
      split_ifs at active with same
      · rcases CopyOnWriteSortedSet.mem_added.mp active with isSelf | earlier
        · refine Or.inr ⟨isSelf, ?_⟩
          rw [isMember, same]
          rfl
        · rw [same]
          exact Or.inl earlier
      · exact Or.inl active

theorem recover_confined {state : Patchwork} (hosted : state.Hosted) (owner : Patch)
    (id : Int64) :
    (∃ found, (state.recover id).1 = .ok found) ∧
      Confined owner none state (state.recover id).2 := by
  have result := Patchwork.recover_cases hosted id
  generalize state.recover id = outcome at result
  cases result with
  | unknown => exact ⟨⟨false, rfl⟩, .of_unchanged hosted (fun _ => rfl)⟩
  | recovered member patch _ _ hosted' _ _ _ snapshot =>
      refine ⟨⟨true, rfl⟩, hosted', ?_⟩
      intro other executable active
      rw [snapshot] at active
      split_ifs at active with same
      · rw [same]
        exact Or.inl (List.mem_of_mem_erase active)
      · exact Or.inl active

theorem patchMembers_confined (owner : Patch) {clazz : JavaClass}
    (faults : Executable → AddFaults) {members : List Member}
    (declared : ∀ member ∈ members, member.executable.declaringClass = clazz)
    {state : Patchwork} (hosted : state.Hosted) :
    Confined owner (some clazz) state (patchMembers owner faults members state).2 := by
  induction members generalizing state with
  | nil => exact .of_unchanged hosted (fun _ => rfl)
  | cons member rest inductionHypothesis =>
      have first := patch_confined hosted owner (some member) (faults member.executable)
      rw [Option.map_some, declared member List.mem_cons_self] at first
      have later := inductionHypothesis
        (fun other present => declared other (List.mem_cons_of_mem _ present)) first.hosted
      unfold patchMembers
      cases outcome : state.patch (some member) (some owner) (faults member.executable) with
      | mk result between =>
          rw [outcome] at first later
          cases loops : patchMembers owner faults rest between with
          | mk results final =>
              rw [loops] at later
              have both := first.trans later
              cases result with
              | ok id => cases results <;> simpa only [loops] using both
              | error throwable =>
                  by_cases isError : isPatchError throwable
                  · simp only [isError, if_true]
                    cases results <;> simpa only [loops] using both
                  · simp only [isError]
                    exact first

theorem recoverIds_confined (owner : Patch) (ids : List Int64) {state : Patchwork}
    (hosted : state.Hosted) :
    (recoverIds ids state).1 = .ok () ∧
      Confined owner none state (recoverIds ids state).2 := by
  induction ids generalizing state with
  | nil => exact ⟨rfl, .of_unchanged hosted (fun _ => rfl)⟩
  | cons id rest inductionHypothesis =>
      obtain ⟨⟨found, isOk⟩, first⟩ := recover_confined hosted owner id
      obtain ⟨ok, later⟩ := inductionHypothesis first.hosted
      unfold recoverIds
      cases outcome : state.recover id with
      | mk result between =>
          rw [outcome] at isOk first later ok
          obtain rfl : result = .ok found := isOk
          exact ⟨ok, first.trans later⟩

namespace Framework

/-- Nothing becomes active and no entry appears but those of `owner` for the
class. -/
structure Touches (owner : Patch) (clazz : Option JavaClass) (state final : Framework) :
    Prop where
  patchwork : Confined owner clazz state.patchwork final.patchwork
  mIgnored : final.mIgnored = state.mIgnored
  mHooking : final.mHooking = state.mHooking
  entries : ∀ logger other, other ∈ final.mUnhooks logger →
    other ∈ state.mUnhooks logger ∨ (logger = owner ∧ clazz = some other)

theorem Touches.of_eq {owner : Patch} {clazz : Option JavaClass} {state : Framework}
    (hosted : state.patchwork.Hosted) : Touches owner clazz state state :=
  ⟨.of_unchanged hosted (fun _ => rfl), rfl, rfl, fun _ _ present => Or.inl present⟩

theorem hook_touches (reflection : Reflection) {state : Framework}
    (hosted : state.patchwork.Hosted) (owner : Patch) (clazz : Option JavaClass)
    (found : Lookup) :
    Touches owner clazz state (state.hook reflection owner clazz found).2 := by
  cases clazz with
  | none => exact .of_eq hosted
  | some target =>
      have declared : ∀ member ∈ found.members reflection target,
          member.executable.declaringClass = target := by
        intro member present
        obtain ⟨executable, isDeclared, rfl⟩ := List.mem_map.mp present
        exact reflection.declaringClass target executable isDeclared
      have loop := patchMembers_confined owner found.faults declared hosted
      unfold hook
      by_cases hasEntry : target ∈ state.mUnhooks owner
      · simp only [if_pos hasEntry]
        exact .of_eq hosted
      · simp only [if_neg hasEntry]
        cases found.failure with
        | some throwable => exact .of_eq hosted
        | none =>
            cases loops : patchMembers owner found.faults (found.members reflection target)
                state.patchwork with
            | mk results patchwork =>
                rw [loops] at loop
                cases results with
                | error throwable =>
                    exact ⟨loop, rfl, rfl, fun _ _ present => Or.inl present⟩
                | ok results =>
                    refine ⟨loop, rfl, rfl, ?_⟩
                    intro logger other present
                    change other ∈ Function.update state.mUnhooks owner _ logger at present
                    by_cases isOwner : logger = owner
                    · subst isOwner
                      rw [Function.update_self] at present
                      rcases AList.mem_insert _ |>.mp present with same | earlier
                      · exact Or.inr ⟨rfl, congrArg some same.symm⟩
                      · exact Or.inl earlier
                    · rw [Function.update_of_ne isOwner] at present
                      exact Or.inl present

/-- `unhook` succeeds, and its class has no entry afterwards. -/
theorem unhook_touches {state : Framework} (hosted : state.patchwork.Hosted)
    (owner : Patch) (clazz : Option JavaClass) :
    (state.unhook owner clazz).1 = .ok () ∧
      Touches owner none state (state.unhook owner clazz).2 ∧
      ∀ target, clazz = some target →
        target ∉ (state.unhook owner clazz).2.mUnhooks owner := by
  cases clazz with
  | none => exact ⟨rfl, .of_eq hosted, fun _ impossible => nomatch impossible⟩
  | some target =>
      cases isEntry : (state.mUnhooks owner).lookup target with
      | none =>
          simp only [unhook, isEntry]
          refine ⟨trivial, .of_eq hosted, ?_⟩
          intro other isOther
          cases isOther
          exact AList.lookup_eq_none.mp isEntry
      | some ids =>
          obtain ⟨ok, loop⟩ := recoverIds_confined owner ids hosted
          simp only [unhook, isEntry, setUnhooks]
          refine ⟨ok, ⟨loop, rfl, rfl, ?_⟩, ?_⟩
          · intro logger other present
            change other ∈ Function.update state.mUnhooks owner _ logger at present
            by_cases isOwner : logger = owner
            · subst isOwner
              rw [Function.update_self] at present
              exact Or.inl (AList.mem_erase.mp present).2
            · rw [Function.update_of_ne isOwner] at present
              exact Or.inl present
          · intro other isOther present
            cases isOther
            rw [Function.update_self] at present
            exact absurd rfl (AList.mem_erase.mp present).1

/-! ## The sets of `Lucy` -/

/-- Every class with an entry of `Lucy` is in `mHooking`. -/
structure Recorded (lucy : LucyObject) (state : Framework) : Prop where
  hosted : state.patchwork.Hosted
  nodup : state.mHooking.Nodup
  recorded : ∀ clazz ∈ state.mUnhooks lucy.val, clazz ∈ state.mHooking

/-- Steps of `Lucy` that only take classes out. -/
structure Shrinks (lucy : LucyObject) (state final : Framework) : Prop where
  recorded : Recorded lucy final
  patchwork : Confined lucy.val none state.patchwork final.patchwork
  mIgnored : final.mIgnored = state.mIgnored
  mHooking : ∀ clazz ∈ final.mHooking, clazz ∈ state.mHooking

theorem Shrinks.of_eq {lucy : LucyObject} {state : Framework}
    (recorded : Recorded lucy state) : Shrinks lucy state state :=
  ⟨recorded, .of_unchanged recorded.hosted (fun _ => rfl), rfl, fun _ present => present⟩

theorem Shrinks.trans {lucy : LucyObject} {state between final : Framework}
    (early : Shrinks lucy state between) (late : Shrinks lucy between final) :
    Shrinks lucy state final :=
  ⟨late.recorded, early.patchwork.trans late.patchwork, late.mIgnored.trans early.mIgnored,
    fun clazz present => early.mHooking clazz (late.mHooking clazz present)⟩

theorem lucyUnhook_shrinks {lucy : LucyObject} {state : Framework}
    (recorded : Recorded lucy state) (clazz : Option JavaClass) :
    (state.lucyUnhook lucy.val clazz).1 = .ok () ∧
      Shrinks lucy state (state.lucyUnhook lucy.val clazz).2 ∧
      ∀ target, clazz = some target →
        target ∉ (state.lucyUnhook lucy.val clazz).2.mHooking := by
  cases clazz with
  | none => exact ⟨rfl, .of_eq recorded, fun _ impossible => nomatch impossible⟩
  | some target =>
      obtain ⟨ok, touches, gone⟩ := unhook_touches recorded.hosted lucy.val (some target)
      cases outcome : state.unhook lucy.val (some target) with
      | mk result final =>
          rw [outcome] at ok touches gone
          obtain rfl : result = .ok () := ok
          have nodup : final.mHooking.Nodup := by
            rw [touches.mHooking]
            exact recorded.nodup
          simp only [lucyUnhook, outcome]
          refine ⟨trivial, ⟨⟨touches.patchwork.hosted, nodup.erase _, ?_⟩, touches.patchwork,
            touches.mIgnored, ?_⟩, ?_⟩
          · intro other present
            have isOther : other ≠ target := by
              intro same
              subst same
              exact gone other rfl present
            have earlier : other ∈ state.mUnhooks lucy.val := by
              rcases touches.entries lucy.val other present with earlier | ⟨-, impossible⟩
              · exact earlier
              · exact nomatch impossible
            rw [nodup.mem_erase_iff, touches.mHooking]
            exact ⟨isOther, recorded.recorded other earlier⟩
          · intro other present
            rw [← touches.mHooking]
            exact List.mem_of_mem_erase present
          · intro other isOther present
            cases isOther
            exact absurd rfl (nodup.mem_erase_iff.mp present).1

theorem unhookIgnored_shrinks {lucy : LucyObject} (packageName : String)
    (classes : List JavaClass) {state : Framework} (recorded : Recorded lucy state) :
    (state.unhookIgnored lucy.val packageName classes).1 = .ok () ∧
      Shrinks lucy state (state.unhookIgnored lucy.val packageName classes).2 ∧
      ∀ clazz ∈ classes, startsWith clazz.name packageName →
        clazz ∉ (state.unhookIgnored lucy.val packageName classes).2.mHooking := by
  induction classes generalizing state with
  | nil => exact ⟨rfl, .of_eq recorded, fun _ impossible => nomatch impossible⟩
  | cons clazz rest inductionHypothesis =>
      by_cases ignored : startsWith clazz.name packageName
      · obtain ⟨ok, first, gone⟩ := lucyUnhook_shrinks recorded (some clazz)
        cases outcome : state.lucyUnhook lucy.val (some clazz) with
        | mk result between =>
            rw [outcome] at ok first gone
            obtain rfl : result = .ok () := ok
            obtain ⟨okRest, later, goneRest⟩ := inductionHypothesis first.recorded
            simp only [unhookIgnored, ignored, if_true, outcome]
            refine ⟨okRest, first.trans later, ?_⟩
            intro other isOther isIgnored
            rcases List.mem_cons.mp isOther with same | isRest
            · intro present
              rw [same] at present
              exact gone clazz rfl (later.mHooking clazz present)
            · exact goneRest other isRest isIgnored
      · obtain ⟨okRest, later, goneRest⟩ := inductionHypothesis recorded
        simp only [unhookIgnored, ignored, if_false, Bool.false_eq_true]
        refine ⟨okRest, later, ?_⟩
        intro other isOther isIgnored
        rcases List.mem_cons.mp isOther with same | isRest
        · rw [same] at isIgnored
          exact absurd isIgnored ignored
        · exact goneRest other isRest isIgnored

/-- **What `Lucy` keeps between calls.**  Every class with an entry is in
`mHooking`, and no class in `mHooking` is ignored. -/
structure LucyInvariant (lucy : LucyObject) (state : Framework) : Prop
    extends Recorded lucy state where
  allowed : ∀ clazz ∈ state.mHooking, ∀ packageName ∈ state.mIgnored,
    startsWith clazz.name packageName = false

/-- What one call does to the packages and to `Lucy`: no package is forgotten,
and `Lucy` becomes active on classes only that are not ignored. -/
structure Obeys (lucy : LucyObject) (state final : Framework) : Prop where
  invariant : LucyInvariant lucy final
  kept : ∀ packageName ∈ state.mIgnored, packageName ∈ final.mIgnored
  activates : ∀ executable, lucy.val ∈ final.patchwork.snapshot executable →
    lucy.val ∈ state.patchwork.snapshot executable ∨
      ∀ packageName ∈ state.mIgnored,
        startsWith executable.declaringClass.name packageName = false

section Calls

variable {lucy : LucyObject} {state final : Framework}

theorem LucyInvariant.unchanged (invariant : LucyInvariant lucy state) :
    Obeys lucy state state :=
  ⟨invariant, fun _ present => present, fun _ active => Or.inl active⟩

/-- A call of another user. -/
theorem LucyInvariant.other (invariant : LucyInvariant lucy state) {owner : Patch}
    {clazz : Option JavaClass} (isOther : owner.kind ≠ .lucy)
    (touches : Touches owner clazz state final) : Obeys lucy state final := by
  have different : lucy.val ≠ owner := by
    intro same
    rw [← same] at isOther
    exact isOther lucy.property
  refine ⟨⟨⟨touches.patchwork.hosted, ?_, ?_⟩, ?_⟩, ?_, ?_⟩
  · rw [touches.mHooking]
    exact invariant.nodup
  · intro target present
    rw [touches.mHooking]
    rcases touches.entries lucy.val target present with earlier | ⟨same, -⟩
    · exact invariant.recorded target earlier
    · exact absurd same different
  · rw [touches.mHooking, touches.mIgnored]
    exact invariant.allowed
  · rw [touches.mIgnored]
    exact fun _ present => present
  · intro executable active
    rcases touches.patchwork.snapshot lucy.val executable active with earlier | ⟨same, -⟩
    · exact Or.inl earlier
    · exact absurd same different

theorem Shrinks.obeys (shrinks : Shrinks lucy state final)
    (allowed : ∀ clazz ∈ final.mHooking, ∀ packageName ∈ final.mIgnored,
      startsWith clazz.name packageName = false) : Obeys lucy state final := by
  refine ⟨⟨shrinks.recorded, allowed⟩, ?_, ?_⟩
  · rw [shrinks.mIgnored]
    exact fun _ present => present
  · intro executable active
    rcases shrinks.patchwork.snapshot lucy.val executable active with earlier | ⟨-, impossible⟩
    · exact Or.inl earlier
    · exact nomatch impossible

theorem LucyInvariant.lucyUnhook (invariant : LucyInvariant lucy state)
    (clazz : Option JavaClass) :
    Obeys lucy state (state.lucyUnhook lucy.val clazz).2 := by
  have shrinks := (lucyUnhook_shrinks invariant.toRecorded clazz).2.1
  apply shrinks.obeys
  intro target present packageName isIgnored
  rw [shrinks.mIgnored] at isIgnored
  exact invariant.allowed target (shrinks.mHooking target present) packageName isIgnored

/-- `Lucy.ignore` leaves no class of the package. -/
theorem LucyInvariant.ignore (invariant : LucyInvariant lucy state)
    (packageName : Option String) :
    Obeys lucy state (state.ignore lucy.val packageName).2 := by
  cases packageName with
  | none => exact invariant.unchanged
  | some packageName =>
      have recorded : Recorded lucy
          { state with mIgnored := state.mIgnored.insert packageName } :=
        ⟨invariant.hosted, invariant.nodup, invariant.recorded⟩
      obtain ⟨-, shrinks, gone⟩ := unhookIgnored_shrinks packageName state.mHooking recorded
      change Obeys lucy state (unhookIgnored lucy.val packageName state.mHooking
        { state with mIgnored := state.mIgnored.insert packageName }).2
      have obeys := shrinks.obeys (by
        intro clazz present other isIgnored
        have earlier : clazz ∈ state.mHooking := shrinks.mHooking clazz present
        rw [shrinks.mIgnored] at isIgnored
        rcases List.mem_insert_iff.mp isIgnored with same | isEarlier
        · rw [same]
          by_contra starts
          exact gone clazz earlier (by simpa using starts) present
        · exact invariant.allowed clazz earlier other isEarlier)
      refine ⟨obeys.invariant, ?_, ?_⟩
      · intro other isIgnored
        exact obeys.kept other (List.mem_insert_of_mem isIgnored)
      · intro executable active
        rcases obeys.activates executable active with earlier | fresh
        · exact Or.inl earlier
        · exact Or.inr fun other isIgnored =>
            fresh other (List.mem_insert_of_mem isIgnored)

/-- `Lucy.hook` records a class only if it is not ignored. -/
theorem LucyInvariant.lucyHook (reflection : Reflection)
    (invariant : LucyInvariant lucy state) (clazz : Option JavaClass) (found : Lookup) :
    Obeys lucy state (state.lucyHook reflection lucy.val clazz found).2 := by
  cases clazz with
  | none => exact invariant.unchanged
  | some clazz =>
      unfold Framework.lucyHook
      by_cases ignored : state.mIgnored.any (startsWith clazz.name)
      · simp only [ignored, if_true]
        exact invariant.unchanged
      · have fresh : ∀ packageName ∈ state.mIgnored,
            startsWith clazz.name packageName = false := by
          simpa using ignored
        simp only [ignored, Bool.false_eq_true, if_false]
        have hosted : ({ state with
          mHooking := state.mHooking.insert clazz } : Framework).patchwork.Hosted :=
            invariant.hosted
        have touches := hook_touches reflection hosted lucy.val (some clazz) found
        refine ⟨⟨⟨touches.patchwork.hosted, ?_, ?_⟩, ?_⟩, ?_, ?_⟩
        · rw [touches.mHooking]
          exact invariant.nodup.insert
        · intro other present
          rw [touches.mHooking]
          rcases touches.entries lucy.val other present with earlier | ⟨-, same⟩
          · exact List.mem_insert_of_mem (invariant.recorded other earlier)
          · cases same
            exact List.mem_insert_self
        · intro other present packageName isIgnored
          rw [touches.mIgnored] at isIgnored
          rw [touches.mHooking] at present
          rcases List.mem_insert_iff.mp present with same | earlier
          · rw [same]
            exact fresh packageName isIgnored
          · exact invariant.allowed other earlier packageName isIgnored
        · rw [touches.mIgnored]
          exact fun _ present => present
        · intro executable active
          rcases touches.patchwork.snapshot lucy.val executable active with
            earlier | ⟨-, same⟩
          · exact Or.inl earlier
          · cases same
            exact Or.inr fresh

/-- **Every call keeps what `Lucy` keeps.** -/
theorem LucyInvariant.step (reflection : Reflection) (invariant : LucyInvariant lucy state)
    (op : Op) : Obeys lucy state (state.step reflection lucy op).2 := by
  cases op with
  | hook logger clazz found =>
      apply invariant.other _ (hook_touches reflection invariant.hosted logger.val clazz found)
      rw [logger.property]
      decide
  | unhook logger clazz =>
      apply invariant.other _ (unhook_touches invariant.hosted logger.val clazz).2.1
      rw [logger.property]
      decide
  | lucyIgnore packageName => exact invariant.ignore packageName
  | lucyHook clazz found => exact invariant.lucyHook reflection clazz found
  | lucyUnhook clazz => exact invariant.lucyUnhook clazz
  | patch member plugin faults =>
      have confined := patch_confined invariant.hosted plugin.val member faults
      have touches : Touches plugin.val
          (member.map fun member => member.executable.declaringClass) state
          (state.step reflection lucy (.patch member plugin faults)).2 := by
        simp only [Framework.step]
        cases outcome : state.patchwork.patch member (some plugin.val) faults with
        | mk result patchwork =>
            rw [outcome] at confined
            cases result with
            | ok id => exact ⟨confined, rfl, rfl, fun _ _ present => Or.inl present⟩
            | error => exact ⟨confined, rfl, rfl, fun _ _ present => Or.inl present⟩
      apply invariant.other _ touches
      rw [plugin.property]
      decide
  | recover position =>
      simp only [Framework.step]
      cases state.userIds[position]? with
      | none => exact invariant.unchanged
      | some id =>
          have confined := (recover_confined invariant.hosted lucy.val id).2
          have shrinks : Shrinks lucy state
              { state with patchwork := (state.patchwork.recover id).2 } :=
            ⟨⟨confined.hosted, invariant.nodup, invariant.recorded⟩, confined, rfl,
              fun _ present => present⟩
          exact shrinks.obeys invariant.allowed

end Calls

/-! ## Runs -/

theorem lucyInvariant_after (reflection : Reflection) (lucy : LucyObject) (ops : List Op) :
    LucyInvariant lucy (after reflection lucy ops) := by
  apply run_induction (LucyInvariant lucy)
  · exact ⟨⟨rfl, List.nodup_nil, fun _ impossible => nomatch impossible⟩,
      fun _ impossible => nomatch impossible⟩
  · intro state op invariant
    exact (invariant.step reflection op).invariant

/-- No run forgets a package, and none activates `Lucy` on a class of a package
that is ignored when it begins. -/
theorem run_obeys (reflection : Reflection) {lucy : LucyObject} {state : Framework}
    (invariant : LucyInvariant lucy state) (ops : List Op) :
    Obeys lucy state (run (step reflection lucy) state ops) := by
  induction ops generalizing state with
  | nil => exact invariant.unchanged
  | cons op rest inductionHypothesis =>
      have first := invariant.step reflection op
      have later := inductionHypothesis first.invariant
      refine ⟨later.invariant, ?_, ?_⟩
      · intro packageName isIgnored
        exact later.kept packageName (first.kept packageName isIgnored)
      · intro executable active
        rcases later.activates executable active with earlier | fresh
        · exact first.activates executable earlier
        · exact Or.inr fun packageName isIgnored =>
            fresh packageName (first.kept packageName isIgnored)

theorem mem_mIgnored_ignore {lucy : LucyObject} {state : Framework}
    (invariant : LucyInvariant lucy state) (packageName : String) :
    packageName ∈ (state.ignore lucy.val (some packageName)).2.mIgnored := by
  have recorded : Recorded lucy
      { state with mIgnored := state.mIgnored.insert packageName } :=
    ⟨invariant.hosted, invariant.nodup, invariant.recorded⟩
  have shrinks := (unhookIgnored_shrinks packageName state.mHooking recorded).2.1
  change packageName ∈ (unhookIgnored lucy.val packageName state.mHooking
    { state with mIgnored := state.mIgnored.insert packageName }).2.mIgnored
  rw [shrinks.mIgnored]
  exact List.mem_insert_self

/-- `Lucy` is active on no member of a package once it is ignored. -/
def InactiveOnceIgnored (reflection : Reflection) (lucy : LucyObject) (ops : List Op) :
    Prop :=
  ∀ early packageName late, ops = early ++ .lucyIgnore (some packageName) :: late →
    ∀ executable, startsWith executable.declaringClass.name packageName →
      lucy.val ∉ (after reflection lucy ops).patchwork.snapshot executable

/-- **`Lucy` obeys `ignore`.**  The sets keep step in every reachable state; no
call activates `Lucy` on a package once it is ignored; and until ids come back
`Lucy` is not active there at all. -/
structure ObeysIgnore (reflection : Reflection) (lucy : LucyObject) (ops : List Op) :
    Prop where
  invariant : LucyInvariant lucy (after reflection lucy ops)
  activates : ∀ early packageName late,
    ops = early ++ .lucyIgnore (some packageName) :: late →
      ∀ executable, startsWith executable.declaringClass.name packageName →
        lucy.val ∈ (after reflection lucy ops).patchwork.snapshot executable →
          lucy.val ∈ (after reflection lucy
            (early ++ [.lucyIgnore (some packageName)])).patchwork.snapshot executable
  inactive : patchCalls reflection ops ≤ 2 ^ 64 → InactiveOnceIgnored reflection lucy ops

/-- After `ignore` the package stays ignored. -/
theorem mem_mIgnored_after (reflection : Reflection) (lucy : LucyObject)
    (early : List Op) (packageName : String) (late : List Op) :
    packageName ∈ (after reflection lucy
        (early ++ [.lucyIgnore (some packageName)])).mIgnored ∧
      Obeys lucy (after reflection lucy (early ++ [.lucyIgnore (some packageName)]))
        (after reflection lucy (early ++ .lucyIgnore (some packageName) :: late)) := by
  have reached : after reflection lucy (early ++ .lucyIgnore (some packageName) :: late) =
      run (step reflection lucy)
        (after reflection lucy (early ++ [.lucyIgnore (some packageName)])) late := by
    rw [after, after, ← run_append, List.append_assoc, List.singleton_append]
  constructor
  · unfold after
    rw [run_append]
    exact mem_mIgnored_ignore (lucyInvariant_after reflection lucy early) packageName
  · rw [reached]
    exact run_obeys reflection (lucyInvariant_after reflection lucy _) late

theorem obeysIgnore (reflection : Reflection) (lucy : LucyObject) (ops : List Op) :
    ObeysIgnore reflection lucy ops := by
  have invariant := lucyInvariant_after reflection lucy ops
  refine ⟨invariant, ?_, ?_⟩
  · intro early packageName late isOps executable starts active
    obtain ⟨isIgnored, obeys⟩ :=
      mem_mIgnored_after reflection lucy early packageName late
    rw [isOps] at active
    rcases obeys.activates executable active with earlier | fresh
    · exact earlier
    · rw [fresh packageName isIgnored] at starts
      exact nomatch starts
  · intro few early packageName late isOps executable starts active
    obtain ⟨isIgnored, obeys⟩ :=
      mem_mIgnored_after reflection lucy early packageName late
    obtain ⟨bound, -, coherent⟩ := coherent_after reflection lucy ops few
    have hasEntry := ((coherent.active_iff (lucy_isLogger lucy) executable).mp active).1
    have stillIgnored : packageName ∈ (after reflection lucy ops).mIgnored := by
      rw [isOps]
      exact obeys.kept packageName isIgnored
    rw [invariant.allowed _ (invariant.recorded _ hasEntry) packageName stillIgnored]
      at starts
    exact nomatch starts

/-! ## An id that comes back -/

/-- The class whose package is ignored at the end, and the one that is hooked and
unhooked until the id of the first comes back. -/
def ignoredClass : JavaClass := ⟨"app.Main", 1⟩

def otherClass : JavaClass := ⟨"lib.Main", 1⟩

def lucyRounds : Nat → List Op
  | 0 => []
  | count + 1 =>
      lucyRounds count ++ [.lucyHook (some otherClass) .quiet, .lucyUnhook (some otherClass)]

/-- `Lucy` hooks a class, its id comes back for another class, and the package
of the first is ignored. -/
def ignoredLate (count : Nat) : List Op :=
  [.lucyHook (some ignoredClass) .quiet] ++ lucyRounds count ++
    [.lucyHook (some otherClass) .quiet, .lucyIgnore (some "app.")]

def otherMember : Member := ⟨.method otherClass "run" .void [], 0⟩

/-- Between rounds the first class is hooked under id `1`, and the other is
not. -/
structure BetweenRounds (state : Framework) : Prop where
  isEntry : (state.mUnhooks LucyObject.sample.val).lookup ignoredClass = some [1]
  missing : otherClass ∉ state.mUnhooks LucyObject.sample.val
  mIgnored : state.mIgnored = []
  mHooking : state.mHooking = [ignoredClass]

/-- The other class is hooked, too. -/
def hookedOther (state : Framework) : Framework :=
  { state with
    patchwork := (state.patchwork.step
      (.patch (some otherMember) (some LucyObject.sample.val) .none)).2
    mHooking := [otherClass, ignoredClass]
    mUnhooks := Function.update state.mUnhooks LucyObject.sample.val
      ((state.mUnhooks LucyObject.sample.val).insert otherClass
        [state.patchwork.count + 1]) }

theorem hookedOther_entry (state : Framework) :
    (state.hookedOther.mUnhooks LucyObject.sample.val).lookup otherClass =
      some [state.patchwork.count + 1] := by
  unfold hookedOther
  rw [lookup_update_insert, if_pos ⟨rfl, rfl⟩]

theorem hookedOther_ignoredEntry {state : Framework} (between : BetweenRounds state) :
    (state.hookedOther.mUnhooks LucyObject.sample.val).lookup ignoredClass = some [1] := by
  unfold hookedOther
  rw [lookup_update_insert, if_neg (by decide)]
  exact between.isEntry

/-- `Lucy.hook` of the other class registers its one method. -/
theorem step_lucyHook_other {state : Framework} (between : BetweenRounds state)
    (hosted : state.patchwork.Hosted)
    (unpaired : ∀ id, state.patchwork.pairs.lookup id ≠
      some (otherMember, LucyObject.sample.val)) :
    (state.step .oneMethod .sample (.lucyHook (some otherClass) .quiet)).2 =
      state.hookedOther := by
  have registers := (Patchwork.patch_of_unpaired hosted unpaired).1
  cases outcome : state.patchwork.patch (some otherMember) (some LucyObject.sample.val)
      .none with
  | mk result final =>
      rw [outcome] at registers
      obtain rfl : result = .ok (state.patchwork.count + 1) := registers
      have loops : patchMembers LucyObject.sample.val (fun _ => .none) [otherMember]
          state.patchwork =
            (.ok [(otherMember, .ok (state.patchwork.count + 1))], final) := by
        simp only [patchMembers, outcome]
      have members : Lookup.quiet.members .oneMethod otherClass = [otherMember] := rfl
      have notFailed : Lookup.quiet.failure = none := rfl
      have faults : Lookup.quiet.faults = fun _ => .none := rfl
      have hooking : List.insert otherClass [ignoredClass] = [otherClass, ignoredClass] := by
        decide
      simp only [step, lucyHook, between.mIgnored, List.any_nil, Bool.false_eq_true, if_false,
        hook, if_neg between.missing, notFailed, members, faults, loops, Patchwork.step,
        outcome, setUnhooks, between.mHooking, hooking, hookedOther]
      rfl

theorem lucyUnhook_of_entry {lucy : LucyObject} {state : Framework} {clazz : JavaClass}
    {ids : List Int64} (hosted : state.patchwork.Hosted)
    (isEntry : (state.mUnhooks lucy.val).lookup clazz = some ids) :
    state.lucyUnhook lucy.val (some clazz) =
      (.ok (), { state with
        patchwork := (recoverIds ids state.patchwork).2
        mHooking := state.mHooking.erase clazz
        mUnhooks := Function.update state.mUnhooks lucy.val
          ((state.mUnhooks lucy.val).erase clazz) }) := by
  have ok := (recoverIds_confined lucy.val ids hosted).1
  cases loops : recoverIds ids state.patchwork with
  | mk result final =>
      rw [loops] at ok
      obtain rfl : result = .ok () := ok
      simp only [lucyUnhook, unhook, isEntry, setUnhooks, loops]

/-- One round. -/
theorem run_lucyRound {state : Framework} (between : BetweenRounds state)
    (ready : state.patchwork.Ready otherMember LucyObject.sample.val) :
    BetweenRounds (run (step .oneMethod .sample) state
        [.lucyHook (some otherClass) .quiet, .lucyUnhook (some otherClass)]) ∧
      (run (step .oneMethod .sample) state
        [.lucyHook (some otherClass) .quiet, .lucyUnhook (some otherClass)]).patchwork =
          state.patchwork.round otherMember LucyObject.sample.val := by
  have hosted : state.hookedOther.patchwork.Hosted := Patchwork.step_hosted ready.hosted _
  simp only [run, step_lucyHook_other between ready.hosted ready.unpaired]
  simp only [step, lucyUnhook_of_entry hosted state.hookedOther_entry]
  refine ⟨⟨?_, ?_, between.mIgnored, ?_⟩, ?_⟩
  · rw [lookup_update_erase, if_neg (by decide)]
    exact hookedOther_ignoredEntry between
  · apply AList.lookup_eq_none.mp
    rw [lookup_update_erase, if_pos ⟨rfl, rfl⟩]
  · change [otherClass, ignoredClass].erase otherClass = [ignoredClass]
    decide
  · rw [recoverIds_singleton]
    rfl

theorem run_lucyRounds {state : Framework} {total : Nat} (between : BetweenRounds state)
    (clear : state.patchwork.Clear otherMember LucyObject.sample.val total) (count : Nat)
    (atMost : count ≤ total) :
    BetweenRounds (run (step .oneMethod .sample) state (lucyRounds count)) ∧
      (run (step .oneMethod .sample) state (lucyRounds count)).patchwork =
        (Patchwork.round · otherMember LucyObject.sample.val)^[count] state.patchwork := by
  induction count with
  | zero => exact ⟨between, rfl⟩
  | succ count inductionHypothesis =>
      obtain ⟨reached, patchwork⟩ := inductionHypothesis (by omega)
      have ready := (Patchwork.iterate_ready clear count (by omega)).2
      rw [← patchwork] at ready
      unfold lucyRounds
      rw [run_append, Function.iterate_succ_apply', ← patchwork]
      exact run_lucyRound reached ready

/-- The state after the first call of `ignoredLate`. -/
def lucyOnce : Framework :=
  after .oneMethod .sample [.lucyHook (some ignoredClass) .quiet]

theorem after_ignoredLate (count : Nat) :
    after .oneMethod .sample (ignoredLate count) =
      run (step .oneMethod .sample)
        (run (step .oneMethod .sample) lucyOnce (lucyRounds count))
        [.lucyHook (some otherClass) .quiet, .lucyIgnore (some "app.")] := by
  rw [after, ignoredLate, run_append, run_append]
  rfl

private theorem lucyOnce_between : BetweenRounds lucyOnce :=
  ⟨rfl, by decide, rfl, rfl⟩

private theorem lucyOnce_clear :
    lucyOnce.patchwork.Clear otherMember LucyObject.sample.val (2 ^ 64 - 1) := by
  have single : lucyOnce.patchwork.Single
      (⟨.method ignoredClass "run" .void [], 0⟩, LucyObject.sample.val) :=
    ⟨rfl, rfl, rfl⟩
  exact single.clear (by decide) (by decide)

/-- `ignore` recovers the registration of the other class, and `Lucy` stays
active on the ignored one. -/
theorem active_of_ignoredLate {count : Nat}
    (clear : lucyOnce.patchwork.Clear otherMember LucyObject.sample.val count)
    (back : lucyOnce.patchwork.count + Int64.ofNat count + 1 = 1) :
    LucyObject.sample.val ∈
      (after .oneMethod .sample (ignoredLate count)).patchwork.snapshot
        (.method ignoredClass "run" .void []) := by
  obtain ⟨between, patchwork⟩ := run_lucyRounds lucyOnce_between clear count le_rfl
  obtain ⟨hosted, reached, agrees⟩ := Patchwork.iterate_round clear count le_rfl
  rw [← patchwork] at hosted reached agrees
  have final := after_ignoredLate count
  generalize run (step .oneMethod .sample) lucyOnce (lucyRounds count) = state
    at hosted reached agrees between final
  have next : state.patchwork.count + 1 = 1 := by
    rw [reached, back]
  obtain ⟨unpaired, inactive⟩ := clear.unknown agrees
  have rounded := Patchwork.round_rounded hosted unpaired inactive
  have hostedHook : ({ state.hookedOther with
      mIgnored := state.hookedOther.mIgnored.insert "app." } : Framework).patchwork.Hosted :=
    Patchwork.step_hosted hosted _
  have ignored : (after .oneMethod .sample (ignoredLate count)).patchwork =
      state.patchwork.round otherMember LucyObject.sample.val := by
    rw [final]
    simp only [run, step_lucyHook_other between hosted unpaired]
    simp only [step, ignore]
    change (unhookIgnored _ _ [otherClass, ignoredClass] _).2.patchwork = _
    rw [unhookIgnored, if_neg (by decide), unhookIgnored, if_pos (by decide),
      lucyUnhook_of_entry hostedHook (hookedOther_ignoredEntry between)]
    change (recoverIds [1] _).2 = _
    rw [recoverIds_singleton, Patchwork.round, next]
    rfl
  rw [ignored, rounded.snapshot, agrees.snapshot]
  decide

theorem ignoredLate_stays_active :
    ¬ InactiveOnceIgnored .oneMethod .sample (ignoredLate (2 ^ 64 - 1)) := by
  intro inactive
  have active := active_of_ignoredLate lucyOnce_clear (by decide)
  apply inactive ([.lucyHook (some ignoredClass) .quiet] ++ lucyRounds (2 ^ 64 - 1) ++
    [.lucyHook (some otherClass) .quiet]) "app." [] _ _ (by decide) active
  rw [ignoredLate, List.append_assoc _ [_] [_]]
  rfl

end Framework

end AndroidPatch.Logcat
