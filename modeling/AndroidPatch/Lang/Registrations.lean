import AndroidPatch.Lang.Ids
import AndroidPatch.Lang.Execution

/-!
Contract: the registry and the kernel's sets, compared.

Owns:
- `NoLoss`: a live registration is in effect. It holds exactly as long as no
  recovered registration shares its patch, on an equal member, with another
  live one;
- `NoOrphan`: a patch in effect has a live registration. It holds as long as no
  id comes back;
- a run that brings the counter around and orphans a patch.

The registry keeps one entry for every pair of objects, the kernel one element
for every patch on a member, however many equal objects stand for it.
-/

namespace AndroidPatch.Lang

open AndroidPatch.Library

namespace Patchwork

/-! ## No registration is lost -/

/-- Every live registration is in effect. -/
def NoLoss (state : Patchwork) : Prop :=
  ∀ id member patch, state.pairs.lookup id = some (member, patch) →
    patch ∈ state.snapshot member.executable

/-- No other live id holds the patch of `id` on an equal member. -/
def Unshared (state : Patchwork) (id : Int64) : Prop :=
  ∀ member patch, state.pairs.lookup id = some (member, patch) →
    ∀ other copy, other ≠ id → state.pairs.lookup other = some (copy, patch) →
      ¬ copy.Equals member

/-- One call keeps `NoLoss`, unless it recovers a shared registration. -/
theorem NoLoss.step {state : Patchwork} (noLoss : state.NoLoss) (hosted : state.Hosted)
    {call : Call} (unshared : ∀ id, call = .recover id → state.Unshared id) :
    (state.step call).2.NoLoss := by
  have effect := step_effect hosted call
  intro id member patch live
  cases effect with
  | quiet _ _ _ _ _ _ pairs snapshot =>
      rw [pairs] at live
      rw [snapshot]
      exact noLoss id member patch live
  | registered target added faults _ _ _ _ _ pairs snapshot =>
      rw [pairs] at live
      rw [snapshot]
      by_cases isNew : id = state.count + 1
      · rw [isNew, AList.lookup_insert] at live
        cases live
        simp
      · rw [AList.lookup_insert_ne isNew] at live
        have inEffect := noLoss id member patch live
        split_ifs with same
        · rw [CopyOnWriteSortedSet.mem_added]
          exact Or.inr (same ▸ inEffect)
        · exact inEffect
  | recovered recoveredId target removed gone _ _ _ pairs snapshot =>
      rw [pairs] at live
      rw [snapshot]
      have kept : id ≠ recoveredId := by
        rintro rfl
        rw [AList.lookup_erase] at live
        cases live
      rw [AList.lookup_erase_ne kept] at live
      have inEffect := noLoss id member patch live
      split_ifs with same
      · have different : patch ≠ removed := by
          rintro rfl
          exact unshared recoveredId rfl target patch gone id member kept live same
        rw [List.mem_erase_of_ne different]
        exact same ▸ inEffect
      · exact inEffect

/-- Recovering a shared registration loses the other one. -/
theorem NoLoss.unshared_of_step {state : Patchwork} (hosted : state.Hosted) {id : Int64}
    (noLoss : (state.step (.recover id)).2.NoLoss) : state.Unshared id := by
  have effect := step_effect hosted (.recover id)
  intro member patch live other copy different otherLive equal
  cases effect with
  | quiet _ _ absent =>
      rw [absent id rfl] at live
      exact nomatch live
  | recovered _ target removed gone _ _ _ pairs snapshot =>
      rw [gone] at live
      cases live
      have stillLive : (state.step (.recover id)).2.pairs.lookup other = some (copy, patch) := by
        rw [pairs, AList.lookup_erase_ne different]
        exact otherLive
      have inEffect := noLoss other copy patch stillLive
      rw [snapshot, if_pos (show copy.executable = member.executable from equal)] at inEffect
      exact (snapshot_nodup state _).not_mem_erase inEffect

/-- **No registration is lost in a run exactly if it never recovers a shared
one.** -/
theorem noLoss_iff_unshared (calls : List Call) :
    (∀ early late, calls = early ++ late → (after early).NoLoss) ↔
      ∀ early id late, calls = early ++ .recover id :: late →
        (after early).Unshared id := by
  constructor
  · intro noLoss early id late split
    have reached := noLoss (early ++ [.recover id]) late (by rw [split]; simp)
    rw [after_append] at reached
    exact NoLoss.unshared_of_step (after_hosted early) reached
  · intro unshared early
    induction early using List.reverseRecOn with
    | nil => exact fun _ _ _ _ _ live => nomatch live
    | append_singleton early call inductionHypothesis =>
        intro late split
        rw [after_append]
        have earlier := inductionHypothesis (call :: late) (by rw [split]; simp)
        apply earlier.step (after_hosted early)
        rintro id rfl
        exact unshared early id late (by rw [split]; simp)

/-- One method through two `Member` objects: recovering the first id takes the
patch out although the second id is live. -/
theorem equalMembers_lost :
    let member : Member := .objectToString
    let calls := [Call.patch (some member) (some (.sample 1)) .none,
      .patch (some { member with copy := 1 }) (some (.sample 1)) .none, .recover 1]
    (after calls).pairs.lookup 2 = some ({ member with copy := 1 }, .sample 1) ∧
      Patch.sample 1 ∉ (after calls).snapshot member.executable := by
  decide

/-! ## No patch is orphaned -/

/-- Every patch in effect has a live registration on an equal member. -/
def NoOrphan (state : Patchwork) : Prop :=
  ∀ executable patch, patch ∈ state.snapshot executable →
    ∃ id member, state.pairs.lookup id = some (member, patch) ∧
      member.executable = executable

/-- One call keeps `NoOrphan`, unless it registers under a live id. -/
theorem NoOrphan.step {state : Patchwork} (noOrphan : state.NoOrphan)
    (hosted : state.Hosted) {call : Call}
    (fresh : call.isPatch → state.pairs.lookup (state.count + 1) = none) :
    (state.step call).2.NoOrphan := by
  have effect := step_effect hosted call
  intro executable patch inEffect
  cases effect with
  | quiet _ _ _ _ _ _ pairs snapshot =>
      rw [snapshot] at inEffect
      rw [pairs]
      exact noOrphan executable patch inEffect
  | registered member added faults _ _ _ _ _ pairs snapshot =>
      have kept : ∀ id holder, state.pairs.lookup id = some (holder, patch) →
          (state.pairs.insert (state.count + 1) (member, added)).lookup id =
            some (holder, patch) := by
        intro id holder live
        have notNew : id ≠ state.count + 1 := by
          rintro rfl
          rw [fresh rfl] at live
          exact nomatch live
        rw [AList.lookup_insert_ne notNew]
        exact live
      rw [pairs]
      rw [snapshot] at inEffect
      split_ifs at inEffect with same
      · rcases CopyOnWriteSortedSet.mem_added.mp inEffect with rfl | earlier
        · exact ⟨_, member, AList.lookup_insert _, same.symm⟩
        · obtain ⟨id, holder, live, equal⟩ := noOrphan _ patch earlier
          exact ⟨id, holder, kept id holder live, equal.trans same.symm⟩
      · obtain ⟨id, holder, live, equal⟩ := noOrphan executable patch inEffect
        exact ⟨id, holder, kept id holder live, equal⟩
  | recovered id member removed gone _ _ _ pairs snapshot =>
      have kept : ∀ other holder, state.pairs.lookup other = some (holder, patch) →
          (holder.executable = member.executable → patch ≠ removed) →
          (state.pairs.erase id).lookup other = some (holder, patch) := by
        intro other holder live different
        have notGone : other ≠ id := by
          rintro rfl
          rw [gone] at live
          cases live
          exact different rfl rfl
        rw [AList.lookup_erase_ne notGone]
        exact live
      rw [pairs]
      rw [snapshot] at inEffect
      split_ifs at inEffect with same
      · have present := (snapshot_nodup state _).mem_erase_iff.mp inEffect
        obtain ⟨other, holder, live, equal⟩ := noOrphan _ patch present.2
        exact ⟨other, holder, kept other holder live (fun _ => present.1),
          equal.trans same.symm⟩
      · obtain ⟨other, holder, live, equal⟩ := noOrphan executable patch inEffect
        exact ⟨other, holder,
          kept other holder live (fun isMember => absurd (equal.symm.trans isMember) same),
          equal⟩

theorem lookup_next_eq_none {calls : List Call} (few : (issued calls).length < 2 ^ 64) :
    (after calls).pairs.lookup ((after calls).count + 1) = none := by
  by_contra live
  have outstanding := (live_iff_outstanding calls _).mp (Option.isSome_iff_ne_none.mpr live)
  exact next_not_mem_issued few (mem_issued_of_outstanding outstanding)

theorem noOrphan_after {calls : List Call} (few : calls.countP Call.isPatch ≤ 2 ^ 64) :
    (after calls).NoOrphan := by
  induction calls using List.reverseRecOn with
  | nil => exact fun _ _ inEffect => nomatch inEffect
  | append_singleton calls call inductionHypothesis =>
      rw [List.countP_append] at few
      rw [after_append]
      apply (inductionHypothesis (by omega)).step (after_hosted calls)
      intro isPatch
      have atMost := length_issued_le calls
      rw [List.countP_singleton, if_pos isPatch] at few
      exact lookup_next_eq_none (by omega)

theorem lookup_step_recover {state : Patchwork} (hosted : state.Hosted) (id other : Int64) :
    (state.step (.recover other)).2.pairs.lookup id =
      if id = other then none else state.pairs.lookup id := by
  have effect := step_effect hosted (.recover other)
  cases effect with
  | quiet _ _ absent _ _ _ pairs =>
      rw [pairs]
      split_ifs with same
      · rw [same]
        exact absent other rfl
      · rfl
  | recovered _ _ _ _ _ _ _ pairs =>
      rw [pairs]
      split_ifs with same
      · rw [same, AList.lookup_erase]
      · rw [AList.lookup_erase_ne same]

/-- Recovering every live id leaves none. -/
theorem lookup_recover_all (ids : List Int64) (calls : List Call) (id : Int64)
    (covered : ((after calls).pairs.lookup id).isSome → id ∈ ids) :
    (after (calls ++ ids.map .recover)).pairs.lookup id = none := by
  induction ids generalizing calls with
  | nil =>
      rw [List.map_nil, List.append_nil]
      by_contra live
      exact List.not_mem_nil (covered (Option.isSome_iff_ne_none.mpr live))
  | cons first rest inductionHypothesis =>
      have shifted : calls ++ (first :: rest).map Call.recover =
          (calls ++ [.recover first]) ++ rest.map .recover := by
        simp
      rw [shifted]
      apply inductionHypothesis
      rw [after_append, lookup_step_recover (after_hosted calls)]
      split_ifs with same
      · exact fun live => nomatch live
      · intro live
        exact (List.mem_cons.mp (covered live)).resolve_left same

/-- **Nothing stays active without an id.**  `noOrphan` holds after the run; once
every issued id is recovered, every snapshot is empty and every execution is the
original member's. -/
structure OrphanFree (calls : List Call) : Prop where
  noOrphan : (after calls).NoOrphan
  emptied : ∀ ids : List Int64, (∀ id ∈ issued calls, id ∈ ids) → ∀ executable,
    (after (calls ++ ids.map .recover)).snapshot executable = []
  straight : ∀ ids : List Int64, (∀ id ∈ issued calls, id ∈ ids) →
    ∀ (W : Type) (callbacks : Callbacks W) (kernel : W → Kernel) (world : W),
      kernel world = (after (calls ++ ids.map .recover)).kernel →
      ∀ member object objects,
        callbacks.executeEvents kernel member object objects world =
          [.original object objects world
            (callbacks.invokeOriginalMember object objects world).1]

theorem snapshot_recover_all {calls : List Call}
    (few : calls.countP Call.isPatch ≤ 2 ^ 64) {ids : List Int64}
    (covered : ∀ id ∈ issued calls, id ∈ ids) (executable : Executable) :
    (after (calls ++ ids.map .recover)).snapshot executable = [] := by
  have noPatch : (ids.map Call.recover).countP Call.isPatch = 0 := by
    rw [List.countP_eq_zero]
    intro call member
    obtain ⟨id, -, rfl⟩ := List.mem_map.mp member
    exact Bool.false_ne_true
  have noOrphan : (after (calls ++ ids.map .recover)).NoOrphan := by
    apply noOrphan_after
    rw [List.countP_append, noPatch]
    exact few
  rw [List.eq_nil_iff_forall_not_mem]
  intro patch inEffect
  obtain ⟨id, member, live, -⟩ := noOrphan executable patch inEffect
  have dead := lookup_recover_all ids calls id (fun wasLive =>
    covered id (mem_issued_of_outstanding ((live_iff_outstanding calls id).mp wasLive)))
  rw [dead] at live
  exact nomatch live

theorem orphanFree (calls : List Call) (few : calls.countP Call.isPatch ≤ 2 ^ 64) :
    OrphanFree calls where
  noOrphan := noOrphan_after few
  emptied := fun _ covered => snapshot_recover_all few covered
  straight := by
    intro ids covered W callbacks kernel world isKernel member object objects
    apply Callbacks.executeEvents_of_snapshot_nil
    rw [isKernel]
    exact snapshot_recover_all few covered member.executable

/-- Two registrations of one patch on one method, and a third on another
patch. -/
theorem equalMembers_orphanFree :
    OrphanFree
      [.patch (some .objectToString) (some (.sample 1)) .none,
        .patch (some { Member.objectToString with copy := 1 }) (some (.sample 1)) .none,
        .patch (some .objectToString) (some (.sample 2)) .none, .recover 1] :=
  orphanFree _ (by decide)

/-! ## Bringing the counter around -/

/-- A call without faults on an unpaired pair registers. -/
theorem patch_of_unpaired {state : Patchwork} (hosted : state.Hosted)
    {member : Member} {patch : Patch}
    (unpaired : ∀ id, state.pairs.lookup id ≠ some (member, patch)) :
    (state.patch (some member) (some patch) .none).1 = .ok (state.count + 1) ∧
      state.registration (.patch (some member) (some patch) .none) =
        some (state.count + 1) := by
  have result := patch_cases hosted (some member) (some patch) .none
  have found : state.findPair member patch = none := by
    cases found : state.findPair member patch with
    | none => rfl
    | some id => exact absurd (findPair_eq_some found) (unpaired id)
  simp only [registration, found]
  generalize state.patch (some member) (some patch) .none = outcome at result
  cases result with
  | failed _ cause =>
      rcases cause with impossible | impossible | noisy
      · cases impossible
      · cases impossible
      · exact absurd rfl noisy
  | existing _ _ isMember isPatch id live =>
      cases isMember
      cases isPatch
      exact absurd live (unpaired id)
  | registered => exact ⟨rfl, rfl⟩

/-- The same registrations and the same snapshots. -/
structure Agrees (left right : Patchwork) : Prop where
  live : ∀ id, left.pairs.lookup id = right.pairs.lookup id
  snapshot : ∀ executable, left.snapshot executable = right.snapshot executable

theorem Agrees.refl (state : Patchwork) : Agrees state state :=
  ⟨fun _ => rfl, fun _ => rfl⟩

/-- The patch is neither registered nor in effect on the member, and the next id
is free. -/
structure Ready (state : Patchwork) (member : Member) (patch : Patch) : Prop where
  hosted : state.Hosted
  unpaired : ∀ id, state.pairs.lookup id ≠ some (member, patch)
  inactive : patch ∉ state.snapshot member.executable
  free : state.pairs.lookup (state.count + 1) = none

/-- One round: register a patch and recover it at once. -/
def round (state : Patchwork) (member : Member) (patch : Patch) : Patchwork :=
  ((state.step (.patch (some member) (some patch) .none)).2.step
    (.recover (state.count + 1))).2

/-- Everything a round does: the counter moves on, and whoever had the next id
loses its registration. -/
structure Rounded (state final : Patchwork) : Prop where
  hosted : final.Hosted
  count : final.count = state.count + 1
  live : ∀ id, final.pairs.lookup id =
    if id = state.count + 1 then none else state.pairs.lookup id
  snapshot : ∀ executable, final.snapshot executable = state.snapshot executable

theorem round_rounded {state : Patchwork} {member : Member} {patch : Patch}
    (hosted : state.Hosted) (unpaired : ∀ id, state.pairs.lookup id ≠ some (member, patch))
    (inactive : patch ∉ state.snapshot member.executable) :
    Rounded state (state.round member patch) := by
  have isNew := (patch_of_unpaired hosted unpaired).2
  have first := step_effect hosted (.patch (some member) (some patch) .none)
  unfold round
  generalize (state.step (.patch (some member) (some patch) .none)).2 = between at first
  cases first with
  | quiet _ unregistered =>
      rw [isNew] at unregistered
      exact nomatch unregistered
  | registered _ _ _ _ _ _ hosted count pairs snapshot =>
      have live : between.pairs.lookup (state.count + 1) = some (member, patch) := by
        rw [pairs, AList.lookup_insert]
      have second := step_effect hosted (.recover (state.count + 1))
      cases second with
      | quiet _ _ absent =>
          rw [absent _ rfl] at live
          exact nomatch live
      | recovered _ target removed gone _ hosted' count' pairs' snapshot' =>
          rw [live] at gone
          cases gone
          refine ⟨hosted', count'.trans count, fun id => ?_, fun executable => ?_⟩
          · rw [pairs', pairs]
            by_cases same : id = state.count + 1
            · rw [if_pos same, same, AList.lookup_erase]
            · rw [if_neg same, AList.lookup_erase_ne same, AList.lookup_insert_ne same]
          · rw [snapshot']
            split_ifs with same
            · rw [snapshot, if_pos rfl, same]
              exact CopyOnWriteSortedSet.erase_added
                (snapshot_sorted state _) inactive
            · rw [snapshot, if_neg same]

/-- With the next id free, nothing but the counter changes. -/
theorem round_agrees {state : Patchwork} {member : Member} {patch : Patch}
    (ready : state.Ready member patch) :
    (state.round member patch).Hosted ∧
      (state.round member patch).count = state.count + 1 ∧
      Agrees (state.round member patch) state := by
  have rounded := round_rounded ready.hosted ready.unpaired ready.inactive
  refine ⟨rounded.hosted, rounded.count, fun id => ?_, rounded.snapshot⟩
  rw [rounded.live]
  split_ifs with same
  · rw [same, ready.free]
  · rfl

/-- What rounds on a member need: the patch is unknown there, and the ids they
run through are free. -/
structure Clear (state : Patchwork) (member : Member) (patch : Patch) (count : Nat) :
    Prop where
  hosted : state.Hosted
  unpaired : ∀ id, state.pairs.lookup id ≠ some (member, patch)
  inactive : patch ∉ state.snapshot member.executable
  free : ∀ earlier < count,
    state.pairs.lookup (state.count + Int64.ofNat (earlier + 1)) = none

theorem Clear.unknown {state between : Patchwork} {member : Member} {patch : Patch}
    {total : Nat} (clear : state.Clear member patch total) (agrees : Agrees between state) :
    (∀ id, between.pairs.lookup id ≠ some (member, patch)) ∧
      patch ∉ between.snapshot member.executable := by
  constructor
  · intro id
    rw [agrees.live]
    exact clear.unpaired id
  · rw [agrees.snapshot]
    exact clear.inactive

theorem Clear.ready {state between : Patchwork} {member : Member} {patch : Patch}
    {total count : Nat} (clear : state.Clear member patch total) (below : count < total)
    (hosted : between.Hosted) (reached : between.count = state.count + Int64.ofNat count)
    (agrees : Agrees between state) :
    between.count + 1 = state.count + Int64.ofNat (count + 1) ∧
      between.Ready member patch := by
  have next : between.count + 1 = state.count + Int64.ofNat (count + 1) := by
    rw [reached, Int64.ofNat_add, Int64.add_assoc]
    rfl
  obtain ⟨unpaired, inactive⟩ := clear.unknown agrees
  refine ⟨next, hosted, unpaired, inactive, ?_⟩
  rw [next, agrees.live]
  exact clear.free count below

/-- **Rounds bring the counter anywhere** as long as they meet no live id. -/
theorem iterate_round {state : Patchwork} {member : Member} {patch : Patch} {total : Nat}
    (clear : state.Clear member patch total) (count : Nat) (atMost : count ≤ total) :
    ((round · member patch)^[count] state).Hosted ∧
      ((round · member patch)^[count] state).count = state.count + Int64.ofNat count ∧
      Agrees ((round · member patch)^[count] state) state := by
  induction count with
  | zero => exact ⟨clear.hosted, (Int64.add_zero _).symm, Agrees.refl state⟩
  | succ count inductionHypothesis =>
      obtain ⟨hosted, reached, agrees⟩ := inductionHypothesis (by omega)
      obtain ⟨next, ready⟩ := clear.ready (by omega) hosted reached agrees
      obtain ⟨hostedRound, countRound, agreesRound⟩ := round_agrees ready
      rw [Function.iterate_succ_apply']
      refine ⟨hostedRound, countRound.trans next, fun id => ?_, fun executable => ?_⟩
      · exact (agreesRound.live id).trans (agrees.live id)
      · exact (agreesRound.snapshot executable).trans (agrees.snapshot executable)

/-- Before each round the patch can be registered under a free id. -/
theorem iterate_ready {state : Patchwork} {member : Member} {patch : Patch} {total : Nat}
    (clear : state.Clear member patch total) (count : Nat) (below : count < total) :
    ((round · member patch)^[count] state).count + 1 =
        state.count + Int64.ofNat (count + 1) ∧
      ((round · member patch)^[count] state).Ready member patch := by
  obtain ⟨hosted, reached, agrees⟩ := iterate_round clear count (by omega)
  exact clear.ready below hosted reached agrees

/-- The calls of `count` rounds when the counter stands at `start`. -/
def rounds (start : Int64) (member : Member) (patch : Patch) : Nat → List Call
  | 0 => []
  | count + 1 =>
      rounds start member patch count ++
        [.patch (some member) (some patch) .none,
          .recover (start + Int64.ofNat (count + 1))]

theorem run_rounds {state : Patchwork} {member : Member} {patch : Patch} {total : Nat}
    (clear : state.Clear member patch total) (count : Nat) (atMost : count ≤ total) :
    run step state (rounds state.count member patch count) =
      (round · member patch)^[count] state := by
  induction count with
  | zero => rfl
  | succ count inductionHypothesis =>
      have next := (iterate_ready clear count (by omega)).1
      unfold rounds
      rw [run_append, inductionHypothesis (by omega), Function.iterate_succ_apply', ← next]
      rfl

/-- The only registration is that of id `1`. -/
structure Single (state : Patchwork) (pair : Member × Patch) : Prop where
  hosted : state.Hosted
  count : state.count = 1
  pairs : state.pairs = AList.insert 1 pair ∅

theorem Single.lookup_of_ne {state : Patchwork} {pair : Member × Patch}
    (single : state.Single pair) {id : Int64} (different : id ≠ 1) :
    state.pairs.lookup id = none := by
  rw [single.pairs, AList.lookup_insert_ne different]
  rfl

/-- From one registration rounds can go all the way around. -/
theorem Single.clear {state : Patchwork} {pair : Member × Patch}
    (single : state.Single pair) {member : Member} {patch : Patch}
    (different : pair ≠ (member, patch)) (inactive : patch ∉ state.snapshot member.executable) :
    state.Clear member patch (2 ^ 64 - 1) := by
  refine ⟨single.hosted, fun id => ?_, inactive, fun earlier below => ?_⟩
  · by_cases same : id = 1
    · rw [same, single.pairs, AList.lookup_insert]
      exact fun live => different (Option.some.inj live)
    · rw [single.lookup_of_ne same]
      exact (Option.some_ne_none _).symm
  · apply single.lookup_of_ne
    rw [single.count]
    show Int64.ofNat 1 + Int64.ofNat (earlier + 1) ≠ Int64.ofNat 1
    rw [← Int64.ofNat_add, Ne, ofNat_eq_ofNat_iff]
    omega

/-- One registration, rounds until its id is the next to be issued, and a last
registration. -/
def wrapped : List Call :=
  [.patch (some .objectToString) (some (.sample 1)) .none] ++
    rounds 1 .objectToString (.sample 2) (2 ^ 64 - 1) ++
      [.patch (some .objectToString) (some (.sample 2)) .none]

private theorem first_single :
    (after [.patch (some .objectToString) (some (.sample 1)) .none]).Single
      (.objectToString, .sample 1) :=
  ⟨after_hosted _, rfl, rfl⟩

/-- The id of the first registration is issued again; its patch stays in effect
and can no longer be recovered. -/
theorem wrapped_orphans : ¬ (after wrapped).NoOrphan := by
  have clear : (after [.patch (some .objectToString) (some (.sample 1)) .none]).Clear
      .objectToString (.sample 2) (2 ^ 64 - 1) :=
    first_single.clear (by decide) (by decide)
  have rounded := run_rounds clear (2 ^ 64 - 1) le_rfl
  obtain ⟨hosted, count, agrees⟩ := iterate_round clear (2 ^ 64 - 1) le_rfl
  have final : after wrapped = (((round · .objectToString (.sample 2))^[2 ^ 64 - 1]
      (after [.patch (some .objectToString) (some (.sample 1)) .none])).step
        (.patch (some .objectToString) (some (.sample 2)) .none)).2 := by
    rw [wrapped, after_append, after, run_append, ← rounded]
    rfl
  rw [final]
  generalize (round · .objectToString (.sample 2))^[2 ^ 64 - 1]
    (after [.patch (some .objectToString) (some (.sample 1)) .none]) = between
    at hosted count agrees
  have next : between.count + 1 = 1 := by
    rw [count]
    decide
  have isNew := (patch_of_unpaired hosted (clear.unknown agrees).1).2
  have effect := step_effect hosted (.patch (some .objectToString) (some (.sample 2)) .none)
  intro noOrphan
  cases effect with
  | quiet _ unregistered =>
      rw [isNew] at unregistered
      exact nomatch unregistered
  | registered _ _ _ _ _ _ _ _ pairs snapshot =>
      have inEffect : Patch.sample 1 ∈
          (between.step (.patch (some .objectToString) (some (.sample 2)) .none)).2.snapshot
            Member.objectToString.executable := by
        rw [snapshot, if_pos rfl, CopyOnWriteSortedSet.mem_added, agrees.snapshot]
        decide
      obtain ⟨id, member, live, -⟩ := noOrphan _ _ inEffect
      rw [pairs, next] at live
      by_cases same : id = 1
      · rw [same, AList.lookup_insert] at live
        have samePatch : Patch.sample 2 = Patch.sample 1 :=
          congrArg Prod.snd (Option.some.inj live)
        exact absurd samePatch (by decide)
      · rw [AList.lookup_insert_ne same, agrees.live, first_single.lookup_of_ne same] at live
        exact nomatch live

end Patchwork

end AndroidPatch.Lang
