import AndroidPatch.Lang.Patchwork

/-!
Contract: the ids of registrations.

Owns:
- `issued`, the ids of the new registrations of a run, and their values: the
  consecutive numbers from one on, as far as a `long` holds them;
- `Outstanding`, the ids that were issued and not recovered since, which are
  exactly the live ones;
- the life cycle of an id.

The last two do not depend on the width of the counter. The first does: after
`2 ^ 63` registrations the order breaks, after `2 ^ 64` ids come back.
-/

namespace AndroidPatch.Lang

open AndroidPatch.Library

namespace Patchwork

/-- The ids of the new registrations of a run, in order. -/
def issued (calls : List Call) : List Int64 :=
  (steps step provided calls).filterMap fun made => made.1.registration made.2

/-- The id was issued and has not been recovered since. -/
def Outstanding (calls : List Call) (id : Int64) : Prop :=
  ∃ early call late, calls = early ++ call :: late ∧
    (after early).registration call = some id ∧ .recover id ∉ late

theorem after_append (calls : List Call) (call : Call) :
    after (calls ++ [call]) = ((after calls).step call).2 := by
  unfold after
  rw [run_append]
  rfl

theorem issued_append (calls : List Call) (call : Call) :
    issued (calls ++ [call]) =
      issued calls ++ ((after calls).registration call).toList := by
  unfold issued
  rw [steps_append, List.filterMap_append]
  show _ ++ List.filterMap _ [(after calls, call)] = _
  cases made : (after calls).registration call with
  | none => simp [made]
  | some id => simp [made]

theorem outstanding_nil (id : Int64) : ¬ Outstanding [] id := by
  rintro ⟨early, call, late, split, -, -⟩
  simp at split

theorem outstanding_append (calls : List Call) (call : Call) (id : Int64) :
    Outstanding (calls ++ [call]) id ↔
      (after calls).registration call = some id ∨
        Outstanding calls id ∧ call ≠ .recover id := by
  constructor
  · rintro ⟨early, issuing, late, split, made, kept⟩
    rcases append_singleton_eq_split.mp split with ⟨rfl, rfl, rfl⟩ | ⟨rest, rfl, isCalls⟩
    · exact Or.inl made
    · refine Or.inr ⟨⟨early, issuing, rest, isCalls, made, ?_⟩, ?_⟩
      · exact fun member => kept (List.mem_append_left _ member)
      · rintro rfl
        exact kept (List.mem_append_right _ (List.mem_singleton.mpr rfl))
  · rintro (made | ⟨⟨early, issuing, late, rfl, made, kept⟩, different⟩)
    · exact ⟨calls, call, [], rfl, made, List.not_mem_nil⟩
    · refine ⟨early, issuing, late ++ [call], by simp, made, ?_⟩
      intro member
      rcases List.mem_append.mp member with member | member
      · exact kept member
      · exact different (List.mem_singleton.mp member).symm

/-! ## The values of the ids -/

/-- A call moves the counter exactly when it registers, and then issues the new
value. -/
theorem step_count {state : Patchwork} (hosted : state.Hosted) (call : Call) :
    state.registration call = none ∧ (state.step call).2.count = state.count ∨
      state.registration call = some (state.count + 1) ∧
        (state.step call).2.count = state.count + 1 := by
  have effect := step_effect hosted call
  cases effect with
  | quiet _ unregistered _ _ _ count => exact Or.inl ⟨unregistered, count⟩
  | registered _ _ _ isNew _ _ _ count => exact Or.inr ⟨isNew, count⟩
  | recovered _ _ _ _ _ _ count => exact Or.inl ⟨rfl, count⟩

/-- **Ids are consecutive.**  The counter is the number of registrations, modulo
its width, and the ids issued are the numbers up to it. -/
theorem issued_eq (calls : List Call) :
    (after calls).count = Int64.ofNat (issued calls).length ∧
      issued calls = (List.range' 1 (issued calls).length).map Int64.ofNat := by
  induction calls using List.reverseRecOn with
  | nil => exact ⟨rfl, rfl⟩
  | append_singleton calls call inductionHypothesis =>
      obtain ⟨count, ids⟩ := inductionHypothesis
      rw [after_append, issued_append]
      rcases step_count (after_hosted calls) call with ⟨quiet, same⟩ | ⟨isNew, next⟩
      · rw [quiet, same, Option.toList_none, List.append_nil]
        exact ⟨count, ids⟩
      · have value : (after calls).count + 1 =
            Int64.ofNat (1 + (issued calls).length) := by
          rw [count, Int64.ofNat_add, Int64.add_comm]
          rfl
        rw [isNew, next, value, Option.toList_some, List.length_append,
          List.length_singleton, List.range'_1_concat, List.map_append, ← ids,
          Nat.add_comm 1]
        exact ⟨rfl, rfl⟩

/-- Only `patch` calls register. -/
def Call.isPatch : Call → Bool
  | .patch _ _ _ => true
  | .recover _ => false

theorem length_issued_le (calls : List Call) :
    (issued calls).length ≤ calls.countP Call.isPatch := by
  induction calls using List.reverseRecOn with
  | nil => exact le_rfl
  | append_singleton calls call inductionHypothesis =>
      rw [issued_append, List.length_append, List.countP_append]
      cases call with
      | patch member patch faults =>
          have atMostOne := Option.length_toList_le
            (o := (after calls).registration (.patch member patch faults))
          simp only [List.countP_singleton, Call.isPatch, if_true]
          omega
      | recover id => exact inductionHypothesis

theorem ofNat_eq_ofNat_iff (left right : Nat) :
    Int64.ofNat left = Int64.ofNat right ↔ left % 2 ^ 64 = right % 2 ^ 64 := by
  rw [← Int64.toBitVec_inj, Int64.toBitVec_ofNat', Int64.toBitVec_ofNat', BitVec.toNat_eq,
    BitVec.toNat_ofNat, BitVec.toNat_ofNat]

/-- Up to `2 ^ 64` registrations the next id has never been issued. -/
theorem next_not_mem_issued {calls : List Call} (few : (issued calls).length < 2 ^ 64) :
    (after calls).count + 1 ∉ issued calls := by
  obtain ⟨count, ids⟩ := issued_eq calls
  rw [ids, count]
  intro member
  obtain ⟨earlier, range, same⟩ := List.mem_map.mp member
  have bounds := List.mem_range'_1.mp range
  have next : Int64.ofNat (issued calls).length + 1 =
      Int64.ofNat ((issued calls).length + 1) := by
    rw [Int64.ofNat_add]
    rfl
  rw [next, ofNat_eq_ofNat_iff] at same
  omega

/-- Below `2 ^ 63` registrations the ids increase. -/
theorem issued_increasing {calls : List Call} (few : (issued calls).length < 2 ^ 63) :
    (issued calls).Pairwise (· < ·) := by
  rw [(issued_eq calls).2, List.pairwise_map]
  apply List.Pairwise.imp_of_mem _ (List.pairwise_lt_range' 1)
  intro left right isLeft isRight less
  have leftBounds := List.mem_range'_1.mp isLeft
  have rightBounds := List.mem_range'_1.mp isRight
  exact (Int64.ofNat_lt_iff_lt (by omega) (by omega)).mpr less

/-! ## Live ids -/

theorem live_iff_outstanding (calls : List Call) (id : Int64) :
    ((after calls).pairs.lookup id).isSome ↔ Outstanding calls id := by
  induction calls using List.reverseRecOn with
  | nil => exact iff_of_false (fun live => nomatch live) (outstanding_nil id)
  | append_singleton calls call inductionHypothesis =>
      rw [after_append, outstanding_append, ← inductionHypothesis]
      have effect := step_effect (after_hosted calls) call
      cases effect with
      | quiet _ unregistered absent _ _ _ pairs =>
          rw [pairs, unregistered]
          constructor
          · intro live
            refine Or.inr ⟨live, ?_⟩
            rintro rfl
            rw [absent id rfl] at live
            exact nomatch live
          · rintro (impossible | ⟨live, -⟩)
            · exact nomatch impossible
            · exact live
      | registered member patch faults isNew _ _ _ _ pairs =>
          rw [pairs, isNew]
          by_cases same : id = (after calls).count + 1
          · subst same
            simp
          · rw [AList.lookup_insert_ne same]
            simp [Ne.symm same]
      | recovered other member patch live _ _ _ pairs =>
          rw [pairs]
          by_cases same : id = other
          · subst same
            simp [registration]
          · rw [AList.lookup_erase_ne same]
            simp [registration, Ne.symm same]

theorem mem_issued_of_outstanding {calls : List Call} {id : Int64}
    (outstanding : Outstanding calls id) : id ∈ issued calls := by
  induction calls using List.reverseRecOn with
  | nil => exact absurd outstanding (outstanding_nil id)
  | append_singleton calls call inductionHypothesis =>
      rw [issued_append]
      rcases (outstanding_append calls call id).mp outstanding with made | ⟨earlier, -⟩
      · rw [made]
        simp
      · exact List.mem_append_left _ (inductionHypothesis earlier)

/-- `recover` answers whether the id was live. -/
theorem recover_eq_true_iff {state : Patchwork} (hosted : state.Hosted) (id : Int64) :
    (state.recover id).1 = .ok true ↔ (state.pairs.lookup id).isSome := by
  have result := recover_cases hosted id
  generalize state.recover id = outcome at result
  cases result with
  | unknown absent => simp [absent]
  | recovered member patch live => simp [live]

/-- Two live ids never stand for the same objects. -/
theorem live_unique (calls : List Call) {left right : Int64} {pair : Member × Patch}
    (leftLive : (after calls).pairs.lookup left = some pair)
    (rightLive : (after calls).pairs.lookup right = some pair) : left = right := by
  induction calls using List.reverseRecOn with
  | nil => exact nomatch leftLive
  | append_singleton calls call inductionHypothesis =>
      rw [after_append] at leftLive rightLive
      have effect := step_effect (after_hosted calls) call
      cases effect with
      | quiet _ _ _ _ _ _ pairs =>
          rw [pairs] at leftLive rightLive
          exact inductionHypothesis leftLive rightLive
      | registered member patch faults _ unpaired _ _ _ pairs =>
          rw [pairs] at leftLive rightLive
          -- The new pair was live under no id, so a second holder must be the new id.
          by_cases isLeft : left = (after calls).count + 1
          · by_cases isRight : right = (after calls).count + 1
            · rw [isLeft, isRight]
            · rw [isLeft, AList.lookup_insert] at leftLive
              rw [AList.lookup_insert_ne isRight, ← Option.some.inj leftLive] at rightLive
              exact absurd rightLive (unpaired right)
          · rw [AList.lookup_insert_ne isLeft] at leftLive
            by_cases isRight : right = (after calls).count + 1
            · rw [isRight, AList.lookup_insert] at rightLive
              rw [← Option.some.inj rightLive] at leftLive
              exact absurd leftLive (unpaired left)
            · rw [AList.lookup_insert_ne isRight] at rightLive
              exact inductionHypothesis leftLive rightLive
      | recovered id member patch _ _ _ _ pairs =>
          rw [pairs] at leftLive rightLive
          have leftKept : left ≠ id := by
            rintro rfl
            rw [AList.lookup_erase] at leftLive
            exact nomatch leftLive
          have rightKept : right ≠ id := by
            rintro rfl
            rw [AList.lookup_erase] at rightLive
            exact nomatch rightLive
          rw [AList.lookup_erase_ne leftKept] at leftLive
          rw [AList.lookup_erase_ne rightKept] at rightLive
          exact inductionHypothesis leftLive rightLive

/-- `patch` on a live pair returns its id and changes nothing. -/
theorem patch_live (calls : List Call) {id : Int64} {member : Member} {patch : Patch}
    (live : (after calls).pairs.lookup id = some (member, patch)) (faults : AddFaults) :
    (after calls).patch (some member) (some patch) faults = (.ok id, after calls) := by
  cases found : (after calls).findPair member patch with
  | none => exact absurd live (findPair_eq_none found id)
  | some other =>
      have same : other = id := live_unique calls (findPair_eq_some found) live
      simp only [Patchwork.patch, found, same]

/-! ## The life cycle -/

/-- The call recovers `id` and answers `true`. -/
def Answer.isRecovery : Answer → Bool
  | .recovered (.ok true) => true
  | _ => false

/-- How often `recover(id)` answers `true` in a run. -/
def recoveries (calls : List Call) (id : Int64) : Nat :=
  (history step provided calls).countP fun entry =>
    entry.1 = .recover id ∧ entry.2.isRecovery

theorem isRecovery_step {state : Patchwork} (hosted : state.Hosted) (id : Int64) :
    (state.step (.recover id)).1.isRecovery ↔ (state.pairs.lookup id).isSome := by
  rw [← recover_eq_true_iff hosted]
  show Answer.isRecovery (.recovered (state.recover id).1) ↔ _
  rcases (state.recover id).1 with _ | (_ | _) <;> simp [Answer.isRecovery]

theorem recoveries_append (calls : List Call) (call : Call) (id : Int64) :
    recoveries (calls ++ [call]) id = recoveries calls id +
      if call = .recover id ∧ ((after calls).pairs.lookup id).isSome then 1 else 0 := by
  unfold recoveries
  rw [history_append, List.countP_append]
  show _ + List.countP _ [(call, ((after calls).step call).1)] = _
  rw [List.countP_singleton]
  by_cases recovers : call = .recover id
  · subst recovers
    simp [isRecovery_step (after_hosted calls) id]
  · simp [recovers]

/-- Every recovery, and being live, is paid for by an issue of the id. -/
theorem recoveries_le_count (calls : List Call) (id : Int64) :
    recoveries calls id + (if ((after calls).pairs.lookup id).isSome then 1 else 0) ≤
      (issued calls).count id := by
  induction calls using List.reverseRecOn with
  | nil => exact le_rfl
  | append_singleton calls call inductionHypothesis =>
      rw [recoveries_append, issued_append, after_append, List.count_append]
      have effect := step_effect (after_hosted calls) call
      cases effect with
      | quiet _ _ absent _ _ _ pairs =>
          have none : ¬ (call = .recover id ∧ ((after calls).pairs.lookup id).isSome) := by
            rintro ⟨recovers, live⟩
            rw [absent id recovers] at live
            exact nomatch live
          rw [if_neg none, pairs]
          omega
      | registered member patch faults isNew _ _ _ _ pairs =>
          rw [if_neg (by simp), pairs, isNew]
          by_cases same : id = (after calls).count + 1
          · subst same
            simp only [AList.lookup_insert, Option.isSome_some, if_true, Option.toList_some,
              List.count_singleton_self]
            omega
          · rw [AList.lookup_insert_ne same]
            omega
      | recovered other member patch live _ _ _ pairs =>
          rw [pairs]
          by_cases same : id = other
          · subst same
            simp only [live, Option.isSome_some, and_self, if_true, AList.lookup_erase,
              Option.isSome_none] at inductionHypothesis ⊢
            simp
            omega
          · rw [AList.lookup_erase_ne same, if_neg (by simp [Ne.symm same])]
            omega

/-- **The life cycle of ids** along a run: new ids increase; `recover` answers
`true` exactly on an id that was issued and not recovered since, and so at most
once; `patch` on a live pair returns its id and changes nothing. -/
structure IdLifecycle (calls : List Call) : Prop where
  increasing : (issued calls).Pairwise (· < ·)
  recovers : ∀ early id late, calls = early ++ .recover id :: late →
    (((after early).recover id).1 = .ok true ↔ Outstanding early id)
  atMostOnce : ∀ id, recoveries calls id ≤ 1
  repeated : ∀ early member patch faults late id,
    calls = early ++ .patch (some member) (some patch) faults :: late →
    (after early).pairs.lookup id = some (member, patch) →
      (after early).patch (some member) (some patch) faults = (.ok id, after early)

theorem idLifecycle (calls : List Call) (few : calls.length < 2 ^ 63) :
    IdLifecycle calls := by
  have fewIssued : (issued calls).length < 2 ^ 63 :=
    lt_of_le_of_lt ((length_issued_le calls).trans List.countP_le_length) few
  have increasing := issued_increasing fewIssued
  refine ⟨increasing, ?_, ?_, ?_⟩
  · intro early id late _
    rw [recover_eq_true_iff (after_hosted early), live_iff_outstanding]
  · intro id
    have nodup : (issued calls).Nodup := increasing.imp (fun less => Int64.ne_of_lt less)
    have paid := recoveries_le_count calls id
    have single := List.nodup_iff_count_le_one.mp nodup id
    omega
  · intro early member patch faults late id _ live
    exact patch_live early live faults

/-- Registered, repeated, recovered twice and registered again. -/
theorem registeredAgain_lifecycle :
    let patched := Call.patch (some .objectToString) (some (.sample 1)) .none
    IdLifecycle [patched, patched, .recover 1, .recover 1, patched] :=
  idLifecycle _ (by decide)

end Patchwork

end AndroidPatch.Lang
