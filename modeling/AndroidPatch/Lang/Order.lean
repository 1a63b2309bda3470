import Mathlib.Data.Finset.Basic
import AndroidPatch.Lang.Reentrancy

/-!
Contract: the order of the patches of one member, over whole histories of its
set.

Owns:
- runs of `add` and `remove` calls on one `CopyOnWriteSortedSet`, interrupted
  calls included;
- `members`, the set of patches a history leaves registered, and the array that
  lists them;
- the snapshot as a function of that set alone, when no two of its patches
  compare as equal;
- the order in which the callbacks of a call on the snapshot run, also when the
  call is cut short by a report that throws.
-/

namespace AndroidPatch.Lang

open AndroidPatch.Library

/-! ## Histories of one set -/

/-- A call on the set. An `add` can be interrupted by the throwable that
`equals` or the sort lets escape. -/
inductive SetCall where
  | add (patch : Patch) (interruption : Option Throwable)
  | remove (patch : Patch)
deriving DecidableEq, Repr

/-- The set with the arrays allocated so far. -/
structure SetState where
  set : CopyOnWriteSortedSet
  arrays : ArrayHeap Patch
deriving DecidableEq, Repr

namespace SetState

/-- `elements = EMPTY_ARRAY`. -/
def initial : SetState := ⟨⟨emptyArray⟩, ⟨[[]]⟩⟩

def perform (state : SetState) : SetCall → Except Throwable Bool × SetState
  | .add patch interruption =>
      match state.set.add Patch.Precedes state.arrays patch interruption with
      | .error throwable => (.error throwable, state)
      | .ok (isNew, set, arrays) => (.ok isNew, ⟨set, arrays⟩)
  | .remove patch =>
      match raised (state.set.remove state.arrays patch) with
      | .error throwable => (.error throwable, state)
      | .ok (wasPresent, set, arrays) => (.ok wasPresent, ⟨set, arrays⟩)

/-- The set after a history. -/
def after (calls : List SetCall) : SetState := run perform initial calls

/-- The array that `getSnapshot` returns, as it reads now. -/
def snapshot (state : SetState) : List (Option Patch) :=
  state.arrays.contents state.set.getSnapshot

end SetState

/-- What a call makes of the set of registered patches. -/
def SetCall.effect (registered : Finset Patch) : SetCall → Finset Patch
  | .add patch none => insert patch registered
  | .add _ (some _) => registered
  | .remove patch => registered.erase patch

/-- The patches a history leaves registered. -/
def members (calls : List SetCall) : Finset Patch :=
  calls.foldl SetCall.effect ∅

namespace SetState

/-- **The invariant.**  The published array lists the registered patches,
sorted and without duplicates. -/
def Lists (state : SetState) (registered : Finset Patch) : Prop :=
  ∃ patches : List Patch,
    CopyOnWriteSortedSet.Holds Patch.Precedes state.arrays state.set patches ∧
      ∀ patch, patch ∈ patches ↔ patch ∈ registered

theorem initial_lists : initial.Lists ∅ :=
  ⟨[], ⟨by decide, by decide, List.Pairwise.nil, List.nodup_nil⟩, by simp⟩

/-- One call keeps the invariant. -/
theorem Lists.perform {state : SetState} {registered : Finset Patch}
    (lists : state.Lists registered) (call : SetCall) :
    (state.perform call).2.Lists (call.effect registered) := by
  obtain ⟨patches, holds, same⟩ := lists
  cases call with
  | add patch interruption =>
      cases interruption with
      | some throwable => exact ⟨patches, holds, same⟩
      | none =>
          obtain ⟨set, arrays, added, -, later⟩ := holds.add_spec patch
          refine ⟨_, by simpa [SetState.perform, added] using later, fun other => ?_⟩
          rw [CopyOnWriteSortedSet.mem_added, same]
          simp [SetCall.effect]
  | remove patch =>
      obtain ⟨set, arrays, removed, -, later⟩ := holds.remove_spec patch
      refine ⟨_, by simpa [SetState.perform, removed, raised] using later, fun other => ?_⟩
      rw [holds.nodup.mem_erase_iff, same]
      simp [SetCall.effect]

theorem after_lists (calls : List SetCall) : (after calls).Lists (members calls) := by
  have along : ∀ (calls : List SetCall) (state : SetState) (registered : Finset Patch),
      state.Lists registered →
        (run SetState.perform state calls).Lists (calls.foldl SetCall.effect registered) := by
    intro calls
    induction calls with
    | nil => exact fun _ _ lists => lists
    | cons call rest inductionHypothesis =>
        intro state registered lists
        exact inductionHypothesis _ _ (lists.perform call)
  exact along calls initial ∅ initial_lists

end SetState

/-! ## The array -/

/-- The patch was added and not removed since. -/
def Registered (calls : List SetCall) (patch : Patch) : Prop :=
  ∃ early late, calls = early ++ SetCall.add patch none :: late ∧ SetCall.remove patch ∉ late

theorem registered_append {calls : List SetCall} {call : SetCall} {patch : Patch} :
    Registered (calls ++ [call]) patch ↔
      call = .add patch none ∨ Registered calls patch ∧ call ≠ .remove patch := by
  constructor
  · rintro ⟨early, late, split, kept⟩
    rcases append_singleton_eq_split.mp split with ⟨-, -, isCall⟩ | ⟨rest, rfl, isCalls⟩
    · exact .inl isCall.symm
    · refine .inr ⟨⟨early, rest, isCalls, fun member => kept (List.mem_append_left _ member)⟩, ?_⟩
      rintro rfl
      exact kept (List.mem_append_right _ (List.mem_singleton.mpr rfl))
  · rintro (rfl | ⟨⟨early, late, rfl, kept⟩, different⟩)
    · exact ⟨calls, [], rfl, List.not_mem_nil⟩
    · refine ⟨early, late ++ [call], by simp, fun member => ?_⟩
      rcases List.mem_append.mp member with isLate | isLast
      · exact kept isLate
      · exact different (List.mem_singleton.mp isLast).symm

theorem mem_members_iff (calls : List SetCall) (patch : Patch) :
    patch ∈ members calls ↔ Registered calls patch := by
  induction calls using List.reverseRecOn with
  | nil => simp [members, Registered]
  | append_singleton calls call inductionHypothesis =>
      have unfolded : members (calls ++ [call]) = call.effect (members calls) := by
        simp [members]
      rw [unfolded, registered_append, ← inductionHypothesis]
      cases call with
      | add added interruption =>
          cases interruption with
          | none => simp [SetCall.effect, eq_comm]
          | some throwable => simp [SetCall.effect]
      | remove removed =>
          simp only [SetCall.effect, Finset.mem_erase, reduceCtorEq, false_or, ne_eq,
            SetCall.remove.injEq]
          rw [and_comm, eq_comm]

instance (calls : List SetCall) (patch : Patch) : Decidable (Registered calls patch) :=
  decidable_of_iff _ (mem_members_iff calls patch)

namespace SetState

/-- A call only appends arrays. -/
theorem Lists.grows {state : SetState} {registered : Finset Patch}
    (lists : state.Lists registered) (call : SetCall) :
    ArrayHeap.Grows state.arrays (state.perform call).2.arrays := by
  obtain ⟨patches, holds, -⟩ := lists
  cases call with
  | add patch interruption =>
      cases interruption with
      | some throwable => exact ArrayHeap.Grows.refl _
      | none =>
          obtain ⟨set, arrays, added, grows, -⟩ := holds.add_spec patch
          simpa [SetState.perform, added] using grows
  | remove patch =>
      obtain ⟨set, arrays, removed, grows, -⟩ := holds.remove_spec patch
      simpa [SetState.perform, removed, raised] using grows

theorem Lists.run_grows {state : SetState} {registered : Finset Patch}
    (lists : state.Lists registered) (calls : List SetCall) :
    ArrayHeap.Grows state.arrays (run SetState.perform state calls).arrays := by
  induction calls generalizing state registered with
  | nil => exact ArrayHeap.Grows.refl _
  | cons call rest inductionHypothesis =>
      exact (lists.grows call).trans (inductionHypothesis (lists.perform call))

/-- `add` answers whether the patch was absent. -/
theorem after_add (calls : List SetCall) (patch : Patch) :
    ((after calls).perform (.add patch none)).1 = .ok (decide (¬ Registered calls patch)) := by
  obtain ⟨patches, holds, same⟩ := after_lists calls
  obtain ⟨set, arrays, added, -, -⟩ := holds.add_spec patch
  simp only [SetState.perform, added]
  rw [decide_eq_decide.mpr (not_congr ((same patch).trans (mem_members_iff calls patch)))]

/-- **The representation.**  After any calls the array lists the patches that were
added and not removed since, sorted and each once. `add` answers whether the patch
was absent, `remove` whether it was present; both stay within the bounds of their
arrays. A removal leaves the others in their order, and no later call writes to an
array that was handed out. -/
theorem representation (calls : List SetCall) :
    ∃ patches : List Patch,
      (after calls).snapshot = patches.map some ∧ patches.Nodup ∧
      patches.Pairwise (fun left right => left.compareTo (some right.toSortable) ≤ 0) ∧
      (∀ patch, patch ∈ patches ↔ Registered calls patch) ∧
      (∀ patch, ((after calls).perform (.add patch none)).1 =
        .ok (decide (¬ Registered calls patch))) ∧
      (∀ patch, ((after calls).perform (.remove patch)).1 =
          .ok (decide (Registered calls patch)) ∧
        ((after calls).perform (.remove patch)).2.snapshot = (patches.erase patch).map some) ∧
      ∀ later, (after (calls ++ later)).arrays.contents (after calls).set.getSnapshot =
        (after calls).snapshot := by
  obtain ⟨patches, holds, same⟩ := after_lists calls
  have isMember : ∀ patch, patch ∈ patches ↔ Registered calls patch :=
    fun patch => (same patch).trans (mem_members_iff calls patch)
  refine ⟨patches, holds.contents, holds.nodup, holds.sorted, isMember, after_add calls,
    fun patch => ?_, fun later => ?_⟩
  · obtain ⟨set, arrays, removed, -, afterwards⟩ := holds.remove_spec patch
    simp only [SetState.perform, removed, raised]
    rw [decide_eq_decide.mpr (isMember patch)]
    exact ⟨rfl, afterwards.contents⟩
  · have grows := (after_lists calls).run_grows later
    have isRun : after (calls ++ later) = run SetState.perform (after calls) later :=
      run_append _ _ calls later
    rw [isRun]
    exact grows.contents_eq holds.allocated

end SetState

/-- Two patches that tie in all that `compareTo` reads are both kept. -/
example : (SetState.after [.add ⟨⟨1, 0, 7, 3⟩, .plugin⟩ none,
    .add ⟨⟨2, 0, 7, 3⟩, .plugin⟩ none]).snapshot =
      [some ⟨⟨1, 0, 7, 3⟩, .plugin⟩, some ⟨⟨2, 0, 7, 3⟩, .plugin⟩] := by
  decide

/-! ## One order for one set -/

/-- The three numbers `compareTo` reads. -/
def Sortable.triple (sortable : Sortable) : Int × Int × Int :=
  (sortable.priority, sortable.loaderHash, sortable.identityHash)

theorem Patch.Precedes.triple_eq {left right : Patch} (forth : left.Precedes right)
    (back : right.Precedes left) : left.triple = right.triple := by
  unfold Patch.Precedes at forth back
  rw [Sortable.compareTo_le_zero_iff] at forth back
  unfold Sortable.triple
  ext
  · show left.priority = right.priority
    omega
  · show left.loaderHash = right.loaderHash
    omega
  · show left.identityHash = right.identityHash
    omega

/-- Two sorted listings of one set are the same list, unless two of its patches
compare as equal. -/
theorem Patch.listing_unique {left right : List Patch} (leftNodup : left.Nodup)
    (rightNodup : right.Nodup) (leftSorted : left.Pairwise Patch.Precedes)
    (rightSorted : right.Pairwise Patch.Precedes)
    (same : ∀ patch, patch ∈ left ↔ patch ∈ right)
    (distinct : ∀ first ∈ left, ∀ second ∈ left, first.triple = second.triple →
      first = second) :
    left = right := by
  have permutation : left.Perm right := (List.perm_ext_iff_of_nodup leftNodup rightNodup).mpr same
  refine permutation.eq_of_pairwise ?_ leftSorted rightSorted
  intro first second isFirst isSecond forth back
  exact distinct first isFirst second ((same second).mpr isSecond) (forth.triple_eq back)

/-- A higher priority comes first in every sorted list. -/
theorem Patch.higher_first {patches front back : List Patch} {first second : Patch}
    (sorted : patches.Pairwise Patch.Precedes) (split : patches = front ++ second :: back)
    (isFirst : first ∈ patches) (higher : second.priority < first.priority) :
    first ∈ front ∧ first ∉ back := by
  have notBehind : first ∉ back := by
    intro behind
    rw [split, List.pairwise_append, List.pairwise_cons] at sorted
    have precedes : second.Precedes first := sorted.2.1.1 first behind
    unfold Patch.Precedes at precedes
    rw [Sortable.compareTo_le_zero_iff] at precedes
    omega
  rw [split, List.mem_append, List.mem_cons] at isFirst
  rcases isFirst with inFront | same | behind
  · exact ⟨inFront, notBehind⟩
  · rw [same] at higher
    omega
  · exact absurd behind notBehind

/-- A lower priority comes first in every list that is sorted the other way. -/
theorem Patch.lower_first {patches front back : List Patch} {first second : Patch}
    (sorted : patches.Pairwise Patch.Precedes)
    (split : patches.reverse = front ++ first :: back) (isSecond : second ∈ patches)
    (higher : second.priority < first.priority) : second ∈ front ∧ second ∉ back := by
  have unreversed : patches = back.reverse ++ first :: front.reverse := by
    rw [← patches.reverse_reverse, split]
    simp
  have notBefore : second ∉ back := by
    intro behind
    have split := List.append_of_mem (List.mem_reverse.mpr behind)
    obtain ⟨outer, inner, isBack⟩ := split
    have isFirst : first ∈ patches := by
      rw [unreversed]
      simp
    have again : patches = outer ++ second :: (inner ++ first :: front.reverse) := by
      rw [unreversed, isBack]
      simp
    exact (Patch.higher_first sorted again isFirst higher).2 (by simp)
  rw [unreversed, List.mem_append, List.mem_cons] at isSecond
  rcases isSecond with behind | same | inFront
  · exact absurd (List.mem_reverse.mp behind) notBefore
  · rw [same] at higher
    omega
  · exact ⟨List.mem_reverse.mp inFront, notBefore⟩

/-! ## Callbacks in the order of the snapshot

A report that throws ends a call early. What has run by then is still a front
part of what the whole call would have run. -/

namespace Environment

variable {W : Type} {env : Environment W} {patches : List Patch} {Kept : W → Prop}

/-- `events` go on from `record` by callbacks of the patches in a front part of
`visited`, each read by `read`, and by nothing that `other` reads. -/
def Continues (read other : Event W → Option Patch) (visited : List Patch)
    (record events : List (Event W)) : Prop :=
  ∃ recent, events = record ++ recent ∧ recent.filterMap read <+: visited ∧
    recent.filterMap other = []

theorem Continues.refl (read other : Event W → Option Patch) (visited : List Patch)
    (record : List (Event W)) : Continues read other visited record record :=
  ⟨[], (List.append_nil record).symm, List.nil_prefix, rfl⟩

/-- One more callback in front. -/
theorem Continues.cons {read other : Event W → Option Patch} {visited : List Patch}
    {record events : List (Event W)} {event : Event W} {patch : Patch}
    (isRead : read event = some patch) (isOther : other event = none)
    (continues : Continues read other visited (record ++ [event]) events) :
    Continues read other (patch :: visited) record events := by
  obtain ⟨recent, isEvents, front, nothing⟩ := continues
  refine ⟨event :: recent, by rw [isEvents, List.append_assoc]; rfl, ?_, ?_⟩
  · rw [List.filterMap_cons, isRead]
    exact (List.prefix_cons_inj patch).mpr front
  · rw [List.filterMap_cons, isOther]
    exact nothing

/-- The record after one callback of an observed call. -/
theorem Holds.callbackAt_record (holds : env.Holds patches Kept)
    (observed : Patch → Registers → W × List (Event W) → CallbackRun (W × List (Event W)))
    (event : Patch → Registers → W → Event W)
    (records : ∀ patch registers world record,
      (observed patch registers (world, record)).world.2 =
        record ++ [event patch registers world])
    (keeps : ∀ patch registers world record, Kept world →
      Kept (observed patch registers (world, record)).world.1)
    {index : Nat} (below : index < patches.length) (registers : Registers) {world : W}
    (kept : Kept world) (record : List (Event W)) :
    let final := env.observe.callbackAt observed index registers (world, record)
    final.2.2.2 = record ++ [event (patches.get ⟨index, below⟩) registers world] ∧
      Kept final.2.2.1 := by
  intro final
  have element := holds.observe.element (world, record) kept index below
  have isFinal : final = env.observe.report
      (observed (patches.get ⟨index, below⟩) registers (world, record)).finish
      (registers.performAll
        (observed (patches.get ⟨index, below⟩) registers (world, record)).calls)
      (observed (patches.get ⟨index, below⟩) registers (world, record)).world := by
    show env.observe.callbackAt observed index registers (world, record) = _
    unfold callbackAt
    rw [element]
  have recorded := records (patches.get ⟨index, below⟩) registers world record
  have keptRun := keeps (patches.get ⟨index, below⟩) registers world record kept
  rw [isFinal]
  revert recorded keptRun
  generalize observed (patches.get ⟨index, below⟩) registers (world, record) = made
  intro recorded keptRun
  cases ended : made.finish with
  | ok => exact ⟨recorded, keptRun⟩
  | error throwable => exact ⟨recorded, holds.report throwable made.world.1 keptRun⟩

theorem Holds.beforeAt_record (holds : env.Holds patches Kept) {index : Nat}
    (below : index < patches.length) (registers : Registers) {world : W} (kept : Kept world)
    (record : List (Event W)) :
    let final := env.observe.callbackAt env.observe.beforeExecuted index registers
      (world, record)
    final.2.2.2 = record ++ [.before (patches.get ⟨index, below⟩) registers
        (env.beforeExecuted (patches.get ⟨index, below⟩) registers world).calls] ∧
      Kept final.2.2.1 :=
  holds.callbackAt_record env.observe.beforeExecuted
    (fun patch registers world =>
      .before patch registers (env.beforeExecuted patch registers world).calls)
    (fun _ _ _ _ => rfl) (fun patch registers world _ => holds.before patch registers world)
    below registers kept record

theorem Holds.afterAt_record (holds : env.Holds patches Kept) {index : Nat}
    (below : index < patches.length) (registers : Registers) {world : W} (kept : Kept world)
    (record : List (Event W)) :
    let final := env.observe.callbackAt env.observe.afterExecuted index registers
      (world, record)
    final.2.2.2 = record ++ [.after (patches.get ⟨index, below⟩) registers
        (env.afterExecuted (patches.get ⟨index, below⟩) registers world).calls] ∧
      Kept final.2.2.1 :=
  holds.callbackAt_record env.observe.afterExecuted
    (fun patch registers world =>
      .after patch registers (env.afterExecuted patch registers world).calls)
    (fun _ _ _ _ => rfl) (fun patch registers world _ => holds.after patch registers world)
    below registers kept record

theorem Holds.beforeLoop_continues (holds : env.Holds patches Kept)
    (remaining index : Nat) (covers : index + remaining + 1 = patches.length)
    (registers : Registers) {world : W} (kept : Kept world) (record : List (Event W)) :
    let final := env.observe.beforeLoop remaining index registers (world, record)
    Continues Event.beforeOf Event.afterOf (patches.drop index) record final.2.2.2 ∧
      Kept final.2.2.1 := by
  induction remaining generalizing index registers world record with
  | zero =>
      have below : index < patches.length := by omega
      have step := holds.beforeAt_record below registers kept record
      refine ⟨?_, step.2⟩
      show Continues _ _ _ record
        (env.observe.callbackAt env.observe.beforeExecuted index registers (world, record)).2.2.2
      rw [List.drop_eq_getElem_cons below, step.1]
      exact (Continues.refl _ _ _ _).cons rfl rfl
  | succ remaining inductionHypothesis =>
      have below : index < patches.length := by omega
      have step := holds.beforeAt_record below registers kept record
      rw [List.drop_eq_getElem_cons below]
      unfold beforeLoop
      revert step
      rcases env.observe.callbackAt env.observe.beforeExecuted index registers (world, record)
        with ⟨throwable | _, registers', world', record'⟩
      · rintro ⟨recorded, keptStep⟩
        dsimp only at recorded
        rw [recorded]
        exact ⟨(Continues.refl _ _ _ _).cons rfl rfl, keptStep⟩
      · rintro ⟨recorded, keptStep⟩
        dsimp only at recorded
        have rest := inductionHypothesis (index + 1) (by omega) registers' keptStep record'
        subst recorded
        exact ⟨rest.1.cons rfl rfl, rest.2⟩

theorem Holds.afterLoop_continues (holds : env.Holds patches Kept) (index : Nat)
    (below : index < patches.length) (registers : Registers) {world : W}
    (kept : Kept world) (record : List (Event W)) :
    Continues Event.afterOf Event.beforeOf (patches.take (index + 1)).reverse record
      (env.observe.afterLoop index registers (world, record)).2.2.2 := by
  induction index generalizing registers world record with
  | zero =>
      have step := holds.afterAt_record below registers kept record
      show Continues _ _ _ record
        (env.observe.callbackAt env.observe.afterExecuted 0 registers (world, record)).2.2.2
      rw [step.1, List.take_add_one, List.getElem?_eq_getElem below]
      exact (Continues.refl _ _ _ _).cons rfl rfl
  | succ index inductionHypothesis =>
      have step := holds.afterAt_record below registers kept record
      have split : (patches.take (index + 1 + 1)).reverse =
          patches.get ⟨index + 1, below⟩ :: (patches.take (index + 1)).reverse := by
        rw [List.take_add_one (i := index + 1), List.getElem?_eq_getElem below]
        simp
      rw [split]
      unfold afterLoop
      revert step
      rcases env.observe.callbackAt env.observe.afterExecuted (index + 1) registers
        (world, record) with ⟨throwable | _, registers', world', record'⟩
      · rintro ⟨recorded, -⟩
        dsimp only at recorded
        rw [recorded]
        exact (Continues.refl _ _ _ _).cons rfl rfl
      · rintro ⟨recorded, keptStep⟩
        dsimp only at recorded
        have rest := inductionHypothesis (by omega) registers' keptStep record'
        subst recorded
        exact rest.cons rfl rfl

/-- The world that a call leaves behind. -/
theorem replaceHookedMember_world (env : Environment W) (last : Nat) (func : Member)
    (object : Obj) (objects : Option ArrayHeap.Ref) (world : W) :
    (env.replaceHookedMember (last + 1) func object objects world).2 =
      match env.beforeLoop last 0 (Registers.create func object objects) world with
      | (.error _, _, world) => world
      | (.ok (), registers, world) =>
          (env.afterLoop last (env.originalStep object objects registers world).1
            (env.originalStep object objects registers world).2).2.2 := by
  simp only [replaceHookedMember]
  rcases env.beforeLoop last 0 (Registers.create func object objects) world with
    ⟨throwable | _, registers, world'⟩
  · rfl
  · simp only
    rcases env.afterLoop last (env.originalStep object objects registers world').1
      (env.originalStep object objects registers world').2 with
      ⟨throwable | _, registers'', world''⟩
    · rfl
    · rfl

/-- The original member is no callback. -/
theorem originalEvents_filterMap {read : Event W → Option Patch}
    (isNone : ∀ object objects world result,
      read (.original object objects world result) = none)
    (object : Obj) (objects : Option ArrayHeap.Ref) (state : Registers × W) :
    (env.originalEvents object objects state).filterMap read = [] := by
  unfold Callbacks.originalEvents
  split_ifs
  · simp [isNone]
  · rfl

/-- **Callbacks run in snapshot order, however the call ends.**  The before
callbacks that ran are those of a front part of the snapshot, the after
callbacks those of a front part of its reverse. -/
theorem Holds.events_inOrder (holds : env.Holds patches Kept) (func : Member)
    (object : Obj) (objects : Option ArrayHeap.Ref) {world : W} (kept : Kept world) :
    let events := env.events patches.length func object objects world
    events.filterMap Event.beforeOf <+: patches ∧
      events.filterMap Event.afterOf <+: patches.reverse := by
  by_cases empty : patches = []
  · subst empty
    exact ⟨List.prefix_refl [], List.prefix_refl []⟩
  obtain ⟨last, size⟩ : ∃ last, patches.length = last + 1 :=
    Nat.exists_eq_add_one_of_ne_zero (by simpa using empty)
  have early := holds.beforeLoop_continues last 0 (by omega)
    (Registers.create func object objects) kept []
  rw [List.drop_zero] at early
  show (env.events patches.length func object objects world).filterMap Event.beforeOf <+: _ ∧
    (env.events patches.length func object objects world).filterMap Event.afterOf <+: _
  unfold events
  rw [size, replaceHookedMember_world]
  revert early
  rcases env.observe.beforeLoop last 0 (Registers.create func object objects) (world, [])
    with ⟨throwable | _, registers, world', record⟩
  · rintro ⟨⟨recent, isRecent, befores, noAfters⟩, -⟩
    obtain rfl : record = recent := isRecent
    exact ⟨befores, noAfters ▸ List.nil_prefix⟩
  · rintro ⟨⟨recent, isRecent, befores, noAfters⟩, keptEarly⟩
    obtain rfl : record = recent := isRecent
    obtain ⟨late, isLate, afters, noBefores⟩ := holds.afterLoop_continues last (by omega)
      (env.originalStep object objects registers world').1
      (holds.toKeeps.originalStep_kept object objects registers keptEarly)
      (record ++ env.originalEvents object objects (registers, world'))
    rw [List.take_of_length_le (by omega)] at afters
    dsimp only
    rw [originalStep_observe, isLate]
    simp only [List.filterMap_append, noAfters, noBefores, List.append_nil, List.nil_append]
    rw [originalEvents_filterMap (fun _ _ _ _ => rfl),
      originalEvents_filterMap (fun _ _ _ _ => rfl), List.append_nil, List.nil_append]
    exact ⟨befores, afters⟩

/-- When reporting returns, all of them run. -/
theorem Holds.events_complete (holds : env.Holds patches Kept) (reports : env.Reports)
    (func : Member) (object : Obj) (objects : Option ArrayHeap.Ref) {world : W}
    (kept : Kept world) :
    let events := env.events patches.length func object objects world
    events.filterMap Event.beforeOf = patches ∧
      events.filterMap Event.afterOf = patches.reverse := by
  by_cases empty : patches = []
  · subst empty
    exact ⟨rfl, rfl⟩
  have observed := holds.observe_replaceHookedMember reports empty func object objects kept
  dsimp only
  unfold events
  rw [observed]
  exact ⟨env.filterMap_beforeOf _ _ _ _ _ _, env.filterMap_afterOf _ _ _ _ _ _⟩

/-- Whenever the callback of `second` runs, that of `first` has run already, and
it does not run later. -/
def RunsAhead (read : Event W → Option Patch) (events : List (Event W))
    (first second : Patch) : Prop :=
  ∀ front event back, events = front ++ event :: back → read event = some second →
    first ∈ front.filterMap read ∧ first ∉ back.filterMap read

/-- The order of a list carries over to events that visit a front part of it. -/
theorem runsAhead_of_prefix {read : Event W → Option Patch} {events : List (Event W)}
    {visited : List Patch} (inOrder : events.filterMap read <+: visited)
    {first second : Patch}
    (ahead : ∀ front back, visited = front ++ second :: back → first ∈ front ∧ first ∉ back) :
    RunsAhead read events first second := by
  intro front event back isEvents isSecond
  obtain ⟨rest, isVisited⟩ := inOrder
  rw [isEvents, List.filterMap_append, List.filterMap_cons, isSecond] at isVisited
  have split : visited = front.filterMap read ++ second :: (back.filterMap read ++ rest) := by
    rw [← isVisited]
    simp
  obtain ⟨inFront, notBehind⟩ := ahead _ _ split
  exact ⟨inFront, fun behind => notBehind (List.mem_append_left rest behind)⟩

end Environment

/-! ## Histories and calls -/

open Environment (Event RunsAhead)

/-- The snapshot after a history, without the null case. -/
theorem SetState.after_listing (calls : List SetCall) :
    ∃ patches : List Patch, (after calls).snapshot = patches.map some ∧
      CopyOnWriteSortedSet.Holds Patch.Precedes (after calls).arrays (after calls).set patches ∧
      ∀ patch, patch ∈ patches ↔ patch ∈ members calls := by
  obtain ⟨patches, holds, same⟩ := after_lists calls
  exact ⟨patches, holds.contents, holds, same⟩

/-- The snapshot is a function of the set of registered patches. -/
theorem SetState.snapshot_eq_of_members_eq {left right : List SetCall}
    (same : members left = members right)
    (distinct : ∀ first ∈ members left, ∀ second ∈ members left, first ≠ second →
      first.triple ≠ second.triple) :
    (after left).snapshot = (after right).snapshot := by
  obtain ⟨leftPatches, isLeft, leftHolds, leftSame⟩ := after_listing left
  obtain ⟨rightPatches, isRight, rightHolds, rightSame⟩ := after_listing right
  have equal : leftPatches = rightPatches := by
    apply Patch.listing_unique leftHolds.nodup rightHolds.nodup leftHolds.sorted
      rightHolds.sorted
    · intro patch
      rw [leftSame, rightSame, same]
    · intro first isFirst second isSecond sameTriple
      by_contra different
      exact distinct first ((leftSame first).mp isFirst) second ((leftSame second).mp isSecond)
        different sameTriple
  rw [isLeft, isRight, equal]

/-- **Callback order does not depend on history.**  Histories that leave the
same patches registered, pairwise distinct in what `compareTo` reads, publish
the same array. In every history a patch of higher priority stands in front of
one of lower priority; then its before callback runs first and its after
callback last, in every call on the array. -/
theorem callbackOrder_independent_of_history :
    (∀ calls patch, some patch ∈ (SetState.after calls).snapshot ↔ patch ∈ members calls) ∧
    (∀ left right, members left = members right →
      (∀ first ∈ members left, ∀ second ∈ members left, first ≠ second →
        first.triple ≠ second.triple) →
      (SetState.after left).snapshot = (SetState.after right).snapshot) ∧
    ∀ (calls : List SetCall) (first second : Patch),
      let state := SetState.after calls
      some first ∈ state.snapshot → some second ∈ state.snapshot →
      second.priority < first.priority →
      (∀ front back, state.snapshot = front ++ some second :: back →
        some first ∈ front ∧ some first ∉ back) ∧
      ∀ (W : Type) (callbacks : Callbacks W) (arrays : W → ArrayHeap Patch),
        let env := callbacks.reading arrays state.set.getSnapshot
        env.Keeps (fun world => ArrayHeap.Grows state.arrays (arrays world)) →
        ∀ (func : Member) (object : Obj) (objects : Option ArrayHeap.Ref) (world : W),
          ArrayHeap.Grows state.arrays (arrays world) →
          let events := env.events state.snapshot.length func object objects world
          RunsAhead Event.beforeOf events first second ∧
            RunsAhead Event.afterOf events second first ∧
            (callbacks.Reports →
              (events.filterMap Event.beforeOf).map some = state.snapshot ∧
              (events.filterMap Event.afterOf).map some = state.snapshot.reverse) := by
  refine ⟨fun calls patch => ?_, fun _ _ => SetState.snapshot_eq_of_members_eq, ?_⟩
  · obtain ⟨patches, isSnapshot, -, same⟩ := SetState.after_listing calls
    rw [isSnapshot, ← same]
    simp
  intro calls first second state isFirst isSecond higher
  obtain ⟨patches, isSnapshot, holds, -⟩ := SetState.after_listing calls
  have isListed : ∀ patch, some patch ∈ state.snapshot → patch ∈ patches := by
    intro patch member
    rw [isSnapshot] at member
    simpa using member
  refine ⟨?_, ?_⟩
  · intro front back split
    rw [isSnapshot, List.map_eq_append_iff] at split
    obtain ⟨frontPatches, rest, isPatches, isFront, isRest⟩ := split
    obtain ⟨head, backPatches, isCons, isHead, isBack⟩ := List.map_eq_cons_iff.mp isRest
    obtain rfl : head = second := Option.some.inj isHead
    subst isCons
    have ahead := Patch.higher_first holds.sorted isPatches (isListed first isFirst) higher
    rw [← isFront, ← isBack]
    simpa using ahead
  · intro W callbacks arrays env keeps func object objects world kept events
    have envHolds : env.Holds patches
        (fun world => ArrayHeap.Grows state.arrays (arrays world)) :=
      Callbacks.reading_holds holds.allocated holds.contents keeps
    have size : state.snapshot.length = patches.length := by
      rw [isSnapshot, List.length_map]
    have isEvents : events = env.events patches.length func object objects world := by
      rw [← size]
    rw [isEvents]
    obtain ⟨befores, afters⟩ := envHolds.events_inOrder func object objects kept
    refine ⟨?_, ?_, fun reports => ?_⟩
    · exact Environment.runsAhead_of_prefix befores fun front back split =>
        Patch.higher_first holds.sorted split (isListed first isFirst) higher
    · exact Environment.runsAhead_of_prefix afters fun front back split =>
        Patch.lower_first holds.sorted split (isListed second isSecond) higher
    · obtain ⟨allBefores, allAfters⟩ :=
        envHolds.events_complete reports func object objects kept
      rw [allBefores, allAfters, isSnapshot, List.map_reverse]
      exact ⟨rfl, rfl⟩

/-- A patch of priority 5 is added after one of priority 0, or before it with
another one in between. -/
theorem callbackOrder_of_threePatches :
    let high : Patch := ⟨⟨9, 5, 7, 9⟩, .plugin⟩
    let left := [SetCall.add (.sample 1) none, .add high none]
    let right := [SetCall.add high none, .add (.sample 2) none, .add (.sample 1) none,
      .remove (.sample 2)]
    let idle : Callbacks (ArrayHeap Patch) :=
      ⟨fun _ _ world => ⟨[], .ok (), world⟩, fun _ _ world => ⟨[], .ok (), world⟩,
        fun _ _ world => (.ok .null, world), fun _ world => (.ok (), world)⟩
    let state := SetState.after left
    let events := (idle.reading id state.set.getSnapshot).events state.snapshot.length
      .objectToString .null none state.arrays
    state.snapshot = (SetState.after right).snapshot ∧
      RunsAhead Event.beforeOf events high (.sample 1) ∧
      (events.filterMap Event.afterOf).map some = state.snapshot.reverse := by
  intro high left right idle state events
  have runs := (callbackOrder_independent_of_history.2.2 left high (.sample 1) (by decide)
    (by decide) (by decide)).2 (ArrayHeap Patch) idle id
    ⟨fun _ _ _ => id, fun _ _ _ => id, fun _ _ _ => id, fun _ _ => id⟩
    .objectToString .null none state.arrays (ArrayHeap.Grows.refl _)
  exact ⟨callbackOrder_independent_of_history.2.1 left right (by decide) (by decide), runs.1,
    (runs.2.2 fun _ _ => rfl).2⟩

end AndroidPatch.Lang
