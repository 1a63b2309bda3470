import AndroidPatch.Logcat.Ledger

/-!
Contract: the loops of `Logcat.hook` and `Logcat.unhook`.

Owns:
- `patchMembers_spec`: a logger that holds nothing on the members of a class
  registers itself on those that can be hooked, once each;
- `recoverIds_spec`: recovering the ids held for a class takes the logger out
  of exactly the members they stand for.

Both say what becomes of the ledger, of the live registrations and of every
snapshot.
-/

namespace AndroidPatch.Logcat

open AndroidPatch.Library AndroidPatch.Lang

/-- The `patch` call on this executable succeeded. -/
def Succeeded (results : HookResults) (executable : Executable) : Prop :=
  ∃ member id, (member, .ok id) ∈ results ∧ member.executable = executable

theorem Held.set_set (held : Held) (self : Patch) (clazz : JavaClass)
    (early late : List Int64) :
    (held.set self clazz early).set self clazz late = held.set self clazz late := by
  funext logger other
  unfold Held.set
  split_ifs <;> rfl

theorem Held.set_eq_self (held : Held) (self : Patch) (clazz : JavaClass) :
    held.set self clazz (held self clazz) = held := by
  funext logger other
  unfold Held.set
  split_ifs with same
  · rw [same.1, same.2]
  · rfl

/-- What the loop of `hook` makes of a state. -/
structure HookLoop (logger : Patch) (clazz : JavaClass) (members : List Member)
    (state : Patchwork) (held : Held) (userIds : List Int64) (results : HookResults)
    (bound' : Nat) (state' : Patchwork) : Prop where
  ledger : Ledger bound' state' (held.set logger clazz (held logger clazz ++ unhooks results))
    userIds
  kept : ∀ id pair, state.pairs.lookup id = some pair → state'.pairs.lookup id = some pair
  live : ∀ member id, (member, .ok id) ∈ results →
    state'.pairs.lookup id = some (member, logger)
  tried : ∀ result ∈ results, result.1 ∈ members
  added : ∀ executable, Succeeded results executable → state'.snapshot executable =
    CopyOnWriteSortedSet.added Patch.Precedes (state.snapshot executable) logger
  unchanged : ∀ executable, ¬ Succeeded results executable →
    state'.snapshot executable = state.snapshot executable

section Hook

variable {self : Patch} {clazz : JavaClass} {userIds : List Int64}

/-- The first member registers. -/
theorem HookLoop.cons_ok {member : Member} {rest : List Member} {bound bound' : Nat}
    {state state' final : Patchwork} {held : Held} {results : HookResults}
    (ledger : Ledger bound state held userIds) (small : bound < 2 ^ 64)
    (registers : Registration state state' member self)
    (different : ∀ other ∈ rest, member.executable ≠ other.executable)
    (loop : HookLoop self clazz rest state'
      (held.set self clazz (held self clazz ++ [state.count + 1])) userIds results bound'
      final) :
    HookLoop self clazz (member :: rest) state held userIds
      ((member, .ok (state.count + 1)) :: results) bound' final := by
  have free := ledger.next_free small
  have notAgain : ∀ executable, Succeeded results executable →
      executable ≠ member.executable := by
    rintro executable ⟨other, id, present, isExecutable⟩ same
    exact different other (loop.tried _ present) (same.symm.trans isExecutable.symm)
  refine ⟨?_, ?_, ?_, ?_, ?_, ?_⟩
  · have later := loop.ledger
    rw [Held.set_set, Held.set_self, List.append_assoc] at later
    exact later
  · intro id pair live
    apply loop.kept
    exact (registers.live_iff free id pair).mpr (Or.inr live)
  · intro other id present
    rcases List.mem_cons.mp present with isFirst | present
    · cases isFirst
      apply loop.kept
      rw [registers.pairs, AList.lookup_insert]
    · exact loop.live other id present
  · intro result present
    rcases List.mem_cons.mp present with isFirst | present
    · rw [isFirst]
      exact List.mem_cons_self
    · exact List.mem_cons_of_mem _ (loop.tried result present)
  · rintro executable ⟨other, id, present, isExecutable⟩
    by_cases succeeded : Succeeded results executable
    · rw [loop.added executable succeeded, registers.snapshot,
        if_neg (notAgain executable succeeded)]
    · rcases List.mem_cons.mp present with isFirst | present
      · cases isFirst
        subst isExecutable
        rw [loop.unchanged _ succeeded, registers.snapshot, if_pos rfl]
      · exact absurd ⟨other, id, present, isExecutable⟩ succeeded
  · intro executable failed
    have isOther : executable ≠ member.executable := fun same =>
      failed ⟨member, _, List.mem_cons_self, same.symm⟩
    rw [loop.unchanged, registers.snapshot, if_neg isOther]
    rintro ⟨other, id, present, isExecutable⟩
    exact failed ⟨other, id, List.mem_cons_of_mem _ present, isExecutable⟩

/-- The first member fails and is ignored. -/
theorem HookLoop.cons_error {member : Member} {rest : List Member} {bound' : Nat}
    {state state' final : Patchwork} {held : Held} {results : HookResults}
    {throwable : Throwable} (pairs : state'.pairs = state.pairs)
    (snapshot : ∀ executable, state'.snapshot executable = state.snapshot executable)
    (loop : HookLoop self clazz rest state' held userIds results bound' final) :
    HookLoop self clazz (member :: rest) state held userIds
      ((member, .error throwable) :: results) bound' final := by
  have sameSuccess : ∀ executable,
      Succeeded ((member, .error throwable) :: results) executable ↔
        Succeeded results executable := by
    intro executable
    unfold Succeeded
    simp
  refine ⟨loop.ledger, ?_, ?_, ?_, ?_, ?_⟩
  · rw [← pairs]
    exact loop.kept
  · intro other id present
    rcases List.mem_cons.mp present with isFirst | present
    · cases isFirst
    · exact loop.live other id present
  · intro result present
    rcases List.mem_cons.mp present with isFirst | present
    · rw [isFirst]
      exact List.mem_cons_self
    · exact List.mem_cons_of_mem _ (loop.tried result present)
  · intro executable succeeded
    rw [loop.added executable ((sameSuccess executable).mp succeeded), snapshot]
  · intro executable failed
    rw [loop.unchanged executable (fun succeeded =>
      failed ((sameSuccess executable).mpr succeeded)), snapshot]

theorem patchMembers_spec (isSelf : IsLogger self) (faults : Executable → AddFaults)
    (members : List Member) {bound : Nat} {state : Patchwork} {held : Held}
    (ledger : Ledger bound state held userIds) (small : bound + members.length ≤ 2 ^ 64)
    (declared : ∀ member ∈ members, member.executable.declaringClass = clazz)
    (nodup : (members.map Member.executable).Nodup)
    (absent : ∀ member ∈ members, ∀ id holder,
      state.pairs.lookup id = some (holder, self) →
        holder.executable ≠ member.executable) :
    ∃ results bound' state',
      patchMembers self faults members state = (.ok results, state') ∧
        bound' ≤ bound + members.length ∧
        HookLoop self clazz members state held userIds results bound' state' := by
  induction members generalizing bound state held with
  | nil =>
      refine ⟨[], bound, state, rfl, le_rfl, ?_, fun _ _ live => live, ?_, ?_, ?_,
        fun _ _ => rfl⟩
      · rw [unhooks, List.filterMap_nil, List.append_nil, Held.set_eq_self]
        exact ledger
      · exact fun _ _ member => nomatch member
      · exact fun _ member => nomatch member
      · exact fun _ ⟨_, _, member, _⟩ => nomatch member
  | cons member rest inductionHypothesis =>
      have isDeclared := declared member List.mem_cons_self
      obtain ⟨fresh, restNodup⟩ := List.nodup_cons.mp nodup
      have restDeclared : ∀ other ∈ rest, other.executable.declaringClass = clazz :=
        fun other present => declared other (List.mem_cons_of_mem _ present)
      have different : ∀ other ∈ rest, member.executable ≠ other.executable := by
        intro other present same
        exact fresh (same ▸ List.mem_map_of_mem present)
      have below : bound < 2 ^ 64 := by
        rw [List.length_cons] at small
        omega
      rcases patch_logger_cases ledger.hosted (absent member List.mem_cons_self)
          (faults member.executable) with
        ⟨state', patched, registers⟩ | ⟨throwable, state', patched, ignored, hosted, count,
          pairs, snapshot⟩
      · -- Registered: the rest of the loop runs with one more id in the book.
        have ledger' := ledger.register_logger below isSelf
          (absent member List.mem_cons_self) registers isDeclared
        have absent' : ∀ other ∈ rest, ∀ id holder,
            state'.pairs.lookup id = some (holder, self) →
              holder.executable ≠ other.executable := by
          intro other present id holder live
          rcases (registers.live_iff (ledger.next_free below) id _).mp live with
            ⟨-, isNew⟩ | live
          · cases isNew
            exact different other present
          · exact absent other (List.mem_cons_of_mem _ present) id holder live
        obtain ⟨results, bound', final, loops, atMost, loop⟩ := inductionHypothesis ledger'
          (by rw [List.length_cons] at small; omega) restDeclared restNodup absent'
        refine ⟨(member, .ok (state.count + 1)) :: results, bound', final, ?_, ?_, ?_⟩
        · simp only [patchMembers, patched, loops]
        · rw [List.length_cons]
          omega
        · exact HookLoop.cons_ok ledger below registers different loop
      · have ledger' := ledger.congr hosted count pairs snapshot
        have absent' : ∀ other ∈ rest, ∀ id holder,
            state'.pairs.lookup id = some (holder, self) →
              holder.executable ≠ other.executable := by
          rw [pairs]
          exact fun other present => absent other (List.mem_cons_of_mem _ present)
        obtain ⟨results, bound', final, loops, atMost, loop⟩ := inductionHypothesis ledger'
          (by rw [List.length_cons] at small; omega) restDeclared restNodup absent'
        refine ⟨(member, .error throwable) :: results, bound', final, ?_, ?_, ?_⟩
        · simp only [patchMembers, patched, ignored, loops, if_true]
        · rw [List.length_cons]
          omega
        · exact HookLoop.cons_error pairs snapshot loop

end Hook

/-- What the loop of `unhook` makes of a state. -/
structure UnhookLoop (logger : Patch) (clazz : JavaClass) (ids : List Int64) (bound : Nat)
    (state : Patchwork) (held : Held) (userIds : List Int64) (state' : Patchwork) :
    Prop where
  ledger : Ledger bound state' (held.set logger clazz []) userIds
  kept : ∀ id pair, id ∉ ids → state.pairs.lookup id = some pair →
    state'.pairs.lookup id = some pair
  removed : ∀ id ∈ ids, ∀ member, state.pairs.lookup id = some (member, logger) →
    state'.snapshot member.executable = (state.snapshot member.executable).erase logger
  unchanged : ∀ executable,
    (∀ id ∈ ids, ∀ member, state.pairs.lookup id = some (member, logger) →
      member.executable ≠ executable) →
    state'.snapshot executable = state.snapshot executable

theorem recover_live {state : Patchwork} (hosted : state.Hosted) {id : Int64}
    {member : Member} {patch : Patch}
    (live : state.pairs.lookup id = some (member, patch)) :
    ∃ state', state.recover id = (.ok true, state') ∧
      Recovery state state' id member patch := by
  have result := Patchwork.recover_cases hosted id
  generalize state.recover id = outcome at result
  cases result with
  | unknown absent =>
      rw [absent] at live
      exact nomatch live
  | recovered holder other isLive state' hosted' _ count pairs snapshot =>
      rw [isLive] at live
      cases live
      exact ⟨state', rfl, isLive, hosted', count, pairs, snapshot⟩

/-- The first id is recovered, and the loop goes on with the others. -/
theorem UnhookLoop.cons {self : Patch} (isSelf : IsLogger self) {clazz : JavaClass}
    {userIds rest : List Int64} {bound : Nat} {id : Int64} {member : Member}
    {state between final : Patchwork} {held : Held}
    (ledger : Ledger bound state held userIds) (fresh : id ∉ rest)
    (recovery : Recovery state between id member self)
    (loop : UnhookLoop self clazz rest bound between (held.set self clazz rest) userIds
      final) :
    UnhookLoop self clazz (id :: rest) bound state held userIds final := by
  have restDiffers : ∀ other ∈ rest, other ≠ id := by
    rintro other present rfl
    exact fresh present
  -- No other id of the list stands for the executable of the first.
  have alone : ∀ other ∈ rest, ∀ holder,
      between.pairs.lookup other = some (holder, self) →
        holder.executable ≠ member.executable := by
    intro other present holder isLive same
    obtain ⟨different, isLive⟩ := (recovery.live_iff other _).mp isLive
    exact different (ledger.unique other id holder member self isSelf isLive recovery.live
      same)
  constructor
  case ledger =>
    have later := loop.ledger
    rw [Held.set_set] at later
    exact later
  case kept =>
    intro other pair absent isLive
    have different : other ≠ id := fun same => absent (same ▸ List.mem_cons_self)
    exact loop.kept other pair (fun present => absent (List.mem_cons_of_mem _ present))
      ((recovery.live_iff other pair).mpr ⟨different, isLive⟩)
  case removed =>
    intro other present holder isLive
    rcases List.mem_cons.mp present with rfl | present
    · rw [recovery.live] at isLive
      cases isLive
      rw [loop.unchanged _ alone, recovery.snapshot, if_pos rfl]
    · have isLive' := (recovery.live_iff other _).mpr ⟨restDiffers other present, isLive⟩
      rw [loop.removed other present holder isLive', recovery.snapshot,
        if_neg (alone other present holder isLive')]
  case unchanged =>
    intro executable untouched
    have isOther : executable ≠ member.executable := fun same =>
      untouched id List.mem_cons_self member recovery.live same.symm
    rw [loop.unchanged executable, recovery.snapshot, if_neg isOther]
    intro other present holder isLive
    exact untouched other (List.mem_cons_of_mem _ present) holder
      ((recovery.live_iff other _).mp isLive).2

theorem recoverIds_spec {self : Patch} (isSelf : IsLogger self) {clazz : JavaClass}
    {userIds : List Int64} {bound : Nat} (ids : List Int64) {state : Patchwork}
    {held : Held} (ledger : Ledger bound state held userIds)
    (isIds : held self clazz = ids) :
    ∃ state', recoverIds ids state = (.ok (), state') ∧
      UnhookLoop self clazz ids bound state held userIds state' := by
  induction ids generalizing state held with
  | nil =>
      refine ⟨state, rfl, ?_, fun _ _ _ live => live, ?_, fun _ _ => rfl⟩
      · rw [← isIds, Held.set_eq_self]
        exact ledger
      · exact fun _ member => nomatch member
  | cons id rest inductionHypothesis =>
      have holds : id ∈ held self clazz := by
        rw [isIds]
        exact List.mem_cons_self
      obtain ⟨fresh, -⟩ := List.nodup_cons.mp (isIds ▸ ledger.nodup self clazz isSelf)
      obtain ⟨member, live, declares⟩ := ledger.sound self clazz isSelf id holds
      obtain ⟨between, recovered, recovery⟩ := recover_live ledger.hosted live
      have ledger' := ledger.recover_logger isSelf recovery declares
      rw [isIds, List.erase_cons_head] at ledger'
      obtain ⟨final, loops, loop⟩ := inductionHypothesis ledger' (Held.set_self _ _ _ _)
      refine ⟨final, ?_, loop.cons isSelf ledger fresh recovery⟩
      simp only [recoverIds, recovered, loops]

end AndroidPatch.Logcat
