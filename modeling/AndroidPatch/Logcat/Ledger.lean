import AndroidPatch.Lang.Ids
import AndroidPatch.Logcat.Hooking

/-!
Contract: the agreement of loggers, registry and kernel.

Owns:
- `Ledger`, the invariant that ties the ids the loggers hold to the live
  registrations and to the snapshots;
- what one `patch` or `recover`, by a logger or by another user, makes of it;
- the two loops of `hook` and `unhook`.

The invariant needs ids that do not come back, so every step that registers
asks for a counter that has not gone around.
-/

namespace AndroidPatch.Logcat

open AndroidPatch.Library AndroidPatch.Lang

/-- A `Logcat` object, `Lucy` included. -/
def IsLogger (patch : Patch) : Prop := patch.kind ≠ .plugin

/-- The id is one of the first `bound` ids. -/
def Within (bound : Nat) (id : Int64) : Prop :=
  ∃ position, 1 ≤ position ∧ position ≤ bound ∧ id = Int64.ofNat position

theorem Within.succ {bound : Nat} {id : Int64} (within : Within bound id) :
    Within (bound + 1) id := by
  obtain ⟨position, positive, below, isId⟩ := within
  exact ⟨position, positive, by omega, isId⟩

theorem not_within_next {bound : Nat} (small : bound < 2 ^ 64) :
    ¬ Within bound (Int64.ofNat (bound + 1)) := by
  rintro ⟨position, positive, below, same⟩
  rw [Patchwork.ofNat_eq_ofNat_iff] at same
  omega

/-- The ids every logger holds for every class. -/
abbrev Held := Patch → JavaClass → List Int64

/-- The same ids, except those of one logger for one class. -/
def Held.set (held : Held) (self : Patch) (clazz : JavaClass) (ids : List Int64) : Held :=
  fun logger other => if logger = self ∧ other = clazz then ids else held logger other

theorem Held.set_self (held : Held) (self : Patch) (clazz : JavaClass) (ids : List Int64) :
    held.set self clazz ids self clazz = ids :=
  if_pos ⟨rfl, rfl⟩

/-- **Loggers, registry and kernel agree.**  `bound` is the number of ids issued
so far. -/
structure Ledger (bound : Nat) (state : Patchwork) (held : Held)
    (userIds : List Int64) : Prop where
  hosted : state.Hosted
  count : state.count = Int64.ofNat bound
  live : ∀ id pair, state.pairs.lookup id = some pair → Within bound id
  issued : ∀ id ∈ userIds, Within bound id
  nodup : ∀ logger clazz, IsLogger logger → (held logger clazz).Nodup
  sound : ∀ logger clazz, IsLogger logger → ∀ id ∈ held logger clazz,
    ∃ member, state.pairs.lookup id = some (member, logger) ∧
      member.executable.declaringClass = clazz
  complete : ∀ id member logger, IsLogger logger →
    state.pairs.lookup id = some (member, logger) →
      id ∈ held logger member.executable.declaringClass
  unique : ∀ left right leftMember rightMember logger, IsLogger logger →
    state.pairs.lookup left = some (leftMember, logger) →
    state.pairs.lookup right = some (rightMember, logger) →
    leftMember.executable = rightMember.executable → left = right
  effect : ∀ logger executable, IsLogger logger →
    (logger ∈ state.snapshot executable ↔
      ∃ id member, state.pairs.lookup id = some (member, logger) ∧
        member.executable = executable)
  foreign : ∀ id ∈ userIds, ∀ member patch,
    state.pairs.lookup id = some (member, patch) → patch.kind = .plugin

theorem initial_ledger : Ledger 0 .provided (fun _ _ => []) [] where
  hosted := rfl
  count := rfl
  live := fun _ _ live => nomatch live
  issued := fun _ member => nomatch member
  nodup := fun _ _ _ => List.nodup_nil
  sound := fun _ _ _ _ member => nomatch member
  complete := fun _ _ _ _ live => nomatch live
  unique := fun _ _ _ _ _ _ live => nomatch live
  effect := by
    intro logger executable _
    exact iff_of_false (fun member => nomatch member) (fun ⟨_, _, live, _⟩ => nomatch live)
  foreign := fun _ member => nomatch member

section Steps

variable {bound : Nat} {state : Patchwork} {held : Held} {userIds : List Int64}

theorem Ledger.next_eq (ledger : Ledger bound state held userIds) :
    state.count + 1 = Int64.ofNat (bound + 1) := by
  rw [ledger.count, Int64.ofNat_add]
  rfl

/-- The next id is not live. -/
theorem Ledger.next_free (ledger : Ledger bound state held userIds)
    (small : bound < 2 ^ 64) : state.pairs.lookup (state.count + 1) = none := by
  by_contra live
  obtain ⟨pair, isPair⟩ := Option.ne_none_iff_exists'.mp live
  have within := ledger.live _ pair isPair
  rw [ledger.next_eq] at within
  exact not_within_next small within

theorem Ledger.ne_next (ledger : Ledger bound state held userIds)
    (small : bound < 2 ^ 64) {id : Int64} {pair : Member × Patch}
    (live : state.pairs.lookup id = some pair) : id ≠ state.count + 1 := by
  rintro rfl
  rw [ledger.next_free small] at live
  exact nomatch live

/-- A step that changes no registration of a logger. -/
theorem Ledger.bystander (ledger : Ledger bound state held userIds) {bound' : Nat}
    {state' : Patchwork} {userIds' : List Int64} (hosted : state'.Hosted)
    (count : state'.count = Int64.ofNat bound')
    (live : ∀ id pair, state'.pairs.lookup id = some pair → Within bound' id)
    (issued : ∀ id ∈ userIds', Within bound' id)
    (foreign : ∀ id ∈ userIds', ∀ member patch,
      state'.pairs.lookup id = some (member, patch) → patch.kind = .plugin)
    (sameLive : ∀ id member logger, IsLogger logger →
      (state'.pairs.lookup id = some (member, logger) ↔
        state.pairs.lookup id = some (member, logger)))
    (sameSnapshot : ∀ logger executable, IsLogger logger →
      (logger ∈ state'.snapshot executable ↔ logger ∈ state.snapshot executable)) :
    Ledger bound' state' held userIds' where
  hosted := hosted
  count := count
  live := live
  issued := issued
  nodup := ledger.nodup
  sound := by
    intro logger clazz isLogger id holds
    obtain ⟨holder, live, declares⟩ := ledger.sound logger clazz isLogger id holds
    exact ⟨holder, (sameLive id holder logger isLogger).mpr live, declares⟩
  complete := by
    intro id holder logger isLogger live
    exact ledger.complete id holder logger isLogger
      ((sameLive id holder logger isLogger).mp live)
  unique := by
    intro left right leftMember rightMember logger isLogger leftLive rightLive
    exact ledger.unique left right leftMember rightMember logger isLogger
      ((sameLive _ _ _ isLogger).mp leftLive) ((sameLive _ _ _ isLogger).mp rightLive)
  effect := by
    intro logger executable isLogger
    rw [sameSnapshot logger executable isLogger, ledger.effect logger executable isLogger]
    simp only [sameLive _ _ _ isLogger]
  foreign := foreign

/-- A state with the same registrations and snapshots. -/
theorem Ledger.congr (ledger : Ledger bound state held userIds) {state' : Patchwork}
    (hosted : state'.Hosted) (count : state'.count = state.count)
    (pairs : state'.pairs = state.pairs)
    (snapshot : ∀ executable, state'.snapshot executable = state.snapshot executable) :
    Ledger bound state' held userIds :=
  ledger.bystander hosted (count.trans ledger.count) (pairs ▸ ledger.live) ledger.issued
    (pairs ▸ ledger.foreign) (fun _ _ _ _ => by rw [pairs])
    (fun _ executable _ => by rw [snapshot executable])

/-- Looking up in a map with one more entry under a free key. -/
theorem lookup_insert_iff {pairs : AList (fun _ : Int64 => Member × Patch)} {key : Int64}
    (free : pairs.lookup key = none) (value : Member × Patch) (id : Int64)
    (pair : Member × Patch) :
    (pairs.insert key value).lookup id = some pair ↔
      id = key ∧ pair = value ∨ pairs.lookup id = some pair := by
  by_cases same : id = key
  · subst same
    rw [AList.lookup_insert, free]
    simp [eq_comm]
  · rw [AList.lookup_insert_ne same]
    simp [same]

theorem lookup_erase_iff {pairs : AList (fun _ : Int64 => Member × Patch)}
    (key id : Int64) (pair : Member × Patch) :
    (pairs.erase key).lookup id = some pair ↔ id ≠ key ∧ pairs.lookup id = some pair := by
  by_cases same : id = key
  · subst same
    rw [AList.lookup_erase]
    simp
  · rw [AList.lookup_erase_ne same]
    simp [same]

/-- A registration under the next id. -/
structure Registration (state state' : Patchwork) (member : Member) (patch : Patch) :
    Prop where
  hosted : state'.Hosted
  count : state'.count = state.count + 1
  pairs : state'.pairs = state.pairs.insert (state.count + 1) (member, patch)
  snapshot : ∀ executable, state'.snapshot executable =
    if executable = member.executable then
      CopyOnWriteSortedSet.added Patch.Precedes (state.snapshot member.executable) patch
    else state.snapshot executable

theorem Registration.live_iff {state' : Patchwork} {member : Member} {patch : Patch}
    (registers : Registration state state' member patch)
    (free : state.pairs.lookup (state.count + 1) = none) (id : Int64)
    (pair : Member × Patch) :
    state'.pairs.lookup id = some pair ↔
      id = state.count + 1 ∧ pair = (member, patch) ∨ state.pairs.lookup id = some pair := by
  rw [registers.pairs, lookup_insert_iff free]

theorem Ledger.within_next (ledger : Ledger bound state held userIds) :
    Within (bound + 1) (state.count + 1) :=
  ⟨bound + 1, by omega, le_rfl, ledger.next_eq⟩

theorem Ledger.live_registered (ledger : Ledger bound state held userIds)
    (small : bound < 2 ^ 64) {state' : Patchwork} {member : Member} {patch : Patch}
    (registers : Registration state state' member patch) (id : Int64)
    (pair : Member × Patch) (live : state'.pairs.lookup id = some pair) :
    Within (bound + 1) id := by
  rcases (registers.live_iff (ledger.next_free small) id pair).mp live with
    ⟨isNew, -⟩ | live
  · rw [isNew]
    exact ledger.within_next
  · exact (ledger.live id pair live).succ

/-- Another user registers a patch of its own. -/
theorem Ledger.register_plugin (ledger : Ledger bound state held userIds)
    (small : bound < 2 ^ 64) {state' : Patchwork} {member : Member} {patch : Patch}
    (plugin : patch.kind = .plugin) (registers : Registration state state' member patch) :
    Ledger (bound + 1) state' held ((state.count + 1) :: userIds) := by
  have isLive := registers.live_iff (ledger.next_free small)
  have different : ∀ logger, IsLogger logger → logger ≠ patch := by
    rintro logger isLogger rfl
    exact isLogger plugin
  apply ledger.bystander registers.hosted (registers.count.trans ledger.next_eq)
    (ledger.live_registered small registers)
  case issued =>
    intro id holds
    rcases List.mem_cons.mp holds with isNew | holds
    · rw [isNew]
      exact ledger.within_next
    · exact (ledger.issued id holds).succ
  case foreign =>
    intro id holds holder other live
    rcases (isLive id _).mp live with ⟨-, isNew⟩ | live
    · cases isNew
      exact plugin
    · rcases List.mem_cons.mp holds with isNew | holds
      · exact absurd isNew (ledger.ne_next small live)
      · exact ledger.foreign id holds holder other live
  case sameLive =>
    intro id holder logger isLogger
    rw [isLive]
    apply or_iff_right
    rintro ⟨-, same⟩
    exact different logger isLogger (congrArg Prod.snd same)
  case sameSnapshot =>
    intro logger executable isLogger
    rw [registers.snapshot]
    split_ifs with same
    · rw [CopyOnWriteSortedSet.mem_added, same]
      exact or_iff_right (different logger isLogger)
    · rfl

/-- A new registration puts its patch into effect on its member. -/
theorem Ledger.effect_registered (ledger : Ledger bound state held userIds)
    (small : bound < 2 ^ 64) {state' : Patchwork} {member : Member} {self : Patch}
    (registers : Registration state state' member self) (logger : Patch)
    (executable : Executable) (isLogger : IsLogger logger) :
    logger ∈ state'.snapshot executable ↔
      ∃ id holder, state'.pairs.lookup id = some (holder, logger) ∧
        holder.executable = executable := by
  have earlier := ledger.effect logger executable isLogger
  simp only [registers.live_iff (ledger.next_free small)]
  rw [registers.snapshot]
  split_ifs with same
  · rw [CopyOnWriteSortedSet.mem_added, ← same, earlier]
    constructor
    · rintro (rfl | ⟨id, holder, live, equal⟩)
      · exact ⟨_, member, Or.inl ⟨rfl, rfl⟩, same.symm⟩
      · exact ⟨id, holder, Or.inr live, equal⟩
    · rintro ⟨id, holder, ⟨-, isNew⟩ | live, equal⟩
      · exact Or.inl (congrArg Prod.snd isNew)
      · exact Or.inr ⟨id, holder, live, equal⟩
  · rw [earlier]
    constructor
    · rintro ⟨id, holder, live, equal⟩
      exact ⟨id, holder, Or.inr live, equal⟩
    · rintro ⟨id, holder, ⟨-, isNew⟩ | live, equal⟩
      · cases isNew
        exact absurd equal.symm same
      · exact ⟨id, holder, live, equal⟩

theorem Held.mem_set_append (held : Held) (self : Patch) (clazz : JavaClass) (new id : Int64)
    (logger : Patch) (other : JavaClass) :
    id ∈ held.set self clazz (held self clazz ++ [new]) logger other ↔
      id ∈ held logger other ∨ id = new ∧ logger = self ∧ other = clazz := by
  unfold Held.set
  split_ifs with same
  · obtain ⟨rfl, rfl⟩ := same
    simp
  · simp [same]

/-- A logger registers itself on a member it is not registered on, and notes the
id under the declaring class. -/
theorem Ledger.register_logger (ledger : Ledger bound state held userIds)
    (small : bound < 2 ^ 64) {state' : Patchwork} {member : Member} {self : Patch}
    (isSelf : IsLogger self)
    (absent : ∀ id holder, state.pairs.lookup id = some (holder, self) →
      holder.executable ≠ member.executable)
    (registers : Registration state state' member self) {clazz : JavaClass}
    (isDeclared : member.executable.declaringClass = clazz) :
    Ledger (bound + 1) state'
      (held.set self clazz (held self clazz ++ [state.count + 1])) userIds := by
  have isLive := registers.live_iff (ledger.next_free small)
  constructor
  case hosted => exact registers.hosted
  case count => exact registers.count.trans ledger.next_eq
  case live => exact ledger.live_registered small registers
  case issued => exact fun id holds => (ledger.issued id holds).succ
  case nodup =>
    intro logger other isLogger
    unfold Held.set
    split_ifs with same
    · rw [List.nodup_append]
      refine ⟨ledger.nodup self clazz isSelf, List.nodup_singleton _, ?_⟩
      intro id holds new isNew
      obtain ⟨holder, live, -⟩ := ledger.sound self clazz isSelf id holds
      rw [List.mem_singleton.mp isNew]
      exact ledger.ne_next small live
    · exact ledger.nodup logger other isLogger
  case sound =>
    intro logger other isLogger id holds
    rcases (held.mem_set_append _ _ _ _ _ _).mp holds with holds | ⟨isNew, rfl, rfl⟩
    · obtain ⟨holder, live, declares⟩ := ledger.sound logger other isLogger id holds
      exact ⟨holder, (isLive id _).mpr (Or.inr live), declares⟩
    · exact ⟨member, (isLive id _).mpr (Or.inl ⟨isNew, rfl⟩), isDeclared⟩
  case complete =>
    intro id holder logger isLogger live
    rw [held.mem_set_append]
    rcases (isLive id _).mp live with ⟨isNew, same⟩ | live
    · cases same
      exact Or.inr ⟨isNew, rfl, isDeclared⟩
    · exact Or.inl (ledger.complete id holder logger isLogger live)
  case unique =>
    intro left right leftMember rightMember logger isLogger leftLive rightLive same
    rcases (isLive left _).mp leftLive with ⟨leftNew, leftSame⟩ | leftLive
    · rcases (isLive right _).mp rightLive with ⟨rightNew, -⟩ | rightLive
      · rw [leftNew, rightNew]
      · cases leftSame
        exact absurd same.symm (absent right rightMember rightLive)
    · rcases (isLive right _).mp rightLive with ⟨-, rightSame⟩ | rightLive
      · cases rightSame
        exact absurd same (absent left leftMember leftLive)
      · exact ledger.unique left right leftMember rightMember logger isLogger leftLive
          rightLive same
  case effect => exact ledger.effect_registered small registers
  case foreign =>
    intro id holds holder patch live
    rcases (isLive id _).mp live with ⟨isNew, -⟩ | live
    · have within := ledger.issued id holds
      rw [isNew, ledger.next_eq] at within
      exact absurd within (not_within_next small)
    · exact ledger.foreign id holds holder patch live

/-- Another user is told the id of a registration it already has. -/
theorem Ledger.repeat_plugin (ledger : Ledger bound state held userIds) {id : Int64}
    {member : Member} {patch : Patch} (plugin : patch.kind = .plugin)
    (live : state.pairs.lookup id = some (member, patch)) :
    Ledger bound state held (id :: userIds) where
  __ := ledger
  issued := by
    intro other holds
    rcases List.mem_cons.mp holds with rfl | holds
    · exact ledger.live other _ live
    · exact ledger.issued other holds
  foreign := by
    intro other holds holder owned isLive
    rcases List.mem_cons.mp holds with rfl | holds
    · rw [live] at isLive
      cases isLive
      exact plugin
    · exact ledger.foreign other holds holder owned isLive

/-- A recovery of the live id `id`. -/
structure Recovery (state state' : Patchwork) (id : Int64) (member : Member)
    (patch : Patch) : Prop where
  live : state.pairs.lookup id = some (member, patch)
  hosted : state'.Hosted
  count : state'.count = state.count
  pairs : state'.pairs = state.pairs.erase id
  snapshot : ∀ executable, state'.snapshot executable =
    if executable = member.executable then
      (state.snapshot member.executable).erase patch
    else state.snapshot executable

theorem Recovery.live_iff {state' : Patchwork} {id : Int64} {member : Member} {patch : Patch}
    (recovery : Recovery state state' id member patch) (other : Int64)
    (pair : Member × Patch) :
    state'.pairs.lookup other = some pair ↔
      other ≠ id ∧ state.pairs.lookup other = some pair := by
  rw [recovery.pairs, lookup_erase_iff]

/-- Another user recovers a patch of its own. -/
theorem Ledger.recover_plugin (ledger : Ledger bound state held userIds)
    {state' : Patchwork} {id : Int64} {member : Member} {patch : Patch}
    (plugin : patch.kind = .plugin) (recovery : Recovery state state' id member patch) :
    Ledger bound state' held userIds := by
  have different : ∀ logger, IsLogger logger → logger ≠ patch := by
    rintro logger isLogger rfl
    exact isLogger plugin
  apply ledger.bystander recovery.hosted (recovery.count.trans ledger.count)
  case live =>
    intro other pair live
    exact ledger.live other pair ((recovery.live_iff other pair).mp live).2
  case issued => exact ledger.issued
  case foreign =>
    intro other holds holder owned live
    exact ledger.foreign other holds holder owned ((recovery.live_iff other _).mp live).2
  case sameLive =>
    intro other holder logger isLogger
    rw [recovery.live_iff]
    apply and_iff_right_of_imp
    rintro live rfl
    rw [recovery.live] at live
    cases live
    exact different patch isLogger rfl
  case sameSnapshot =>
    intro logger executable isLogger
    rw [recovery.snapshot]
    split_ifs with same
    · rw [List.mem_erase_of_ne (different logger isLogger), same]
    · rfl

/-- A recovery takes its patch out of effect on its member: no other id of the
same logger stands for that member. -/
theorem Ledger.effect_recovered (ledger : Ledger bound state held userIds)
    {state' : Patchwork} {id : Int64} {member : Member} {self : Patch}
    (recovery : Recovery state state' id member self) (logger : Patch)
    (executable : Executable) (isLogger : IsLogger logger) :
    logger ∈ state'.snapshot executable ↔
      ∃ other holder, state'.pairs.lookup other = some (holder, logger) ∧
        holder.executable = executable := by
  have earlier := ledger.effect logger executable isLogger
  simp only [recovery.live_iff]
  rw [recovery.snapshot]
  split_ifs with same
  · rw [← same, (state.snapshot_nodup executable).mem_erase_iff]
    constructor
    · rintro ⟨different, present⟩
      obtain ⟨other, holder, live, equal⟩ := earlier.mp present
      refine ⟨other, holder, ⟨?_, live⟩, equal⟩
      rintro rfl
      rw [recovery.live] at live
      cases live
      exact different rfl
    · rintro ⟨other, holder, ⟨kept, live⟩, equal⟩
      refine ⟨?_, earlier.mpr ⟨other, holder, live, equal⟩⟩
      rintro rfl
      exact kept (ledger.unique other id holder member logger isLogger live recovery.live
        (equal.trans same))
  · rw [earlier]
    constructor
    · rintro ⟨other, holder, live, equal⟩
      refine ⟨other, holder, ⟨?_, live⟩, equal⟩
      rintro rfl
      rw [recovery.live] at live
      cases live
      exact same equal.symm
    · rintro ⟨other, holder, ⟨-, live⟩, equal⟩
      exact ⟨other, holder, live, equal⟩

/-- The id is held by its own logger under its own class and nowhere else. -/
theorem Ledger.mem_set_erase (ledger : Ledger bound state held userIds) {id : Int64}
    {member : Member} {self : Patch}
    (isLive : state.pairs.lookup id = some (member, self)) {clazz : JavaClass}
    (isDeclared : member.executable.declaringClass = clazz) {logger : Patch}
    (isLogger : IsLogger logger) (other : Int64) (otherClass : JavaClass) :
    other ∈ held.set self clazz ((held self clazz).erase id) logger otherClass ↔
      other ≠ id ∧ other ∈ held logger otherClass := by
  unfold Held.set
  split_ifs with same
  · obtain ⟨rfl, rfl⟩ := same
    exact (ledger.nodup logger _ isLogger).mem_erase_iff
  · refine ⟨fun holds => ⟨?_, holds⟩, fun holds => holds.2⟩
    rintro rfl
    obtain ⟨holder, live, declares⟩ := ledger.sound logger otherClass isLogger other holds
    rw [isLive] at live
    cases live
    exact same ⟨rfl, declares.symm.trans isDeclared⟩

/-- A logger recovers one of the ids it holds. -/
theorem Ledger.recover_logger (ledger : Ledger bound state held userIds)
    {state' : Patchwork} {id : Int64} {member : Member} {self : Patch}
    (isSelf : IsLogger self) (recovery : Recovery state state' id member self)
    {clazz : JavaClass} (isDeclared : member.executable.declaringClass = clazz) :
    Ledger bound state' (held.set self clazz ((held self clazz).erase id)) userIds := by
  have isLive := recovery.live_iff
  constructor
  case hosted => exact recovery.hosted
  case count => exact recovery.count.trans ledger.count
  case live => exact fun other pair live => ledger.live other pair ((isLive _ _).mp live).2
  case issued => exact ledger.issued
  case nodup =>
    intro logger other isLogger
    unfold Held.set
    split_ifs
    · exact (ledger.nodup self clazz isSelf).erase id
    · exact ledger.nodup logger other isLogger
  case sound =>
    intro logger otherClass isLogger other holds
    rw [ledger.mem_set_erase recovery.live isDeclared isLogger] at holds
    obtain ⟨holder, live, declares⟩ := ledger.sound logger otherClass isLogger other holds.2
    exact ⟨holder, (isLive other _).mpr ⟨holds.1, live⟩, declares⟩
  case complete =>
    intro other holder logger isLogger live
    obtain ⟨kept, live⟩ := (isLive other _).mp live
    rw [ledger.mem_set_erase recovery.live isDeclared isLogger]
    exact ⟨kept, ledger.complete other holder logger isLogger live⟩
  case unique =>
    intro left right leftMember rightMember logger isLogger leftLive rightLive
    exact ledger.unique left right leftMember rightMember logger isLogger
      ((isLive _ _).mp leftLive).2 ((isLive _ _).mp rightLive).2
  case effect => exact ledger.effect_recovered recovery
  case foreign =>
    intro other holds holder patch live
    exact ledger.foreign other holds holder patch ((isLive other _).mp live).2

/-! ## One call by a logger -/

theorem isPatchError_of_patch {member : Member} {patch : Patch} {faults : AddFaults}
    {throwable : Throwable}
    (failed : (state.patch (some member) (some patch) faults).1 = .error throwable) :
    isPatchError throwable := by
  have wraps : ∀ cause, isPatchError (asPatchError cause) := by
    intro cause
    cases cause <;> rfl
  simp only [Patchwork.patch] at failed
  split at failed
  · cases failed
  · split at failed
    · cases failed
      exact wraps _
    · split at failed
      · cases failed
        exact wraps _
      · cases failed

/-- A logger that is not yet registered on a member either registers under the
next id, or fails with a `PatchError` that changes nothing. -/
theorem patch_logger_cases (hosted : state.Hosted) {member : Member} {self : Patch}
    (absent : ∀ id holder, state.pairs.lookup id = some (holder, self) →
      holder.executable ≠ member.executable) (faults : AddFaults) :
    (∃ state', state.patch (some member) (some self) faults =
        (.ok (state.count + 1), state') ∧ Registration state state' member self) ∨
      ∃ throwable state', state.patch (some member) (some self) faults =
          (.error throwable, state') ∧ isPatchError throwable ∧ state'.Hosted ∧
        state'.count = state.count ∧ state'.pairs = state.pairs ∧
        ∀ executable, state'.snapshot executable = state.snapshot executable := by
  have result := Patchwork.patch_cases hosted (some member) (some self) faults
  have wrapped := @isPatchError_of_patch state member self faults
  generalize state.patch (some member) (some self) faults = outcome at result wrapped
  cases result with
  | failed throwable _ state' hosted' _ count pairs snapshot =>
      exact Or.inr ⟨throwable, state', rfl, wrapped rfl, hosted', count, pairs, snapshot⟩
  | existing holder patch isMember isPatch id live =>
      cases isMember
      cases isPatch
      exact absurd rfl (absent id member live)
  | registered holder patch isMember isPatch _ state' hosted' _ count pairs snapshot =>
      cases isMember
      cases isPatch
      exact Or.inl ⟨state', rfl, hosted', count, pairs, snapshot⟩

end Steps

end AndroidPatch.Logcat
