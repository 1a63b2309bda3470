import AndroidPatch.Library.Transactions

/-!
Contract: what threads rely on of each other, with one monitor between them.

Owns:
- `Protocol`: what holds always, what holds while no thread is inside the monitor, and what
  an access may change there and elsewhere;
- `Follows`: code that keeps to a protocol, with what it knows of the shared state on its way;
- threads that follow a protocol keep what it promises, however they are interleaved.

The monitor is not entered again by the thread that is inside.
-/

namespace AndroidPatch.Library

structure Protocol (S M : Type) where
  monitor : M
  always : S → Prop
  /-- Holds while no thread is inside. -/
  free : S → Prop
  /-- What an access changes at most, if it is made inside. -/
  inside : S → S → Prop
  /-- What an access changes at most, if it is made outside. -/
  outside : S → S → Prop
  outside_refl : ∀ state, outside state state
  inside_of_outside : ∀ {before after}, outside before after → inside before after
  free_of_outside : ∀ {before after}, outside before after → free before → free after

namespace Protocol

variable {S M : Type} (protocol : Protocol S M)

/-- What an access may change. -/
def may (isInside : Bool) : S → S → Prop :=
  if isInside then protocol.inside else protocol.outside

/-- Other threads leave it true: they are outside while this one is inside. -/
def Stable (isInside : Bool) (known : S → Prop) : Prop :=
  ∀ before after, protocol.may (!isInside) before after → known before → known after

variable {protocol}

theorem may_inside {isInside : Bool} {before after : S}
    (changes : protocol.may isInside before after) : protocol.inside before after := by
  cases isInside with
  | false => exact protocol.inside_of_outside changes
  | true => exact changes

/-- What is known outside is still known inside, together with what holds on entry. -/
theorem Stable.enter {known : S → Prop} (stable : protocol.Stable false known) :
    protocol.Stable true fun state => known state ∧ protocol.free state := by
  intro before after changes isKnown
  exact ⟨stable before after (protocol.inside_of_outside changes) isKnown.1,
    protocol.free_of_outside changes isKnown.2⟩

end Protocol

namespace Code

variable {S M A B : Type} [DecidableEq M] (protocol : Protocol S M)

/-- The code keeps to the protocol. -/
def Follows (post : A → S → Prop) : Bool → (S → Prop) → Code S M A → Prop
  | isInside, known, done result => isInside = false ∧
      ∀ state, protocol.always state → known state → post result state
  | isInside, known, access update next => ∀ state, protocol.always state → known state →
      protocol.may isInside state (update state) ∧ protocol.always (update state) ∧
        ∃ known', protocol.Stable isInside known' ∧ known' (update state) ∧
          Follows post isInside known' (next state)
  | isInside, known, enter other next =>
      if other = protocol.monitor then
        isInside = false ∧ Follows post true (fun state => known state ∧ protocol.free state) next
      else Follows post isInside known next
  | isInside, known, leave other next =>
      if other = protocol.monitor then
        isInside = true ∧ (∀ state, protocol.always state → known state → protocol.free state) ∧
          ∃ known', protocol.Stable false known' ∧
            (∀ state, protocol.always state → known state → known' state) ∧
            Follows post false known' next
      else Follows post isInside known next

variable {protocol} {post : A → S → Prop}

/-- Whoever knows more can do the same. -/
theorem Follows.weaken {isInside : Bool} {known known' : S → Prop} {code : Code S M A}
    (follows : Follows protocol post isInside known' code)
    (more : ∀ state, protocol.always state → known state → known' state) :
    Follows protocol post isInside known code := by
  induction code generalizing isInside known known' with
  | done result =>
      refine ⟨follows.1, fun state isAlways isKnown => ?_⟩
      exact follows.2 state isAlways (more state isAlways isKnown)
  | access update next =>
      intro state isAlways isKnown
      exact follows state isAlways (more state isAlways isKnown)
  | enter other next inductionHypothesis =>
      unfold Follows at follows ⊢
      split_ifs at follows ⊢
      · refine ⟨follows.1, inductionHypothesis follows.2 fun state isAlways isKnown => ?_⟩
        exact ⟨more state isAlways isKnown.1, isKnown.2⟩
      · exact inductionHypothesis follows more
  | leave other next inductionHypothesis =>
      unfold Follows at follows ⊢
      split_ifs at follows ⊢
      · obtain ⟨isInside, isFree, known'', stable, keeps, follows⟩ := follows
        refine ⟨isInside, fun state isAlways isKnown => ?_, known'', stable,
          fun state isAlways isKnown => ?_, follows⟩
        · exact isFree state isAlways (more state isAlways isKnown)
        · exact keeps state isAlways (more state isAlways isKnown)
      · exact inductionHypothesis follows more

theorem Follows.bind {post' : B → S → Prop} {isInside : Bool} {known : S → Prop}
    {code : Code S M A} {rest : A → Code S M B}
    (first : Follows protocol post isInside known code)
    (later : ∀ result, Follows protocol post' false (post result) (rest result)) :
    Follows protocol post' isInside known (code >>= rest) := by
  show Follows protocol post' isInside known (code.bind rest)
  induction code generalizing isInside known with
  | done result =>
      obtain ⟨rfl, isPost⟩ := first
      exact (later result).weaken isPost
  | access update next inductionHypothesis =>
      intro state isAlways isKnown
      obtain ⟨changes, keeps, known', stable, isKnown', follows⟩ := first state isAlways isKnown
      exact ⟨changes, keeps, known', stable, isKnown', inductionHypothesis state follows⟩
  | enter other next inductionHypothesis =>
      unfold Follows at first
      rw [Code.bind]
      unfold Follows
      split_ifs at first ⊢
      · exact ⟨first.1, inductionHypothesis first.2⟩
      · exact inductionHypothesis first
  | leave other next inductionHypothesis =>
      unfold Follows at first
      rw [Code.bind]
      unfold Follows
      split_ifs at first ⊢
      · obtain ⟨wasInside, isFree, known', stable, keeps, follows⟩ := first
        exact ⟨wasInside, isFree, known', stable, keeps, inductionHypothesis follows⟩
      · exact inductionHypothesis first

theorem follows_pure {known : S → Prop} {result : A}
    (isPost : ∀ state, known state → post result state) :
    Follows protocol post false known (pure result : Code S M A) :=
  ⟨rfl, fun state _ isKnown => isPost state isKnown⟩

end Code

/-! ## Threads -/

namespace System

open Code

variable {T S M : Type} [DecidableEq T] [DecidableEq M] (protocol : Protocol S M)

/-- The thread knows something of the shared state that is true, and goes on from there. -/
def Knows (isInside : Bool) (shared : S) (code : Code S M Unit) : Prop :=
  ∃ known, protocol.Stable isInside known ∧ known shared ∧
    Follows protocol (fun _ _ => True) isInside known code

/-- The thread is outside the monitor. -/
def IsOutside (system : System T S M) (thread : T) : Prop :=
  protocol.monitor ∉ (system.threads thread).held ∧
    Knows protocol false system.shared (system.threads thread).code

/-- No thread is inside. -/
def AllOutside (system : System T S M) : Prop :=
  protocol.free system.shared ∧ ∀ thread, IsOutside protocol system thread

/-- One thread is inside. -/
def OneInside (system : System T S M) (holder : T) : Prop :=
  (system.threads holder).held.count protocol.monitor = 1 ∧
    Knows protocol true system.shared (system.threads holder).code ∧
    ∀ other, other ≠ holder → IsOutside protocol system other

/-- What the threads keep. -/
def Kept (system : System T S M) : Prop :=
  protocol.always system.shared ∧
    (AllOutside protocol system ∨ ∃ holder, OneInside protocol system holder)

variable {protocol} {system : System T S M}

theorem Knows.others {isInside : Bool} {shared shared' : S} {code : Code S M Unit}
    (knows : Knows protocol isInside shared code)
    (changes : protocol.may (!isInside) shared shared') :
    Knows protocol isInside shared' code := by
  obtain ⟨known, stable, isKnown, follows⟩ := knows
  exact ⟨known, stable, stable _ _ changes isKnown, follows⟩

theorem Knows.access {isInside : Bool} {shared : S} {update : S → S}
    {next : S → Code S M Unit} (isAlways : protocol.always shared)
    (knows : Knows protocol isInside shared (.access update next)) :
    protocol.may isInside shared (update shared) ∧ protocol.always (update shared) ∧
      Knows protocol isInside (update shared) (next shared) := by
  obtain ⟨known, stable, isKnown, follows⟩ := knows
  obtain ⟨changes, keeps, known', stable', isKnown', follows'⟩ := follows shared isAlways isKnown
  exact ⟨changes, keeps, known', stable', isKnown', follows'⟩

theorem Knows.enter_of_ne {isInside : Bool} {shared : S} {other : M} {next : Code S M Unit}
    (different : other ≠ protocol.monitor)
    (knows : Knows protocol isInside shared (.enter other next)) :
    Knows protocol isInside shared next := by
  obtain ⟨known, stable, isKnown, follows⟩ := knows
  rw [Follows, if_neg different] at follows
  exact ⟨known, stable, isKnown, follows⟩

theorem Knows.leave_of_ne {isInside : Bool} {shared : S} {other : M} {next : Code S M Unit}
    (different : other ≠ protocol.monitor)
    (knows : Knows protocol isInside shared (.leave other next)) :
    Knows protocol isInside shared next := by
  obtain ⟨known, stable, isKnown, follows⟩ := knows
  rw [Follows, if_neg different] at follows
  exact ⟨known, stable, isKnown, follows⟩

theorem Knows.enter {isInside : Bool} {shared : S} {next : Code S M Unit}
    (isFree : protocol.free shared)
    (knows : Knows protocol isInside shared (.enter protocol.monitor next)) :
    isInside = false ∧ Knows protocol true shared next := by
  obtain ⟨known, stable, isKnown, follows⟩ := knows
  rw [Follows, if_pos rfl] at follows
  obtain ⟨rfl, follows⟩ := follows
  exact ⟨rfl, _, stable.enter, ⟨isKnown, isFree⟩, follows⟩

theorem Knows.leave {isInside : Bool} {shared : S} {next : Code S M Unit}
    (isAlways : protocol.always shared)
    (knows : Knows protocol isInside shared (.leave protocol.monitor next)) :
    isInside = true ∧ protocol.free shared ∧ Knows protocol false shared next := by
  obtain ⟨known, stable, isKnown, follows⟩ := knows
  rw [Follows, if_pos rfl] at follows
  obtain ⟨rfl, isFree, known', stable', keeps, follows⟩ := follows
  exact ⟨rfl, isFree shared isAlways isKnown, known', stable', keeps shared isAlways isKnown,
    follows⟩

/-- The other threads after a step of one. -/
theorem IsOutside.others {thread other : T} {shared : S} {held : List M} {code : Code S M Unit}
    (isOutside : IsOutside protocol system other) (different : other ≠ thread)
    (changes : protocol.inside system.shared shared) :
    IsOutside protocol (system.resume thread shared held code) other := by
  have same := resume_of_ne system thread shared held code different
  obtain ⟨isFree, knows⟩ := isOutside
  refine ⟨?_, ?_⟩
  · rwa [same]
  · rw [same]
    exact knows.others changes

theorem isOutside_resume {thread : T} {shared : S} {held : List M} {code : Code S M Unit}
    (isFree : protocol.monitor ∉ held) (knows : Knows protocol false shared code) :
    IsOutside protocol (system.resume thread shared held code) thread := by
  unfold IsOutside
  rw [resume_self]
  exact ⟨isFree, knows⟩

/-- A step of a thread that stays outside, while nobody is inside. -/
theorem AllOutside.resume {thread : T} {shared : S} {held : List M} {code : Code S M Unit}
    (outside : AllOutside protocol system) (changes : protocol.outside system.shared shared)
    (isFree : protocol.monitor ∉ held) (knows : Knows protocol false shared code) :
    AllOutside protocol (system.resume thread shared held code) := by
  refine ⟨protocol.free_of_outside changes outside.1, fun other => ?_⟩
  by_cases same : other = thread
  · subst same
    exact isOutside_resume isFree knows
  · exact (outside.2 other).others same (protocol.inside_of_outside changes)

/-- A step of a thread that stays outside, while another one is inside. -/
theorem OneInside.others {thread holder : T} {shared : S} {held : List M}
    {code : Code S M Unit} (inside : OneInside protocol system holder)
    (different : thread ≠ holder) (changes : protocol.outside system.shared shared)
    (isFree : protocol.monitor ∉ held) (knows : Knows protocol false shared code) :
    OneInside protocol (system.resume thread shared held code) holder := by
  have same := resume_of_ne system thread shared held code different.symm
  obtain ⟨once, knowsInside, outside⟩ := inside
  refine ⟨?_, ?_, fun other isOther => ?_⟩
  · rwa [same]
  · rw [same]
    exact knowsInside.others changes
  · by_cases isThread : other = thread
    · subst isThread
      exact isOutside_resume isFree knows
    · exact (outside other isOther).others isThread (protocol.inside_of_outside changes)

/-- A step of the thread that is inside and stays there. -/
theorem OneInside.holder {holder : T} {shared : S} {held : List M} {code : Code S M Unit}
    (outside : ∀ other, other ≠ holder → IsOutside protocol system other)
    (changes : protocol.inside system.shared shared)
    (once : held.count protocol.monitor = 1) (knows : Knows protocol true shared code) :
    OneInside protocol (system.resume holder shared held code) holder := by
  refine ⟨?_, ?_, fun other isOther => (outside other isOther).others isOther changes⟩
  · rwa [resume_self]
  · rw [resume_self]
    exact knows

theorem AllOutside.step {final : System T S M} (isAlways : protocol.always system.shared)
    (outside : AllOutside protocol system) (step : Step system final) : Kept protocol final := by
  cases step with
  | access thread update next isNext =>
      obtain ⟨isFree, knows⟩ := outside.2 thread
      rw [isNext] at knows
      obtain ⟨changes, keeps, knows⟩ := knows.access isAlways
      exact ⟨keeps, .inl (outside.resume changes isFree knows)⟩
  | enter thread other next isNext available =>
      obtain ⟨isFree, knows⟩ := outside.2 thread
      rw [isNext] at knows
      by_cases isMonitor : other = protocol.monitor
      · subst isMonitor
        obtain ⟨-, knows⟩ := knows.enter outside.1
        refine ⟨isAlways, .inr ⟨thread, OneInside.holder (fun other _ => outside.2 other)
          (protocol.inside_of_outside (protocol.outside_refl _)) ?_ knows⟩⟩
        rw [List.count_cons_self, List.count_eq_zero.mpr isFree]
      · refine ⟨isAlways, .inl (outside.resume (protocol.outside_refl _) ?_
          (knows.enter_of_ne isMonitor))⟩
        rw [List.mem_cons, not_or]
        exact ⟨fun same => isMonitor same.symm, isFree⟩
  | leave thread other next isNext =>
      obtain ⟨isFree, knows⟩ := outside.2 thread
      rw [isNext] at knows
      by_cases isMonitor : other = protocol.monitor
      · subst isMonitor
        exact absurd (knows.leave isAlways).1 Bool.false_ne_true
      · exact ⟨isAlways, .inl (outside.resume (protocol.outside_refl _)
          (fun isHeld => isFree (List.mem_of_mem_erase isHeld)) (knows.leave_of_ne isMonitor))⟩

theorem OneInside.step {final : System T S M} {holder : T}
    (isAlways : protocol.always system.shared) (inside : OneInside protocol system holder)
    (step : Step system final) : Kept protocol final := by
  obtain ⟨once, knowsInside, outside⟩ := id inside
  have unchanged := protocol.outside_refl system.shared
  cases step with
  | access thread update next isNext =>
      by_cases isHolder : thread = holder
      · subst isHolder
        rw [isNext] at knowsInside
        obtain ⟨changes, keeps, knows⟩ := knowsInside.access isAlways
        exact ⟨keeps, .inr ⟨thread, OneInside.holder outside changes once knows⟩⟩
      · obtain ⟨isFree, knows⟩ := outside thread isHolder
        rw [isNext] at knows
        obtain ⟨changes, keeps, knows⟩ := knows.access isAlways
        exact ⟨keeps, .inr ⟨holder, inside.others isHolder changes isFree knows⟩⟩
  | enter thread other next isNext available =>
      by_cases isHolder : thread = holder
      · subst isHolder
        rw [isNext] at knowsInside
        by_cases isMonitor : other = protocol.monitor
        · -- the monitor is not entered twice
          subst isMonitor
          obtain ⟨known, stable, isKnown, follows⟩ := knowsInside
          rw [Follows, if_pos rfl] at follows
          exact absurd follows.1.symm Bool.false_ne_true
        · refine ⟨isAlways, .inr ⟨thread, OneInside.holder outside
            (protocol.inside_of_outside unchanged) ?_ (knowsInside.enter_of_ne isMonitor)⟩⟩
          rwa [List.count_cons_of_ne isMonitor]
      · obtain ⟨isFree, knows⟩ := outside thread isHolder
        rw [isNext] at knows
        have different : other ≠ protocol.monitor := by
          intro isMonitor
          apply available holder (fun same => isHolder same.symm)
          rw [isMonitor]
          exact List.count_pos_iff.mp (by omega)
        refine ⟨isAlways, .inr ⟨holder, inside.others isHolder unchanged ?_
          (knows.enter_of_ne different)⟩⟩
        rw [List.mem_cons, not_or]
        exact ⟨fun same => different same.symm, isFree⟩
  | leave thread other next isNext =>
      by_cases isHolder : thread = holder
      · subst isHolder
        rw [isNext] at knowsInside
        by_cases isMonitor : other = protocol.monitor
        · subst isMonitor
          obtain ⟨-, isFree, knows⟩ := knowsInside.leave isAlways
          refine ⟨isAlways, .inl ⟨isFree, fun more => ?_⟩⟩
          by_cases same : more = thread
          · subst same
            refine isOutside_resume ?_ knows
            rw [← List.count_eq_zero, List.count_erase_self, once]
          · exact (outside more same).others same (protocol.inside_of_outside unchanged)
        · refine ⟨isAlways, .inr ⟨thread, OneInside.holder outside
            (protocol.inside_of_outside unchanged) ?_ (knowsInside.leave_of_ne isMonitor)⟩⟩
          rwa [List.count_erase_of_ne (fun same => isMonitor same.symm)]
      · obtain ⟨isFree, knows⟩ := outside thread isHolder
        rw [isNext] at knows
        by_cases isMonitor : other = protocol.monitor
        · subst isMonitor
          exact absurd (knows.leave isAlways).1 Bool.false_ne_true
        · exact ⟨isAlways, .inr ⟨holder, inside.others isHolder unchanged
            (fun isHeld => isFree (List.mem_of_mem_erase isHeld)) (knows.leave_of_ne isMonitor)⟩⟩

/-- **Threads keep the protocol.**  What holds always, holds after any interleaving of threads
that follow it. -/
theorem always_of_follows {start final : System T S M} (isAlways : protocol.always start.shared)
    (isFree : protocol.free start.shared)
    (begins : ∀ thread, (start.threads thread).held = [] ∧
      Follows protocol (fun _ _ => True) false (fun _ => True) (start.threads thread).code)
    (reached : Reaches start final) : protocol.always final.shared := by
  have kept : Kept protocol final := by
    induction reached with
    | refl =>
        refine ⟨isAlways, .inl ⟨isFree, fun thread => ⟨?_, ?_⟩⟩⟩
        · rw [(begins thread).1]
          exact List.not_mem_nil
        · exact ⟨_, fun _ _ _ _ => trivial, trivial, (begins thread).2⟩
    | tail _ step inductionHypothesis =>
        obtain ⟨isAlways, outside | ⟨holder, inside⟩⟩ := inductionHypothesis
        · exact outside.step isAlways step
        · exact inside.step isAlways step
  exact kept.1

end System

end AndroidPatch.Library
