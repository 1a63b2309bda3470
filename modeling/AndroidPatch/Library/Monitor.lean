import Mathlib.Order.WellFounded
import Mathlib.Order.RelClasses
import Mathlib.Data.Set.Basic
import Mathlib.Logic.Relation
import Mathlib.Logic.Function.Basic

/-!
Contract: threads that share a state and enter re-entrant monitors.

Owns:
- `Code`, straight or branching code made of accesses to the shared state and of
  `synchronized` blocks, with its meaning when no other thread runs;
- interleavings of any number of threads;
- `Disciplined`: a monitor is entered only if it is held already or ranks above
  all that are held;
- disciplined threads never wait for each other in a circle, nor in any other
  set of threads.
-/

namespace AndroidPatch.Library

/-- What a thread still has to do. An access reads the shared state, goes on with
what it read, and leaves a new state behind. -/
inductive Code (S M A : Type) where
  | done (value : A)
  | access (update : S → S) (next : S → Code S M A)
  | enter (monitor : M) (next : Code S M A)
  | leave (monitor : M) (next : Code S M A)

namespace Code

variable {S M A B : Type}

def bind : Code S M A → (A → Code S M B) → Code S M B
  | done value, rest => rest value
  | access update next, rest => access update fun state => (next state).bind rest
  | enter monitor next, rest => enter monitor (next.bind rest)
  | leave monitor next, rest => leave monitor (next.bind rest)

instance : Monad (Code S M) where
  pure := done
  bind := bind

/-- One atomic access with a result. -/
def call (function : S → A × S) : Code S M A :=
  access (fun state => (function state).2) fun state => done (function state).1

/-- `synchronized (monitor) { body }`. The body ends in a value, also when it
throws, so the monitor is always left. -/
def sync (monitor : M) (body : Code S M A) : Code S M A :=
  enter monitor (body.bind fun value => leave monitor (done value))

/-! ## Running alone -/

/-- The result and the state left behind when no other thread runs. -/
def alone : Code S M A → S → A × S
  | done value, state => (value, state)
  | access update next, state => (next state).alone (update state)
  | enter _ next, state => next.alone state
  | leave _ next, state => next.alone state

theorem alone_bind (code : Code S M A) (rest : A → Code S M B) (state : S) :
    (code >>= rest).alone state = (rest (code.alone state).1).alone (code.alone state).2 := by
  show (code.bind rest).alone state = _
  induction code generalizing state with
  | done value => rfl
  | access update next inductionHypothesis => exact inductionHypothesis state (update state)
  | enter monitor next inductionHypothesis => exact inductionHypothesis state
  | leave monitor next inductionHypothesis => exact inductionHypothesis state

theorem alone_pure (value : A) (state : S) :
    (pure value : Code S M A).alone state = (value, state) :=
  rfl

theorem alone_map (function : A → B) (code : Code S M A) (state : S) :
    (function <$> code).alone state =
      (function (code.alone state).1, (code.alone state).2) :=
  alone_bind code (fun value => done (function value)) state

theorem alone_call (function : S → A × S) (state : S) :
    (call function : Code S M A).alone state = function state :=
  rfl

theorem alone_sync (monitor : M) (body : Code S M A) (state : S) :
    (sync monitor body).alone state = body.alone state := by
  show (body >>= fun value => leave monitor (done value)).alone state = _
  rw [alone_bind]
  rfl

/-! ## The discipline -/

variable {R : Type} [Preorder R] (rank : M → R)

/-- A monitor may be entered if it is held already or ranks above all that are
held. -/
def MayEnter (held : List M) (monitor : M) : Prop :=
  monitor ∈ held ∨ ∀ other ∈ held, rank other < rank monitor

/-- The code enters monitors in the order of their ranks, leaves them in the
opposite order, and ends with those in `final` held. -/
def Disciplined (final : List M) : List M → Code S M A → Prop
  | held, done _ => held = final
  | held, access _ next => ∀ state, Disciplined final held (next state)
  | held, enter monitor next =>
      MayEnter rank held monitor ∧ Disciplined final (monitor :: held) next
  | held, leave monitor next =>
      ∃ rest, held = monitor :: rest ∧ Disciplined final rest next

variable {rank}

theorem Disciplined.bind {middle final : List M} {rest : A → Code S M B}
    {code : Code S M A} {held : List M} (first : Disciplined rank middle held code)
    (later : ∀ value, Disciplined rank final middle (rest value)) :
    Disciplined rank final held (code >>= rest) := by
  show Disciplined rank final held (code.bind rest)
  induction code generalizing held with
  | done value =>
      obtain rfl : held = middle := first
      exact later value
  | access update next inductionHypothesis =>
      intro state
      exact inductionHypothesis state (first state)
  | enter monitor next inductionHypothesis =>
      exact ⟨first.1, inductionHypothesis first.2⟩
  | leave monitor next inductionHypothesis =>
      obtain ⟨others, isHeld, disciplined⟩ := first
      exact ⟨others, isHeld, inductionHypothesis disciplined⟩

theorem disciplined_pure (held : List M) (value : A) :
    Disciplined rank held held (pure value : Code S M A) :=
  rfl

theorem Disciplined.map {final held : List M} {code : Code S M A} (function : A → B)
    (disciplined : Disciplined rank final held code) :
    Disciplined rank final held (function <$> code) :=
  disciplined.bind fun value => disciplined_pure final (function value)

theorem disciplined_call (held : List M) (function : S → A × S) :
    Disciplined rank held held (call function) :=
  fun _ => rfl

theorem Disciplined.sync {held : List M} {monitor : M} {body : Code S M A}
    (mayEnter : MayEnter rank held monitor)
    (disciplined : Disciplined rank (monitor :: held) (monitor :: held) body) :
    Disciplined rank held held (sync monitor body) := by
  have release : ∀ value : A, Disciplined rank held (monitor :: held)
      (leave monitor (done value) : Code S M A) :=
    fun _ => ⟨held, rfl, rfl⟩
  exact ⟨mayEnter, disciplined.bind release⟩

end Code

/-! ## Threads -/

/-- A thread with the monitors it holds, the last one it entered first. A monitor
that was entered twice occurs twice. -/
structure Thread (S M : Type) where
  held : List M
  code : Code S M Unit

structure System (T S M : Type) where
  shared : S
  threads : T → Thread S M

namespace System

open Code

variable {T S M : Type}

section Steps

variable [DecidableEq T] [DecidableEq M]

def resume (system : System T S M) (thread : T) (shared : S) (held : List M)
    (code : Code S M Unit) : System T S M :=
  ⟨shared, Function.update system.threads thread ⟨held, code⟩⟩

/-- One step of one thread. A monitor can be entered while no other thread holds
it. -/
inductive Step (system : System T S M) : System T S M → Prop where
  | access (thread : T) (update : S → S) (next : S → Code S M Unit)
      (isNext : (system.threads thread).code = .access update next) :
      Step system (system.resume thread (update system.shared)
        (system.threads thread).held (next system.shared))
  | enter (thread : T) (monitor : M) (next : Code S M Unit)
      (isNext : (system.threads thread).code = .enter monitor next)
      (free : ∀ other, other ≠ thread → monitor ∉ (system.threads other).held) :
      Step system (system.resume thread system.shared
        (monitor :: (system.threads thread).held) next)
  | leave (thread : T) (monitor : M) (next : Code S M Unit)
      (isNext : (system.threads thread).code = .leave monitor next) :
      Step system (system.resume thread system.shared
        ((system.threads thread).held.erase monitor) next)

/-- Any interleaving of steps. -/
def Reaches (start system : System T S M) : Prop :=
  Relation.ReflTransGen Step start system

end Steps

/-- The next thing the thread does is to enter the monitor. -/
def Wants (system : System T S M) (thread : T) (monitor : M) : Prop :=
  ∃ next, (system.threads thread).code = .enter monitor next

def Holds (system : System T S M) (thread : T) (monitor : M) : Prop :=
  monitor ∈ (system.threads thread).held

/-- Some threads all wait for monitors that others of them hold. -/
def Deadlocked (system : System T S M) : Prop :=
  ∃ waiting : Set T, waiting.Nonempty ∧ ∀ thread ∈ waiting,
    ∃ monitor, system.Wants thread monitor ∧
      ∃ other ∈ waiting, other ≠ thread ∧ system.Holds other monitor

/-! ## Disciplined systems -/

variable {R : Type} [Preorder R]

/-- **The invariant.**  What every thread has left is disciplined and releases
what it holds, and no monitor is held by two threads. -/
structure Orderly (rank : M → R) (system : System T S M) : Prop where
  disciplined : ∀ thread, Disciplined rank [] (system.threads thread).held
    (system.threads thread).code
  exclusive : ∀ first second monitor, system.Holds first monitor →
    system.Holds second monitor → first = second

variable {rank : M → R} {system : System T S M}

/-- One thread goes on, and holds nothing new that another one holds. -/
theorem Orderly.resume [DecidableEq T] (orderly : Orderly rank system) {thread : T} {shared : S}
    {held : List M} {code : Code S M Unit} (disciplined : Disciplined rank [] held code)
    (free : ∀ monitor ∈ held, ∀ other, other ≠ thread → ¬ system.Holds other monitor) :
    Orderly rank (system.resume thread shared held code) := by
  have own : (system.resume thread shared held code).threads thread = ⟨held, code⟩ :=
    Function.update_self _ _ _
  have others : ∀ other, other ≠ thread →
      (system.resume thread shared held code).threads other = system.threads other :=
    fun other different => Function.update_of_ne different _ _
  refine ⟨fun other => ?_, fun first second monitor isFirst isSecond => ?_⟩
  · by_cases same : other = thread
    · rw [same, own]
      exact disciplined
    · rw [others other same]
      exact orderly.disciplined other
  · unfold Holds at isFirst isSecond
    by_cases sameFirst : first = thread
    · by_cases sameSecond : second = thread
      · rw [sameFirst, sameSecond]
      · rw [sameFirst, own] at isFirst
        rw [others second sameSecond] at isSecond
        exact absurd isSecond (free monitor isFirst second sameSecond)
    · rw [others first sameFirst] at isFirst
      by_cases sameSecond : second = thread
      · rw [sameSecond, own] at isSecond
        exact absurd isFirst (free monitor isSecond first sameFirst)
      · rw [others second sameSecond] at isSecond
        exact orderly.exclusive first second monitor isFirst isSecond

theorem Orderly.step [DecidableEq T] [DecidableEq M] (orderly : Orderly rank system)
    {final : System T S M} (step : Step system final) : Orderly rank final := by
  have apart : ∀ thread, ∀ monitor ∈ (system.threads thread).held, ∀ other,
      other ≠ thread → ¬ system.Holds other monitor := by
    intro thread monitor isHeld other different holds
    exact different (orderly.exclusive other thread monitor holds isHeld)
  cases step with
  | access thread update next isNext =>
      have disciplined := orderly.disciplined thread
      rw [isNext] at disciplined
      exact orderly.resume (disciplined system.shared) (apart thread)
  | enter thread monitor next isNext free =>
      have disciplined := orderly.disciplined thread
      rw [isNext] at disciplined
      apply orderly.resume disciplined.2
      intro other isHeld
      rcases List.mem_cons.mp isHeld with same | earlier
      · rw [same]
        exact free
      · exact apart thread other earlier
  | leave thread monitor next isNext =>
      have disciplined := orderly.disciplined thread
      rw [isNext] at disciplined
      obtain ⟨rest, isHeld, later⟩ := disciplined
      have released : (system.threads thread).held.erase monitor = rest := by
        rw [isHeld, List.erase_cons_head]
      rw [released]
      apply orderly.resume later
      intro other isRest
      apply apart thread other
      rw [isHeld]
      exact List.mem_cons_of_mem _ isRest

theorem Orderly.reaches [DecidableEq T] [DecidableEq M] (orderly : Orderly rank system)
    {final : System T S M} (reaches : Reaches system final) : Orderly rank final := by
  induction reaches with
  | refl => exact orderly
  | tail _ step inductionHypothesis => exact inductionHypothesis.step step

/-- A thread that cannot enter a monitor holds lower ones only. -/
theorem Orderly.rank_lt (orderly : Orderly rank system) {thread other : T} {monitor : M}
    (wants : system.Wants thread monitor) (different : other ≠ thread)
    (holds : system.Holds other monitor) {lower : M} (holdsLower : system.Holds thread lower) :
    rank lower < rank monitor := by
  obtain ⟨next, isNext⟩ := wants
  have disciplined := orderly.disciplined thread
  rw [isNext] at disciplined
  rcases disciplined.1 with isHeld | above
  · exact absurd (orderly.exclusive other thread monitor holds isHeld) different
  · exact above lower holdsLower

/-- **Ranked monitors do not deadlock.**  Among the monitors that the waiting
threads hold there is one of highest rank; the thread that holds it waits for a
higher one, which another of them holds. -/
theorem Orderly.not_deadlocked [WellFoundedGT R] (orderly : Orderly rank system) :
    ¬ system.Deadlocked := by
  rintro ⟨waiting, ⟨first, isFirst⟩, stuck⟩
  let levels : Set R := { level | ∃ thread ∈ waiting, ∃ monitor,
    system.Holds thread monitor ∧ rank monitor = level }
  have nonempty : levels.Nonempty := by
    obtain ⟨monitor, -, holder, isHolder, -, holds⟩ := stuck first isFirst
    exact ⟨rank monitor, holder, isHolder, monitor, holds, rfl⟩
  obtain ⟨highest, isLevel, isMax⟩ := wellFounded_gt.has_min levels nonempty
  obtain ⟨thread, isWaiting, monitor, holds, isHighest⟩ := isLevel
  obtain ⟨higher, wants, holder, isHolder, different, holderHolds⟩ := stuck thread isWaiting
  have above : rank monitor < rank higher :=
    orderly.rank_lt wants different holderHolds holds
  rw [isHighest] at above
  exact isMax (rank higher) ⟨holder, isHolder, higher, holderHolds, rfl⟩ above

end System

end AndroidPatch.Library
