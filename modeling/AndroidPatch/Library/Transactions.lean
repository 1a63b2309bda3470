import AndroidPatch.Library.Monitor

/-!
Contract: threads that change a part of the shared state under one monitor only.

Owns:
- `Section`, what code inside the monitor makes of that part, whatever other threads make
  of the rest of the state;
- `Transacts`: all changes of the part are made by transactions, each inside the monitor
  and each with a known effect;
- the threads leave the part as their transactions would one after the other, in an order
  that keeps the order of every thread.
-/

namespace AndroidPatch.Library

namespace Code

variable {S M A B V L : Type} (view : S → V) (monitor : M)

/-! ## Inside the monitor -/

/-- The part of the state is safe all along, and in the end it and the result are as
asked for. The monitor is not entered again. -/
def Section (safe : V → Prop) (post : A → V → Prop) : V → Code S M A → Prop
  | now, done result => safe now ∧ post result now
  | now, access update next => safe now ∧
      ∀ state, view state = now → Section safe post (view (update state)) (next state)
  | now, enter other next => other ≠ monitor ∧ Section safe post now next
  | now, leave other next => other ≠ monitor ∧ Section safe post now next

variable {view monitor} {safe : V → Prop} {post : A → V → Prop}

theorem Section.bind {post' : B → V → Prop} {rest : A → Code S M B} {code : Code S M A} {now : V}
    (first : Section view monitor safe post now code)
    (later : ∀ result now, post result now → Section view monitor safe post' now (rest result)) :
    Section view monitor safe post' now (code >>= rest) := by
  show Section view monitor safe post' now (code.bind rest)
  induction code generalizing now with
  | done result => exact later result now first.2
  | access update next inductionHypothesis =>
      refine ⟨first.1, fun state isNow => ?_⟩
      exact inductionHypothesis state (first.2 state isNow)
  | enter other next inductionHypothesis => exact ⟨first.1, inductionHypothesis first.2⟩
  | leave other next inductionHypothesis => exact ⟨first.1, inductionHypothesis first.2⟩

theorem Section.isSafe {code : Code S M A} {now : V}
    (inside : Section view monitor safe post now code) : safe now := by
  induction code generalizing now with
  | done result => exact inside.1
  | access update next => exact inside.1
  | enter other next inductionHypothesis => exact inductionHypothesis inside.2
  | leave other next inductionHypothesis => exact inductionHypothesis inside.2

theorem Section.map {post' : B → V → Prop} {code : Code S M A} {now : V} (function : A → B)
    (inside : Section view monitor safe (fun result now => safe now ∧ post' (function result) now)
      now code) :
    Section view monitor safe post' now (function <$> code) :=
  inside.bind fun _ _ isPost => isPost

theorem section_pure {now : V} {result : A} (isSafe : safe now) (isPost : post result now) :
    Section view monitor safe post now (pure result : Code S M A) :=
  ⟨isSafe, isPost⟩

theorem section_call {now : V} {function : S → A × S} (isSafe : safe now)
    (called : ∀ state, view state = now →
      safe (view (function state).2) ∧ post (function state).1 (view (function state).2)) :
    Section view monitor safe post now (call function : Code S M A) :=
  ⟨isSafe, called⟩

theorem Section.sync {now : V} {other : M} {body : Code S M A} (different : other ≠ monitor)
    (inside : Section view monitor safe post now body)
    (keepsSafe : ∀ result now, post result now → safe now) :
    Section view monitor safe post now (sync other body) := by
  refine ⟨different, Section.bind inside fun result now isPost => ?_⟩
  exact ⟨different, keepsSafe result now isPost, isPost⟩

/-! ## Transactions -/

variable [DecidableEq M] (view monitor) (effect : L → V → V) (between : L → V → V → Prop)

/-- The code goes through transactions whose labels are as planned. Inside of one, the part
of the state is `between` what it was at the start of it and its effect. -/
def Transacts : (List L → Prop) → Option (L × V × V) → Code S M A → Prop
  | plan, none, done _ => plan []
  | _, some _, done _ => False
  | plan, none, access update next =>
      ∀ state, view (update state) = view state ∧ Transacts plan none (next state)
  | plan, some (label, start, now), access update next =>
      ∀ state, view state = now → between label start (view (update state)) ∧
        Transacts plan (some (label, start, view (update state))) (next state)
  | plan, none, enter other next =>
      if other = monitor then
        ∃ label, ∀ start, between label start start ∧
          Transacts (fun labels => plan (label :: labels)) (some (label, start, start)) next
      else Transacts plan none next
  | plan, some inside, enter other next => other ≠ monitor ∧ Transacts plan (some inside) next
  | plan, none, leave other next => other ≠ monitor ∧ Transacts plan none next
  | plan, some (label, start, now), leave other next =>
      if other = monitor then now = effect label start ∧ Transacts plan none next
      else Transacts plan (some (label, start, now)) next

variable {view monitor effect between} {plan : List L → Prop}

section Blocks

variable {label : L} {start now : V} {other : M} {next : Code S M A}

theorem transacts_enter_self :
    Transacts view monitor effect between plan none (enter monitor next) ↔
      ∃ label, ∀ start, between label start start ∧
        Transacts view monitor effect between (fun labels => plan (label :: labels))
          (some (label, start, start)) next := by
  rw [Transacts, if_pos rfl]

theorem transacts_enter_of_ne (different : other ≠ monitor) :
    Transacts view monitor effect between plan none (enter other next) ↔
      Transacts view monitor effect between plan none next := by
  rw [Transacts, if_neg different]

theorem transacts_leave_self :
    Transacts view monitor effect between plan (some (label, start, now)) (leave monitor next) ↔
      now = effect label start ∧ Transacts view monitor effect between plan none next := by
  rw [Transacts, if_pos rfl]

theorem transacts_leave_of_ne (different : other ≠ monitor) :
    Transacts view monitor effect between plan (some (label, start, now)) (leave other next) ↔
      Transacts view monitor effect between plan (some (label, start, now)) next := by
  rw [Transacts, if_neg different]

end Blocks

theorem Transacts.bind {plan' : List L → Prop} {rest : A → Code S M B} {code : Code S M A}
    {inside : Option (L × V × V)}
    (first : Transacts view monitor effect between plan inside code)
    (later : ∀ labels, plan labels → ∀ result,
      Transacts view monitor effect between (fun more => plan' (labels ++ more)) none
        (rest result)) :
    Transacts view monitor effect between plan' inside (code >>= rest) := by
  show Transacts view monitor effect between plan' inside (code.bind rest)
  induction code generalizing plan plan' inside with
  | done result =>
      cases inside with
      | none => exact later [] first result
      | some inside => exact first.elim
  | access update next inductionHypothesis =>
      rcases inside with _ | ⟨label, start, now⟩
      · intro state
        exact ⟨(first state).1, inductionHypothesis state (first state).2 later⟩
      · intro state isNow
        exact ⟨(first state isNow).1, inductionHypothesis state (first state isNow).2 later⟩
  | enter other next inductionHypothesis =>
      rcases inside with _ | inside
      · rw [Code.bind]
        by_cases isMonitor : other = monitor
        · subst isMonitor
          rw [transacts_enter_self] at first ⊢
          obtain ⟨label, started⟩ := first
          refine ⟨label, fun start => ⟨(started start).1, ?_⟩⟩
          exact inductionHypothesis (started start).2 fun labels isPlan => later _ isPlan
        · rw [transacts_enter_of_ne isMonitor] at first ⊢
          exact inductionHypothesis first later
      · exact ⟨first.1, inductionHypothesis first.2 later⟩
  | leave other next inductionHypothesis =>
      rcases inside with _ | ⟨label, start, now⟩
      · exact ⟨first.1, inductionHypothesis first.2 later⟩
      · rw [Code.bind]
        by_cases isMonitor : other = monitor
        · subst isMonitor
          rw [transacts_leave_self] at first ⊢
          exact ⟨first.1, inductionHypothesis first.2 later⟩
        · rw [transacts_leave_of_ne isMonitor] at first ⊢
          exact inductionHypothesis first later

theorem Transacts.mono {plan' : List L → Prop} {code : Code S M A} {inside : Option (L × V × V)}
    (transacts : Transacts view monitor effect between plan inside code)
    (weaker : ∀ labels, plan labels → plan' labels) :
    Transacts view monitor effect between plan' inside code := by
  induction code generalizing plan plan' inside with
  | done result =>
      cases inside with
      | none => exact weaker [] transacts
      | some inside => exact transacts
  | access update next inductionHypothesis =>
      rcases inside with _ | ⟨label, start, now⟩
      · exact fun state => ⟨(transacts state).1, inductionHypothesis state (transacts state).2 weaker⟩
      · intro state isNow
        exact ⟨(transacts state isNow).1,
          inductionHypothesis state (transacts state isNow).2 weaker⟩
  | enter other next inductionHypothesis =>
      rcases inside with _ | inside
      · by_cases isMonitor : other = monitor
        · subst isMonitor
          rw [transacts_enter_self] at transacts ⊢
          obtain ⟨label, started⟩ := transacts
          refine ⟨label, fun start => ⟨(started start).1, ?_⟩⟩
          exact inductionHypothesis (started start).2 fun labels isPlan => weaker _ isPlan
        · rw [transacts_enter_of_ne isMonitor] at transacts ⊢
          exact inductionHypothesis transacts weaker
      · exact ⟨transacts.1, inductionHypothesis transacts.2 weaker⟩
  | leave other next inductionHypothesis =>
      rcases inside with _ | ⟨label, start, now⟩
      · exact ⟨transacts.1, inductionHypothesis transacts.2 weaker⟩
      · by_cases isMonitor : other = monitor
        · subst isMonitor
          rw [transacts_leave_self] at transacts ⊢
          exact ⟨transacts.1, inductionHypothesis transacts.2 weaker⟩
        · rw [transacts_leave_of_ne isMonitor] at transacts ⊢
          exact inductionHypothesis transacts weaker

theorem transacts_pure {result : A} (isPlan : plan []) :
    Transacts view monitor effect between plan none (pure result : Code S M A) :=
  isPlan

theorem Transacts.map {code : Code S M A} (function : A → B)
    (transacts : Transacts view monitor effect between plan none code) :
    Transacts view monitor effect between plan none (function <$> code) := by
  apply transacts.bind
  intro labels isPlan result
  apply transacts_pure
  rwa [List.append_nil]

/-- An access to the rest of the state. -/
theorem transacts_call {function : S → A × S} (isPlan : plan [])
    (keeps : ∀ state, view (function state).2 = view state) :
    Transacts view monitor effect between plan none (call function : Code S M A) :=
  fun state => ⟨keeps state, isPlan⟩

theorem transacts_call_bind {function : S → A × S} {rest : A → Code S M B}
    (keeps : ∀ state, view (function state).2 = view state)
    (later : ∀ result, Transacts view monitor effect between plan none (rest result)) :
    Transacts view monitor effect between plan none (call function >>= rest) :=
  fun state => ⟨keeps state, later (function state).1⟩

theorem Transacts.sync {other : M} {body : Code S M A} (different : other ≠ monitor)
    (transacts : Transacts view monitor effect between plan none body) :
    Transacts view monitor effect between plan none (sync other body) := by
  apply (transacts_enter_of_ne different).mpr
  apply Transacts.bind transacts
  intro labels isPlan result
  refine ⟨different, ?_⟩
  show plan (labels ++ [])
  rwa [List.append_nil]

theorem Section.then {label : L} {start now : V} {code : Code S M A} {rest : A → Code S M B}
    (inside : Section view monitor (between label start) post now code)
    (later : ∀ result now, post result now →
      Transacts view monitor effect between plan (some (label, start, now)) (rest result)) :
    Transacts view monitor effect between plan (some (label, start, now)) (code.bind rest) := by
  induction code generalizing now with
  | done result => exact later result now inside.2
  | access update next inductionHypothesis =>
      intro state isNow
      have next := inside.2 state isNow
      exact ⟨next.isSafe, inductionHypothesis state next⟩
  | enter other next inductionHypothesis => exact ⟨inside.1, inductionHypothesis inside.2⟩
  | leave other next inductionHypothesis =>
      rw [Code.bind, transacts_leave_of_ne inside.1]
      exact inductionHypothesis inside.2

/-- A block of the monitor is one transaction. -/
theorem transacts_sync_self {label : L} {body : Code S M A} (isPlan : plan [label])
    (inside : ∀ start, Section view monitor (between label start)
      (fun _ now => now = effect label start) start body) :
    Transacts view monitor effect between plan none (Code.sync monitor body) := by
  apply transacts_enter_self.mpr
  refine ⟨label, fun start => ⟨(inside start).isSafe, (inside start).then ?_⟩⟩
  intro result now isEffect
  exact transacts_leave_self.mpr ⟨isEffect, isPlan⟩

end Code

/-! ## Threads -/

namespace System

open Code

variable {T S M V L : Type}

section Replay

variable (effect : L → V → V)

/-- The transactions of a trace, one after the other. -/
def replay (trace : List (T × L)) (value : V) : V :=
  trace.foldl (fun value step => effect step.2 value) value

theorem replay_append (trace : List (T × L)) (thread : T) (label : L) (value : V) :
    replay effect (trace ++ [(thread, label)]) value =
      effect label (replay effect trace value) := by
  simp [replay]

variable [DecidableEq T]

/-- The transactions of one thread. -/
def own (thread : T) (trace : List (T × L)) : List L :=
  (trace.filter (·.1 = thread)).map Prod.snd

theorem own_append_self (thread : T) (trace : List (T × L)) (label : L) :
    own thread (trace ++ [(thread, label)]) = own thread trace ++ [label] := by
  simp [own]

theorem own_append_of_ne {thread other : T} (different : other ≠ thread) (trace : List (T × L))
    (label : L) : own thread (trace ++ [(other, label)]) = own thread trace := by
  simp [own, different]

end Replay

section Threads

variable [DecidableEq T] (system : System T S M) (thread : T) (shared : S) (held : List M)
  (code : Code S M Unit)

theorem resume_self : (system.resume thread shared held code).threads thread = ⟨held, code⟩ :=
  Function.update_self _ _ _

theorem resume_of_ne {other : T} (different : other ≠ thread) :
    (system.resume thread shared held code).threads other = system.threads other :=
  Function.update_of_ne different _ _

end Threads

variable [DecidableEq T] [DecidableEq M] (view : S → V) (monitor : M) (effect : L → V → V)
  (between : L → V → V → Prop) (plan : T → List L → Prop)

/-- The thread is outside the monitor, after the transactions of the trace. -/
def Outside (trace : List (T × L)) (system : System T S M) (thread : T) : Prop :=
  monitor ∉ (system.threads thread).held ∧
    Transacts view monitor effect between (fun labels => plan thread (own thread trace ++ labels))
      none (system.threads thread).code

/-- No thread is inside the monitor. -/
def Idle (value : V) (trace : List (T × L)) (system : System T S M) : Prop :=
  view system.shared = replay effect trace value ∧
    ∀ thread, Outside view monitor effect between plan trace system thread

/-- One thread is inside the monitor, in the middle of a transaction. -/
def Busy (value : V) (trace : List (T × L)) (holder : T) (label : L) (system : System T S M) :
    Prop :=
  between label (replay effect trace value) (view system.shared) ∧
    (system.threads holder).held.count monitor = 1 ∧
    Transacts view monitor effect between
      (fun labels => plan holder (own holder trace ++ label :: labels))
      (some (label, replay effect trace value, view system.shared)) (system.threads holder).code ∧
    ∀ other, other ≠ holder → Outside view monitor effect between plan trace system other

variable {view monitor effect between plan} {value : V} {trace : List (T × L)}
  {system : System T S M}

/-! ## Steps -/

theorem Outside.congr {other : T} {final : System T S M} {trace' : List (T × L)}
    (outside : Outside view monitor effect between plan trace system other)
    (sameThread : final.threads other = system.threads other)
    (sameOwn : own other trace' = own other trace) :
    Outside view monitor effect between plan trace' final other := by
  unfold Outside
  rw [sameThread, sameOwn]
  exact outside

/-- The thread goes on outside the monitor. -/
theorem Outside.resume {thread : T} {shared : S} {held : List M} {code : Code S M Unit}
    (outside : ∀ other, other ≠ thread → Outside view monitor effect between plan trace system other)
    (free : monitor ∉ held)
    (transacts : Transacts view monitor effect between
      (fun labels => plan thread (own thread trace ++ labels)) none code) (other : T) :
    Outside view monitor effect between plan trace (system.resume thread shared held code) other := by
  by_cases same : other = thread
  · subst same
    unfold Outside
    rw [resume_self]
    exact ⟨free, transacts⟩
  · exact (outside other same).congr (resume_of_ne _ _ _ _ _ same) rfl

/-- A thread outside the monitor makes a step and stays outside, or it enters. -/
theorem Outside.step {thread : T}
    (outside : Outside view monitor effect between plan trace system thread) :
    (∀ update next, (system.threads thread).code = .access update next →
      view (update system.shared) = view system.shared ∧
        Transacts view monitor effect between (fun labels => plan thread (own thread trace ++ labels))
          none (next system.shared)) ∧
    (∀ other next, (system.threads thread).code = .enter other next → other ≠ monitor →
      monitor ∉ other :: (system.threads thread).held ∧
        Transacts view monitor effect between (fun labels => plan thread (own thread trace ++ labels))
          none next) ∧
    (∀ other next, (system.threads thread).code = .leave other next →
      monitor ∉ (system.threads thread).held.erase other ∧
        Transacts view monitor effect between (fun labels => plan thread (own thread trace ++ labels))
          none next) := by
  obtain ⟨free, transacts⟩ := outside
  refine ⟨fun update next isNext => ?_, fun other next isNext different => ?_,
    fun other next isNext => ?_⟩
  · rw [isNext] at transacts
    exact transacts system.shared
  · rw [isNext, transacts_enter_of_ne different] at transacts
    refine ⟨?_, transacts⟩
    rw [List.mem_cons, not_or]
    exact ⟨fun same => different same.symm, free⟩
  · rw [isNext] at transacts
    exact ⟨fun isHeld => free (List.mem_of_mem_erase isHeld), transacts.2⟩

/-- Nobody is inside, and one thread makes a step. -/
theorem Idle.step {final : System T S M}
    (idle : Idle view monitor effect between plan value trace system)
    (step : Step system final) :
    Idle view monitor effect between plan value trace final ∨
      ∃ holder label, Busy view monitor effect between plan value trace holder label final := by
  obtain ⟨isValue, outside⟩ := idle
  cases step with
  | access thread update next isNext =>
      obtain ⟨keeps, transacts⟩ := (outside thread).step.1 update next isNext
      exact .inl ⟨keeps.trans isValue,
        Outside.resume (fun other _ => outside other) (outside thread).1 transacts⟩
  | enter thread other next isNext isFree =>
      by_cases isMonitor : other = monitor
      · subst isMonitor
        obtain ⟨free, transacts⟩ := outside thread
        rw [isNext] at transacts
        obtain ⟨label, started⟩ := transacts_enter_self.mp transacts
        refine .inr ⟨thread, label, ?_, ?_, ?_, ?_⟩
        · rw [← isValue]
          exact (started _).1
        · rw [resume_self, List.count_cons_self, List.count_eq_zero.mpr free]
        · rw [resume_self, ← isValue]
          exact (started _).2
        · exact fun other different => (outside other).congr (resume_of_ne _ _ _ _ _ different) rfl
      · obtain ⟨free, transacts⟩ := (outside thread).step.2.1 other next isNext isMonitor
        exact .inl ⟨isValue, Outside.resume (fun other _ => outside other) free transacts⟩
  | leave thread other next isNext =>
      obtain ⟨free, transacts⟩ := (outside thread).step.2.2 other next isNext
      exact .inl ⟨isValue, Outside.resume (fun other _ => outside other) free transacts⟩

/-- While one thread is inside, another one makes a step. -/
theorem Busy.others {holder thread : T} {label : L} {shared : S} {held : List M}
    {code : Code S M Unit}
    (busy : Busy view monitor effect between plan value trace holder label system)
    (different : thread ≠ holder) (keeps : view shared = view system.shared)
    (free : monitor ∉ held)
    (transacts : Transacts view monitor effect between
      (fun labels => plan thread (own thread trace ++ labels)) none code) :
    Busy view monitor effect between plan value trace holder label
      (system.resume thread shared held code) := by
  obtain ⟨isBetween, once, inside, outside⟩ := busy
  have same := resume_of_ne system thread shared held code different.symm
  refine ⟨?_, ?_, ?_, fun other isOther => ?_⟩
  · show between _ _ (view shared)
    rwa [keeps]
  · rwa [same]
  · show Transacts _ _ _ _ _ (some (_, _, view shared)) _
    rwa [same, keeps]
  · by_cases isThread : other = thread
    · subst isThread
      unfold Outside
      rw [resume_self]
      exact ⟨free, transacts⟩
    · exact (outside other isOther).congr (resume_of_ne _ _ _ _ _ isThread) rfl

/-- The thread inside goes on inside. -/
theorem Busy.holder {holder : T} {label : L} {shared : S} {held : List M} {code : Code S M Unit}
    (busy : Busy view monitor effect between plan value trace holder label system)
    (isBetween : between label (replay effect trace value) (view shared))
    (once : held.count monitor = 1)
    (inside : Transacts view monitor effect between
      (fun labels => plan holder (own holder trace ++ label :: labels))
      (some (label, replay effect trace value, view shared)) code) :
    Busy view monitor effect between plan value trace holder label
      (system.resume holder shared held code) := by
  refine ⟨isBetween, ?_, ?_, fun other isOther => ?_⟩
  · rwa [resume_self]
  · rwa [resume_self]
  · exact (busy.2.2.2 other isOther).congr (resume_of_ne _ _ _ _ _ isOther) rfl

/-- One thread is inside, and it or another one makes a step. -/
theorem Busy.step {final : System T S M} {holder : T} {label : L}
    (busy : Busy view monitor effect between plan value trace holder label system)
    (step : Step system final) :
    Busy view monitor effect between plan value trace holder label final ∨
      Idle view monitor effect between plan value (trace ++ [(holder, label)]) final := by
  obtain ⟨isBetween, once, inside, outside⟩ := id busy
  cases step with
  | access thread update next isNext =>
      by_cases isHolder : thread = holder
      · subst isHolder
        rw [isNext] at inside
        obtain ⟨isBetween, inside⟩ := inside system.shared rfl
        exact .inl (busy.holder isBetween once inside)
      · obtain ⟨keeps, transacts⟩ := (outside thread isHolder).step.1 update next isNext
        exact .inl (busy.others isHolder keeps (outside thread isHolder).1 transacts)
  | enter thread other next isNext isFree =>
      by_cases isHolder : thread = holder
      · subst isHolder
        rw [isNext] at inside
        refine .inl (busy.holder isBetween ?_ inside.2)
        rwa [List.count_cons_of_ne inside.1]
      · have different : other ≠ monitor := by
          intro isMonitor
          apply isFree holder (fun same => isHolder same.symm)
          rw [isMonitor]
          exact List.count_pos_iff.mp (by omega)
        obtain ⟨free, transacts⟩ := (outside thread isHolder).step.2.1 other next isNext different
        exact .inl (busy.others isHolder rfl free transacts)
  | leave thread other next isNext =>
      by_cases isHolder : thread = holder
      · subst isHolder
        rw [isNext] at inside
        by_cases isMonitor : other = monitor
        · subst isMonitor
          obtain ⟨isEffect, transacts⟩ := transacts_leave_self.mp inside
          refine .inr ⟨?_, fun more => ?_⟩
          · rw [replay_append]
            exact isEffect
          · by_cases same : more = thread
            · subst same
              unfold Outside
              rw [resume_self, own_append_self]
              refine ⟨?_, by simpa using transacts⟩
              rw [← List.count_eq_zero, List.count_erase_self, once]
            · exact (outside more same).congr (resume_of_ne _ _ _ _ _ same)
                (own_append_of_ne (fun isSame => same isSame.symm) _ _)
        · rw [transacts_leave_of_ne isMonitor] at inside
          refine .inl (busy.holder isBetween ?_ inside)
          rwa [List.count_erase_of_ne (fun same => isMonitor same.symm)]
      · obtain ⟨free, transacts⟩ := (outside thread isHolder).step.2.2 other next isNext
        exact .inl (busy.others isHolder rfl free transacts)

/-- **Transactions are serial.**  However the threads are interleaved, the part of the state
is what the transactions make of it one after the other, or one thread is in the middle of
the next one. -/
theorem serial {start final : System T S M}
    (begins : ∀ thread, (start.threads thread).held = [] ∧
      Transacts view monitor effect between (plan thread) none (start.threads thread).code)
    (reached : Reaches start final) :
    ∃ trace, Idle view monitor effect between plan (view start.shared) trace final ∨
      ∃ holder label,
        Busy view monitor effect between plan (view start.shared) trace holder label final := by
  induction reached with
  | refl =>
      refine ⟨[], .inl ⟨rfl, fun thread => ⟨?_, ?_⟩⟩⟩
      · rw [(begins thread).1]
        exact List.not_mem_nil
      · exact (begins thread).2
  | tail _ step inductionHypothesis =>
      obtain ⟨trace, idle | ⟨holder, label, busy⟩⟩ := inductionHypothesis
      · exact ⟨trace, idle.step step⟩
      · rcases busy.step step with busy | idle
        · exact ⟨trace, .inr ⟨holder, label, busy⟩⟩
        · exact ⟨_, .inl idle⟩

/-- A thread that is through made the transactions that were planned. -/
theorem Outside.through {thread : T}
    (outside : Outside view monitor effect between plan trace system thread)
    (through : (system.threads thread).code = .done ()) : plan thread (own thread trace) := by
  obtain ⟨-, transacts⟩ := outside
  rw [through] at transacts
  have planned : plan thread (own thread trace ++ []) := transacts
  rwa [List.append_nil] at planned

/-- What can be seen of `serial` without looking at the code that is left. -/
theorem serial_trace {start final : System T S M}
    (begins : ∀ thread, (start.threads thread).held = [] ∧
      Transacts view monitor effect between (plan thread) none (start.threads thread).code)
    (reached : Reaches start final) :
    ∃ trace : List (T × L),
      (view final.shared = replay effect trace (view start.shared) ∨
        ∃ label, between label (replay effect trace (view start.shared)) (view final.shared)) ∧
      ((∀ thread, ¬ final.Holds thread monitor) →
        view final.shared = replay effect trace (view start.shared)) ∧
      ∀ thread, (final.threads thread).code = .done () → plan thread (own thread trace) := by
  obtain ⟨trace, ⟨isReplay, outside⟩ | ⟨holder, label, isBetween, once, inside, outside⟩⟩ :=
    serial begins reached
  · exact ⟨trace, .inl isReplay, fun _ => isReplay, fun thread => (outside thread).through⟩
  · refine ⟨trace, .inr ⟨label, isBetween⟩, fun free => ?_, fun thread through => ?_⟩
    · exact absurd (List.count_pos_iff.mp (by omega)) (free holder)
    · by_cases isHolder : thread = holder
      · subst isHolder
        rw [through] at inside
        exact inside.elim
      · exact (outside thread isHolder).through through

end System

end AndroidPatch.Library
