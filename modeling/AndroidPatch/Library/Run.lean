import Mathlib.Data.List.Basic
import Mathlib.Data.List.Induction

/-!
Contract: finite runs of an object that answers calls.

`step` maps a state and a call to the answer and the next state. `run` is the
state after a list of calls, `history` the calls with their answers, `steps` the
calls with the states they are made in. The rule
`history_induction` proves a relation between history and state from one step;
a property of every reachable state is the case that ignores the history.
`append_singleton_eq_split` says where a call of a longer history stands.
`run_lockstep` compares two runs call by call.
-/

namespace AndroidPatch.Library

variable {S C R : Type} (step : S → C → R × S)

def run (start : S) : List C → S
  | [] => start
  | call :: rest => run (step start call).2 rest

def history (start : S) : List C → List (C × R)
  | [] => []
  | call :: rest => (call, (step start call).1) :: history (step start call).2 rest

/-- Every call with the state it is made in. -/
def steps (start : S) : List C → List (S × C)
  | [] => []
  | call :: rest => (start, call) :: steps (step start call).2 rest

omit step in
/-- A call of a history with one more is that one, or stands in the history. -/
theorem append_singleton_eq_split {calls early late : List C} {last call : C} :
    calls ++ [last] = early ++ call :: late ↔
      late = [] ∧ early = calls ∧ call = last ∨
        ∃ rest, late = rest ++ [last] ∧ calls = early ++ call :: rest := by
  constructor
  · intro isSplit
    rcases List.eq_nil_or_concat' late with rfl | ⟨rest, final, rfl⟩
    · obtain ⟨rfl, same⟩ := List.append_inj' isSplit rfl
      cases same
      exact .inl ⟨rfl, rfl, rfl⟩
    · have aligned : calls ++ [last] = (early ++ call :: rest) ++ [final] := by
        simpa using isSplit
      obtain ⟨isCalls, isLast⟩ := List.append_inj' aligned rfl
      cases isLast
      exact .inr ⟨rest, rfl, isCalls⟩
  · rintro (⟨rfl, rfl, rfl⟩ | ⟨rest, rfl, rfl⟩)
    · rfl
    · simp

theorem run_append (start : S) (early late : List C) :
    run step start (early ++ late) = run step (run step start early) late := by
  induction early generalizing start with
  | nil => rfl
  | cons call rest inductionHypothesis => exact inductionHypothesis _

theorem history_append (start : S) (early late : List C) :
    history step start (early ++ late) =
      history step start early ++ history step (run step start early) late := by
  induction early generalizing start with
  | nil => rfl
  | cons call rest inductionHypothesis =>
      exact congrArg (List.cons _) (inductionHypothesis _)

theorem steps_append (start : S) (early late : List C) :
    steps step start (early ++ late) =
      steps step start early ++ steps step (run step start early) late := by
  induction early generalizing start with
  | nil => rfl
  | cons call rest inductionHypothesis =>
      exact congrArg (List.cons _) (inductionHypothesis _)

variable {step}

/-- Induction on a run from its end: what one call adds to the history and
makes of the state. -/
theorem history_induction (Inv : List (C × R) → S → Prop) {start : S}
    (initially : Inv [] start)
    (kept : ∀ past state call, Inv past state →
      Inv (past ++ [(call, (step state call).1)]) (step state call).2)
    (calls : List C) :
    Inv (history step start calls) (run step start calls) := by
  induction calls using List.reverseRecOn with
  | nil => exact initially
  | append_singleton calls call inductionHypothesis =>
      rw [history_append, run_append]
      exact kept _ _ call inductionHypothesis

/-- A property of states that every call keeps. -/
theorem run_induction (Inv : S → Prop) {start : S} (initially : Inv start)
    (kept : ∀ state call, Inv state → Inv (step state call).2) (calls : List C) :
    Inv (run step start calls) :=
  history_induction (fun _ state => Inv state) initially
    (fun _ state call => kept state call) calls

/-- **Lockstep.**  When related states answer a call and its translation alike
and stay related, they do so along whole runs. -/
theorem run_lockstep {step : S → C → R × S} (Related : S → S → Prop)
    (translate : C → C)
    (kept : ∀ left right call, Related left right →
      (step left call).1 = (step right (translate call)).1 ∧
        Related (step left call).2 (step right (translate call)).2)
    {left right : S} (related : Related left right) (calls : List C) :
    (history step left calls).map Prod.snd =
        (history step right (calls.map translate)).map Prod.snd ∧
      Related (run step left calls) (run step right (calls.map translate)) := by
  induction calls generalizing left right with
  | nil => exact ⟨rfl, related⟩
  | cons call rest inductionHypothesis =>
      obtain ⟨sameAnswer, relatedStep⟩ := kept left right call related
      obtain ⟨sameRest, relatedRest⟩ := inductionHypothesis relatedStep
      refine ⟨?_, relatedRest⟩
      simp only [history, List.map_cons, sameAnswer, sameRest]

end AndroidPatch.Library
