import AndroidPatch.Formats.Heap
import AndroidPatch.Formats.Termination

/-!
Contract: `equals` keeps its answers when it may recurse deeper.

Owns:
- the step from one depth to the next, for every loop of the `equals` methods;
- `Alike`, the answer true at some depth, and that no depth answers otherwise.
-/

namespace AndroidPatch.Formats

section Tests

variable {B : Type}

theorem allOf_mono {early late : B → Option Bool} {elements : List B} {verdict : Bool}
    (keeps : ∀ element ∈ elements, ∀ answer, early element = some answer →
      late element = some answer)
    (tested : allOf early elements = some verdict) : allOf late elements = some verdict := by
  induction elements with
  | nil => exact tested
  | cons element rest inductionHypothesis =>
      unfold allOf at tested ⊢
      cases first : early element with
      | none =>
          rw [first] at tested
          cases tested
      | some answer =>
          rw [first] at tested
          rw [keeps element List.mem_cons_self answer first]
          cases answer with
          | false => exact tested
          | true =>
              exact inductionHypothesis
                (fun other member => keeps other (List.mem_cons_of_mem _ member)) tested

theorem anyOf_mono {early late : B → Option Bool} {elements : List B} {verdict : Bool}
    (keeps : ∀ element ∈ elements, ∀ answer, early element = some answer →
      late element = some answer)
    (tested : anyOf early elements = some verdict) : anyOf late elements = some verdict := by
  induction elements with
  | nil => exact tested
  | cons element rest inductionHypothesis =>
      unfold anyOf at tested ⊢
      cases first : early element with
      | none =>
          rw [first] at tested
          cases tested
      | some answer =>
          rw [first] at tested
          rw [keeps element List.mem_cons_self answer first]
          cases answer with
          | true => exact tested
          | false =>
              exact inductionHypothesis
                (fun other member => keeps other (List.mem_cons_of_mem _ member)) tested

variable {early late : B → B → Option Bool}
  (keeps : ∀ left right answer, early left right = some answer → late left right = some answer)

include keeps

theorem zipEquals_mono {lefts rights : List B} {verdict : Bool}
    (compared : zipEquals early lefts rights = some verdict) :
    zipEquals late lefts rights = some verdict := by
  induction lefts, rights using zipEquals.induct early with
  | case1 => exact compared
  | case2 => exact compared
  | case3 => exact compared
  | case4 left lefts right rights isNone =>
      simp [zipEquals, isNone] at compared
  | case5 left lefts right rights isFalse =>
      simp only [zipEquals, isFalse] at compared
      simp only [zipEquals, keeps left right false isFalse]
      exact compared
  | case6 left lefts right rights isTrue inductionHypothesis =>
      simp only [zipEquals, isTrue] at compared
      simp only [zipEquals, keeps left right true isTrue]
      exact inductionHypothesis compared

variable [DecidableEq B]

theorem objectsEquals_mono {left right : B} {verdict : Bool}
    (compared : objectsEquals early left right = some verdict) :
    objectsEquals late left right = some verdict := by
  unfold objectsEquals at compared ⊢
  by_cases same : left = right
  · rw [if_pos same] at compared ⊢
    exact compared
  · rw [if_neg same] at compared ⊢
    exact keeps left right verdict compared

theorem setEquals_mono {own others : List B} {verdict : Bool}
    (compared : setEquals early own others = some verdict) :
    setEquals late own others = some verdict := by
  unfold setEquals at compared ⊢
  by_cases sizes : own.length ≠ others.length
  · rw [if_pos sizes] at compared ⊢
    exact compared
  · rw [if_neg sizes] at compared ⊢
    exact allOf_mono (fun _ _ _ found =>
      anyOf_mono (fun _ _ _ => objectsEquals_mono keeps) found) compared

theorem entryMatches_mono {entry : B × B} {others : List (B × B)} {verdict : Bool}
    (compared : entryMatches early entry others = some verdict) :
    entryMatches late entry others = some verdict := by
  induction others with
  | nil => exact compared
  | cons other rest inductionHypothesis =>
      unfold entryMatches at compared ⊢
      cases keys : objectsEquals early entry.1 other.1 with
      | none =>
          rw [keys] at compared
          cases compared
      | some answer =>
          rw [keys] at compared
          rw [objectsEquals_mono keeps keys]
          cases answer with
          | true => exact keeps _ _ _ compared
          | false => exact inductionHypothesis compared

theorem mapEquals_mono {own others : List (B × B)} {verdict : Bool}
    (compared : mapEquals early own others = some verdict) :
    mapEquals late own others = some verdict := by
  unfold mapEquals at compared ⊢
  by_cases sizes : own.length ≠ others.length
  · rw [if_pos sizes] at compared ⊢
    exact compared
  · rw [if_neg sizes] at compared ⊢
    exact allOf_mono (fun _ _ _ => entryMatches_mono keeps) compared

theorem pairEquals_mono {own other : B × B} {verdict : Bool}
    (compared : pairEquals early own other = some verdict) :
    pairEquals late own other = some verdict := by
  unfold pairEquals at compared ⊢
  cases firsts : objectsEquals early other.1 own.1 with
  | none =>
      rw [firsts] at compared
      cases compared
  | some answer =>
      rw [firsts] at compared
      rw [objectsEquals_mono keeps firsts]
      cases answer with
      | false => exact compared
      | true => exact objectsEquals_mono keeps compared

end Tests

namespace Heap

variable {A : Type} [DecidableEq A] {heap : Heap A}

theorem equalsOnce_mono {early late : Option A → Option A → Option Bool}
    (keeps : ∀ left right answer, early left right = some answer →
      late left right = some answer)
    {object other : A} {verdict : Bool}
    (compared : heap.equalsOnce early object other = some verdict) :
    heap.equalsOnce late object other = some verdict := by
  unfold equalsOnce at compared ⊢
  generalize heap.shape object = shape at compared ⊢
  generalize heap.shape other = otherShape at compared ⊢
  cases shape <;> cases otherShape <;> try exact compared
  case list.list own others =>
    dsimp only at compared ⊢
    by_cases same : object = other
    · rw [if_pos same] at compared ⊢
      exact compared
    · rw [if_neg same] at compared ⊢
      exact zipEquals_mono keeps compared
  case set.set own others =>
    dsimp only at compared ⊢
    by_cases same : object = other
    · rw [if_pos same] at compared ⊢
      exact compared
    · rw [if_neg same] at compared ⊢
      exact setEquals_mono keeps compared
  case map.map own others =>
    dsimp only at compared ⊢
    by_cases same : object = other
    · rw [if_pos same] at compared ⊢
      exact compared
    · rw [if_neg same] at compared ⊢
      exact mapEquals_mono keeps compared
  case pair.pair first second otherFirst otherSecond =>
    exact pairEquals_mono keeps compared

theorem equals_succ {fuel : Nat} {left right : Option A} {verdict : Bool}
    (compared : heap.equals fuel left right = some verdict) :
    heap.equals (fuel + 1) left right = some verdict := by
  induction fuel generalizing left right verdict with
  | zero => cases compared
  | succ fuel inductionHypothesis =>
      cases left with
      | none => exact compared
      | some object =>
          cases right with
          | none => exact compared
          | some other =>
              exact equalsOnce_mono (fun _ _ _ => inductionHypothesis) compared

theorem equals_mono {fuel more : Nat} (enough : fuel ≤ more) {left right : Option A}
    {verdict : Bool} (compared : heap.equals fuel left right = some verdict) :
    heap.equals more left right = some verdict := by
  induction more, enough using Nat.le_induction with
  | base => exact compared
  | succ more _ inductionHypothesis => exact equals_succ inductionHypothesis

/-- All depths that answer answer alike. -/
theorem equals_agree {first second : Nat} {left right : Option A} {verdict other : Bool}
    (early : heap.equals first left right = some verdict)
    (late : heap.equals second left right = some other) : verdict = other := by
  have atMax := equals_mono (Nat.le_max_left first second) early
  rw [equals_mono (Nat.le_max_right first second) late] at atMax
  exact (Option.some.inj atMax).symm

/-- `left.equals(right)` returns true. -/
def Alike (heap : Heap A) (left right : Option A) : Prop :=
  ∃ fuel, heap.equals fuel left right = some true

theorem not_alike_of_false {fuel : Nat} {left right : Option A}
    (different : heap.equals fuel left right = some false) : ¬ heap.Alike left right := by
  rintro ⟨other, alike⟩
  cases equals_agree different alike

/-- `left.equals(right)` returns. -/
def Returns (heap : Heap A) (left right : Option A) : Prop :=
  ∃ fuel verdict, heap.equals fuel left right = some verdict

end Heap

end AndroidPatch.Formats
