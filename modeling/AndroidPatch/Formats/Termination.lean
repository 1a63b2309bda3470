import Mathlib.Data.Fintype.Card
import AndroidPatch.Formats.FormatEntry

/-!
Contract: renderings end, and leave the thread's stack as they found it.

Owns:
- the search on the stack as a membership question;
- `free`, the number of objects that are not on the stack: the measure of the
  recursion;
- the bound on the recursion depth of a rendering, and the stack after it, for
  every way in which it can end.
-/

namespace AndroidPatch.Formats

open AndroidPatch.Lang

variable {N : Type}

/-! ## The search on the stack -/

theorem lastIndexOf_nonneg {equals : N → N → Option Bool} {object : N} {stack : List N}
    {index : Int} (found : lastIndexOf equals object stack = some index)
    (nonnegative : index ≥ 0) : ∃ ancestor ∈ stack, equals object ancestor = some true := by
  induction stack with
  | nil =>
      cases found
      omega
  | cons top rest inductionHypothesis =>
      unfold lastIndexOf at found
      cases compared : equals object top with
      | none =>
          rw [compared] at found
          cases found
      | some verdict =>
          cases verdict with
          | true => exact ⟨top, List.mem_cons_self, compared⟩
          | false =>
              rw [compared] at found
              obtain ⟨ancestor, isAncestor, equal⟩ := inductionHypothesis found
              exact ⟨ancestor, List.mem_cons_of_mem _ isAncestor, equal⟩

theorem lastIndexOf_neg {equals : N → N → Option Bool} {object : N} {stack : List N}
    {index : Int} (missing : lastIndexOf equals object stack = some index)
    (negative : ¬ index ≥ 0) : ∀ ancestor ∈ stack, equals object ancestor = some false := by
  induction stack with
  | nil => exact fun _ member => absurd member List.not_mem_nil
  | cons top rest inductionHypothesis =>
      unfold lastIndexOf at missing
      cases compared : equals object top with
      | none =>
          rw [compared] at missing
          cases missing
      | some verdict =>
          cases verdict with
          | true =>
              rw [compared] at missing
              cases missing
              omega
          | false =>
              rw [compared] at missing
              intro ancestor isAncestor
              rcases List.mem_cons.mp isAncestor with same | below
              · rw [same, compared]
              · exact inductionHypothesis missing ancestor below

/-- With an `equals` that returns, the search returns. -/
theorem lastIndexOf_returns {equals : N → N → Option Bool} {object : N} {stack : List N}
    (returns : ∀ ancestor ∈ stack, (equals object ancestor).isSome) :
    ∃ index, lastIndexOf equals object stack = some index := by
  induction stack with
  | nil => exact ⟨-1, rfl⟩
  | cons top rest inductionHypothesis =>
      obtain ⟨verdict, compared⟩ := Option.isSome_iff_exists.mp (returns top List.mem_cons_self)
      unfold lastIndexOf
      rw [compared]
      cases verdict with
      | true => exact ⟨_, rfl⟩
      | false =>
          exact inductionHypothesis fun ancestor below =>
            returns ancestor (List.mem_cons_of_mem _ below)

/-- Raising the depth of `equals` keeps an answer. -/
theorem lastIndexOf_mono {early late : N → N → Option Bool}
    (keeps : ∀ left right verdict, early left right = some verdict →
      late left right = some verdict) {object : N} {stack : List N} {index : Int}
    (found : lastIndexOf early object stack = some index) :
    lastIndexOf late object stack = some index := by
  induction stack with
  | nil => exact found
  | cons top rest inductionHypothesis =>
      unfold lastIndexOf at found ⊢
      cases compared : early object top with
      | none =>
          rw [compared] at found
          cases found
      | some verdict =>
          rw [compared] at found
          rw [keeps object top verdict compared]
          cases verdict with
          | true => exact found
          | false => exact inductionHypothesis found

/-! ## More depth does no harm -/

theorem AllRendered.mono {early late : N → ThreadState N → Rendered N (Option String)}
    (keeps : ∀ object thread result, early object thread = some result →
      late object thread = some result) {children : List N} {thread final : ThreadState N}
    {result : Except Throwable (List (Option String))}
    (rendered : AllRendered early children thread result final) :
    AllRendered late children thread result final := by
  induction rendered with
  | nil thread => exact .nil thread
  | throws first => exact .throws (keeps _ _ _ first)
  | goesOn first _ inductionHypothesis => exact .goesOn (keeps _ _ _ first) inductionHypothesis

/-- `equals` keeps its answers when it may recurse deeper. -/
def FormatEntry.Stable (entry : FormatEntry N) : Prop :=
  ∀ fuel left right verdict, entry.equals fuel left right = some verdict →
    entry.equals (fuel + 1) left right = some verdict

theorem FormatEntry.Stable.toString_succ {entry : FormatEntry N} (stable : entry.Stable)
    {fuel : Nat} {object : N} {thread : ThreadState N}
    {result : Except Throwable (Option String) × ThreadState N}
    (rendered : entry.toString fuel object thread = some result) :
    entry.toString (fuel + 1) object thread = some result := by
  induction fuel generalizing object thread result with
  | zero => cases rendered
  | succ fuel inductionHypothesis =>
      obtain ⟨ended, final⟩ := result
      cases FormatEntry.toString_cases rendered with
      | marker index found nonnegative =>
          exact entry.toString_marker (lastIndexOf_mono (stable fuel) found) nonnegative
      | direct index _ missing negative answered =>
          rw [entry.toString_answer (lastIndexOf_mono (stable fuel) missing) negative, answered]
      | template index first child children arguments inner missing negative answered
          renderedAll =>
          have again := ((renderAll_cases renderedAll).mono
            fun _ _ _ => inductionHypothesis).renderAll_eq
          rw [entry.toString_answer (lastIndexOf_mono (stable fuel) missing) negative, answered]
          dsimp only
          rw [again]

theorem FormatEntry.Stable.toString_mono {entry : FormatEntry N} (stable : entry.Stable)
    {fuel more : Nat} (enough : fuel ≤ more) {object : N} {thread : ThreadState N}
    {result : Except Throwable (Option String) × ThreadState N}
    (rendered : entry.toString fuel object thread = some result) :
    entry.toString more object thread = some result := by
  induction more, enough using Nat.le_induction with
  | base => exact rendered
  | succ more _ inductionHypothesis => exact stable.toString_succ inductionHypothesis

/-! ## The measure -/

section Measure

variable [Fintype N]

open Classical in
/-- How many objects are not on the stack. -/
noncomputable def free (stack : List N) : Nat :=
  (Finset.univ.filter (· ∉ stack)).card

theorem free_le_card (stack : List N) : free stack ≤ Fintype.card N := by
  classical
  unfold free
  exact Finset.card_filter_le _ _

theorem free_cons_lt {stack : List N} {object : N} (fresh : object ∉ stack) :
    free (object :: stack) < free stack := by
  classical
  apply Finset.card_lt_card
  rw [Finset.ssubset_iff_of_subset]
  · exact ⟨object, by simp [fresh], by simp⟩
  · intro other isFree
    simp only [Finset.mem_filter, Finset.mem_univ, true_and, List.mem_cons, not_or] at isFree ⊢
    exact isFree.2

end Measure

/-! ## Calls that return -/

/-- When every call below ends with the stack that it found, the calls on all
arguments end. -/
theorem renderAll_returns {render : N → ThreadState N → Rendered N (Option String)}
    {stack children : List N}
    (returns : ∀ child ∈ children, ∀ thread : ThreadState N, thread.ignore = stack →
      ∃ result final, render child thread = some (result, final) ∧ final.ignore = stack)
    {thread : ThreadState N} (isStack : thread.ignore = stack) :
    ∃ result, renderAll render children thread = some result := by
  induction children generalizing thread with
  | nil => exact ⟨_, rfl⟩
  | cons child rest inductionHypothesis =>
      obtain ⟨ended, later, rendered, isLater⟩ :=
        returns child List.mem_cons_self thread isStack
      unfold renderAll
      rw [rendered]
      cases ended with
      | error throwable => exact ⟨_, rfl⟩
      | ok text =>
          obtain ⟨⟨others, final⟩, renderedRest⟩ := inductionHypothesis
            (fun other member => returns other (List.mem_cons_of_mem _ member)) isLater
          dsimp only
          rw [renderedRest]
          cases others with
          | error throwable => exact ⟨_, rfl⟩
          | ok texts => exact ⟨_, rfl⟩

namespace FormatEntry

variable (entry : FormatEntry N)

/-- Calls that keep to `Reached`, a relation between the stack and the object of
a call. From depth `depth` on the search on the stack returns, and a call that
goes on to its children finds its object new and keeps `Reached` for them. -/
structure Guides (Reached : List N → N → Prop) (depth : Nat) : Prop where
  searches : ∀ stack object, Reached stack object → ∀ fuel ≥ depth,
    ∃ index, lastIndexOf (entry.equals fuel) object stack = some index
  fresh : ∀ stack object, Reached stack object → ∀ fuel index,
    lastIndexOf (entry.equals fuel) object stack = some index → ¬ index ≥ 0 → object ∉ stack
  children : ∀ stack object, Reached stack object → ∀ fuel index,
    lastIndexOf (entry.equals fuel) object stack = some index → ¬ index ≥ 0 →
      ∀ child ∈ entry.childrenOf object, Reached (object :: stack) child

variable {entry}

/-- **A guided rendering ends.**  The induction is on the depth that is left,
which exceeds the number of objects that are not on the stack. -/
theorem Guides.toString_returns [Fintype N] {Reached : List N → N → Prop} {depth : Nat}
    (guides : entry.Guides Reached depth) {fuel : Nat} {object : N} {thread : ThreadState N}
    (reached : Reached thread.ignore object) (enough : depth + free thread.ignore < fuel) :
    ∃ result, entry.toString fuel object thread = some result := by
  induction fuel generalizing object thread with
  | zero => omega
  | succ fuel inductionHypothesis =>
      obtain ⟨index, search⟩ := guides.searches thread.ignore object reached fuel (by omega)
      by_cases nonnegative : index ≥ 0
      · exact ⟨_, entry.toString_marker search nonnegative⟩
      · rw [entry.toString_answer search nonnegative]
        have fresh := guides.fresh thread.ignore object reached fuel index search nonnegative
        have onward := guides.children thread.ignore object reached fuel index search nonnegative
        unfold childrenOf at onward
        cases answered : entry.answer object with
        | direct ended => exact ⟨_, rfl⟩
        | template first child children =>
            rw [answered] at onward
            have smaller := free_cons_lt fresh
            have deeper : ∀ other ∈ child :: children, ∀ inner : ThreadState N,
                inner.ignore = object :: thread.ignore → ∃ result final,
                  entry.toString fuel other inner = some (result, final) ∧
                    final.ignore = object :: thread.ignore := by
              intro other member inner isInner
              have reachedChild : Reached inner.ignore other := by
                rw [isInner]
                exact onward other member
              have enoughChild : depth + free inner.ignore < fuel := by
                rw [isInner]
                omega
              obtain ⟨⟨result, final⟩, rendered⟩ :=
                inductionHypothesis reachedChild enoughChild
              refine ⟨result, final, rendered, ?_⟩
              rw [toString_ignore rendered, isInner]
            obtain ⟨made, rendered⟩ := renderAll_returns deeper
              (thread.ignore_withIgnore (object :: thread.ignore))
            dsimp only
            rw [rendered]
            exact ⟨_, rfl⟩

/-! ## Total `equals` -/

/-- An entry on objects whose `equals` always returns. -/
def ofEquals (mFormatArray : List (Format N)) (getSimpleName : N → Option String)
    (equals : N → N → Bool) (toUpperCase : List Char → List Char) : FormatEntry N where
  mFormatArray := mFormatArray
  getSimpleName := getSimpleName
  equals := fun _ left right => some (equals left right)
  toUpperCase := toUpperCase

section OfEquals

variable {mFormatArray : List (Format N)} {getSimpleName : N → Option String}
  {equals : N → N → Bool} {toUpperCase : List Char → List Char}

theorem ofEquals_stable :
    (ofEquals mFormatArray getSimpleName equals toUpperCase).Stable :=
  fun _ _ _ _ => id

/-- An object that equals itself is found if it is on the stack. -/
theorem ofEquals_guides (reflexive : ∀ object, equals object object = true) :
    (ofEquals mFormatArray getSimpleName equals toUpperCase).Guides (fun _ _ => True) 0 where
  searches := fun _ _ _ _ _ => lastIndexOf_returns fun _ _ => rfl
  fresh := by
    intro stack object _ fuel index search negative member
    have different := lastIndexOf_neg search negative object member
    have same : equals object object = false := Option.some.inj different
    rw [reflexive object] at same
    cases same
  children := fun _ _ _ _ _ _ _ _ _ => trivial

end OfEquals

/-- **Renderings of finite graphs end.**  Whatever the formats answer and throw,
for every reflexive `equals`, from every thread state: the rendering of every
object ends within a recursion depth of the number of objects plus one, and
however it ends, the stack is what it was. -/
theorem toString_terminates [Fintype N] (mFormatArray : List (Format N))
    (getSimpleName : N → Option String) (equals : N → N → Bool)
    (toUpperCase : List Char → List Char)
    (reflexive : ∀ object, equals object object = true) (object : N)
    (thread : ThreadState N) :
    let entry := ofEquals mFormatArray getSimpleName equals toUpperCase
    ∃ result final, final.mIgnores = some thread.ignore ∧
      ∀ fuel ≥ Fintype.card N + 1, entry.toString fuel object thread = some (result, final) := by
  intro entry
  have guides : entry.Guides (fun _ _ => True) 0 := ofEquals_guides reflexive
  have bound := free_le_card thread.ignore
  have returns : ∃ result, entry.toString (Fintype.card N + 1) object thread = some result :=
    guides.toString_returns trivial (by omega)
  obtain ⟨⟨result, final⟩, rendered⟩ := returns
  refine ⟨result, final, toString_restores rendered, fun fuel enough => ?_⟩
  exact ofEquals_stable.toString_mono enough rendered

/-- Two lists that contain each other, from a thread that never rendered
anything. -/
theorem toString_terminates_of_cycle :
    let lists : Format Bool := FormatIterable.format (fun _ => .ok true)
      (fun object => .ok (some [!object])) (fun _ => .ok (some "ArrayList"))
    let entry := ofEquals [lists] (fun _ => some "ArrayList") (· == ·) id
    ∃ result final, final.mIgnores = some [] ∧
      ∀ fuel ≥ 3, entry.toString fuel true ⟨none, []⟩ = some (result, final) :=
  toString_terminates _ _ _ _ (by decide) true ⟨none, []⟩

end FormatEntry

end AndroidPatch.Formats
