import Mathlib.Data.Finite.Prod
import Mathlib.Data.Fintype.Option
import Mathlib.Data.Set.Finite.Lattice
import AndroidPatch.Library.Circular
import AndroidPatch.Formats.Equality
import AndroidPatch.Formats.Markers

/-!
Contract: renderings of lists that may contain each other, and themselves.

Owns:
- `Compares`, the comparisons that a comparison of two lists asks for;
- on finitely many objects `equals` returns exactly where it is not circular;
- a rendering returns exactly where none of its searches on the stack gets to a
  circular comparison.

`List.equals` has no guard against cycles, and the search that guards the
rendering against them calls it.
-/

namespace AndroidPatch.Formats

open AndroidPatch.Lang
open AndroidPatch.Library

namespace Heap

variable {A : Type} [DecidableEq A] {heap : Heap A}

/-! ## Comparisons -/

/-- Comparing two lists asks for the comparison at a position, once those before
it have returned true. -/
inductive Compares (heap : Heap A) : Option A × Option A → Option A × Option A → Prop where
  | position {object other : A} {front back otherFront otherBack : List (Option A)}
      {left right : Option A} (different : object ≠ other)
      (isList : heap.shape object = .list (front ++ left :: back))
      (isOther : heap.shape other = .list (otherFront ++ right :: otherBack))
      (alike : List.Forall₂ heap.Alike front otherFront) :
      Compares heap (some object, some other) (left, right)

theorem equals_lists {object other : A} (different : object ≠ other)
    {own others : List (Option A)} (isList : heap.shape object = .list own)
    (isOther : heap.shape other = .list others) (fuel : Nat) :
    heap.equals (fuel + 1) (some object) (some other) =
      zipEquals (heap.equals fuel) own others := by
  simp only [equals, equalsOnce, isList, isOther, if_neg different]

/-- The loop gets to every position with only true before it. -/
theorem zipEquals_reaches {fuel : Nat} {front otherFront back otherBack : List (Option A)}
    {left right : Option A} {verdict : Bool}
    (alike : List.Forall₂ heap.Alike front otherFront)
    (compared : zipEquals (heap.equals fuel) (front ++ left :: back)
      (otherFront ++ right :: otherBack) = some verdict) :
    ∃ answer, heap.equals fuel left right = some answer := by
  induction alike with
  | nil =>
      rw [List.nil_append, List.nil_append, zipEquals] at compared
      cases first : heap.equals fuel left right with
      | none =>
          rw [first] at compared
          cases compared
      | some answer => exact ⟨answer, rfl⟩
  | @cons head otherHead _ _ same _ inductionHypothesis =>
      rw [List.cons_append, List.cons_append, zipEquals] at compared
      cases first : heap.equals fuel head otherHead with
      | none =>
          rw [first] at compared
          cases compared
      | some answer =>
          rw [first] at compared
          cases answer with
          | false => exact absurd same (not_alike_of_false first)
          | true => exact inductionHypothesis compared

/-- If every comparison that the loop can ask for returns, it ends. -/
theorem zipEquals_returns {own others : List (Option A)}
    (returns : ∀ front left back otherFront right otherBack, own = front ++ left :: back →
      others = otherFront ++ right :: otherBack → List.Forall₂ heap.Alike front otherFront →
        heap.Returns left right) :
    ∃ fuel verdict, zipEquals (heap.equals fuel) own others = some verdict := by
  induction own generalizing others with
  | nil =>
      cases others with
      | nil => exact ⟨0, true, rfl⟩
      | cons other rest => exact ⟨0, false, rfl⟩
  | cons head tail inductionHypothesis =>
      cases others with
      | nil => exact ⟨0, false, rfl⟩
      | cons other rest =>
          obtain ⟨fuel, answer, compared⟩ := returns [] head tail [] other rest rfl rfl .nil
          cases answer with
          | false =>
              refine ⟨fuel, false, ?_⟩
              rw [zipEquals, compared]
          | true =>
              have onward : ∀ front left back otherFront right otherBack,
                  tail = front ++ left :: back → rest = otherFront ++ right :: otherBack →
                    List.Forall₂ heap.Alike front otherFront → heap.Returns left right := by
                intro front left back otherFront right otherBack isTail isRest alike
                apply returns (head :: front) left back (other :: otherFront) right otherBack
                · rw [isTail, List.cons_append]
                · rw [isRest, List.cons_append]
                · exact .cons ⟨fuel, compared⟩ alike
              obtain ⟨more, verdict, comparedRest⟩ := inductionHypothesis onward
              refine ⟨max fuel more, verdict, ?_⟩
              rw [zipEquals, equals_mono (Nat.le_max_left fuel more) compared]
              exact zipEquals_mono (fun _ _ _ => equals_mono (Nat.le_max_right fuel more))
                comparedRest

/-- What returns is not circular. -/
theorem not_circular_of_returns {left right : Option A} (returns : heap.Returns left right) :
    ¬ Circular heap.Compares (left, right) := by
  obtain ⟨fuel, verdict, compared⟩ := returns
  apply @Circular.not_of_depth _ heap.Compares
    (fun depth pair => ∃ answer, heap.equals depth pair.1 pair.2 = some answer) ?_ ?_ fuel
    (left, right) ⟨verdict, compared⟩
  · rintro point ⟨answer, answered⟩
    cases answered
  · rintro depth point next ⟨answer, answered⟩ isNext
    cases isNext with
    | position different isList isOther alike =>
        rw [equals_lists different isList isOther] at answered
        exact zipEquals_reaches alike answered

/-- A graph of `ArrayList` objects, with leaves. -/
structure OnlyLists (heap : Heap A) : Prop where
  shapes : ∀ object, (∃ isFinal, heap.shape object = .leaf isFinal) ∨
    ∃ elements, heap.shape object = .list elements
  names : ∀ object elements, heap.shape object = .list elements →
    heap.getSimpleName object = "ArrayList"

/-- **Comparisons that are not circular return**, on finitely many objects. -/
theorem OnlyLists.returns [Finite A] (onlyLists : heap.OnlyLists) {left right : Option A}
    (acyclic : ¬ Circular heap.Compares (left, right)) : heap.Returns left right := by
  apply @Circular.induction_of_not _ _ heap.Compares (left, right) acyclic
    (fun pair => heap.Returns pair.1 pair.2)
  rintro ⟨object, other⟩ inductionHypothesis
  cases object with
  | none => exact ⟨1, _, rfl⟩
  | some object =>
      cases other with
      | none => exact ⟨1, _, rfl⟩
      | some other =>
          by_cases same : object = other
          · subst same
            rcases onlyLists.shapes object with ⟨isFinal, isLeaf⟩ | ⟨own, isList⟩
            · exact ⟨1, _, by simp only [equals, equalsOnce, isLeaf]; rfl⟩
            · exact ⟨1, true, by simp only [equals, equalsOnce, isList, if_true]⟩
          · rcases onlyLists.shapes object with ⟨isFinal, isLeaf⟩ | ⟨own, isList⟩
            · rcases onlyLists.shapes other with ⟨otherFinal, otherLeaf⟩ | ⟨others, isOther⟩
              · exact ⟨1, _, by simp only [equals, equalsOnce, isLeaf, otherLeaf]; rfl⟩
              · exact ⟨1, false, by simp only [equals, equalsOnce, isLeaf, isOther]⟩
            · rcases onlyLists.shapes other with ⟨otherFinal, otherLeaf⟩ | ⟨others, isOther⟩
              · exact ⟨1, false, by simp only [equals, equalsOnce, isList, otherLeaf]⟩
              · have below : ∀ front left back otherFront right otherBack,
                    own = front ++ left :: back → others = otherFront ++ right :: otherBack →
                      List.Forall₂ heap.Alike front otherFront → heap.Returns left right := by
                  intro front left back otherFront right otherBack isOwn isOthers alike
                  rw [isOwn] at isList
                  rw [isOthers] at isOther
                  exact inductionHypothesis (left, right) (.position same isList isOther alike)
                obtain ⟨fuel, verdict, compared⟩ := zipEquals_returns below
                refine ⟨fuel + 1, verdict, ?_⟩
                rw [equals_lists same isList isOther]
                exact compared

/-- One depth is enough for all comparisons that return. -/
theorem exists_depth [Finite A] (heap : Heap A) :
    ∃ depth, ∀ left right, heap.Returns left right →
      ∀ fuel ≥ depth, ∃ verdict, heap.equals fuel left right = some verdict := by
  classical
  have each : ∀ pair : Option A × Option A, ∃ depth, heap.Returns pair.1 pair.2 →
      ∃ verdict, heap.equals depth pair.1 pair.2 = some verdict := by
    intro pair
    by_cases returns : heap.Returns pair.1 pair.2
    · obtain ⟨depth, answered⟩ := returns
      exact ⟨depth, fun _ => answered⟩
    · exact ⟨0, fun returned => absurd returned returns⟩
  choose depthOf answers using each
  obtain ⟨depth, bounds⟩ := (Set.finite_range depthOf).bddAbove
  refine ⟨depth, fun left right returns fuel enough => ?_⟩
  obtain ⟨verdict, compared⟩ := answers (left, right) returns
  have within : depthOf (left, right) ≤ depth := bounds ⟨(left, right), rfl⟩
  exact ⟨verdict, equals_mono (within.trans enough) compared⟩

end Heap

/-! ## Searches that stop at the first true -/

section Search

variable {N : Type}

/-- The search returns if it does as long as all answers are false. -/
theorem lastIndexOf_returns_until {equals : N → N → Option Bool} {object : N}
    {stack : List N}
    (returns : ∀ nearer ancestor farther, stack = nearer ++ ancestor :: farther →
      (∀ other ∈ nearer, equals object other = some false) →
        ∃ verdict, equals object ancestor = some verdict) :
    ∃ index, lastIndexOf equals object stack = some index := by
  induction stack with
  | nil => exact ⟨-1, rfl⟩
  | cons top rest inductionHypothesis =>
      obtain ⟨verdict, compared⟩ := returns [] top rest rfl (fun _ member => by cases member)
      unfold lastIndexOf
      rw [compared]
      cases verdict with
      | true => exact ⟨_, rfl⟩
      | false =>
          apply inductionHypothesis
          intro nearer ancestor farther isRest allFalse
          apply returns (top :: nearer) ancestor farther
          · rw [isRest, List.cons_append]
          · intro other member
            rcases List.mem_cons.mp member with same | inNearer
            · rw [same, compared]
            · exact allFalse other inNearer

/-- The search tests every object that has no match above it on the stack. -/
theorem lastIndexOf_tests {equals : N → N → Option Bool} {object ancestor : N}
    {nearer farther : List N} {index : Int}
    (found : lastIndexOf equals object (nearer ++ ancestor :: farther) = some index)
    (unmatched : ∀ other ∈ nearer, equals object other ≠ some true) :
    ∃ verdict, equals object ancestor = some verdict := by
  induction nearer with
  | nil =>
      rw [List.nil_append, lastIndexOf] at found
      cases compared : equals object ancestor with
      | none =>
          rw [compared] at found
          cases found
      | some verdict => exact ⟨verdict, rfl⟩
  | cons top rest inductionHypothesis =>
      rw [List.cons_append, lastIndexOf] at found
      cases compared : equals object top with
      | none =>
          rw [compared] at found
          cases found
      | some verdict =>
          rw [compared] at found
          cases verdict with
          | true => exact absurd compared (unmatched top List.mem_cons_self)
          | false =>
              exact inductionHypothesis found fun other member =>
                unmatched other (List.mem_cons_of_mem _ member)

end Search

namespace Heap

variable {A : Type} [DecidableEq A] {heap : Heap A}

/-! ## Renderings of lists -/

/-- On every way down from `root` on which no object equals one above it, the
search for the next object among those above it, nearest first and up to the
first that it equals, gets to no circular comparison. -/
def Settles (heap : Heap A) (root : Option A) : Prop :=
  ∀ stack object, Walk heap.contentsOf root stack object →
    stack.Pairwise (fun lower upper => ¬ heap.Alike lower upper) →
      ∀ nearer ancestor farther, stack = nearer ++ ancestor :: farther →
        (∀ other ∈ nearer, ¬ heap.Alike object other) →
          ¬ Circular heap.Compares (object, ancestor)

/-- Only lists with elements are ever on the stack, and a list equals itself. -/
theorem OnlyLists.equals_self (onlyLists : heap.OnlyLists) {root object node : Option A}
    {stack : List (Option A)} (walk : Walk heap.contentsOf root stack object)
    (member : node ∈ stack) (fuel : Nat) : heap.equals fuel node node ≠ some false := by
  obtain ⟨child, isChild⟩ := walk.exists_child member
  cases node with
  | none => cases isChild
  | some node =>
      cases fuel with
      | zero => simp [equals]
      | succ fuel =>
          rcases onlyLists.shapes node with ⟨isFinal, isLeaf⟩ | ⟨elements, isList⟩
          · simp [contentsOf, isLeaf, Shape.contents] at isChild
          · simp [equals, equalsOnce, isList]

/-- From some depth on, the condition keeps a rendering to searches that
return. -/
theorem OnlyLists.guides [Finite A] (onlyLists : heap.OnlyLists) {root : Option A}
    (settles : heap.Settles root) :
    ∃ depth, heap.entry.Guides (fun stack object =>
      Walk heap.contentsOf root stack object ∧
        stack.Pairwise (fun lower upper => ¬ heap.Alike lower upper)) depth := by
  obtain ⟨depth, answers⟩ := exists_depth heap
  refine ⟨depth, ?_, ?_, ?_⟩
  · rintro stack object ⟨walk, apart⟩ fuel enough
    apply lastIndexOf_returns_until
    intro nearer ancestor farther isStack allFalse
    apply answers object ancestor _ fuel enough
    apply onlyLists.returns
    exact settles stack object walk apart nearer ancestor farther isStack
      fun other member => not_alike_of_false (allFalse other member)
  · rintro stack object ⟨walk, -⟩ fuel index search negative member
    exact onlyLists.equals_self walk member fuel
      (lastIndexOf_neg search negative object member)
  · rintro stack object ⟨walk, apart⟩ fuel index search negative child isChild
    rw [childrenOf_eq] at isChild
    refine ⟨.step walk isChild, List.pairwise_cons.mpr ⟨?_, apart⟩⟩
    intro ancestor isAncestor
    exact not_alike_of_false (lastIndexOf_neg search negative ancestor isAncestor)

/-- Nothing throws: the template of a list has a `%s` for every element. -/
theorem OnlyLists.quiet (onlyLists : heap.OnlyLists) {fuel : Nat} {object : Option A}
    {thread final : ThreadState (Option A)} {result : Except Throwable (Option String)}
    (rendered : heap.entry.toString fuel object thread = some (result, final)) :
    ∃ text, result = .ok text := by
  induction fuel generalizing object thread result final with
  | zero => cases rendered
  | succ fuel inductionHypothesis =>
      have answers : (∃ text, heap.entry.answer object = .direct (.ok text)) ∨
          ∃ elements, heap.entry.answer object = .ofFormatting
            ⟨some (FormatIterable.template (some "ArrayList") (some elements)),
              some elements⟩ := by
        cases object with
        | none => exact .inl ⟨_, answer_null⟩
        | some object =>
            rcases onlyLists.shapes object with ⟨isFinal, isLeaf⟩ | ⟨elements, isList⟩
            · exact .inl ⟨_, answer_leaf isLeaf⟩
            · have isElements : heap.iterableToArray (some object) = some elements := by
                simp only [iterableToArray, isList]
              have isName : heap.iterableNameOf (some object) = some "ArrayList" := by
                simp only [iterableNameOf, isList, onlyLists.names object elements isList]
              refine .inr ⟨elements, ?_⟩
              rw [answer_iterable isElements, isName]
      cases FormatEntry.toString_cases rendered with
      | marker => exact ⟨_, rfl⟩
      | direct index _ _ _ answered =>
          rcases answers with ⟨text, isDirect⟩ | ⟨elements, isTemplate⟩
          · rw [isDirect] at answered
            cases answered
            exact ⟨text, rfl⟩
          · rw [isTemplate] at answered
            cases elements with
            | nil =>
                cases answered
                exact ⟨_, rfl⟩
            | cons child children => cases answered
      | template index first child children arguments inner _ _ answered renderedAll =>
          obtain ⟨texts, rfl⟩ := (renderAll_cases renderedAll).quiet
            fun _ _ _ _ _ => inductionHypothesis
          rcases answers with ⟨text, isDirect⟩ | ⟨elements, isTemplate⟩
          · rw [isDirect] at answered
            cases answered
          · rw [isTemplate] at answered
            cases elements with
            | nil => cases answered
            | cons head rest =>
                cases answered
                have plain : '%' ∉ "ArrayList".toList := by decide
                have formatted := stringFormat_iterable heap.entry.toUpperCase texts plain
                  ((renderAll_cases renderedAll).length_eq rfl).symm
                exact ⟨_, congrArg (Except.map some) formatted⟩

/-- A rendering that returns has gone down every way on which no object equals
one above it. -/
theorem OnlyLists.visits (onlyLists : heap.OnlyLists) {root : Option A} {fuel : Nat}
    {thread : ThreadState (Option A)} (idle : thread.ignore = [])
    {result : Except Throwable (Option String) × ThreadState (Option A)}
    (rendered : heap.entry.toString fuel root thread = some result)
    {stack : List (Option A)} {object : Option A}
    (walk : Walk heap.contentsOf root stack object)
    (apart : stack.Pairwise (fun lower upper => ¬ heap.Alike lower upper)) :
    ∃ fuel before ended, before.ignore = stack ∧
      heap.entry.toString fuel object before = some ended := by
  induction walk with
  | start => exact ⟨fuel, thread, result, idle, rendered⟩
  | @step stack node child walk isChild inductionHypothesis =>
      obtain ⟨unlike, above⟩ := List.pairwise_cons.mp apart
      obtain ⟨depth, before, ⟨ended, after⟩, isBefore, renderedNode⟩ :=
        inductionHypothesis above
      cases depth with
      | zero => cases renderedNode
      | succ depth =>
          rw [← childrenOf_eq] at isChild
          unfold FormatEntry.childrenOf at isChild
          cases FormatEntry.toString_cases renderedNode with
          | marker index found nonnegative =>
              obtain ⟨ancestor, isAncestor, equal⟩ := lastIndexOf_nonneg found nonnegative
              rw [isBefore] at isAncestor
              exact absurd ⟨depth, equal⟩ (unlike ancestor isAncestor)
          | direct index _ _ _ answered =>
              rw [answered] at isChild
              cases isChild
          | template index first head rest arguments last _ _ answered renderedAll =>
              rw [answered] at isChild
              obtain ⟨earlier, endedChild, later, isEarlier, renderedChild, -⟩ :=
                (renderAll_cases renderedAll).call (fun _ _ _ _ => onlyLists.quiet)
                  (fun _ _ _ _ => FormatEntry.toString_ignore)
                  (fun _ _ _ _ => FormatEntry.markers_prefix) isChild
              refine ⟨depth, earlier, (endedChild, later), ?_, renderedChild⟩
              rw [isEarlier, ThreadState.ignore_withIgnore, isBefore]

/-- A call that returns has made its search. -/
theorem searched {fuel : Nat} {object : Option A} {thread : ThreadState (Option A)}
    {result : Except Throwable (Option String) × ThreadState (Option A)}
    (rendered : heap.entry.toString fuel object thread = some result) :
    ∃ depth index, lastIndexOf (heap.equals depth) object thread.ignore = some index := by
  cases fuel with
  | zero => cases rendered
  | succ fuel =>
      obtain ⟨ended, final⟩ := result
      cases FormatEntry.toString_cases rendered with
      | marker index found _ => exact ⟨fuel, index, found⟩
      | direct index _ missing _ _ => exact ⟨fuel, index, missing⟩
      | template index _ _ _ _ _ missing _ _ _ => exact ⟨fuel, index, missing⟩

/-- **Exactly when a rendering of lists returns.**  On every finite graph of
`ArrayList` objects, the rendering of an object returns if and only if none of
the comparisons that its searches get to is circular. -/
theorem renders_iff_settles [Finite A] (heap : Heap A) (onlyLists : heap.OnlyLists)
    (root : Option A) (thread : ThreadState (Option A)) (idle : thread.ignore = []) :
    (∃ fuel result, heap.entry.toString fuel root thread = some result) ↔
      heap.Settles root := by
  constructor
  · rintro ⟨fuel, result, rendered⟩ stack object walk apart nearer ancestor farther isStack
      unlike
    obtain ⟨inner, before, ended, isBefore, renderedObject⟩ :=
      onlyLists.visits idle rendered walk apart
    obtain ⟨depth, index, found⟩ := searched renderedObject
    rw [isBefore, isStack] at found
    obtain ⟨verdict, compared⟩ := lastIndexOf_tests found
      fun other member equal => unlike other member ⟨depth, equal⟩
    exact not_circular_of_returns ⟨depth, verdict, compared⟩
  · intro settles
    have := Fintype.ofFinite A
    obtain ⟨depth, guides⟩ := onlyLists.guides settles
    have reached : Walk heap.contentsOf root thread.ignore root ∧
        thread.ignore.Pairwise (fun lower upper => ¬ heap.Alike lower upper) := by
      rw [idle]
      exact ⟨.start, .nil⟩
    obtain ⟨result, rendered⟩ := guides.toString_returns reached (Nat.lt_succ_self _)
    exact ⟨_, result, rendered⟩

/-- A heap of lists with the given elements. -/
def ofLists {A : Type} (elements : A → List (Option A)) : Heap A where
  shape := fun object => .list (elements object)
  valueOf := fun _ => none
  getSimpleName := fun _ => "ArrayList"
  isSystemClass := fun _ => true
  leafEquals := fun _ _ => false
  raises := fun _ => .other 0
  toUpperCase := id

/-- A list that contains itself is rendered, so its searches settle. -/
theorem selfContaining_settles :
    (ofLists fun _ : Unit => [some ()]).Settles (some ()) :=
  (renders_iff_settles (ofLists fun _ : Unit => [some ()])
    ⟨fun _ => .inr ⟨_, rfl⟩, fun _ _ _ => rfl⟩ (some ()) ⟨none, []⟩ rfl).mp ⟨3, _, rfl⟩

/-- Two lists that contain each other. -/
def mutualLists : Heap Bool := ofLists fun object => [some !object]

theorem mutualLists_equals (fuel : Nat) (object : Bool) :
    mutualLists.equals fuel (some object) (some !object) = none := by
  induction fuel generalizing object with
  | zero => rfl
  | succ fuel inductionHypothesis =>
      have different : object ≠ !object := by simp
      have again := inductionHypothesis (!object)
      rw [equals_lists different rfl rfl, zipEquals, again]

theorem mutualLists_toString (fuel : Nat) :
    mutualLists.entry.toString fuel (some false) ⟨none, []⟩ = none := by
  match fuel with
  | 0 => rfl
  | 1 => rfl
  | fuel + 2 =>
      have stuck : lastIndexOf (mutualLists.equals fuel) (some true) [some false] = none := by
        have compared := mutualLists_equals fuel true
        unfold lastIndexOf
        rw [show some false = some !true from rfl, compared]
      have inner : mutualLists.entry.toString (fuel + 1) (some true) ⟨some [some false], []⟩ =
          none := by
        unfold FormatEntry.toString
        dsimp only [ThreadState.withIgnore, ThreadState.ignore, Option.getD]
        rw [show mutualLists.entry.equals = mutualLists.equals from rfl, stuck]
      have search : lastIndexOf (mutualLists.entry.equals (fuel + 1)) (some false) [] =
          some (-1) := rfl
      have answered : mutualLists.entry.answer (some false) =
          .template (some "ArrayList[%s]") (some true) [] := rfl
      have below : renderAll (mutualLists.entry.toString (fuel + 1)) [some true]
          (ThreadState.withIgnore ⟨none, []⟩ [some false]) = none := by
        unfold renderAll
        rw [show ThreadState.withIgnore ⟨none, []⟩ [some false] = ⟨some [some false], []⟩ from rfl,
          inner]
      rw [mutualLists.entry.toString_answer search (by omega), answered]
      dsimp only [ThreadState.ignore, Option.getD]
      rw [below]

/-- **The rendering of two lists that contain each other never ends**: the
comparison of the second with the first compares the first with the second, and
so on. -/
theorem mutualLists_not_rendered :
    mutualLists.OnlyLists ∧
      ¬ ∃ fuel result, mutualLists.entry.toString fuel (some false) ⟨none, []⟩ = some result := by
  refine ⟨⟨fun _ => .inr ⟨_, rfl⟩, fun _ _ _ => rfl⟩, ?_⟩
  rintro ⟨fuel, result, rendered⟩
  rw [mutualLists_toString fuel] at rendered
  cases rendered

end Heap

end AndroidPatch.Formats
