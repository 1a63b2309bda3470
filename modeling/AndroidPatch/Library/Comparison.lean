import Mathlib.Data.Int.Order.Basic
import Mathlib.Data.List.Sort

/-!
Contract: comparisons that answer with a sign, and lists arranged by one.

Owns:
- the two laws that a sort relies on, and what else follows from them;
- the mirror image of a comparison, under which a list is sorted backwards;
- `Rearranges`, what a stable sort may make of a list: elements that tie stay in
  their order;
- that exactly one sorted list rearranges a given one.

Does not own: any sorting algorithm.
-/

namespace AndroidPatch.Library.Comparison

variable {α : Type} {compareTo : α → α → Int}

/-! ## The laws -/

/-- What the sort relies on: the sign changes when the arguments change places, and
the answers that are not positive are transitive. -/
structure Contract (compareTo : α → α → Int) : Prop where
  antisymm : ∀ first second, (compareTo first second).sign = -(compareTo second first).sign
  trans : ∀ {first second third}, compareTo first second ≤ 0 → compareTo second third ≤ 0 →
    compareTo first third ≤ 0

namespace Contract

variable {first second third : α}

theorem pos_iff (contract : Contract compareTo) :
    0 < compareTo first second ↔ compareTo second first < 0 := by
  have signs := contract.antisymm first second
  rw [← Int.sign_neg] at signs
  rw [← Int.sign_eq_one_iff_pos, signs, Int.sign_eq_one_iff_pos]
  omega

theorem nonneg_iff (contract : Contract compareTo) :
    0 ≤ compareTo first second ↔ compareTo second first ≤ 0 := by
  have reversed := @pos_iff α compareTo second first contract
  omega

theorem zero_iff (contract : Contract compareTo) :
    compareTo first second = 0 ↔ compareTo second first = 0 := by
  have forth := @pos_iff α compareTo first second contract
  have back := @pos_iff α compareTo second first contract
  omega

theorem self (contract : Contract compareTo) (element : α) : compareTo element element = 0 := by
  have reversed := @pos_iff α compareTo element element contract
  omega

theorem total (contract : Contract compareTo) (first second : α) :
    compareTo first second ≤ 0 ∨ compareTo second first ≤ 0 := by
  have reversed := @pos_iff α compareTo first second contract
  omega

theorem lt_of_lt_of_le (contract : Contract compareTo) (early : compareTo first second < 0)
    (late : compareTo second third ≤ 0) : compareTo first third < 0 := by
  by_contra notLess
  have back : compareTo third first ≤ 0 := contract.nonneg_iff.mp (by omega)
  have reversed : compareTo second first ≤ 0 := contract.trans late back
  have positive := contract.pos_iff.mpr early
  omega

theorem lt_of_le_of_lt (contract : Contract compareTo) (early : compareTo first second ≤ 0)
    (late : compareTo second third < 0) : compareTo first third < 0 := by
  by_contra notLess
  have back : compareTo third first ≤ 0 := contract.nonneg_iff.mp (by omega)
  have reversed : compareTo third second ≤ 0 := contract.trans back early
  have positive := contract.pos_iff.mpr late
  omega

/-- Elements that tie compare alike with every other one. -/
theorem congr (contract : Contract compareTo) (tie : compareTo first second = 0) (third : α) :
    (compareTo first third).sign = (compareTo second third).sign := by
  have tieBack : compareTo second first = 0 := contract.zero_iff.mp tie
  rcases lt_trichotomy (compareTo first third) 0 with negative | zero | positive
  · have alike := contract.lt_of_le_of_lt tieBack.le negative
    rw [Int.sign_eq_neg_one_of_neg negative, Int.sign_eq_neg_one_of_neg alike]
  · have below : compareTo second third ≤ 0 := contract.trans tieBack.le zero.le
    have above : compareTo third second ≤ 0 :=
      contract.trans (contract.zero_iff.mp zero).le tie.le
    have alike := contract.nonneg_iff.mpr above
    rw [zero, le_antisymm below alike]
  · have above := contract.lt_of_lt_of_le (contract.pos_iff.mp positive) tie.le
    have alike := contract.pos_iff.mpr above
    rw [Int.sign_eq_one_of_pos positive, Int.sign_eq_one_of_pos alike]

end Contract

/-- The order that a sort arranges by. -/
def Precedes (compareTo : α → α → Int) (first second : α) : Prop :=
  compareTo first second ≤ 0

instance : DecidableRel (Precedes compareTo) := fun first second =>
  inferInstanceAs (Decidable (compareTo first second ≤ 0))

theorem first_precedes (contract : Contract compareTo) {elements : List α} {first element : α}
    (sorted : elements.Pairwise (Precedes compareTo)) (isFirst : elements.head? = some first)
    (isElement : element ∈ elements) : compareTo first element ≤ 0 := by
  obtain ⟨rest, isList⟩ := List.head?_eq_some_iff.mp isFirst
  rw [isList] at sorted isElement
  rcases List.mem_cons.mp isElement with same | isRest
  · rw [same, contract.self]
  · exact List.rel_of_pairwise_cons sorted isRest

theorem precedes_last (contract : Contract compareTo) {elements : List α} {last element : α}
    (sorted : elements.Pairwise (Precedes compareTo)) (isLast : elements.getLast? = some last)
    (isElement : element ∈ elements) : compareTo element last ≤ 0 := by
  obtain ⟨before, isList⟩ := List.getLast?_eq_some_iff.mp isLast
  rw [isList] at sorted isElement
  rcases List.mem_append.mp isElement with isBefore | same
  · exact (List.pairwise_append.mp sorted).2.2 element isBefore last (List.mem_singleton.mpr rfl)
  · rw [List.mem_singleton.mp same, contract.self]

/-! ## Rearrangements -/

/-- The elements that tie with a given one, in their order. -/
def ties (compareTo : α → α → Int) (element : α) (elements : List α) : List α :=
  elements.filter fun other => compareTo element other = 0

@[simp] theorem ties_append (element : α) (front back : List α) :
    ties compareTo element (front ++ back) =
      ties compareTo element front ++ ties compareTo element back :=
  List.filter_append front back

@[simp] theorem ties_reverse (element : α) (elements : List α) :
    ties compareTo element elements.reverse = (ties compareTo element elements).reverse :=
  List.filter_reverse

/-- What a stable sort may make of a list. -/
def Rearranges (compareTo : α → α → Int) (original result : List α) : Prop :=
  ∀ element, ties compareTo element result = ties compareTo element original

namespace Rearranges

variable {original middle result front back front' back' : List α}

theorem refl (original : List α) : Rearranges compareTo original original :=
  fun _ => rfl

theorem trans (early : Rearranges compareTo original middle)
    (late : Rearranges compareTo middle result) : Rearranges compareTo original result :=
  fun element => (late element).trans (early element)

theorem append (inFront : Rearranges compareTo front front')
    (inBack : Rearranges compareTo back back') :
    Rearranges compareTo (front ++ back) (front' ++ back') := by
  intro element
  rw [ties_append, ties_append, inFront element, inBack element]

theorem append_left (front : List α) (inBack : Rearranges compareTo back back') :
    Rearranges compareTo (front ++ back) (front ++ back') :=
  (refl front).append inBack

theorem append_right (inFront : Rearranges compareTo front front') (back : List α) :
    Rearranges compareTo (front ++ back) (front' ++ back) :=
  inFront.append (refl back)

/-- Two stretches change places where nothing of the one ties with anything of the
other. -/
theorem swap (contract : Contract compareTo)
    (apart : ∀ first ∈ front, ∀ second ∈ back, compareTo first second ≠ 0) :
    Rearranges compareTo (front ++ back) (back ++ front) := by
  intro element
  rw [ties_append, ties_append]
  -- An element that ties with one of each side would tie the two.
  by_cases inFront : ties compareTo element front = []
  · rw [inFront, List.append_nil, List.nil_append]
  · have noneBehind : ties compareTo element back = [] := by
      apply List.filter_eq_nil_iff.mpr
      intro second isSecond tie
      obtain ⟨first, isFirst⟩ := List.exists_mem_of_ne_nil _ inFront
      obtain ⟨isFirst, tieFirst⟩ := List.mem_filter.mp isFirst
      have tieFirst : compareTo element first = 0 := of_decide_eq_true tieFirst
      have tie : compareTo element second = 0 := of_decide_eq_true tie
      apply apart first isFirst second isSecond
      have signs := contract.congr tieFirst second
      rw [tie, Int.sign_zero] at signs
      exact Int.sign_eq_zero_iff_zero.mp signs.symm
    rw [noneBehind, List.append_nil, List.nil_append]

theorem mem_iff (contract : Contract compareTo) (rearranges : Rearranges compareTo original result)
    (element : α) : element ∈ result ↔ element ∈ original := by
  have tied : ∀ elements, element ∈ elements ↔ element ∈ ties compareTo element elements := by
    intro elements
    rw [ties, List.mem_filter]
    simp [contract.self]
  rw [tied, rearranges element, ← tied]

/-- **A sorted rearrangement is unique.** -/
theorem unique (contract : Contract compareTo) :
    ∀ {original result : List α}, Rearranges compareTo original result →
      original.Pairwise (Precedes compareTo) → result.Pairwise (Precedes compareTo) →
      result = original
  | [], [], _, _, _ => rfl
  | [], second :: result, rearranges, _, _ => by
      have isMember := (rearranges.mem_iff contract second).mp List.mem_cons_self
      exact absurd isMember List.not_mem_nil
  | first :: original, [], rearranges, _, _ => by
      have isMember := (rearranges.mem_iff contract first).mpr List.mem_cons_self
      exact absurd isMember List.not_mem_nil
  | first :: original, second :: result, rearranges, sorted, sorted' => by
      obtain ⟨isLeast, sortedRest⟩ := List.pairwise_cons.mp sorted
      obtain ⟨isLeast', sortedRest'⟩ := List.pairwise_cons.mp sorted'
      -- Each head is least in its own list and a member of the other.
      have below : compareTo second first ≤ 0 := by
        rcases List.mem_cons.mp ((rearranges.mem_iff contract first).mpr List.mem_cons_self) with
          same | isLater
        · rw [same, contract.self]
        · exact isLeast' first isLater
      have above : compareTo first second ≤ 0 := by
        rcases List.mem_cons.mp ((rearranges.mem_iff contract second).mp List.mem_cons_self) with
          same | isLater
        · rw [same, contract.self]
        · exact isLeast second isLater
      have tie : compareTo first second = 0 :=
        le_antisymm above (contract.nonneg_iff.mpr below)
      have heads := rearranges first
      simp only [ties, List.filter_cons, tie, contract.self, decide_true, if_true,
        List.cons.injEq] at heads
      obtain rfl := heads.1
      have rest : Rearranges compareTo original result := by
        intro element
        have tails := rearranges element
        simp only [ties, List.filter_cons] at tails
        by_cases isTie : compareTo element second = 0
        · simp only [isTie, decide_true, if_true, List.cons.injEq, true_and] at tails
          exact tails
        · simp only [isTie, decide_false, Bool.false_eq_true, if_false] at tails
          exact tails
      rw [unique contract rest sortedRest sortedRest']

theorem orderedInsert (contract : Contract compareTo) (element : α) :
    ∀ elements : List α, Rearranges compareTo (element :: elements)
      (elements.orderedInsert (Precedes compareTo) element)
  | [] => refl [element]
  | first :: rest => by
      by_cases inFront : Precedes compareTo element first
      · rw [List.orderedInsert_cons, if_pos inFront]
        exact refl _
      · rw [List.orderedInsert_cons, if_neg inFront]
        have swapped : Rearranges compareTo ([element] ++ [first]) ([first] ++ [element]) := by
          apply swap contract
          intro left isLeft right isRight tie
          rw [List.mem_singleton.mp isLeft, List.mem_singleton.mp isRight] at tie
          exact inFront tie.le
        exact (swapped.append_right rest).trans
          (append_left [first] (orderedInsert contract element rest))

theorem insertionSort (contract : Contract compareTo) :
    ∀ elements : List α, Rearranges compareTo elements
      (elements.insertionSort (Precedes compareTo))
  | [] => refl []
  | element :: elements =>
      (append_left [element] (insertionSort contract elements)).trans
        (orderedInsert contract element _)

/-- **A sorted rearrangement is what a stable sort returns.** -/
theorem eq_insertionSort (contract : Contract compareTo)
    (rearranges : Rearranges compareTo original result)
    (sorted : result.Pairwise (Precedes compareTo)) :
    result = original.insertionSort (Precedes compareTo) := by
  have : Std.Total (Precedes compareTo) := ⟨contract.total⟩
  have : IsTrans α (Precedes compareTo) := ⟨fun _ _ _ => contract.trans⟩
  have reference := insertionSort contract original
  have between : Rearranges compareTo (original.insertionSort (Precedes compareTo)) result :=
    fun element => (rearranges element).trans (reference element).symm
  exact between.unique contract (List.pairwise_insertionSort _ original) sorted

end Rearranges

/-! ## The mirror image -/

/-- The comparison that asks the other way round. -/
def mirrored (compareTo : α → α → Int) (first second : α) : Int :=
  compareTo second first

theorem Contract.mirrored (contract : Contract compareTo) :
    Contract (mirrored compareTo) where
  antisymm first second := contract.antisymm second first
  trans early late := contract.trans late early

theorem pairwise_mirrored {elements : List α} :
    elements.Pairwise (Precedes (mirrored compareTo)) ↔
      elements.reverse.Pairwise (Precedes compareTo) :=
  List.pairwise_reverse.symm

theorem Rearranges.of_mirrored (contract : Contract compareTo) {original result : List α}
    (rearranges : Rearranges (mirrored compareTo) original.reverse result) :
    Rearranges compareTo original result.reverse := by
  have sameTies : ∀ element elements,
      ties (mirrored compareTo) element elements = ties compareTo element elements := by
    intro element elements
    apply List.filter_congr
    intro other _
    rw [decide_eq_decide]
    exact contract.zero_iff
  intro element
  have reversed := rearranges element
  rw [sameTies, sameTies, ties_reverse] at reversed
  rw [ties_reverse, reversed, List.reverse_reverse]

end AndroidPatch.Library.Comparison
