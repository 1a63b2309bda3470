import AndroidPatch.Library.TimSort.Merge

/-!
Contract: what holds while two runs are merged.

Owns:
- the invariant of the loop, and that each way of taking elements keeps it;
- that the loop is left while an element of `tmp` remains, so that the exception is not
  thrown;
- that a merge under a comparison that keeps its contract returns a sorted
  rearrangement.
-/

namespace AndroidPatch.Library.TimSort

open Comparison

section Loop

variable {α : Type}

/-- The first elements of one sorted list stand between what both follow and the other
one. -/
theorem pairwise_between {R : α → α → Prop} {written moving staying : List α} {count : Nat}
    (movingSorted : (written ++ moving).Pairwise R)
    (stayingSorted : (written ++ staying).Pairwise R)
    (first : ∀ element ∈ moving.take count, ∀ later ∈ staying, R element later) :
    (written ++ moving.take count ++ staying).Pairwise R := by
  obtain ⟨-, sortedStaying, writtenFirst⟩ := List.pairwise_append.mp stayingSorted
  have front : (written ++ moving.take count).Pairwise R :=
    movingSorted.sublist ((List.take_sublist count moving).append_left written)
  apply List.pairwise_append.mpr
  refine ⟨front, sortedStaying, ?_⟩
  intro element isEarlier later isLater
  rcases List.mem_append.mp isEarlier with isWritten | isTaken
  · exact writtenFirst element isWritten later isLater
  · exact first element isTaken later isLater

/-- The elements are those of the runs, rearranged; what is written comes before what is
left of either run; and the last element of `tmp` comes behind all of the other run, so
that `tmp` is not used up first. -/
structure Merging (compareTo : α → α → Int) (original : List α) (state : MergeState α) :
    Prop where
  rearranges : Rearranges compareTo original (state.written ++ (state.tmp ++ state.other))
  tmpSorted : (state.written ++ state.tmp).Pairwise (Precedes compareTo)
  otherSorted : (state.written ++ state.other).Pairwise (Precedes compareTo)
  last : ∃ last, state.tmp.getLast? = some last ∧
    ∀ element ∈ state.other, compareTo element last < 0

variable {compareTo : α → α → Int} {original : List α} {state : MergeState α}

namespace Merging

theorem tmp_ne_nil (merging : Merging compareTo original state) : state.tmp ≠ [] := by
  obtain ⟨last, isLast, -⟩ := merging.last
  intro isEmpty
  rw [isEmpty, List.getLast?_nil] at isLast
  cases isLast

theorem tmp_sorted (merging : Merging compareTo original state) :
    state.tmp.Pairwise (Precedes compareTo) :=
  (List.pairwise_append.mp merging.tmpSorted).2.1

theorem other_sorted (merging : Merging compareTo original state) :
    state.other.Pairwise (Precedes compareTo) :=
  (List.pairwise_append.mp merging.otherSorted).2.1

/-- The first elements of `tmp` are written where they come before the other run. -/
theorem takeTmp (merging : Merging compareTo original state) {count : Nat}
    (notAll : count < state.tmp.length)
    (first : ∀ element ∈ state.tmp.take count, ∀ other ∈ state.other,
      compareTo element other ≤ 0) :
    Merging compareTo original (state.takeTmp count) where
  rearranges := by
    have regrouped : (state.takeTmp count).written ++
        ((state.takeTmp count).tmp ++ (state.takeTmp count).other) =
          state.written ++ (state.tmp ++ state.other) := by
      simp only [MergeState.takeTmp, List.append_assoc]
      rw [← List.append_assoc (state.tmp.take count), List.take_append_drop]
    rw [regrouped]
    exact merging.rearranges
  tmpSorted := by
    have regrouped : (state.takeTmp count).written ++ (state.takeTmp count).tmp =
        state.written ++ state.tmp := by
      simp only [MergeState.takeTmp, List.append_assoc, List.take_append_drop]
    rw [regrouped]
    exact merging.tmpSorted
  otherSorted :=
    pairwise_between merging.tmpSorted merging.otherSorted first
  last := by
    obtain ⟨last, isLast, behind⟩ := merging.last
    refine ⟨last, ?_, behind⟩
    show (state.tmp.drop count).getLast? = some last
    rw [List.getLast?_drop, if_neg (by omega), isLast]

/-- The first elements of the other run are written where they come before `tmp` and tie
with none of it. -/
theorem takeOther (contract : Contract compareTo) (merging : Merging compareTo original state)
    (count : Nat)
    (first : ∀ element ∈ state.other.take count, ∀ tmp ∈ state.tmp, compareTo element tmp < 0) :
    Merging compareTo original (state.takeOther count) where
  rearranges := by
    have split : state.written ++ (state.tmp ++ state.other) =
        state.written ++ (state.tmp ++ state.other.take count ++ state.other.drop count) := by
      rw [List.append_assoc state.tmp, List.take_append_drop]
    have swapped : Rearranges compareTo (state.tmp ++ state.other.take count)
        (state.other.take count ++ state.tmp) := by
      apply Rearranges.swap contract
      intro tmp isTmp element isTaken tie
      have below := first element isTaken tmp isTmp
      have tieBack := contract.zero_iff.mp tie
      omega
    have moved := Rearranges.append_left state.written
      (swapped.append_right (state.other.drop count))
    have regrouped : (state.takeOther count).written ++
        ((state.takeOther count).tmp ++ (state.takeOther count).other) =
          state.written ++ (state.other.take count ++ state.tmp ++ state.other.drop count) := by
      simp only [MergeState.takeOther, List.append_assoc]
    have before := merging.rearranges
    rw [split] at before
    rw [regrouped]
    exact before.trans moved
  tmpSorted :=
    pairwise_between merging.otherSorted merging.tmpSorted fun element isTaken tmp isTmp =>
      (first element isTaken tmp isTmp).le
  otherSorted := by
    have regrouped : (state.takeOther count).written ++ (state.takeOther count).other =
        state.written ++ state.other := by
      simp only [MergeState.takeOther, List.append_assoc, List.take_append_drop]
    rw [regrouped]
    exact merging.otherSorted
  last := by
    obtain ⟨last, isLast, behind⟩ := merging.last
    exact ⟨last, isLast, fun element isLeft => behind element (List.mem_of_mem_drop isLeft)⟩

/-- The next element of `tmp` is written where it comes before the other run. -/
theorem takeTmp_head (merging : Merging compareTo original state) {head : α} {rest : List α}
    (isTmp : state.tmp = head :: rest) (twoLeft : 2 ≤ state.tmp.length)
    (first : ∀ other ∈ state.other, compareTo head other ≤ 0) :
    Merging compareTo original (state.takeTmp 1) := by
  apply merging.takeTmp twoLeft
  intro element isTaken other isOther
  rw [isTmp] at isTaken
  rw [List.mem_singleton.mp isTaken]
  exact first other isOther

/-- The next element of the other run is written where it comes before `tmp`. -/
theorem takeOther_head (merging : Merging compareTo original state)
    (contract : Contract compareTo) {head : α} {rest : List α} (isOther : state.other = head :: rest)
    (first : ∀ tmp ∈ state.tmp, compareTo head tmp < 0) :
    Merging compareTo original (state.takeOther 1) := by
  apply merging.takeOther contract
  intro element isTaken tmp isTmp
  rw [isOther] at isTaken
  rw [List.mem_singleton.mp isTaken]
  exact first tmp isTmp

end Merging

/-- The loop is at work: two elements of `tmp` are left at least, and one of the other
run. -/
structure Ready (compareTo : α → α → Int) (original : List α) (state : MergeState α) :
    Prop extends Merging compareTo original state where
  twoLeft : 2 ≤ state.tmp.length
  other_ne_nil : state.other ≠ []

/-- The loop has been left in time. -/
structure Done (compareTo : α → α → Int) (original : List α) (state : MergeState α) :
    Prop extends Merging compareTo original state where
  oneLeft : state.tmp.length = 1 ∨ state.other = []

/-- A half leaves the loop in time, or it goes on with fewer elements. -/
def Half.Keeps (compareTo : α → α → Int) (original : List α) (size : Nat) : Half α → Prop
  | .breaks state => Done compareTo original state
  | .goesOn _ state => Ready compareTo original state ∧ state.size < size

variable {side : Side α}

/-- A gallop over `tmp` stops before its end. -/
theorem Merging.countTmp_lt (merging : Merging compareTo original state)
    (fits : side.Fits compareTo) (contract : Contract compareTo) {key : α}
    (isOther : key ∈ state.other) : side.countTmp key state.tmp < state.tmp.length := by
  obtain ⟨last, isLast, behind⟩ := merging.last
  by_contra tooMany
  obtain ⟨passed, -⟩ := fits.countTmp_spec key merging.tmp_ne_nil merging.tmp_sorted
  rw [List.take_of_length_le (by omega)] at passed
  have notBehind := passed last (List.mem_of_getLast? isLast)
  have isBehind := contract.pos_iff.mpr (behind key isOther)
  omega

/-- One element of the other run is written; the loop is left with the last one. -/
theorem Ready.next_other (ready : Ready compareTo original state) (contract : Contract compareTo)
    {head : α} {rest : List α} (isOther : state.other = head :: rest)
    (first : ∀ tmp ∈ state.tmp, compareTo head tmp < 0) :
    ((state.takeOther 1).other.length = 0 → Done compareTo original (state.takeOther 1)) ∧
      ((state.takeOther 1).other.length ≠ 0 → Ready compareTo original (state.takeOther 1) ∧
        (state.takeOther 1).size < state.size) := by
  have moved := ready.takeOther_head contract isOther first
  have someLeft := List.length_pos_iff.mpr ready.other_ne_nil
  have lengthOther := state.length_takeOther 1
  constructor
  · intro isLast
    exact ⟨moved, Or.inr (List.length_eq_zero_iff.mp isLast)⟩
  · intro notLast
    refine ⟨⟨moved, ready.twoLeft, List.length_pos_iff.mp (by omega)⟩, ?_⟩
    unfold MergeState.size
    rw [MergeState.takeOther_tmp]
    omega

/-- One element of `tmp` is written; the loop is left with the last but one. -/
theorem Ready.next_tmp (ready : Ready compareTo original state) {head : α} {rest : List α}
    (isTmp : state.tmp = head :: rest)
    (first : ∀ other ∈ state.other, compareTo head other ≤ 0) :
    ((state.takeTmp 1).tmp.length = 1 → Done compareTo original (state.takeTmp 1)) ∧
      ((state.takeTmp 1).tmp.length ≠ 1 → Ready compareTo original (state.takeTmp 1) ∧
        (state.takeTmp 1).size < state.size) := by
  have twoLeft := ready.twoLeft
  have moved := ready.takeTmp_head isTmp twoLeft first
  have lengthTmp := state.length_takeTmp 1
  constructor
  · intro isLast
    exact ⟨moved, Or.inl isLast⟩
  · intro notLast
    refine ⟨⟨moved, by omega, ready.other_ne_nil⟩, ?_⟩
    unfold MergeState.size
    rw [MergeState.takeTmp_other]
    omega

theorem Ready.gallopTmp (ready : Ready compareTo original state) (fits : side.Fits compareTo)
    (contract : Contract compareTo) :
    (side.gallopTmp state).Keeps compareTo original state.size := by
  unfold Side.gallopTmp
  cases isOther : state.other with
  | nil => exact absurd isOther ready.other_ne_nil
  | cons key rest =>
      have twoLeft := ready.twoLeft
      have isKey : state.other.head? = some key := by rw [isOther]; rfl
      have notAll := ready.countTmp_lt fits contract (List.mem_of_mem_head? isKey)
      obtain ⟨passed, left⟩ := fits.countTmp_spec key ready.tmp_ne_nil ready.tmp_sorted
      dsimp only
      generalize side.countTmp key state.tmp = count at notAll passed left
      have galloped : Merging compareTo original (state.takeTmp count) := by
        apply ready.takeTmp notAll
        intro element isTaken other isElement
        exact contract.trans (passed element isTaken)
          (first_precedes contract ready.other_sorted isKey isElement)
      have lengthTmp := state.length_takeTmp count
      by_cases breaks : count ≠ 0 ∧ (state.takeTmp count).tmp.length ≤ 1
      · rw [if_pos breaks]
        exact ⟨galloped, Or.inl (by omega)⟩
      · rw [if_neg breaks]
        have stillReady : Ready compareTo original (state.takeTmp count) :=
          ⟨galloped, by omega, ready.other_ne_nil⟩
        have noMore : (state.takeTmp count).size ≤ state.size := by
          unfold MergeState.size
          rw [MergeState.takeTmp_other]
          omega
        obtain ⟨done, goesOn⟩ := stillReady.next_other contract isOther left
        by_cases isLast : ((state.takeTmp count).takeOther 1).other.length = 0
        · rw [if_pos isLast]
          exact done isLast
        · rw [if_neg isLast]
          exact ⟨(goesOn isLast).1, (goesOn isLast).2.trans_le noMore⟩

theorem Ready.gallopOther (ready : Ready compareTo original state) (fits : side.Fits compareTo)
    (contract : Contract compareTo) :
    (side.gallopOther state).Keeps compareTo original state.size := by
  unfold Side.gallopOther
  cases isTmp : state.tmp with
  | nil => exact absurd isTmp ready.tmp_ne_nil
  | cons key rest =>
      have someLeft := List.length_pos_iff.mpr ready.other_ne_nil
      have isKey : state.tmp.head? = some key := by rw [isTmp]; rfl
      obtain ⟨passed, left⟩ := fits.countOther_spec key ready.other_ne_nil ready.other_sorted
      dsimp only
      generalize side.countOther key state.other = count at passed left
      have galloped : Merging compareTo original (state.takeOther count) := by
        apply ready.takeOther contract
        intro element isTaken tmp isElement
        exact contract.lt_of_lt_of_le (passed element isTaken)
          (first_precedes contract ready.tmp_sorted isKey isElement)
      have lengthOther := state.length_takeOther count
      by_cases breaks : count ≠ 0 ∧ (state.takeOther count).other.length = 0
      · rw [if_pos breaks]
        exact ⟨galloped, Or.inr (List.length_eq_zero_iff.mp breaks.2)⟩
      · rw [if_neg breaks]
        have stillReady : Ready compareTo original (state.takeOther count) :=
          ⟨galloped, ready.twoLeft, List.length_pos_iff.mp (by omega)⟩
        have noMore : (state.takeOther count).size ≤ state.size := by
          unfold MergeState.size
          rw [MergeState.takeOther_tmp]
          omega
        obtain ⟨done, goesOn⟩ := stillReady.next_tmp isTmp left
        by_cases isLast : ((state.takeOther count).takeTmp 1).tmp.length = 1
        · rw [if_pos isLast]
          exact done isLast
        · rw [if_neg isLast]
          exact ⟨(goesOn isLast).1, (goesOn isLast).2.trans_le noMore⟩

theorem Ready.firstHalf (ready : Ready compareTo original state) (fits : side.Fits compareTo)
    (contract : Contract compareTo) :
    (side.firstHalf state).Keeps compareTo original state.size := by
  unfold Side.firstHalf
  split_ifs
  · exact ready.gallopTmp fits contract
  · exact ready.gallopOther fits contract

theorem Ready.secondHalf (ready : Ready compareTo original state) (fits : side.Fits compareTo)
    (contract : Contract compareTo) :
    (side.secondHalf state).Keeps compareTo original state.size := by
  unfold Side.secondHalf
  split_ifs
  · exact ready.gallopOther fits contract
  · exact ready.gallopTmp fits contract

/-- **The loop is left in time.** It never uses up `tmp`. -/
theorem Ready.mergeLoop (fits : side.Fits compareTo) (contract : Contract compareTo) :
    ∀ (fuel : Nat) (phase : Phase) (minGallop : Int) {state : MergeState α},
      Ready compareTo original state → state.size ≤ fuel →
      Done compareTo original (mergeLoop side fuel phase minGallop state).2
  | 0, phase, minGallop, state, ready, enough => by
      have twoLeft := ready.twoLeft
      unfold MergeState.size at enough
      omega
  | fuel + 1, .oneByOne tmpCount otherCount, minGallop, state, ready, enough => by
      cases isTmp : state.tmp with
      | nil => exact absurd isTmp ready.tmp_ne_nil
      | cons tmp restTmp =>
          cases isOther : state.other with
          | nil => exact absurd isOther ready.other_ne_nil
          | cons other restOther =>
              have isFirst : state.tmp.head? = some tmp := by rw [isTmp]; rfl
              have isFirst' : state.other.head? = some other := by rw [isOther]; rfl
              rw [TimSort.mergeLoop]
              simp only [isTmp, isOther]
              by_cases otherFirst : side.otherFirst tmp other = true
              · rw [if_pos otherFirst]
                have below := (fits.otherFirst_iff tmp other).mp otherFirst
                obtain ⟨done, goesOn⟩ := ready.next_other contract isOther fun later isLater =>
                  contract.lt_of_lt_of_le below
                    (first_precedes contract ready.tmp_sorted isFirst isLater)
                by_cases isLast : (state.takeOther 1).other.length = 0
                · rw [if_pos isLast]
                  exact done isLast
                · rw [if_neg isLast]
                  obtain ⟨readyLater, fewer⟩ := goesOn isLast
                  exact Ready.mergeLoop fits contract fuel _ _ readyLater (by omega)
              · rw [if_neg otherFirst]
                have notBelow : ¬ compareTo other tmp < 0 := fun below =>
                  otherFirst ((fits.otherFirst_iff tmp other).mpr below)
                have inOrder : compareTo tmp other ≤ 0 := contract.nonneg_iff.mp (by omega)
                obtain ⟨done, goesOn⟩ := ready.next_tmp isTmp fun later isLater =>
                  contract.trans inOrder
                    (first_precedes contract ready.other_sorted isFirst' isLater)
                by_cases isLast : (state.takeTmp 1).tmp.length = 1
                · rw [if_pos isLast]
                  exact done isLast
                · rw [if_neg isLast]
                  obtain ⟨readyLater, fewer⟩ := goesOn isLast
                  exact Ready.mergeLoop fits contract fuel _ _ readyLater (by omega)
  | fuel + 1, .galloping, minGallop, state, ready, enough => by
      have keepsFirst := ready.firstHalf fits contract
      rw [TimSort.mergeLoop]
      cases isFirst : side.firstHalf state with
      | breaks broken =>
          rw [isFirst] at keepsFirst
          exact keepsFirst
      | goesOn firstCount between =>
          rw [isFirst] at keepsFirst
          obtain ⟨readyBetween, fewer⟩ := keepsFirst
          have keepsSecond := readyBetween.secondHalf fits contract
          dsimp only
          cases isSecond : side.secondHalf between with
          | breaks broken =>
              rw [isSecond] at keepsSecond
              exact keepsSecond
          | goesOn secondCount later =>
              rw [isSecond] at keepsSecond
              obtain ⟨readyLater, evenFewer⟩ := keepsSecond
              dsimp only
              split_ifs
              · exact Ready.mergeLoop fits contract fuel _ _ readyLater (by omega)
              · exact Ready.mergeLoop fits contract fuel _ _ readyLater (by omega)
              · exact Ready.mergeLoop fits contract fuel _ _ readyLater (by omega)

/-! ## The result -/

/-- The merge returns a sorted rearrangement. -/
def Merges (compareTo : α → α → Int) (original : List α)
    (result : Except IllegalArgument (List α × Int)) : Prop :=
  ∃ merged minGallop, result = .ok (merged, minGallop) ∧
    merged.Pairwise (Precedes compareTo) ∧ Rearranges compareTo original merged

/-- Nothing is left of the other run. -/
theorem Merging.finish (merging : Merging compareTo original state) (noneLeft : state.other = []) :
    (state.written ++ state.tmp).Pairwise (Precedes compareTo) ∧
      Rearranges compareTo original (state.written ++ state.tmp) := by
  have rearranges := merging.rearranges
  rw [noneLeft, List.append_nil] at rearranges
  exact ⟨merging.tmpSorted, rearranges⟩

/-- One element is left in `tmp`, and it comes last. -/
theorem Merging.finish_one (merging : Merging compareTo original state)
    (contract : Contract compareTo) (oneLeft : state.tmp.length = 1) :
    (state.written ++ state.other ++ state.tmp).Pairwise (Precedes compareTo) ∧
      Rearranges compareTo original (state.written ++ state.other ++ state.tmp) := by
  obtain ⟨last, isLast, behind⟩ := merging.last
  obtain ⟨single, isTmp⟩ := List.length_eq_one_iff.mp oneLeft
  rw [isTmp, List.getLast?_singleton, Option.some.injEq] at isLast
  subst isLast
  have below : ∀ element ∈ state.other, ∀ tmp ∈ state.tmp, compareTo element tmp < 0 := by
    intro element isOther tmp isElement
    rw [isTmp, List.mem_singleton] at isElement
    rw [isElement]
    exact behind element isOther
  have emptied := merging.takeOther contract state.other.length fun element isTaken =>
    below element (List.mem_of_mem_take isTaken)
  have finished := emptied.finish (List.drop_length)
  simp only [MergeState.takeOther, List.take_length] at finished
  exact finished

/-- **A merge returns.** -/
theorem Merging.merge (merging : Merging compareTo original state) (fits : side.Fits compareTo)
    (contract : Contract compareTo) (minGallop : Int) :
    Merges compareTo original (merge side minGallop state) := by
  have someLeft := List.length_pos_iff.mpr merging.tmp_ne_nil
  unfold TimSort.merge
  by_cases noneLeft : state.other.length = 0
  · rw [if_pos noneLeft]
    exact ⟨_, _, rfl, merging.finish (List.length_eq_zero_iff.mp noneLeft)⟩
  · rw [if_neg noneLeft]
    by_cases oneLeft : state.tmp.length = 1
    · rw [if_pos oneLeft]
      exact ⟨_, _, rfl, merging.finish_one contract oneLeft⟩
    · rw [if_neg oneLeft]
      have ready : Ready compareTo original state :=
        ⟨merging, by omega, List.length_pos_iff.mp (by omega)⟩
      have done := Ready.mergeLoop fits contract state.size (.oneByOne 0 0) minGallop ready le_rfl
      dsimp only
      generalize mergeLoop side state.size (.oneByOne 0 0) minGallop state = result at done
      by_cases oneLeft' : result.2.tmp.length = 1
      · rw [if_pos oneLeft']
        exact ⟨_, _, rfl, done.finish_one contract oneLeft'⟩
      · have someLeft' := List.length_pos_iff.mpr done.tmp_ne_nil
        rw [if_neg oneLeft', if_neg (by omega)]
        exact ⟨_, _, rfl, done.finish (done.oneLeft.resolve_left oneLeft')⟩

end Loop

section Runs

variable {α : Type} {compareTo : α → α → Int} {run1 run2 : List α}

/-- The first run ends behind all of the second one, which begins before all of the
first. -/
structure Interleaved (compareTo : α → α → Int) (run1 run2 : List α) (first last : α) : Prop where
  sorted1 : run1.Pairwise (Precedes compareTo)
  sorted2 : run2.Pairwise (Precedes compareTo)
  isFirst : run2.head? = some first
  isLast : run1.getLast? = some last
  before : ∀ element ∈ run1, compareTo first element < 0
  behind : ∀ element ∈ run2, compareTo element last < 0

variable {first last : α}

theorem mergeLo_merges (interleaved : Interleaved compareTo run1 run2 first last)
    (contract : Contract compareTo) (minGallop : Int) :
    Merges compareTo (run1 ++ run2) (mergeLo compareTo minGallop run1 run2) := by
  have started : Merging compareTo (run1 ++ run2) ⟨[], run1, run2⟩ :=
    ⟨Rearranges.refl _, interleaved.sorted1, interleaved.sorted2,
      last, interleaved.isLast, interleaved.behind⟩
  obtain ⟨rest, isRun2⟩ := List.head?_eq_some_iff.mp interleaved.isFirst
  have moved := started.takeOther_head contract isRun2 interleaved.before
  exact moved.merge (Side.low_fits contract) contract minGallop

theorem mergeHi_merges (interleaved : Interleaved compareTo run1 run2 first last)
    (contract : Contract compareTo) (minGallop : Int) :
    Merges compareTo (run1 ++ run2) (mergeHi compareTo minGallop run1 run2) := by
  have started : Merging (mirrored compareTo) (run1 ++ run2).reverse
      ⟨[], run2.reverse, run1.reverse⟩ := by
    rw [List.reverse_append]
    refine ⟨Rearranges.refl _, ?_, ?_, first, ?_, ?_⟩
    · apply pairwise_mirrored.mpr
      show run2.reverse.reverse.Pairwise (Precedes compareTo)
      rw [List.reverse_reverse]
      exact interleaved.sorted2
    · apply pairwise_mirrored.mpr
      show run1.reverse.reverse.Pairwise (Precedes compareTo)
      rw [List.reverse_reverse]
      exact interleaved.sorted1
    · exact List.getLast?_reverse.trans interleaved.isFirst
    · intro element isElement
      exact interleaved.before element (List.mem_reverse.mp isElement)
  obtain ⟨rest, isRun1⟩ :=
    List.head?_eq_some_iff.mp (List.head?_reverse.trans interleaved.isLast)
  have moved := started.takeOther_head contract.mirrored isRun1 fun tmp isTmp =>
    interleaved.behind tmp (List.mem_reverse.mp isTmp)
  obtain ⟨merged, minGallop', isMerged, sorted, rearranges⟩ :=
    moved.merge (Side.high_fits contract) contract.mirrored minGallop
  refine ⟨merged.reverse, minGallop', ?_, pairwise_mirrored.mp sorted, ?_⟩
  · unfold mergeHi
    rw [isMerged]
    rfl
  · exact rearranges.of_mirrored contract

end Runs

end AndroidPatch.Library.TimSort
