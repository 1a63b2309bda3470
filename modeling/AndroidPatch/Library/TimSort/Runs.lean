import Mathlib.Data.List.Pairwise
import AndroidPatch.Library.TimSort.Gallop

/-!
Contract: the runs of `java.util.ComparableTimSort`.

Owns:
- the run that is found at the front of the array, turned round where it descends;
- binary insertion, which makes a short run longer;
- that a run is sorted and keeps its ties in order.
-/

namespace AndroidPatch.Library.TimSort

open Comparison

section Operations

variable {α : Type}

/-- How far a run goes on behind `last`, and what is left. -/
def extendRun (goesOn : α → α → Bool) (last : α) : List α → List α × List α
  | [] => ([], [])
  | next :: rest =>
      if goesOn next last then
        let extended := extendRun goesOn next rest
        (next :: extended.1, extended.2)
      else ([], next :: rest)

variable (compareTo : α → α → Int)

/-- `countRunAndMakeAscending`: the run at the front, turned round where it descends
strictly, and what is left. -/
def countRunAndMakeAscending : List α → List α × List α
  | [] => ([], [])
  | [first] => ([first], [])
  | first :: second :: rest =>
      if compareTo second first < 0 then
        let extended := extendRun (fun next last => compareTo next last < 0) second rest
        ((first :: second :: extended.1).reverse, extended.2)
      else
        let extended := extendRun (fun next last => compareTo next last ≥ 0) second rest
        (first :: second :: extended.1, extended.2)

/-- One element of `binarySort`, inserted behind those that tie with it. -/
def place (run : List α) (pivot : α) : List α :=
  let left := insertionPoint compareTo pivot run
  run.take left ++ pivot :: run.drop left

/-- `binarySort`: the elements that follow a sorted run are inserted into it. -/
def binarySort (run more : List α) : List α :=
  more.foldl (place compareTo) run

/-- A run of `minRun` elements at least, unless fewer are left. -/
def formRun (minRun : Nat) (elements : List α) : List α × List α :=
  let counted := countRunAndMakeAscending compareTo elements
  if counted.1.length < minRun then
    let force := if elements.length ≤ minRun then elements.length else minRun
    let missing := force - counted.1.length
    (binarySort compareTo counted.1 (counted.2.take missing), counted.2.drop missing)
  else counted

end Operations

/-! ## Runs are sorted -/

section Forming

variable {α : Type} {compareTo : α → α → Int}

theorem extendRun_append (goesOn : α → α → Bool) :
    ∀ (last : α) (elements : List α),
      (extendRun goesOn last elements).1 ++ (extendRun goesOn last elements).2 = elements
  | _, [] => rfl
  | last, next :: rest => by
      rw [extendRun]
      by_cases goes : goesOn next last = true
      · rw [if_pos goes]
        show next :: ((extendRun goesOn next rest).1 ++ (extendRun goesOn next rest).2) = next :: rest
        rw [extendRun_append goesOn next rest]
      · rw [if_neg goes]
        rfl

/-- A run is sorted by what each element has to satisfy with the one before it. -/
theorem extendRun_sorted (goesOn : α → α → Bool) (R : α → α → Prop) [IsTrans α R]
    (goes : ∀ last next, goesOn next last = true → R last next) :
    ∀ (last : α) (elements : List α), (last :: (extendRun goesOn last elements).1).Pairwise R
  | last, [] => List.pairwise_singleton R last
  | last, next :: rest => by
      rw [extendRun]
      by_cases isNext : goesOn next last = true
      · rw [if_pos isNext]
        apply List.Pairwise.cons_cons_of_trans (goes last next isNext)
        exact extendRun_sorted goesOn R goes next rest
      · rw [if_neg isNext]
        exact List.pairwise_singleton R last

/-- A list that descends strictly has no ties, so that it may be turned round. -/
theorem rearranges_reverse (contract : Contract compareTo) :
    ∀ {elements : List α}, elements.Pairwise (fun first second => compareTo second first < 0) →
      Rearranges compareTo elements elements.reverse
  | [], _ => Rearranges.refl []
  | first :: rest, descends => by
      obtain ⟨above, descendsRest⟩ := List.pairwise_cons.mp descends
      have turned := Rearranges.append_left [first] (rearranges_reverse contract descendsRest)
      have swapped : Rearranges compareTo ([first] ++ rest.reverse) (rest.reverse ++ [first]) := by
        apply Rearranges.swap contract
        intro element isFirst second isSecond tie
        rw [List.mem_singleton.mp isFirst] at tie
        have below := above second (List.mem_reverse.mp isSecond)
        have tieBack := contract.zero_iff.mp tie
        omega
      rw [List.reverse_cons]
      exact turned.trans swapped

/-- A run and what is left behind it, of some elements. -/
structure Formed (compareTo : α → α → Int) (elements : List α) (formed : List α × List α) :
    Prop where
  sorted : formed.1.Pairwise (Precedes compareTo)
  rearranges : Rearranges compareTo elements (formed.1 ++ formed.2)
  nonempty : elements ≠ [] → formed.1 ≠ []
  fewer : formed.1.length + formed.2.length = elements.length

theorem countRunAndMakeAscending_formed (contract : Contract compareTo) :
    ∀ elements : List α, Formed compareTo elements (countRunAndMakeAscending compareTo elements)
  | [] => ⟨List.Pairwise.nil, Rearranges.refl [], fun nonempty => nonempty, rfl⟩
  | [first] => ⟨List.pairwise_singleton _ first, Rearranges.refl [first],
      fun _ => List.cons_ne_nil first [], rfl⟩
  | first :: second :: rest => by
      rw [countRunAndMakeAscending]
      by_cases descends : compareTo second first < 0
      · rw [if_pos descends]
        have whole := extendRun_append (fun next last => compareTo next last < 0) second rest
        have : IsTrans α fun first second => compareTo second first < 0 :=
          ⟨fun _ _ _ early late => contract.lt_of_lt_of_le late early.le⟩
        have sorted := extendRun_sorted (fun next last => compareTo next last < 0)
          (fun first second => compareTo second first < 0)
          (fun _ _ goes => of_decide_eq_true goes) second rest
        dsimp only
        generalize extendRun (fun next last => decide (compareTo next last < 0)) second rest =
          extended at whole sorted
        have strictly : (first :: second :: extended.1).Pairwise
            (fun first second => compareTo second first < 0) :=
          List.Pairwise.cons_cons_of_trans descends sorted
        refine ⟨?_, ?_, ?_, ?_⟩
        · apply List.pairwise_reverse.mpr
          exact strictly.imp fun below => below.le
        · have turned := (rearranges_reverse contract strictly).append_right extended.2
          rw [← whole]
          exact turned
        · intro _
          simp
        · rw [← whole]
          simp
          omega
      · rw [if_neg descends]
        have whole := extendRun_append (fun next last => compareTo next last ≥ 0) second rest
        have : IsTrans α (Precedes compareTo) := ⟨fun _ _ _ => contract.trans⟩
        have sorted := extendRun_sorted (fun next last => compareTo next last ≥ 0)
          (Precedes compareTo)
          (fun _ _ goes => contract.nonneg_iff.mp (of_decide_eq_true goes)) second rest
        dsimp only
        generalize extendRun (fun next last => decide (compareTo next last ≥ 0)) second rest =
          extended at whole sorted
        have inOrder : Precedes compareTo first second := contract.nonneg_iff.mp (by omega)
        refine ⟨?_, ?_, ?_, ?_⟩
        · exact List.Pairwise.cons_cons_of_trans inOrder sorted
        · rw [← whole]
          exact Rearranges.refl _
        · intro _
          exact List.cons_ne_nil _ _
        · rw [← whole]
          simp
          omega

theorem place_sorted (contract : Contract compareTo) {run : List α}
    (sorted : run.Pairwise (Precedes compareTo)) (pivot : α) :
    (place compareTo run pivot).Pairwise (Precedes compareTo) := by
  obtain ⟨inFront, behind⟩ := insertionPoint_spec contract pivot sorted
  unfold place
  dsimp only
  generalize insertionPoint compareTo pivot run = left at inFront behind
  rw [← List.take_append_drop left run] at sorted
  obtain ⟨sortedFront, sortedBack, across⟩ := List.pairwise_append.mp sorted
  apply List.pairwise_append.mpr
  refine ⟨sortedFront, ?_, ?_⟩
  · apply List.pairwise_cons.mpr
    exact ⟨fun later isLater => (behind later isLater).le, sortedBack⟩
  · intro element isFront later isLater
    rcases List.mem_cons.mp isLater with isPivot | isBack
    · rw [isPivot]
      exact inFront element isFront
    · exact across element isFront later isBack

theorem place_rearranges (contract : Contract compareTo) {run : List α}
    (sorted : run.Pairwise (Precedes compareTo)) (pivot : α) :
    Rearranges compareTo (run ++ [pivot]) (place compareTo run pivot) := by
  obtain ⟨-, behind⟩ := insertionPoint_spec contract pivot sorted
  unfold place
  dsimp only
  generalize insertionPoint compareTo pivot run = left at behind
  have swapped : Rearranges compareTo (run.drop left ++ [pivot]) ([pivot] ++ run.drop left) := by
    apply Rearranges.swap contract
    intro element isBack second isPivot tie
    rw [List.mem_singleton.mp isPivot] at tie
    have above := behind element isBack
    have tieBack := contract.zero_iff.mp tie
    omega
  have moved := swapped.append_left (run.take left)
  rw [← List.append_assoc, List.take_append_drop] at moved
  exact moved

theorem length_place (run : List α) (pivot : α) :
    (place compareTo run pivot).length = run.length + 1 := by
  unfold place
  simp only [List.length_append, List.length_cons, List.length_take, List.length_drop]
  omega

/-- Binary insertion sorts what follows a run into it. -/
theorem binarySort_spec (contract : Contract compareTo) :
    ∀ {run : List α} (more : List α), run.Pairwise (Precedes compareTo) →
      (binarySort compareTo run more).Pairwise (Precedes compareTo) ∧
        Rearranges compareTo (run ++ more) (binarySort compareTo run more) ∧
        (binarySort compareTo run more).length = run.length + more.length
  | run, [], sorted => by
      rw [List.append_nil]
      exact ⟨sorted, Rearranges.refl run, rfl⟩
  | run, pivot :: more, sorted => by
      have placed := (place_rearranges contract sorted pivot).append_right more
      rw [List.append_assoc] at placed
      obtain ⟨sorted', rearranges, length⟩ :=
        binarySort_spec contract more (place_sorted contract sorted pivot)
      rw [length_place] at length
      refine ⟨sorted', placed.trans rearranges, ?_⟩
      rw [List.length_cons]
      show (binarySort compareTo (place compareTo run pivot) more).length = _
      omega

theorem formRun_formed (contract : Contract compareTo) (minRun : Nat) (elements : List α) :
    Formed compareTo elements (formRun compareTo minRun elements) := by
  have counted := countRunAndMakeAscending_formed contract elements
  unfold formRun
  dsimp only
  generalize countRunAndMakeAscending compareTo elements = formed at counted
  by_cases isShort : formed.1.length < minRun
  · rw [if_pos isShort]
    generalize (if elements.length ≤ minRun then elements.length else minRun) -
      formed.1.length = missing
    obtain ⟨sorted, rearranges, length⟩ :=
      binarySort_spec contract (formed.2.take missing) counted.sorted
    have fewer := counted.fewer
    refine ⟨sorted, ?_, ?_, ?_⟩
    · have inserted := rearranges.append_right (formed.2.drop missing)
      rw [List.append_assoc, List.take_append_drop] at inserted
      exact counted.rearranges.trans inserted
    · intro nonempty
      have positive := List.length_pos_iff.mpr (counted.nonempty nonempty)
      apply List.length_pos_iff.mp
      show 0 < (binarySort compareTo formed.1 (formed.2.take missing)).length
      omega
    · show (binarySort compareTo formed.1 (formed.2.take missing)).length +
        (formed.2.drop missing).length = elements.length
      rw [length, List.length_take, List.length_drop]
      omega
  · rw [if_neg isShort]
    exact counted

end Forming

end AndroidPatch.Library.TimSort
