import AndroidPatch.Library.TimSort.Merging
import AndroidPatch.Library.TimSort.Runs

/-!
Contract: `java.util.ComparableTimSort`, which `Arrays.sort` runs on an array of objects.

Owns:
- the stack of runs, and the two rules by which neighbours on it are merged;
- `sort` as a whole, with the exception of `mergeLo` and `mergeHi`;
- that under a comparison that keeps its contract the sort returns the stable sort of
  the array.

The array is the runs of the stack, the lowest one first, and what is still to be
visited. The room on the stack is not bounded here.
-/

namespace AndroidPatch.Library.TimSort

open Comparison

section Operations

/-- `MIN_MERGE` -/
def minMerge : Nat := 32

/-- The loop of `minRunLength`. -/
def minRunLoop : Nat → Nat → Nat → Nat
  | 0, n, r => n + r
  | fuel + 1, n, r => if n ≥ minMerge then minRunLoop fuel (n / 2) (r ||| n % 2) else n + r

/-- `minRunLength` -/
def minRunLength (n : Nat) : Nat :=
  minRunLoop n n 0

variable {α : Type} (compareTo : α → α → Int)

/-! ## The stack -/

/-- The runs that are waiting to be merged, the topmost one first, and the field
`minGallop`. -/
structure Stack (α : Type) where
  runs : List (List α)
  minGallop : Int
deriving DecidableEq, Repr

/-- The second half of `mergeAt`: the elements of the second run that come behind the
first one are in place. -/
def mergeFront (minGallop : Int) (run1 run2 : List α) : Except IllegalArgument (List α × Int) :=
  match run1.getLast? with
  | none => .ok (run2, minGallop)
  | some last =>
      let len2 := gallopLeft compareTo last run2 (run2.length - 1)
      if len2 = 0 then .ok (run1 ++ run2, minGallop)
      else
        (if run1.length ≤ len2 then mergeLo compareTo minGallop run1 (run2.take len2)
          else mergeHi compareTo minGallop run1 (run2.take len2)).map
          fun result => (result.1 ++ run2.drop len2, result.2)

/-- The part of `mergeAt` that is about the two runs: the elements of the first one that
come before the second are in place, then the rest is merged. -/
def mergeRuns (minGallop : Int) (run1 run2 : List α) : Except IllegalArgument (List α × Int) :=
  match run2.head? with
  | none => .ok (run1, minGallop)
  | some first =>
      let k := gallopRight compareTo first run1 0
      (mergeFront compareTo minGallop (run1.drop k) run2).map
        fun result => (run1.take k ++ result.1, result.2)

/-- `mergeAt(stackSize - 2 - above)`: the two runs under the topmost `above` ones. -/
def mergeAt (stack : Stack α) (above : Nat) : Except IllegalArgument (Stack α) :=
  match stack.runs.drop above with
  | run2 :: run1 :: below =>
      (mergeRuns compareTo stack.minGallop run1 run2).map fun result =>
        ⟨stack.runs.take above ++ result.1 :: below, result.2⟩
  | _ => .ok stack

/-- The rule of `mergeCollapse`, by the lengths of the runs: which neighbours are merged
next, if any. -/
def collapseRule : List Nat → Option Nat
  | top :: second :: third :: fourth :: _ =>
      if third ≤ second + top ∨ fourth ≤ second + third then some (if third < top then 1 else 0)
      else if second > top then none
      else some 0
  | [top, second, third] =>
      if third ≤ second + top then some (if third < top then 1 else 0)
      else if second > top then none
      else some 0
  | [top, second] => if second > top then none else some 0
  | _ => none

/-- The rule of `mergeForceCollapse`. -/
def forceRule : List Nat → Option Nat
  | top :: _ :: third :: _ => some (if third < top then 1 else 0)
  | [_, _] => some 0
  | _ => none

/-- Neighbours are merged as long as the rule says so. -/
def collapse (rule : List Nat → Option Nat) : Nat → Stack α → Except IllegalArgument (Stack α)
  | 0, stack => .ok stack
  | fuel + 1, stack =>
      match rule (stack.runs.map List.length) with
      | none => .ok stack
      | some above => (mergeAt compareTo stack above).bind (collapse rule fuel)

/-- `mergeCollapse` -/
def mergeCollapse (stack : Stack α) : Except IllegalArgument (Stack α) :=
  collapse compareTo collapseRule stack.runs.length stack

/-- `mergeForceCollapse` -/
def mergeForceCollapse (stack : Stack α) : Except IllegalArgument (Stack α) :=
  collapse compareTo forceRule stack.runs.length stack

/-! ## The sort -/

/-- The loop that goes through the array: a run is formed, pushed and merged. -/
def pushRuns (minRun : Nat) : Nat → Stack α → List α → Except IllegalArgument (Stack α)
  | 0, stack, _ => .ok stack
  | fuel + 1, stack, elements =>
      let formed := formRun compareTo minRun elements
      (mergeCollapse compareTo ⟨formed.1 :: stack.runs, stack.minGallop⟩).bind fun stack =>
        if formed.2.length = 0 then .ok stack else pushRuns minRun fuel stack formed.2

/-- `ComparableTimSort.sort` on the whole array. A short one is sorted without merges. -/
def sort (elements : List α) : Except IllegalArgument (List α) :=
  if elements.length < 2 then .ok elements
  else if elements.length < minMerge then
    let counted := countRunAndMakeAscending compareTo elements
    .ok (binarySort compareTo counted.1 counted.2)
  else
    (pushRuns compareTo (minRunLength elements.length) elements.length ⟨[], minGallopCount⟩
      elements).bind fun stack =>
        (mergeForceCollapse compareTo stack).map fun stack => stack.runs.reverse.flatten

end Operations

/-! ## Neighbours are merged -/

section Merging

variable {α : Type} {compareTo : α → α → Int}

variable {result : Except IllegalArgument (List α × Int)} {front middle back : List α}

/-- A merge in front of what is in place. -/
theorem Merges.append_back (contract : Contract compareTo)
    (merges : Merges compareTo middle result)
    (sortedBack : back.Pairwise (Precedes compareTo))
    (backLast : ∀ element ∈ middle, ∀ later ∈ back, compareTo element later ≤ 0) :
    Merges compareTo (middle ++ back) (result.map fun result => (result.1 ++ back, result.2)) := by
  obtain ⟨merged, minGallop, isMerged, sorted, rearranges⟩ := merges
  refine ⟨merged ++ back, minGallop, by rw [isMerged]; rfl, ?_, rearranges.append_right back⟩
  apply List.pairwise_append.mpr
  refine ⟨sorted, sortedBack, ?_⟩
  intro element isMember later isLater
  exact backLast element ((rearranges.mem_iff contract element).mp isMember) later isLater

/-- A merge behind what is in place. -/
theorem Merges.append_front (contract : Contract compareTo)
    (merges : Merges compareTo middle result)
    (sortedFront : front.Pairwise (Precedes compareTo))
    (frontFirst : ∀ element ∈ front, ∀ later ∈ middle, compareTo element later ≤ 0) :
    Merges compareTo (front ++ middle)
      (result.map fun result => (front ++ result.1, result.2)) := by
  obtain ⟨merged, minGallop, isMerged, sorted, rearranges⟩ := merges
  refine ⟨front ++ merged, minGallop, by rw [isMerged]; rfl, ?_, rearranges.append_left front⟩
  apply List.pairwise_append.mpr
  refine ⟨sortedFront, sorted, ?_⟩
  intro element isFront later isLater
  exact frontFirst element isFront later ((rearranges.mem_iff contract later).mp isLater)

theorem mergeFront_merges (contract : Contract compareTo) {run1 run2 : List α} (minGallop : Int)
    {first : α} (isFirst : run2.head? = some first)
    (sorted1 : run1.Pairwise (Precedes compareTo)) (sorted2 : run2.Pairwise (Precedes compareTo))
    (before : ∀ element ∈ run1, compareTo first element < 0) :
    Merges compareTo (run1 ++ run2) (mergeFront compareTo minGallop run1 run2) := by
  unfold mergeFront
  cases isLast : run1.getLast? with
  | none =>
      rw [List.getLast?_eq_none_iff.mp isLast]
      exact ⟨run2, minGallop, rfl, sorted2, Rearranges.refl run2⟩
  | some last =>
      have inRange : run2.length - 1 < run2.length := by
        have positive := List.length_pos_iff.mpr (List.ne_nil_of_mem (List.mem_of_mem_head? isFirst))
        omega
      obtain ⟨behind, inPlace⟩ := gallopLeft_spec contract last sorted2 inRange
      dsimp only
      generalize gallopLeft compareTo last run2 (run2.length - 1) = len2 at behind inPlace
      by_cases noneLeft : len2 = 0
      · rw [if_pos noneLeft]
        refine ⟨run1 ++ run2, minGallop, rfl, ?_, Rearranges.refl _⟩
        apply List.pairwise_append.mpr
        refine ⟨sorted1, sorted2, ?_⟩
        intro element isElement later isLater
        rw [noneLeft, List.drop_zero] at inPlace
        exact contract.trans (precedes_last contract sorted1 isLast isElement)
          (inPlace later isLater)
      · rw [if_neg noneLeft]
        have split := List.take_append_drop len2 run2
        have sortedSplit := sorted2
        rw [← split] at sortedSplit
        obtain ⟨sortedTaken, sortedBack, across⟩ := List.pairwise_append.mp sortedSplit
        have interleaved : Interleaved compareTo run1 (run2.take len2) first last := by
          refine ⟨sorted1, sortedTaken, ?_, isLast, before, behind⟩
          rw [List.head?_take, if_neg noneLeft, isFirst]
        have merges : Merges compareTo (run1 ++ run2.take len2)
            (if run1.length ≤ len2 then mergeLo compareTo minGallop run1 (run2.take len2)
              else mergeHi compareTo minGallop run1 (run2.take len2)) := by
          split_ifs
          · exact mergeLo_merges interleaved contract minGallop
          · exact mergeHi_merges interleaved contract minGallop
        have whole := merges.append_back contract sortedBack (by
          intro element isMiddle later isBack
          rcases List.mem_append.mp isMiddle with isElement | isTaken
          · exact contract.trans (precedes_last contract sorted1 isLast isElement)
              (inPlace later isBack)
          · exact across element isTaken later isBack)
        rw [List.append_assoc, split] at whole
        exact whole

/-- **Two sorted runs are merged.** -/
theorem mergeRuns_merges (contract : Contract compareTo) {run1 run2 : List α} (minGallop : Int)
    (nonempty1 : run1 ≠ []) (nonempty2 : run2 ≠ [])
    (sorted1 : run1.Pairwise (Precedes compareTo)) (sorted2 : run2.Pairwise (Precedes compareTo)) :
    Merges compareTo (run1 ++ run2) (mergeRuns compareTo minGallop run1 run2) := by
  unfold mergeRuns
  cases isFirst : run2.head? with
  | none => exact absurd (List.head?_eq_none_iff.mp isFirst) nonempty2
  | some first =>
      obtain ⟨inPlace, before⟩ := gallopRight_spec contract first sorted1
        (List.length_pos_iff.mpr nonempty1)
      dsimp only
      generalize gallopRight compareTo first run1 0 = k at inPlace before
      have split := List.take_append_drop k run1
      have sortedSplit := sorted1
      rw [← split] at sortedSplit
      obtain ⟨sortedFront, sortedRest, across⟩ := List.pairwise_append.mp sortedSplit
      have merges := mergeFront_merges contract minGallop isFirst sortedRest sorted2 before
      have whole := merges.append_front contract sortedFront (by
        intro element isFront later isLater
        rcases List.mem_append.mp isLater with isRest | isRun2
        · exact across element isFront later isRest
        · exact contract.trans (inPlace element isFront)
            (first_precedes contract sorted2 isFirst isRun2))
      rw [← List.append_assoc, split] at whole
      exact whole

end Merging

/-! ## The stack keeps the elements -/

section Stacks

variable {α : Type} {compareTo : α → α → Int} {original rest : List α} {stack : Stack α}

/-- The runs on the stack are sorted, and with what is still to be visited they
rearrange the array. -/
structure Stacked (compareTo : α → α → Int) (original rest : List α) (stack : Stack α) :
    Prop where
  runs : ∀ run ∈ stack.runs, run ≠ [] ∧ run.Pairwise (Precedes compareTo)
  rearranges : Rearranges compareTo original (stack.runs.reverse.flatten ++ rest)

/-- A rule names two runs that are there. -/
def Sound (rule : List Nat → Option Nat) : Prop :=
  ∀ lengths above, rule lengths = some above → above + 2 ≤ lengths.length

theorem Stacked.mergeAt (stacked : Stacked compareTo original rest stack)
    (contract : Contract compareTo) {above : Nat} (enough : above + 2 ≤ stack.runs.length) :
    ∃ later, mergeAt compareTo stack above = .ok later ∧
      Stacked compareTo original rest later ∧ later.runs.length < stack.runs.length := by
  have split := List.take_append_drop above stack.runs
  have length : (stack.runs.drop above).length = stack.runs.length - above := List.length_drop
  unfold TimSort.mergeAt
  rcases isPair : stack.runs.drop above with _ | ⟨run2, _ | ⟨run1, below⟩⟩
  · rw [isPair, List.length_nil] at length
    omega
  · rw [isPair, List.length_singleton] at length
    omega
  · rw [isPair] at split length
    have isRun : ∀ run ∈ run2 :: run1 :: below, run ∈ stack.runs := by
      intro run isMember
      rw [← split]
      exact List.mem_append_right _ isMember
    obtain ⟨nonempty1, sorted1⟩ := stacked.runs run1 (isRun run1 (by simp))
    obtain ⟨nonempty2, sorted2⟩ := stacked.runs run2 (isRun run2 (by simp))
    obtain ⟨merged, minGallop, isMerged, sorted, rearranges⟩ :=
      mergeRuns_merges contract stack.minGallop nonempty1 nonempty2 sorted1 sorted2
    dsimp only
    rw [isMerged]
    refine ⟨⟨stack.runs.take above ++ merged :: below, minGallop⟩, rfl, ⟨?_, ?_⟩, ?_⟩
    · intro run isMember
      rcases List.mem_append.mp isMember with isAbove | isLower
      · exact stacked.runs run (List.mem_of_mem_take isAbove)
      · rcases List.mem_cons.mp isLower with isMerged | isBelow
        · rw [isMerged]
          refine ⟨?_, sorted⟩
          obtain ⟨element, isElement⟩ := List.exists_mem_of_ne_nil run1 nonempty1
          apply List.ne_nil_of_mem
          exact (rearranges.mem_iff contract element).mpr (List.mem_append_left run2 isElement)
        · exact stacked.runs run (isRun run (by simp [isBelow]))
    · have before := stacked.rearranges
      rw [← split] at before
      simp only [List.reverse_append, List.reverse_cons, List.flatten_append, List.flatten_cons,
        List.flatten_nil, List.append_nil, List.append_assoc] at before ⊢
      have inside := (rearranges.append_right
        ((stack.runs.take above).reverse.flatten ++ rest)).append_left below.reverse.flatten
      rw [List.append_assoc run1] at inside
      exact before.trans inside
    · simp only [List.length_append, List.length_cons, List.length_take] at length ⊢
      omega

/-- Merging goes on until the rule asks for no more. -/
theorem Stacked.collapse (contract : Contract compareTo) {rule : List Nat → Option Nat}
    (sound : Sound rule) :
    ∀ (fuel : Nat) {stack : Stack α}, stack.runs.length ≤ fuel →
      Stacked compareTo original rest stack →
      ∃ later, collapse compareTo rule fuel stack = .ok later ∧
        Stacked compareTo original rest later ∧ rule (later.runs.map List.length) = none
  | 0, stack, enough, stacked => by
      refine ⟨stack, rfl, stacked, ?_⟩
      cases asked : rule (stack.runs.map List.length) with
      | none => rfl
      | some above =>
          have there := sound _ _ asked
          rw [List.length_map] at there
          omega
  | fuel + 1, stack, enough, stacked => by
      rw [TimSort.collapse]
      cases asked : rule (stack.runs.map List.length) with
      | none => exact ⟨stack, rfl, stacked, asked⟩
      | some above =>
          have there := sound _ _ asked
          rw [List.length_map] at there
          obtain ⟨merged, isMerged, stackedMerged, fewer⟩ := stacked.mergeAt contract there
          dsimp only
          rw [isMerged]
          exact Stacked.collapse contract sound fuel (by omega) stackedMerged

theorem collapseRule_sound : Sound collapseRule := by
  intro lengths above asked
  rcases lengths with _ | ⟨top, _ | ⟨second, _ | ⟨third, _ | ⟨fourth, others⟩⟩⟩⟩
  · cases asked
  · cases asked
  · simp only [collapseRule] at asked
    split_ifs at asked
    simp only [Option.some.injEq] at asked
    simp only [List.length_cons]
    omega
  · simp only [collapseRule] at asked
    simp only [List.length_cons]
    split_ifs at asked
    all_goals
      simp only [Option.some.injEq] at asked
      omega
  · simp only [collapseRule] at asked
    simp only [List.length_cons]
    split_ifs at asked
    all_goals
      simp only [Option.some.injEq] at asked
      omega

theorem forceRule_sound : Sound forceRule := by
  intro lengths above asked
  rcases lengths with _ | ⟨top, _ | ⟨second, _ | ⟨third, others⟩⟩⟩
  · cases asked
  · cases asked
  · simp only [forceRule, Option.some.injEq] at asked
    simp only [List.length_cons]
    omega
  · simp only [forceRule, Option.some.injEq] at asked
    simp only [List.length_cons]
    split_ifs at asked
    · omega
    · omega

/-- `mergeForceCollapse` leaves one run. -/
theorem length_le_one_of_forceRule {lengths : List Nat} (noMore : forceRule lengths = none) :
    lengths.length ≤ 1 := by
  rcases lengths with _ | ⟨top, _ | ⟨second, _ | ⟨third, others⟩⟩⟩
  · exact Nat.zero_le 1
  · exact le_rfl
  · cases noMore
  · cases noMore

/-- The whole array goes through the stack. -/
theorem Stacked.pushRuns (contract : Contract compareTo) (minRun : Nat) :
    ∀ (fuel : Nat) {stack : Stack α} {elements : List α}, elements.length ≤ fuel →
      elements ≠ [] → Stacked compareTo original elements stack →
      ∃ later, pushRuns compareTo minRun fuel stack elements = .ok later ∧
        Stacked compareTo original [] later
  | 0, stack, elements, enough, nonempty, stacked => by
      have positive := List.length_pos_iff.mpr nonempty
      omega
  | fuel + 1, stack, elements, enough, nonempty, stacked => by
      have formed := formRun_formed contract minRun elements
      rw [TimSort.pushRuns]
      generalize formRun compareTo minRun elements = run at formed
      have fewer := formed.fewer
      have positive := List.length_pos_iff.mpr (formed.nonempty nonempty)
      have pushed : Stacked compareTo original run.2 ⟨run.1 :: stack.runs, stack.minGallop⟩ := by
        refine ⟨?_, ?_⟩
        · intro other isMember
          rcases List.mem_cons.mp isMember with isRun | isBelow
          · rw [isRun]
            exact ⟨formed.nonempty nonempty, formed.sorted⟩
          · exact stacked.runs other isBelow
        · have before := stacked.rearranges.trans
            (formed.rearranges.append_left stack.runs.reverse.flatten)
          simp only [List.reverse_cons, List.flatten_append, List.flatten_cons, List.flatten_nil,
            List.append_nil, List.append_assoc]
          exact before
      obtain ⟨collapsed, isCollapsed, stackedCollapsed, -⟩ :=
        Stacked.collapse contract collapseRule_sound _ le_rfl pushed
      unfold mergeCollapse
      rw [isCollapsed]
      show ∃ later, (if run.2.length = 0 then Except.ok collapsed
        else TimSort.pushRuns compareTo minRun fuel collapsed run.2) = .ok later ∧ _
      by_cases isLast : run.2.length = 0
      · rw [if_pos isLast]
        rw [List.length_eq_zero_iff.mp isLast] at stackedCollapsed
        exact ⟨collapsed, rfl, stackedCollapsed⟩
      · rw [if_neg isLast]
        exact Stacked.pushRuns contract minRun fuel (by omega)
          (List.length_pos_iff.mp (by omega)) stackedCollapsed

end Stacks

/-- **The sort returns**, and what it returns is the stable sort of the array, whenever
the comparison keeps its contract. -/
theorem sort_eq {α : Type} {compareTo : α → α → Int} (contract : Contract compareTo)
    (elements : List α) :
    sort compareTo elements = .ok (elements.insertionSort (Precedes compareTo)) := by
  unfold sort
  by_cases isTrivial : elements.length < 2
  · rw [if_pos isTrivial]
    have sorted : elements.Pairwise (Precedes compareTo) := by
      rcases elements with _ | ⟨element, _ | ⟨next, rest⟩⟩
      · exact List.Pairwise.nil
      · exact List.pairwise_singleton _ element
      · simp only [List.length_cons] at isTrivial
        omega
    rw [← (Rearranges.refl elements).eq_insertionSort contract sorted]
  · rw [if_neg isTrivial]
    by_cases isShort : elements.length < minMerge
    · rw [if_pos isShort]
      have counted := countRunAndMakeAscending_formed contract elements
      obtain ⟨sorted, rearranges, -⟩ := binarySort_spec contract
        (countRunAndMakeAscending compareTo elements).2 counted.sorted
      rw [← (counted.rearranges.trans rearranges).eq_insertionSort contract sorted]
    · rw [if_neg isShort]
      have started : Stacked compareTo elements elements ⟨[], minGallopCount⟩ :=
        ⟨fun run isMember => absurd isMember List.not_mem_nil, Rearranges.refl elements⟩
      have nonempty : elements ≠ [] := List.length_pos_iff.mp (by omega)
      obtain ⟨pushed, isPushed, stacked⟩ := Stacked.pushRuns contract
        (minRunLength elements.length) elements.length le_rfl nonempty started
      obtain ⟨final, isFinal, stackedFinal, noMore⟩ :=
        Stacked.collapse contract forceRule_sound pushed.runs.length le_rfl stacked
      have oneRun := length_le_one_of_forceRule noMore
      rw [List.length_map] at oneRun
      have sorted : final.runs.reverse.flatten.Pairwise (Precedes compareTo) := by
        rcases isRuns : final.runs with _ | ⟨run, _ | ⟨next, others⟩⟩
        · exact List.Pairwise.nil
        · have isRun := stackedFinal.runs run (by rw [isRuns]; exact List.mem_cons_self)
          rw [List.reverse_singleton, List.flatten_singleton]
          exact isRun.2
        · rw [isRuns] at oneRun
          simp only [List.length_cons] at oneRun
          omega
      have rearranges := stackedFinal.rearranges
      rw [List.append_nil] at rearranges
      unfold mergeForceCollapse
      rw [isPushed]
      show (collapse compareTo forceRule pushed.runs.length pushed).map _ = _
      rw [isFinal, ← rearranges.eq_insertionSort contract sorted]
      rfl

/-- Without the contract the exception is there: three kinds of elements of which each
precedes the next, in a circle. -/
example : sort (fun first second : Nat => if first % 3 = second % 3 then 0
    else if (first + 1) % 3 = second % 3 then -1 else 1)
    ((List.range 33).map fun n => 4 * n % 23) = .error contractViolated := by
  decide +kernel

end AndroidPatch.Library.TimSort
