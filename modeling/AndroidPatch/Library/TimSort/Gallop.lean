import AndroidPatch.Library.Comparison

/-!
Contract: the searches of `java.util.ComparableTimSort`.

Owns:
- the binary search that ends both gallops and places the elements of `binarySort`;
- the gallop away from a hint, and with it `gallopLeft` and `gallopRight`;
- where the searches stop in a sorted run.

Every loop has as much fuel as it can use. Offsets are natural numbers: where the
doubled offset of the source overflows, it is cut to the largest one allowed, as it is
here when it passes that one.
-/

namespace AndroidPatch.Library.TimSort

open Comparison

/-! ## Positions -/

/-- The loop that halves the range between `low` and `high`. -/
def binarySearch (before : Nat → Bool) : Nat → Nat → Nat → Nat
  | 0, low, _ => low
  | fuel + 1, low, high =>
      if low < high then
        let middle := low + (high - low) / 2
        if before middle then binarySearch before fuel (middle + 1) high
        else binarySearch before fuel low middle
      else low

/-- The loop that doubles the offset from the hint, up to `maxOfs`. It returns the last
offset from which it went on, and the one at which it stopped. -/
def stretch (goesOn : Nat → Bool) (maxOfs : Nat) : Nat → Nat → Nat → Nat × Nat
  | 0, lastOfs, ofs => (lastOfs, ofs)
  | fuel + 1, lastOfs, ofs =>
      if ofs < maxOfs ∧ goesOn ofs then stretch goesOn maxOfs fuel ofs (2 * ofs + 1)
      else (lastOfs, ofs)

/-- Both gallops: to the right of the hint where it is before the position that is
looked for, else to the left. -/
def gallop (before : Nat → Bool) (length hint : Nat) : Nat :=
  if before hint then
    let maxOfs := length - hint
    let reach := stretch (fun ofs => before (hint + ofs)) maxOfs maxOfs 0 1
    binarySearch before length (hint + reach.1 + 1) (hint + min reach.2 maxOfs)
  else
    let maxOfs := hint + 1
    let reach := stretch (fun ofs => ! before (hint - ofs)) maxOfs maxOfs 0 1
    binarySearch before length (hint + 1 - min reach.2 maxOfs) (hint - reach.1)

/-- The positions below this one are before it, those from it on are not. -/
structure Splits (before : Nat → Bool) (length position : Nat) : Prop where
  le : position ≤ length
  below : ∀ index < position, before index = true
  above : ∀ index, position ≤ index → index < length → before index = false

/-- What is before the position stands in front of what is not. -/
def Downward (before : Nat → Bool) (length : Nat) : Prop :=
  ∀ index later, index ≤ later → later < length → before later = true → before index = true

section Searches

variable {before : Nat → Bool} {length : Nat}

theorem Downward.above (downward : Downward before length) {index later : Nat}
    (isLater : index ≤ later) (inRange : later < length) (notBefore : before index = false) :
    before later = false := by
  by_contra isBefore
  have isBefore := downward index later isLater inRange (by simpa using isBefore)
  rw [notBefore] at isBefore
  exact Bool.false_ne_true isBefore

theorem binarySearch_splits (downward : Downward before length) :
    ∀ (fuel low high : Nat), high - low ≤ fuel → low ≤ high → high ≤ length →
      (∀ index < low, before index = true) →
      (∀ index, high ≤ index → index < length → before index = false) →
      Splits before length (binarySearch before fuel low high)
  | 0, low, high, enough, inOrder, inRange, below, above => by
      have closed : low = high := by omega
      subst closed
      exact ⟨inRange, below, above⟩
  | fuel + 1, low, high, enough, inOrder, inRange, below, above => by
      rw [binarySearch]
      by_cases isOpen : low < high
      · rw [if_pos isOpen]
        dsimp only
        by_cases isBefore : before (low + (high - low) / 2) = true
        · rw [if_pos isBefore]
          apply binarySearch_splits downward fuel _ high (by omega) (by omega) inRange
          · intro index isBelow
            exact downward index _ (by omega) (by omega) isBefore
          · exact above
        · rw [if_neg isBefore]
          apply binarySearch_splits downward fuel low _ (by omega) (by omega) (by omega) below
          intro index isAbove inRange'
          exact downward.above isAbove inRange' (by simpa using isBefore)
      · rw [if_neg isOpen]
        have closed : low = high := by omega
        subst closed
        exact ⟨inRange, below, above⟩

/-- Where the stretching ends: it went on from the first offset, and not from the
second unless that one is too large. -/
structure Stretched (goesOn : Nat → Bool) (maxOfs : Nat) (reach : Nat × Nat) : Prop where
  inOrder : reach.1 < reach.2
  inRange : reach.1 < maxOfs
  wentOn : goesOn reach.1 = true
  stopped : maxOfs ≤ reach.2 ∨ goesOn reach.2 = false

theorem stretch_stretched {goesOn : Nat → Bool} {maxOfs : Nat} :
    ∀ (fuel lastOfs ofs : Nat), maxOfs ≤ ofs + fuel → lastOfs < ofs → lastOfs < maxOfs →
      goesOn lastOfs = true → Stretched goesOn maxOfs (stretch goesOn maxOfs fuel lastOfs ofs)
  | 0, lastOfs, ofs, enough, inOrder, inRange, wentOn =>
      ⟨inOrder, inRange, wentOn, Or.inl enough⟩
  | fuel + 1, lastOfs, ofs, enough, inOrder, inRange, wentOn => by
      rw [stretch]
      by_cases goes : ofs < maxOfs ∧ goesOn ofs = true
      · rw [if_pos goes]
        exact stretch_stretched fuel ofs (2 * ofs + 1) (by omega) (by omega) goes.1 goes.2
      · rw [if_neg goes]
        refine ⟨inOrder, inRange, wentOn, ?_⟩
        by_cases tooLarge : maxOfs ≤ ofs
        · exact Or.inl tooLarge
        · apply Or.inr
          by_contra goesOn'
          exact goes ⟨by omega, by simpa using goesOn'⟩

/-- **A gallop finds the split**, whatever the hint. -/
theorem gallop_splits (downward : Downward before length) {hint : Nat} (inRange : hint < length) :
    Splits before length (gallop before length hint) := by
  unfold gallop
  by_cases isBefore : before hint = true
  · rw [if_pos isBefore]
    dsimp only
    have reached : Stretched (fun ofs => before (hint + ofs)) (length - hint)
        (stretch (fun ofs => before (hint + ofs)) (length - hint) (length - hint) 0 1) := by
      apply stretch_stretched
      · omega
      · omega
      · omega
      · exact isBefore
    revert reached
    generalize stretch (fun ofs => before (hint + ofs)) (length - hint) (length - hint) 0 1 = reach
    intro reached
    have inOrder := reached.inOrder
    have inRange' := reached.inRange
    apply binarySearch_splits downward
    · omega
    · omega
    · omega
    · intro index isBelow
      exact downward index (hint + reach.1) (by omega) (by omega) reached.wentOn
    · intro index isAbove inRange
      rcases reached.stopped with tooLarge | stopped
      · omega
      · exact downward.above (by omega) inRange stopped
  · rw [if_neg isBefore]
    dsimp only
    have reached : Stretched (fun ofs => ! before (hint - ofs)) (hint + 1)
        (stretch (fun ofs => ! before (hint - ofs)) (hint + 1) (hint + 1) 0 1) := by
      apply stretch_stretched
      · omega
      · omega
      · omega
      · simpa using isBefore
    revert reached
    generalize stretch (fun ofs => ! before (hint - ofs)) (hint + 1) (hint + 1) 0 1 = reach
    intro reached
    have inOrder := reached.inOrder
    have inRange' := reached.inRange
    apply binarySearch_splits downward
    · omega
    · omega
    · omega
    · intro index isBelow
      rcases reached.stopped with tooLarge | stopped
      · omega
      · exact downward index (hint - reach.2) (by omega) (by omega) (by simpa using stopped)
    · intro index isAbove inRange
      exact downward.above isAbove inRange (by simpa using reached.wentOn)

end Searches

/-! ## Runs -/

section Runs

variable {α : Type}

/-- The element at a position passes the test. -/
def passesAt (run : List α) (test : α → Bool) (index : Nat) : Bool :=
  run[index]?.any test

theorem passesAt_of_lt {run : List α} {test : α → Bool} {index : Nat}
    (inRange : index < run.length) : passesAt run test index = test run[index] := by
  rw [passesAt, List.getElem?_eq_getElem inRange, Option.any_some]

/-- The elements in front of a split pass the test, and no others. -/
theorem Splits.elements {run : List α} {test : α → Bool} {position : Nat}
    (splits : Splits (passesAt run test) run.length position) :
    (∀ element ∈ run.take position, test element = true) ∧
      ∀ element ∈ run.drop position, test element = false := by
  constructor
  · intro element isTaken
    obtain ⟨index, inRange, isElement⟩ := List.mem_iff_getElem.mp isTaken
    rw [List.length_take] at inRange
    rw [List.getElem_take] at isElement
    have passes := splits.below index (by omega)
    rw [passesAt_of_lt (by omega), isElement] at passes
    exact passes
  · intro element isLeft
    obtain ⟨index, inRange, isElement⟩ := List.mem_iff_getElem.mp isLeft
    rw [List.length_drop] at inRange
    rw [List.getElem_drop] at isElement
    have fails := splits.above (position + index) (by omega) (by omega)
    rw [passesAt_of_lt (by omega), isElement] at fails
    exact fails

variable {compareTo : α → α → Int}

/-- In a sorted run a test that smaller elements pass as well goes downward. -/
theorem downward_of_sorted (contract : Contract compareTo) {run : List α} {test : α → Bool}
    (sorted : run.Pairwise (Precedes compareTo))
    (smaller : ∀ first second, compareTo first second ≤ 0 → test second = true →
      test first = true) : Downward (passesAt run test) run.length := by
  intro index later inOrder inRange passes
  rw [passesAt_of_lt inRange] at passes
  rw [passesAt_of_lt (by omega)]
  apply smaller _ _ _ passes
  by_cases same : index = later
  · subst same
    rw [contract.self]
  · exact List.pairwise_iff_getElem.mp sorted index later (by omega) inRange (by omega)

variable (compareTo)

/-- `gallopLeft`: in front of the elements that tie with the key. -/
def gallopLeft (key : α) (run : List α) (hint : Nat) : Nat :=
  gallop (passesAt run fun element => compareTo key element > 0) run.length hint

/-- `gallopRight`: behind the elements that tie with the key. -/
def gallopRight (key : α) (run : List α) (hint : Nat) : Nat :=
  gallop (passesAt run fun element => ! compareTo key element < 0) run.length hint

/-- The search of `binarySort`, behind the elements that tie with the pivot. -/
def insertionPoint (pivot : α) (run : List α) : Nat :=
  binarySearch (passesAt run fun element => ! compareTo pivot element < 0) run.length 0 run.length

variable {compareTo}

theorem gallopLeft_spec (contract : Contract compareTo) (key : α) {run : List α}
    (sorted : run.Pairwise (Precedes compareTo)) {hint : Nat} (inRange : hint < run.length) :
    (∀ element ∈ run.take (gallopLeft compareTo key run hint), compareTo element key < 0) ∧
      ∀ element ∈ run.drop (gallopLeft compareTo key run hint), compareTo key element ≤ 0 := by
  have downward : Downward (passesAt run fun element => compareTo key element > 0) run.length := by
    apply downward_of_sorted contract sorted
    intro first second inOrder passes
    have below := contract.pos_iff.mp (of_decide_eq_true passes)
    exact decide_eq_true (contract.pos_iff.mpr (contract.lt_of_le_of_lt inOrder below))
  obtain ⟨front, back⟩ := (gallop_splits downward inRange).elements
  constructor
  · intro element isFront
    exact contract.pos_iff.mp (of_decide_eq_true (front element isFront))
  · intro element isBack
    have notAbove := of_decide_eq_false (back element isBack)
    omega

/-- The test of the other two searches. -/
theorem downward_right (contract : Contract compareTo) (key : α) {run : List α}
    (sorted : run.Pairwise (Precedes compareTo)) :
    Downward (passesAt run fun element => ! compareTo key element < 0) run.length := by
  apply downward_of_sorted contract sorted
  intro first second inOrder passes
  have notBelow : ¬ compareTo key second < 0 := by simpa using passes
  have above : compareTo second key ≤ 0 := contract.nonneg_iff.mp (by omega)
  have notBelow' := contract.nonneg_iff.mpr (contract.trans inOrder above)
  simpa using notBelow'

theorem Splits.right (contract : Contract compareTo) {key : α} {run : List α} {position : Nat}
    (splits : Splits (passesAt run fun element => ! compareTo key element < 0) run.length position) :
    (∀ element ∈ run.take position, compareTo element key ≤ 0) ∧
      ∀ element ∈ run.drop position, compareTo key element < 0 := by
  obtain ⟨front, back⟩ := splits.elements
  constructor
  · intro element isFront
    have notBelow := front element isFront
    exact contract.nonneg_iff.mp (by simpa using notBelow)
  · intro element isBack
    simpa using back element isBack

theorem gallopRight_spec (contract : Contract compareTo) (key : α) {run : List α}
    (sorted : run.Pairwise (Precedes compareTo)) {hint : Nat} (inRange : hint < run.length) :
    (∀ element ∈ run.take (gallopRight compareTo key run hint), compareTo element key ≤ 0) ∧
      ∀ element ∈ run.drop (gallopRight compareTo key run hint), compareTo key element < 0 :=
  (gallop_splits (downward_right contract key sorted) inRange).right contract

theorem insertionPoint_spec (contract : Contract compareTo) (pivot : α) {run : List α}
    (sorted : run.Pairwise (Precedes compareTo)) :
    (∀ element ∈ run.take (insertionPoint compareTo pivot run), compareTo element pivot ≤ 0) ∧
      ∀ element ∈ run.drop (insertionPoint compareTo pivot run), compareTo pivot element < 0 := by
  have splits := binarySearch_splits (downward_right contract pivot sorted) run.length 0 run.length
    (by omega) (by omega) le_rfl (by omega) (by omega)
  exact splits.right contract

end Runs

end AndroidPatch.Library.TimSort
