import AndroidPatch.Library.TimSort.Gallop

/-!
Contract: the merge of two neighbouring runs by `java.util.ComparableTimSort`.

Owns:
- `mergeLo` and `mergeHi` with their galloping and with the exception that ends a merge
  whose copied run was used up;
- that the one merges by the comparison, and the other one by its mirror image.

`mergeLo` copies the first run and writes from the front, `mergeHi` copies the second
one and writes from the back. They are one algorithm up to what `Side` says: read from
its back, the second one merges under the mirrored comparison. The elements that are
still to be written are kept as lists, since neither writes over what it has yet to
read.
-/

namespace AndroidPatch.Library.TimSort

open Comparison

/-- `java.lang.IllegalArgumentException`. -/
structure IllegalArgument where
  message : String
deriving DecidableEq, Repr

def contractViolated : IllegalArgument := ⟨"Comparison method violates its general contract!"⟩

/-- What has been written, and what is left of the run that was copied to `tmp` and of
the other one, all in the order of writing. -/
structure MergeState (α : Type) where
  written : List α
  tmp : List α
  other : List α
deriving DecidableEq, Repr

/-- What differs between the two directions: whether the next element of the other run
is written before that of `tmp`, how many elements of either run a gallop passes for a
key, and which run is galloped over first. -/
structure Side (α : Type) where
  otherFirst : α → α → Bool
  countTmp : α → List α → Nat
  countOther : α → List α → Nat
  tmpFirst : Bool

/-- The loop takes elements one by one and counts how often the same run wins, or it
gallops. -/
inductive Phase where
  | oneByOne (tmpCount otherCount : Nat)
  | galloping
deriving DecidableEq, Repr

/-- One half of a round of galloping leaves the loop, or it goes on with the number of
elements passed. -/
inductive Half (α : Type) where
  | breaks (state : MergeState α)
  | goesOn (count : Nat) (state : MergeState α)

section Operations

variable {α : Type}

namespace MergeState

def takeTmp (state : MergeState α) (count : Nat) : MergeState α :=
  ⟨state.written ++ state.tmp.take count, state.tmp.drop count, state.other⟩

def takeOther (state : MergeState α) (count : Nat) : MergeState α :=
  ⟨state.written ++ state.other.take count, state.tmp, state.other.drop count⟩

def size (state : MergeState α) : Nat :=
  state.tmp.length + state.other.length

variable (state : MergeState α) (count : Nat)

@[simp] theorem takeTmp_other : (state.takeTmp count).other = state.other := rfl

@[simp] theorem takeOther_tmp : (state.takeOther count).tmp = state.tmp := rfl

@[simp] theorem length_takeTmp : (state.takeTmp count).tmp.length = state.tmp.length - count :=
  List.length_drop

@[simp] theorem length_takeOther :
    (state.takeOther count).other.length = state.other.length - count :=
  List.length_drop

end MergeState

namespace Side

variable (side : Side α)

/-- A gallop over `tmp`, and one element of the other run. -/
def gallopTmp (state : MergeState α) : Half α :=
  match state.other with
  | [] => .breaks state
  | key :: _ =>
      let count := side.countTmp key state.tmp
      let state := state.takeTmp count
      if count ≠ 0 ∧ state.tmp.length ≤ 1 then .breaks state
      else
        let state := state.takeOther 1
        if state.other.length = 0 then .breaks state else .goesOn count state

/-- A gallop over the other run, and one element of `tmp`. -/
def gallopOther (state : MergeState α) : Half α :=
  match state.tmp with
  | [] => .breaks state
  | key :: _ =>
      let count := side.countOther key state.other
      let state := state.takeOther count
      if count ≠ 0 ∧ state.other.length = 0 then .breaks state
      else
        let state := state.takeTmp 1
        if state.tmp.length = 1 then .breaks state else .goesOn count state

def firstHalf (state : MergeState α) : Half α :=
  if side.tmpFirst then side.gallopTmp state else side.gallopOther state

def secondHalf (state : MergeState α) : Half α :=
  if side.tmpFirst then side.gallopOther state else side.gallopTmp state

end Side

/-- `MIN_GALLOP` -/
def minGallopCount : Nat := 7

/-- The phase after an element was taken. -/
def Phase.next (tmpCount otherCount : Nat) (minGallop : Int) : Phase :=
  if ((tmpCount ||| otherCount : Nat) : Int) < minGallop then .oneByOne tmpCount otherCount
  else .galloping

/-- The loop `outer`, with the value of `minGallop` at its end. -/
def mergeLoop (side : Side α) : Nat → Phase → Int → MergeState α → Int × MergeState α
  | 0, _, minGallop, state => (minGallop, state)
  | fuel + 1, .oneByOne tmpCount otherCount, minGallop, state =>
      match state.tmp, state.other with
      | tmp :: _, other :: _ =>
          if side.otherFirst tmp other then
            let state := state.takeOther 1
            if state.other.length = 0 then (minGallop, state)
            else mergeLoop side fuel (.next 0 (otherCount + 1) minGallop) minGallop state
          else
            let state := state.takeTmp 1
            if state.tmp.length = 1 then (minGallop, state)
            else mergeLoop side fuel (.next (tmpCount + 1) 0 minGallop) minGallop state
      | _, _ => (minGallop, state)
  | fuel + 1, .galloping, minGallop, state =>
      match side.firstHalf state with
      | .breaks state => (minGallop, state)
      | .goesOn firstCount state =>
          match side.secondHalf state with
          | .breaks state => (minGallop, state)
          | .goesOn secondCount state =>
              let minGallop := minGallop - 1
              if firstCount ≥ minGallopCount ∨ secondCount ≥ minGallopCount then
                mergeLoop side fuel .galloping minGallop state
              else
                mergeLoop side fuel (.oneByOne 0 0) ((if minGallop < 0 then 0 else minGallop) + 2)
                  state

/-- The merge from where one element of the other run has been written: the two
degenerate cases, the loop, and what is left after it. The exception is thrown where
`tmp` was used up. -/
def merge (side : Side α) (minGallop : Int) (state : MergeState α) :
    Except IllegalArgument (List α × Int) :=
  if state.other.length = 0 then .ok (state.written ++ state.tmp, minGallop)
  else if state.tmp.length = 1 then .ok (state.written ++ state.other ++ state.tmp, minGallop)
  else
    let result := mergeLoop side state.size (.oneByOne 0 0) minGallop state
    let minGallop := if result.1 < 1 then 1 else result.1
    let state := result.2
    if state.tmp.length = 1 then .ok (state.written ++ state.other ++ state.tmp, minGallop)
    else if state.tmp.length = 0 then .error contractViolated
    else .ok (state.written ++ state.tmp, minGallop)

variable (compareTo : α → α → Int)

/-- From the front: `tmp` is the first run. -/
def Side.low : Side α where
  otherFirst tmp other := compareTo other tmp < 0
  countTmp key tmp := gallopRight compareTo key tmp 0
  countOther key other := gallopLeft compareTo key other 0
  tmpFirst := true

/-- From the back: `tmp` is the second run. Both runs are kept with the last element
first; the gallops of the source see them as they stand in the array. -/
def Side.high : Side α where
  otherFirst tmp other := compareTo tmp other < 0
  countTmp key tmp := tmp.length - gallopLeft compareTo key tmp.reverse (tmp.length - 1)
  countOther key other := other.length - gallopRight compareTo key other.reverse (other.length - 1)
  tmpFirst := false

/-- `mergeLo` -/
def mergeLo (minGallop : Int) (run1 run2 : List α) : Except IllegalArgument (List α × Int) :=
  merge (.low compareTo) minGallop (MergeState.takeOther ⟨[], run1, run2⟩ 1)

/-- `mergeHi` -/
def mergeHi (minGallop : Int) (run1 run2 : List α) : Except IllegalArgument (List α × Int) :=
  (merge (.high compareTo) minGallop (MergeState.takeOther ⟨[], run2.reverse, run1.reverse⟩ 1)).map
    fun result => (result.1.reverse, result.2)

end Operations

/-! ## The two directions -/

section Directions

variable {α : Type}

/-- The side merges by this comparison. -/
structure Side.Fits (side : Side α) (compareTo : α → α → Int) : Prop where
  otherFirst_iff : ∀ tmp other, side.otherFirst tmp other = true ↔ compareTo other tmp < 0
  countTmp_spec : ∀ key {tmp : List α}, tmp ≠ [] → tmp.Pairwise (Precedes compareTo) →
    (∀ element ∈ tmp.take (side.countTmp key tmp), compareTo element key ≤ 0) ∧
      ∀ element ∈ tmp.drop (side.countTmp key tmp), compareTo key element < 0
  countOther_spec : ∀ key {other : List α}, other ≠ [] → other.Pairwise (Precedes compareTo) →
    (∀ element ∈ other.take (side.countOther key other), compareTo element key < 0) ∧
      ∀ element ∈ other.drop (side.countOther key other), compareTo key element ≤ 0

variable {compareTo : α → α → Int}

theorem Side.low_fits (contract : Contract compareTo) : (Side.low compareTo).Fits compareTo where
  otherFirst_iff _ _ := decide_eq_true_iff
  countTmp_spec key _ nonempty sorted :=
    gallopRight_spec contract key sorted (List.length_pos_iff.mpr nonempty)
  countOther_spec key _ nonempty sorted :=
    gallopLeft_spec contract key sorted (List.length_pos_iff.mpr nonempty)

/-- The first elements of a list are the last ones of its reverse. -/
theorem mem_take_sub_iff {elements : List α} {count : Nat} {element : α} :
    element ∈ elements.take (elements.length - count) ↔ element ∈ elements.reverse.drop count := by
  rw [List.drop_reverse, List.mem_reverse]

theorem mem_drop_sub_iff {elements : List α} {count : Nat} {element : α} :
    element ∈ elements.drop (elements.length - count) ↔ element ∈ elements.reverse.take count := by
  rw [List.take_reverse, List.mem_reverse]

theorem Side.high_fits (contract : Contract compareTo) :
    (Side.high compareTo).Fits (mirrored compareTo) where
  otherFirst_iff _ _ := decide_eq_true_iff
  countTmp_spec key tmp nonempty sorted := by
    have inRange : tmp.length - 1 < tmp.reverse.length := by
      have positive := List.length_pos_iff.mpr nonempty
      rw [List.length_reverse]
      omega
    obtain ⟨front, back⟩ := gallopLeft_spec contract key (pairwise_mirrored.mp sorted) inRange
    constructor
    · intro element isTaken
      exact back element (mem_take_sub_iff.mp isTaken)
    · intro element isLeft
      exact front element (mem_drop_sub_iff.mp isLeft)
  countOther_spec key other nonempty sorted := by
    have inRange : other.length - 1 < other.reverse.length := by
      have positive := List.length_pos_iff.mpr nonempty
      rw [List.length_reverse]
      omega
    obtain ⟨front, back⟩ := gallopRight_spec contract key (pairwise_mirrored.mp sorted) inRange
    constructor
    · intro element isTaken
      exact back element (mem_take_sub_iff.mp isTaken)
    · intro element isLeft
      exact front element (mem_drop_sub_iff.mp isLeft)

end Directions

end AndroidPatch.Library.TimSort
