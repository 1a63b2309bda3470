import AndroidPatch.Lang.Order
import AndroidPatch.Library.TimSort.Sort

/-!
Contract: `Arrays.sort` in `CopyOnWriteSortedSet.add`, run as the algorithm that it is.

Owns:
- the laws of `Sortable.compareTo` that the sort relies on;
- `add` with the sort that can throw, and that it is the `add` of
  `CopyOnWriteSortedSet` whenever the comparison keeps its laws;
- that no `add` of a history is ended by the exception of the sort.
-/

namespace AndroidPatch.Lang

open AndroidPatch.Library

/-! ## The laws of the comparison -/

/-- The sign changes when the two change places. The identity shortcut is the same
from both sides. -/
theorem Sortable.compareTo_antisymm (left right : Sortable) :
    (left.compareTo (some right)).sign = -(right.compareTo (some left)).sign := by
  unfold Sortable.compareTo
  by_cases same : right = left
  · subst same
    simp
  · have different : left ≠ right := fun equal => same equal.symm
    simp only [if_neg same, if_neg different]
    split_ifs
    all_goals
      first
      | rfl
      | omega

/-- **The comparison keeps its contract**, also for objects that hold a `Sortable`. -/
theorem Sortable.compareTo_contract {E : Type} (sortable : E → Sortable) :
    Comparison.Contract fun left right : E =>
      (sortable left).compareTo (some (sortable right)) where
  antisymm left right := Sortable.compareTo_antisymm (sortable left) (sortable right)
  trans early late := Sortable.compareTo_le_trans early late

/-! ## The sort of the new array -/

section Sorting

variable {E : Type} (compareTo : E → E → Int)

/-- `Arrays.sort`. -/
def arraysSort (heap : ArrayHeap E) (ref : ArrayHeap.Ref) : Except Throwable (ArrayHeap E) :=
  match ArrayHeap.present (heap.contents ref) with
  | none => .error .nullPointer
  | some values =>
      match TimSort.sort compareTo values with
      | .error exception => .error (.illegalArgument exception.message)
      | .ok sorted => .ok (heap.write ref (sorted.map some))

/-- `CopyOnWriteSortedSet.add`, with the sort that can throw. -/
def CopyOnWriteSortedSet.addSorting [DecidableEq E] (set : CopyOnWriteSortedSet)
    (heap : ArrayHeap E) (e : E) : Except Throwable (Bool × CopyOnWriteSortedSet × ArrayHeap E) :=
  if set.indexOf heap e ≥ 0 then
    .ok (false, set, heap)
  else do
    let length := heap.length set.elements
    let (newElements, heap) ← raised (heap.newArray (length + 1))
    let heap ← raised (heap.arraycopy set.elements 0 newElements 0 length)
    let heap ← raised (heap.store newElements length (some e))
    let heap ← arraysSort compareTo heap newElements
    .ok (true, ⟨newElements⟩, heap)

variable {compareTo}

/-- Under the laws the sort is the stable sort. -/
theorem arraysSort_eq (contract : Comparison.Contract compareTo) (heap : ArrayHeap E)
    (ref : ArrayHeap.Ref) :
    arraysSort compareTo heap ref = raised (heap.sort (Comparison.Precedes compareTo) ref) := by
  unfold arraysSort ArrayHeap.sort
  cases ArrayHeap.present (heap.contents ref) with
  | none => rfl
  | some values =>
      dsimp only
      rw [TimSort.sort_eq contract values]
      rfl

/-- An array operation that is followed by others. -/
theorem raised_bind {α β : Type} (result : Except ArrayFault α) (next : α → Except ArrayFault β) :
    raised (result >>= next) = raised result >>= fun value => raised (next value) := by
  cases result with
  | error fault => rfl
  | ok value => rfl

/-- **`add` does not notice that its sort can throw**, in any set and with any arrays. -/
theorem CopyOnWriteSortedSet.addSorting_eq [DecidableEq E]
    (contract : Comparison.Contract compareTo) (set : CopyOnWriteSortedSet) (heap : ArrayHeap E)
    (e : E) :
    set.addSorting compareTo heap e = set.add (Comparison.Precedes compareTo) heap e none := by
  unfold addSorting add insert
  by_cases present : set.indexOf heap e ≥ 0
  · simp only [if_pos present]
    rfl
  · simp only [if_neg present, raised_bind, arraysSort_eq contract]
    rfl

end Sorting

/-! ## Histories -/

/-- The comparison that the set of a member sorts by. -/
def Patch.compareWith (left right : Patch) : Int :=
  left.compareTo (some right.toSortable)

namespace SetState

/-- A call on the set, with the sort that can throw. -/
def performSorting (state : SetState) : SetCall → Except Throwable Bool × SetState
  | .add patch none =>
      match state.set.addSorting Patch.compareWith state.arrays patch with
      | .error throwable => (.error throwable, state)
      | .ok (isNew, set, arrays) => (.ok isNew, ⟨set, arrays⟩)
  | call => state.perform call

theorem performSorting_eq (state : SetState) (call : SetCall) :
    state.performSorting call = state.perform call := by
  cases call with
  | remove patch => rfl
  | add patch interruption =>
      cases interruption with
      | some throwable => rfl
      | none =>
          have sorted : state.set.addSorting Patch.compareWith state.arrays patch =
              state.set.add Patch.Precedes state.arrays patch none :=
            state.set.addSorting_eq (Sortable.compareTo_contract Patch.toSortable) state.arrays patch
          cases added : state.set.add Patch.Precedes state.arrays patch none with
          | error throwable => simp only [performSorting, perform, sorted, added]
          | ok result => simp only [performSorting, perform, sorted, added]

theorem run_performSorting (calls : List SetCall) :
    run performSorting initial calls = after calls := by
  have same : performSorting = perform := by
    funext state call
    exact performSorting_eq state call
  rw [same]
  rfl

end SetState

/-- **`compareTo` meets the contract that `Arrays.sort` relies on.** The sign changes
when the arguments change places, the answers that are not positive are transitive, and
objects that tie compare alike with every other one. So `add` is never ended by the
exception of the sort, neither in any set of objects that hold a `Sortable` nor after
any history of the set of a member. -/
theorem compareTo_meets_contract :
    (∀ x y : Sortable, (x.compareTo (some y)).sign = -(y.compareTo (some x)).sign) ∧
    (∀ x y z : Sortable, x.compareTo (some y) ≤ 0 → y.compareTo (some z) ≤ 0 →
      x.compareTo (some z) ≤ 0) ∧
    (∀ x y z : Sortable, x.compareTo (some y) = 0 →
      (x.compareTo (some z)).sign = (y.compareTo (some z)).sign) ∧
    (∀ (E : Type) [DecidableEq E] (sortable : E → Sortable) (set : CopyOnWriteSortedSet)
      (heap : ArrayHeap E) (e : E) (message : String),
      set.addSorting (fun left right => (sortable left).compareTo (some (sortable right))) heap e ≠
        .error (.illegalArgument message)) ∧
    ∀ (calls : List SetCall) (patch : Patch),
      ((run SetState.performSorting .initial calls).performSorting (.add patch none)).1 =
        .ok (decide (¬ Registered calls patch)) := by
  refine ⟨Sortable.compareTo_antisymm, ?_, ?_, ?_, ?_⟩
  · intro x y z early late
    exact Sortable.compareTo_le_trans early late
  · intro x y z tie
    exact (Sortable.compareTo_contract id).congr tie z
  · intro E _ sortable set heap e message ended
    rw [set.addSorting_eq (Sortable.compareTo_contract sortable)] at ended
    unfold CopyOnWriteSortedSet.add at ended
    dsimp only at ended
    cases inserted : set.insert (Comparison.Precedes fun left right : E =>
        (sortable left).compareTo (some (sortable right))) heap e with
    | ok result =>
        rw [inserted] at ended
        cases ended
    | error fault =>
        rw [inserted] at ended
        cases ended
  · intro calls patch
    rw [SetState.run_performSorting, SetState.performSorting_eq]
    exact SetState.after_add calls patch

end AndroidPatch.Lang
