import AndroidPatch.Lang.Sortable

/-!
Contract: `CopyOnWriteSortedSet`, the patch set of one hooked member.

Owns:
- `add`, `remove` and `indexOf` on the array heap, with the copies and bounds
  the source writes;
- `Holds`, which ties a set to the duplicate-free sorted list it stands for;
- the effect of `add` and `remove` on that list.

Elements are compared by identity (`Patch` inherits `Object.equals`). Every
update builds a new array and publishes it by one assignment, so the array heap
only grows and a snapshot taken earlier keeps its elements.
-/

namespace AndroidPatch.Lang

open AndroidPatch.Library

/-- The set object: its one field is the published array. -/
structure CopyOnWriteSortedSet where
  elements : ArrayHeap.Ref
deriving DecidableEq, Repr

namespace CopyOnWriteSortedSet

variable {E : Type}

section Operations

variable [DecidableEq E]

/-- The loop of `indexOf` from position `index` on. -/
def indexOfFrom (o : E) (index : Int) : List (Option E) → Int
  | [] => -1
  | element :: rest =>
      if element = some o then index else indexOfFrom o (index + 1) rest

def indexOf (set : CopyOnWriteSortedSet) (heap : ArrayHeap E) (o : E) : Int :=
  indexOfFrom o 0 (heap.contents set.elements)

variable (order : E → E → Prop) [DecidableRel order]

/-- The body of `add`. On a failure the new array is garbage: the caller keeps
the old set and the old heap. -/
def insert (set : CopyOnWriteSortedSet) (heap : ArrayHeap E) (e : E) :
    Except ArrayFault (Bool × CopyOnWriteSortedSet × ArrayHeap E) :=
  if set.indexOf heap e ≥ 0 then
    .ok (false, set, heap)
  else do
    let length := heap.length set.elements
    let (newElements, heap) ← heap.newArray (length + 1)
    let heap ← heap.arraycopy set.elements 0 newElements 0 length
    let heap ← heap.store newElements length (some e)
    let heap ← heap.sort order newElements
    .ok (true, ⟨newElements⟩, heap)

/-- `add`. `interruption` is a throwable that `equals` or the sort lets escape;
either happens before the new array is assigned. -/
def add (set : CopyOnWriteSortedSet) (heap : ArrayHeap E) (e : E)
    (interruption : Option Throwable) :
    Except Throwable (Bool × CopyOnWriteSortedSet × ArrayHeap E) :=
  match interruption with
  | some throwable => .error throwable
  | none => raised (set.insert order heap e)

def remove (set : CopyOnWriteSortedSet) (heap : ArrayHeap E) (e : E) :
    Except ArrayFault (Bool × CopyOnWriteSortedSet × ArrayHeap E) :=
  let index := set.indexOf heap e
  if index = -1 then
    .ok (false, set, heap)
  else do
    let length := heap.length set.elements
    let (newElements, heap) ← heap.newArray (length - 1)
    let heap ← heap.arraycopy set.elements 0 newElements 0 index
    let heap ← heap.arraycopy set.elements (index + 1) newElements index
      (length - index - 1)
    .ok (true, ⟨newElements⟩, heap)

def getSnapshot (set : CopyOnWriteSortedSet) : ArrayHeap.Ref :=
  set.elements

end Operations

/-! ## The list a set stands for -/

/-- The published array is allocated and holds exactly `values`, sorted and
without duplicates. -/
structure Holds (order : E → E → Prop) (heap : ArrayHeap E)
    (set : CopyOnWriteSortedSet) (values : List E) : Prop where
  allocated : set.elements < heap.cells.length
  contents : heap.contents set.elements = values.map some
  sorted : values.Pairwise order
  nodup : values.Nodup

variable {order : E → E → Prop} {heap : ArrayHeap E}
  {set : CopyOnWriteSortedSet} {values : List E}

theorem Holds.of_grows {later : ArrayHeap E}
    (holds : Holds order heap set values) (growth : ArrayHeap.Grows heap later) :
    Holds order later set values where
  allocated := lt_of_lt_of_le holds.allocated growth.length_le
  contents := (growth.contents_eq holds.allocated).trans holds.contents
  sorted := holds.sorted
  nodup := holds.nodup

theorem Holds.length_eq (holds : Holds order heap set values) :
    heap.length set.elements = values.length := by
  simp [ArrayHeap.length, holds.contents]

/-- What `add` makes of the list: nothing when the element is present, else a
stable sort of the list with the element behind it. -/
def added [DecidableEq E] (order : E → E → Prop) [DecidableRel order] (values : List E) (e : E) :
    List E :=
  if e ∈ values then values else (values ++ [e]).insertionSort order

theorem indexOfFrom_map_some [DecidableEq E] (o : E) (values : List E) (index : Int) :
    indexOfFrom o index (values.map some) =
      if o ∈ values then index + values.idxOf o else -1 := by
  induction values generalizing index with
  | nil => rfl
  | cons head tail inductionHypothesis =>
      by_cases same : head = o
      · subst same
        simp [indexOfFrom]
      · have different : o ≠ head := Ne.symm same
        simp only [List.map_cons, indexOfFrom, Option.some.injEq, if_neg same]
        rw [inductionHypothesis, List.idxOf_cons_ne tail same]
        simp only [List.mem_cons, different, false_or]
        split_ifs
        · push_cast
          omega
        · rfl

theorem Holds.indexOf_eq [DecidableEq E] (holds : Holds order heap set values)
    (o : E) :
    set.indexOf heap o = if o ∈ values then (values.idxOf o : Int) else -1 := by
  unfold indexOf
  rw [holds.contents, indexOfFrom_map_some]
  simp

/-! ## The two updates

Both lemmas run the array operations of one update on the cell that
`newArray` appends. -/

private theorem splice_whole (values : List E) :
    ArrayHeap.splice (List.replicate (values.length + 1) none) 0
        (((values.map some).drop 0).take values.length) =
      values.map some ++ [none] := by
  rw [List.drop_zero, List.take_of_length_le (by simp)]
  simp [ArrayHeap.splice]

theorem Holds.insert_eq [DecidableEq E] [DecidableRel order]
    (holds : Holds order heap set values) {e : E} (absent : e ∉ values) :
    set.insert order heap e =
      .ok (true, ⟨heap.cells.length⟩,
        heap.push ((added order values e).map some)) := by
  unfold insert added
  rw [holds.indexOf_eq, if_neg absent, if_neg absent, if_neg (by omega),
    holds.length_eq]
  have allocation := heap.newArray_ofNat (values.length + 1)
  have copied := ArrayHeap.arraycopy_push holds.allocated holds.contents
    (List.replicate (values.length + 1) none) 0 0 values.length (by simp) (by simp)
  rw [splice_whole] at copied
  have stored := heap.store_push (values.map some ++ [none])
    values.length (by simp) (some e)
  have placed : (values.map some ++ [none]).set values.length (some e) =
      (values ++ [e]).map some := by
    simp
  rw [placed] at stored
  push_cast at allocation copied
  simp only [bind, Except.bind, allocation, copied, stored, ArrayHeap.sort_push]

/-- The two copies of `remove` around position `index`. -/
private theorem splice_around (values : List E) (index : Nat)
    (below : index < values.length) :
    ArrayHeap.splice
        (ArrayHeap.splice (List.replicate (values.length - 1) none) 0
          (((values.map some).drop 0).take index))
        index
        (((values.map some).drop (index + 1)).take
          (values.length - index - 1)) =
      (values.eraseIdx index).map some := by
  have front : ArrayHeap.splice (List.replicate (values.length - 1) none) 0
      (((values.map some).drop 0).take index) =
      (values.take index).map some ++
        List.replicate (values.length - 1 - index) none := by
    simp [ArrayHeap.splice, List.map_take, Nat.min_eq_left (le_of_lt below)]
  have back : ((values.map some).drop (index + 1)).take
      (values.length - index - 1) = (values.drop (index + 1)).map some := by
    rw [List.take_of_length_le (by simp; omega), List.map_drop]
  rw [front, back, List.eraseIdx_eq_take_drop_succ, List.map_append]
  unfold ArrayHeap.splice
  rw [List.take_left' (by simp; omega),
    List.drop_of_length_le (l := (values.take index).map some ++ _) (by simp; omega),
    List.append_nil]

theorem Holds.remove_eq [DecidableEq E] (holds : Holds order heap set values)
    {e : E} (member : e ∈ values) :
    set.remove heap e =
      .ok (true, ⟨heap.cells.length⟩, heap.push ((values.erase e).map some)) := by
  have below : values.idxOf e < values.length := List.idxOf_lt_length_of_mem member
  have erased : values.erase e = values.eraseIdx (values.idxOf e) :=
    List.erase_eq_eraseIdx_of_idxOf rfl
  unfold remove
  rw [holds.indexOf_eq, if_pos member, holds.length_eq, erased]
  simp only
  rw [if_neg (by omega)]
  have allocation := heap.newArray_ofNat (values.length - 1)
  have copiedFront := ArrayHeap.arraycopy_push holds.allocated holds.contents
    (List.replicate (values.length - 1) none) 0 0 (values.idxOf e)
    (by simp; omega) (by simp; omega)
  have copiedBack := ArrayHeap.arraycopy_push holds.allocated holds.contents
    (ArrayHeap.splice (List.replicate (values.length - 1) none) 0
      (((values.map some).drop 0).take (values.idxOf e)))
    (values.idxOf e + 1) (values.idxOf e) (values.length - values.idxOf e - 1)
    (by simp; omega) (by simp [ArrayHeap.splice]; omega)
  rw [splice_around values _ below] at copiedBack
  have size : ((values.length - 1 : Nat) : Int) = (values.length : Int) - 1 := by
    omega
  have rest : ((values.length - values.idxOf e - 1 : Nat) : Int) =
      (values.length : Int) - values.idxOf e - 1 := by
    omega
  rw [size] at allocation
  rw [rest] at copiedBack
  push_cast at copiedFront copiedBack
  simp only [bind, Except.bind, allocation, copiedFront, copiedBack]

/-! ## Sorted insertion -/

section Sorting

variable [DecidableEq E] [DecidableRel order]

@[simp] theorem mem_added {e candidate : E} :
    candidate ∈ added order values e ↔ candidate = e ∨ candidate ∈ values := by
  unfold added
  split_ifs with member
  · constructor
    · exact Or.inr
    · rintro (rfl | present)
      · exact member
      · exact present
  · simp [or_comm]

theorem nodup_added (nodup : values.Nodup) (e : E) :
    (added order values e).Nodup := by
  unfold added
  split_ifs with member
  · exact nodup
  · rw [(List.perm_insertionSort order _).nodup_iff]
    exact nodup.append (List.nodup_singleton e) (by simpa using member)

theorem sorted_added [Std.Total order] [IsTrans E order]
    (sorted : values.Pairwise order) (e : E) :
    (added order values e).Pairwise order := by
  unfold added
  split_ifs
  · exact sorted
  · exact List.pairwise_insertionSort order _

/-- Stability: adding a new element to a sorted list and taking it out again
leaves the list as it was, ties between distinct elements included. -/
theorem erase_added [Std.Total order] [IsTrans E order]
    (sorted : values.Pairwise order) {e : E} (absent : e ∉ values) :
    (added order values e).erase e = values := by
  unfold added
  rw [if_neg absent]
  have kept : List.Sublist values ((values ++ [e]).insertionSort order) :=
    List.sublist_insertionSort sorted (List.sublist_append_left values [e])
  have erasedKept := kept.erase e
  rw [List.erase_of_not_mem absent] at erasedKept
  refine (erasedKept.eq_of_length ?_).symm
  rw [List.length_erase_of_mem (by simp)]
  simp

end Sorting

/-! ## Effect of the updates on the list -/

/-- `add` without an interruption succeeds, appends at most one array and
reports whether the element was new. -/
theorem Holds.add_spec [DecidableEq E] [DecidableRel order] [Std.Total order]
    [IsTrans E order] (holds : Holds order heap set values) (e : E) :
    ∃ set' heap', set.add order heap e none = .ok (decide (e ∉ values), set', heap') ∧
      ArrayHeap.Grows heap heap' ∧ Holds order heap' set' (added order values e) := by
  by_cases member : e ∈ values
  · refine ⟨set, heap, ?_, ArrayHeap.Grows.refl heap, ?_⟩
    · have found : set.insert order heap e = .ok (false, set, heap) := by
        unfold insert
        rw [holds.indexOf_eq, if_pos member, if_pos (by omega)]
      simp [add, raised, found, member]
    · simpa [added, member] using holds
  · refine ⟨_, _, ?_, heap.grows_push _, heap.length_push _, heap.contents_push _,
      sorted_added holds.sorted e, nodup_added holds.nodup e⟩
    simp [add, raised, holds.insert_eq member, member]

theorem Holds.remove_spec [DecidableEq E] (holds : Holds order heap set values)
    (e : E) :
    ∃ set' heap', set.remove heap e = .ok (decide (e ∈ values), set', heap') ∧
      ArrayHeap.Grows heap heap' ∧ Holds order heap' set' (values.erase e) := by
  by_cases member : e ∈ values
  · refine ⟨_, _, ?_, heap.grows_push _, heap.length_push _, heap.contents_push _,
      ?_, ?_⟩
    · simp [holds.remove_eq member, member]
    · exact holds.sorted.sublist List.erase_sublist
    · exact holds.nodup.erase e
  · refine ⟨set, heap, ?_, ArrayHeap.Grows.refl heap, ?_⟩
    · unfold remove
      simp [holds.indexOf_eq, member]
    · rwa [List.erase_of_not_mem member]

end CopyOnWriteSortedSet

end AndroidPatch.Lang
