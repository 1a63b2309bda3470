import Mathlib.Data.List.Sort

/-!
Contract: object arrays held by reference, with the checks and the failures of
the managed runtime.

Owns:
- allocation, bounds-checked access, range copy and in-place sort;
- the growth order on heaps, under which a published array never changes;
- the effect of each operation on the array that was allocated last.

Does not own: which arrays a program publishes, or the order it sorts by.
-/

namespace AndroidPatch.Library

/-- The failures an array operation can raise. -/
inductive ArrayFault where
  | nullPointer
  | indexOutOfBounds
  | negativeArraySize
deriving DecidableEq, Repr

/-- Every array allocated so far, in allocation order. The element `none` is
the null reference. -/
structure ArrayHeap (α : Type) where
  cells : List (List (Option α))
deriving DecidableEq, Repr

namespace ArrayHeap

/-- An array reference is its position in allocation order. -/
abbrev Ref := Nat

variable {α : Type}

def contents (heap : ArrayHeap α) (ref : Ref) : List (Option α) :=
  heap.cells.getD ref []

def length (heap : ArrayHeap α) (ref : Ref) : Int :=
  (heap.contents ref).length

def write (heap : ArrayHeap α) (ref : Ref) (value : List (Option α)) :
    ArrayHeap α :=
  ⟨heap.cells.set ref value⟩

/-- A new array has every element null. -/
def newArray (heap : ArrayHeap α) (length : Int) :
    Except ArrayFault (Ref × ArrayHeap α) :=
  if length < 0 then
    .error .negativeArraySize
  else
    .ok (heap.cells.length, ⟨heap.cells ++ [List.replicate length.toNat none]⟩)

def load (heap : ArrayHeap α) (ref : Ref) (index : Int) :
    Except ArrayFault (Option α) :=
  if index < 0 ∨ heap.length ref ≤ index then
    .error .indexOutOfBounds
  else
    .ok ((heap.contents ref).getD index.toNat none)

def store (heap : ArrayHeap α) (ref : Ref) (index : Int) (value : Option α) :
    Except ArrayFault (ArrayHeap α) :=
  if index < 0 ∨ heap.length ref ≤ index then
    .error .indexOutOfBounds
  else
    .ok (heap.write ref ((heap.contents ref).set index.toNat value))

/-- Replace the elements from `position` on by `values`. -/
def splice (target : List (Option α)) (position : Nat)
    (values : List (Option α)) : List (Option α) :=
  target.take position ++ values ++ target.drop (position + values.length)

/-- Range copy. All bounds are checked before the first element is written. -/
def arraycopy (heap : ArrayHeap α) (source : Ref) (sourcePos : Int)
    (target : Ref) (targetPos : Int) (count : Int) :
    Except ArrayFault (ArrayHeap α) :=
  if sourcePos < 0 ∨ targetPos < 0 ∨ count < 0 ∨
      heap.length source < sourcePos + count ∨
      heap.length target < targetPos + count then
    .error .indexOutOfBounds
  else
    let values := ((heap.contents source).drop sourcePos.toNat).take count.toNat
    .ok (heap.write target (splice (heap.contents target) targetPos.toNat values))

/-- The elements of an array without a null element. -/
def present : List (Option α) → Option (List α)
  | [] => some []
  | none :: _ => none
  | some value :: rest => (present rest).map (value :: ·)

/-- In-place stable sort; a null element cannot be compared. -/
def sort (order : α → α → Prop) [DecidableRel order] (heap : ArrayHeap α)
    (ref : Ref) : Except ArrayFault (ArrayHeap α) :=
  match present (heap.contents ref) with
  | none => .error .nullPointer
  | some values => .ok (heap.write ref ((values.insertionSort order).map some))

/-! ## Growth

A heap grows when arrays are appended and no earlier one is written. A
reference handed out before the growth reads the same elements after it. -/

def Grows (earlier later : ArrayHeap α) : Prop :=
  earlier.cells <+: later.cells

theorem Grows.refl (heap : ArrayHeap α) : Grows heap heap :=
  List.prefix_refl heap.cells

theorem Grows.trans {first second third : ArrayHeap α}
    (early : Grows first second) (late : Grows second third) :
    Grows first third :=
  List.IsPrefix.trans early late

/-- A reference that is allocated in the earlier heap keeps its elements. -/
theorem Grows.contents_eq {earlier later : ArrayHeap α}
    (growth : Grows earlier later) {ref : Ref}
    (allocated : ref < earlier.cells.length) :
    later.contents ref = earlier.contents ref := by
  obtain ⟨appended, extension⟩ := growth
  unfold contents
  rw [← extension, List.getD_eq_getElem?_getD, List.getD_eq_getElem?_getD,
    List.getElem?_append_left allocated]

theorem Grows.load_eq {earlier later : ArrayHeap α}
    (growth : Grows earlier later) {ref : Ref}
    (allocated : ref < earlier.cells.length) (index : Int) :
    later.load ref index = earlier.load ref index := by
  unfold load length
  rw [growth.contents_eq allocated]

/-! ## Reading null-free arrays -/

@[simp] theorem present_map_some (values : List α) :
    present (values.map some) = some values := by
  induction values with
  | nil => rfl
  | cons head tail inductionHypothesis =>
      simp [present, inductionHypothesis]

theorem load_map_some {heap : ArrayHeap α} {ref : Ref} {values : List α}
    (holds : heap.contents ref = values.map some) {index : Nat}
    (below : index < values.length) :
    heap.load ref index = .ok (some values[index]) := by
  unfold load length
  rw [holds, if_neg (by simp; omega)]
  simp [List.getD_eq_getElem?_getD, below]

/-! ## The array allocated last

Every array is built in the cell that `newArray` has just appended, so each
operation on it replaces the last cell. -/

/-- The heap with one more array at its end. -/
def push (heap : ArrayHeap α) (value : List (Option α)) : ArrayHeap α :=
  ⟨heap.cells ++ [value]⟩

theorem grows_push (heap : ArrayHeap α) (value : List (Option α)) :
    Grows heap (heap.push value) :=
  List.prefix_append heap.cells [value]

theorem length_push (heap : ArrayHeap α) (value : List (Option α)) :
    heap.cells.length < (heap.push value).cells.length := by
  simp [push]

@[simp] theorem contents_push (heap : ArrayHeap α) (value : List (Option α)) :
    (heap.push value).contents heap.cells.length = value := by
  simp [push, contents]

@[simp] theorem write_push (heap : ArrayHeap α) (old new : List (Option α)) :
    (heap.push old).write heap.cells.length new = heap.push new := by
  simp [push, write]

theorem newArray_ofNat (heap : ArrayHeap α) (count : Nat) :
    heap.newArray count =
      .ok (heap.cells.length, heap.push (List.replicate count none)) := by
  unfold newArray
  rw [if_neg (by omega)]
  simp [push]

/-- Copying a range of an earlier array into the last one. -/
theorem arraycopy_push {heap : ArrayHeap α} {source : Ref}
    (allocated : source < heap.cells.length) {values : List (Option α)}
    (holds : heap.contents source = values) (target : List (Option α))
    (sourcePos targetPos count : Nat)
    (sourceBound : sourcePos + count ≤ values.length)
    (targetBound : targetPos + count ≤ target.length) :
    (heap.push target).arraycopy source sourcePos heap.cells.length targetPos
        count =
      .ok (heap.push
        (splice target targetPos ((values.drop sourcePos).take count))) := by
  unfold arraycopy length
  rw [(grows_push heap target).contents_eq allocated, contents_push, holds,
    if_neg (by omega)]
  simp

theorem store_push (heap : ArrayHeap α) (target : List (Option α))
    (index : Nat) (below : index < target.length) (value : Option α) :
    (heap.push target).store heap.cells.length index value =
      .ok (heap.push (target.set index value)) := by
  unfold store length
  rw [contents_push, if_neg (by omega)]
  simp

theorem sort_push (order : α → α → Prop) [DecidableRel order]
    (heap : ArrayHeap α) (values : List α) :
    (heap.push (values.map some)).sort order heap.cells.length =
      .ok (heap.push ((values.insertionSort order).map some)) := by
  simp [sort]

end ArrayHeap

end AndroidPatch.Library
