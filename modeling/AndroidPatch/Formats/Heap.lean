import AndroidPatch.Formats.FormatEntry
import AndroidPatch.Formats.MapToArray2

/-!
Contract: the objects that the built-in formats know, and a `FormatEntry` on
them without custom formats.

Owns:
- `Shape`, what an object consists of, and `Heap`, which says it for every
  object;
- `equals` as the JDK defines it for lists, sets, maps, arrays and pairs;
- the six built-in formats in the order of `flush`, and what they answer.

A reference is an `Option`, with null as `none`. Two references to one object
are equal, so equality of references is identity. Maps are in insertion order
here: reading them changes nothing.
-/

namespace AndroidPatch.Formats

open AndroidPatch.Lang

/-- A `Map` that `get` leaves as it is. -/
structure InsertionMap (N : Type) extends JavaMap N where
  insertion : accessOrder = false

/-- What an object consists of. A leaf is an object of any other class, with what
`isFinalObject` says of it. The elements of an array of primitives are the boxed
ones. -/
inductive Shape (A : Type) where
  | leaf (isFinal : Bool)
  | list (elements : List (Option A))
  | set (elements : List (Option A))
  | map (contents : InsertionMap (Option A))
  | array (componentName : String) (elements : List (Option A))
  | pair (first second : Option A)

/-- The objects that an object refers to. -/
def Shape.contents {A : Type} : Shape A → List (Option A)
  | .leaf _ => []
  | .list elements => elements
  | .set elements => elements
  | .map contents => JavaMap.alternating contents.entries
  | .array _ elements => elements
  | .pair first second => [first, second]

/-- All objects. `valueOf` is `String.valueOf`; `getSimpleName` and
`isSystemClass` are about the class of an object; `leafEquals` is `equals`
between two leaves; `raises` tells which throwable a map's iterator throws. -/
structure Heap (A : Type) where
  shape : A → Shape A
  valueOf : A → Option String
  getSimpleName : A → String
  isSystemClass : A → Bool
  leafEquals : A → A → Bool
  raises : MapFault → Throwable
  toUpperCase : List Char → List Char

/-! ## Tests that may run out of depth -/

section Tests

variable {B : Type}

/-- `if (!test(x)) return false;` for every element, then true. -/
def allOf (test : B → Option Bool) : List B → Option Bool
  | [] => some true
  | element :: rest =>
      match test element with
      | none => none
      | some false => some false
      | some true => allOf test rest

/-- `if (test(x)) return true;` for every element, then false. -/
def anyOf (test : B → Option Bool) : List B → Option Bool
  | [] => some false
  | element :: rest =>
      match test element with
      | none => none
      | some true => some true
      | some false => anyOf test rest

/-- The loop of `AbstractList.equals` over both iterators. -/
def zipEquals (equals : B → B → Option Bool) : List B → List B → Option Bool
  | [], [] => some true
  | [], _ :: _ => some false
  | _ :: _, [] => some false
  | left :: lefts, right :: rights =>
      match equals left right with
      | none => none
      | some false => some false
      | some true => zipEquals equals lefts rights

/-- `Objects.equals`, and the comparison of a key with that of a hash node. -/
def objectsEquals [DecidableEq B] (equals : B → B → Option Bool) (left right : B) :
    Option Bool :=
  if left = right then some true else equals left right

/-- `AbstractSet.equals` for sets of one size: `containsAll` of the other's
elements. -/
def setEquals [DecidableEq B] (equals : B → B → Option Bool) (own others : List B) :
    Option Bool :=
  if own.length ≠ others.length then some false
  else allOf (fun other => anyOf (objectsEquals equals other) own) others

/-- `value.equals(m.get(key))`, and for a null value whether the other map has
the key with null. -/
def entryMatches [DecidableEq B] (equals : B → B → Option Bool) (entry : B × B) :
    List (B × B) → Option Bool
  | [] => some false
  | other :: rest =>
      match objectsEquals equals entry.1 other.1 with
      | none => none
      | some true => equals entry.2 other.2
      | some false => entryMatches equals entry rest

/-- `AbstractMap.equals`. -/
def mapEquals [DecidableEq B] (equals : B → B → Option Bool) (own others : List (B × B)) :
    Option Bool :=
  if own.length ≠ others.length then some false
  else allOf (fun entry => entryMatches equals entry others) own

/-- `Pair.equals`. -/
def pairEquals [DecidableEq B] (equals : B → B → Option Bool) (own other : B × B) :
    Option Bool :=
  match objectsEquals equals other.1 own.1 with
  | none => none
  | some false => some false
  | some true => objectsEquals equals other.2 own.2

end Tests

namespace Heap

variable {A : Type} [DecidableEq A] (heap : Heap A)

/-! ## `equals` -/

/-- One call of `object.equals(other)`, with `equals` for the calls that it
makes. -/
def equalsOnce (equals : Option A → Option A → Option Bool) (object other : A) : Option Bool :=
  match heap.shape object, heap.shape other with
  | .leaf _, .leaf _ => some (heap.leafEquals object other)
  | .list own, .list others =>
      if object = other then some true else zipEquals equals own others
  | .set own, .set others =>
      if object = other then some true else setEquals equals own others
  | .map own, .map others =>
      if object = other then some true else mapEquals equals own.entries others.entries
  | .array _ _, .array _ _ => some (object = other)
  | .pair first second, .pair otherFirst otherSecond =>
      pairEquals equals (first, second) (otherFirst, otherSecond)
  | _, _ => some false

/-- `object.equals(other)`, within a recursion depth; identity for null. -/
def equals : Nat → Option A → Option A → Option Bool
  | 0, _, _ => none
  | _ + 1, none, other => some (other = none)
  | _ + 1, some _, none => some false
  | fuel + 1, some object, some other => heap.equalsOnce (equals fuel) object other

/-! ## The built-in formats -/

/-- `FormatObject.isFinalObject`. -/
def isFinalObject : Option A → Bool
  | none => true
  | some object =>
      match heap.shape object with
      | .leaf isFinal => isFinal
      | _ => false

/-- `FormatObject.objectToString`. -/
def objectToString : Option A → Option String
  | none => some "null"
  | some object => heap.valueOf object

/-- `FormatIterable.iterableToArray`; none where the result is null. -/
def iterableToArray : Option A → Option (List (Option A))
  | none => none
  | some object =>
      match heap.shape object with
      | .list elements => some elements
      | .set elements => some elements
      | .array _ elements => some elements
      | .pair first second => some [first, second]
      | _ => none

/-- `FormatIterable.isIterable`. -/
def isIterable (object : Option A) : Bool := (heap.iterableToArray object).isSome

/-- Whether `instanceof Iterable`. -/
def instanceofIterable (object : A) : Bool :=
  match heap.shape object with
  | .list _ => true
  | .set _ => true
  | _ => false

/-- `FormatIterable.isFinalIterable`. -/
def isFinalIterable : Option A → Bool
  | none => false
  | some object =>
      if heap.instanceofIterable object ∧ ¬ heap.isSystemClass object then false
      else heap.isIterable (some object)

/-- `FormatIterable.nameOf`. -/
def iterableNameOf : Option A → Option String
  | none => none
  | some object =>
      match heap.shape object with
      | .array componentName _ => some componentName
      | _ => some (heap.getSimpleName object)

/-- `FormatMap.isMap`. -/
def isMap : Option A → Bool
  | none => false
  | some object =>
      match heap.shape object with
      | .map _ => true
      | _ => false

/-- `FormatMap.isFinalMap`. -/
def isFinalMap : Option A → Bool
  | none => false
  | some object =>
      if heap.isMap (some object) ∧ ¬ heap.isSystemClass object then false
      else heap.isMap (some object)

/-- `FormatMap.mapToArray2`. The loop takes one turn for every entry and one
more to see that there is none left. -/
def mapToArray2 : Option A → Except Throwable (Option (List (Option A)))
  | none => .ok none
  | some object =>
      match heap.shape object with
      | .map contents =>
          match contents.toJavaMap.mapToArray2 none (contents.entries.length + 1) with
          | none => .ok none
          | some (.error fault, _) => .error (heap.raises fault)
          | some (.ok array, _) => .ok (some array)
      | _ => .ok none

/-- `FormatMap.nameOf`. -/
def nameOf (object : Option A) : Option String := object.map heap.getSimpleName

def formatObjectA : Format (Option A) :=
  FormatObject.format (fun _ => .ok true) (fun object => .ok (heap.objectToString object))

def formatObjectB : Format (Option A) :=
  FormatObject.format (fun object => .ok (heap.isFinalObject object))
    (fun object => .ok (heap.objectToString object))

def formatIterableA : Format (Option A) :=
  FormatIterable.format (fun object => .ok (heap.isIterable object))
    (fun object => .ok (heap.iterableToArray object))
    (fun object => .ok (heap.iterableNameOf object))

def formatIterableB : Format (Option A) :=
  FormatIterable.format (fun object => .ok (heap.isFinalIterable object))
    (fun object => .ok (heap.iterableToArray object))
    (fun object => .ok (heap.iterableNameOf object))

def formatMapA : Format (Option A) :=
  FormatMap.format none (fun object => .ok (heap.isMap object)) heap.mapToArray2
    (fun object => .ok (heap.nameOf object))

def formatMapB : Format (Option A) :=
  FormatMap.format none (fun object => .ok (heap.isFinalMap object)) heap.mapToArray2
    (fun object => .ok (heap.nameOf object))

/-- A `FormatEntry` after `flush` without custom formats. -/
def entry : FormatEntry (Option A) where
  mFormatArray := [heap.formatObjectB, heap.formatIterableB, heap.formatMapB,
    heap.formatMapA, heap.formatIterableA, heap.formatObjectA]
  getSimpleName := heap.nameOf
  equals := heap.equals
  toUpperCase := heap.toUpperCase

end Heap

/-! ## The first format that belongs to an object -/

theorem FormatObject.format_silent {N : Type} {belongTo : N → Except Throwable Bool}
    {toString : N → Except Throwable (Option String)} {object : N}
    (foreign : belongTo object = .ok false) :
    FormatObject.format belongTo toString object = .ok none := by
  unfold FormatObject.format
  rw [foreign]
  rfl

theorem FormatIterable.format_silent {N : Type} {belongTo : N → Except Throwable Bool}
    {toArray : N → Except Throwable (Option (List N))}
    {nameOf : N → Except Throwable (Option String)} {object : N}
    (foreign : belongTo object = .ok false) :
    FormatIterable.format belongTo toArray nameOf object = .ok none := by
  unfold FormatIterable.format
  rw [foreign]
  rfl

theorem FormatMap.format_silent {N : Type} {null : N} {belongTo : N → Except Throwable Bool}
    {toArray2 : N → Except Throwable (Option (List N))}
    {nameOf : N → Except Throwable (Option String)} {object : N}
    (foreign : belongTo object = .ok false) :
    FormatMap.format null belongTo toArray2 nameOf object = .ok none := by
  unfold FormatMap.format
  rw [foreign]
  rfl

theorem FormatObject.format_answers {N : Type} {belongTo : N → Except Throwable Bool}
    {toString : N → Except Throwable (Option String)} {object : N} {text : Option String}
    (belongs : belongTo object = .ok true) (isText : toString object = .ok text) :
    FormatObject.format belongTo toString object = .ok (some ⟨text, none⟩) := by
  unfold FormatObject.format
  rw [belongs, isText]
  rfl

theorem FormatIterable.format_answers {N : Type} {belongTo : N → Except Throwable Bool}
    {toArray : N → Except Throwable (Option (List N))}
    {nameOf : N → Except Throwable (Option String)} {object : N} {array : Option (List N)}
    {name : Option String} (belongs : belongTo object = .ok true)
    (isArray : toArray object = .ok array) (isName : nameOf object = .ok name) :
    FormatIterable.format belongTo toArray nameOf object =
      .ok (some ⟨some (FormatIterable.template name array), array⟩) := by
  unfold FormatIterable.format
  rw [belongs, isArray, isName]
  rfl

theorem FormatMap.format_answers {N : Type} {null : N} {belongTo : N → Except Throwable Bool}
    {toArray2 : N → Except Throwable (Option (List N))}
    {nameOf : N → Except Throwable (Option String)} {object : N} {array2 : List N}
    {name : Option String} (belongs : belongTo object = .ok true)
    (isArray : toArray2 object = .ok (some array2)) (even : array2.length % 2 = 0)
    (isName : nameOf object = .ok name) :
    FormatMap.format null belongTo toArray2 nameOf object =
      .ok (some ⟨some (FormatMap.template name (some array2)), some array2⟩) := by
  have unchanged : FormatMap.fixMistake null array2 = array2 := by
    unfold FormatMap.fixMistake
    rw [if_neg (by omega)]
  unfold FormatMap.format
  rw [belongs, isArray, isName]
  show Except.ok (some (Formatting.mk (some (FormatMap.template name
    (some (FormatMap.fixMistake null array2)))) (some (FormatMap.fixMistake null array2)))) = _
  rw [unchanged]

/-- The answer that a format's result stands for. -/
def Answer.ofFormatting {N : Type} (pair : Formatting N) : Answer N :=
  match pair.second with
  | none => .direct (.ok pair.first)
  | some [] => .direct (.ok pair.first)
  | some (child :: children) => .template pair.first child children

theorem Answer.arguments_ofFormatting {N : Type} (first : Option String) (elements : List N) :
    (Answer.ofFormatting ⟨first, some elements⟩).arguments = elements := by
  cases elements with
  | nil => rfl
  | cons child children => rfl

theorem FormatEntry.answerOf_silent {N : Type} {object : N} {format : Format N}
    (silent : format object = .ok none) (later : List (Format N)) :
    FormatEntry.answerOf object (format :: later) = FormatEntry.answerOf object later := by
  rw [FormatEntry.answerOf, silent]

theorem FormatEntry.answerOf_found {N : Type} {object : N} {format : Format N}
    {pair : Formatting N} (answers : format object = .ok (some pair))
    (later : List (Format N)) :
    FormatEntry.answerOf object (format :: later) = .ofFormatting pair := by
  rw [FormatEntry.answerOf, answers]
  obtain ⟨first, second⟩ := pair
  rcases second with _ | _ | ⟨child, children⟩
  · rfl
  · rfl
  · rfl

namespace Heap

variable {A : Type} {heap : Heap A}

theorem formatObjectB_silent {object : Option A} (foreign : heap.isFinalObject object = false) :
    heap.formatObjectB object = .ok none :=
  FormatObject.format_silent (by rw [foreign])

theorem formatIterableA_silent {object : Option A} (foreign : heap.isIterable object = false) :
    heap.formatIterableA object = .ok none :=
  FormatIterable.format_silent (by rw [foreign])

theorem formatIterableB_silent {object : Option A}
    (foreign : heap.isFinalIterable object = false) : heap.formatIterableB object = .ok none :=
  FormatIterable.format_silent (by rw [foreign])

theorem formatIterableA_answers {object : Option A} {elements : List (Option A)}
    (belongs : heap.isIterable object = true)
    (isElements : heap.iterableToArray object = some elements) :
    heap.formatIterableA object = .ok (some
      ⟨some (FormatIterable.template (heap.iterableNameOf object) (some elements)),
        some elements⟩) :=
  FormatIterable.format_answers (by rw [belongs]) (by rw [isElements]) rfl

theorem formatIterableB_answers {object : Option A} {elements : List (Option A)}
    (belongs : heap.isFinalIterable object = true)
    (isElements : heap.iterableToArray object = some elements) :
    heap.formatIterableB object = .ok (some
      ⟨some (FormatIterable.template (heap.iterableNameOf object) (some elements)),
        some elements⟩) :=
  FormatIterable.format_answers (by rw [belongs]) (by rw [isElements]) rfl

variable [DecidableEq A]

theorem formatMapA_silent {object : Option A} (foreign : heap.isMap object = false) :
    heap.formatMapA object = .ok none :=
  FormatMap.format_silent (by rw [foreign])

theorem formatMapB_silent {object : Option A} (foreign : heap.isFinalMap object = false) :
    heap.formatMapB object = .ok none :=
  FormatMap.format_silent (by rw [foreign])

theorem formatMapA_answers {object : Option A} {array2 : List (Option A)}
    (belongs : heap.isMap object = true) (isArray : heap.mapToArray2 object = .ok (some array2))
    (even : array2.length % 2 = 0) :
    heap.formatMapA object = .ok (some
      ⟨some (FormatMap.template (heap.nameOf object) (some array2)), some array2⟩) :=
  FormatMap.format_answers (by rw [belongs]) isArray even rfl

theorem formatMapB_answers {object : Option A} {array2 : List (Option A)}
    (belongs : heap.isFinalMap object = true)
    (isArray : heap.mapToArray2 object = .ok (some array2)) (even : array2.length % 2 = 0) :
    heap.formatMapB object = .ok (some
      ⟨some (FormatMap.template (heap.nameOf object) (some array2)), some array2⟩) :=
  FormatMap.format_answers (by rw [belongs]) isArray even rfl

theorem answer_null : heap.entry.answer none = .direct (.ok (some "null")) := rfl

/-- A leaf prints as `String.valueOf`, in the first format or in the last. -/
theorem answer_leaf {object : A} {isFinal : Bool} (isLeaf : heap.shape object = .leaf isFinal) :
    heap.entry.answer (some object) = .direct (.ok (heap.valueOf object)) := by
  have notIterable : heap.isIterable (some object) = false := by
    simp [isIterable, iterableToArray, isLeaf]
  have notMap : heap.isMap (some object) = false := by
    simp [isMap, isLeaf]
  unfold FormatEntry.answer entry
  dsimp only
  cases isFinal with
  | true =>
      have answers : heap.formatObjectB (some object) =
          .ok (some ⟨heap.valueOf object, none⟩) :=
        FormatObject.format_answers (by simp [isFinalObject, isLeaf]) rfl
      rw [FormatEntry.answerOf_found answers]
      rfl
  | false =>
      have notFinal : heap.isFinalObject (some object) = false := by
        simp [isFinalObject, isLeaf]
      have notFinalIterable : heap.isFinalIterable (some object) = false := by
        simp [isFinalIterable, notIterable]
      have notFinalMap : heap.isFinalMap (some object) = false := by
        simp [isFinalMap, notMap]
      rw [FormatEntry.answerOf_silent (formatObjectB_silent notFinal),
        FormatEntry.answerOf_silent (formatIterableB_silent notFinalIterable),
        FormatEntry.answerOf_silent (formatMapB_silent notFinalMap),
        FormatEntry.answerOf_silent (formatMapA_silent notMap),
        FormatEntry.answerOf_silent (formatIterableA_silent notIterable)]
      rfl

/-- A sequence prints its elements in brackets, whether its class is a system
class or not. -/
theorem answer_iterable {object : A} {elements : List (Option A)}
    (isElements : heap.iterableToArray (some object) = some elements) :
    heap.entry.answer (some object) = .ofFormatting
      ⟨some (FormatIterable.template (heap.iterableNameOf (some object)) (some elements)),
        some elements⟩ := by
  have iterable : heap.isIterable (some object) = true := by
    simp [isIterable, isElements]
  have notFinal : heap.isFinalObject (some object) = false := by
    cases isShape : heap.shape object with
    | leaf => simp [iterableToArray, isShape] at isElements
    | _ => simp [isFinalObject, isShape]
  have notMap : heap.isMap (some object) = false := by
    cases isShape : heap.shape object with
    | map => simp [iterableToArray, isShape] at isElements
    | _ => simp [isMap, isShape]
  have notFinalMap : heap.isFinalMap (some object) = false := by
    simp [isFinalMap, notMap]
  unfold FormatEntry.answer entry
  dsimp only
  rw [FormatEntry.answerOf_silent (formatObjectB_silent notFinal)]
  by_cases system : heap.isFinalIterable (some object) = true
  · exact FormatEntry.answerOf_found (formatIterableB_answers system isElements) _
  · have foreign : heap.isFinalIterable (some object) = false := by simpa using system
    rw [FormatEntry.answerOf_silent (formatIterableB_silent foreign),
      FormatEntry.answerOf_silent (formatMapB_silent notFinalMap),
      FormatEntry.answerOf_silent (formatMapA_silent notMap)]
    exact FormatEntry.answerOf_found (formatIterableA_answers iterable isElements) _

/-- A map prints its entries in braces. -/
theorem answer_map {object : A} {contents : InsertionMap (Option A)}
    (isShape : heap.shape object = .map contents) :
    heap.entry.answer (some object) = .ofFormatting
      ⟨some (FormatMap.template (some (heap.getSimpleName object))
          (some (JavaMap.alternating contents.entries))),
        some (JavaMap.alternating contents.entries)⟩ := by
  have map : heap.isMap (some object) = true := by
    simp [isMap, isShape]
  have notFinal : heap.isFinalObject (some object) = false := by
    simp [isFinalObject, isShape]
  have notIterable : heap.isFinalIterable (some object) = false := by
    simp [isFinalIterable, isIterable, iterableToArray, isShape]
  have isArray : heap.mapToArray2 (some object) =
      .ok (some (JavaMap.alternating contents.entries)) := by
    have reads := JavaMap.mapToArray2_reads (fun entry member =>
      @JavaMap.still_of_insertionOrder _ _ none _ contents.insertion entry member)
      (Nat.lt_succ_self contents.entries.length)
    unfold mapToArray2
    simp only [isShape]
    rw [reads]
  have even : (JavaMap.alternating contents.entries).length % 2 = 0 := by
    unfold JavaMap.alternating
    rw [List.length_flatMap]
    simp
  unfold FormatEntry.answer entry
  dsimp only
  rw [FormatEntry.answerOf_silent (formatObjectB_silent notFinal),
    FormatEntry.answerOf_silent (formatIterableB_silent notIterable)]
  by_cases system : heap.isFinalMap (some object) = true
  · exact FormatEntry.answerOf_found (formatMapB_answers system isArray even) _
  · have foreign : heap.isFinalMap (some object) = false := by simpa using system
    rw [FormatEntry.answerOf_silent (formatMapB_silent foreign)]
    exact FormatEntry.answerOf_found (formatMapA_answers map isArray even) _

/-- The objects that a reference leads to. -/
def contentsOf (heap : Heap A) : Option A → List (Option A)
  | none => []
  | some object => (heap.shape object).contents

theorem childrenOf_iterable {object : A} {elements : List (Option A)}
    (isElements : heap.iterableToArray (some object) = some elements) :
    heap.entry.childrenOf (some object) = elements := by
  unfold FormatEntry.childrenOf
  rw [answer_iterable isElements, Answer.arguments_ofFormatting]

/-- **The rendering goes on to exactly the contents of an object.** -/
theorem childrenOf_eq (object : Option A) :
    heap.entry.childrenOf object = heap.contentsOf object := by
  cases object with
  | none => rfl
  | some object =>
      unfold contentsOf
      dsimp only
      cases isShape : heap.shape object with
      | leaf isFinal =>
          unfold FormatEntry.childrenOf
          rw [answer_leaf isShape]
          rfl
      | list elements =>
          apply childrenOf_iterable
          simp only [iterableToArray, isShape, Shape.contents]
      | set elements =>
          apply childrenOf_iterable
          simp only [iterableToArray, isShape, Shape.contents]
      | map contents =>
          unfold FormatEntry.childrenOf
          rw [answer_map isShape, Answer.arguments_ofFormatting]
          rfl
      | array componentName elements =>
          apply childrenOf_iterable
          simp only [iterableToArray, isShape, Shape.contents]
      | pair first second =>
          apply childrenOf_iterable
          simp only [iterableToArray, isShape, Shape.contents]

end Heap

end AndroidPatch.Formats
