import AndroidPatch.Formats.Values

/-!
Contract: the rendering of values of finite depth.

Owns:
- `reference`, the recursive rendering without formats, templates or a stack;
- an object is never alike to one that contains it, so the search on the stack
  finds nothing;
- a rendering prints exactly the reference rendering, and leaves the thread as
  it was.
-/

namespace AndroidPatch.Formats

open AndroidPatch.Lang

/-! ## One level of a rendering -/

section Level

variable {N : Type}

/-- Arguments that each render to a text and leave the thread as it is. -/
theorem renderAll_texts {render : N → ThreadState N → Rendered N (Option String)}
    {text : N → Option String} {thread : ThreadState N} {children : List N}
    (each : ∀ child ∈ children, render child thread = some (.ok (text child), thread)) :
    renderAll render children thread = some (.ok (children.map text), thread) := by
  induction children with
  | nil => rfl
  | cons child rest inductionHypothesis =>
      have later := inductionHypothesis fun other member =>
        each other (List.mem_cons_of_mem _ member)
      unfold renderAll
      rw [each child List.mem_cons_self]
      dsimp only
      rw [later]
      rfl

/-- A call whose format answers with a template. Without arguments the template
itself is the text. -/
theorem FormatEntry.toString_ofFormatting {entry : FormatEntry N} {fuel : Nat} {object : N}
    {thread : ThreadState N} {template text : String} {elements : List N}
    {texts : List (Option String)}
    (missing : lastIndexOf (entry.equals fuel) object thread.ignore = some (-1))
    (answered : entry.answer object = .ofFormatting ⟨some template, some elements⟩)
    (rendered : renderAll (entry.toString fuel) elements
        (thread.withIgnore (object :: thread.ignore)) =
      some (.ok texts, thread.withIgnore (object :: thread.ignore)))
    (raw : elements = [] → template = text)
    (formatted : stringFormat entry.toUpperCase (some template) texts = .ok text) :
    entry.toString (fuel + 1) object thread =
      some (.ok (some text), thread.withIgnore thread.ignore) := by
  rw [entry.toString_answer missing (by omega), answered]
  cases elements with
  | nil =>
      rw [← raw rfl]
      rfl
  | cons child children =>
      dsimp only [Answer.ofFormatting]
      rw [rendered]
      dsimp only [FormatEntry.complete]
      rw [formatted]
      rfl

/-- A search among objects none of which is equal. -/
theorem lastIndexOf_missing {equals : N → N → Option Bool} {object : N} {stack : List N}
    (different : ∀ ancestor ∈ stack, equals object ancestor = some false) :
    lastIndexOf equals object stack = some (-1) := by
  induction stack with
  | nil => rfl
  | cons top rest inductionHypothesis =>
      unfold lastIndexOf
      rw [different top List.mem_cons_self]
      exact inductionHypothesis fun ancestor member =>
        different ancestor (List.mem_cons_of_mem _ member)

end Level

/-! ## The reference rendering -/

/-- `Name[r1, ..., rn]`. -/
def sequenceText (name : String) (texts : List (Option String)) : String :=
  name ++ "[" ++ joined (texts.map printed) ++ "]"

/-- The name and the entries of a map, `k1=v1, ..., kn=vn` in braces. -/
def mapText (name : String) (entries : List (Option String × Option String)) : String :=
  name ++ "\x7b" ++ joinedPairs (entries.map fun entry => (printed entry.1, printed entry.2)) ++
    "\x7d"

/-- The recursive rendering of an object, down to a depth below which there is no
text. -/
def Heap.reference {A : Type} (heap : Heap A) : Nat → Option A → Option String
  | _, none => some "null"
  | 0, some _ => none
  | depth + 1, some object =>
      match heap.shape object with
      | .leaf _ => heap.valueOf object
      | .list elements =>
          some (sequenceText (heap.getSimpleName object) (elements.map (reference heap depth)))
      | .set elements =>
          some (sequenceText (heap.getSimpleName object) (elements.map (reference heap depth)))
      | .array componentName elements =>
          some (sequenceText componentName (elements.map (reference heap depth)))
      | .pair first second =>
          some (sequenceText (heap.getSimpleName object)
            ([first, second].map (reference heap depth)))
      | .map contents =>
          some (mapText (heap.getSimpleName object) (contents.entries.map fun entry =>
            (reference heap depth entry.1, reference heap depth entry.2)))

namespace Objects

open Heap

variable {A : Type} [DecidableEq A] {objects : Objects A}

/-! ## Objects on the stack -/

/-- The object is less deep than the other. -/
def Lower (objects : Objects A) (object other : Option A) : Prop :=
  ∃ depth, objects.Within depth object ∧ ¬ objects.Within depth other

/-- What an object contains is less deep. -/
theorem lower_content {depth : Nat} {object content : Option A}
    (within : objects.Within depth object) (member : content ∈ objects.contentsOf object) :
    objects.Lower content object := by
  induction depth with
  | zero => exact within.elim
  | succ depth inductionHypothesis =>
      by_cases already : objects.Within depth object
      · exact inductionHypothesis already
      · exact ⟨depth, within.content member, already⟩

theorem Lower.content {object other content : Option A} (lower : objects.Lower object other)
    (member : content ∈ objects.contentsOf object) : objects.Lower content other := by
  obtain ⟨depth, within, deeper⟩ := lower
  cases depth with
  | zero => exact within.elim
  | succ depth => exact ⟨depth + 1, (within.content member).succ, deeper⟩

/-- **An object is not alike to one that is deeper.** -/
theorem Lower.not_alike {object other : Option A} (lower : objects.Lower object other)
    {depth : Nat} (withinOther : objects.Within depth other) : ¬ objects.Alike object other := by
  intro alike
  obtain ⟨less, within, deeper⟩ := lower
  have coherent := objects.coherent (max less depth)
  exact deeper (coherent.level (within.mono (Nat.le_max_left less depth))
    (withinOther.mono (Nat.le_max_right less depth)) alike within)

/-- The search finds nothing, as long as the stack holds only deeper objects. -/
theorem lastIndexOf_lower {depth fuel : Nat} {object : Option A}
    (within : objects.Within depth object) (enough : depth ≤ fuel) {stack : List (Option A)}
    (lower : ∀ ancestor ∈ stack, objects.Lower object ancestor ∧
      ∃ height, objects.Within height ancestor) :
    lastIndexOf (objects.entry.equals fuel) object stack = some (-1) := by
  refine lastIndexOf_missing fun ancestor member => ?_
  obtain ⟨isLower, height, withinAncestor⟩ := lower ancestor member
  obtain ⟨verdict, compared⟩ := (within.returns enough ancestor).1
  cases verdict with
  | false => exact compared
  | true => exact absurd ⟨fuel, compared⟩ (isLower.not_alike withinAncestor)

/-! ## The rendering is the reference rendering -/

section Kinds

variable {fuel limit : Nat} {object : A} {thread : ThreadState (Option A)}
  (missing : lastIndexOf (objects.entry.equals fuel) (some object) thread.ignore = some (-1))
  (each : ∀ child ∈ objects.contentsOf (some object),
    objects.entry.toString fuel child (thread.withIgnore (some object :: thread.ignore)) =
      some (.ok (objects.reference limit child),
        thread.withIgnore (some object :: thread.ignore)))

include missing each

theorem toString_iterable {name : String} {elements : List (Option A)}
    (isElements : objects.iterableToArray (some object) = some elements)
    (isName : objects.iterableNameOf (some object) = some name) (plain : '%' ∉ name.toList) :
    objects.entry.toString (fuel + 1) (some object) thread =
      some (.ok (some (sequenceText name (elements.map (objects.reference limit)))),
        thread.withIgnore thread.ignore) := by
  have isContents : objects.contentsOf (some object) = elements := by
    rw [← childrenOf_eq, childrenOf_iterable isElements]
  have answered := answer_iterable isElements
  rw [isName] at answered
  refine FormatEntry.toString_ofFormatting missing answered
    (renderAll_texts fun child member => each child (by rw [isContents]; exact member)) ?_ ?_
  · rintro rfl
    simp [FormatIterable.template, sequenceText, placeholders, joined]
  · exact stringFormat_iterable _ _ plain (by simp)

theorem toString_map {contents : InsertionMap (Option A)}
    (isMap : objects.shape object = .map contents) :
    objects.entry.toString (fuel + 1) (some object) thread =
      some (.ok (some (mapText (objects.getSimpleName object) (contents.entries.map fun entry =>
          (objects.reference limit entry.1, objects.reference limit entry.2)))),
        thread.withIgnore thread.ignore) := by
  have isContents : objects.contentsOf (some object) =
      JavaMap.alternating contents.entries := by
    simp only [contentsOf, isMap, Shape.contents]
  have isPairs : (JavaMap.alternating contents.entries).map (objects.reference limit) =
      (contents.entries.map fun entry =>
        (objects.reference limit entry.1, objects.reference limit entry.2)).flatMap
          fun pair => [pair.1, pair.2] := by
    simp [JavaMap.alternating, List.map_flatMap, List.flatMap_map]
  refine FormatEntry.toString_ofFormatting missing (answer_map isMap)
    (renderAll_texts fun child member => each child (by rw [isContents]; exact member)) ?_ ?_
  · intro isEmpty
    have noEntries : contents.entries = [] := by
      cases isEntries : contents.entries with
      | nil => rfl
      | cons entry rest => simp [isEntries, JavaMap.alternating] at isEmpty
    simp [FormatMap.template, mapText, pairPlaceholders, joinedPairs, noEntries,
      JavaMap.alternating]
  · exact stringFormat_map _ _ (objects.plainName object) isPairs (by simp)

end Kinds

/-- One object and everything below it. The induction is on the depth. -/
theorem toString_within {depth : Nat} {object : Option A} (within : objects.Within depth object)
    {fuel limit : Nat} (enough : depth < fuel) (bound : depth ≤ limit)
    {thread : ThreadState (Option A)}
    (lower : ∀ ancestor ∈ thread.ignore, objects.Lower object ancestor ∧
      ∃ height, objects.Within height ancestor) :
    objects.entry.toString fuel object thread =
      some (.ok (objects.reference limit object), thread.withIgnore thread.ignore) := by
  induction depth generalizing object fuel limit thread with
  | zero => exact within.elim
  | succ depth inductionHypothesis =>
      obtain ⟨fuel, rfl⟩ := Nat.exists_eq_add_one_of_ne_zero (show fuel ≠ 0 by omega)
      obtain ⟨limit, rfl⟩ := Nat.exists_eq_add_one_of_ne_zero (show limit ≠ 0 by omega)
      have missing : lastIndexOf (objects.entry.equals fuel) object thread.ignore = some (-1) :=
        lastIndexOf_lower within (by omega) lower
      have each : ∀ child ∈ objects.contentsOf object,
          objects.entry.toString fuel child (thread.withIgnore (object :: thread.ignore)) =
            some (.ok (objects.reference limit child),
              thread.withIgnore (object :: thread.ignore)) := by
        intro child member
        apply inductionHypothesis (within.content member) (by omega) (by omega)
        intro ancestor isAncestor
        rcases List.mem_cons.mp isAncestor with same | above
        · rw [same]
          exact ⟨lower_content within member, depth + 1, within⟩
        · obtain ⟨isLower, height⟩ := lower ancestor above
          exact ⟨isLower.content member, height⟩
      cases object with
      | none => rw [objects.entry.toString_answer missing (by omega), answer_null]; rfl
      | some object =>
          have plain := objects.plainName object
          unfold Heap.reference
          cases isShape : objects.shape object with
          | leaf isFinal =>
              rw [objects.entry.toString_answer missing (by omega), answer_leaf isShape]
          | list elements =>
              exact toString_iterable missing each (by simp only [iterableToArray, isShape])
                (by simp only [iterableNameOf, isShape]) plain
          | set elements =>
              exact toString_iterable missing each (by simp only [iterableToArray, isShape])
                (by simp only [iterableNameOf, isShape]) plain
          | map contents => exact toString_map missing each isShape
          | array componentName elements =>
              exact toString_iterable missing each (by simp only [iterableToArray, isShape])
                (by simp only [iterableNameOf, isShape])
                (objects.plainComponent object componentName elements isShape)
          | pair first second =>
              exact toString_iterable missing each (by simp only [iterableToArray, isShape])
                (by simp only [iterableNameOf, isShape]) plain

/-- The first object is among the contents of the second. -/
def Inside (objects : Objects A) (content object : Option A) : Prop :=
  content ∈ objects.contentsOf object

/-- A value that is built up by nesting has a depth. -/
theorem within_of_nested {object : Option A} (nested : Acc objects.Inside object) :
    ∃ depth, objects.Within depth object := by
  induction nested with
  | intro object _ inductionHypothesis =>
      have common : ∀ contents : List (Option A),
          (∀ content ∈ contents, ∃ depth, objects.Within depth content) →
            ∃ depth, ∀ content ∈ contents, objects.Within depth content := by
        intro contents
        induction contents with
        | nil => exact fun _ => ⟨0, fun _ member => absurd member List.not_mem_nil⟩
        | cons head tail common =>
            intro each
            obtain ⟨first, withinHead⟩ := each head List.mem_cons_self
            obtain ⟨others, withinTail⟩ := common fun content member =>
              each content (List.mem_cons_of_mem _ member)
            refine ⟨max first others, fun content member => ?_⟩
            rcases List.mem_cons.mp member with same | later
            · rw [same]
              exact withinHead.mono (Nat.le_max_left first others)
            · exact (withinTail content later).mono (Nat.le_max_right first others)
      obtain ⟨depth, within⟩ := common (objects.contentsOf object) inductionHypothesis
      exact ⟨depth + 1, within⟩

/-- **Values built up by nesting print as the reference rendering.**  From a
thread that renders nothing else, with enough depth, the result is the text of
the reference rendering; no marker is printed and the stack is empty again. -/
theorem toString_eq_reference (objects : Objects A) {object : Option A}
    (nested : Acc objects.Inside object) {thread : ThreadState (Option A)}
    (idle : thread.ignore = []) :
    ∃ depth text, ∀ more ≥ depth, objects.reference more object = text ∧
      objects.entry.toString (more + 1) object thread =
        some (.ok text, ⟨some [], thread.markers⟩) := by
  obtain ⟨depth, within⟩ := within_of_nested nested
  have nothing : ∀ ancestor ∈ thread.ignore, objects.Lower object ancestor ∧
      ∃ height, objects.Within height ancestor := by
    rw [idle]
    exact fun _ member => absurd member List.not_mem_nil
  have isThread : thread.withIgnore thread.ignore = ⟨some [], thread.markers⟩ := by
    rw [idle]
    rfl
  have renders : ∀ {fuel limit}, depth < fuel → depth ≤ limit →
      objects.entry.toString fuel object thread =
        some (.ok (objects.reference limit object), ⟨some [], thread.markers⟩) := by
    intro fuel limit enough bound
    rw [toString_within within enough bound nothing, isThread]
  refine ⟨depth, objects.reference depth object, fun more enough => ?_⟩
  have atMore := renders (Nat.lt_succ_of_le enough) enough
  have atDepth := renders (Nat.lt_succ_of_le enough) (le_refl depth)
  refine ⟨?_, atDepth⟩
  rw [atDepth] at atMore
  injection atMore with pairs
  injection pairs with texts
  injection texts with text
  exact text.symm

/-- A pair of a map and of the list that is a value of that map. The text of the
leaf looks like a format specifier. -/
def mapAndItsValue : Objects (Fin 4) where
  shape := fun
    | 0 => .leaf true
    | 1 => .list [some 0, none]
    | 2 => .map ⟨⟨[(some 0, some 1)], false, 1, by decide⟩, rfl⟩
    | 3 => .pair (some 2) (some 1)
  valueOf := fun _ => some "50%d"
  getSimpleName := fun
    | 0 => "String"
    | 1 => "ArrayList"
    | 2 => "HashMap"
    | 3 => "Pair"
  isSystemClass := fun _ => true
  leafEquals := fun left right => left = right
  raises := fun _ => .other 0
  toUpperCase := id
  leafEquivalence :=
    ⟨fun _ => by simp, fun same => by simpa using (of_decide_eq_true same).symm,
      fun first second => by
        simpa using (of_decide_eq_true first).trans (of_decide_eq_true second)⟩
  setDistinct := by
    intro object elements isSet
    match object with
    | 0 => cases isSet
    | 1 => cases isSet
    | 2 => cases isSet
    | 3 => cases isSet
  mapDistinct := by
    intro object contents isMap
    match object with
    | 0 => cases isMap
    | 1 => cases isMap
    | 2 =>
        cases isMap
        exact List.pairwise_singleton _ _
    | 3 => cases isMap
  plainName := by decide
  plainComponent := by
    intro object componentName elements isArray
    match object with
    | 0 => cases isArray
    | 1 => cases isArray
    | 2 => cases isArray
    | 3 => cases isArray

theorem mapAndItsValue_nested : Acc mapAndItsValue.Inside (some 3) := by
  let rank : Option (Fin 4) → Nat := fun object => object.elim 0 fun index => index.val + 1
  have smaller : ∀ index, ∀ content ∈ mapAndItsValue.contentsOf (some index),
      rank content < rank (some index) := by decide
  have descends : Subrelation mapAndItsValue.Inside (measure rank).rel := by
    intro content object inside
    cases object with
    | none => cases inside
    | some index => exact smaller index content inside
  exact (Subrelation.wf descends (measure rank).wf).apply (some 3)

theorem mapAndItsValue_rendered : ∃ depth, ∀ more ≥ depth,
    mapAndItsValue.entry.toString (more + 1) (some 3) ⟨none, []⟩ =
      some (.ok (some
        "Pair[HashMap\x7b50%d=ArrayList[50%d, null]\x7d, ArrayList[50%d, null]]"),
          ⟨some [], []⟩) := by
  obtain ⟨depth, text, agrees⟩ := toString_eq_reference mapAndItsValue mapAndItsValue_nested
    (show ThreadState.ignore ⟨none, []⟩ = [] from rfl)
  have isText : mapAndItsValue.reference (depth + 4) (some 3) =
      some "Pair[HashMap\x7b50%d=ArrayList[50%d, null]\x7d, ArrayList[50%d, null]]" := rfl
  rw [(agrees (depth + 4) (by omega)).1] at isText
  rw [← isText]
  exact ⟨depth, fun more enough => (agrees more enough).2⟩

end Objects

end AndroidPatch.Formats
