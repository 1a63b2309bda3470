import AndroidPatch.Library.Matching
import AndroidPatch.Formats.Equality

/-!
Contract: `equals` between objects of finite depth.

Owns:
- `Objects`, a heap that keeps the contracts of `Object.equals` between leaves,
  of sets and of maps;
- `Within`, the depth of an object, and that `equals` returns within it;
- on objects of finite depth `Alike` is an equivalence, and two objects that are
  alike have the same depth.

Sets and maps are compared from one side only. That the other side follows takes
the sizes, the absence of duplicates and the equivalence one level below, so all
of it is proved by one induction on the depth.
-/

namespace AndroidPatch.Formats

open AndroidPatch.Library

/-! ## Tests that return, and tests that return true -/

section Tests

variable {B : Type}

theorem allOf_returns {test : B → Option Bool} {elements : List B}
    (returns : ∀ element ∈ elements, ∃ verdict, test element = some verdict) :
    ∃ verdict, allOf test elements = some verdict := by
  induction elements with
  | nil => exact ⟨true, rfl⟩
  | cons element rest inductionHypothesis =>
      obtain ⟨verdict, tested⟩ := returns element List.mem_cons_self
      unfold allOf
      rw [tested]
      cases verdict with
      | false => exact ⟨false, rfl⟩
      | true =>
          exact inductionHypothesis fun other member => returns other (List.mem_cons_of_mem _ member)

theorem anyOf_returns {test : B → Option Bool} {elements : List B}
    (returns : ∀ element ∈ elements, ∃ verdict, test element = some verdict) :
    ∃ verdict, anyOf test elements = some verdict := by
  induction elements with
  | nil => exact ⟨false, rfl⟩
  | cons element rest inductionHypothesis =>
      obtain ⟨verdict, tested⟩ := returns element List.mem_cons_self
      unfold anyOf
      rw [tested]
      cases verdict with
      | true => exact ⟨true, rfl⟩
      | false =>
          exact inductionHypothesis fun other member => returns other (List.mem_cons_of_mem _ member)

theorem allOf_eq_true {test : B → Option Bool} {elements : List B} :
    allOf test elements = some true ↔ ∀ element ∈ elements, test element = some true := by
  induction elements with
  | nil => simp [allOf]
  | cons element rest inductionHypothesis =>
      unfold allOf
      rcases tested : test element with _ | _ | _
      · simp [tested]
      · simp [tested]
      · simp [tested, inductionHypothesis]

theorem exists_of_anyOf {test : B → Option Bool} {elements : List B}
    (found : anyOf test elements = some true) :
    ∃ element ∈ elements, test element = some true := by
  induction elements with
  | nil => cases found
  | cons element rest inductionHypothesis =>
      unfold anyOf at found
      rcases tested : test element with _ | _ | _
      · rw [tested] at found
        cases found
      · rw [tested] at found
        obtain ⟨other, member, testedOther⟩ := inductionHypothesis found
        exact ⟨other, List.mem_cons_of_mem _ member, testedOther⟩
      · exact ⟨element, List.mem_cons_self, tested⟩

theorem anyOf_of_exists {test : B → Option Bool} {elements : List B}
    (returns : ∀ element ∈ elements, ∃ verdict, test element = some verdict) {found : B}
    (member : found ∈ elements) (isTrue : test found = some true) :
    anyOf test elements = some true := by
  induction elements with
  | nil => cases member
  | cons element rest inductionHypothesis =>
      obtain ⟨verdict, tested⟩ := returns element List.mem_cons_self
      unfold anyOf
      rw [tested]
      cases verdict with
      | true => rfl
      | false =>
          rcases List.mem_cons.mp member with same | later
          · rw [← same, isTrue] at tested
            cases tested
          · exact inductionHypothesis
              (fun other isOther => returns other (List.mem_cons_of_mem _ isOther)) later

variable {equals : B → B → Option Bool}

theorem zipEquals_returns {lefts rights : List B}
    (returns : ∀ left ∈ lefts, ∀ right ∈ rights, ∃ verdict, equals left right = some verdict) :
    ∃ verdict, zipEquals equals lefts rights = some verdict := by
  induction lefts, rights using zipEquals.induct equals with
  | case1 => exact ⟨true, rfl⟩
  | case2 => exact ⟨false, rfl⟩
  | case3 => exact ⟨false, rfl⟩
  | case4 left lefts right rights isNone =>
      obtain ⟨verdict, compared⟩ := returns left List.mem_cons_self right List.mem_cons_self
      rw [isNone] at compared
      cases compared
  | case5 left lefts right rights isFalse =>
      simp only [zipEquals, isFalse]
      exact ⟨false, rfl⟩
  | case6 left lefts right rights isTrue inductionHypothesis =>
      simp only [zipEquals, isTrue]
      exact inductionHypothesis fun other isOther another isAnother =>
        returns other (List.mem_cons_of_mem _ isOther) another
          (List.mem_cons_of_mem _ isAnother)

theorem zipEquals_eq_true {lefts rights : List B} :
    zipEquals equals lefts rights = some true ↔
      List.Forall₂ (fun left right => equals left right = some true) lefts rights := by
  induction lefts, rights using zipEquals.induct equals with
  | case1 => simp [zipEquals]
  | case2 => simp [zipEquals]
  | case3 => simp [zipEquals]
  | case4 left lefts right rights isNone => simp [zipEquals, isNone]
  | case5 left lefts right rights isFalse => simp [zipEquals, isFalse]
  | case6 left lefts right rights isTrue inductionHypothesis =>
      simp [zipEquals, isTrue, inductionHypothesis]

variable [DecidableEq B]

theorem objectsEquals_returns {left right : B}
    (returns : ∃ verdict, equals left right = some verdict) :
    ∃ verdict, objectsEquals equals left right = some verdict := by
  unfold objectsEquals
  by_cases same : left = right
  · rw [if_pos same]
    exact ⟨true, rfl⟩
  · rw [if_neg same]
    exact returns

theorem objectsEquals_of_equals {left right : B} (equal : equals left right = some true) :
    objectsEquals equals left right = some true := by
  unfold objectsEquals
  by_cases same : left = right
  · rw [if_pos same]
  · rw [if_neg same, equal]

theorem entryMatches_returns {entry : B × B} {others : List (B × B)}
    (returns : ∀ other ∈ others, (∃ verdict, equals entry.1 other.1 = some verdict) ∧
      ∃ verdict, equals entry.2 other.2 = some verdict) :
    ∃ verdict, entryMatches equals entry others = some verdict := by
  induction others with
  | nil => exact ⟨false, rfl⟩
  | cons other rest inductionHypothesis =>
      obtain ⟨keys, values⟩ := returns other List.mem_cons_self
      obtain ⟨verdict, compared⟩ := objectsEquals_returns keys
      unfold entryMatches
      rw [compared]
      cases verdict with
      | true => exact values
      | false =>
          exact inductionHypothesis fun another member =>
            returns another (List.mem_cons_of_mem _ member)

theorem exists_of_entryMatches {entry : B × B} {others : List (B × B)}
    (found : entryMatches equals entry others = some true) :
    ∃ other ∈ others, objectsEquals equals entry.1 other.1 = some true ∧
      equals entry.2 other.2 = some true := by
  induction others with
  | nil => cases found
  | cons other rest inductionHypothesis =>
      unfold entryMatches at found
      rcases compared : objectsEquals equals entry.1 other.1 with _ | _ | _
      · rw [compared] at found
        cases found
      · rw [compared] at found
        obtain ⟨another, member, matched⟩ := inductionHypothesis found
        exact ⟨another, List.mem_cons_of_mem _ member, matched⟩
      · rw [compared] at found
        exact ⟨other, List.mem_cons_self, compared, found⟩

/-- The first entry with the key is the one with the key, if no other has it. -/
theorem entryMatches_of_exists {entry : B × B} {others : List (B × B)}
    (returns : ∀ other ∈ others, ∃ verdict, equals entry.1 other.1 = some verdict)
    {found : B × B} (member : found ∈ others) (sameKey : equals entry.1 found.1 = some true)
    (sameValue : equals entry.2 found.2 = some true)
    (only : ∀ other ∈ others, objectsEquals equals entry.1 other.1 = some true →
      other = found) : entryMatches equals entry others = some true := by
  induction others with
  | nil => cases member
  | cons other rest inductionHypothesis =>
      obtain ⟨verdict, compared⟩ := objectsEquals_returns (returns other List.mem_cons_self)
      unfold entryMatches
      rw [compared]
      cases verdict with
      | true =>
          rw [only other List.mem_cons_self compared]
          exact sameValue
      | false =>
          rcases List.mem_cons.mp member with same | later
          · rw [← same, objectsEquals_of_equals sameKey] at compared
            cases compared
          · exact inductionHypothesis
              (fun another isAnother => returns another (List.mem_cons_of_mem _ isAnother)) later
              fun another isAnother => only another (List.mem_cons_of_mem _ isAnother)

theorem setEquals_eq_true {own others : List B} :
    setEquals equals own others = some true ↔ own.length = others.length ∧
      ∀ right ∈ others,
        anyOf (objectsEquals equals right) own = some true := by
  unfold setEquals
  by_cases sizes : own.length = others.length
  · rw [if_neg (not_not.mpr sizes), allOf_eq_true]
    exact (and_iff_right sizes).symm
  · rw [if_pos sizes]
    simp [sizes]

theorem mapEquals_eq_true {own others : List (B × B)} :
    mapEquals equals own others = some true ↔ own.length = others.length ∧
      ∀ entry ∈ own, entryMatches equals entry others = some true := by
  unfold mapEquals
  by_cases sizes : own.length = others.length
  · rw [if_neg (not_not.mpr sizes), allOf_eq_true]
    exact (and_iff_right sizes).symm
  · rw [if_pos sizes]
    simp [sizes]

theorem pairEquals_returns {own other : B × B}
    (firsts : ∃ verdict, equals other.1 own.1 = some verdict)
    (seconds : ∃ verdict, equals other.2 own.2 = some verdict) :
    ∃ verdict, pairEquals equals own other = some verdict := by
  obtain ⟨verdict, compared⟩ := objectsEquals_returns firsts
  unfold pairEquals
  rw [compared]
  cases verdict with
  | false => exact ⟨false, rfl⟩
  | true => exact objectsEquals_returns seconds

theorem pairEquals_eq_true {own other : B × B} :
    pairEquals equals own other = some true ↔
      objectsEquals equals other.1 own.1 = some true ∧
        objectsEquals equals other.2 own.2 = some true := by
  unfold pairEquals
  rcases objectsEquals equals other.1 own.1 with _ | _ | _
  · simp
  · simp
  · simp

end Tests

namespace Heap

variable {A : Type} {heap : Heap A}

/-! ## Depth -/

/-- No chain of contents that starts at the object is longer than the depth. -/
def Within (heap : Heap A) : Nat → Option A → Prop
  | 0, _ => False
  | depth + 1, object => ∀ content ∈ heap.contentsOf object, heap.Within depth content

theorem Within.succ {depth : Nat} {object : Option A} (within : heap.Within depth object) :
    heap.Within (depth + 1) object := by
  induction depth generalizing object with
  | zero => exact within.elim
  | succ depth inductionHypothesis =>
      intro content member
      exact inductionHypothesis (within content member)

theorem Within.mono {depth more : Nat} (enough : depth ≤ more) {object : Option A}
    (within : heap.Within depth object) : heap.Within more object := by
  induction more, enough using Nat.le_induction with
  | base => exact within
  | succ more _ inductionHypothesis => exact inductionHypothesis.succ

theorem Within.content {depth : Nat} {object content : Option A}
    (within : heap.Within (depth + 1) object) (member : content ∈ heap.contentsOf object) :
    heap.Within depth content :=
  within content member

variable [DecidableEq A]

/-- One call returns if all comparisons between the contents do. -/
theorem equalsOnce_returns {equals : Option A → Option A → Option Bool} {object other : A}
    (returns : ∀ left ∈ heap.contentsOf (some object), ∀ right ∈ heap.contentsOf (some other),
      (∃ verdict, equals left right = some verdict) ∧
        ∃ verdict, equals right left = some verdict) :
    ∃ verdict, heap.equalsOnce equals object other = some verdict := by
  dsimp only [contentsOf] at returns
  unfold equalsOnce
  generalize heap.shape object = shape at returns ⊢
  generalize heap.shape other = otherShape at returns ⊢
  cases shape <;> cases otherShape <;> try exact ⟨_, rfl⟩
  case list.list own others =>
    dsimp only [Shape.contents] at returns ⊢
    by_cases same : object = other
    · rw [if_pos same]
      exact ⟨true, rfl⟩
    · rw [if_neg same]
      exact zipEquals_returns fun left isLeft right isRight =>
        (returns left isLeft right isRight).1
  case set.set own others =>
    dsimp only [Shape.contents] at returns ⊢
    by_cases same : object = other
    · rw [if_pos same]
      exact ⟨true, rfl⟩
    · rw [if_neg same]
      unfold setEquals
      by_cases sizes : own.length ≠ others.length
      · rw [if_pos sizes]
        exact ⟨false, rfl⟩
      · rw [if_neg sizes]
        refine allOf_returns fun right isRight => anyOf_returns fun left isLeft => ?_
        exact objectsEquals_returns (returns left isLeft right isRight).2
  case map.map own others =>
    dsimp only [Shape.contents] at returns ⊢
    by_cases same : object = other
    · rw [if_pos same]
      exact ⟨true, rfl⟩
    · rw [if_neg same]
      unfold mapEquals
      by_cases sizes : own.entries.length ≠ others.entries.length
      · rw [if_pos sizes]
        exact ⟨false, rfl⟩
      · rw [if_neg sizes]
        refine allOf_returns fun entry isEntry => entryMatches_returns fun another isAnother => ?_
        obtain ⟨isKey, isValue⟩ := JavaMap.mem_alternating isEntry
        obtain ⟨otherKey, otherValue⟩ := JavaMap.mem_alternating isAnother
        exact ⟨(returns _ isKey _ otherKey).1, (returns _ isValue _ otherValue).1⟩
  case pair.pair first second otherFirst otherSecond =>
    dsimp only [Shape.contents] at returns ⊢
    apply pairEquals_returns
    · exact (returns first (by simp) otherFirst (by simp)).2
    · exact (returns second (by simp) otherSecond (by simp)).2

/-- **`equals` returns within the depth of either object.** -/
theorem Within.returns {depth : Nat} {object : Option A} (within : heap.Within depth object)
    {fuel : Nat} (enough : depth ≤ fuel) (other : Option A) :
    (∃ verdict, heap.equals fuel object other = some verdict) ∧
      ∃ verdict, heap.equals fuel other object = some verdict := by
  induction depth generalizing object fuel other with
  | zero => exact within.elim
  | succ depth inductionHypothesis =>
      obtain ⟨fuel, rfl⟩ := Nat.exists_eq_add_one_of_ne_zero (show fuel ≠ 0 by omega)
      cases object with
      | none =>
          cases other with
          | none => exact ⟨⟨_, rfl⟩, ⟨_, rfl⟩⟩
          | some other => exact ⟨⟨_, rfl⟩, ⟨_, rfl⟩⟩
      | some object =>
          cases other with
          | none => exact ⟨⟨_, rfl⟩, ⟨_, rfl⟩⟩
          | some other =>
              have below : ∀ left ∈ heap.contentsOf (some object), ∀ right,
                  (∃ verdict, heap.equals fuel left right = some verdict) ∧
                    ∃ verdict, heap.equals fuel right left = some verdict :=
                fun left isLeft right =>
                  inductionHypothesis (within.content isLeft) (by omega) right
              constructor
              · exact equalsOnce_returns fun left isLeft right _ => below left isLeft right
              · exact equalsOnce_returns fun left _ right isRight => (below right isRight left).symm

/-- An answer true shows at every depth from that of the object on. -/
theorem Within.alike_iff {depth : Nat} {object other : Option A}
    (within : heap.Within depth object) {fuel : Nat} (enough : depth ≤ fuel) :
    heap.Alike object other ↔ heap.equals fuel object other = some true := by
  constructor
  · rintro ⟨early, equal⟩
    obtain ⟨verdict, compared⟩ := (within.returns enough other).1
    rw [compared, equals_agree equal compared]
  · exact fun equal => ⟨fuel, equal⟩

/-! ## What two objects that are alike have in common -/

/-- Two objects whose contents are alike, in the way their kind asks for. -/
inductive Corresponds (heap : Heap A) (object other : A) : Prop where
  | leaf {isFinal otherFinal : Bool} (isLeaf : heap.shape object = .leaf isFinal)
      (otherLeaf : heap.shape other = .leaf otherFinal)
      (equal : heap.leafEquals object other = true)
  | list {own others : List (Option A)} (isList : heap.shape object = .list own)
      (otherList : heap.shape other = .list others)
      (inStep : List.Forall₂ heap.Alike own others)
  | set {own others : List (Option A)} (isSet : heap.shape object = .set own)
      (otherSet : heap.shape other = .set others) (size : own.length = others.length)
      (partner : ∀ right ∈ others, ∃ left ∈ own, heap.Alike right left)
  | map {own others : InsertionMap (Option A)} (isMap : heap.shape object = .map own)
      (otherMap : heap.shape other = .map others)
      (size : own.entries.length = others.entries.length)
      (partner : ∀ entry ∈ own.entries, ∃ another ∈ others.entries,
        heap.Alike entry.1 another.1 ∧ heap.Alike entry.2 another.2)
  | array {componentName : String} {elements : List (Option A)}
      (isArray : heap.shape object = .array componentName elements) (same : object = other)
  | pair {first second otherFirst otherSecond : Option A}
      (isPair : heap.shape object = .pair first second)
      (otherPair : heap.shape other = .pair otherFirst otherSecond)
      (firsts : heap.Alike otherFirst first) (seconds : heap.Alike otherSecond second)

theorem alike_none_iff {other : Option A} : heap.Alike none other ↔ other = none := by
  constructor
  · rintro ⟨fuel, equal⟩
    cases fuel with
    | zero => cases equal
    | succ fuel => simpa [equals] using equal
  · rintro rfl
    exact ⟨1, rfl⟩

theorem not_alike_none (object : A) : ¬ heap.Alike (some object) none := by
  rintro ⟨fuel, equal⟩
  cases fuel with
  | zero => cases equal
  | succ fuel => cases equal

end Heap

/-- A heap as Java promises it: `equals` between leaves is an equivalence, no set
has two elements that are alike, no map has two keys that are. The names of
classes have no `%`. -/
structure Objects (A : Type) [DecidableEq A] extends Heap A where
  leafEquivalence : Equivalence fun left right => leafEquals left right = true
  setDistinct : ∀ object elements, shape object = .set elements →
    elements.Pairwise fun left right => ¬ toHeap.Alike left right
  mapDistinct : ∀ object contents, shape object = .map contents →
    contents.entries.Pairwise fun left right => ¬ toHeap.Alike left.1 right.1
  plainName : ∀ object, '%' ∉ (getSimpleName object).toList
  plainComponent : ∀ object componentName elements,
    shape object = .array componentName elements → '%' ∉ componentName.toList

namespace Objects

open Heap

variable {A : Type} [DecidableEq A] {objects : Objects A}

theorem alike_refl (object : Option A) : objects.Alike object object := by
  cases object with
  | none => exact alike_none_iff.mpr rfl
  | some object =>
      refine ⟨1, ?_⟩
      cases isShape : objects.shape object with
      | leaf isFinal =>
          simp only [Heap.equals, equalsOnce, isShape]
          rw [objects.leafEquivalence.refl object]
      | pair first second => simp [Heap.equals, equalsOnce, isShape, pairEquals, objectsEquals]
      | _ => simp [Heap.equals, equalsOnce, isShape]

theorem alike_of_objectsEquals {fuel : Nat} {left right : Option A}
    (equal : objectsEquals (objects.equals fuel) left right = some true) :
    objects.Alike left right := by
  unfold objectsEquals at equal
  by_cases same : left = right
  · rw [same]
    exact alike_refl right
  · rw [if_neg same] at equal
    exact ⟨fuel, equal⟩

theorem corresponds_refl (object : A) : objects.Corresponds object object := by
  cases isShape : objects.shape object with
  | leaf isFinal => exact .leaf isShape isShape (objects.leafEquivalence.refl object)
  | list own =>
      exact .list isShape isShape (List.forall₂_same.mpr fun element _ => alike_refl element)
  | set own =>
      exact .set isShape isShape rfl fun right isRight => ⟨right, isRight, alike_refl right⟩
  | map own =>
      exact .map isShape isShape rfl fun entry isEntry =>
        ⟨entry, isEntry, alike_refl entry.1, alike_refl entry.2⟩
  | array componentName elements => exact .array isShape rfl
  | pair first second => exact .pair isShape isShape (alike_refl first) (alike_refl second)

/-- Objects that are alike correspond, also where `equals` took the shortcut of
comparing identities. -/
theorem corresponds_of_alike {object other : A}
    (alike : objects.Alike (some object) (some other)) :
    objects.Corresponds object other := by
  by_cases same : object = other
  · rw [same]
    exact corresponds_refl other
  obtain ⟨fuel, equal⟩ := alike
  cases fuel with
  | zero => cases equal
  | succ fuel =>
      cases isShape : objects.shape object with
      | leaf isFinal =>
          cases isOther : objects.shape other with
          | leaf otherFinal =>
              simp only [Heap.equals, equalsOnce, isShape, isOther] at equal
              exact .leaf isShape isOther (Option.some.inj equal)
          | _ => simp [Heap.equals, equalsOnce, isShape, isOther] at equal
      | list own =>
          cases isOther : objects.shape other with
          | list others =>
              simp only [Heap.equals, equalsOnce, isShape, isOther, if_neg same] at equal
              refine .list isShape isOther ?_
              exact (zipEquals_eq_true.mp equal).imp fun _ _ equalPair => ⟨fuel, equalPair⟩
          | _ => simp [Heap.equals, equalsOnce, isShape, isOther] at equal
      | set own =>
          cases isOther : objects.shape other with
          | set others =>
              simp only [Heap.equals, equalsOnce, isShape, isOther, if_neg same] at equal
              obtain ⟨size, found⟩ := setEquals_eq_true.mp equal
              refine .set isShape isOther size fun right isRight => ?_
              obtain ⟨left, isLeft, equalLeft⟩ := exists_of_anyOf (found right isRight)
              exact ⟨left, isLeft, alike_of_objectsEquals equalLeft⟩
          | _ => simp [Heap.equals, equalsOnce, isShape, isOther] at equal
      | map own =>
          cases isOther : objects.shape other with
          | map others =>
              simp only [Heap.equals, equalsOnce, isShape, isOther, if_neg same] at equal
              obtain ⟨size, found⟩ := mapEquals_eq_true.mp equal
              refine .map isShape isOther size fun entry isEntry => ?_
              obtain ⟨another, isAnother, keys, values⟩ :=
                exists_of_entryMatches (found entry isEntry)
              exact ⟨another, isAnother, alike_of_objectsEquals keys, fuel, values⟩
          | _ => simp [Heap.equals, equalsOnce, isShape, isOther] at equal
      | array componentName elements =>
          cases isOther : objects.shape other with
          | array otherName others =>
              simp only [Heap.equals, equalsOnce, isShape, isOther] at equal
              exact .array isShape (by simpa using equal)
          | _ => simp [Heap.equals, equalsOnce, isShape, isOther] at equal
      | pair first second =>
          cases isOther : objects.shape other with
          | pair otherFirst otherSecond =>
              simp only [Heap.equals, equalsOnce, isShape, isOther] at equal
              obtain ⟨firsts, seconds⟩ := pairEquals_eq_true.mp equal
              exact .pair isShape isOther (alike_of_objectsEquals firsts)
                (alike_of_objectsEquals seconds)
          | _ => simp [Heap.equals, equalsOnce, isShape, isOther] at equal

/-! ## The induction on the depth -/

/-- What is shown of the objects of a depth before those that contain them. -/
structure Coherent (objects : Objects A) (depth : Nat) : Prop where
  symm : ∀ {left right}, objects.Within depth left → objects.Within depth right →
    objects.Alike left right → objects.Alike right left
  trans : ∀ {left middle right}, objects.Within depth left → objects.Within depth middle →
    objects.Within depth right → objects.Alike left middle → objects.Alike middle right →
      objects.Alike left right
  level : ∀ {left right}, objects.Within depth left → objects.Within depth right →
    objects.Alike left right → ∀ {lower}, objects.Within lower left →
      objects.Within lower right

namespace Coherent

variable {depth : Nat} (coherent : objects.Coherent depth)

/-- Every content of an object lies one level below it. -/
theorem within_element {object : A} {shape : Shape A} (isShape : objects.shape object = shape)
    (within : objects.Within (depth + 1) (some object)) {element : Option A}
    (member : element ∈ shape.contents) : objects.Within depth element := by
  apply within.content
  show element ∈ (objects.shape object).contents
  rw [isShape]
  exact member

theorem within_entry {object : A} {contents : InsertionMap (Option A)}
    (isMap : objects.shape object = .map contents)
    (within : objects.Within (depth + 1) (some object)) {entry : Option A × Option A}
    (member : entry ∈ contents.entries) :
    objects.Within depth entry.1 ∧ objects.Within depth entry.2 := by
  obtain ⟨isKey, isValue⟩ := JavaMap.mem_alternating member
  exact ⟨within_element isMap within isKey, within_element isMap within isValue⟩

theorem within_pair {object : A} {first second : Option A}
    (isPair : objects.shape object = .pair first second)
    (within : objects.Within (depth + 1) (some object)) :
    objects.Within depth first ∧ objects.Within depth second :=
  ⟨within_element isPair within (by simp [Shape.contents]),
    within_element isPair within (by simp [Shape.contents])⟩

include coherent

/-- Corresponding objects are alike. -/
theorem alike_of_corresponds {object other : A}
    (within : objects.Within (depth + 1) (some object))
    (withinOther : objects.Within (depth + 1) (some other))
    (corresponds : objects.Corresponds object other) :
    objects.Alike (some object) (some other) := by
  by_cases same : object = other
  · rw [same]
    exact alike_refl _
  refine ⟨depth + 1, ?_⟩
  cases corresponds with
  | leaf isLeaf otherLeaf equal =>
      simp only [Heap.equals, equalsOnce, isLeaf, otherLeaf, equal]
  | @list own others isList otherList inStep =>
      simp only [Heap.equals, equalsOnce, isList, otherList, if_neg same]
      apply zipEquals_eq_true.mpr
      refine forall₂_imp_of_mem inStep fun left isLeft right _ alike => ?_
      exact ((within_element isList within isLeft).alike_iff le_rfl).mp alike
  | @set own others isSet otherSet size partner =>
      simp only [Heap.equals, equalsOnce, isSet, otherSet, if_neg same]
      refine setEquals_eq_true.mpr ⟨size, fun right isRight => ?_⟩
      have withinRight := within_element otherSet withinOther isRight
      obtain ⟨left, isLeft, alike⟩ := partner right isRight
      refine anyOf_of_exists (fun element _ => ?_) isLeft ?_
      · exact objectsEquals_returns (withinRight.returns le_rfl element).1
      · exact objectsEquals_of_equals ((withinRight.alike_iff le_rfl).mp alike)
  | @map own others isMap otherMap size partner =>
      simp only [Heap.equals, equalsOnce, isMap, otherMap, if_neg same]
      refine mapEquals_eq_true.mpr ⟨size, fun entry isEntry => ?_⟩
      obtain ⟨withinKey, withinValue⟩ := within_entry isMap within isEntry
      obtain ⟨found, isFound, keys, values⟩ := partner entry isEntry
      have withinFound := (within_entry otherMap withinOther isFound).1
      refine entryMatches_of_exists (fun another _ => (withinKey.returns le_rfl another.1).1)
        isFound ((withinKey.alike_iff le_rfl).mp keys) ((withinValue.alike_iff le_rfl).mp values)
        fun another isAnother sameKey => ?_
      -- Two keys of the other map that are alike to one key are alike.
      have withinAnother := (within_entry otherMap withinOther isAnother).1
      have alikeAnother : objects.Alike entry.1 another.1 := alike_of_objectsEquals sameKey
      have back := coherent.symm withinKey withinAnother alikeAnother
      have backFound := coherent.symm withinKey withinFound keys
      exact eq_of_pairwise_not (objects.mapDistinct other others otherMap) isAnother isFound
        (coherent.trans withinAnother withinKey withinFound back keys)
        (coherent.trans withinFound withinKey withinAnother backFound alikeAnother)
  | array isArray isSame => exact absurd isSame same
  | @pair first second otherFirst otherSecond isPair otherPair firsts seconds =>
      obtain ⟨withinFirst, withinSecond⟩ := within_pair otherPair withinOther
      simp only [Heap.equals, equalsOnce, isPair, otherPair]
      refine pairEquals_eq_true.mpr ⟨?_, ?_⟩
      · exact objectsEquals_of_equals ((withinFirst.alike_iff le_rfl).mp firsts)
      · exact objectsEquals_of_equals ((withinSecond.alike_iff le_rfl).mp seconds)

theorem corresponds_symm {object other : A}
    (within : objects.Within (depth + 1) (some object))
    (withinOther : objects.Within (depth + 1) (some other))
    (corresponds : objects.Corresponds object other) :
    objects.Corresponds other object := by
  cases corresponds with
  | leaf isLeaf otherLeaf equal =>
      exact .leaf otherLeaf isLeaf (objects.leafEquivalence.symm equal)
  | @list own others isList otherList inStep =>
      refine .list otherList isList (forall₂_flip_of_mem inStep ?_)
      intro left isLeft right isRight alike
      exact coherent.symm (within_element isList within isLeft)
        (within_element otherList withinOther isRight) alike
  | @set own others isSet otherSet size partner =>
      -- No two elements of the other set have one partner.
      have unshared : others.Pairwise fun left right => ∀ element ∈ own,
          objects.Alike left element → ¬ objects.Alike right element := by
        refine (objects.setDistinct other others otherSet).imp_of_mem ?_
        intro left right isLeft isRight distinct element isElement alikeLeft alikeRight
        have withinLeft := within_element otherSet withinOther isLeft
        have withinRight := within_element otherSet withinOther isRight
        have withinElement := within_element isSet within isElement
        exact distinct (coherent.trans withinLeft withinElement withinRight alikeLeft
          (coherent.symm withinRight withinElement alikeRight))
      refine .set otherSet isSet size.symm fun left isLeft => ?_
      obtain ⟨right, isRight, alike⟩ := exists_partner size.symm unshared partner left isLeft
      exact ⟨right, isRight, coherent.symm (within_element otherSet withinOther isRight)
        (within_element isSet within isLeft) alike⟩
  | @map own others isMap otherMap size partner =>
      have unshared : own.entries.Pairwise fun left right => ∀ another ∈ others.entries,
          objects.Alike left.1 another.1 ∧ objects.Alike left.2 another.2 →
            ¬ (objects.Alike right.1 another.1 ∧ objects.Alike right.2 another.2) := by
        refine (objects.mapDistinct object own isMap).imp_of_mem ?_
        rintro left right isLeft isRight distinct another isAnother ⟨alikeLeft, -⟩ ⟨alikeRight, -⟩
        have withinLeft := (within_entry isMap within isLeft).1
        have withinRight := (within_entry isMap within isRight).1
        have withinAnother := (within_entry otherMap withinOther isAnother).1
        exact distinct (coherent.trans withinLeft withinAnother withinRight alikeLeft
          (coherent.symm withinRight withinAnother alikeRight))
      refine .map otherMap isMap size.symm fun another isAnother => ?_
      obtain ⟨entry, isEntry, keys, values⟩ :=
        exists_partner size unshared partner another isAnother
      obtain ⟨withinKey, withinValue⟩ := within_entry isMap within isEntry
      obtain ⟨otherKey, otherValue⟩ := within_entry otherMap withinOther isAnother
      exact ⟨entry, isEntry, coherent.symm withinKey otherKey keys,
        coherent.symm withinValue otherValue values⟩
  | array isArray isSame =>
      subst isSame
      exact .array isArray rfl
  | @pair first second otherFirst otherSecond isPair otherPair firsts seconds =>
      obtain ⟨withinFirst, withinSecond⟩ := within_pair isPair within
      obtain ⟨otherWithinFirst, otherWithinSecond⟩ := within_pair otherPair withinOther
      refine .pair otherPair isPair ?_ ?_
      · exact coherent.symm otherWithinFirst withinFirst firsts
      · exact coherent.symm otherWithinSecond withinSecond seconds

theorem corresponds_trans {object middle other : A}
    (within : objects.Within (depth + 1) (some object))
    (withinMiddle : objects.Within (depth + 1) (some middle))
    (withinOther : objects.Within (depth + 1) (some other))
    (early : objects.Corresponds object middle) (late : objects.Corresponds middle other) :
    objects.Corresponds object other := by
  cases early with
  | leaf isLeaf middleLeaf equal =>
      cases late with
      | leaf _ otherLeaf equalOther =>
          exact .leaf isLeaf otherLeaf (objects.leafEquivalence.trans equal equalOther)
      | _ => simp_all
  | @list own between isList middleList inStep =>
      cases late with
      | @list again others isMiddle otherList inStepOther =>
          rw [middleList] at isMiddle
          cases isMiddle
          refine .list isList otherList (forall₂_trans_of_mem inStep inStepOther ?_)
          intro left isLeft element isElement right isRight alikeLeft alikeRight
          exact coherent.trans (within_element isList within isLeft)
            (within_element middleList withinMiddle isElement)
            (within_element otherList withinOther isRight) alikeLeft alikeRight
      | _ => simp_all
  | @set own between isSet middleSet size partner =>
      cases late with
      | @set again others isMiddle otherSet sizeOther partnerOther =>
          rw [middleSet] at isMiddle
          cases isMiddle
          refine .set isSet otherSet (size.trans sizeOther) fun right isRight => ?_
          obtain ⟨element, isElement, alikeRight⟩ := partnerOther right isRight
          obtain ⟨left, isLeft, alikeElement⟩ := partner element isElement
          exact ⟨left, isLeft, coherent.trans (within_element otherSet withinOther isRight)
            (within_element middleSet withinMiddle isElement)
            (within_element isSet within isLeft) alikeRight alikeElement⟩
      | _ => simp_all
  | @map own between isMap middleMap size partner =>
      cases late with
      | @map again others isMiddle otherMap sizeOther partnerOther =>
          rw [middleMap] at isMiddle
          cases isMiddle
          refine .map isMap otherMap (size.trans sizeOther) fun entry isEntry => ?_
          obtain ⟨element, isElement, keys, values⟩ := partner entry isEntry
          obtain ⟨another, isAnother, otherKeys, otherValues⟩ := partnerOther element isElement
          obtain ⟨withinKey, withinValue⟩ := within_entry isMap within isEntry
          obtain ⟨middleKey, middleValue⟩ := within_entry middleMap withinMiddle isElement
          obtain ⟨otherKey, otherValue⟩ := within_entry otherMap withinOther isAnother
          exact ⟨another, isAnother,
            coherent.trans withinKey middleKey otherKey keys otherKeys,
            coherent.trans withinValue middleValue otherValue values otherValues⟩
      | _ => simp_all
  | array isArray isSame =>
      subst isSame
      exact late
  | @pair first second middleFirst middleSecond isPair middlePair firsts seconds =>
      cases late with
      | @pair _ _ otherFirst otherSecond isMiddle otherPair otherFirsts otherSeconds =>
          rw [middlePair] at isMiddle
          cases isMiddle
          obtain ⟨withinFirst, withinSecond⟩ := within_pair isPair within
          obtain ⟨middleWithinFirst, middleWithinSecond⟩ := within_pair middlePair withinMiddle
          obtain ⟨otherWithinFirst, otherWithinSecond⟩ := within_pair otherPair withinOther
          refine .pair isPair otherPair ?_ ?_
          · exact coherent.trans otherWithinFirst middleWithinFirst withinFirst otherFirsts firsts
          · exact coherent.trans otherWithinSecond middleWithinSecond withinSecond otherSeconds
              seconds
      | _ => simp_all

omit coherent

/-- Every content of the second object is alike to one of the first, in one of
the two orders. -/
theorem exists_content {object other : A} (corresponds : objects.Corresponds object other)
    (back : objects.Corresponds other object) {right : Option A}
    (isRight : right ∈ objects.contentsOf (some other)) :
    ∃ left ∈ objects.contentsOf (some object),
      objects.Alike left right ∨ objects.Alike right left := by
  dsimp only [contentsOf] at isRight ⊢
  cases corresponds with
  | leaf isLeaf otherLeaf equal =>
      rw [otherLeaf] at isRight
      cases isRight
  | list isList otherList inStep =>
      rw [otherList] at isRight
      rw [isList]
      obtain ⟨left, isLeft, alike⟩ := exists_partner_of_forall₂ inStep right isRight
      exact ⟨left, isLeft, .inl alike⟩
  | set isSet otherSet size partner =>
      rw [otherSet] at isRight
      rw [isSet]
      obtain ⟨left, isLeft, alike⟩ := partner right isRight
      exact ⟨left, isLeft, .inr alike⟩
  | @map own others isMap otherMap size partner =>
      cases back with
      | @map otherOwn ownAgain isOther isOwn _ partnerBack =>
          rw [otherMap] at isOther isRight
          rw [isMap] at isOwn ⊢
          cases isOther
          cases isOwn
          obtain ⟨another, isAnother, isOne⟩ := List.mem_flatMap.mp isRight
          obtain ⟨entry, isEntry, keys, values⟩ := partnerBack another isAnother
          obtain ⟨isKey, isValue⟩ := JavaMap.mem_alternating isEntry
          rcases List.mem_cons.mp isOne with same | second
          · exact ⟨entry.1, isKey, .inr (same ▸ keys)⟩
          · rw [List.mem_singleton.mp second]
            exact ⟨entry.2, isValue, .inr values⟩
      | _ => simp_all
  | array isArray isSame =>
      subst isSame
      exact ⟨right, isRight, .inl (alike_refl right)⟩
  | @pair first second otherFirst otherSecond isPair otherPair firsts seconds =>
      rw [otherPair] at isRight
      rw [isPair]
      rcases List.mem_cons.mp isRight with same | later
      · exact ⟨first, by simp [Shape.contents], .inr (same ▸ firsts)⟩
      · rw [List.mem_singleton.mp later]
        exact ⟨second, by simp [Shape.contents], .inr seconds⟩

end Coherent

/-- **`equals` is an equivalence on objects of finite depth, and objects that are
alike are equally deep.**  The induction is on the depth: each kind of object is
compared through its contents, one level below. -/
theorem coherent (objects : Objects A) (depth : Nat) : objects.Coherent depth := by
  induction depth with
  | zero =>
      exact ⟨fun within => within.elim, fun within => within.elim, fun within => within.elim⟩
  | succ depth inductionHypothesis =>
      have symm : ∀ {left right}, objects.Within (depth + 1) left →
          objects.Within (depth + 1) right → objects.Alike left right →
            objects.Alike right left := by
        intro left right withinLeft withinRight alike
        match left, right with
        | none, right => rw [alike_none_iff.mp alike]; exact alike_refl none
        | some left, none => exact absurd alike (not_alike_none left)
        | some left, some right =>
            exact inductionHypothesis.alike_of_corresponds withinRight withinLeft
              (inductionHypothesis.corresponds_symm withinLeft withinRight
                (corresponds_of_alike alike))
      refine ⟨symm, ?_, ?_⟩
      · intro left middle right withinLeft withinMiddle withinRight early late
        match left, middle, right with
        | none, middle, right =>
            rw [alike_none_iff.mp early] at late
            exact late
        | some left, none, right => exact absurd early (not_alike_none left)
        | some left, some middle, none => exact absurd late (not_alike_none middle)
        | some left, some middle, some right =>
            exact inductionHypothesis.alike_of_corresponds withinLeft withinRight
              (inductionHypothesis.corresponds_trans withinLeft withinMiddle withinRight
                (corresponds_of_alike early) (corresponds_of_alike late))
      · intro left right withinLeft withinRight alike lower lowerLeft
        match left, right with
        | none, right =>
            rw [alike_none_iff.mp alike]
            exact lowerLeft
        | some left, none => exact absurd alike (not_alike_none left)
        | some left, some right =>
            cases lower with
            | zero => exact lowerLeft.elim
            | succ lower =>
                intro content isContent
                obtain ⟨partner, isPartner, alikePartner⟩ := Coherent.exists_content
                  (corresponds_of_alike alike)
                  (corresponds_of_alike (symm withinLeft withinRight alike)) isContent
                have withinPartner := withinLeft.content isPartner
                have withinContent := withinRight.content isContent
                have towards : objects.Alike partner content := by
                  rcases alikePartner with alike | back
                  · exact alike
                  · exact inductionHypothesis.symm withinContent withinPartner back
                exact inductionHypothesis.level withinPartner withinContent towards
                  (lowerLeft.content isPartner)

end Objects

end AndroidPatch.Formats
