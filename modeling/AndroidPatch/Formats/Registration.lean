import Mathlib.Data.List.Induction
import AndroidPatch.Formats.Heap

/-!
Contract: which format a `FormatEntry` uses, after any history of `add` and `remove`.

Owns:
- `mFormatList` and `mFormatArray`, and the calls that change them;
- the custom formats that stand after a history: those added that no later call
  concerns, the most recent first;
- the predicates of the six built-in formats, as functions of the class of an object;
- the format in charge of an object, and that `toString` is the work of this format.
-/

namespace AndroidPatch.Formats

open AndroidPatch.Lang

/-! ## The registry -/

/-- `equals` of the custom formats. -/
structure FormatEquality (F : Type) where
  equals : F → F → Bool
  refl : ∀ format, equals format format = true
  symm : ∀ {format other}, equals format other = true → equals other format = true
  trans : ∀ {format other third}, equals format other = true → equals other third = true →
    equals format third = true

/-- An element of `mFormatArray`. -/
inductive Slot (F : Type) where
  | objectB
  | iterableB
  | mapB
  | custom (format : F)
  | mapA
  | iterableA
  | objectA
deriving DecidableEq, Repr

structure FormatRegistry (F : Type) where
  mFormatList : List F
  mFormatArray : List (Slot F)
deriving DecidableEq, Repr

inductive RegistryCall (F : Type) where
  | add (format : Option F)
  | remove (format : Option F)
deriving DecidableEq, Repr

variable {F : Type} (equality : FormatEquality F)

/-- `mFormatList.remove(format)`: the first element that equals it goes. -/
def removeFormat (format : F) (formats : List F) : List F :=
  formats.eraseP (equality.equals format)

namespace FormatRegistry

/-- `FormatEntry.flush`: the custom formats are spliced in at index 3. -/
def flush (registry : FormatRegistry F) : FormatRegistry F :=
  let formatList : List (Slot F) := [.objectB, .iterableB, .mapB, .mapA, .iterableA, .objectA]
  { registry with
    mFormatArray := formatList.take 3 ++ registry.mFormatList.map .custom ++ formatList.drop 3 }

/-- The constructor. -/
def initial : FormatRegistry F := flush ⟨[], []⟩

/-- `FormatEntry.add`. -/
def add (registry : FormatRegistry F) : Option F → FormatRegistry F
  | none => registry
  | some format =>
      flush { registry with mFormatList := format :: removeFormat equality format registry.mFormatList }

/-- `FormatEntry.remove`. -/
def remove (registry : FormatRegistry F) : Option F → FormatRegistry F
  | none => registry
  | some format =>
      flush { registry with mFormatList := removeFormat equality format registry.mFormatList }

def call (registry : FormatRegistry F) : RegistryCall F → FormatRegistry F
  | .add format => registry.add equality format
  | .remove format => registry.remove equality format

def run (calls : List (RegistryCall F)) : FormatRegistry F :=
  calls.foldl (call equality) initial

end FormatRegistry

/-! ## What stands after a history -/

namespace RegistryCall

/-- The format that a call is about. -/
def format : RegistryCall F → Option F
  | .add format => format
  | .remove format => format

/-- The format that a call adds. -/
def added : RegistryCall F → List F
  | .add format => format.toList
  | .remove _ => []

/-- The call adds or removes a format that equals this one. -/
def concerns (call : RegistryCall F) (custom : F) : Bool :=
  call.format.any (equality.equals · custom)

end RegistryCall

/-- The formats added that no later call concerns, the most recent first. -/
def standing : List (RegistryCall F) → List F
  | [] => []
  | call :: later =>
      standing later ++ call.added.filter fun format =>
        ! later.any (·.concerns equality format)

theorem standing_append (calls : List (RegistryCall F)) (call : RegistryCall F) :
    standing equality (calls ++ [call]) =
      call.added ++ (standing equality calls).filter (! call.concerns equality ·) := by
  induction calls with
  | nil => simp [standing]
  | cons first later inductionHypothesis =>
      rw [List.cons_append, standing, inductionHypothesis, standing, List.filter_append,
        List.append_assoc, List.filter_filter]
      congr 2
      refine List.filter_congr fun format _ => ?_
      simp [Bool.and_comm]

theorem exists_added_of_standing {calls : List (RegistryCall F)} {format : F}
    (stands : format ∈ standing equality calls) : ∃ call ∈ calls, format ∈ call.added := by
  induction calls with
  | nil => cases stands
  | cons first later inductionHypothesis =>
      rw [standing] at stands
      rcases List.mem_append.mp stands with standsLater | isFirst
      · obtain ⟨call, isCall, isAdded⟩ := inductionHypothesis standsLater
        exact ⟨call, List.mem_cons_of_mem first isCall, isAdded⟩
      · exact ⟨first, List.mem_cons_self, (List.mem_filter.mp isFirst).1⟩

theorem concerns_of_added {call : RegistryCall F} {format other : F} (isAdded : format ∈ call.added)
    (equal : equality.equals format other = true) : call.concerns equality other = true := by
  cases call with
  | remove removed => cases isAdded
  | add added =>
      have isFormat : added = some format := Option.mem_toList.mp isAdded
      simp [RegistryCall.concerns, RegistryCall.format, isFormat, equal]

/-- No two formats that stand are equal. -/
theorem standing_distinct (calls : List (RegistryCall F)) :
    (standing equality calls).Pairwise fun format older =>
      equality.equals format older = false := by
  induction calls with
  | nil => exact List.Pairwise.nil
  | cons first later inductionHypothesis =>
      rw [standing]
      refine List.pairwise_append.mpr ⟨inductionHypothesis, ?_, ?_⟩
      · cases first with
        | remove format => exact List.Pairwise.nil
        | add format =>
            cases format with
            | none => exact List.Pairwise.nil
            | some format => exact (List.pairwise_singleton _ format).filter _
      · intro format stands older isOlder
        obtain ⟨call, isCall, isAdded⟩ := exists_added_of_standing equality stands
        have unconcerned := (List.mem_filter.mp isOlder).2
        by_contra equal
        have isConcerned := concerns_of_added equality isAdded (by simpa using equal)
        rw [Bool.not_eq_true', List.any_eq_false] at unconcerned
        exact unconcerned call isCall isConcerned

/-- Of formats that are distinct, `remove` takes every one that equals the given one. -/
theorem removeFormat_eq_filter (format : F) {formats : List F}
    (distinct : formats.Pairwise fun format older => equality.equals format older = false) :
    removeFormat equality format formats = formats.filter (! equality.equals format ·) := by
  unfold removeFormat
  induction formats with
  | nil => rfl
  | cons first rest inductionHypothesis =>
      obtain ⟨differs, distinctRest⟩ := List.pairwise_cons.mp distinct
      cases isFirst : equality.equals format first with
      | false =>
          rw [List.eraseP_cons_of_neg (by simp [isFirst]),
            List.filter_cons_of_pos (by simp [isFirst]), inductionHypothesis distinctRest]
      | true =>
          rw [List.eraseP_cons_of_pos isFirst, List.filter_cons_of_neg (by simp [isFirst])]
          refine (List.filter_eq_self.mpr fun other isOther => ?_).symm
          by_contra equal
          have toOther : equality.equals format other = true := by simpa using equal
          have between := equality.trans (equality.symm isFirst) toOther
          rw [differs other isOther] at between
          cases between

theorem FormatRegistry.run_append (calls : List (RegistryCall F)) (call : RegistryCall F) :
    run equality (calls ++ [call]) = (run equality calls).call equality call := by
  unfold run
  rw [List.foldl_append]
  rfl

/-- **The invariant of the registry.** `mFormatList` holds the formats that stand, and
`mFormatArray` is up to date. -/
theorem FormatRegistry.run_eq (calls : List (RegistryCall F)) :
    run equality calls = flush ⟨standing equality calls, []⟩ := by
  induction calls using List.reverseRecOn with
  | nil => rfl
  | append_singleton calls call inductionHypothesis =>
      have distinct := standing_distinct equality calls
      rw [run_append, inductionHypothesis, standing_append]
      cases call with
      | add format =>
          cases format with
          | none => simp [FormatRegistry.call, add, RegistryCall.added, RegistryCall.concerns,
              RegistryCall.format]
          | some format =>
              simp [FormatRegistry.call, add, flush, removeFormat_eq_filter equality format distinct,
                RegistryCall.added, RegistryCall.concerns, RegistryCall.format]
      | remove format =>
          cases format with
          | none => simp [FormatRegistry.call, remove, RegistryCall.added, RegistryCall.concerns,
              RegistryCall.format]
          | some format =>
              simp [FormatRegistry.call, remove, flush,
                removeFormat_eq_filter equality format distinct, RegistryCall.added,
                RegistryCall.concerns, RegistryCall.format]

/-! ## The built-in formats -/

/-- The types that the predicates of the built-in formats ask for. -/
inductive JavaType where
  | boolean
  | number
  | character
  | charSequence
  | type
  | member
  | throwable
  | objectArray
  | iterable
  | pair
  | sparseBooleanArray
  | sparseIntArray
  | sparseLongArray
  | sparseArray
  | map
deriving DecidableEq, Repr

/-- The names of the arrays of primitives. -/
def primitiveArrays : List String :=
  ["[Z", "[B", "[S", "[I", "[J", "[F", "[D", "[C"]

/-- What the built-in formats ask of an object. `getName` and `getClassLoader` are those
of its class, `systemClassLoaders` the system class loader and its parents. The other
five functions are what the formats call on an object that they claim. An array
implements no interface but `Cloneable` and `Serializable`. -/
structure ObjectView (A : Type) where
  getName : A → String
  isInstance : A → JavaType → Bool
  getClassLoader : A → Option Nat
  systemClassLoaders : List Nat
  objectToString : Option A → Except Throwable (Option String)
  iterableToArray : Option A → Except Throwable (Option (List (Option A)))
  iterableNameOf : Option A → Except Throwable (Option String)
  mapToArray2 : Option A → Except Throwable (Option (List (Option A)))
  mapNameOf : Option A → Except Throwable (Option String)
  array_not_iterable : ∀ object, getName object ∈ primitiveArrays ∨
    isInstance object .objectArray = true → isInstance object .iterable = false

namespace ObjectView

variable {A : Type} (view : ObjectView A)

/-- `SupplyAPI.isSystemClass` on the class of an object. -/
def isSystemClass (object : A) : Bool :=
  view.systemClassLoaders.any fun systemClassLoader =>
    view.getClassLoader object = some systemClassLoader

/-- `FormatObject.isObject`. -/
def isObject (_object : Option A) : Bool := true

/-- `FormatObject.isFinalObject`. -/
def isFinalObject : Option A → Bool
  | none => true
  | some object =>
      if view.getName object ∈
          ["boolean", "byte", "short", "int", "long", "float", "double", "char"] then true
      else if view.isInstance object .boolean || view.isInstance object .number ||
          view.isInstance object .character || view.isInstance object .charSequence then true
      else if view.isInstance object .type || view.isInstance object .member ||
          view.isInstance object .throwable then true
      else false

/-- `FormatIterable.isIterable`. -/
def isIterable : Option A → Bool
  | none => false
  | some object =>
      if view.getName object ∈ primitiveArrays then true
      else if view.isInstance object .objectArray then true
      else if view.isInstance object .iterable then true
      else if view.isInstance object .pair then true
      else false

/-- `FormatIterable.isFinalIterable`. -/
def isFinalIterable : Option A → Bool
  | none => view.isIterable none
  | some object =>
      if view.isInstance object .iterable ∧ ¬ view.isSystemClass object then false
      else view.isIterable (some object)

/-- `FormatMap.isMap`. -/
def isMap : Option A → Bool
  | none => false
  | some object =>
      if view.isInstance object .sparseBooleanArray || view.isInstance object .sparseIntArray ||
          view.isInstance object .sparseLongArray || view.isInstance object .sparseArray then true
      else if view.isInstance object .map then true
      else false

/-- `FormatMap.isFinalMap`. -/
def isFinalMap : Option A → Bool
  | none => view.isMap none
  | some object =>
      if view.isInstance object .map ∧ ¬ view.isSystemClass object then false
      else view.isMap (some object)

/-- The formats of `mFormatArray`. -/
def perform (formatOf : F → Format (Option A)) : Slot F → Format (Option A)
  | .objectB => FormatObject.format (fun object => .ok (view.isFinalObject object))
      view.objectToString
  | .iterableB => FormatIterable.format (fun object => .ok (view.isFinalIterable object))
      view.iterableToArray view.iterableNameOf
  | .mapB => FormatMap.format none (fun object => .ok (view.isFinalMap object))
      view.mapToArray2 view.mapNameOf
  | .custom format => formatOf format
  | .mapA => FormatMap.format none (fun object => .ok (view.isMap object))
      view.mapToArray2 view.mapNameOf
  | .iterableA => FormatIterable.format (fun object => .ok (view.isIterable object))
      view.iterableToArray view.iterableNameOf
  | .objectA => FormatObject.format (fun object => .ok (isObject object)) view.objectToString

/-! ## The format in charge -/

/-- The call ends with anything but null: with a pair, or with a throwable. -/
def speaks (result : Except Throwable (Option (Formatting (Option A)))) : Bool :=
  match result with
  | .ok none => false
  | _ => true

/-- The final format that claims the object, or else the most recent custom format that
speaks, or else a fallback. -/
def inCharge (formatOf : F → Format (Option A)) (customs : List F) (object : Option A) : Slot F :=
  if view.isFinalObject object then .objectB
  else if view.isFinalIterable object then .iterableB
  else if view.isFinalMap object then .mapB
  else match customs.find? fun format => speaks (formatOf format object) with
    | some format => .custom format
    | none =>
        if view.isMap object then .mapA
        else if view.isIterable object then .iterableA
        else .objectA

/-- Null, strings, numbers, types, members, throwables, arrays and system collections. -/
def Protected : Option A → Prop
  | none => True
  | some object =>
      (∃ javaType ∈ [JavaType.charSequence, .number, .boolean, .character, .type, .member,
        .throwable], view.isInstance object javaType = true) ∨
      (view.getName object ∈ primitiveArrays ∨ view.isInstance object .objectArray = true) ∨
      (view.isInstance object .iterable = true ∨ view.isInstance object .map = true) ∧
        view.isSystemClass object = true

section Speaking

variable {belongTo : Option A → Bool} {object : Option A}

theorem speaks_formatObject (toString : Option A → Except Throwable (Option String)) :
    speaks (FormatObject.format (fun object => .ok (belongTo object)) toString object) =
      belongTo object := by
  cases belongs : belongTo object with
  | false =>
      rw [FormatObject.format_silent (by rw [belongs])]
      rfl
  | true =>
      cases isText : toString object with
      | error throwable =>
          unfold FormatObject.format
          simp only [belongs, isText]
          rfl
      | ok text =>
          rw [FormatObject.format_answers (by rw [belongs]) isText]
          rfl

theorem speaks_formatIterable (toArray : Option A → Except Throwable (Option (List (Option A))))
    (nameOf : Option A → Except Throwable (Option String)) :
    speaks (FormatIterable.format (fun object => .ok (belongTo object)) toArray nameOf object) =
      belongTo object := by
  cases belongs : belongTo object with
  | false =>
      rw [FormatIterable.format_silent (by rw [belongs])]
      rfl
  | true =>
      unfold FormatIterable.format
      cases toArray object with
      | error throwable =>
          simp only [belongs]
          rfl
      | ok array =>
          cases nameOf object with
          | error throwable =>
              simp only [belongs]
              rfl
          | ok name =>
              simp only [belongs]
              rfl

theorem speaks_formatMap (toArray2 : Option A → Except Throwable (Option (List (Option A))))
    (nameOf : Option A → Except Throwable (Option String)) :
    speaks (FormatMap.format none (fun object => .ok (belongTo object)) toArray2 nameOf object) =
      belongTo object := by
  cases belongs : belongTo object with
  | false =>
      rw [FormatMap.format_silent (by rw [belongs])]
      rfl
  | true =>
      unfold FormatMap.format
      cases toArray2 object with
      | error throwable =>
          simp only [belongs]
          rfl
      | ok array =>
          cases nameOf object with
          | error throwable =>
              simp only [belongs]
              rfl
          | ok name =>
              simp only [belongs]
              rfl

end Speaking

section Charge

variable (formatOf : F → Format (Option A)) (customs : List F) (object : Option A)

/-- The format in charge is the first one of the array that speaks. -/
theorem find_inCharge :
    (FormatRegistry.flush ⟨customs, []⟩).mFormatArray.find?
        (fun slot => speaks (view.perform formatOf slot object)) =
      some (view.inCharge formatOf customs object) := by
  have objectB : speaks (view.perform formatOf .objectB object) = view.isFinalObject object :=
    speaks_formatObject _
  have iterableB : speaks (view.perform formatOf .iterableB object) =
      view.isFinalIterable object := speaks_formatIterable _ _
  have mapB : speaks (view.perform formatOf .mapB object) = view.isFinalMap object :=
    speaks_formatMap _ _
  have mapA : speaks (view.perform formatOf .mapA object) = view.isMap object :=
    speaks_formatMap _ _
  have iterableA : speaks (view.perform formatOf .iterableA object) = view.isIterable object :=
    speaks_formatIterable _ _
  have objectA : speaks (view.perform formatOf .objectA object) = true :=
    speaks_formatObject _
  have custom : ((fun slot => speaks (view.perform formatOf slot object)) ∘ Slot.custom) =
      fun format => speaks (formatOf format object) := rfl
  unfold FormatRegistry.flush inCharge
  simp only [List.take, List.drop, List.cons_append, List.nil_append, List.find?_cons,
    List.find?_append, List.find?_map, objectB, iterableB, mapB, mapA, iterableA, objectA, custom]
  cases view.isFinalObject object with
  | true => rfl
  | false =>
      cases view.isFinalIterable object with
      | true => rfl
      | false =>
          cases view.isFinalMap object with
          | true => rfl
          | false =>
              cases customs.find? fun format => speaks (formatOf format object) with
              | some format => rfl
              | none =>
                  cases view.isMap object with
                  | true => rfl
                  | false =>
                      cases view.isIterable object with
                      | true => rfl
                      | false => rfl

theorem speaks_inCharge :
    speaks (view.perform formatOf (view.inCharge formatOf customs object) object) = true := by
  have found := List.find?_some (view.find_inCharge formatOf customs object)
  exact found

/-- The loop over the formats is the work of the first one that speaks. -/
theorem formatLoop_of_find (entry : FormatEntry (Option A))
    (render : Option A → ThreadState (Option A) → Rendered (Option A) (Option String))
    (thread : ThreadState (Option A)) {slots : List (Slot F)} {slot : Slot F}
    (first : slots.find? (fun slot => speaks (view.perform formatOf slot object)) = some slot) :
    entry.formatLoop render object thread (slots.map (view.perform formatOf)) =
      entry.formatLoop render object thread [view.perform formatOf slot] := by
  induction slots with
  | nil => cases first
  | cons next rest inductionHypothesis =>
      rw [List.find?_cons] at first
      rw [List.map_cons, FormatEntry.formatLoop]
      cases result : view.perform formatOf next object with
      | error throwable =>
          simp only [result, speaks, Option.some.injEq] at first
          rw [← first, FormatEntry.formatLoop, result]
      | ok pair =>
          cases pair with
          | none =>
              simp only [result, speaks] at first
              exact inductionHypothesis first
          | some pair =>
              simp only [result, speaks, Option.some.injEq] at first
              rw [← first, FormatEntry.formatLoop, result]

/-- A final format is in charge of a protected object, whatever the custom formats. -/
theorem inCharge_of_protected {object : Option A} (isProtected : view.Protected object) :
    view.inCharge formatOf customs object ∈ [.objectB, .iterableB, .mapB] ∧
      ∀ others, view.inCharge formatOf others object = view.inCharge formatOf customs object := by
  have claimed : view.isFinalObject object = true ∨ view.isFinalIterable object = true ∨
      view.isFinalMap object = true := by
    cases object with
    | none => exact Or.inl rfl
    | some object =>
        rcases isProtected with ⟨javaType, isListed, isInstance⟩ | isArray | ⟨isCollection, isSystem⟩
        · left
          simp only [List.mem_cons, List.not_mem_nil, or_false] at isListed
          unfold isFinalObject
          rcases isListed with rfl | rfl | rfl | rfl | rfl | rfl | rfl
          all_goals simp [isInstance]
        · right
          left
          have notIterable := view.array_not_iterable object isArray
          unfold isFinalIterable isIterable
          rcases isArray with isPrimitive | isReference
          · simp [notIterable, isPrimitive]
          · simp [notIterable, isReference]
        · right
          rcases isCollection with isIterable | isMap
          · left
            unfold isFinalIterable ObjectView.isIterable
            simp [isIterable, isSystem]
          · right
            unfold isFinalMap ObjectView.isMap
            simp [isMap, isSystem]
  unfold inCharge
  by_cases isObject : view.isFinalObject object = true
  · simp only [if_pos isObject]
    exact ⟨by simp, fun _ => trivial⟩
  · by_cases isIterable : view.isFinalIterable object = true
    · simp only [if_neg isObject, if_pos isIterable]
      exact ⟨by simp, fun _ => trivial⟩
    · have isMap := (claimed.resolve_left isObject).resolve_left isIterable
      simp only [if_neg isObject, if_neg isIterable, if_pos isMap]
      exact ⟨by simp, fun _ => trivial⟩

end Charge

end ObjectView

/-- **The format in charge, after any history of `add` and `remove`.** `mFormatArray` is
the three final formats, the custom formats that stand, and the three fallbacks. Of any
object one of them is in charge: it speaks, so that the loop does not come to its end,
and `toString` is its work; of a protected object it is a final format, whatever the
custom formats. -/
theorem toString_in_charge {A : Type} (calls : List (RegistryCall F)) (view : ObjectView A)
    (formatOf : F → Format (Option A)) (base : FormatEntry (Option A)) :
    let registry := FormatRegistry.run equality calls
    let customs := standing equality calls
    let entry := { base with mFormatArray := registry.mFormatArray.map (view.perform formatOf) }
    registry.mFormatArray =
        [.objectB, .iterableB, .mapB] ++ customs.map .custom ++ [.mapA, .iterableA, .objectA] ∧
      (customs.Pairwise fun format older => equality.equals format older = false) ∧
      ∀ object,
        let slot := view.inCharge formatOf customs object
        ObjectView.speaks (view.perform formatOf slot object) = true ∧
        (view.Protected object → slot ∈ [.objectB, .iterableB, .mapB] ∧
          ∀ others, view.inCharge formatOf others object = slot) ∧
        ∀ (fuel : Nat) (thread : ThreadState (Option A)) (index : Int),
          lastIndexOf (entry.equals fuel) object thread.ignore = some index → index < 0 →
          entry.toString (fuel + 1) object thread =
            entry.formatLoop (entry.toString fuel) object (thread.withIgnore thread.ignore)
              [view.perform formatOf slot] := by
  intro registry customs entry
  have isRun : registry = FormatRegistry.flush ⟨customs, []⟩ := FormatRegistry.run_eq equality calls
  refine ⟨by rw [isRun]; rfl, standing_distinct equality calls, fun object => ?_⟩
  refine ⟨view.speaks_inCharge formatOf customs object,
    fun isProtected => view.inCharge_of_protected formatOf customs isProtected, ?_⟩
  intro fuel thread index missing negative
  have found := view.find_inCharge formatOf customs object
  rw [← isRun] at found
  simp only [FormatEntry.toString, ThreadState.ignore_withIgnore, missing]
  rw [if_neg (by omega)]
  exact view.formatLoop_of_find formatOf object entry (entry.toString fuel)
    (thread.withIgnore thread.ignore) found

/-- Formats that are told apart by a number. -/
def numberedFormats : FormatEquality Nat where
  equals := fun format other => format == other
  refl := fun format => beq_self_eq_true format
  symm := fun equal => (eq_of_beq equal) ▸ beq_self_eq_true _
  trans := fun equal equal' => (eq_of_beq equal).trans (eq_of_beq equal') ▸ beq_self_eq_true _

/-- One object, of a class of the application that no built-in format knows. -/
def plainObject : ObjectView Unit where
  getName := fun _ => "app.Plain"
  isInstance := fun _ _ => false
  getClassLoader := fun _ => some 1
  systemClassLoaders := [0]
  objectToString := fun _ => .ok (some "plain")
  iterableToArray := fun _ => .ok none
  iterableNameOf := fun _ => .ok none
  mapToArray2 := fun _ => .ok none
  mapNameOf := fun _ => .ok none
  array_not_iterable := fun _ _ => rfl

/-- Of two formats added, the one that is not removed renders the object, and neither
of them renders null. -/
theorem toString_of_numberedFormats :
    let calls : List (RegistryCall Nat) := [.add (some 0), .add (some 1), .remove (some 1)]
    let formatOf : Nat → Format (Option Unit) := fun format _ =>
      .ok (some ⟨some (if format = 0 then "zero" else "one"), none⟩)
    let base : FormatEntry (Option Unit) := ⟨[], fun _ => none, fun _ _ _ => some false, id⟩
    let entry := { base with mFormatArray :=
      (FormatRegistry.run numberedFormats calls).mFormatArray.map (plainObject.perform formatOf) }
    entry.toString 1 (some ()) ⟨none, []⟩ = some (.ok (some "zero"), ⟨some [], []⟩) ∧
      plainObject.inCharge formatOf [1, 2] none =
        plainObject.inCharge formatOf (standing numberedFormats calls) none := by
  intro calls formatOf base entry
  have inCharge := (toString_in_charge numberedFormats calls plainObject formatOf base).2.2
  exact ⟨((inCharge (some ())).2.2 0 ⟨none, []⟩ (-1) rfl (by decide)).trans rfl,
    ((inCharge none).2.1 trivial).2 [1, 2]⟩

end AndroidPatch.Formats
