import AndroidPatch.Library.LinkedMap
import AndroidPatch.Reflect.ClassWrapper

/-!
Contract: `Getter`, the members that it finds and those that it reads.

Owns:
- `findGetters` over the public members of the whole hierarchy, and which member
  was the last to put a key;
- `get`, which looks a name up again among the declared members of the chain of
  superclasses;
- the two agree on a member exactly if the nearest class of that chain with a
  declared field or parameterless method of the name leads to it.
-/

namespace AndroidPatch.Reflect

open AndroidPatch.Library AndroidPatch.Lang

/-! ## Making a getter -/

/-- A getter made from a text: its key, and the name that it looks up. -/
structure Getter where
  key : String
  val : String
deriving DecidableEq, Repr

/-- The argument of `makeGetter`. -/
inductive GetterLike where
  | getter (getter : Getter)
  | string (text : String)
  | other

/-- The text is cut at its first `=`. -/
def getterOf (string : String) : Getter :=
  match string.toList.dropWhile (· ≠ '=') with
  | [] => ⟨string, string⟩
  | _ :: val => ⟨String.ofList (string.toList.takeWhile (· ≠ '=')), String.ofList val⟩

/-- `Getter.makeGetter`. -/
def makeGetter : GetterLike → Except Throwable Getter
  | .getter getter => .ok getter
  | .string text => .ok (getterOf text)
  | .other => .error (.illegalArgument "illegal getter like object")

/-- `Getter.toFieldName`. The first UTF-16 unit is lowered, which leaves a
character of two units as it is. -/
def toFieldName (toLowerCase : Char → String) (name : String) (begin : Nat) : String :=
  match name.toList.drop begin with
  | [] => ""
  | first :: rest =>
      (if first.val < 0x10000 then toLowerCase first else String.singleton first) ++
        String.ofList rest

/-! ## Finding getters -/

/-- `Void.class`. -/
def boxedVoid : JavaClass := ⟨"java.lang.Void", 0⟩

/-- The member behind a getter. -/
inductive Source where
  | field (field : Field)
  | method (method : Method)
deriving DecidableEq, Repr

/-- The text for a public field, unless it is skipped. -/
def fieldLike (clazz : JavaClass) (field : Field) : Option String :=
  if field.isStatic then none
  else if field.declaringClass.loader ≠ clazz.loader then none
  else some field.name

/-- The text for a public method, unless it is skipped. -/
def methodLike (toLowerCase : Char → String) (clazz : JavaClass) (method : Method) :
    Option String :=
  if method.isStatic then none
  else if method.declaringClass.loader ≠ clazz.loader then none
  else if method.returnType = JavaClass.void ∨ method.returnType = boxedVoid ∨
      method.parameterTypes.length > 0 then none
  else if "is".toList.isPrefixOf method.name.toList then
    some (toFieldName toLowerCase method.name 2 ++ "=" ++ method.name)
  else if "get".toList.isPrefixOf method.name.toList then
    some (toFieldName toLowerCase method.name 3 ++ "=" ++ method.name)
  else none

namespace Reflection

variable (reflection : Reflection) (toLowerCase : Char → String)

/-- The calls of `getters.put` for a class, each with the member it is for. -/
def puts (clazz : JavaClass) : List (Source × Getter) :=
  ((reflection.getFields clazz).filterMap fun field =>
    (fieldLike clazz field).map fun text => (.field field, getterOf text)) ++
  (reflection.getMethods clazz).filterMap fun method =>
    (methodLike toLowerCase clazz method).map fun text => (.method method, getterOf text)

/-- `Getter.findGetters`. -/
def findGetters : Option JavaClass → List Getter
  | none => []
  | some clazz =>
      (LinkedMap.putAll (fun entry : Source × Getter => entry.2.key)
        (reflection.puts toLowerCase clazz)).map Prod.snd

/-- The member was the last to put the getter's key, and put that getter. -/
def LastPut (clazz : JavaClass) (getter : Getter) (source : Source) : Prop :=
  LinkedMap.LastPut (fun entry : Source × Getter => entry.2.key)
    (reflection.puts toLowerCase clazz) (source, getter)

end Reflection

/-! ## Reading a member -/

/-- How an invocation can end abruptly. A `WrappingError` is an `Error` of its
own; `throwable` is neither an `Error` nor an `Exception`. -/
inductive Thrown where
  | wrapping (error : WrappingError)
  | error (identity : Nat)
  | exception (identity : Nat)
  | throwable (identity : Nat)
deriving DecidableEq, Repr

/-- An object: the values of its fields, and how the methods that run on it
end. -/
structure Instance (V : Type) where
  getClass : JavaClass
  value : Field → V
  call : Method → Except Thrown V

/-- `MethodWrapper.invokeWithException`, from how the method ends. -/
def invokeWithException {V : Type} : Except Thrown V → Except Thrown V
  | .ok value => .ok value
  | .error (.throwable _) =>
      .error (.wrapping ⟨"java.lang.reflect.InvocationTargetException"⟩)
  | .error thrown => .error thrown

inductive Access where
  | read (field : Field)
  | invoke (implementation : Method)
deriving DecidableEq, Repr

inductive Ending (V : Type) where
  | value (value : V)
  | null
  | thrown (thrown : Thrown)
  | noSuchMember (message : String)
deriving DecidableEq, Repr

/-- What a call of `get` does: the fields it reads and the methods that it runs,
and how it ends. -/
structure Lookup (V : Type) where
  accesses : List Access
  ending : Ending V
deriving DecidableEq, Repr

def Ending.ofCall {V : Type} : Except Thrown V → Ending V
  | .ok result => .value result
  | .error reason => .thrown reason

namespace Reflection

variable {V : Type} (reflection : Reflection)

/-- The loop of `get` over the wrappers. The field of an object of its class can
always be read; a `WrappingError` is ignored, wherever it comes from. -/
def getLoop (val : String) (object : Instance V) : List JavaClass → Lookup V
  | [] => ⟨[], .noSuchMember ("no such field or method: " ++ val)⟩
  | clazz :: rest =>
      match reflection.getField clazz val with
      | .ok field => ⟨[.read field], .value (object.value field)⟩
      | .error _ =>
          match reflection.getMethod clazz val [] with
          | .error _ => getLoop val object rest
          | .ok method =>
              let implementation := reflection.implementation object.getClass method
              match invokeWithException (object.call implementation) with
              | .ok value => ⟨[.invoke implementation], .value value⟩
              | .error (.wrapping _) =>
                  let later := getLoop val object rest
                  ⟨.invoke implementation :: later.accesses, later.ending⟩
              | .error thrown => ⟨[.invoke implementation], .thrown thrown⟩

/-- `Getter.get` of a getter made from a text. -/
def get (getter : Getter) : Option (Instance V) → Lookup V
  | none => ⟨[], .null⟩
  | some object =>
      reflection.getLoop getter.val object (reflection.getSuperclasses object.getClass)

/-- Reading the field, or invoking the method with virtual dispatch, and nothing
else. -/
def accessOf (object : Instance V) : Source → Lookup V
  | .field field => ⟨[.read field], .value (object.value field)⟩
  | .method method =>
      let implementation := reflection.implementation object.getClass method
      ⟨[.invoke implementation], .ofCall (object.call implementation)⟩

/-! ## The nearest class with the name -/

/-- The method that runs does not end in a `WrappingError`, nor in a throwable
that is wrapped into one. -/
def Passes (outcome : Except Thrown V) : Prop :=
  (∀ error, outcome ≠ .error (.wrapping error)) ∧
    ∀ identity, outcome ≠ .error (.throwable identity)

/-- The declared members of the name lead to the member: the field is the one; or
there is none, and the method runs the same implementation, which passes. -/
def Declares (val : String) (object : Instance V) (source : Source) (clazz : JavaClass) :
    Prop :=
  match source with
  | .field field => reflection.declaredField clazz val = some field
  | .method method => reflection.declaredField clazz val = none ∧
      ∃ declared, reflection.declaredMethod clazz val = some declared ∧
        reflection.implementation object.getClass declared =
          reflection.implementation object.getClass method ∧
        Passes (object.call (reflection.implementation object.getClass method))

/-- The first class of the chain with a declared field or parameterless method of
the name leads to the member. -/
def LeadsTo (val : String) (object : Instance V) (source : Source)
    (chain : List JavaClass) : Prop :=
  ∃ front clazz back, chain = front ++ clazz :: back ∧
    (∀ nearer ∈ front, reflection.declaredField nearer val = none ∧
      reflection.declaredMethod nearer val = none) ∧
    reflection.Declares val object source clazz

variable {reflection} {val : String} {object : Instance V} {source : Source}
  {clazz : JavaClass} {rest : List JavaClass}

theorem leadsTo_cons_skip (noField : reflection.declaredField clazz val = none)
    (noMethod : reflection.declaredMethod clazz val = none) :
    reflection.LeadsTo val object source (clazz :: rest) ↔
      reflection.LeadsTo val object source rest := by
  constructor
  · rintro ⟨front, found, back, isChain, skipped, declares⟩
    cases front with
    | nil =>
        cases isChain
        cases source with
        | field field =>
            have isField : reflection.declaredField clazz val = some field := declares
            rw [noField] at isField
            cases isField
        | method method =>
            obtain ⟨-, declared, isMethod, -⟩ := declares
            rw [noMethod] at isMethod
            cases isMethod
    | cons nearer front =>
        cases isChain
        exact ⟨front, found, back, rfl,
          fun other member => skipped other (List.mem_cons_of_mem _ member), declares⟩
  · rintro ⟨front, found, back, rfl, skipped, declares⟩
    refine ⟨clazz :: front, found, back, rfl, ?_, declares⟩
    intro nearer member
    rcases List.mem_cons.mp member with same | inFront
    · rw [same]
      exact ⟨noField, noMethod⟩
    · exact skipped nearer inFront

theorem leadsTo_cons_here
    (hasName : ¬ (reflection.declaredField clazz val = none ∧
      reflection.declaredMethod clazz val = none)) :
    reflection.LeadsTo val object source (clazz :: rest) ↔
      reflection.Declares val object source clazz := by
  constructor
  · rintro ⟨front, found, back, isChain, skipped, declares⟩
    cases front with
    | nil =>
        cases isChain
        exact declares
    | cons nearer front =>
        cases isChain
        exact absurd (skipped clazz List.mem_cons_self) hasName
  · intro declares
    exact ⟨[], clazz, rest, rfl, fun _ member => absurd member List.not_mem_nil, declares⟩

/-! ## One class of the loop -/

theorem getLoop_field {field : Field}
    (isField : reflection.declaredField clazz val = some field) :
    reflection.getLoop val object (clazz :: rest) =
      ⟨[.read field], .value (object.value field)⟩ := by
  simp only [getLoop, ClassTable.getField_found isField]

theorem getLoop_skip (noField : reflection.declaredField clazz val = none)
    (noMethod : reflection.declaredMethod clazz val = none) :
    reflection.getLoop val object (clazz :: rest) = reflection.getLoop val object rest := by
  simp only [getLoop, ClassTable.getField_missing noField,
    ClassTable.getMethod_missing noMethod]

/-- A method that passes ends the loop. -/
theorem getLoop_passes {declared : Method}
    (noField : reflection.declaredField clazz val = none)
    (isMethod : reflection.declaredMethod clazz val = some declared)
    (passes : Passes (object.call (reflection.implementation object.getClass declared))) :
    reflection.getLoop val object (clazz :: rest) =
      reflection.accessOf object (.method declared) := by
  obtain ⟨notWrapping, notThrowable⟩ := passes
  simp only [getLoop, accessOf, ClassTable.getField_missing noField,
    ClassTable.getMethod_found isMethod]
  cases outcome : object.call (reflection.implementation object.getClass declared) with
  | ok value => rfl
  | error thrown =>
      cases thrown with
      | wrapping error => exact absurd outcome (notWrapping error)
      | throwable identity => exact absurd outcome (notThrowable identity)
      | error identity => rfl
      | exception identity => rfl

/-- A method that does not pass is run, and the loop goes on. -/
theorem getLoop_not_passes {declared : Method}
    (noField : reflection.declaredField clazz val = none)
    (isMethod : reflection.declaredMethod clazz val = some declared)
    (stuck : ¬ Passes (object.call (reflection.implementation object.getClass declared))) :
    reflection.getLoop val object (clazz :: rest) =
      ⟨.invoke (reflection.implementation object.getClass declared) ::
        (reflection.getLoop val object rest).accesses,
        (reflection.getLoop val object rest).ending⟩ := by
  simp only [getLoop, ClassTable.getField_missing noField,
    ClassTable.getMethod_found isMethod]
  cases outcome : object.call (reflection.implementation object.getClass declared) with
  | ok value =>
      rw [outcome] at stuck
      exact absurd (by simp [Passes]) stuck
  | error thrown =>
      cases thrown with
      | wrapping error => rfl
      | throwable identity => rfl
      | error identity =>
          rw [outcome] at stuck
          exact absurd (by simp [Passes]) stuck
      | exception identity =>
          rw [outcome] at stuck
          exact absurd (by simp [Passes]) stuck

/-! ## A whole lookup -/

/-- Every access ends in a value or in what was thrown. -/
theorem accessOf_ne_noSuchMember (message : String) :
    (reflection.accessOf object source).ending ≠ .noSuchMember message := by
  cases source with
  | field field => simp [accessOf]
  | method method =>
      dsimp only [accessOf]
      cases object.call (reflection.implementation object.getClass method) with
      | ok value => simp [Ending.ofCall]
      | error thrown => simp [Ending.ofCall]

/-- A lookup that reads nothing has found nothing. -/
theorem getLoop_of_no_access {chain : List JavaClass}
    (nothing : (reflection.getLoop val object chain).accesses = []) :
    (reflection.getLoop val object chain).ending =
      .noSuchMember ("no such field or method: " ++ val) := by
  induction chain with
  | nil => rfl
  | cons clazz rest inductionHypothesis =>
      cases isField : reflection.declaredField clazz val with
      | some field =>
          rw [getLoop_field isField] at nothing
          cases nothing
      | none =>
          cases isMethod : reflection.declaredMethod clazz val with
          | none =>
              rw [getLoop_skip isField isMethod] at nothing ⊢
              exact inductionHypothesis nothing
          | some declared =>
              by_cases passes : Passes
                (object.call (reflection.implementation object.getClass declared))
              · rw [getLoop_passes isField isMethod passes] at nothing
                cases nothing
              · rw [getLoop_not_passes isField isMethod passes] at nothing
                cases nothing

/-- A lookup that goes on after a method is no access of a single member. -/
theorem getLoop_goes_on_ne {implementation : Method} {chain : List JavaClass} :
    (⟨.invoke implementation :: (reflection.getLoop val object chain).accesses,
      (reflection.getLoop val object chain).ending⟩ : Lookup V) ≠
        reflection.accessOf object source := by
  intro same
  have nothing : (reflection.getLoop val object chain).accesses = [] := by
    have sameAccesses := congrArg Lookup.accesses same
    cases source with
    | field field => cases sameAccesses
    | method method => exact (List.cons.inj sameAccesses).2
  have ended : (reflection.accessOf object source).ending =
      .noSuchMember ("no such field or method: " ++ val) := by
    rw [← same]
    exact getLoop_of_no_access nothing
  exact accessOf_ne_noSuchMember _ ended

/-- A class with a method of the name: the lookup is the access of the member
exactly if it runs the same implementation, which passes. -/
theorem getLoop_method_iff {declared : Method}
    (noField : reflection.declaredField clazz val = none)
    (isMethod : reflection.declaredMethod clazz val = some declared) :
    reflection.getLoop val object (clazz :: rest) = reflection.accessOf object source ↔
      reflection.Declares val object source clazz := by
  by_cases passes : Passes (object.call (reflection.implementation object.getClass declared))
  · rw [getLoop_passes noField isMethod passes]
    cases source with
    | field field =>
        simp [accessOf, Declares, noField]
    | method method =>
        simp only [Declares, noField, isMethod, true_and, Option.some.injEq,
          exists_eq_left']
        constructor
        · intro same
          have sameImplementation : reflection.implementation object.getClass declared =
              reflection.implementation object.getClass method := by
            have sameAccesses := congrArg Lookup.accesses same
            simpa [accessOf] using sameAccesses
          rw [← sameImplementation]
          exact ⟨rfl, passes⟩
        · rintro ⟨sameImplementation, -⟩
          simp only [accessOf, sameImplementation]
  · rw [getLoop_not_passes noField isMethod passes]
    constructor
    · exact fun same => absurd same getLoop_goes_on_ne
    · intro declares
      cases source with
      | field field =>
          have isField : reflection.declaredField clazz val = some field := declares
          rw [noField] at isField
          cases isField
      | method method =>
          obtain ⟨-, found, isFound, sameImplementation, passesFound⟩ := declares
          rw [isMethod] at isFound
          cases isFound
          rw [← sameImplementation] at passesFound
          exact absurd passesFound passes

/-- **The lookup is the access of a member exactly if the chain leads to it.** -/
theorem getLoop_eq_accessOf_iff (val : String) (object : Instance V) (source : Source)
    (chain : List JavaClass) :
    reflection.getLoop val object chain = reflection.accessOf object source ↔
      reflection.LeadsTo val object source chain := by
  induction chain with
  | nil =>
      constructor
      · intro same
        have ended : (reflection.accessOf object source).ending = .noSuchMember _ :=
          (congrArg Lookup.ending same).symm
        exact absurd ended (accessOf_ne_noSuchMember _)
      · rintro ⟨front, clazz, back, isChain, -⟩
        cases front with
        | nil => cases isChain
        | cons => cases isChain
  | cons clazz rest inductionHypothesis =>
      cases isField : reflection.declaredField clazz val with
      | some field =>
          rw [leadsTo_cons_here (by simp [isField]), getLoop_field isField]
          cases source with
          | field other =>
              simp only [accessOf, Declares, isField, Option.some.injEq]
              constructor
              · intro same
                have sameAccesses := congrArg Lookup.accesses same
                simpa using sameAccesses
              · rintro rfl
                rfl
          | method method => simp [accessOf, Declares, isField]
      | none =>
          cases isMethod : reflection.declaredMethod clazz val with
          | none =>
              rw [getLoop_skip isField isMethod, leadsTo_cons_skip isField isMethod]
              exact inductionHypothesis
          | some declared =>
              rw [leadsTo_cons_here (by simp [isMethod])]
              exact getLoop_method_iff isField isMethod

/-! ## Found getters -/

theorem mem_findGetters {toLowerCase : Char → String} {getter : Getter} :
    getter ∈ reflection.findGetters toLowerCase (some clazz) ↔
      ∃ source, reflection.LastPut toLowerCase clazz getter source := by
  simp only [findGetters, LastPut, List.mem_map, Prod.exists, exists_eq_right,
    LinkedMap.mem_putAll]

/-- A getter has one member that put it last. -/
theorem LastPut.source_unique {toLowerCase : Char → String} {getter : Getter}
    {first second : Source} (isFirst : reflection.LastPut toLowerCase clazz getter first)
    (isSecond : reflection.LastPut toLowerCase clazz getter second) : first = second :=
  congrArg Prod.fst (LinkedMap.LastPut.unique isFirst isSecond rfl)

/-- **Discovery and lookup agree exactly on the members that the chain leads
to.** -/
theorem found_getters_read_iff (reflection : Reflection) (toLowerCase : Char → String)
    (object : Instance V) :
    (∀ getter ∈ reflection.findGetters toLowerCase (some object.getClass), ∃ source,
        reflection.LastPut toLowerCase object.getClass getter source ∧
          reflection.get getter (some object) = reflection.accessOf object source) ↔
      ∀ getter source, reflection.LastPut toLowerCase object.getClass getter source →
        reflection.LeadsTo getter.val object source
          (reflection.getSuperclasses object.getClass) := by
  constructor
  · intro agree getter source isLast
    obtain ⟨read, isRead, same⟩ := agree getter (mem_findGetters.mpr ⟨source, isLast⟩)
    cases LastPut.source_unique isRead isLast
    exact (getLoop_eq_accessOf_iff _ _ _ _).mp same
  · intro leads getter isGetter
    obtain ⟨source, isLast⟩ := mem_findGetters.mp isGetter
    exact ⟨source, isLast, (getLoop_eq_accessOf_iff _ _ _ _).mpr (leads getter source isLast)⟩

end Reflection

/-! ## A default method -/

namespace DefaultMethod

def object : JavaClass := ⟨"java.lang.Object", 0⟩
def string : JavaClass := ⟨"java.lang.String", 0⟩
def named : JavaClass := ⟨"app.Named", 1⟩
def user : JavaClass := ⟨"app.User", 1⟩

/-- The one method of `Object` with the name of a getter. -/
def getClass : Method := ⟨object, "getClass", ⟨"java.lang.Class", 0⟩, [], false, true⟩

/-- A default method of `Named`. -/
def getName : Method := ⟨named, "getName", string, [], false, true⟩

/-- `User` implements `Named` and declares nothing itself. -/
def table : ClassTable where
  getSuperclass clazz := if clazz = user then some object else none
  getInterfaces clazz := if clazz = user then [named] else []
  getDeclaredFields _ := []
  getDeclaredMethods clazz :=
    if clazz = object then [getClass] else if clazz = named then [getName] else []
  height clazz := if clazz = user then 1 else 0
  descends clazz superclass isSuper := by
    by_cases isUser : clazz = user
    · rw [if_pos isUser] at isSuper
      cases isSuper
      rw [if_pos isUser]
      decide
    · rw [if_neg isUser] at isSuper
      cases isSuper

/-- The public methods: those of `User` come from `Named` and `Object`. -/
def getMethods (clazz : JavaClass) : List Method :=
  if clazz = user then [getName, getClass] else table.getDeclaredMethods clazz

theorem getMethods_sound {clazz : JavaClass} {method : Method}
    (isMethod : method ∈ getMethods clazz) :
    method.isPublic = true ∧
      ∃ type, table.Supertype clazz type ∧ method ∈ table.getDeclaredMethods type := by
  by_cases isUser : clazz = user
  · subst isUser
    have isListed : method ∈ [getName, getClass] := isMethod
    rcases List.mem_pair.mp isListed with rfl | rfl
    · exact ⟨rfl, named, .interface (by decide) (.refl named), by decide⟩
    · exact ⟨rfl, object, .superclass (by decide) (.refl object), by decide⟩
  · rw [getMethods, if_neg isUser] at isMethod
    refine ⟨?_, clazz, .refl clazz, isMethod⟩
    simp only [table] at isMethod
    split at isMethod
    · rw [List.mem_singleton.mp isMethod]
      rfl
    · split at isMethod
      · rw [List.mem_singleton.mp isMethod]
        rfl
      · cases isMethod

def reflection : Reflection where
  toClassTable := table
  getFields _ := []
  getMethods := getMethods
  implementation _ method := method
  fields clazz field := by
    constructor
    · exact fun member => absurd member List.not_mem_nil
    · rintro ⟨-, type, -, member⟩
      exact absurd member List.not_mem_nil
  methodsSound _ _ := getMethods_sound
  methodsOwn clazz method isOwn _ := by
    by_cases isUser : clazz = user
    · subst isUser
      exact absurd isOwn List.not_mem_nil
    · rw [getMethods, if_neg isUser]
      exact isOwn
  methodsSuperclass clazz superclass isSuper method isMethod _ := by
    by_cases isUser : clazz = user
    · subst isUser
      cases isSuper
      exact ⟨method, List.mem_cons_of_mem _ isMethod, rfl, rfl, rfl⟩
    · simp only [table, if_neg isUser] at isSuper
      cases isSuper
  methodsInterface clazz interface isInterface method isMethod _ := by
    by_cases isUser : clazz = user
    · subst isUser
      cases List.mem_singleton.mp isInterface
      cases List.mem_singleton.mp isMethod
      exact ⟨getName, List.mem_cons_self, rfl, rfl, rfl⟩
    · simp only [table, if_neg isUser] at isInterface
      cases isInterface

def lowered (first : Char) : String := String.singleton first.toLower

def value : Instance Nat := ⟨user, fun _ => 0, fun _ => .ok 0⟩

theorem user_superclasses : reflection.getSuperclasses user = [user, object] := by
  have isSuper : reflection.getSuperclass user = some object := rfl
  have isLast : reflection.getSuperclass object = none := rfl
  rw [ClassTable.getSuperclasses_step isSuper, ClassTable.getSuperclasses_last isLast]

/-- `findGetters` lists the default method, which `get` does not find. -/
theorem default_getter_not_found :
    reflection.findGetters lowered (some value.getClass) = [⟨"name", "getName"⟩] ∧
      reflection.get ⟨"name", "getName"⟩ (some value) =
        ⟨[], .noSuchMember "no such field or method: getName"⟩ ∧
      ¬ ∀ getter ∈ reflection.findGetters lowered (some value.getClass), ∃ source,
          reflection.LastPut lowered value.getClass getter source ∧
            reflection.get getter (some value) = reflection.accessOf value source := by
  have found : reflection.findGetters lowered (some value.getClass) =
      [⟨"name", "getName"⟩] := by decide +kernel
  have missing : reflection.get ⟨"name", "getName"⟩ (some value) =
      ⟨[], .noSuchMember "no such field or method: getName"⟩ := by
    have isChain : reflection.getSuperclasses value.getClass = [user, object] :=
      user_superclasses
    simp only [Reflection.get, isChain]
    decide +kernel
  refine ⟨found, missing, fun agree => ?_⟩
  obtain ⟨source, -, same⟩ := agree ⟨"name", "getName"⟩ (by rw [found]; exact List.mem_cons_self)
  rw [missing] at same
  exact Reflection.accessOf_ne_noSuchMember _ (congrArg Lookup.ending same).symm

end DefaultMethod

end AndroidPatch.Reflect
