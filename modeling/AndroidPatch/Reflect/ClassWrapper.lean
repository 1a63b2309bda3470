import AndroidPatch.Lang.Objects

/-!
Contract: classes as Java reflection shows them, and the lookups of
`ClassWrapper`.

Owns:
- `ClassTable`, the superclass, interfaces and declared members of every class;
- `Reflection`, with `getFields` and `getMethods` as they are specified, in any
  order, and virtual dispatch;
- `getSuperclasses`, `getFieldWithObfuscate` and `getMethodWithObfuscate`.
-/

namespace AndroidPatch.Reflect

open AndroidPatch.Lang

structure Field where
  declaringClass : JavaClass
  name : String
  type : JavaClass
  isStatic : Bool
  isPublic : Bool
deriving DecidableEq, Repr

structure Method where
  declaringClass : JavaClass
  name : String
  returnType : JavaClass
  parameterTypes : List JavaClass
  isStatic : Bool
  isPublic : Bool
deriving DecidableEq, Repr

/-- Two methods of one signature, as `getMethods` compares them. -/
def Method.SameSignature (left right : Method) : Prop :=
  left.name = right.name ∧ left.parameterTypes = right.parameterTypes ∧
    left.returnType = right.returnType

/-! ## Classes -/

/-- The declarations of all classes. The chain of superclasses ends: it descends
in `height`. -/
structure ClassTable where
  getSuperclass : JavaClass → Option JavaClass
  getInterfaces : JavaClass → List JavaClass
  getDeclaredFields : JavaClass → List Field
  getDeclaredMethods : JavaClass → List Method
  height : JavaClass → Nat
  descends : ∀ clazz superclass, getSuperclass clazz = some superclass →
    height superclass < height clazz

namespace ClassTable

variable (table : ClassTable)

/-- A class, its superclasses, and all their interfaces. -/
inductive Supertype : JavaClass → JavaClass → Prop where
  | refl (clazz : JavaClass) : Supertype clazz clazz
  | superclass {clazz superclass type : JavaClass}
      (isSuper : table.getSuperclass clazz = some superclass)
      (above : Supertype superclass type) : Supertype clazz type
  | interface {clazz interface type : JavaClass}
      (isInterface : interface ∈ table.getInterfaces clazz)
      (above : Supertype interface type) : Supertype clazz type

/-- `ClassWrapper.getSuperclasses`, the default iterator of a wrapper. -/
def getSuperclasses (clazz : JavaClass) : List JavaClass :=
  clazz ::
    match _ : table.getSuperclass clazz with
    | none => []
    | some superclass => getSuperclasses superclass
termination_by table.height clazz
decreasing_by exact table.descends clazz superclass ‹_›

variable {table}

theorem getSuperclasses_last {clazz : JavaClass} (noSuper : table.getSuperclass clazz = none) :
    table.getSuperclasses clazz = [clazz] := by
  rw [getSuperclasses]
  split
  · rfl
  · rename_i superclass isSuper
    rw [noSuper] at isSuper
    cases isSuper

theorem getSuperclasses_step {clazz superclass : JavaClass}
    (isSuper : table.getSuperclass clazz = some superclass) :
    table.getSuperclasses clazz = clazz :: table.getSuperclasses superclass := by
  rw [getSuperclasses]
  split
  · rename_i noSuper
    rw [isSuper] at noSuper
    cases noSuper
  · rename_i other isOther
    rw [isSuper] at isOther
    cases isOther
    rfl

end ClassTable

/-- What reflection and dispatch make of the declarations. The order of
`getFields` and `getMethods` is not specified. `implementation` is the method that
runs when a method is invoked on an object of a class. -/
structure Reflection extends ClassTable where
  getFields : JavaClass → List Field
  getMethods : JavaClass → List Method
  implementation : JavaClass → Method → Method
  fields : ∀ clazz field, field ∈ getFields clazz ↔ field.isPublic = true ∧
    ∃ type, toClassTable.Supertype clazz type ∧ field ∈ getDeclaredFields type
  methodsSound : ∀ clazz method, method ∈ getMethods clazz → method.isPublic = true ∧
    ∃ type, toClassTable.Supertype clazz type ∧ method ∈ getDeclaredMethods type
  methodsOwn : ∀ clazz, ∀ method ∈ getDeclaredMethods clazz, method.isPublic = true →
    method ∈ getMethods clazz
  methodsSuperclass : ∀ clazz superclass, getSuperclass clazz = some superclass →
    ∀ method ∈ getMethods superclass,
      (∀ own ∈ getDeclaredMethods clazz, ¬ own.SameSignature method) →
        ∃ inherited ∈ getMethods clazz, inherited.SameSignature method
  methodsInterface : ∀ clazz, ∀ interface ∈ getInterfaces clazz,
    ∀ method ∈ getMethods interface, method.isStatic = false →
      ∃ inherited ∈ getMethods clazz, inherited.SameSignature method

/-! ## Lookups of `ClassWrapper` -/

structure WrappingError where
  message : String
deriving DecidableEq, Repr

/-- What a caller gives for a type: null, a name, a class, or something else. -/
inductive TypeCondition where
  | any
  | name (text : String)
  | type (clazz : JavaClass)
  | illegal
deriving DecidableEq, Repr

/-- `ClassWrapper.equalsType`. -/
def equalsType (type : JavaClass) : TypeCondition → Except WrappingError Bool
  | .any => .ok true
  | .name text => .ok (type.name = text)
  | .type clazz => .ok (type = clazz)
  | .illegal => .error ⟨"illegal condition type"⟩

/-- `ClassWrapper.joinTypes`. -/
def joinTypes : List TypeCondition → String
  | [] => ""
  | [condition] => text condition
  | condition :: next :: rest => text condition ++ ", " ++ joinTypes (next :: rest)
where
  text : TypeCondition → String
    | .any => "*"
    | .name text => text
    | .type clazz => clazz.name
    | .illegal => ""

/-- The loop over the parameter types of a method that has as many as asked
for. -/
def equalsTypes : List JavaClass → List TypeCondition → Except WrappingError Bool
  | type :: types, condition :: conditions =>
      match equalsType type condition with
      | .error error => .error error
      | .ok false => .ok false
      | .ok true => equalsTypes types conditions
  | _, _ => .ok true

def fieldLoop (fieldName : String) (fieldType : TypeCondition) :
    List Field → Except WrappingError (Option Field)
  | [] => .ok none
  | field :: rest =>
      if field.name ≠ fieldName then
        fieldLoop fieldName fieldType rest
      else
        match equalsType field.type fieldType with
        | .error error => .error error
        | .ok false => fieldLoop fieldName fieldType rest
        | .ok true => .ok (some field)

def methodLoop (methodName : String) (returnType : TypeCondition)
    (parameterTypes : List TypeCondition) : List Method → Except WrappingError (Option Method)
  | [] => .ok none
  | method :: rest =>
      if method.name ≠ methodName then
        methodLoop methodName returnType parameterTypes rest
      else
        match equalsType method.returnType returnType with
        | .error error => .error error
        | .ok false => methodLoop methodName returnType parameterTypes rest
        | .ok true =>
            if method.parameterTypes.length ≠ parameterTypes.length then
              methodLoop methodName returnType parameterTypes rest
            else
              match equalsTypes method.parameterTypes parameterTypes with
              | .error error => .error error
              | .ok false => methodLoop methodName returnType parameterTypes rest
              | .ok true => .ok (some method)

namespace ClassTable

variable (table : ClassTable)

/-- `ClassWrapper.getFieldWithObfuscate`. -/
def getFieldWithObfuscate (clazz : JavaClass) (fieldName : String) (fieldType : TypeCondition) :
    Except WrappingError Field :=
  match fieldLoop fieldName fieldType (table.getDeclaredFields clazz) with
  | .error error => .error error
  | .ok (some field) => .ok field
  | .ok none => .error ⟨"no such field: " ++ clazz.name ++ "." ++ fieldName⟩

/-- `ClassWrapper.getField`. -/
def getField (clazz : JavaClass) (fieldName : String) : Except WrappingError Field :=
  table.getFieldWithObfuscate clazz fieldName .any

/-- `ClassWrapper.getMethodWithObfuscate`. -/
def getMethodWithObfuscate (clazz : JavaClass) (methodName : String)
    (returnType : TypeCondition) (parameterTypes : List TypeCondition) :
    Except WrappingError Method :=
  match methodLoop methodName returnType parameterTypes (table.getDeclaredMethods clazz) with
  | .error error => .error error
  | .ok (some method) => .ok method
  | .ok none => .error ⟨"no such method: " ++ clazz.name ++ "." ++ methodName ++ "(" ++
      joinTypes parameterTypes ++ ")"⟩

/-- `ClassWrapper.getMethod`. -/
def getMethod (clazz : JavaClass) (methodName : String)
    (parameterTypes : List TypeCondition) : Except WrappingError Method :=
  table.getMethodWithObfuscate clazz methodName .any parameterTypes

variable {table}

/-! ## Lookups by name alone -/

/-- The first declared field of a name. -/
def declaredField (table : ClassTable) (clazz : JavaClass) (name : String) : Option Field :=
  (table.getDeclaredFields clazz).find? fun field => field.name = name

/-- The first declared method of a name without parameters. -/
def declaredMethod (table : ClassTable) (clazz : JavaClass) (name : String) : Option Method :=
  (table.getDeclaredMethods clazz).find? fun method =>
    method.name = name ∧ method.parameterTypes = []

theorem fieldLoop_any (name : String) (fields : List Field) :
    fieldLoop name .any fields = .ok (fields.find? fun field => field.name = name) := by
  induction fields with
  | nil => rfl
  | cons field rest inductionHypothesis =>
      by_cases same : field.name = name
      · simp [fieldLoop, same, equalsType]
      · simp [fieldLoop, same, inductionHypothesis]

theorem methodLoop_any (name : String) (methods : List Method) :
    methodLoop name .any [] methods = .ok (methods.find? fun method =>
      method.name = name ∧ method.parameterTypes = []) := by
  induction methods with
  | nil => rfl
  | cons method rest inductionHypothesis =>
      by_cases same : method.name = name
      · cases isTypes : method.parameterTypes with
        | nil => simp [methodLoop, same, equalsType, isTypes, equalsTypes]
        | cons type types => simp [methodLoop, same, equalsType, isTypes, inductionHypothesis]
      · simp [methodLoop, same, inductionHypothesis]

theorem getField_found {clazz : JavaClass} {name : String} {field : Field}
    (found : table.declaredField clazz name = some field) :
    table.getField clazz name = .ok field := by
  unfold declaredField at found
  simp only [getField, getFieldWithObfuscate, fieldLoop_any, found]

theorem getField_missing {clazz : JavaClass} {name : String}
    (missing : table.declaredField clazz name = none) :
    table.getField clazz name = .error ⟨"no such field: " ++ clazz.name ++ "." ++ name⟩ := by
  unfold declaredField at missing
  simp only [getField, getFieldWithObfuscate, fieldLoop_any, missing]

theorem getMethod_found {clazz : JavaClass} {name : String} {method : Method}
    (found : table.declaredMethod clazz name = some method) :
    table.getMethod clazz name [] = .ok method := by
  unfold declaredMethod at found
  simp only [getMethod, getMethodWithObfuscate, methodLoop_any, found]

theorem getMethod_missing {clazz : JavaClass} {name : String}
    (missing : table.declaredMethod clazz name = none) :
    table.getMethod clazz name [] =
      .error ⟨"no such method: " ++ clazz.name ++ "." ++ name ++ "(" ++ joinTypes [] ++ ")"⟩ := by
  unfold declaredMethod at missing
  simp only [getMethod, getMethodWithObfuscate, methodLoop_any, missing]

end ClassTable

end AndroidPatch.Reflect
