import AndroidPatch.Library.Matching
import AndroidPatch.Reflect.ClassWrapper

/-!
Contract: lookups that say every type.

Owns:
- `getConstructor`, beside `getMethodWithObfuscate`;
- `Fits` and the members that match a query;
- a query that gives all types finds the one member that matches, in whichever
  order reflection lists the members, and fails if there is none.
-/

namespace AndroidPatch.Reflect

open AndroidPatch.Lang AndroidPatch.Library

/-! ## Constructors -/

structure Constructor where
  declaringClass : JavaClass
  parameterTypes : List JavaClass
deriving DecidableEq, Repr

def constructorLoop (parameterTypes : List TypeCondition) :
    List Constructor → Except WrappingError (Option Constructor)
  | [] => .ok none
  | constructor :: rest =>
      if constructor.parameterTypes.length ≠ parameterTypes.length then
        constructorLoop parameterTypes rest
      else
        match equalsTypes constructor.parameterTypes parameterTypes with
        | .error error => .error error
        | .ok false => constructorLoop parameterTypes rest
        | .ok true => .ok (some constructor)

/-- `ClassWrapper.getConstructor`. -/
def getConstructor (getDeclaredConstructors : JavaClass → List Constructor) (clazz : JavaClass)
    (parameterTypes : List TypeCondition) : Except WrappingError Constructor :=
  match constructorLoop parameterTypes (getDeclaredConstructors clazz) with
  | .error error => .error error
  | .ok (some constructor) => .ok constructor
  | .ok none => .error ⟨"no such constructor: " ++ clazz.name ++ "." ++ "<init>" ++ "(" ++
      joinTypes parameterTypes ++ ")"⟩

/-! ## Conditions -/

/-- A type given as a class or as its name. -/
def TypeCondition.Specified : TypeCondition → Prop
  | .name _ => True
  | .type _ => True
  | .any => False
  | .illegal => False

def TypeCondition.Fits (type : JavaClass) : TypeCondition → Prop
  | .name text => type.name = text
  | .type clazz => type = clazz
  | .any => True
  | .illegal => False

instance (type : JavaClass) (condition : TypeCondition) : Decidable (condition.Fits type) :=
  match condition with
  | .name text => inferInstanceAs (Decidable (type.name = text))
  | .type clazz => inferInstanceAs (Decidable (type = clazz))
  | .any => .isTrue trivial
  | .illegal => .isFalse id

/-- As many types as conditions, and each fits its own. -/
def FitAll (types : List JavaClass) (conditions : List TypeCondition) : Prop :=
  List.Forall₂ (fun type condition => condition.Fits type) types conditions

theorem equalsType_specified (type : JavaClass) {condition : TypeCondition}
    (specified : condition.Specified) :
    equalsType type condition = .ok (decide (condition.Fits type)) := by
  cases condition with
  | name text => rfl
  | type clazz => rfl
  | any => exact specified.elim
  | illegal => exact specified.elim

/-- The loop over the parameter types decides whether all fit. -/
theorem equalsTypes_specified {types : List JavaClass} {conditions : List TypeCondition}
    (specified : ∀ condition ∈ conditions, condition.Specified)
    (sameLength : types.length = conditions.length) :
    ∃ verdict, equalsTypes types conditions = .ok verdict ∧
      (verdict = true ↔ FitAll types conditions) := by
  induction types generalizing conditions with
  | nil =>
      obtain rfl : conditions = [] := List.length_eq_zero_iff.mp sameLength.symm
      exact ⟨true, rfl, by simp [FitAll]⟩
  | cons type types inductionHypothesis =>
      cases conditions with
      | nil => cases sameLength
      | cons condition conditions =>
          have isSpecified := specified condition List.mem_cons_self
          unfold equalsTypes
          rw [equalsType_specified type isSpecified]
          by_cases fits : condition.Fits type
          · obtain ⟨verdict, compared, isVerdict⟩ := inductionHypothesis
              (fun other member => specified other (List.mem_cons_of_mem _ member))
              (Nat.succ.inj sameLength)
            refine ⟨verdict, by simp only [fits, decide_true, compared], ?_⟩
            rw [isVerdict, FitAll, FitAll, List.forall₂_cons]
            exact (and_iff_right fits).symm
          · refine ⟨false, by simp only [fits, decide_false], ?_⟩
            simp [FitAll, fits]

/-! ## Matches -/

/-- A member of the list that matches, or none if none does. -/
def IsAnswer {M : Type} (Matches : M → Prop) (members : List M) : Option M → Prop
  | none => ∀ member ∈ members, ¬ Matches member
  | some found => found ∈ members ∧ Matches found

theorem IsAnswer.cons_of_not {M : Type} {Matches : M → Prop} {first : M} {rest : List M}
    {found : Option M} (isAnswer : IsAnswer Matches rest found) (other : ¬ Matches first) :
    IsAnswer Matches (first :: rest) found := by
  cases found with
  | none =>
      intro member isMember
      rcases List.mem_cons.mp isMember with same | later
      · rw [same]
        exact other
      · exact isAnswer member later
  | some found => exact ⟨List.mem_cons_of_mem _ isAnswer.1, isAnswer.2⟩

/-- The method has the name, the return type and the parameter types asked for. -/
structure Method.Matches (methodName : String) (returnType : TypeCondition)
    (parameterTypes : List TypeCondition) (method : Method) : Prop where
  name : method.name = methodName
  returns : returnType.Fits method.returnType
  takes : FitAll method.parameterTypes parameterTypes

theorem methodLoop_specified (methodName : String) {returnType : TypeCondition}
    {parameterTypes : List TypeCondition} (returnSpecified : returnType.Specified)
    (specified : ∀ condition ∈ parameterTypes, condition.Specified) (methods : List Method) :
    ∃ found, methodLoop methodName returnType parameterTypes methods = .ok found ∧
      IsAnswer (Method.Matches methodName returnType parameterTypes) methods found := by
  induction methods with
  | nil => exact ⟨none, rfl, fun _ member => absurd member List.not_mem_nil⟩
  | cons method rest inductionHypothesis =>
      obtain ⟨found, foundRest, isAnswer⟩ := inductionHypothesis
      unfold methodLoop
      rw [equalsType_specified _ returnSpecified]
      by_cases sameName : method.name = methodName
      · rw [if_neg (not_not.mpr sameName)]
        by_cases returns : returnType.Fits method.returnType
        · simp only [returns, decide_true]
          by_cases sameLength : method.parameterTypes.length = parameterTypes.length
          · obtain ⟨verdict, compared, isVerdict⟩ := equalsTypes_specified specified sameLength
            rw [if_neg (not_not.mpr sameLength), compared]
            cases verdict with
            | true =>
                exact ⟨some method, rfl, List.mem_cons_self, sameName, returns, isVerdict.mp rfl⟩
            | false =>
                refine ⟨found, foundRest, isAnswer.cons_of_not fun isMatch => ?_⟩
                cases isVerdict.mpr isMatch.takes
          · rw [if_pos sameLength]
            exact ⟨found, foundRest, isAnswer.cons_of_not fun isMatch =>
              sameLength isMatch.takes.length_eq⟩
        · simp only [returns, decide_false]
          exact ⟨found, foundRest, isAnswer.cons_of_not fun isMatch => returns isMatch.returns⟩
      · rw [if_pos sameName]
        exact ⟨found, foundRest, isAnswer.cons_of_not fun isMatch => sameName isMatch.name⟩

theorem constructorLoop_specified {parameterTypes : List TypeCondition}
    (specified : ∀ condition ∈ parameterTypes, condition.Specified)
    (constructors : List Constructor) :
    ∃ found, constructorLoop parameterTypes constructors = .ok found ∧
      IsAnswer (fun constructor => FitAll constructor.parameterTypes parameterTypes)
        constructors found := by
  induction constructors with
  | nil => exact ⟨none, rfl, fun _ member => absurd member List.not_mem_nil⟩
  | cons constructor rest inductionHypothesis =>
      obtain ⟨found, foundRest, isAnswer⟩ := inductionHypothesis
      unfold constructorLoop
      by_cases sameLength : constructor.parameterTypes.length = parameterTypes.length
      · obtain ⟨verdict, compared, isVerdict⟩ := equalsTypes_specified specified sameLength
        rw [if_neg (not_not.mpr sameLength), compared]
        cases verdict with
        | true => exact ⟨some constructor, rfl, List.mem_cons_self, isVerdict.mp rfl⟩
        | false =>
            refine ⟨found, foundRest, isAnswer.cons_of_not fun isMatch => ?_⟩
            cases isVerdict.mpr isMatch
      · rw [if_pos sameLength]
        exact ⟨found, foundRest, isAnswer.cons_of_not fun isMatch =>
          sameLength isMatch.length_eq⟩

/-! ## One match -/

/-- No two of the types have one name. -/
def UniqueNames (types : List JavaClass) : Prop :=
  ∀ left ∈ types, ∀ right ∈ types, left.name = right.name → left = right

/-- A condition that is given fits one type. -/
theorem UniqueNames.fits_unique {types : List JavaClass} (uniqueNames : UniqueNames types)
    {condition : TypeCondition} (specified : condition.Specified) {left right : JavaClass}
    (isLeft : left ∈ types) (isRight : right ∈ types) (leftFits : condition.Fits left)
    (rightFits : condition.Fits right) : left = right := by
  cases condition with
  | name text => exact uniqueNames left isLeft right isRight (leftFits.trans rightFits.symm)
  | type clazz => exact leftFits.trans rightFits.symm
  | any => exact specified.elim
  | illegal => exact specified.elim

theorem UniqueNames.fitAll_unique {types : List JavaClass} (uniqueNames : UniqueNames types)
    {conditions : List TypeCondition}
    (specified : ∀ condition ∈ conditions, condition.Specified) {lefts rights : List JavaClass}
    (areLeft : lefts ⊆ types) (areRight : rights ⊆ types) (leftFit : FitAll lefts conditions)
    (rightFit : FitAll rights conditions) : lefts = rights := by
  induction leftFit generalizing rights with
  | nil =>
      cases rightFit
      rfl
  | cons fits _ inductionHypothesis =>
      cases rightFit with
      | cons otherFits restFit =>
          rw [List.cons_subset] at areLeft areRight
          have sameHead := uniqueNames.fits_unique (specified _ List.mem_cons_self) areLeft.1
            areRight.1 fits otherFits
          have sameTail := inductionHypothesis
            (fun other member => specified other (List.mem_cons_of_mem _ member)) areLeft.2
            areRight.2 restFit
          rw [sameHead, sameTail]

/-- With at most one match, the answer does not depend on the order. -/
theorem IsAnswer.eq_of_perm {M : Type} {Matches : M → Prop} {members others : List M}
    (permuted : others.Perm members)
    (unique : ∀ left ∈ members, ∀ right ∈ members, Matches left → Matches right → left = right)
    {found otherFound : Option M} (isAnswer : IsAnswer Matches members found)
    (otherAnswer : IsAnswer Matches others otherFound) : otherFound = found := by
  cases found with
  | none =>
      cases otherFound with
      | none => rfl
      | some other =>
          exact absurd otherAnswer.2 (isAnswer other (permuted.mem_iff.mp otherAnswer.1))
  | some found =>
      cases otherFound with
      | none => exact absurd isAnswer.2 (otherAnswer found (permuted.mem_iff.mpr isAnswer.1))
      | some other =>
          rw [unique other (permuted.mem_iff.mp otherAnswer.1) found isAnswer.1 otherAnswer.2
            isAnswer.2]

theorem IsAnswer.some_iff {M : Type} {Matches : M → Prop} {members : List M}
    (unique : ∀ left ∈ members, ∀ right ∈ members, Matches left → Matches right → left = right)
    {found : Option M} (isAnswer : IsAnswer Matches members found) (member : M) :
    found = some member ↔ member ∈ members ∧ Matches member := by
  constructor
  · rintro rfl
    exact isAnswer
  · rintro ⟨isMember, isMatch⟩
    cases found with
    | none => exact absurd isMatch (isAnswer member isMember)
    | some other => rw [unique other isAnswer.1 member isMember isAnswer.2 isMatch]

theorem IsAnswer.none_iff {M : Type} {Matches : M → Prop} {members : List M}
    {found : Option M} (isAnswer : IsAnswer Matches members found) :
    found = none ↔ ∀ member ∈ members, ¬ Matches member := by
  constructor
  · rintro rfl
    exact isAnswer
  · intro noMatch
    cases found with
    | none => rfl
    | some member => exact absurd isAnswer.2 (noMatch member isAnswer.1)

/-! ## Exact lookups -/

/-- The types that the members of a class are declared with. -/
def resolvedTypes (methods : List Method) (constructors : List Constructor) : List JavaClass :=
  methods.flatMap (fun method => method.returnType :: method.parameterTypes) ++
    constructors.flatMap Constructor.parameterTypes

/-- What a class file promises: no two methods of one name and descriptor, no two
constructors with the same parameter types, and names that tell the resolved types
apart. -/
structure WellDeclared (methods : List Method) (constructors : List Constructor) : Prop where
  distinctMethods : methods.Pairwise fun left right => ¬ left.SameSignature right
  distinctConstructors : constructors.Pairwise fun left right =>
    ¬ left.parameterTypes = right.parameterTypes
  names : UniqueNames (resolvedTypes methods constructors)

section Unique

variable {methods : List Method} {constructors : List Constructor}
  (wellDeclared : WellDeclared methods constructors) {parameterTypes : List TypeCondition}
  (specified : ∀ condition ∈ parameterTypes, condition.Specified)

include wellDeclared specified

theorem WellDeclared.method_unique {methodName : String} {returnType : TypeCondition}
    (returnSpecified : returnType.Specified) :
    ∀ left ∈ methods, ∀ right ∈ methods,
      left.Matches methodName returnType parameterTypes →
        right.Matches methodName returnType parameterTypes → left = right := by
  intro left isLeft right isRight leftMatches rightMatches
  have typesOf : ∀ method ∈ methods, method.returnType :: method.parameterTypes ⊆
      resolvedTypes methods constructors := by
    intro method isMethod type isType
    exact List.mem_append_left _ (List.mem_flatMap.mpr ⟨method, isMethod, isType⟩)
  have leftTypes := List.cons_subset.mp (typesOf left isLeft)
  have rightTypes := List.cons_subset.mp (typesOf right isRight)
  have sameSignature : left.SameSignature right := by
    refine ⟨leftMatches.name.trans rightMatches.name.symm, ?_, ?_⟩
    · exact wellDeclared.names.fitAll_unique specified leftTypes.2 rightTypes.2
        leftMatches.takes rightMatches.takes
    · exact wellDeclared.names.fits_unique returnSpecified leftTypes.1 rightTypes.1
        leftMatches.returns rightMatches.returns
  have back : right.SameSignature left :=
    ⟨sameSignature.1.symm, sameSignature.2.1.symm, sameSignature.2.2.symm⟩
  exact eq_of_pairwise_not wellDeclared.distinctMethods isLeft isRight sameSignature back

theorem WellDeclared.constructor_unique :
    ∀ left ∈ constructors, ∀ right ∈ constructors,
      FitAll left.parameterTypes parameterTypes →
        FitAll right.parameterTypes parameterTypes → left = right := by
  intro left isLeft right isRight leftFits rightFits
  have typesOf : ∀ constructor ∈ constructors, constructor.parameterTypes ⊆
      resolvedTypes methods constructors := by
    intro constructor isConstructor type isType
    exact List.mem_append_right _ (List.mem_flatMap.mpr ⟨constructor, isConstructor, isType⟩)
  have sameTypes := wellDeclared.names.fitAll_unique specified (typesOf left isLeft)
    (typesOf right isRight) leftFits rightFits
  exact eq_of_pairwise_not wellDeclared.distinctConstructors isLeft isRight sameTypes sameTypes.symm

end Unique

/-- **Lookups that give every type are exact.**  However reflection orders the
declared members, the answer is the one member that matches, and an error exactly
if none does. -/
theorem specified_lookups_exact (table permuted : ClassTable)
    (constructors permutedConstructors : JavaClass → List Constructor) (clazz : JavaClass)
    (wellDeclared : WellDeclared (table.getDeclaredMethods clazz) (constructors clazz))
    (samePermuted : (permuted.getDeclaredMethods clazz).Perm (table.getDeclaredMethods clazz))
    (sameConstructors : (permutedConstructors clazz).Perm (constructors clazz))
    (parameterTypes : List TypeCondition)
    (specified : ∀ condition ∈ parameterTypes, condition.Specified) :
    (∀ methodName returnType, returnType.Specified →
      permuted.getMethodWithObfuscate clazz methodName returnType parameterTypes =
        table.getMethodWithObfuscate clazz methodName returnType parameterTypes ∧
      (∀ method,
        table.getMethodWithObfuscate clazz methodName returnType parameterTypes = .ok method ↔
          method ∈ table.getDeclaredMethods clazz ∧
            method.Matches methodName returnType parameterTypes) ∧
      ((∃ error, table.getMethodWithObfuscate clazz methodName returnType parameterTypes =
          .error error) ↔
        ∀ method ∈ table.getDeclaredMethods clazz,
          ¬ method.Matches methodName returnType parameterTypes)) ∧
    getConstructor permutedConstructors clazz parameterTypes =
      getConstructor constructors clazz parameterTypes ∧
    (∀ constructor, getConstructor constructors clazz parameterTypes = .ok constructor ↔
      constructor ∈ constructors clazz ∧ FitAll constructor.parameterTypes parameterTypes) ∧
    ((∃ error, getConstructor constructors clazz parameterTypes = .error error) ↔
      ∀ constructor ∈ constructors clazz,
        ¬ FitAll constructor.parameterTypes parameterTypes) := by
  constructor
  · intro methodName returnType returnSpecified
    obtain ⟨found, isFound, isAnswer⟩ := methodLoop_specified methodName
      returnSpecified specified (table.getDeclaredMethods clazz)
    obtain ⟨other, isOther, otherAnswer⟩ := methodLoop_specified methodName
      returnSpecified specified (permuted.getDeclaredMethods clazz)
    have unique := @WellDeclared.method_unique _ _ wellDeclared _ specified methodName _
      returnSpecified
    have same := isAnswer.eq_of_perm samePermuted unique otherAnswer
    rw [same] at isOther
    unfold ClassTable.getMethodWithObfuscate
    rw [isFound, isOther]
    refine ⟨rfl, fun method => ?_, ?_⟩
    · rw [← isAnswer.some_iff unique method]
      cases found with
      | none => simp
      | some found => simp
    · rw [← isAnswer.none_iff]
      cases found with
      | none => simp
      | some found => simp
  · obtain ⟨found, isFound, isAnswer⟩ := constructorLoop_specified specified (constructors clazz)
    obtain ⟨other, isOther, otherAnswer⟩ :=
      constructorLoop_specified specified (permutedConstructors clazz)
    have unique := wellDeclared.constructor_unique specified
    have same := isAnswer.eq_of_perm sameConstructors unique otherAnswer
    rw [same] at isOther
    unfold getConstructor
    rw [isFound, isOther]
    refine ⟨rfl, fun constructor => ?_, ?_⟩
    · rw [← isAnswer.some_iff unique constructor]
      cases found with
      | none => simp
      | some found => simp
    · rw [← isAnswer.none_iff]
      cases found with
      | none => simp
      | some found => simp

/-- Two overloads and two constructors. -/
def overloaded : ClassTable where
  getSuperclass _ := none
  getInterfaces _ := []
  getDeclaredFields _ := []
  getDeclaredMethods clazz := [⟨clazz, "run", .void, [⟨"int", 0⟩], false, true⟩,
    ⟨clazz, "run", .void, [⟨"java.lang.String", 0⟩], false, true⟩]
  height _ := 0
  descends _ _ isSuper := by cases isSuper

def overloadedConstructors (clazz : JavaClass) : List Constructor :=
  [⟨clazz, []⟩, ⟨clazz, [⟨"int", 0⟩]⟩]

/-- The same class, with its methods the other way round. -/
def overloadedReversed : ClassTable :=
  { overloaded with getDeclaredMethods := fun clazz => (overloaded.getDeclaredMethods clazz).reverse }

theorem overload_found :
    overloaded.getMethodWithObfuscate ⟨"app.A", 1⟩ "run" (.type .void)
        [.name "java.lang.String"] =
      .ok ⟨⟨"app.A", 1⟩, "run", .void, [⟨"java.lang.String", 0⟩], false, true⟩ ∧
    overloadedReversed.getMethodWithObfuscate ⟨"app.A", 1⟩ "run" (.type .void)
        [.name "java.lang.String"] =
      overloaded.getMethodWithObfuscate ⟨"app.A", 1⟩ "run" (.type .void)
        [.name "java.lang.String"] := by
  have wellDeclared : WellDeclared (overloaded.getDeclaredMethods ⟨"app.A", 1⟩)
      (overloadedConstructors ⟨"app.A", 1⟩) := by
    refine ⟨?_, by simp [overloadedConstructors], ?_⟩
    · simp [overloaded, Method.SameSignature]
    · unfold UniqueNames
      decide
  have specified : ∀ condition ∈ [TypeCondition.name "java.lang.String"],
      condition.Specified := by
    simp [TypeCondition.Specified]
  have lookups := specified_lookups_exact overloaded overloadedReversed overloadedConstructors
    overloadedConstructors ⟨"app.A", 1⟩ wellDeclared (List.reverse_perm _) (List.Perm.refl _) _
    specified
  obtain ⟨sameAnswer, found, -⟩ := lookups.1 "run" (.type .void) trivial
  refine ⟨(found _).mpr ⟨?_, rfl, rfl, ?_⟩, sameAnswer⟩
  · decide
  · exact .cons rfl .nil

end AndroidPatch.Reflect
