import AndroidPatch.Library.Worklist
import AndroidPatch.Reflect.ClassWrapper

/-!
Contract: the two searches over classes.

Owns:
- `getInheritClasses`, the superclasses and interfaces of a class;
- `getInnerClasses`, its member classes and the classes numbered after it;
- both as searches with a queue, which end and find exactly their closure.
-/

namespace AndroidPatch.Reflect

open AndroidPatch.Library AndroidPatch.Lang

/-! ## Inherited classes -/

section Inherit

variable {C : Type} (getSuperclass : C → Option C) (getInterfaces : C → List C)

/-- The classes one step above a class. -/
def parents (clazz : C) : List C :=
  (getSuperclass clazz).toList ++ getInterfaces clazz

variable [DecidableEq C]

/-- The loop of `SupplyAPI.getInheritClasses`. The queue holds references:
`poll` answers null for an empty queue, and for a null in front of it. -/
def inheritLoop : Nat → List (Option C) → List C → Option (List C)
  | _, [], output => some output
  | _, none :: _, output => some output
  | 0, some _ :: _, _ => none
  | fuel + 1, some node :: input, output =>
      if node ∈ output then
        inheritLoop fuel input output
      else
        let input := match getSuperclass node with
          | none => input
          | some superclass => input ++ [some superclass]
        inheritLoop fuel (input ++ (getInterfaces node).map some) (output ++ [node])

/-- `SupplyAPI.getInheritClasses`. -/
def getInheritClasses (fuel : Nat) (root : Option C) : Option (List C) :=
  inheritLoop getSuperclass getInterfaces fuel [root] []

variable {getSuperclass getInterfaces}

theorem inheritLoop_eq_search (fuel : Nat) (queue output : List C) :
    inheritLoop getSuperclass getInterfaces fuel (queue.map some) output =
      Worklist.search (parents getSuperclass getInterfaces) fuel queue output := by
  induction fuel generalizing queue output with
  | zero =>
      cases queue with
      | nil => rfl
      | cons node rest => rfl
  | succ fuel inductionHypothesis =>
      cases queue with
      | nil => rfl
      | cons node rest =>
          rw [List.map_cons, inheritLoop, Worklist.search]
          by_cases known : node ∈ output
          · rw [if_pos known, if_pos known]
            exact inductionHypothesis rest output
          · rw [if_neg known, if_neg known, ← inductionHypothesis]
            cases isSuper : getSuperclass node with
            | none => simp [parents, isSuper]
            | some superclass => simp [parents, isSuper]

/-- **The classes above a class.**  If these are finitely many, the search ends and
lists each of them once, the class itself first and nearer ones before those
farther away. Above null there is none. -/
theorem getInheritClasses_found (root : C)
    (finite : {clazz | Worklist.Reaches (parents getSuperclass getInterfaces) root clazz}.Finite) :
    (∃ fuel classes,
      (∀ more ≥ fuel,
        getInheritClasses getSuperclass getInterfaces more (some root) = some classes) ∧
      classes.Nodup ∧ classes.head? = some root ∧
      (∀ clazz, clazz ∈ classes ↔
        Worklist.Reaches (parents getSuperclass getInterfaces) root clazz) ∧
      classes.Pairwise fun earlier later =>
        Worklist.distance (parents getSuperclass getInterfaces) root earlier ≤
          Worklist.distance (parents getSuperclass getInterfaces) root later) ∧
    ∀ fuel, getInheritClasses getSuperclass getInterfaces fuel none = some [] := by
  constructor
  · obtain ⟨fuel, classes, found, ends⟩ := Worklist.search_found finite
    refine ⟨fuel, classes, fun more enough => ?_, found.nodup, found.head, found.mem_iff,
      found.sorted⟩
    rw [← ends more enough]
    exact inheritLoop_eq_search more [root] []
  · intro fuel
    cases fuel with
    | zero => rfl
    | succ fuel => rfl

/-- A class with a superclass and an interface that share an interface. -/
theorem getInheritClasses_of_diamond :
    let getSuperclass : Fin 4 → Option (Fin 4) := fun clazz => if clazz = 0 then some 1 else none
    let getInterfaces : Fin 4 → List (Fin 4) := fun clazz =>
      if clazz = 0 then [2] else if clazz = 3 then [] else [3]
    getInheritClasses getSuperclass getInterfaces 6 (some 0) = some [0, 1, 2, 3] ∧
      ∃ fuel classes, getInheritClasses getSuperclass getInterfaces fuel (some 0) = some classes ∧
        classes.Nodup := by
  intro getSuperclass getInterfaces
  refine ⟨by decide, ?_⟩
  obtain ⟨⟨fuel, classes, ends, nodup, -⟩, -⟩ :=
    @getInheritClasses_found (Fin 4) getSuperclass getInterfaces _ 0 (Set.toFinite _)
  exact ⟨fuel, classes, ends fuel le_rfl, nodup⟩

/-- `belongTo` of the format that `Lucy.newFormat2` makes, from the class of the
object. -/
def newFormat2BelongTo (getName : C → String) (packageName : Option String) (fuel : Nat)
    (clazz : Option C) : Option Bool :=
  match packageName with
  | none => some true
  | some package =>
      (getInheritClasses getSuperclass getInterfaces fuel clazz).map fun classes =>
        classes.any fun inherited => package.toList.isPrefixOf (getName inherited).toList

/-- The format of a package takes the objects that have a class or interface of
the package above them. -/
theorem newFormat2BelongTo_iff (getName : C → String) (package : String) (root : C)
    (finite : {clazz | Worklist.Reaches (parents getSuperclass getInterfaces) root clazz}.Finite) :
    ∃ fuel verdict, (∀ more ≥ fuel,
        @newFormat2BelongTo C getSuperclass getInterfaces _ getName (some package) more
          (some root) = some verdict) ∧
      (verdict = true ↔ ∃ clazz,
        Worklist.Reaches (parents getSuperclass getInterfaces) root clazz ∧
          package.toList <+: (getName clazz).toList) := by
  obtain ⟨fuel, classes, found, ends⟩ := Worklist.search_found finite
  have isClasses : ∀ more ≥ fuel,
      getInheritClasses getSuperclass getInterfaces more (some root) = some classes := by
    intro more enough
    rw [← ends more enough]
    exact inheritLoop_eq_search more [root] []
  refine ⟨fuel, _, fun more enough => by rw [newFormat2BelongTo, isClasses more enough]; rfl, ?_⟩
  rw [List.any_eq_true]
  constructor
  · rintro ⟨clazz, member, isPrefix⟩
    exact ⟨clazz, (found.mem_iff clazz).mp member, List.isPrefixOf_iff_prefix.mp isPrefix⟩
  · rintro ⟨clazz, reaches, isPrefix⟩
    exact ⟨clazz, (found.mem_iff clazz).mpr reaches, List.isPrefixOf_iff_prefix.mpr isPrefix⟩

end Inherit

/-! ## Inner classes -/

/-- What class loaders and reflection answer. A class is loaded under its own name,
and the member classes of a class through the loader of that class. -/
structure Loading where
  forName : Nat → String → Option JavaClass
  getDeclaredClasses : JavaClass → List JavaClass
  named : ∀ loader name clazz, forName loader name = some clazz → clazz.name = name
  members : ∀ clazz, ∀ member ∈ getDeclaredClasses clazz,
    forName clazz.loader member.name = some member

/-- The name of the `n`-th class numbered after a class. -/
def numberedName (clazz : JavaClass) (n : Nat) : String :=
  clazz.name ++ "$" ++ toString n

/-- A wrapper object. -/
structure ClassWrapper where
  identity : Nat
  wrapped : JavaClass
deriving DecidableEq, Repr

namespace Loading

variable (loading : Loading)

/-- The loop over the numbers after `n`, which adds to the queue. The counter does
not pass the number of loadable classes by more than one. -/
def numberedLoop : Nat → JavaClass → Nat → List JavaClass → Option (List JavaClass)
  | 0, _, _, _ => none
  | fuel + 1, node, n, input =>
      match loading.forName node.loader (numberedName node (n + 1)) with
      | none => some input
      | some anonymousClass => numberedLoop fuel node (n + 1) (input ++ [anonymousClass])

/-- The search of `getInnerClasses`. -/
def innerLoop : Nat → List JavaClass → List JavaClass → Option (List JavaClass)
  | _, [], output => some output
  | 0, _ :: _, _ => none
  | fuel + 1, node :: input, output =>
      if node ∈ output then
        innerLoop fuel input output
      else
        match loading.numberedLoop fuel node 0 (input ++ loading.getDeclaredClasses node) with
        | none => none
        | some input => innerLoop fuel input (output ++ [node])

/-- The last loop of `getInnerClasses`: the receiver stands for its own class, new
wrappers for the others. -/
def wrapAll (self : ClassWrapper) : Nat → List JavaClass → List ClassWrapper
  | _, [] => []
  | free, clazz :: rest =>
      if clazz = self.wrapped then self :: wrapAll self free rest
      else ⟨free, clazz⟩ :: wrapAll self (free + 1) rest

/-- `ClassWrapper.getInnerClasses`. -/
def getInnerClasses (fuel : Nat) (self : ClassWrapper) : Option (List ClassWrapper) :=
  (loading.innerLoop fuel [self.wrapped] []).map (wrapAll self (self.identity + 1))

/-! ## The closure -/

def Numbered (clazz : JavaClass) (n : Nat) (other : JavaClass) : Prop :=
  loading.forName clazz.loader (numberedName clazz n) = some other

/-- All numbered classes up to a number load. -/
def RunsTo (clazz : JavaClass) (last : Nat) : Prop :=
  ∀ n, 1 ≤ n → n ≤ last → ∃ other, loading.Numbered clazz n other

/-- The largest number up to which they do. -/
def LastNumber (clazz : JavaClass) (last : Nat) : Prop :=
  loading.RunsTo clazz last ∧ ∀ more, loading.RunsTo clazz more → more ≤ last

/-- **The least set** with a class, the member classes of its classes, and those
numbered after them without a gap. -/
inductive Inner (root : JavaClass) : JavaClass → Prop where
  | root : Inner root root
  | member {clazz other : JavaClass} (inner : Inner root clazz)
      (isMember : other ∈ loading.getDeclaredClasses clazz) : Inner root other
  | numbered {clazz other : JavaClass} {last n : Nat} (inner : Inner root clazz)
      (isLast : loading.LastNumber clazz last) (positive : 1 ≤ n) (atMost : n ≤ last)
      (isNumbered : loading.Numbered clazz n other) : Inner root other

/-- The class, and what can be loaded from it: through its loader, and through the
loaders of the classes so loaded. -/
inductive Loadable (root : JavaClass) : JavaClass → Prop where
  | root : Loadable root root
  | load {clazz other : JavaClass} {name : String} (loadable : Loadable root clazz)
      (loads : loading.forName clazz.loader name = some other) : Loadable root other

variable {loading} {root clazz : JavaClass}

theorem numberedName_injective {left right : Nat}
    (same : numberedName clazz left = numberedName clazz right) : left = right := by
  have sameNumber : toString left = toString right := (String.append_right_inj _).mp same
  have sameDigits : Nat.toDigits 10 left = Nat.toDigits 10 right := by
    rw [← Nat.toList_repr, ← Nat.toList_repr]
    exact congrArg String.toList sameNumber
  rw [← @Nat.ofDigitChars_ten_toDigits left, sameDigits, Nat.ofDigitChars_ten_toDigits]

/-- Numbers that load in a row are no more than the loadable classes. -/
theorem Loadable.run_le (finite : {other | loading.Loadable root other}.Finite)
    (loadable : loading.Loadable root clazz) {count : Nat} (runs : loading.RunsTo clazz count) :
    count ≤ finite.toFinset.card := by
  let numbered : Nat → JavaClass := fun n =>
    (loading.forName clazz.loader (numberedName clazz (n + 1))).getD clazz
  have isNumbered : ∀ n < count, loading.Numbered clazz (n + 1) (numbered n) := by
    intro n below
    obtain ⟨other, isOther⟩ := runs (n + 1) (by omega) (by omega)
    unfold Numbered at isOther ⊢
    simp only [numbered, isOther, Option.getD_some]
  rw [← Finset.card_range count]
  apply Finset.card_le_card_of_injOn numbered
  · intro n member
    rw [Finset.mem_coe, Set.Finite.mem_toFinset]
    exact .load loadable (isNumbered n (Finset.mem_range.mp member))
  · intro left isLeft right isRight same
    have leftName := loading.named _ _ _ (isNumbered left (Finset.mem_range.mp isLeft))
    have rightName := loading.named _ _ _ (isNumbered right (Finset.mem_range.mp isRight))
    rw [same] at leftName
    have sameNumber := numberedName_injective (leftName.symm.trans rightName)
    omega

theorem LastNumber.next_missing {last : Nat} (isLast : loading.LastNumber clazz last) :
    loading.forName clazz.loader (numberedName clazz (last + 1)) = none := by
  cases loaded : loading.forName clazz.loader (numberedName clazz (last + 1)) with
  | none => rfl
  | some other =>
      have longer : last + 1 ≤ last := by
        apply isLast.2
        intro n positive atMost
        rcases Nat.lt_or_ge last n with beyond | within
        · obtain rfl : n = last + 1 := by omega
          exact ⟨other, loaded⟩
        · exact isLast.1 n positive within
      omega

theorem LastNumber.unique {last other : Nat} (isLast : loading.LastNumber clazz last)
    (isOther : loading.LastNumber clazz other) : last = other :=
  Nat.le_antisymm (isOther.2 last isLast.1) (isLast.2 other isOther.1)

theorem Loadable.exists_last (finite : {other | loading.Loadable root other}.Finite)
    (loadable : loading.Loadable root clazz) :
    ∃ last ≤ finite.toFinset.card, loading.LastNumber clazz last := by
  classical
  let last := Nat.findGreatest (loading.RunsTo clazz) finite.toFinset.card
  have runs : loading.RunsTo clazz last := by
    apply Nat.findGreatest_spec (Nat.zero_le _)
    intro n positive atMost
    omega
  refine ⟨last, Nat.findGreatest_le _, runs, fun more runsMore => ?_⟩
  exact Nat.le_findGreatest (loadable.run_le finite runsMore) runsMore

/-! ## The loop over the numbers -/

/-- The classes numbered from `n + 1` up to `last`. -/
def numberedFrom (loading : Loading) (clazz : JavaClass) (n last : Nat) : List JavaClass :=
  (List.range' (n + 1) (last - n)).filterMap fun number =>
    loading.forName clazz.loader (numberedName clazz number)

theorem numberedLoop_ends {last : Nat} (isLast : loading.LastNumber clazz last) {n fuel : Nat}
    (below : n ≤ last) (enough : last - n < fuel) (input : List JavaClass) :
    loading.numberedLoop fuel clazz n input =
      some (input ++ loading.numberedFrom clazz n last) := by
  induction fuel generalizing n input with
  | zero => omega
  | succ fuel inductionHypothesis =>
      unfold numberedLoop
      rcases Nat.eq_or_lt_of_le below with atLast | before
      · rw [atLast, isLast.next_missing]
        simp [numberedFrom]
      · obtain ⟨other, loaded⟩ := isLast.1 (n + 1) (by omega) before
        have isOther : loading.forName clazz.loader (numberedName clazz (n + 1)) = some other :=
          loaded
        have split : loading.numberedFrom clazz n last =
            other :: loading.numberedFrom clazz (n + 1) last := by
          have isRange : List.range' (n + 1) (last - n) =
              (n + 1) :: List.range' (n + 1 + 1) (last - (n + 1)) := by
            rw [show last - n = (last - (n + 1)) + 1 by omega, List.range'_succ]
          rw [numberedFrom, isRange, List.filterMap_cons, isOther]
          rfl
        rw [isOther, split]
        dsimp only
        rw [inductionHypothesis before (by omega)]
        simp

/-- The classes numbered after a class without a gap, if these end. -/
noncomputable def numberedClasses (loading : Loading) (clazz : JavaClass) : List JavaClass := by
  classical
  exact if ends : ∃ last, loading.LastNumber clazz last then
    loading.numberedFrom clazz 0 ends.choose else []

theorem LastNumber.numberedClasses_eq {last : Nat} (isLast : loading.LastNumber clazz last) :
    loading.numberedClasses clazz = loading.numberedFrom clazz 0 last := by
  have ends : ∃ last, loading.LastNumber clazz last := ⟨last, isLast⟩
  rw [numberedClasses, dif_pos ends, isLast.unique ends.choose_spec]

theorem mem_numberedClasses {other : JavaClass} :
    other ∈ loading.numberedClasses clazz ↔ ∃ last n, loading.LastNumber clazz last ∧
      1 ≤ n ∧ n ≤ last ∧ loading.Numbered clazz n other := by
  constructor
  · intro member
    by_cases ends : ∃ last, loading.LastNumber clazz last
    · obtain ⟨last, isLast⟩ := ends
      rw [isLast.numberedClasses_eq, numberedFrom, List.mem_filterMap] at member
      obtain ⟨n, inRange, isNumbered⟩ := member
      rw [List.mem_range'_1] at inRange
      exact ⟨last, n, isLast, by omega, by omega, isNumbered⟩
    · rw [numberedClasses, dif_neg ends] at member
      cases member
  · rintro ⟨last, n, isLast, positive, atMost, isNumbered⟩
    rw [isLast.numberedClasses_eq, numberedFrom, List.mem_filterMap]
    exact ⟨n, by rw [List.mem_range'_1]; omega, isNumbered⟩

/-! ## The search -/

/-- What a class adds to the queue. -/
noncomputable def inward (loading : Loading) (clazz : JavaClass) : List JavaClass :=
  loading.getDeclaredClasses clazz ++ loading.numberedClasses clazz

theorem reaches_iff_inner {other : JavaClass} :
    Worklist.Reaches loading.inward root other ↔ loading.Inner root other := by
  constructor
  · intro reaches
    induction reaches with
    | refl => exact .root
    | tail _ isNext inductionHypothesis =>
        rcases List.mem_append.mp isNext with isMember | isNumbered
        · exact .member inductionHypothesis isMember
        · obtain ⟨last, n, isLast, positive, atMost, loads⟩ := mem_numberedClasses.mp isNumbered
          exact .numbered inductionHypothesis isLast positive atMost loads
  · intro inner
    induction inner with
    | root => exact .refl
    | member _ isMember inductionHypothesis =>
        exact inductionHypothesis.tail (List.mem_append_left _ isMember)
    | numbered _ isLast positive atMost loads inductionHypothesis =>
        exact inductionHypothesis.tail (List.mem_append_right _
          (mem_numberedClasses.mpr ⟨_, _, isLast, positive, atMost, loads⟩))

theorem Loadable.inward (loadable : loading.Loadable root clazz) {other : JavaClass}
    (isNext : other ∈ loading.inward clazz) : loading.Loadable root other := by
  rcases List.mem_append.mp isNext with isMember | isNumbered
  · exact .load loadable (loading.members clazz other isMember)
  · obtain ⟨last, n, -, -, -, loads⟩ := mem_numberedClasses.mp isNumbered
    exact .load loadable loads

/-- With fuel for the longest run of numbers, the loop is the search. -/
theorem innerLoop_eq_search (finite : {other | loading.Loadable root other}.Finite) {fuel : Nat}
    {queue output result : List JavaClass}
    (loadable : ∀ other ∈ queue, loading.Loadable root other)
    (ended : Worklist.search loading.inward fuel queue output = some result) :
    loading.innerLoop (fuel + finite.toFinset.card + 1) queue output = some result := by
  induction fuel generalizing queue output with
  | zero =>
      cases queue with
      | nil =>
          cases ended
          rfl
      | cons node rest => cases ended
  | succ fuel inductionHypothesis =>
      rw [show fuel + 1 + finite.toFinset.card + 1 = (fuel + finite.toFinset.card + 1) + 1 by
        omega]
      cases queue with
      | nil =>
          cases ended
          rfl
      | cons node rest =>
          have isNode := loadable node List.mem_cons_self
          have restLoadable : ∀ other ∈ rest, loading.Loadable root other :=
            fun other member => loadable other (List.mem_cons_of_mem _ member)
          rw [innerLoop]
          by_cases known : node ∈ output
          · rw [Worklist.search_known known] at ended
            rw [if_pos known]
            exact inductionHypothesis restLoadable ended
          · rw [Worklist.search_new known] at ended
            obtain ⟨last, atMost, isLast⟩ := isNode.exists_last finite
            have isInput : rest ++ loading.getDeclaredClasses node ++
                loading.numberedFrom node 0 last = rest ++ loading.inward node := by
              rw [Loading.inward, isLast.numberedClasses_eq, List.append_assoc]
            rw [if_neg known, numberedLoop_ends isLast (Nat.zero_le last) (by omega), isInput]
            apply inductionHypothesis ?_ ended
            intro other member
            rcases List.mem_append.mp member with inRest | isNext
            · exact restLoadable other inRest
            · exact isNode.inward isNext

theorem map_wrapAll (self : ClassWrapper) (free : Nat) (classes : List JavaClass) :
    (wrapAll self free classes).map ClassWrapper.wrapped = classes := by
  induction classes generalizing free with
  | nil => rfl
  | cons clazz rest inductionHypothesis =>
      unfold wrapAll
      by_cases isOwn : clazz = self.wrapped
      · rw [if_pos isOwn, List.map_cons, inductionHypothesis, isOwn]
      · rw [if_neg isOwn, List.map_cons, inductionHypothesis]

/-- One loader with a class, a member class, and classes numbered after both. The
number 3 is missing. -/
def sampleClasses : List JavaClass :=
  [⟨"app.A", 1⟩, ⟨"app.A$B", 1⟩, ⟨"app.A$1", 1⟩, ⟨"app.A$2", 1⟩, ⟨"app.A$4", 1⟩, ⟨"app.A$B$1", 1⟩]

def sample : Loading where
  forName loader name := sampleClasses.find? fun clazz => clazz.loader = loader ∧ clazz.name = name
  getDeclaredClasses clazz := if clazz = ⟨"app.A", 1⟩ then [⟨"app.A$B", 1⟩] else []
  named loader name clazz loaded := by
    have isNamed := List.find?_some loaded
    simp only [decide_eq_true_eq] at isNamed
    exact isNamed.2
  members clazz member isMember := by
    split_ifs at isMember with isOuter
    · rw [List.mem_singleton.mp isMember, isOuter]
      decide
    · cases isMember

end Loading

end AndroidPatch.Reflect
