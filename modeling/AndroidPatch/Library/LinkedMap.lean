import AndroidPatch.Library.Run

/-!
Contract: maps that keep the order in which their keys came in.

Values carry their key. A `put` replaces the value of its key in its place, or
appends. After any number of puts the map holds, for each key, what was put last
under it.
-/

namespace AndroidPatch.Library.LinkedMap

variable {K V : Type} [DecidableEq K] (keyOf : V → K)

def put (values : List V) (value : V) : List V :=
  if keyOf value ∈ values.map keyOf then
    values.map fun other => if keyOf other = keyOf value then value else other
  else
    values ++ [value]

def putAll (puts : List V) : List V :=
  puts.foldl (put keyOf) []

/-- A value that was put, with no later put under its key. -/
def LastPut (puts : List V) (value : V) : Prop :=
  ∃ earlier later, puts = earlier ++ value :: later ∧
    ∀ other ∈ later, keyOf other ≠ keyOf value

variable {keyOf}

theorem mem_put {values : List V} {last value : V} :
    value ∈ put keyOf values last ↔
      value = last ∨ value ∈ values ∧ keyOf value ≠ keyOf last := by
  unfold put
  by_cases present : keyOf last ∈ values.map keyOf
  · rw [if_pos present, List.mem_map]
    constructor
    · rintro ⟨other, isOther, rfl⟩
      by_cases same : keyOf other = keyOf last
      · rw [if_pos same]
        exact .inl rfl
      · rw [if_neg same]
        exact .inr ⟨isOther, same⟩
    · rintro (rfl | ⟨isValue, different⟩)
      · obtain ⟨other, isOther, same⟩ := List.mem_map.mp present
        exact ⟨other, isOther, if_pos same⟩
      · exact ⟨value, isValue, if_neg different⟩
  · rw [if_neg present, List.mem_append, List.mem_singleton]
    constructor
    · rintro (isValue | isLast)
      · refine .inr ⟨isValue, fun same => ?_⟩
        rw [← same] at present
        exact present (List.mem_map_of_mem isValue)
      · exact .inl isLast
    · rintro (isLast | ⟨isValue, -⟩)
      · exact .inr isLast
      · exact .inl isValue

omit [DecidableEq K] in
theorem lastPut_append {puts : List V} {last value : V} :
    LastPut keyOf (puts ++ [last]) value ↔
      value = last ∨ LastPut keyOf puts value ∧ keyOf value ≠ keyOf last := by
  constructor
  · rintro ⟨earlier, later, isSplit, unique⟩
    rcases append_singleton_eq_split.mp isSplit with ⟨-, -, isLast⟩ | ⟨front, rfl, isPuts⟩
    · exact .inl isLast
    · refine .inr ⟨⟨earlier, front, isPuts, ?_⟩, ?_⟩
      · exact fun other member => unique other (List.mem_append_left _ member)
      · exact fun same => unique last (by simp) same.symm
  · rintro (rfl | ⟨⟨earlier, later, rfl, unique⟩, different⟩)
    · exact ⟨puts, [], rfl, fun _ member => absurd member List.not_mem_nil⟩
    · refine ⟨earlier, later ++ [last], by simp, fun other member => ?_⟩
      rcases List.mem_append.mp member with isLater | isLast
      · exact unique other isLater
      · rw [List.mem_singleton.mp isLast]
        exact different.symm

/-- **The map holds the last put of every key.** -/
theorem mem_putAll {puts : List V} {value : V} :
    value ∈ putAll keyOf puts ↔ LastPut keyOf puts value := by
  induction puts using List.reverseRecOn with
  | nil =>
      constructor
      · exact fun member => absurd member List.not_mem_nil
      · rintro ⟨earlier, later, isSplit, -⟩
        cases earlier with
        | nil => cases isSplit
        | cons => cases isSplit
  | append_singleton puts last inductionHypothesis =>
      have isPut : putAll keyOf (puts ++ [last]) = put keyOf (putAll keyOf puts) last := by
        simp [putAll]
      rw [isPut, mem_put, lastPut_append, inductionHypothesis]

omit [DecidableEq K] in
/-- Under one key one value was put last. -/
theorem LastPut.unique {puts : List V} {first second : V} (isFirst : LastPut keyOf puts first)
    (isSecond : LastPut keyOf puts second) (same : keyOf first = keyOf second) :
    first = second := by
  induction puts using List.reverseRecOn with
  | nil =>
      obtain ⟨earlier, later, isSplit, -⟩ := isFirst
      cases earlier with
      | nil => cases isSplit
      | cons => cases isSplit
  | append_singleton puts last inductionHypothesis =>
      rcases lastPut_append.mp isFirst with firstLast | ⟨firstEarlier, firstDifferent⟩
      · rcases lastPut_append.mp isSecond with secondLast | ⟨-, secondDifferent⟩
        · rw [firstLast, secondLast]
        · rw [firstLast] at same
          exact absurd same.symm secondDifferent
      · rcases lastPut_append.mp isSecond with secondLast | ⟨secondEarlier, -⟩
        · rw [secondLast] at same
          exact absurd same firstDifferent
        · exact inductionHypothesis firstEarlier secondEarlier

end AndroidPatch.Library.LinkedMap
