import Mathlib.Algebra.Ring.Nat
import Mathlib.Data.List.DropRight
import Mathlib.Order.Bounds.Basic

/-!
Contract: ascending lists of disjoint intervals, and the hull of those that a
predicate selects.

Owns:
- the span of a predicate, from the first to the last interval that it selects;
- the ends of the hull of the selected intervals: those of the span;
- when the hull is covered: if and only if the span leaves no gap and every interval of
  it, selected or not, may cover.

An interval is any value with a start, which belongs to it, and a stop, which does not.
-/

namespace AndroidPatch.Library.Intervals

variable {α β : Type} [LinearOrder β] (start stop : α → β)

/-- The intervals are not empty, and each one stops before the later ones start. -/
structure Ascending (intervals : List α) : Prop where
  proper : ∀ interval ∈ intervals, start interval < stop interval
  disjoint : intervals.Pairwise fun interval later => stop interval ≤ start later

/-- Every point of the range belongs to an interval that may cover. -/
def Covered (may : α → Prop) (intervals : List α) (lower upper : β) : Prop :=
  ∀ point, lower ≤ point → point < upper →
    ∃ interval ∈ intervals, start interval ≤ point ∧ point < stop interval ∧ may interval

/-- Neighbours touch. -/
def Adjoining (intervals : List α) : Prop :=
  intervals.IsChain fun interval next => stop interval = start next

instance [DecidableEq β] (intervals : List α) : Decidable (Adjoining start stop intervals) :=
  inferInstanceAs (Decidable (List.IsChain _ _))

/-- From the first to the last interval selected. -/
def span (selected : α → Bool) (intervals : List α) : List α :=
  (intervals.dropWhile (! selected ·)).rdropWhile (! selected ·)

/-! ## The span -/

section Span

variable (selected : α → Bool)

theorem span_split (intervals : List α) :
    ∃ before after, intervals = before ++ (span selected intervals ++ after) ∧
      (∀ interval ∈ before, selected interval = false) ∧
      ∀ interval ∈ after, selected interval = false := by
  refine ⟨intervals.takeWhile (! selected ·),
    (intervals.dropWhile (! selected ·)).rtakeWhile (! selected ·), ?_, ?_, ?_⟩
  · unfold span
    rw [List.rdropWhile_append_rtakeWhile, List.takeWhile_append_dropWhile]
  · intro interval isBefore
    simpa using List.mem_takeWhile_imp isBefore
  · intro interval isAfter
    simpa using List.mem_rtakeWhile_imp isAfter

theorem mem_span {intervals : List α} {interval : α} (isInterval : interval ∈ intervals)
    (isSelected : selected interval) : interval ∈ span selected intervals := by
  obtain ⟨before, after, split, noneBefore, noneAfter⟩ := span_split selected intervals
  rw [split] at isInterval
  rcases List.mem_append.mp isInterval with isBefore | later
  · exact absurd isSelected (by simp [noneBefore interval isBefore])
  · rcases List.mem_append.mp later with isSpanned | isAfter
    · exact isSpanned
    · exact absurd isSelected (by simp [noneAfter interval isAfter])

/-- The span starts and stops with selected intervals. -/
theorem span_ends {intervals : List α} {first : α} {rest : List α}
    (isSpan : span selected intervals = first :: rest) :
    selected first ∧ selected ((first :: rest).getLast (List.cons_ne_nil first rest)) := by
  unfold span at isSpan
  constructor
  · have isPrefix : first :: rest <+: intervals.dropWhile (! selected ·) :=
      isSpan ▸ List.rdropWhile_prefix _ _
    obtain ⟨after, dropped⟩ := isPrefix
    have headNot := @List.head_dropWhile_not α (! selected ·) intervals
    rw [← dropped] at headNot
    simpa using headNot (by simp)
  · have lastNot := List.rdropWhile_last_not (! selected ·)
      (intervals.dropWhile (! selected ·)) (by simp [isSpan])
    simpa [isSpan] using lastNot

end Span

/-! ## The hull -/

section Hull

variable {start stop}

namespace Ascending

theorem of_append {before intervals : List α}
    (ascending : Ascending start stop (before ++ intervals)) :
    Ascending start stop before ∧ Ascending start stop intervals := by
  obtain ⟨earlier, later, -⟩ := List.pairwise_append.mp ascending.disjoint
  exact ⟨⟨fun interval member => ascending.proper interval (by simp [member]), earlier⟩,
    ⟨fun interval member => ascending.proper interval (by simp [member]), later⟩⟩

theorem tail {first : α} {rest : List α} (ascending : Ascending start stop (first :: rest)) :
    Ascending start stop rest :=
  (List.singleton_append ▸ ascending : Ascending start stop ([first] ++ rest)).of_append.2

/-- The first interval starts first. -/
theorem start_le {first : α} {rest : List α} (ascending : Ascending start stop (first :: rest))
    {interval : α} (isInterval : interval ∈ first :: rest) : start first ≤ start interval := by
  rcases List.mem_cons.mp isInterval with isFirst | isLater
  · rw [isFirst]
  · exact (ascending.proper first (by simp)).le.trans
      ((List.pairwise_cons.mp ascending.disjoint).1 interval isLater)

/-- The last interval stops last. -/
theorem le_stop {intervals : List α} (ascending : Ascending start stop intervals)
    (nonempty : intervals ≠ []) :
    ∀ interval ∈ intervals, stop interval ≤ stop (intervals.getLast nonempty) := by
  induction intervals with
  | nil => exact absurd rfl nonempty
  | cons first rest inductionHypothesis =>
      intro interval isInterval
      cases rest with
      | nil =>
          rw [List.getLast_singleton, List.mem_singleton.mp isInterval]
      | cons second rest =>
          have later := inductionHypothesis ascending.tail (List.cons_ne_nil second rest)
          rw [List.getLast_cons (List.cons_ne_nil second rest)]
          rcases List.mem_cons.mp isInterval with isFirst | isLater
          · have below := (List.pairwise_cons.mp ascending.disjoint).1 second (by simp)
            have proper := ascending.proper second (by simp)
            rw [isFirst]
            exact (below.trans proper.le).trans (later second (by simp))
          · exact later interval isLater

theorem least_span {intervals : List α} (ascending : Ascending start stop intervals)
    {selected : α → Bool} {first : α} {rest : List α}
    (isSpan : span selected intervals = first :: rest) :
    IsLeast {point | ∃ interval ∈ intervals, selected interval ∧ start interval = point}
      (start first) := by
  obtain ⟨before, after, split, -, -⟩ := span_split selected intervals
  have spanAscending : Ascending start stop (first :: rest) := by
    rw [split, isSpan] at ascending
    exact ascending.of_append.2.of_append.1
  constructor
  · exact ⟨first, by rw [split, isSpan]; simp, (span_ends selected isSpan).1, rfl⟩
  · rintro point ⟨interval, isInterval, isSelected, rfl⟩
    exact spanAscending.start_le (isSpan ▸ mem_span selected isInterval isSelected)

theorem greatest_span {intervals : List α} (ascending : Ascending start stop intervals)
    {selected : α → Bool} {first : α} {rest : List α}
    (isSpan : span selected intervals = first :: rest) :
    IsGreatest {point | ∃ interval ∈ intervals, selected interval ∧ stop interval = point}
      (stop ((first :: rest).getLast (List.cons_ne_nil first rest))) := by
  obtain ⟨before, after, split, -, -⟩ := span_split selected intervals
  have spanAscending : Ascending start stop (first :: rest) := by
    rw [split, isSpan] at ascending
    exact ascending.of_append.2.of_append.1
  constructor
  · refine ⟨_, ?_, (span_ends selected isSpan).2, rfl⟩
    rw [split, isSpan]
    have isLast := List.getLast_mem (List.cons_ne_nil first rest)
    exact List.mem_append_right before (List.mem_append_left after isLast)
  · rintro point ⟨interval, isInterval, isSelected, rfl⟩
    exact spanAscending.le_stop _ interval (isSpan ▸ mem_span selected isInterval isSelected)

end Ascending

/-- Intervals that touch and may cover, cover what lies between their ends. -/
theorem covered_of_adjoining {may : α → Prop} {first : α} {rest : List α}
    (adjoining : Adjoining start stop (first :: rest))
    (mayAll : ∀ interval ∈ first :: rest, may interval) :
    Covered start stop may (first :: rest) (start first)
      (stop ((first :: rest).getLast (List.cons_ne_nil first rest))) := by
  intro point above below
  induction rest generalizing first with
  | nil => exact ⟨first, by simp, above, below, mayAll first (by simp)⟩
  | cons second rest inductionHypothesis =>
      rcases lt_or_ge point (stop first) with inside | beyond
      · exact ⟨first, by simp, above, inside, mayAll first (by simp)⟩
      · obtain ⟨touches, adjoiningRest⟩ := List.isChain_cons_cons.mp adjoining
        rw [List.getLast_cons (List.cons_ne_nil second rest)] at below
        obtain ⟨interval, isInterval, covers⟩ := inductionHypothesis adjoiningRest
          (fun interval isLater => mayAll interval (List.mem_cons_of_mem first isLater))
          (touches ▸ beyond) below
        exact ⟨interval, List.mem_cons_of_mem first isInterval, covers⟩

/-- Of an ascending list, only the interval itself holds its start. -/
theorem eq_of_holds_start {before after : List α} {interval other : α}
    (ascending : Ascending start stop (before ++ interval :: after))
    (isOther : other ∈ before ++ interval :: after)
    (starts : start other ≤ start interval) (stops : start interval < stop other) :
    other = interval := by
  obtain ⟨-, later, across⟩ := List.pairwise_append.mp ascending.disjoint
  rcases List.mem_append.mp isOther with isBefore | isLater
  · exact absurd (across other isBefore interval (by simp)) (not_le.mpr stops)
  · rcases List.mem_cons.mp isLater with same | isAfter
    · exact same
    · have beyond := (List.pairwise_cons.mp later).1 other isAfter
      exact absurd (starts.trans_lt (ascending.proper interval (by simp))) (not_lt.mpr beyond)

/-- No interval holds a point of a gap. -/
theorem touches_of_held {before after : List α} {interval next other : α}
    (ascending : Ascending start stop (before ++ interval :: next :: after))
    (isOther : other ∈ before ++ interval :: next :: after)
    (starts : start other ≤ stop interval) (stops : stop interval < stop other) :
    stop interval = start next := by
  obtain ⟨-, later, across⟩ := List.pairwise_append.mp ascending.disjoint
  obtain ⟨beyond, latest⟩ := List.pairwise_cons.mp later
  have proper := ascending.proper interval (by simp)
  rcases List.mem_append.mp isOther with isBefore | isLater
  · exact absurd ((across other isBefore interval (by simp)).trans proper.le) (not_le.mpr stops)
  · rcases List.mem_cons.mp isLater with same | isAfter
    · exact absurd stops (by rw [same]; exact lt_irrefl _)
    · refine le_antisymm (beyond next (by simp)) ?_
      rcases List.mem_cons.mp isAfter with isNext | isLast
      · exact isNext ▸ starts
      · have properNext := ascending.proper next (by simp)
        exact (properNext.le.trans ((List.pairwise_cons.mp latest).1 other isLast)).trans starts

theorem may_first_of_covered {may : α → Prop} {before after : List α} {first : α} {upper : β}
    (ascending : Ascending start stop (before ++ first :: after))
    (covered : Covered start stop may (before ++ first :: after) (start first) upper)
    (reaches : stop first ≤ upper) : may first := by
  have proper := ascending.proper first (by simp)
  obtain ⟨interval, isInterval, starts, stops, mayCover⟩ :=
    covered (start first) le_rfl (proper.trans_le reaches)
  exact eq_of_holds_start ascending isInterval starts stops ▸ mayCover

/-- What is covered from the start of one interval to the stop of another leaves no gap
between them, and each interval there may cover. -/
theorem adjoining_of_covered {may : α → Prop} {before after : List α} {first : α} {rest : List α}
    (ascending : Ascending start stop (before ++ (first :: rest ++ after)))
    (covered : Covered start stop may (before ++ (first :: rest ++ after)) (start first)
      (stop ((first :: rest).getLast (List.cons_ne_nil first rest)))) :
    (∀ interval ∈ first :: rest, may interval) ∧ Adjoining start stop (first :: rest) := by
  have spanAscending : Ascending start stop (first :: rest) :=
    ascending.of_append.2.of_append.1
  have reaches := spanAscending.le_stop (List.cons_ne_nil first rest)
  have firstMay := may_first_of_covered ascending covered (reaches first (by simp))
  induction rest generalizing before first with
  | nil =>
      refine ⟨fun interval isFirst => ?_, List.IsChain.singleton first⟩
      rw [List.mem_singleton.mp isFirst]
      exact firstMay
  | cons second rest inductionHypothesis =>
      have beyond := (List.pairwise_cons.mp spanAscending.disjoint).1 second (by simp)
      have secondProper := spanAscending.proper second (by simp)
      have touches : stop first = start second := by
        obtain ⟨interval, isInterval, starts, stops, -⟩ := covered (stop first)
          (spanAscending.proper first (by simp)).le
          ((beyond.trans_lt secondProper).trans_le (reaches second (by simp)))
        exact touches_of_held ascending isInterval starts stops
      -- The rest of the span, with the first interval counted among those before it.
      have regrouped : before ++ (first :: second :: rest ++ after) =
          before ++ [first] ++ (second :: rest ++ after) := by simp
      rw [regrouped] at ascending covered
      rw [List.getLast_cons (List.cons_ne_nil second rest)] at covered
      have restCovered : Covered start stop may (before ++ [first] ++ (second :: rest ++ after))
          (start second) (stop ((second :: rest).getLast (List.cons_ne_nil second rest))) :=
        fun point above below => covered point
          ((spanAscending.start_le (by simp)).trans above) below
      have restReaches := spanAscending.tail.le_stop (List.cons_ne_nil second rest)
      obtain ⟨restMay, restAdjoining⟩ := inductionHypothesis ascending restCovered
        spanAscending.tail restReaches
        (may_first_of_covered ascending restCovered (restReaches second (by simp)))
      refine ⟨fun interval isInterval => ?_, List.isChain_cons_cons.mpr ⟨touches, restAdjoining⟩⟩
      rcases List.mem_cons.mp isInterval with isFirst | isLater
      · rw [isFirst]
        exact firstMay
      · exact restMay interval isLater

/-- **The hull of the selected intervals is covered if and only if their span leaves no
gap and every interval of it may cover.** -/
theorem covered_span_iff {may : α → Prop} {intervals : List α} {selected : α → Bool} {first : α}
    {rest : List α} (ascending : Ascending start stop intervals)
    (isSpan : span selected intervals = first :: rest) :
    Covered start stop may intervals (start first)
        (stop ((first :: rest).getLast (List.cons_ne_nil first rest))) ↔
      (∀ interval ∈ first :: rest, may interval) ∧ Adjoining start stop (first :: rest) := by
  obtain ⟨before, after, split, -, -⟩ := span_split selected intervals
  rw [isSpan] at split
  subst split
  constructor
  · exact adjoining_of_covered ascending
  · rintro ⟨mayAll, adjoining⟩ point above below
    obtain ⟨interval, isInterval, covers⟩ :=
      covered_of_adjoining adjoining mayAll point above below
    exact ⟨interval, List.mem_append_right before (List.mem_append_left after isInterval), covers⟩

end Hull

/-- The lengths of intervals that touch add up to the length of their hull. -/
theorem length_of_adjoining {start stop : α → Nat} {first : α} {rest : List α}
    (proper : ∀ interval ∈ first :: rest, start interval < stop interval)
    (adjoining : Adjoining start stop (first :: rest)) :
    start first + ((first :: rest).map fun interval => stop interval - start interval).sum =
      stop ((first :: rest).getLast (List.cons_ne_nil first rest)) := by
  induction rest generalizing first with
  | nil =>
      have isProper := proper first (by simp)
      simp only [List.map_cons, List.map_nil, List.sum_cons, List.sum_nil,
        List.getLast_singleton]
      omega
  | cons second rest inductionHypothesis =>
      obtain ⟨touches, adjoiningRest⟩ := List.isChain_cons_cons.mp adjoining
      have restLength := inductionHypothesis
        (fun interval isLater => proper interval (List.mem_cons_of_mem first isLater)) adjoiningRest
      have isProper := proper first (by simp)
      rw [List.getLast_cons (List.cons_ne_nil second rest), ← restLength, List.map_cons,
        List.sum_cons]
      omega

end AndroidPatch.Library.Intervals
