import AndroidPatch.Library.Walk
import AndroidPatch.Formats.Termination

/-!
Contract: the markers `SimpleName.this`, and which objects they stand for.

Owns:
- `plain`, the rendering without the search on the stack;
- `Unmistakable`: on every way down from the rendered object that visits no
  object twice, no object equals one above it;
- markers are sound exactly on unmistakable graphs, and there a rendering
  without identity cycles is the plain one.
-/

namespace AndroidPatch.Formats

open AndroidPatch.Lang
open AndroidPatch.Library

variable {N : Type}

/-! ## The plain rendering -/

def plainAll (render : N → Option (Except Throwable (Option String))) :
    List N → Option (Except Throwable (List (Option String)))
  | [] => some (.ok [])
  | child :: rest =>
      match render child with
      | none => none
      | some (.error throwable) => some (.error throwable)
      | some (.ok text) =>
          match plainAll render rest with
          | none => none
          | some (.error throwable) => some (.error throwable)
          | some (.ok texts) => some (.ok (text :: texts))

/-- `toString` with the search on the stack taken out. -/
def FormatEntry.plain (entry : FormatEntry N) : Nat → N → Option (Except Throwable (Option String))
  | 0, _ => none
  | fuel + 1, object =>
      match entry.answer object with
      | .direct result => some result
      | .template first child children =>
          match plainAll (entry.plain fuel) (child :: children) with
          | none => none
          | some arguments => some (entry.complete first arguments)

theorem renderAll_eq_plainAll {render : N → ThreadState N → Rendered N (Option String)}
    {plain : N → Option (Except Throwable (Option String))} {stack children : List N}
    (same : ∀ child ∈ children, ∀ thread : ThreadState N, thread.ignore = stack →
      (render child thread).map Prod.fst = plain child)
    (restores : ∀ child ∈ children, ∀ (thread : ThreadState N) result final,
      render child thread = some (result, final) → final.ignore = thread.ignore)
    {thread : ThreadState N} (isStack : thread.ignore = stack) :
    (renderAll render children thread).map Prod.fst = plainAll plain children := by
  induction children generalizing thread with
  | nil => rfl
  | cons child rest inductionHypothesis =>
      have first := same child List.mem_cons_self thread isStack
      unfold renderAll plainAll
      rw [← first]
      cases rendered : render child thread with
      | none => rfl
      | some made =>
          obtain ⟨ended, later⟩ := made
          have isLater : later.ignore = stack :=
            (restores child List.mem_cons_self thread ended later rendered).trans isStack
          cases ended with
          | error throwable => rfl
          | ok text =>
              have others := inductionHypothesis
                (fun other member => same other (List.mem_cons_of_mem _ member))
                (fun other member => restores other (List.mem_cons_of_mem _ member)) isLater
              dsimp only [Option.map]
              rw [← others]
              rcases renderAll render rest later with _ | ⟨_ | _, _⟩
              · rfl
              · rfl
              · rfl

/-- As long as the search on the stack finds nothing, it makes no difference. -/
theorem FormatEntry.toString_eq_plain {entry : FormatEntry N} {root : N}
    (missing : ∀ stack object, Walk entry.childrenOf root stack object → ∀ fuel,
      lastIndexOf (entry.equals fuel) object stack = some (-1))
    {fuel : Nat} {object : N} {thread : ThreadState N}
    (walk : Walk entry.childrenOf root thread.ignore object) :
    (entry.toString fuel object thread).map Prod.fst = entry.plain fuel object := by
  induction fuel generalizing object thread with
  | zero => rfl
  | succ fuel inductionHypothesis =>
      have search := missing thread.ignore object walk fuel
      rw [entry.toString_answer search (by omega)]
      unfold plain
      cases answered : entry.answer object with
      | direct result => rfl
      | template first child children =>
          have onward : ∀ other ∈ child :: children, ∀ inner : ThreadState N,
              inner.ignore = object :: thread.ignore →
                (entry.toString fuel other inner).map Prod.fst = entry.plain fuel other := by
            intro other member inner isInner
            apply inductionHypothesis
            rw [isInner]
            apply Walk.step walk
            unfold childrenOf
            rw [answered]
            exact member
          have same := renderAll_eq_plainAll onward (fun _ _ _ _ _ => toString_ignore)
            (thread.ignore_withIgnore (object :: thread.ignore))
          dsimp only
          rw [← same]
          cases renderAll (entry.toString fuel) (child :: children)
            (thread.withIgnore (object :: thread.ignore)) with
          | none => rfl
          | some made => rfl

/-! ## Sound markers -/

/-- Every marker stands for an object that was on the stack itself. -/
def Sound (markers : List (List N × N)) : Prop :=
  ∀ marker ∈ markers, marker.2 ∈ marker.1

/-- On every way down from `root` that visits no object twice, no object equals
one above it. -/
def Unmistakable (children : N → List N) (equality : Setoid N) (root : N) : Prop :=
  ∀ stack object, Walk children root stack object → (object :: stack).Nodup →
    ∀ ancestor ∈ stack, ¬ equality.r object ancestor

namespace FormatEntry

variable {entry : FormatEntry N}

/-- One call prints sound markers only, when on the ways down from `root` an
object that is found on the stack by `equals` is there itself. -/
theorem toString_sound {root : N}
    (isThere : ∀ stack object, Walk entry.childrenOf root stack object → stack.Nodup →
      ∀ fuel ancestor, ancestor ∈ stack → entry.equals fuel object ancestor = some true →
        object ∈ stack)
    (reflexive : ∀ fuel object, entry.equals fuel object object ≠ some false)
    {fuel : Nat} {object : N} {thread final : ThreadState N}
    {result : Except Throwable (Option String)}
    (walk : Walk entry.childrenOf root thread.ignore object) (nodup : thread.ignore.Nodup)
    (sound : Sound thread.markers)
    (rendered : entry.toString fuel object thread = some (result, final)) :
    Sound final.markers := by
  induction fuel generalizing object thread result final with
  | zero => cases rendered
  | succ fuel inductionHypothesis =>
      cases toString_cases rendered with
      | marker index found nonnegative =>
          obtain ⟨ancestor, isAncestor, equal⟩ := lastIndexOf_nonneg found nonnegative
          intro marker member
          rcases List.mem_append.mp member with early | new
          · exact sound marker early
          · rw [List.mem_singleton.mp new]
            exact isThere thread.ignore object walk nodup fuel ancestor isAncestor equal
      | direct => exact sound
      | template index first child children arguments inner missing negative answered
          renderedAll =>
          have fresh : object ∉ thread.ignore := fun member =>
            reflexive fuel object (lastIndexOf_neg missing negative object member)
          have each : ∀ other ∈ child :: children, ∀ before ended after,
              entry.toString fuel other before = some (ended, after) →
                before.ignore = object :: thread.ignore →
                  after.ignore = object :: thread.ignore ∧
                    (Sound before.markers → Sound after.markers) := by
            intro other member before ended after renderedOther isBefore
            refine ⟨?_, fun soundBefore => ?_⟩
            · rw [← isBefore, toString_ignore renderedOther]
            · refine inductionHypothesis ?_ ?_ soundBefore renderedOther
              · rw [isBefore]
                apply Walk.step walk
                unfold childrenOf
                rw [answered]
                exact member
              · rw [isBefore]
                exact List.nodup_cons.mpr ⟨fresh, nodup⟩
          have kept := (renderAll_cases renderedAll).keeps
            (fun before after => before.ignore = object :: thread.ignore →
              after.ignore = object :: thread.ignore ∧
                (Sound before.markers → Sound after.markers))
            (fun _ isStack => ⟨isStack, id⟩)
            (fun _ _ _ early late isStack =>
              ⟨(late (early isStack).1).1,
                fun soundFirst => (late (early isStack).1).2 ((early isStack).2 soundFirst)⟩)
            each
          exact (kept rfl).2 sound

/-- Markers are only ever added. -/
theorem markers_prefix {fuel : Nat} {object : N} {thread final : ThreadState N}
    {result : Except Throwable (Option String)}
    (rendered : entry.toString fuel object thread = some (result, final)) :
    thread.markers <+: final.markers := by
  induction fuel generalizing object thread result final with
  | zero => cases rendered
  | succ fuel inductionHypothesis =>
      cases toString_cases rendered with
      | marker => exact List.prefix_append _ _
      | direct => exact List.prefix_refl _
      | template index first child children arguments inner _ _ _ renderedAll =>
          have grown : (thread.withIgnore (object :: thread.ignore)).markers <+: inner.markers :=
            (renderAll_cases renderedAll).keeps
              (fun before after => before.markers <+: after.markers)
              (fun _ => List.prefix_refl _) (fun _ _ _ => List.IsPrefix.trans)
              (fun _ _ _ _ _ => inductionHypothesis)
          exact grown

end FormatEntry

/-! ## Renderings that visit every way down -/

namespace AllRendered

variable {render : N → ThreadState N → Rendered N (Option String)} {children : List N}
  {thread final : ThreadState N} {result : Except Throwable (List (Option String))}

theorem quiet (rendered : AllRendered render children thread result final)
    (each : ∀ child ∈ children, ∀ thread result final,
      render child thread = some (result, final) → ∃ text, result = .ok text) :
    ∃ texts, result = .ok texts := by
  induction rendered with
  | nil thread => exact ⟨[], rfl⟩
  | throws first =>
      obtain ⟨text, isText⟩ := each _ List.mem_cons_self _ _ _ first
      cases isText
  | @goesOn _ _ _ _ _ text _ first _ inductionHypothesis =>
      obtain ⟨texts, rfl⟩ := inductionHypothesis fun other member =>
        each other (List.mem_cons_of_mem _ member)
      exact ⟨text :: texts, rfl⟩

/-- When nothing throws, the rendering of a template contains the rendering of
each of its arguments. -/
theorem call (rendered : AllRendered render children thread result final)
    (quiet : ∀ object thread result final, render object thread = some (result, final) →
      ∃ text, result = .ok text)
    (restores : ∀ object thread result final, render object thread = some (result, final) →
      final.ignore = thread.ignore)
    (grows : ∀ object thread result final, render object thread = some (result, final) →
      thread.markers <+: final.markers)
    {child : N} (isChild : child ∈ children) :
    ∃ before ended after, before.ignore = thread.ignore ∧
      render child before = some (ended, after) ∧ after.markers <+: final.markers := by
  induction rendered with
  | nil thread => cases isChild
  | throws first =>
      obtain ⟨text, isText⟩ := quiet _ _ _ _ first
      cases isText
  | @goesOn head rest thread later final text result first others inductionHypothesis =>
      rcases List.mem_cons.mp isChild with same | inRest
      · have grown : later.markers <+: final.markers :=
          others.keeps (fun before after => before.markers <+: after.markers)
            (fun _ => List.prefix_refl _) (fun _ _ _ => List.IsPrefix.trans)
            (fun other _ => grows other)
        subst same
        exact ⟨thread, _, later, rfl, first, grown⟩
      · obtain ⟨before, ended, after, isBefore, renderedChild, within⟩ :=
          inductionHypothesis inRest
        refine ⟨before, ended, after, ?_, renderedChild, within⟩
        rw [isBefore, restores head thread _ later first]

end AllRendered

/-- The format that shows nothing but the children of an object. -/
def skeleton (children : N → List N) : Format N := fun object =>
  .ok (some ⟨some "", some (children object)⟩)

namespace FormatEntry

/-- An entry on that format alone. -/
def bare (children : N → List N) (equals : N → N → Bool) : FormatEntry N :=
  ofEquals [skeleton children] (fun _ => some "") equals id

section Bare

variable {children : N → List N} {equals : N → N → Bool}

theorem childrenOf_bare (children : N → List N) (equals : N → N → Bool) (object : N) :
    (bare children equals).childrenOf object = children object := by
  show (answerOf object [skeleton children]).arguments = children object
  unfold answerOf skeleton
  cases isChildren : children object with
  | nil => rfl
  | cons child rest => rfl

/-- Nothing throws: the empty template prints nothing. -/
theorem bare_quiet {fuel : Nat} {object : N} {thread final : ThreadState N}
    {result : Except Throwable (Option String)}
    (rendered : (bare children equals).toString fuel object thread = some (result, final)) :
    ∃ text, result = .ok text := by
  induction fuel generalizing object thread result final with
  | zero => cases rendered
  | succ fuel inductionHypothesis =>
      have isAnswer : (bare children equals).answer object =
          match children object with
          | [] => .direct (.ok (some ""))
          | child :: rest => .template (some "") child rest := by
        show answerOf object [skeleton children] = _
        unfold answerOf skeleton
        cases children object with
        | nil => rfl
        | cons child rest => rfl
      cases toString_cases rendered with
      | marker => exact ⟨_, rfl⟩
      | direct index _ _ _ answered =>
          rw [isAnswer] at answered
          cases isChildren : children object with
          | nil =>
              rw [isChildren] at answered
              cases answered
              exact ⟨_, rfl⟩
          | cons child rest =>
              rw [isChildren] at answered
              cases answered
      | template index first child rest arguments inner _ _ answered renderedAll =>
          obtain ⟨texts, rfl⟩ := (renderAll_cases renderedAll).quiet
            fun _ _ _ _ _ => inductionHypothesis
          have isFirst : first = some "" := by
            rw [isAnswer] at answered
            cases isChildren : children object with
            | nil =>
                rw [isChildren] at answered
                cases answered
            | cons head others =>
                rw [isChildren] at answered
                cases answered
                rfl
          refine ⟨some "", ?_⟩
          rw [isFirst]
          simp [complete, stringFormat, formatFrom_nil, Except.map]

/-- **A bare rendering visits every way down** that visits no object twice, or
else prints a marker for an object that was not on the stack. -/
theorem bare_visits {root : N} {fuel : Nat} {thread final : ThreadState N}
    {result : Except Throwable (Option String)}
    (isEmpty : thread.ignore = [])
    (rendered : (bare children equals).toString fuel root thread = some (result, final))
    (sound : Sound final.markers) {stack : List N} {object : N}
    (walk : Walk children root stack object) (nodup : (object :: stack).Nodup) :
    ∃ fuel before ended after, before.ignore = stack ∧
      (bare children equals).toString fuel object before = some (ended, after) ∧
        after.markers <+: final.markers := by
  induction walk with
  | start => exact ⟨fuel, thread, result, final, isEmpty, rendered, List.prefix_refl _⟩
  | step walk isChild inductionHypothesis =>
      rename_i stack object child
      have inner : (object :: stack).Nodup := (List.nodup_cons.mp nodup).2
      obtain ⟨depth, before, ended, after, isBefore, renderedObject, within⟩ :=
        inductionHypothesis inner
      cases depth with
      | zero => cases renderedObject
      | succ depth =>
          rw [← childrenOf_bare children equals object] at isChild
          unfold childrenOf at isChild
          cases toString_cases renderedObject with
          | marker index found nonnegative =>
              have member : (before.ignore, object) ∈ final.markers :=
                within.subset (List.mem_append_right _ (List.mem_singleton.mpr rfl))
              have onStack : object ∈ before.ignore := sound _ member
              rw [isBefore] at onStack
              exact absurd onStack (List.nodup_cons.mp inner).1
          | direct index _ _ _ answered =>
              rw [answered] at isChild
              cases isChild
          | template index first head rest arguments last _ _ answered renderedAll =>
              rw [answered] at isChild
              obtain ⟨earlier, endedChild, later, isEarlier, renderedChild, withinChild⟩ :=
                (renderAll_cases renderedAll).call (fun _ _ _ _ => bare_quiet)
                  (fun _ _ _ _ => toString_ignore) (fun _ _ _ _ => markers_prefix) isChild
              refine ⟨depth, earlier, endedChild, later, ?_, renderedChild,
                withinChild.trans within⟩
              rw [isEarlier, ← isBefore]
              rfl

end Bare

end FormatEntry

/-! ## Exactly the unmistakable graphs -/

/-- **Cycle markers are sound** on a graph: whatever formats show its objects, a
marker is printed only for an object that is being rendered itself; and a
rendering that meets no object inside itself is the plain one. -/
structure MarkersSound (children : N → List N) (equality : Setoid N)
    [DecidableRel equality.r] (root : N) : Prop where
  sound : ∀ mFormatArray getSimpleName toUpperCase,
    let entry := FormatEntry.ofEquals mFormatArray getSimpleName
      (fun left right => decide (equality.r left right)) toUpperCase
    (∀ object, entry.childrenOf object ⊆ children object) →
    ∀ fuel (thread : ThreadState N) result final, thread.ignore = [] → thread.markers = [] →
      entry.toString fuel root thread = some (result, final) → Sound final.markers
  plain : ∀ mFormatArray getSimpleName toUpperCase,
    let entry := FormatEntry.ofEquals mFormatArray getSimpleName
      (fun left right => decide (equality.r left right)) toUpperCase
    (∀ object, entry.childrenOf object ⊆ children object) →
    (∀ stack object, Walk entry.childrenOf root stack object → object ∉ stack) →
    ∀ fuel (thread : ThreadState N), thread.ignore = [] →
      (entry.toString fuel root thread).map Prod.fst = entry.plain fuel root

theorem Walk.nodup_of_acyclic {children : N → List N} {root : N}
    (acyclic : ∀ stack object, Walk children root stack object → object ∉ stack)
    {stack : List N} {object : N} (walk : Walk children root stack object) :
    (object :: stack).Nodup := by
  induction walk with
  | start => exact List.nodup_singleton root
  | step walk isChild inductionHypothesis =>
      exact List.nodup_cons.mpr ⟨acyclic _ _ (walk.step isChild), inductionHypothesis⟩

section Unmistakable

variable {children : N → List N} {equality : Setoid N} [DecidableRel equality.r] {root : N}

theorem Unmistakable.markersSound (unmistakable : Unmistakable children equality root) :
    MarkersSound children equality root where
  sound := by
    intro mFormatArray getSimpleName toUpperCase entry subset fuel thread result final isEmpty
      unmarked rendered
    have atRoot : Walk entry.childrenOf root thread.ignore root := by
      rw [isEmpty]
      exact .start
    have nodup : thread.ignore.Nodup := by
      rw [isEmpty]
      exact List.nodup_nil
    have noMarkers : Sound thread.markers := by
      rw [unmarked]
      exact fun _ member => absurd member List.not_mem_nil
    refine FormatEntry.toString_sound ?_ ?_ atRoot nodup noMarkers rendered
    · intro stack object walk nodup fuel ancestor isAncestor equal
      by_contra fresh
      have related : equality.r object ancestor := by
        simpa [entry, FormatEntry.ofEquals] using equal
      exact unmistakable stack object (walk.mono subset) (List.nodup_cons.mpr ⟨fresh, nodup⟩)
        ancestor isAncestor related
    · intro fuel object different
      have unrelated : ¬ equality.r object object :=
        of_decide_eq_false (Option.some.inj different)
      exact unrelated (equality.refl object)
  plain := by
    intro mFormatArray getSimpleName toUpperCase entry subset acyclic fuel thread isEmpty
    have atRoot : Walk entry.childrenOf root thread.ignore root := by
      rw [isEmpty]
      exact .start
    apply FormatEntry.toString_eq_plain _ atRoot
    intro stack object walk fuel
    have nodup := Walk.nodup_of_acyclic acyclic walk
    have unrelated := unmistakable stack object (walk.mono subset) nodup
    have search : ∀ below : List N, (∀ ancestor ∈ below, ¬ equality.r object ancestor) →
        lastIndexOf (entry.equals fuel) object below = some (-1) := by
      intro below
      induction below with
      | nil => exact fun _ => rfl
      | cons top rest inductionHypothesis =>
          intro apart
          have different : entry.equals fuel object top = some false := by
            simpa [entry, FormatEntry.ofEquals] using apart top List.mem_cons_self
          unfold lastIndexOf
          rw [different]
          exact inductionHypothesis fun ancestor member =>
            apart ancestor (List.mem_cons_of_mem _ member)
    exact search stack unrelated

/-- **Markers are sound exactly on unmistakable graphs**, for every finite graph,
every equivalence relation as `equals` and every object to render. -/
theorem markersSound_iff_unmistakable [Fintype N] (children : N → List N)
    (equality : Setoid N) [DecidableRel equality.r] (root : N) :
    MarkersSound children equality root ↔ Unmistakable children equality root := by
  refine ⟨fun markersSound => ?_, Unmistakable.markersSound⟩
  intro stack object walk nodup ancestor isAncestor equal
  let equals : N → N → Bool := fun left right => decide (equality.r left right)
  have reflexive : ∀ object, equals object object = true :=
    fun object => decide_eq_true (equality.refl object)
  have guides : (FormatEntry.bare children equals).Guides (fun _ _ => True) 0 :=
    FormatEntry.ofEquals_guides reflexive
  have bound := free_le_card (N := N) []
  have returns : ∃ result, (FormatEntry.bare children equals).toString (Fintype.card N + 1) root
      ⟨none, []⟩ = some result :=
    guides.toString_returns trivial (by show 0 + free [] < _; omega)
  obtain ⟨⟨result, final⟩, rendered⟩ := returns
  have subset : ∀ object,
      (FormatEntry.bare children equals).childrenOf object ⊆ children object := by
    intro object
    rw [FormatEntry.childrenOf_bare]
    exact List.Subset.refl _
  have sound : Sound final.markers :=
    markersSound.sound [skeleton children] (fun _ => some "") id subset _ ⟨none, []⟩ result
      final rfl rfl rendered
  obtain ⟨fuel, before, ended, after, isBefore, renderedObject, within⟩ :=
    FormatEntry.bare_visits rfl rendered sound walk nodup
  cases fuel with
  | zero => cases renderedObject
  | succ fuel =>
      have found : ∀ index : Int, lastIndexOf ((FormatEntry.bare children equals).equals fuel)
          object before.ignore = some index → index ≥ 0 := by
        intro index search
        by_contra negative
        have onStack : ancestor ∈ before.ignore := by
          rw [isBefore]
          exact isAncestor
        have different := lastIndexOf_neg search negative ancestor onStack
        have unequal : equals object ancestor = false := Option.some.inj different
        exact absurd equal (of_decide_eq_false unequal)
      cases FormatEntry.toString_cases renderedObject with
      | marker index _ nonnegative =>
          have member : (before.ignore, object) ∈ final.markers :=
            within.subset (List.mem_append_right _ (List.mem_singleton.mpr rfl))
          have onStack : object ∈ before.ignore := sound _ member
          rw [isBefore] at onStack
          exact (List.nodup_cons.mp nodup).1 onStack
      | direct index _ missing negative => exact negative (found index missing)
      | template index _ _ _ _ _ missing negative => exact negative (found index missing)

end Unmistakable

/-- Two objects of one class, equal to each other, the first of which contains
the second. -/
def parentOfEqual : Bool → List Bool
  | true => [false]
  | false => []

/-- The second object is not rendered: the marker of its class stands in its
place, although it is not on the stack. Without the search its contents are
shown. -/
theorem parentOfEqual_markers_not_sound :
    let nodes : Format Bool := FormatIterable.format (fun _ => .ok true)
      (fun object => .ok (some (parentOfEqual object))) (fun _ => .ok (some "Node"))
    let entry := FormatEntry.ofEquals [nodes] (fun _ => some "Node") (fun _ _ => true) id
    (∃ result final, entry.toString 3 true ⟨none, []⟩ = some (result, final) ∧
      ([true], false) ∈ final.markers ∧ ¬ Sound final.markers) ∧
    (entry.toString 3 true ⟨none, []⟩).map Prod.fst = some (.ok (some "Node[Node.this]")) ∧
    entry.plain 3 true = some (.ok (some "Node[Node[]]")) := by
  intro nodes entry
  have plainName : '%' ∉ "Node".toList := by decide
  have single : ∀ text : String, entry.complete
      (some (FormatIterable.template (some "Node") (some [false]))) (.ok [some text]) =
        .ok (some ("Node" ++ "[" ++ text ++ "]")) := by
    intro text
    have size : [false].length = [some text].length := rfl
    unfold FormatEntry.complete
    dsimp only
    rw [stringFormat_iterable _ _ plainName size]
    rfl
  refine ⟨⟨_, ⟨some [], [([true], false)]⟩, rfl, List.mem_singleton.mpr rfl, ?_⟩, ?_, ?_⟩
  · intro sound
    exact absurd (sound _ (List.mem_singleton.mpr rfl)) (by decide)
  · exact congrArg some (single "Node.this")
  · exact congrArg some (single "Node[]")

end AndroidPatch.Formats
