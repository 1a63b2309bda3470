import Mathlib.Data.Set.Image
import Mathlib.Order.Bounds.Basic
import AndroidPatch.Library.Stdio

/-!
Contract: `get_shared_object_maps`, the loop over `/proc/self/maps`.

Owns:
- the locals that live across the iterations, and one iteration;
- what a hit is, in terms of the piece alone;
- the invariant of the loop: the range so far is the hull of the hits so far.
-/

namespace AndroidPatch.Killer

open Library.Stdio

/-- `"%x-%x %*s %*x %*x:%*x %*u %s\n"` -/
def mapsPattern : List Directive :=
  [.number 16 true, .literal '-', .number 16 true, .space, .word false, .space,
    .number 16 false, .space, .number 16 false, .literal ':', .number 16 false, .space,
    .number 10 false, .space, .word true, .space]

/-- The locals of `get_shared_object_maps`, and the two words that it writes
through `start` and `end`. -/
structure MapsState where
  got : Bool
  left : Nat
  right : Nat
  path : List Char
  startOut : Nat
  endOut : Nat
deriving DecidableEq, Repr

namespace MapsState

/-- The stores of `sscanf`. -/
def store (state : MapsState) : List Value → MapsState
  | [.number left] => { state with left := left }
  | [.number left, .number right] => { state with left := left, right := right }
  | [.number left, .number right, .text path] =>
      { state with left := left, right := right, path := path }
  | _ => state

/-- One iteration of the loop. -/
def iterate (needle : List Char) (state : MapsState) (line : List Char) : MapsState :=
  let state := { state with path := [] }
  let state := state.store (sscanf mapsPattern (cString line))
  if state.left > state.right then state
  else if (strstr state.path needle).isSome then
    if state.got = false then
      { state with got := true, startOut := state.left, endOut := state.right }
    else
      let state := if state.startOut > state.left then
        { state with startOut := state.left } else state
      if state.endOut < state.right then { state with endOut := state.right } else state
  else state

end MapsState

/-- `sizeof(line) - 1`. -/
def lineRoom : Nat := 1023

/-- `get_shared_object_maps`, on what `/proc/self/maps` holds, if it can be opened.
The state gives the values that the locals and the two words happen to have. -/
def getSharedObjectMaps (needle : List Char) (maps : Option (List Char)) (state : MapsState) :
    MapsState :=
  let state := { state with got := false }
  match maps with
  | none => state
  | some content => (fgetsAll lineRoom [] content).foldl (MapsState.iterate needle) state

/-! ## Hits -/

/-- The pattern converts the piece up to and including the path, the addresses are in
order, and the path contains the needle. -/
def IsHit (needle piece : List Char) (left right : Nat) : Prop :=
  ∃ path, sscanf mapsPattern (cString piece) = [.number left, .number right, .text path] ∧
    left ≤ right ∧ needle <:+: path

/-- The left addresses of the hits. -/
def leftsOf (needle : List Char) (pieces : List (List Char)) : Set Nat :=
  {left | ∃ piece ∈ pieces, ∃ right, IsHit needle piece left right}

/-- The right addresses of the hits. -/
def rightsOf (needle : List Char) (pieces : List (List Char)) : Set Nat :=
  {right | ∃ piece ∈ pieces, ∃ left, IsHit needle piece left right}

/-- The addresses of the hits, in pairs. -/
def hitsOf (needle : List Char) (pieces : List (List Char)) : Set (Nat × Nat) :=
  {hit | ∃ piece ∈ pieces, IsHit needle piece hit.1 hit.2}

theorem leftsOf_eq_image (needle : List Char) (pieces : List (List Char)) :
    leftsOf needle pieces = Prod.fst '' hitsOf needle pieces := by
  ext left
  constructor
  · rintro ⟨piece, isPiece, right, isHit⟩
    exact ⟨(left, right), ⟨piece, isPiece, isHit⟩, rfl⟩
  · rintro ⟨⟨_, right⟩, ⟨piece, isPiece, isHit⟩, rfl⟩
    exact ⟨piece, isPiece, right, isHit⟩

theorem rightsOf_eq_image (needle : List Char) (pieces : List (List Char)) :
    rightsOf needle pieces = Prod.snd '' hitsOf needle pieces := by
  ext right
  constructor
  · rintro ⟨piece, isPiece, left, isHit⟩
    exact ⟨(left, right), ⟨piece, isPiece, isHit⟩, rfl⟩
  · rintro ⟨⟨left, _⟩, ⟨piece, isPiece, isHit⟩, rfl⟩
    exact ⟨piece, isPiece, left, isHit⟩

/-- A piece fixes its two addresses. -/
theorem IsHit.unique {needle piece : List Char} {left right left' right' : Nat}
    (isHit : IsHit needle piece left right) (isHit' : IsHit needle piece left' right') :
    left' = left ∧ right' = right := by
  obtain ⟨path, converted, -⟩ := isHit
  obtain ⟨path', converted', -⟩ := isHit'
  rw [converted] at converted'
  simp only [List.cons.injEq, Value.number.injEq] at converted'
  exact ⟨converted'.1.symm, converted'.2.1.symm⟩

theorem hitsOf_append_hit {needle piece : List Char} {left right : Nat}
    (pieces : List (List Char)) (isHit : IsHit needle piece left right) :
    hitsOf needle (pieces ++ [piece]) = insert (left, right) (hitsOf needle pieces) := by
  ext ⟨otherLeft, otherRight⟩
  constructor
  · rintro ⟨hitPiece, isPiece, otherHit⟩
    rcases List.mem_append.mp isPiece with isEarlier | isLast
    · exact Or.inr ⟨hitPiece, isEarlier, otherHit⟩
    · rw [List.mem_singleton.mp isLast] at otherHit
      obtain ⟨isLeft, isRight⟩ := isHit.unique otherHit
      exact Or.inl (Prod.ext isLeft isRight)
  · rintro (same | ⟨hitPiece, isEarlier, otherHit⟩)
    · exact ⟨piece, by simp, same ▸ isHit⟩
    · exact ⟨hitPiece, by simp [isEarlier], otherHit⟩

theorem hitsOf_append_miss {needle piece : List Char} (pieces : List (List Char))
    (isMiss : ∀ left right, ¬ IsHit needle piece left right) :
    hitsOf needle (pieces ++ [piece]) = hitsOf needle pieces := by
  unfold hitsOf
  simp [isMiss, or_and_right, exists_or]

/-- The values that the pattern stores, by how far it converts. -/
theorem sscanf_maps (input : List Char) :
    sscanf mapsPattern input = [] ∨
      (∃ left, sscanf mapsPattern input = [.number left]) ∨
      (∃ left right, sscanf mapsPattern input = [.number left, .number right]) ∨
      ∃ left right path, sscanf mapsPattern input = [.number left, .number right, .text path] := by
  have kinds : (sscanf mapsPattern input).map Value.kind <+: [.number, .number, .text] :=
    sscanf_kinds mapsPattern input
  generalize sscanf mapsPattern input = values at kinds
  rcases values with _ | ⟨_ | _, _ | ⟨_ | _, _ | ⟨_ | _, _ | ⟨_, _⟩⟩⟩⟩
  all_goals simp_all [Value.kind, List.prefix_cons_iff]

namespace MapsState

theorem iterate_of_hit {needle piece : List Char} {left right : Nat}
    (isHit : IsHit needle piece left right) (state : MapsState) :
    (state.iterate needle piece).got = true ∧
      (state.iterate needle piece).startOut =
        (if state.got then min state.startOut left else left) ∧
      (state.iterate needle piece).endOut =
        (if state.got then max state.endOut right else right) := by
  obtain ⟨path, converted, inOrder, contains⟩ := isHit
  have found : (strstr path needle).isSome := (strstr_isSome_iff path needle).mpr contains
  unfold iterate
  simp only [converted, store, if_neg (Nat.not_lt.mpr inOrder), found, if_true]
  cases isGot : state.got with
  | false => exact ⟨rfl, rfl, rfl⟩
  | true =>
      simp only [Bool.true_eq_false, if_false]
      split_ifs <;> simp_all <;> omega

/-- A piece that is no hit changes none of what the function returns, whatever it
leaves in the other locals. -/
theorem iterate_of_miss {needle piece : List Char} (nonempty : needle ≠ [])
    (isMiss : ∀ left right, ¬ IsHit needle piece left right) (state : MapsState) :
    (state.iterate needle piece).got = state.got ∧
      (state.iterate needle piece).startOut = state.startOut ∧
      (state.iterate needle piece).endOut = state.endOut := by
  have notInEmpty : (strstr [] needle).isSome = false := by
    rw [← Bool.not_eq_true, strstr_isSome_iff, List.infix_nil]
    exact nonempty
  unfold iterate
  rcases sscanf_maps (cString piece) with
    converted | ⟨left, converted⟩ | ⟨left, right, converted⟩ | ⟨left, right, path, converted⟩
  -- Unless the path is converted it is the empty one of this iteration.
  · simp [converted, store, notInEmpty]
  · simp [converted, store, notInEmpty]
  · simp [converted, store, notInEmpty]
  · simp only [converted, store]
    split_ifs with disordered found
    · exact ⟨rfl, rfl, rfl⟩
    all_goals first
      | exact ⟨rfl, rfl, rfl⟩
      | exact absurd ⟨path, converted, Nat.not_lt.mp disordered,
          (strstr_isSome_iff path needle).mp found⟩ (isMiss left right)

/-- The range so far is the hull of the hits among the pieces read. -/
structure Hull (needle : List Char) (pieces : List (List Char)) (state : MapsState) : Prop where
  got_iff : state.got = true ↔ (hitsOf needle pieces).Nonempty
  least : state.got = true → IsLeast (leftsOf needle pieces) state.startOut
  greatest : state.got = true → IsGreatest (rightsOf needle pieces) state.endOut

theorem hull_nil (needle : List Char) {state : MapsState} (notGot : state.got = false) :
    state.Hull needle [] := by
  refine ⟨?_, ?_, ?_⟩
  · simp [notGot, hitsOf]
  · simp [notGot]
  · simp [notGot]

/-- **One iteration keeps the invariant.** -/
theorem Hull.step {needle : List Char} {pieces : List (List Char)} {state : MapsState}
    (nonempty : needle ≠ []) (hull : state.Hull needle pieces) (piece : List Char) :
    (state.iterate needle piece).Hull needle (pieces ++ [piece]) := by
  by_cases hits : ∃ left right, IsHit needle piece left right
  · obtain ⟨left, right, isHit⟩ := hits
    obtain ⟨isGot, isStart, isEnd⟩ := iterate_of_hit isHit state
    have hitsAre := hitsOf_append_hit pieces isHit
    have noneYet : state.got = false → hitsOf needle pieces = ∅ := fun notGot =>
      Set.not_nonempty_iff_eq_empty.mp (mt hull.got_iff.mpr (by simp [notGot]))
    refine ⟨?_, fun _ => ?_, fun _ => ?_⟩
    · exact ⟨fun _ => hitsAre ▸ Set.insert_nonempty _ _, fun _ => isGot⟩
    · rw [isStart, leftsOf_eq_image, hitsAre, Set.image_insert_eq, ← leftsOf_eq_image]
      cases wasGot : state.got with
      | true =>
          rw [if_pos rfl, min_comm]
          exact (hull.least wasGot).insert left
      | false =>
          rw [leftsOf_eq_image, noneYet wasGot, Set.image_empty, insert_empty_eq]
          exact isLeast_singleton
    · rw [isEnd, rightsOf_eq_image, hitsAre, Set.image_insert_eq, ← rightsOf_eq_image]
      cases wasGot : state.got with
      | true =>
          rw [if_pos rfl, max_comm]
          exact (hull.greatest wasGot).insert right
      | false =>
          rw [rightsOf_eq_image, noneYet wasGot, Set.image_empty, insert_empty_eq]
          exact isGreatest_singleton
  · have isMiss : ∀ left right, ¬ IsHit needle piece left right :=
      fun left right isHit => hits ⟨left, right, isHit⟩
    obtain ⟨isGot, isStart, isEnd⟩ := iterate_of_miss nonempty isMiss state
    have hitsAre := hitsOf_append_miss pieces isMiss
    refine ⟨?_, ?_, ?_⟩
    · rw [isGot, hitsAre]
      exact hull.got_iff
    · rw [isGot, isStart, leftsOf_eq_image, hitsAre, ← leftsOf_eq_image]
      exact hull.least
    · rw [isGot, isEnd, rightsOf_eq_image, hitsAre, ← rightsOf_eq_image]
      exact hull.greatest

theorem Hull.run {needle : List Char} (nonempty : needle ≠ []) (pieces : List (List Char))
    {read : List (List Char)} {state : MapsState} (hull : state.Hull needle read) :
    (pieces.foldl (MapsState.iterate needle) state).Hull needle (read ++ pieces) := by
  induction pieces generalizing read state with
  | nil => simpa using hull
  | cons piece rest inductionHypothesis =>
      have stepped := inductionHypothesis (hull.step nonempty piece)
      simpa using stepped

end MapsState

/-- The pieces that the loop sees. -/
def mapsPieces (maps : Option (List Char)) : List (List Char) :=
  (maps.map (fgetsAll lineRoom [])).getD []

theorem getSharedObjectMaps_hull {needle : List Char} (nonempty : needle ≠ [])
    (maps : Option (List Char)) (state : MapsState) :
    (getSharedObjectMaps needle maps state).Hull needle (mapsPieces maps) := by
  unfold getSharedObjectMaps mapsPieces
  cases maps with
  | none => exact MapsState.hull_nil needle rfl
  | some content =>
      have notGot : ({ state with got := false } : MapsState).Hull needle [] :=
        MapsState.hull_nil needle rfl
      exact notGot.run nonempty (fgetsAll lineRoom [] content)

/-- **`get_shared_object_maps` returns the hull of the hits.** It succeeds if and only
if there is a hit; the range then runs from the least left to the greatest right
address of the hits. The values that the locals happen to have do not matter. -/
theorem getSharedObjectMaps_hits {needle : List Char} (nonempty : needle ≠ [])
    (maps : Option (List Char)) (state : MapsState) :
    let result := getSharedObjectMaps needle maps state
    (result.got = true ↔
        ∃ piece ∈ mapsPieces maps, ∃ left right, IsHit needle piece left right) ∧
      (result.got = true →
        IsLeast (leftsOf needle (mapsPieces maps)) result.startOut ∧
        IsGreatest (rightsOf needle (mapsPieces maps)) result.endOut) ∧
      ∀ other : MapsState,
        (getSharedObjectMaps needle maps other).got = result.got ∧
        (result.got = true →
          (getSharedObjectMaps needle maps other).startOut = result.startOut ∧
          (getSharedObjectMaps needle maps other).endOut = result.endOut) := by
  intro result
  have hull : result.Hull needle (mapsPieces maps) :=
    getSharedObjectMaps_hull nonempty maps state
  refine ⟨?_, fun isGot => ⟨hull.least isGot, hull.greatest isGot⟩, ?_⟩
  · rw [hull.got_iff]
    constructor
    · rintro ⟨⟨left, right⟩, piece, isPiece, isHit⟩
      exact ⟨piece, isPiece, left, right, isHit⟩
    · rintro ⟨piece, isPiece, left, right, isHit⟩
      exact ⟨(left, right), piece, isPiece, isHit⟩
  · intro other
    have otherHull := getSharedObjectMaps_hull nonempty maps other
    have sameGot : (getSharedObjectMaps needle maps other).got = result.got := by
      rw [Bool.eq_iff_iff, otherHull.got_iff, hull.got_iff]
    refine ⟨sameGot, fun isGot => ?_⟩
    have otherGot := sameGot.trans isGot
    exact ⟨(otherHull.least otherGot).unique (hull.least isGot),
      (otherHull.greatest otherGot).unique (hull.greatest isGot)⟩

/-- A line of the object, a line that is cut off after its two addresses, and one that
does not convert at all: only the first one counts. -/
theorem getSharedObjectMaps_of_sample :
    let content := "10-20 r-xp 0 0:0 7 /lib/a.so\n05-90 r\nzz\n".toList
    let result := getSharedObjectMaps ['a', '.'] (some content) ⟨false, 9, 3, [], 0, 0⟩
    result.got = true ∧ result.startOut = 0x10 ∧ result.endOut = 0x20 ∧
      IsLeast (leftsOf ['a', '.'] (mapsPieces (some content))) result.startOut := by
  intro content result
  have computed : result = ⟨true, 5, 0x90, [], 0x10, 0x20⟩ := by decide
  have isGot : result.got = true := by rw [computed]
  refine ⟨isGot, by rw [computed], by rw [computed], ?_⟩
  exact ((getSharedObjectMaps_hits (by simp) (some content) ⟨false, 9, 3, [], 0, 0⟩).2.1 isGot).1

end AndroidPatch.Killer
