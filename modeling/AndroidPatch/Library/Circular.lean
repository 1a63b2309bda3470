import Mathlib.Data.Fintype.EquivFin
import Mathlib.Logic.Relation
import Mathlib.Order.WellFounded

/-!
Contract: computations that come back to where they were.

`next p q` says that the computation at `p` asks for the one at `q`. It is
circular if it gets to a point that it asks for again from there. On finitely
many points that is the only way not to end.
-/

namespace AndroidPatch.Library

open Relation

variable {P : Type}

def Circular (next : P → P → Prop) (start : P) : Prop :=
  ∃ point, ReflTransGen next start point ∧ TransGen next point point

/-- **Induction along a computation that is not circular.** -/
theorem Circular.induction_of_not [Finite P] {next : P → P → Prop} {start : P}
    (acyclic : ¬ Circular next start) {motive : P → Prop}
    (step : ∀ point, (∀ other, next point other → motive other) → motive point) :
    motive start := by
  -- Only the points that the computation gets to matter.
  let below : P → P → Prop := fun low high =>
    ReflTransGen next start high ∧ TransGen next high low
  have trans : IsTrans P below :=
    ⟨fun _ _ _ lower upper => ⟨upper.1, upper.2.trans lower.2⟩⟩
  have irrefl : Std.Irrefl below :=
    ⟨fun point again => acyclic ⟨point, again.1, again.2⟩⟩
  have wellFounded : WellFounded below := Finite.wellFounded_of_trans_of_irrefl below
  have along : ∀ point, ReflTransGen next start point → motive point := by
    intro point
    induction point using wellFounded.induction with
    | _ point inductionHypothesis =>
        intro reached
        apply step point
        intro other isNext
        exact inductionHypothesis other ⟨reached, .single isNext⟩ (reached.tail isNext)
  exact along start .refl

/-- Where every request takes less depth than the computation that makes it,
nothing is circular. -/
theorem Circular.not_of_depth {next : P → P → Prop} {Ends : Nat → P → Prop}
    (zero : ∀ point, ¬ Ends 0 point)
    (succ : ∀ depth point other, Ends (depth + 1) point → next point other → Ends depth other)
    {depth : Nat} {start : P} (ends : Ends depth start) : ¬ Circular next start := by
  have descends : ∀ {depth point other}, Ends depth point → next point other →
      ∃ less < depth, Ends less other := by
    intro depth point other endsPoint isNext
    cases depth with
    | zero => exact absurd endsPoint (zero point)
    | succ depth => exact ⟨depth, Nat.lt_succ_self depth, succ depth point other endsPoint isNext⟩
  have along : ∀ {depth point other}, Ends depth point → TransGen next point other →
      ∃ less < depth, Ends less other := by
    intro depth point other endsPoint chain
    induction chain with
    | single isNext => exact descends endsPoint isNext
    | tail _ isNext inductionHypothesis =>
        obtain ⟨less, lower, endsMiddle⟩ := inductionHypothesis
        obtain ⟨least, lowest, endsOther⟩ := descends endsMiddle isNext
        exact ⟨least, lowest.trans lower, endsOther⟩
  have never : ∀ depth point, Ends depth point → ¬ TransGen next point point := by
    intro depth
    induction depth using Nat.strong_induction_on with
    | _ depth inductionHypothesis =>
        intro point endsPoint cycle
        obtain ⟨less, lower, again⟩ := along endsPoint cycle
        exact inductionHypothesis less lower point again cycle
  rintro ⟨point, reached, cycle⟩
  rcases reflTransGen_iff_eq_or_transGen.mp reached with same | chain
  · subst same
    exact never depth point ends cycle
  · obtain ⟨less, -, endsPoint⟩ := along ends chain
    exact never less point endsPoint cycle

end AndroidPatch.Library
