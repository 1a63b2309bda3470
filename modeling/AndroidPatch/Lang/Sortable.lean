import AndroidPatch.Lang.Objects

/-!
Contract: `Sortable.compareTo` and the order it induces on patches.

The comparison is descending in `priority` and ascending in the two identity
hashes. `compareTo_le_trans` and `compareTo_le_total` say that it is a total
preorder, which is what `Arrays.sort` relies on. Hash collisions are allowed,
so two distinct objects can compare as equal.
-/

namespace AndroidPatch.Lang

/-- A `Sortable` object. The identity hash of its class's loader and its own
are fixed for the lifetime of the object; only comparisons read the three
numbers, so their width does not matter. -/
structure Sortable where
  reference : Nat
  priority : Int
  loaderHash : Int
  identityHash : Int
deriving DecidableEq, Repr

/-- `Sortable.compareTo`; `none` is a null argument. -/
def Sortable.compareTo (self : Sortable) : Option Sortable → Int
  | none => -1
  | some other =>
      if other = self then 0
      else if other.priority ≠ self.priority then
        if other.priority > self.priority then 1 else -1
      else if self.loaderHash ≠ other.loaderHash then
        if self.loaderHash > other.loaderHash then 1 else -1
      else if self.identityHash ≠ other.identityHash then
        if self.identityHash > other.identityHash then 1 else -1
      else 0

/-- Which class a patch object belongs to, as far as the framework's own
subclasses go. -/
inductive PatchKind where
  | plugin
  | logcat
  | lucy
deriving DecidableEq, Repr

/-- A `Patch` object. -/
structure Patch extends Sortable where
  kind : PatchKind
deriving DecidableEq, Repr

/-- A patch of a plugin with the default priority, told apart by its hash. -/
def Patch.sample (reference : Nat) : Patch := ⟨⟨reference, 0, 7, reference⟩, .plugin⟩

/-- The order `Arrays.sort` arranges patches by. -/
def Patch.Precedes (left right : Patch) : Prop :=
  left.compareTo (some right.toSortable) ≤ 0

instance : DecidableRel Patch.Precedes := fun left right =>
  inferInstanceAs (Decidable (left.compareTo (some right.toSortable) ≤ 0))

/-! ## The comparison as a lexicographic order -/

/-- `compareTo ≤ 0` spelled out. The identity shortcut needs no case of its own:
an object agrees with itself in all three numbers. -/
theorem Sortable.compareTo_le_zero_iff (self other : Sortable) :
    self.compareTo (some other) ≤ 0 ↔
      other.priority < self.priority ∨
        other.priority = self.priority ∧
          (self.loaderHash < other.loaderHash ∨
            self.loaderHash = other.loaderHash ∧
              self.identityHash ≤ other.identityHash) := by
  unfold Sortable.compareTo
  by_cases same : other = self
  · subst same
    simp
  · simp only [if_neg same]
    split_ifs <;> omega

theorem Sortable.compareTo_le_total (left right : Sortable) :
    left.compareTo (some right) ≤ 0 ∨ right.compareTo (some left) ≤ 0 := by
  rw [compareTo_le_zero_iff, compareTo_le_zero_iff]
  omega

theorem Sortable.compareTo_le_trans {first second third : Sortable}
    (early : first.compareTo (some second) ≤ 0)
    (late : second.compareTo (some third) ≤ 0) :
    first.compareTo (some third) ≤ 0 := by
  rw [compareTo_le_zero_iff] at early late ⊢
  omega

instance : Std.Total Patch.Precedes where
  total left right := Sortable.compareTo_le_total left.toSortable right.toSortable

instance : IsTrans Patch Patch.Precedes where
  trans _ _ _ early late := Sortable.compareTo_le_trans early late

end AndroidPatch.Lang
