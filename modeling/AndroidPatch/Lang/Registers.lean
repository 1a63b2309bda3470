import AndroidPatch.Lang.Sortable

/-!
Contract: `Patch.Registers`, the executing info handed to the callbacks of one
hooked call.

Owns:
- the register pair `returned` / `thrown` with its sentinel, and its accessors;
- sequences of `setReturned` and `setThrown` calls, rejected calls included;
- `outcome`, the single result the pair stands for, and how calls change it.

A callback can write the pair only through the two setters: the fields are
package-private and the sentinel is never handed out.
-/

namespace AndroidPatch.Lang

open AndroidPatch.Library

/-- Contents of the field `returned`: the sentinel `NULL`, or a value of the
application. The Java null is such a value, distinct from the sentinel. -/
inductive Slot where
  | NULL
  | value (object : Obj)
deriving DecidableEq, Repr

/-- `args` is the caller's argument array itself, shared by reference; it is
null when the caller passed null. -/
structure Registers where
  func : Member
  self : Obj
  args : Option ArrayHeap.Ref
  returned : Slot
  thrown : Option Throwable
deriving DecidableEq, Repr

namespace Registers

/-- The constructor. -/
def create (member : Member) (object : Obj) (objects : Option ArrayHeap.Ref) :
    Registers :=
  ⟨member, object, objects, .NULL, none⟩

def hasReturned (registers : Registers) : Bool :=
  registers.returned ≠ .NULL

def getReturned (registers : Registers) : Obj :=
  match registers.returned with
  | .NULL => .null
  | .value object => object

def setReturned (registers : Registers) (object : Slot) : Except Throwable Registers :=
  match object with
  | .NULL => .error (.illegalArgument "cannot set returned to null")
  | .value _ => .ok { registers with returned := object, thrown := none }

def hasThrown (registers : Registers) : Bool :=
  registers.thrown ≠ none

def getThrown (registers : Registers) : Option Throwable :=
  registers.thrown

def setThrown (registers : Registers) (throwable : Option Throwable) :
    Except Throwable Registers :=
  match throwable with
  | none => .error (.illegalArgument "cannot set thrown to null")
  | some _ => .ok { registers with returned := .NULL, thrown := throwable }

end Registers

/-- One call of a setter by a callback. -/
inductive RegisterCall where
  | setReturned (object : Slot)
  | setThrown (throwable : Option Throwable)
deriving DecidableEq, Repr

/-- What a setter call writes; a rejected call writes nothing. -/
def RegisterCall.effective : RegisterCall → Option (Except Throwable Obj)
  | .setReturned .NULL => none
  | .setReturned (.value object) => some (.ok object)
  | .setThrown none => none
  | .setThrown (some throwable) => some (.error throwable)

namespace Registers

def perform (registers : Registers) : RegisterCall → Except Throwable Registers
  | .setReturned object => registers.setReturned object
  | .setThrown throwable => registers.setThrown throwable

/-- The registers after one setter call. A rejected call throws inside the
callback and leaves them as they were. -/
def after (registers : Registers) (call : RegisterCall) : Registers :=
  match registers.perform call with
  | .ok registers => registers
  | .error _ => registers

def performAll (registers : Registers) (calls : List RegisterCall) : Registers :=
  calls.foldl after registers

/-- The result the registers stand for, if any. -/
def outcome (registers : Registers) : Option (Except Throwable Obj) :=
  match registers.thrown, registers.returned with
  | some throwable, _ => some (.error throwable)
  | none, .value object => some (.ok object)
  | none, .NULL => none

/-- No return value and throwable together. -/
def Consistent (registers : Registers) : Prop :=
  registers.returned = .NULL ∨ registers.thrown = none

/-- Exactly one of return value and throwable. -/
def Decided (registers : Registers) : Prop :=
  (registers.returned ≠ .NULL ∧ registers.thrown = none) ∨
    (registers.returned = .NULL ∧ registers.thrown ≠ none)

instance (registers : Registers) : Decidable registers.Consistent :=
  inferInstanceAs (Decidable (_ ∨ _))

instance (registers : Registers) : Decidable registers.Decided :=
  inferInstanceAs (Decidable (_ ∨ _))

/-- `returned == NULL && thrown == null`: the original is still to run. -/
def Clear (registers : Registers) : Prop :=
  registers.returned = .NULL ∧ registers.thrown = none

instance (registers : Registers) : Decidable registers.Clear :=
  inferInstanceAs (Decidable (_ ∧ _))

/-! ## One setter call -/

theorem after_consistent {registers : Registers} (consistent : registers.Consistent)
    (call : RegisterCall) : (registers.after call).Consistent := by
  rcases call with (_ | object) | (_ | throwable)
  · exact consistent
  · exact Or.inr rfl
  · exact consistent
  · exact Or.inl rfl

theorem after_decided {registers : Registers} (decided : registers.Decided)
    (call : RegisterCall) : (registers.after call).Decided := by
  rcases call with (_ | object) | (_ | throwable)
  · exact decided
  · exact Or.inl ⟨Slot.noConfusion, rfl⟩
  · exact decided
  · exact Or.inr ⟨rfl, Option.some_ne_none throwable⟩

theorem outcome_after (registers : Registers) (call : RegisterCall) :
    (registers.after call).outcome = call.effective.or registers.outcome := by
  rcases call with (_ | object) | (_ | throwable) <;> rfl

/-! ## Sequences of setter calls -/

/-- The last effective call decides; without one the old outcome stays. -/
theorem outcome_performAll (registers : Registers) (calls : List RegisterCall) :
    (registers.performAll calls).outcome =
      (calls.filterMap RegisterCall.effective).getLast?.or registers.outcome := by
  induction calls generalizing registers with
  | nil => rfl
  | cons call rest inductionHypothesis =>
      show ((registers.after call).performAll rest).outcome = _
      rw [inductionHypothesis, outcome_after]
      cases written : call.effective with
      | none => simp [written]
      | some write =>
          rw [List.filterMap_cons, written, List.getLast?_cons]
          cases (rest.filterMap RegisterCall.effective).getLast? <;> rfl

theorem Decided.outcome_ne_none {registers : Registers} (decided : registers.Decided) :
    registers.outcome ≠ none := by
  unfold outcome
  rcases decided with ⟨hasValue, noThrow⟩ | ⟨-, hasThrow⟩
  · rw [noThrow]
    cases value : registers.returned with
    | NULL => exact absurd value hasValue
    | value object => exact Option.some_ne_none _
  · cases thrown : registers.thrown with
    | none => exact absurd thrown hasThrow
    | some throwable => exact Option.some_ne_none _

theorem Clear.outcome_eq_none {registers : Registers} (clear : registers.Clear) :
    registers.outcome = none := by
  obtain ⟨noValue, noThrow⟩ := clear
  simp [outcome, noValue, noThrow]

theorem Decided.consistent {registers : Registers} (decided : registers.Decided) :
    registers.Consistent := by
  rcases decided with ⟨-, noThrow⟩ | ⟨noValue, -⟩
  · exact Or.inr noThrow
  · exact Or.inl noValue

/-- Consistent registers that are not clear are decided. -/
theorem Consistent.decided {registers : Registers} (consistent : registers.Consistent)
    (notClear : ¬ registers.Clear) : registers.Decided := by
  unfold Consistent Clear Decided at *
  tauto

end Registers

end AndroidPatch.Lang
