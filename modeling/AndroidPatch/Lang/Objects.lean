import AndroidPatch.Library.ArrayHeap

/-!
Contract: the runtime objects the framework passes around: classes, members,
values and throwables.

A Java object is modelled by a value whose equality is object identity (`==`).
Where a class overrides `equals`, the coarser comparison is a definition of its
own.
-/

namespace AndroidPatch.Lang

open AndroidPatch.Library

/-- A `Class` object. A class is its name together with its defining loader. -/
structure JavaClass where
  name : String
  loader : Nat
deriving DecidableEq, Repr

/-- `void.class`. -/
def JavaClass.void : JavaClass := ⟨"void", 0⟩

/-- A declared constructor or method: exactly the data that
`Constructor.equals` and `Method.equals` compare. -/
inductive Executable where
  | ctor (declaringClass : JavaClass) (parameterTypes : List JavaClass)
  | method (declaringClass : JavaClass) (name : String) (returnType : JavaClass)
      (parameterTypes : List JavaClass)
deriving DecidableEq, Repr

def Executable.declaringClass : Executable → JavaClass
  | .ctor declaringClass _ => declaringClass
  | .method declaringClass _ _ _ => declaringClass

/-- A reflective `Member` object. Every reflective lookup hands out a fresh
object, so one declared executable has many of them; `copy` tells them apart. -/
structure Member where
  executable : Executable
  copy : Nat
deriving DecidableEq, Repr

/-- `Member.equals`: two objects for one declared executable. -/
def Member.Equals (left right : Member) : Prop :=
  left.executable = right.executable

instance (left right : Member) : Decidable (left.Equals right) :=
  inferInstanceAs (Decidable (left.executable = right.executable))

/-- `java.lang.Object.toString`. -/
def Member.objectToString : Member :=
  ⟨.method ⟨"java.lang.Object", 0⟩ "toString" ⟨"java.lang.String", 0⟩ [], 0⟩

/-- A value of the hooked application. -/
inductive Obj where
  | null
  | instance (identity : Nat)
deriving DecidableEq, Repr

/-- Throwables the framework raises itself, and any other by identity.
`patchErrorOf` is `new PatchError(cause)`; `patchError` is a `PatchError` that
reaches the framework from outside. -/
inductive Throwable where
  | illegalArgument (message : String)
  | array (fault : ArrayFault)
  | patchError (identity : Nat)
  | patchErrorOf (cause : Throwable)
  | other (identity : Nat)
deriving DecidableEq, Repr

/-- `NullPointerException`, also raised by calls on a null receiver. -/
def Throwable.nullPointer : Throwable := .array .nullPointer

/-- An array operation called from framework code. -/
def raised {α : Type} : Except ArrayFault α → Except Throwable α
  | .ok value => .ok value
  | .error fault => .error (.array fault)

end AndroidPatch.Lang
