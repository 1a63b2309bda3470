import AndroidPatch.Library.RelyGuarantee

/-!
Contract: the one object of the class `Lucy`.

Owns:
- `Lucy.getInstance` with its two looks at the field, the second one inside the monitor of
  the class;
- however threads call it: one object is made at most, and all calls return it.

The field is volatile, so that its reads and writes are single accesses in one order. An
object is a number: how many were made before it.
-/

namespace AndroidPatch.Logcat.Instance

open AndroidPatch.Library Code

/-- The static field and, for the results, what was made and returned. -/
structure Statics where
  field : Option Nat
  constructed : Nat
  returned : List (Option Nat)
deriving DecidableEq, Repr

def Statics.initial : Statics := ⟨none, 0, []⟩

/-- `Lucy.class` -/
inductive ClassMonitor where
  | lucyClass
deriving DecidableEq, Repr

abbrev Operation (A : Type) := Code Statics ClassMonitor A

def readField : Operation (Option Nat) :=
  call fun state => (state.field, state)

/-- `new Lucy()` -/
def construct : Operation Nat :=
  call fun state => (state.constructed, { state with constructed := state.constructed + 1 })

def writeField (lucy : Nat) : Operation Unit :=
  call fun state => ((), { state with field := some lucy })

/-- `Lucy.getInstance` -/
def getInstance : Operation (Option Nat) := do
  if (← readField).isNone then
    sync .lucyClass do
      if (← readField).isNone then
        let lucy ← construct
        writeField lucy
  readField

/-- The calls of one thread, with what each returns. -/
def calls : Nat → Operation Unit
  | 0 => pure ()
  | more + 1 => do
      let result ← getInstance
      call fun state => ((), { state with returned := result :: state.returned })
      calls more

def start {T : Type} (amount : T → Nat) : System T Statics ClassMonitor where
  shared := .initial
  threads thread := ⟨[], calls (amount thread)⟩

/-! ## The protocol -/

/-- What holds always: one object is made at most, and it is what was returned. -/
structure Shared (state : Statics) : Prop where
  once : state.constructed ≤ 1
  made : state.field ≠ none → state.constructed = 1
  returned : ∀ result ∈ state.returned, result ≠ none ∧ result = state.field

/-- The field is written once, and inside the monitor only. -/
def protocol : Protocol Statics ClassMonitor where
  monitor := .lucyClass
  always := Shared
  free state := state.field = none → state.constructed = 0
  inside before after := before.field ≠ none → after.field = before.field
  outside before after := after.field = before.field ∧ after.constructed = before.constructed
  outside_refl _ := ⟨rfl, rfl⟩
  inside_of_outside changes _ := changes.1
  free_of_outside changes isFree := by
    rw [changes.1, changes.2]
    exact isFree

/-- What a thread knows once it has seen the object, or has written it. -/
def Seen (lucy : Nat) (state : Statics) : Prop := state.field = some lucy

theorem stable_seen (isInside : Bool) (lucy : Nat) : protocol.Stable isInside (Seen lucy) := by
  intro before after changes isSeen
  have kept : before.field ≠ none → after.field = before.field := Protocol.may_inside changes
  unfold Seen at *
  rw [kept (by rw [isSeen]; exact Option.some_ne_none lucy), isSeen]

theorem stable_true (isInside : Bool) : protocol.Stable isInside fun _ => True :=
  fun _ _ _ _ => trivial

/-- While a thread is inside, nobody else makes an object. -/
def Unset (constructed : Nat) (state : Statics) : Prop :=
  state.field = none ∧ state.constructed = constructed

theorem stable_unset (constructed : Nat) : protocol.Stable true (Unset constructed) := by
  intro before after changes isUnset
  have same : after.field = before.field ∧ after.constructed = before.constructed := changes
  unfold Unset at *
  rw [same.1, same.2]
  exact isUnset

/-- What a call returns: the object that is in the field from then on. -/
def Returns (result : Option Nat) (state : Statics) : Prop :=
  ∃ lucy, result = some lucy ∧ Seen lucy state

theorem follows_lastRead (lucy : Nat) : Follows protocol Returns false (Seen lucy) readField := by
  intro state isAlways isSeen
  refine ⟨⟨rfl, rfl⟩, isAlways, Seen lucy, stable_seen false lucy, isSeen, rfl, ?_⟩
  intro later _ isSeen'
  exact ⟨lucy, isSeen, isSeen'⟩

/-- The way out of the monitor. -/
theorem follows_leave (lucy : Nat) :
    Follows protocol Returns true (Seen lucy) (.leave .lucyClass readField) := by
  rw [Follows, if_pos rfl]
  refine ⟨rfl, fun state _ isSeen isNone => ?_, Seen lucy, stable_seen false lucy,
    fun _ _ isSeen => isSeen, follows_lastRead lucy⟩
  exact absurd (isSeen.symm.trans isNone) (Option.some_ne_none lucy)

theorem follows_construct :
    Follows protocol Returns true (Unset 0)
      (construct >>= fun lucy => writeField lucy >>= fun _ => .leave .lucyClass readField) := by
  intro state isAlways isUnset
  refine ⟨fun _ => rfl, ⟨?_, ?_, isAlways.returned⟩, Unset 1, stable_unset 1,
    ⟨isUnset.1, ?_⟩, ?_⟩
  · show state.constructed + 1 ≤ 1
    rw [isUnset.2]
  · exact fun isSet => absurd isUnset.1 isSet
  · show state.constructed + 1 = 1
    rw [isUnset.2]
  · show Follows protocol Returns true (Unset 1)
      (writeField state.constructed >>= fun _ => .leave .lucyClass readField)
    rw [isUnset.2]
    intro state isAlways isUnset
    refine ⟨fun isSet => absurd isUnset.1 isSet, ⟨isAlways.once, fun _ => isUnset.2, ?_⟩,
      Seen 0, stable_seen true 0, rfl, follows_leave 0⟩
    -- nothing was returned while the field was null
    intro result isResult
    obtain ⟨isSome, isField⟩ := isAlways.returned result isResult
    exact absurd (isField.trans isUnset.1) isSome

theorem follows_getInstance :
    Follows protocol Returns false (fun _ => True) getInstance := by
  intro state isAlways _
  refine ⟨⟨rfl, rfl⟩, isAlways, ?_⟩
  cases first : state.field with
  | some lucy =>
      refine ⟨Seen lucy, stable_seen false lucy, first, ?_⟩
      show Follows protocol Returns false (Seen lucy) _
      simp only [first]
      exact follows_lastRead lucy
  | none =>
      refine ⟨_, stable_true false, trivial, ?_⟩
      simp only [first]
      show Follows protocol Returns false _ (.enter .lucyClass _)
      rw [Follows, if_pos rfl]
      refine ⟨rfl, ?_⟩
      intro state isAlways isKnown
      refine ⟨fun _ => rfl, isAlways, ?_⟩
      cases second : state.field with
      | some lucy =>
          refine ⟨Seen lucy, stable_seen true lucy, second, ?_⟩
          simp only [second]
          exact follows_leave lucy
      | none =>
          refine ⟨Unset 0, stable_unset 0, ⟨second, isKnown.2 second⟩, ?_⟩
          simp only [second]
          exact follows_construct

theorem follows_calls (amount : Nat) :
    Follows protocol (fun _ _ => True) false (fun _ => True) (calls amount) := by
  induction amount with
  | zero => exact follows_pure fun _ _ => trivial
  | succ more inductionHypothesis =>
      refine follows_getInstance.bind fun result => ?_
      intro state isAlways returns
      refine ⟨⟨rfl, rfl⟩, ⟨isAlways.once, isAlways.made, ?_⟩, _, stable_true false, trivial,
        inductionHypothesis⟩
      intro other isOther
      rcases List.mem_cons.mp isOther with rfl | isEarlier
      · obtain ⟨lucy, rfl, isSeen⟩ := returns
        exact ⟨Option.some_ne_none lucy, isSeen.symm⟩
      · exact isAlways.returned other isEarlier

theorem shared_initial : Shared Statics.initial where
  once := Nat.zero_le 1
  made isSet := absurd rfl isSet
  returned _ impossible := absurd impossible List.not_mem_nil

/-- Two threads that call it once each. -/
def bothAtOnce : System Bool Statics ClassMonitor := start fun _ => 1

end AndroidPatch.Logcat.Instance
