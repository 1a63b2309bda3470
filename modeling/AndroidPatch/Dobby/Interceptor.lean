import Mathlib.Data.List.Perm.Subperm
import AndroidPatch.Library.Ring

/-!
Contract: the list of the hooks that are in place.

Owns:
- `HookEntry` and the nodes of the intrusive list that `Interceptor` keeps them in;
- adding, removing, finding and counting entries, pointer by pointer;
- that over every run these are the operations of a plain list, newest entry first.

Nodes are addresses, and `NULL` is zero. A node is never freed, so the addresses that `new`
answers with in a run are all different.
-/

namespace AndroidPatch.Dobby

open Library

abbrev Node := BitVec 64

inductive HookEntryType where
  | kFunctionWrapper
  | kFunctionInlineHook
  | kDynamicBinaryInstrument
deriving DecidableEq, Repr

/-- An entry. Of the route only the target of its trampoline is read again. -/
structure HookEntry where
  id : Nat
  type : HookEntryType
  targetAddress : BitVec 64
  trampolineTarget : BitVec 64
  relocatedOriginInstructions : BitVec 64
  originChunk : List (BitVec 8)
deriving DecidableEq, Repr

structure Interceptor where
  head : Node
  links : Ring.Links Node
  info : Node → HookEntry

namespace Interceptor

def findHookEntryNode (fuel : Nat) (interceptor : Interceptor) (address : BitVec 64) :
    Option (Option Node) :=
  Ring.search interceptor.links.next interceptor.head
    (fun node => (interceptor.info node).targetAddress = address) fuel
    (interceptor.links.next interceptor.head)

def findHookEntry (fuel : Nat) (interceptor : Interceptor) (address : BitVec 64) :
    Option (Option HookEntry) :=
  (interceptor.findHookEntryNode fuel address).map (·.map interceptor.info)

/-- `AddHookEntry`, in the node that `new` answers with. -/
def addHookEntry (interceptor : Interceptor) (node : Node) (entry : HookEntry) : Interceptor :=
  { interceptor with
    info := Function.update interceptor.info node entry
    links := interceptor.links.addFirst node interceptor.head }

def removeHookEntry (fuel : Nat) (interceptor : Interceptor) (address : BitVec 64) :
    Option Interceptor :=
  (interceptor.findHookEntryNode fuel address).map fun found =>
    match found with
    | none => interceptor
    | some node => { interceptor with links := interceptor.links.remove node 0 }

def getHookEntryCount (fuel : Nat) (interceptor : Interceptor) : Option Nat :=
  Ring.count interceptor.links.next interceptor.head fuel interceptor.head 0

/-! ## Runs -/

/-- A call of the interceptor. -/
inductive Call where
  | add (node : Node) (entry : HookEntry)
  | remove (address : BitVec 64)
  | find (address : BitVec 64)
  | count
deriving DecidableEq, Repr

inductive Answer where
  | done
  | found (entry : Option HookEntry)
  | counted (count : Nat)
deriving DecidableEq, Repr

/-- A call, unless a walk goes on for too long. -/
def perform (fuel : Nat) (interceptor : Interceptor) : Call → Option (Interceptor × Answer)
  | .add node entry => some (interceptor.addHookEntry node entry, .done)
  | .remove address => (interceptor.removeHookEntry fuel address).map (·, .done)
  | .find address =>
      (interceptor.findHookEntry fuel address).map fun entry => (interceptor, .found entry)
  | .count => (interceptor.getHookEntryCount fuel).map fun count => (interceptor, .counted count)

def run (fuel : Nat) : Interceptor → List Call → Option (List Answer)
  | _, [] => some []
  | interceptor, call :: rest =>
      (interceptor.perform fuel call).bind fun performed =>
        (run fuel performed.1 rest).map (performed.2 :: ·)

end Interceptor

/-- The same calls on a plain list. -/
def performOnList (entries : List HookEntry) : Interceptor.Call → List HookEntry × Interceptor.Answer
  | .add _ entry => (entry :: entries, .done)
  | .remove address => (entries.eraseP (·.targetAddress = address), .done)
  | .find address => (entries, .found (entries.find? (·.targetAddress = address)))
  | .count => (entries, .counted entries.length)

def runOnList : List HookEntry → List Interceptor.Call → List Interceptor.Answer
  | _, [] => []
  | entries, call :: rest =>
      (performOnList entries call).2 :: runOnList (performOnList entries call).1 rest

namespace Interceptor

/-- The nodes that the calls add. -/
def Call.node? : Call → Option Node
  | .add node _ => some node
  | _ => none

/-- The ring stands for the entries, in nodes from a list. -/
def Represents (interceptor : Interceptor) (entries : List HookEntry) (used : List Node) : Prop :=
  ∃ nodes, Ring.IsRing interceptor.links interceptor.head nodes ∧
    nodes.map interceptor.info = entries ∧ nodes ⊆ used

/-- What `SharedInstance` starts with. -/
theorem represents_init (links : Ring.Links Node) (head : Node) (info : Node → HookEntry) :
    Represents ⟨head, links.init head, info⟩ [] [] :=
  ⟨[], Ring.isRing_init links head, rfl, List.Subset.refl _⟩

section Steps

variable {fuel : Nat} {interceptor : Interceptor} {nodes : List Node}

theorem findHookEntryNode_eq (ring : Ring.IsRing interceptor.links interceptor.head nodes)
    (enough : nodes.length < fuel) (address : BitVec 64) :
    interceptor.findHookEntryNode fuel address =
      some (nodes.find? fun node => (interceptor.info node).targetAddress = address) :=
  ring.linked.search_eq (List.nodup_cons.mp ring.nodup).1 _ enough

/-- The entries do not change where no node is added. -/
theorem map_info_update (interceptor : Interceptor) {node : Node} (entry : HookEntry)
    (new : node ∉ nodes) :
    nodes.map (Function.update interceptor.info node entry) = nodes.map interceptor.info := by
  apply List.map_congr_left
  intro other isOther
  apply Function.update_of_ne
  rintro rfl
  exact new isOther

/-- The node that is found is taken out of the ring, and its entry out of the list. -/
theorem removeHookEntry_eq (ring : Ring.IsRing interceptor.links interceptor.head nodes)
    (enough : nodes.length < fuel) (address : BitVec 64) :
    ∃ links left, interceptor.removeHookEntry fuel address = some { interceptor with links := links } ∧
      Ring.IsRing links interceptor.head left ∧ left ⊆ nodes ∧
      left.map interceptor.info =
        (nodes.map interceptor.info).eraseP (·.targetAddress = address) := by
  unfold removeHookEntry
  rw [findHookEntryNode_eq ring enough, List.eraseP_map]
  cases isFound : nodes.find? fun node => (interceptor.info node).targetAddress = address with
  | none =>
      refine ⟨interceptor.links, nodes, rfl, ring, List.Subset.refl _, ?_⟩
      rw [List.eraseP_of_forall_not]
      simpa using isFound
  | some node =>
      obtain ⟨passes, before, after, rfl, missed⟩ := List.find?_eq_some_iff_append.mp isFound
      refine ⟨_, before ++ after, rfl, ring.remove 0, ?_, ?_⟩
      · exact (List.Sublist.append_left (List.sublist_cons_self node after) before).subset
      · rw [List.eraseP_append_right, List.eraseP_cons_of_pos]
        · exact passes
        · intro other isOther
          simpa using missed other isOther

end Steps

/-- One call does on the ring what it does on the list. -/
theorem Represents.perform {fuel : Nat} {interceptor : Interceptor} {entries : List HookEntry}
    {used : List Node} (represents : interceptor.Represents entries used) (call : Call)
    (new : ∀ node ∈ call.node?, node ∉ interceptor.head :: used) (enough : used.length < fuel) :
    ∃ interceptor', interceptor.perform fuel call =
        some (interceptor', (performOnList entries call).2) ∧
      interceptor'.Represents (performOnList entries call).1 (used ++ call.node?.toList) ∧
      interceptor'.head = interceptor.head := by
  obtain ⟨nodes, ring, rfl, inUsed⟩ := represents
  have distinct := (List.nodup_cons.mp ring.nodup).2
  have few : nodes.length < fuel :=
    Nat.lt_of_le_of_lt (distinct.subperm inUsed).length_le enough
  cases call with
  | add node entry =>
      have isNew := new node rfl
      rw [List.mem_cons, not_or] at isNew
      have notIn : node ∉ nodes := fun isNode => isNew.2 (inUsed isNode)
      refine ⟨_, rfl, ⟨node :: nodes, ring.addFirst (by simp [isNew.1, notIn]), ?_, ?_⟩, rfl⟩
      · simp only [addHookEntry, performOnList, List.map_cons, Function.update_self,
          map_info_update interceptor entry notIn]
      · intro other isOther
        rcases List.mem_cons.mp isOther with rfl | isOther
        · simp [Call.node?]
        · exact List.mem_append_left _ (inUsed isOther)
  | remove address =>
      obtain ⟨links, left, removed, ring', inNodes, isLeft⟩ :=
        removeHookEntry_eq ring few address
      refine ⟨{ interceptor with links := links }, ?_, ⟨left, ring', isLeft, ?_⟩, rfl⟩
      · rw [Interceptor.perform, removed]
        rfl
      intro node isNode
      exact List.mem_append_left _ (inUsed (inNodes isNode))
  | find address =>
      refine ⟨interceptor, ?_, ⟨nodes, ring, rfl, List.subset_append_of_subset_left _ inUsed⟩, rfl⟩
      rw [Interceptor.perform, findHookEntry, findHookEntryNode_eq ring few]
      simp only [performOnList, List.find?_map, Option.map_some]
      rfl
  | count =>
      refine ⟨interceptor, ?_, ⟨nodes, ring, rfl, List.subset_append_of_subset_left _ inUsed⟩, rfl⟩
      rw [Interceptor.perform, getHookEntryCount,
        ring.linked.count_eq (List.nodup_cons.mp ring.nodup).1 0 few]
      simp [performOnList]

theorem Represents.run {fuel : Nat} {interceptor : Interceptor} {entries : List HookEntry}
    {used : List Node} (represents : interceptor.Represents entries used) (calls : List Call)
    (distinct : (interceptor.head :: used ++ calls.filterMap Call.node?).Nodup)
    (enough : used.length + calls.length < fuel) :
    interceptor.run fuel calls = some (runOnList entries calls) := by
  induction calls generalizing interceptor entries used with
  | nil => rfl
  | cons call rest inductionHypothesis =>
      have nodes : (call :: rest).filterMap Call.node? =
          call.node?.toList ++ rest.filterMap Call.node? := by
        cases isNode : call.node? <;> simp [isNode]
      rw [nodes] at distinct
      have apart := List.nodup_append.mp distinct
      obtain ⟨interceptor', performed, represents', sameHead⟩ := represents.perform call
        (fun node isNode isUsed => apart.2.2 node isUsed node
          (List.mem_append_left _ (Option.mem_toList.mpr isNode)) rfl)
        (Nat.lt_of_le_of_lt (Nat.le_add_right _ _) enough)
      rw [Interceptor.run, performed, Option.bind_some, inductionHypothesis represents', runOnList]
      · rfl
      · rw [sameHead, List.cons_append, List.append_assoc]
        simpa using distinct
      · have added : call.node?.toList.length ≤ 1 := by cases call.node? <;> simp
        rw [List.length_cons] at enough
        rw [List.length_append]
        omega

end Interceptor

/-- Two functions are hooked, one of them twice; its newer entry goes first. -/
def hookedAgain : List Interceptor.Call :=
  let entry (id : Nat) (address : BitVec 64) : HookEntry :=
    ⟨id, .kFunctionInlineHook, address, 0, 0, []⟩
  [.add 1 (entry 0 0x1000), .add 2 (entry 1 0x2000), .add 3 (entry 2 0x1000), .remove 0x1000,
    .find 0x1000, .count]

end AndroidPatch.Dobby
