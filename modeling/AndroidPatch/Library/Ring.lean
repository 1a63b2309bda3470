import Mathlib.Data.List.Nodup
import Mathlib.Logic.Function.Basic

/-!
Contract: circular doubly linked lists.

Owns:
- links between nodes, and the list that a ring of them stands for;
- inserting a node between two neighbours and taking one out, store by store;
- walking round a ring.

The nodes are of any type. Stores go to one node at a time, so that an insertion into an
empty ring, where both neighbours are the head, is the same code.
-/

namespace AndroidPatch.Library.Ring

universe u
variable {α : Type u} [DecidableEq α]

/-- The two pointers of every node. -/
structure Links (α : Type u) where
  next : α → α
  prev : α → α

namespace Links

def setNext (links : Links α) (node value : α) : Links α :=
  { links with next := Function.update links.next node value }

def setPrev (links : Links α) (node value : α) : Links α :=
  { links with prev := Function.update links.prev node value }

/-- A node that is linked to itself. -/
def init (links : Links α) (head : α) : Links α := (links.setNext head head).setPrev head head

/-- The node goes between two others. -/
def add (links : Links α) (node before after : α) : Links α :=
  (((links.setPrev after node).setNext node after).setPrev node before).setNext before node

/-- The node goes behind the head. -/
def addFirst (links : Links α) (node head : α) : Links α := links.add node head (links.next head)

/-- The neighbours of a node become neighbours, and its own pointers get a value. -/
def remove (links : Links α) (node null : α) : Links α :=
  let before := links.prev node
  let after := links.next node
  (((links.setPrev after before).setNext before after).setNext node null).setPrev node null

theorem next_add (links : Links α) (node before after other : α) :
    (links.add node before after).next other =
      if other = before then node else if other = node then after else links.next other := by
  simp [add, setNext, setPrev, Function.update_apply]

theorem prev_add (links : Links α) (node before after other : α) :
    (links.add node before after).prev other =
      if other = node then before else if other = after then node else links.prev other := by
  simp [add, setNext, setPrev, Function.update_apply]

theorem next_remove (links : Links α) (node null other : α) :
    (links.remove node null).next other =
      if other = node then null
      else if other = links.prev node then links.next node else links.next other := by
  simp [remove, setNext, setPrev, Function.update_apply]

theorem prev_remove (links : Links α) (node null other : α) :
    (links.remove node null).prev other =
      if other = node then null
      else if other = links.next node then links.prev node else links.prev other := by
  simp [remove, setNext, setPrev, Function.update_apply]

end Links

/-! ## Linked nodes -/

section Linked

omit [DecidableEq α]

/-- From one node through some others to a last one, in both directions. -/
def Linked (links : Links α) : α → List α → α → Prop
  | first, [], last => links.next first = last ∧ links.prev last = first
  | first, node :: rest, last =>
      (links.next first = node ∧ links.prev node = first) ∧ Linked links node rest last

variable {links links' : Links α} {first last : α} {nodes : List α}

theorem linked_append (links : Links α) (first middle last : α) (nodes rest : List α) :
    Linked links first (nodes ++ middle :: rest) last ↔
      Linked links first nodes middle ∧ Linked links middle rest last := by
  induction nodes generalizing first with
  | nil => rfl
  | cons node nodes inductionHypothesis =>
      simp only [List.cons_append, Linked, inductionHypothesis, and_assoc]

/-- Only the pointers between the nodes matter. -/
theorem Linked.congr (linked : Linked links first nodes last)
    (sameNext : ∀ node ∈ first :: nodes, links'.next node = links.next node)
    (samePrev : ∀ node ∈ nodes ++ [last], links'.prev node = links.prev node) :
    Linked links' first nodes last := by
  induction nodes generalizing first with
  | nil =>
      exact ⟨(sameNext first (by simp)).trans linked.1, (samePrev last (by simp)).trans linked.2⟩
  | cons node nodes inductionHypothesis =>
      refine ⟨⟨(sameNext first (by simp)).trans linked.1.1,
        (samePrev node (by simp)).trans linked.1.2⟩, inductionHypothesis linked.2 ?_ ?_⟩
      · exact fun other isOther => sameNext other (List.mem_cons_of_mem _ isOther)
      · exact fun other isOther => samePrev other (List.mem_cons_of_mem _ isOther)

theorem Linked.next_mem (linked : Linked links first nodes last) :
    links.next first ∈ nodes ++ [last] := by
  cases nodes with
  | nil => simp [linked.1]
  | cons node rest => simp [linked.1.1]

theorem Linked.prev_mem (linked : Linked links first nodes last) :
    links.prev last ∈ first :: nodes := by
  induction nodes generalizing first with
  | nil => simp [linked.2]
  | cons node rest inductionHypothesis =>
      exact List.mem_cons_of_mem _ (inductionHypothesis linked.2)

end Linked

/-- A node goes between a first node and the one behind it. -/
theorem Linked.add {links : Links α} {first last node : α} {nodes : List α}
    (linked : Linked links first nodes last) (new : node ∉ first :: (nodes ++ [last]))
    (nodup : (nodes ++ [last]).Nodup) (notFirst : first ∉ nodes) :
    Linked (links.add node first (links.next first)) first (node :: nodes) last := by
  rw [List.mem_cons, not_or] at new
  refine ⟨⟨by simp [Links.next_add], by simp [Links.prev_add]⟩, ?_⟩
  cases nodes with
  | nil =>
      have notLast : last ≠ node := fun same => new.2 (by simp [same])
      refine ⟨?_, ?_⟩
      · rw [Links.next_add, if_neg new.1, if_pos rfl, linked.1]
      · rw [Links.prev_add, if_neg notLast, if_pos linked.1.symm]
  | cons second rest =>
      have isNext : links.next first = second := linked.1.1
      have notSecond : second ≠ node := fun same => new.2 (by simp [same])
      refine ⟨⟨?_, ?_⟩, linked.2.congr ?_ ?_⟩
      · rw [Links.next_add, if_neg new.1, if_pos rfl, isNext]
      · rw [Links.prev_add, if_neg notSecond, if_pos isNext.symm]
      · intro other isOther
        have isNotFirst : other ≠ first := fun same => notFirst (same ▸ isOther)
        have isNotNode : other ≠ node := fun same =>
          new.2 (List.mem_append_left _ (same ▸ isOther))
        rw [Links.next_add, if_neg isNotFirst, if_neg isNotNode]
      · intro other isOther
        have isNotSecond : other ≠ second := fun same =>
          (List.nodup_cons.mp nodup).1 (same ▸ isOther)
        have isNotNode : other ≠ node := fun same =>
          new.2 (List.mem_cons_of_mem _ (same ▸ isOther))
        rw [Links.prev_add, if_neg isNotNode, isNext, if_neg isNotSecond]

/-- A node is taken out. The induction is on the nodes before it. -/
theorem Linked.remove {links : Links α} {first node last null : α} {before after : List α}
    (linked : Linked links first before node) (linked' : Linked links node after last)
    (nodup : (first :: (before ++ node :: after)).Nodup)
    (nodup' : (before ++ node :: (after ++ [last])).Nodup) :
    Linked (links.remove node null) first (before ++ after) last := by
  have behind := linked'.next_mem
  induction before generalizing first with
  | nil =>
      have isNext : links.next first = node := linked.1
      have isPrev : links.prev node = first := linked.2
      have notNode : first ≠ node := fun same => by simp [same] at nodup
      rw [List.nil_append] at nodup nodup' ⊢
      cases after with
      | nil =>
          have notLast : last ≠ node := fun same => by simp [same] at nodup'
          refine ⟨?_, ?_⟩
          · rw [Links.next_remove, if_neg notNode, if_pos isPrev.symm, linked'.1]
          · rw [Links.prev_remove, if_neg notLast, if_pos linked'.1.symm, isPrev]
      | cons second rest =>
          have isSecond : links.next node = second := linked'.1.1
          have distinct := List.nodup_cons.mp nodup'
          have notSecond : second ≠ node := fun same => distinct.1 (by simp [same])
          refine ⟨⟨?_, ?_⟩, linked'.2.congr ?_ ?_⟩
          · rw [Links.next_remove, if_neg notNode, if_pos isPrev.symm, isSecond]
          · rw [Links.prev_remove, if_neg notSecond, if_pos isSecond.symm, isPrev]
          · intro other isOther
            have isNotNode : other ≠ node := fun same =>
              distinct.1 (List.mem_append_left _ (same ▸ isOther))
            have isNotFirst : other ≠ first := fun same =>
              (List.nodup_cons.mp nodup).1 (List.mem_cons_of_mem _ (same ▸ isOther))
            rw [Links.next_remove, if_neg isNotNode, isPrev, if_neg isNotFirst]
          · intro other isOther
            have isNotNode : other ≠ node := fun same =>
              distinct.1 (List.mem_cons_of_mem _ (same ▸ isOther))
            have isNotSecond : other ≠ second := fun same =>
              (List.nodup_cons.mp distinct.2).1 (same ▸ isOther)
            rw [Links.prev_remove, if_neg isNotNode, isSecond, if_neg isNotSecond]
  | cons second rest inductionHypothesis =>
      have rest := inductionHypothesis linked.2 (List.nodup_cons.mp nodup).2
        (List.nodup_cons.mp nodup').2
      have ahead := linked.2.prev_mem
      have distinct := List.nodup_cons.mp nodup
      have distinct' := List.nodup_cons.mp nodup'
      refine ⟨⟨?_, ?_⟩, rest⟩
      · have notNode : first ≠ node := fun same => distinct.1 (by simp [same])
        have notBefore : first ≠ links.prev node := fun same =>
          distinct.1 (List.mem_append_left _ (same ▸ ahead))
        rw [Links.next_remove, if_neg notNode, if_neg notBefore, linked.1.1]
      · have notNode : second ≠ node := fun same => distinct'.1 (by simp [same])
        have notAfter : second ≠ links.next node := fun same =>
          distinct'.1 (List.mem_append_right _ (List.mem_cons_of_mem _ (same ▸ behind)))
        rw [Links.prev_remove, if_neg notNode, if_neg notAfter, linked.1.2]

/-! ## Rings -/

/-- The nodes are linked from the head round to the head. -/
structure IsRing (links : Links α) (head : α) (nodes : List α) : Prop where
  linked : Linked links head nodes head
  nodup : (head :: nodes).Nodup

omit [DecidableEq α] in
theorem IsRing.nodup_append {links : Links α} {head : α} {nodes : List α}
    (ring : IsRing links head nodes) : (nodes ++ [head]).Nodup :=
  (List.perm_append_singleton head nodes).nodup_iff.mpr ring.nodup

theorem isRing_init (links : Links α) (head : α) : IsRing (links.init head) head [] where
  linked := by simp [Linked, Links.init, Links.setNext, Links.setPrev]
  nodup := List.nodup_singleton head

/-- A node that is not in the ring becomes the first one. -/
theorem IsRing.addFirst {links : Links α} {head node : α} {nodes : List α}
    (ring : IsRing links head nodes) (new : node ∉ head :: nodes) :
    IsRing (links.addFirst node head) head (node :: nodes) where
  linked := by
    refine ring.linked.add ?_ ring.nodup_append (List.nodup_cons.mp ring.nodup).1
    simp only [List.mem_cons, List.mem_append, not_or] at new ⊢
    simp [new]
  nodup := by
    have distinct := List.nodup_cons.mp ring.nodup
    rw [List.mem_cons, not_or] at new
    refine List.nodup_cons.mpr ⟨?_, List.nodup_cons.mpr ⟨new.2, distinct.2⟩⟩
    rw [List.mem_cons, not_or]
    exact ⟨fun same => new.1 same.symm, distinct.1⟩

theorem IsRing.remove {links : Links α} {head node : α} {before after : List α}
    (ring : IsRing links head (before ++ node :: after)) (null : α) :
    IsRing (links.remove node null) head (before ++ after) where
  linked := by
    obtain ⟨linked, linked'⟩ := (linked_append ..).mp ring.linked
    have around := ring.nodup_append
    rw [List.append_assoc, List.cons_append] at around
    exact linked.remove linked' ring.nodup around
  nodup := by
    refine ring.nodup.sublist (List.Sublist.cons_cons head ?_)
    exact List.Sublist.append_left (List.sublist_cons_self node after) before

/-! ## Walks -/

/-- Follow the pointers until the node to stop at, and look for a node that passes. The
count of steps is bounded; the answer is `none` if they are not enough. -/
def search (next : α → α) (stop : α) (passes : α → Bool) : Nat → α → Option (Option α)
  | 0, _ => none
  | fuel + 1, node =>
      if node = stop then some none
      else if passes node then some (some node)
      else search next stop passes fuel (next node)

/-- Follow the pointers until the node to stop at, and count. -/
def count (next : α → α) (stop : α) : Nat → α → Nat → Option Nat
  | 0, _, _ => none
  | fuel + 1, node, counted =>
      if next node = stop then some counted
      else count next stop fuel (next node) (counted + 1)

theorem Linked.search_eq {links : Links α} {first last : α} {nodes : List α}
    (linked : Linked links first nodes last) (notLast : last ∉ nodes) (passes : α → Bool)
    {fuel : Nat} (enough : nodes.length < fuel) :
    search links.next last passes fuel (links.next first) = some (nodes.find? passes) := by
  induction nodes generalizing first fuel with
  | nil =>
      obtain ⟨fuel, rfl⟩ := Nat.exists_eq_succ_of_ne_zero (Nat.ne_of_gt enough)
      rw [linked.1, search, if_pos rfl, List.find?_nil]
  | cons node rest inductionHypothesis =>
      obtain ⟨fuel, rfl⟩ := Nat.exists_eq_succ_of_ne_zero (Nat.ne_zero_of_lt enough)
      rw [List.mem_cons, not_or] at notLast
      rw [linked.1.1, search, if_neg fun same => notLast.1 same.symm, List.find?_cons]
      by_cases found : passes node
      · simp [found]
      · simp only [found]
        exact inductionHypothesis linked.2 notLast.2 (Nat.lt_of_succ_lt_succ enough)

theorem Linked.count_eq {links : Links α} {first last : α} {nodes : List α}
    (linked : Linked links first nodes last) (notLast : last ∉ nodes) (counted : Nat)
    {fuel : Nat} (enough : nodes.length < fuel) :
    count links.next last fuel first counted = some (counted + nodes.length) := by
  induction nodes generalizing first fuel counted with
  | nil =>
      obtain ⟨fuel, rfl⟩ := Nat.exists_eq_succ_of_ne_zero (Nat.ne_of_gt enough)
      rw [count, if_pos linked.1]
      rfl
  | cons node rest inductionHypothesis =>
      obtain ⟨fuel, rfl⟩ := Nat.exists_eq_succ_of_ne_zero (Nat.ne_zero_of_lt enough)
      rw [List.mem_cons, not_or] at notLast
      rw [count, linked.1.1, if_neg fun same => notLast.1 same.symm,
        inductionHypothesis linked.2 notLast.2 _ (Nat.lt_of_succ_lt_succ enough),
        List.length_cons]
      congr 1
      omega

end AndroidPatch.Library.Ring
