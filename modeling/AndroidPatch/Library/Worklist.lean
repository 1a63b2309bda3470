import Mathlib.Data.Finset.Card
import Mathlib.Data.Set.Finite.Basic
import Mathlib.Logic.Relation
import Mathlib.Order.Lattice.Nat

/-!
Contract: searches with a queue that tests at removal.

`search next` takes a node from the front of the queue. One that is in the
output already is dropped; any other goes to the end of the output, and what
comes next after it to the end of the queue, whether it is known there or not.

If only finitely many nodes can be reached, the search ends. Its output then
lists what can be reached, each node once, nearer ones first. The invariant gives
every node in the queue a level, one more than that of the node it was queued
for: these levels are in order and spread over at most two values, and they are
what makes the node that is taken a nearest one.
-/

namespace AndroidPatch.Library.Worklist

open Relation

variable {N : Type}

/-- A chain of `length` steps. -/
inductive Steps (next : N → List N) (root : N) : Nat → N → Prop where
  | here : Steps next root 0 root
  | there {length : Nat} {node other : N} (steps : Steps next root length node)
      (isNext : other ∈ next node) : Steps next root (length + 1) other

def Reaches (next : N → List N) : N → N → Prop :=
  ReflTransGen fun node other => other ∈ next node

/-- The length of a shortest chain. -/
noncomputable def distance (next : N → List N) (root node : N) : Nat :=
  sInf {length | Steps next root length node}

section Distance

variable {next : N → List N} {root node : N} {length : Nat}

theorem Steps.reaches (steps : Steps next root length node) : Reaches next root node := by
  induction steps with
  | here => exact .refl
  | there _ isNext inductionHypothesis => exact inductionHypothesis.tail isNext

theorem distance_le (steps : Steps next root length node) : distance next root node ≤ length :=
  Nat.sInf_le steps

theorem distance_eq (steps : Steps next root length node)
    (least : ∀ other, Steps next root other node → length ≤ other) :
    distance next root node = length := by
  apply Nat.le_antisymm (distance_le steps)
  exact le_csInf ⟨length, steps⟩ least

end Distance

/-! ## The levels -/

/-- **The invariant of the loop.**  `pending` is the queue with the level of each
node. -/
structure Invariant (next : N → List N) (root : N) (pending : List (N × Nat))
    (output : List N) : Prop where
  nodup : output.Nodup
  reached : ∀ node ∈ output, Reaches next root node
  steps : ∀ entry ∈ pending, Steps next root entry.2 entry.1
  ordered : pending.Pairwise fun earlier later => earlier.2 ≤ later.2
  spread : ∀ entry ∈ pending, ∀ other ∈ pending, other.2 ≤ entry.2 + 1
  behind : ∀ node ∈ output, ∀ entry ∈ pending, distance next root node ≤ entry.2
  sorted : output.Pairwise fun earlier later =>
    distance next root earlier ≤ distance next root later
  start : root ∈ output ∨ (root, 0) ∈ pending
  closed : ∀ node ∈ output, ∀ other ∈ next node,
    other ∈ output ∨ (other, distance next root node + 1) ∈ pending

namespace Invariant

variable {next : N → List N} {root : N} {pending : List (N × Nat)} {output : List N}

theorem initial (next : N → List N) (root : N) : Invariant next root [(root, 0)] [] where
  nodup := List.nodup_nil
  reached := fun _ member => absurd member List.not_mem_nil
  steps := by
    intro entry member
    rw [List.mem_singleton.mp member]
    exact .here
  ordered := List.pairwise_singleton _ _
  spread := by
    intro entry isEntry other isOther
    rw [List.mem_singleton.mp isEntry, List.mem_singleton.mp isOther]
    exact Nat.zero_le _
  behind := fun _ member => absurd member List.not_mem_nil
  sorted := List.Pairwise.nil
  start := .inr (List.mem_singleton.mpr rfl)
  closed := fun _ member => absurd member List.not_mem_nil

/-- Where a chain leads out of the output, the queue has an entry that is no
farther. -/
theorem exists_pending (invariant : Invariant next root pending output) {length : Nat}
    {node : N} (steps : Steps next root length node) (isNew : node ∉ output) :
    ∃ entry ∈ pending, entry.2 ≤ length := by
  induction steps with
  | here =>
      rcases invariant.start with known | isPending
      · exact absurd known isNew
      · exact ⟨_, isPending, Nat.le_refl 0⟩
  | @there length node other steps isNext inductionHypothesis =>
      by_cases known : node ∈ output
      · rcases invariant.closed node known other isNext with done | isPending
        · exact absurd done isNew
        · exact ⟨_, isPending, Nat.succ_le_succ (distance_le steps)⟩
      · obtain ⟨entry, isEntry, below⟩ := inductionHypothesis known
        exact ⟨entry, isEntry, Nat.le_succ_of_le below⟩

theorem level_le_head {node : N} {level : Nat} {rest : List (N × Nat)}
    (invariant : Invariant next root ((node, level) :: rest) output) {entry : N × Nat}
    (member : entry ∈ (node, level) :: rest) : level ≤ entry.2 := by
  rcases List.mem_cons.mp member with same | later
  · rw [same]
  · exact List.rel_of_pairwise_cons invariant.ordered later

/-- The level of a new node in front of the queue is its distance. -/
theorem head_distance {node : N} {level : Nat} {rest : List (N × Nat)}
    (invariant : Invariant next root ((node, level) :: rest) output) (isNew : node ∉ output) :
    distance next root node = level := by
  apply distance_eq (invariant.steps _ List.mem_cons_self)
  intro other steps
  obtain ⟨entry, isEntry, below⟩ := invariant.exists_pending steps isNew
  exact (invariant.level_le_head isEntry).trans below

/-- An entry of the queue whose front is in the output is in the output or in the
rest. -/
theorem known_or_later {node : N} {level : Nat} {rest : List (N × Nat)} {entry : N × Nat}
    (isPending : entry ∈ (node, level) :: rest) (known : node ∈ output) :
    entry.1 ∈ output ∨ entry ∈ rest := by
  rcases List.mem_cons.mp isPending with same | later
  · rw [same]
    exact .inl known
  · exact .inr later

theorem drop {node : N} {level : Nat} {rest : List (N × Nat)}
    (invariant : Invariant next root ((node, level) :: rest) output) (known : node ∈ output) :
    Invariant next root rest output where
  nodup := invariant.nodup
  reached := invariant.reached
  steps := fun entry member => invariant.steps entry (List.mem_cons_of_mem _ member)
  ordered := invariant.ordered.of_cons
  spread := fun entry isEntry other isOther => invariant.spread entry
    (List.mem_cons_of_mem _ isEntry) other (List.mem_cons_of_mem _ isOther)
  behind := fun done isDone entry member =>
    invariant.behind done isDone entry (List.mem_cons_of_mem _ member)
  sorted := invariant.sorted
  start := by
    rcases invariant.start with isDone | isPending
    · exact .inl isDone
    · exact known_or_later isPending known
  closed := by
    intro done isDone other isNext
    rcases invariant.closed done isDone other isNext with isKnown | isPending
    · exact .inl isKnown
    · exact known_or_later isPending known

/-- After a take, the queue still spans two levels at most. -/
theorem levels_take {node : N} {level : Nat} {rest : List (N × Nat)}
    (invariant : Invariant next root ((node, level) :: rest) output) :
    ∀ entry ∈ rest ++ (next node).map fun other => (other, level + 1),
      level ≤ entry.2 ∧ entry.2 ≤ level + 1 := by
  intro entry member
  rcases List.mem_append.mp member with inRest | isNext
  · exact ⟨invariant.level_le_head (List.mem_cons_of_mem _ inRest),
      invariant.spread _ List.mem_cons_self entry (List.mem_cons_of_mem _ inRest)⟩
  · obtain ⟨other, -, rfl⟩ := List.mem_map.mp isNext
    exact ⟨Nat.le_succ level, Nat.le_refl _⟩

theorem take {node : N} {level : Nat} {rest : List (N × Nat)}
    (invariant : Invariant next root ((node, level) :: rest) output) (isNew : node ∉ output) :
    Invariant next root (rest ++ (next node).map fun other => (other, level + 1))
      (output ++ [node]) := by
  have isDistance := invariant.head_distance isNew
  have isSteps : Steps next root level node := invariant.steps _ List.mem_cons_self
  have levels := invariant.levels_take
  have isTaken : node ∈ output ++ [node] := List.mem_append_right _ (List.mem_singleton.mpr rfl)
  constructor
  case nodup => exact List.nodup_append.mpr ⟨invariant.nodup, List.nodup_singleton node, by
    intro done isDone last isLast same
    rw [same, List.mem_singleton.mp isLast] at isDone
    exact isNew isDone⟩
  case reached =>
    intro done member
    rcases List.mem_append.mp member with isDone | isLast
    · exact invariant.reached done isDone
    · rw [List.mem_singleton.mp isLast]
      exact isSteps.reaches
  case steps =>
    intro entry member
    rcases List.mem_append.mp member with inRest | isNext
    · exact invariant.steps entry (List.mem_cons_of_mem _ inRest)
    · obtain ⟨other, isOther, rfl⟩ := List.mem_map.mp isNext
      exact .there isSteps isOther
  case ordered =>
    refine List.pairwise_append.mpr ⟨invariant.ordered.of_cons, ?_, ?_⟩
    · exact List.pairwise_map.mpr (List.pairwise_of_forall fun _ _ => Nat.le_refl _)
    · intro entry inRest later isNext
      obtain ⟨other, -, rfl⟩ := List.mem_map.mp isNext
      exact (levels entry (List.mem_append_left _ inRest)).2
  case spread =>
    intro entry isEntry other isOther
    exact (levels other isOther).2.trans (Nat.succ_le_succ (levels entry isEntry).1)
  case behind =>
    intro done member entry isEntry
    have above := (levels entry isEntry).1
    rcases List.mem_append.mp member with isDone | isLast
    · exact (invariant.behind done isDone _ List.mem_cons_self).trans above
    · rw [List.mem_singleton.mp isLast, isDistance]
      exact above
  case sorted =>
    refine List.pairwise_append.mpr ⟨invariant.sorted, List.pairwise_singleton _ _, ?_⟩
    intro done isDone last isLast
    rw [List.mem_singleton.mp isLast, isDistance]
    exact invariant.behind done isDone _ List.mem_cons_self
  case start =>
    rcases invariant.start with isDone | isPending
    · exact .inl (List.mem_append_left _ isDone)
    · exact (known_or_later isPending isTaken).imp_right (List.mem_append_left _)
  case closed =>
    intro done member other isNext
    rcases List.mem_append.mp member with isDone | isLast
    · rcases invariant.closed done isDone other isNext with isKnown | isPending
      · exact .inl (List.mem_append_left _ isKnown)
      · exact (known_or_later isPending isTaken).imp_right (List.mem_append_left _)
    · cases List.mem_singleton.mp isLast
      rw [isDistance]
      exact .inr (List.mem_append_right _ (List.mem_map_of_mem isNext))

/-- With an empty queue, the output is all that can be reached. -/
theorem mem_iff (invariant : Invariant next root [] output) {node : N} :
    node ∈ output ↔ Reaches next root node := by
  constructor
  · exact invariant.reached node
  · intro reaches
    induction reaches with
    | refl =>
        rcases invariant.start with isDone | isPending
        · exact isDone
        · cases isPending
    | tail _ isNext inductionHypothesis =>
        rcases invariant.closed _ inductionHypothesis _ isNext with isDone | isPending
        · exact isDone
        · cases isPending

end Invariant

/-! ## The loop -/

variable [DecidableEq N]

/-- The loop, with the queue and the output so far. It is `none` if the fuel does
not do. -/
def search (next : N → List N) : Nat → List N → List N → Option (List N)
  | _, [], output => some output
  | 0, _ :: _, _ => none
  | fuel + 1, node :: rest, output =>
      if node ∈ output then search next fuel rest output
      else search next fuel (rest ++ next node) (output ++ [node])

variable {next : N → List N}

@[simp] theorem search_nil (fuel : Nat) (output : List N) :
    search next fuel [] output = some output := by
  cases fuel with
  | zero => rfl
  | succ fuel => rfl

theorem search_known {fuel : Nat} {node : N} {rest output : List N} (known : node ∈ output) :
    search next (fuel + 1) (node :: rest) output = search next fuel rest output := by
  rw [search, if_pos known]

theorem search_new {fuel : Nat} {node : N} {rest output : List N} (isNew : node ∉ output) :
    search next (fuel + 1) (node :: rest) output =
      search next fuel (rest ++ next node) (output ++ [node]) := by
  rw [search, if_neg isNew]

theorem search_succ {fuel : Nat} {queue output result : List N}
    (ended : search next fuel queue output = some result) :
    search next (fuel + 1) queue output = some result := by
  induction fuel generalizing queue output with
  | zero =>
      cases queue with
      | nil => exact ended
      | cons node rest => cases ended
  | succ fuel inductionHypothesis =>
      cases queue with
      | nil => exact ended
      | cons node rest =>
          by_cases known : node ∈ output
          · rw [search_known known] at ended ⊢
            exact inductionHypothesis ended
          · rw [search_new known] at ended ⊢
            exact inductionHypothesis ended

theorem search_mono {fuel more : Nat} (enough : fuel ≤ more) {queue output result : List N}
    (ended : search next fuel queue output = some result) :
    search next more queue output = some result := by
  induction more, enough using Nat.le_induction with
  | base => exact ended
  | succ more _ inductionHypothesis => exact search_succ inductionHypothesis

/-- A search that stays within finitely many nodes ends: a node that is dropped
shortens the queue, and any other is one less to come. -/
theorem search_ends {nodes : Finset N} (closed : ∀ node ∈ nodes, ∀ other ∈ next node, other ∈ nodes)
    {queue : List N} (within : ∀ node ∈ queue, node ∈ nodes) (output : List N) :
    ∃ fuel result, search next fuel queue output = some result := by
  obtain ⟨count, isCount⟩ : ∃ count, (nodes \ output.toFinset).card = count := ⟨_, rfl⟩
  induction count using Nat.strong_induction_on generalizing queue output with
  | _ count fewer =>
      induction queue with
      | nil => exact ⟨0, output, rfl⟩
      | cons node rest shorter =>
          have isNode : node ∈ nodes := within node List.mem_cons_self
          have restWithin : ∀ other ∈ rest, other ∈ nodes :=
            fun other member => within other (List.mem_cons_of_mem _ member)
          by_cases known : node ∈ output
          · obtain ⟨fuel, result, ended⟩ := shorter restWithin
            exact ⟨fuel + 1, result, by rw [search_known known, ended]⟩
          · have less : (nodes \ (output ++ [node]).toFinset).card < count := by
              rw [← isCount]
              apply Finset.card_lt_card
              rw [Finset.ssubset_iff_of_subset]
              · exact ⟨node, by simp [isNode, known], by simp⟩
              · intro other member
                simp only [Finset.mem_sdiff, List.mem_toFinset, List.mem_append,
                  not_or] at member ⊢
                exact ⟨member.1, member.2.1⟩
            have queueWithin : ∀ other ∈ rest ++ next node, other ∈ nodes := by
              intro other member
              rcases List.mem_append.mp member with inRest | isNext
              · exact restWithin other inRest
              · exact closed node isNode other isNext
            obtain ⟨fuel, result, ended⟩ := fewer _ less queueWithin (output ++ [node]) rfl
            exact ⟨fuel + 1, result, by rw [search_new known, ended]⟩

/-- The output only grows. -/
theorem search_extends {fuel : Nat} {queue output result : List N}
    (ended : search next fuel queue output = some result) : output <+: result := by
  induction fuel generalizing queue output with
  | zero =>
      cases queue with
      | nil =>
          cases ended
          exact List.prefix_refl _
      | cons node rest => cases ended
  | succ fuel inductionHypothesis =>
      cases queue with
      | nil =>
          cases ended
          exact List.prefix_refl _
      | cons node rest =>
          by_cases known : node ∈ output
          · rw [search_known known] at ended
            exact inductionHypothesis ended
          · rw [search_new known] at ended
            exact (List.prefix_append output [node]).trans (inductionHypothesis ended)

/-- The loop ends with its invariant and an empty queue. -/
theorem Invariant.search {root : N} {pending : List (N × Nat)} {output : List N}
    (invariant : Invariant next root pending output) {fuel : Nat} {result : List N}
    (ended : search next fuel (pending.map Prod.fst) output = some result) :
    Invariant next root [] result := by
  induction fuel generalizing pending output with
  | zero =>
      cases pending with
      | nil =>
          cases ended
          exact invariant
      | cons entry rest => cases ended
  | succ fuel inductionHypothesis =>
      cases pending with
      | nil =>
          cases ended
          exact invariant
      | cons entry rest =>
          obtain ⟨node, level⟩ := entry
          rw [List.map_cons] at ended
          by_cases known : node ∈ output
          · rw [search_known known] at ended
            exact inductionHypothesis (invariant.drop known) ended
          · rw [search_new known] at ended
            refine inductionHypothesis (invariant.take known) ?_
            rw [List.map_append, List.map_map]
            simpa [Function.comp_def] using ended

/-- What a search from `root` comes to. -/
structure Found (next : N → List N) (root : N) (output : List N) : Prop where
  nodup : output.Nodup
  head : output.head? = some root
  mem_iff : ∀ node, node ∈ output ↔ Reaches next root node
  sorted : output.Pairwise fun earlier later =>
    distance next root earlier ≤ distance next root later

/-- **A search among finitely many nodes ends, and finds what can be reached.** -/
theorem search_found {root : N} (finite : {node | Reaches next root node}.Finite) :
    ∃ fuel output, Found next root output ∧
      ∀ more ≥ fuel, search next more [root] [] = some output := by
  have closed : ∀ node ∈ finite.toFinset, ∀ other ∈ next node, other ∈ finite.toFinset := by
    intro node member other isNext
    rw [Set.Finite.mem_toFinset] at member ⊢
    exact ReflTransGen.tail member isNext
  have within : ∀ node ∈ [root], node ∈ finite.toFinset := by
    intro node member
    rw [List.mem_singleton.mp member, Set.Finite.mem_toFinset]
    exact ReflTransGen.refl
  obtain ⟨fuel, output, ended⟩ := search_ends closed within []
  have invariant := (Invariant.initial next root).search ended
  have started : [root] <+: output := by
    cases fuel with
    | zero => cases ended
    | succ fuel =>
        rw [search_new List.not_mem_nil] at ended
        exact search_extends ended
  refine ⟨fuel, output, ⟨invariant.nodup, ?_, fun _ => invariant.mem_iff, invariant.sorted⟩,
    fun more enough => search_mono enough ended⟩
  obtain ⟨rest, rfl⟩ := started
  rfl

end AndroidPatch.Library.Worklist
