import Mathlib.Data.List.Nodup
import AndroidPatch.Lang.Objects

/-!
Contract: `FormatMap.mapToArray2`, the entries of a map as an alternating array.

Owns:
- maps as lists of entries in iteration order, with the fail-fast key iterator
  and the two kinds of `get`: in access order it moves the entry to the end;
- the loop over `keySet` with a `get` for every key;
- the maps that the loop only reads.

Keys are told apart as the map does it, so they are values with decidable
equality, and no two entries have the same key.
-/

namespace AndroidPatch.Formats

open AndroidPatch.Lang

inductive MapFault where
  | concurrentModification
  | noSuchElement
deriving DecidableEq, Repr

/-- A `java.util.Map`. Only a `LinkedHashMap` can be in access order. -/
structure JavaMap (N : Type) where
  entries : List (N × N)
  accessOrder : Bool
  modCount : Nat
  distinct : (entries.map Prod.fst).Nodup

/-- The iterator of `keySet()`: the key of the next entry, if there is one. -/
structure KeyIterator (N : Type) where
  next : Option N
  expectedModCount : Nat
deriving DecidableEq, Repr

namespace JavaMap

variable {N : Type}

def iterator (map : JavaMap N) : KeyIterator N :=
  ⟨map.entries.head?.map Prod.fst, map.modCount⟩

section Operations

variable [DecidableEq N]

/-- The key of the entry behind that of `key`. -/
def successor (key : N) : List (N × N) → Option N
  | [] => none
  | entry :: rest =>
      if entry.1 = key then rest.head?.map Prod.fst else successor key rest

/-- `next()` of the iterator. -/
def nextKey (map : JavaMap N) (iterator : KeyIterator N) :
    Except MapFault (N × KeyIterator N) :=
  if map.modCount ≠ iterator.expectedModCount then
    .error .concurrentModification
  else
    match iterator.next with
    | none => .error .noSuchElement
    | some key => .ok (key, ⟨successor key map.entries, iterator.expectedModCount⟩)

/-- The entry of `key` moved to the end. -/
def moved (key : N) (entry : N × N) (entries : List (N × N)) : List (N × N) :=
  entries.filter (fun other => other.1 ≠ key) ++ [entry]

theorem nodup_moved {entries : List (N × N)} (distinct : (entries.map Prod.fst).Nodup)
    {key : N} {entry : N × N} (isKey : entry.1 = key) :
    ((moved key entry entries).map Prod.fst).Nodup := by
  unfold moved
  rw [List.map_append, List.nodup_append]
  refine ⟨distinct.sublist (List.Sublist.map _ List.filter_sublist), List.nodup_singleton _, ?_⟩
  intro first isFirst second isSecond same
  obtain ⟨other, isOther, rfl⟩ := List.mem_map.mp isFirst
  have different : other.1 ≠ key := by
    simpa using (List.mem_filter.mp isOther).2
  rw [List.map_singleton, List.mem_singleton] at isSecond
  rw [same, isSecond] at different
  exact different isKey

/-- `get`; `null` is returned for an absent key. -/
def get (null : N) (map : JavaMap N) (key : N) : N × JavaMap N :=
  match found : map.entries.find? (fun entry => entry.1 = key) with
  | none => (null, map)
  | some entry =>
      if map.accessOrder ∧ map.entries.getLast? ≠ some entry then
        (entry.2,
          { entries := moved key entry map.entries
            accessOrder := map.accessOrder
            modCount := map.modCount + 1
            distinct := nodup_moved map.distinct (by simpa using List.find?_some found) })
      else
        (entry.2, map)

/-- `put` on a map in insertion order. -/
def put (map : JavaMap N) (key value : N) : JavaMap N :=
  if absent : key ∈ map.entries.map Prod.fst then
    { map with
      entries := map.entries.map fun entry => if entry.1 = key then (entry.1, value) else entry
      distinct := by
        have keys : (map.entries.map fun entry =>
            if entry.1 = key then (entry.1, value) else entry).map Prod.fst =
              map.entries.map Prod.fst := by
          rw [List.map_map]
          apply List.map_congr_left
          intro entry _
          by_cases same : entry.1 = key
          · simp [same]
          · simp [same]
        rw [keys]
        exact map.distinct }
  else
    { map with
      entries := map.entries ++ [(key, value)]
      modCount := map.modCount + 1
      distinct := by
        rw [List.map_append, List.nodup_append]
        refine ⟨map.distinct, List.nodup_singleton _, ?_⟩
        intro first isFirst second isSecond same
        rw [List.map_singleton, List.mem_singleton] at isSecond
        rw [same, isSecond] at isFirst
        exact absent isFirst }

/-- `new LinkedHashMap<>()`. -/
def empty : JavaMap N := ⟨[], false, 0, List.nodup_nil⟩

/-- `for (Object key : map.keySet())`, from where the iterator stands. -/
def keyLoop (null : N) : Nat → JavaMap N → KeyIterator N →
    Option (Except MapFault (List N) × JavaMap N)
  | 0, _, _ => none
  | fuel + 1, map, iterator =>
      match iterator.next with
      | none => some (.ok [], map)
      | some _ =>
          match map.nextKey iterator with
          | .error fault => some (.error fault, map)
          | .ok (key, iterator) =>
              match keyLoop null fuel (map.get null key).2 iterator with
              | none => none
              | some (.error fault, map) => some (.error fault, map)
              | some (.ok array, final) =>
                  some (.ok (key :: (map.get null key).1 :: array), final)

/-- `FormatMap.mapToArray2` on a map; `fuel` bounds the turns of the loop. -/
def mapToArray2 (null : N) (fuel : Nat) (map : JavaMap N) :
    Option (Except MapFault (List N) × JavaMap N) :=
  keyLoop null fuel map map.iterator

end Operations

/-- `key1, value1, ..., keyn, valuen`. -/
def alternating (entries : List (N × N)) : List N :=
  entries.flatMap fun entry => [entry.1, entry.2]

theorem mem_alternating {entries : List (N × N)} {entry : N × N} (member : entry ∈ entries) :
    entry.1 ∈ alternating entries ∧ entry.2 ∈ alternating entries := by
  unfold alternating
  constructor
  · exact List.mem_flatMap.mpr ⟨entry, member, List.mem_cons_self⟩
  · exact List.mem_flatMap.mpr ⟨entry, member, List.mem_cons_of_mem _ List.mem_cons_self⟩

/-! ## Iterating a map that stays as it is -/

section Reading

variable [DecidableEq N] {null : N} {map : JavaMap N}

theorem successor_append {front : List (N × N)} {entry : N × N} {rest : List (N × N)}
    (fresh : entry.1 ∉ front.map Prod.fst) :
    successor entry.1 (front ++ entry :: rest) = rest.head?.map Prod.fst := by
  induction front with
  | nil => simp [successor]
  | cons head front inductionHypothesis =>
      have different : head.1 ≠ entry.1 := fun same => fresh (by simp [← same])
      have later : entry.1 ∉ front.map Prod.fst := fun member =>
        fresh (List.mem_cons_of_mem _ member)
      rw [List.cons_append, successor, if_neg different, inductionHypothesis later]

theorem find_entry {entries : List (N × N)} (distinct : (entries.map Prod.fst).Nodup)
    {entry : N × N} (member : entry ∈ entries) :
    entries.find? (fun other => other.1 = entry.1) = some entry := by
  induction entries with
  | nil => cases member
  | cons head rest inductionHypothesis =>
      rw [List.map_cons, List.nodup_cons] at distinct
      rcases List.mem_cons.mp member with same | later
      · rw [same]
        simp
      · have different : head.1 ≠ entry.1 := fun same =>
          distinct.1 (same ▸ List.mem_map_of_mem later)
        rw [List.find?_cons_of_neg (by simpa using different)]
        exact inductionHypothesis distinct.2 later

/-- `get` of an entry's key, without a move. -/
theorem get_eq {entry : N × N} (member : entry ∈ map.entries)
    (still : ¬ (map.accessOrder ∧ map.entries.getLast? ≠ some entry)) :
    map.get null entry.1 = (entry.2, map) := by
  have found := find_entry map.distinct member
  unfold get
  split
  · rename_i missing
    rw [found] at missing
    cases missing
  · rename_i other isOther
    rw [found] at isOther
    cases isOther
    rw [if_neg still]

/-- The loop over the entries that are left, when no `get` moves one. -/
theorem keyLoop_reads
    (still : ∀ entry ∈ map.entries, map.get null entry.1 = (entry.2, map))
    {front rest : List (N × N)} (isEntries : map.entries = front ++ rest) {fuel : Nat}
    (enough : rest.length < fuel) :
    keyLoop null fuel map ⟨rest.head?.map Prod.fst, map.modCount⟩ =
      some (.ok (alternating rest), map) := by
  induction rest generalizing front fuel with
  | nil =>
      obtain ⟨fuel, rfl⟩ := Nat.exists_eq_add_one_of_ne_zero (show fuel ≠ 0 by omega)
      rfl
  | cons entry rest inductionHypothesis =>
      obtain ⟨fuel, rfl⟩ := Nat.exists_eq_add_one_of_ne_zero (show fuel ≠ 0 by omega)
      have fresh : entry.1 ∉ front.map Prod.fst := by
        have distinct := map.distinct
        rw [isEntries, List.map_append, List.nodup_append] at distinct
        intro member
        exact distinct.2.2 entry.1 member entry.1 (by simp) rfl
      have isNext : map.nextKey ⟨some entry.1, map.modCount⟩ =
          .ok (entry.1, ⟨rest.head?.map Prod.fst, map.modCount⟩) := by
        unfold nextKey
        rw [if_neg (by simp)]
        dsimp only
        rw [isEntries, successor_append fresh]
      have member : entry ∈ map.entries := by
        rw [isEntries]
        simp
      have isLater : map.entries = (front ++ [entry]) ++ rest := by
        rw [isEntries, List.append_assoc]
        rfl
      have enoughLater : rest.length < fuel := by
        simp at enough
        omega
      have later := inductionHypothesis isLater enoughLater
      show keyLoop null (fuel + 1) map ⟨some entry.1, map.modCount⟩ = _
      unfold keyLoop
      dsimp only
      rw [isNext]
      dsimp only
      rw [still entry member]
      dsimp only
      rw [later]
      rfl

/-- A map of which no entry moves is only read. -/
theorem mapToArray2_reads
    (still : ∀ entry ∈ map.entries, map.get null entry.1 = (entry.2, map)) {fuel : Nat}
    (enough : map.entries.length < fuel) :
    mapToArray2 null fuel map = some (.ok (alternating map.entries), map) :=
  keyLoop_reads still (show map.entries = [] ++ map.entries from rfl) enough

theorem still_of_insertionOrder (insertion : map.accessOrder = false) {entry : N × N}
    (member : entry ∈ map.entries) : map.get null entry.1 = (entry.2, map) :=
  get_eq member (by simp [insertion])

/-- The only entry of a map is its last one. -/
theorem still_of_single (single : map.entries.length ≤ 1) {entry : N × N}
    (member : entry ∈ map.entries) : map.get null entry.1 = (entry.2, map) := by
  apply get_eq member
  intro moves
  apply moves.2
  cases isEntries : map.entries with
  | nil =>
      rw [isEntries] at member
      cases member
  | cons first rest =>
      rw [isEntries] at single member
      obtain rfl : rest = [] := List.length_eq_zero_iff.mp (by simp at single; simpa using single)
      rw [List.mem_singleton.mp member]
      rfl

/-! ## Access order

The first `get` moves the first entry behind the others, so the iterator finds
the map changed when it goes on. -/

theorem get_moves (access : map.accessOrder = true) {first second : N × N}
    {rest : List (N × N)} (isEntries : map.entries = first :: second :: rest) :
    (map.get null first.1).2.modCount = map.modCount + 1 ∧
      (map.get null first.1).2.entries = second :: rest ++ [first] := by
  have distinct := map.distinct
  rw [isEntries, List.map_cons, List.nodup_cons] at distinct
  have member : first ∈ map.entries := by
    rw [isEntries]
    exact List.mem_cons_self
  have notLast : map.entries.getLast? ≠ some first := by
    rw [isEntries]
    intro isLast
    have behind : first ∈ second :: rest := by
      have last : (second :: rest).getLast? = some first := by
        simpa using isLast
      exact List.mem_of_getLast? last
    exact distinct.1 (List.mem_map_of_mem behind)
  have others : (first :: second :: rest).filter (fun other => other.1 ≠ first.1) =
      second :: rest := by
    rw [List.filter_cons_of_neg (by simp), List.filter_eq_self]
    intro other isOther
    have different : other.1 ≠ first.1 := fun same =>
      distinct.1 (same ▸ List.mem_map_of_mem isOther)
    simpa using different
  have found := find_entry map.distinct member
  unfold get
  split
  · rename_i missing
    rw [found] at missing
    cases missing
  · rename_i other isOther
    rw [found] at isOther
    cases isOther
    rw [if_pos ⟨access, notLast⟩]
    refine ⟨rfl, ?_⟩
    show moved first.1 first map.entries = _
    unfold moved
    rw [isEntries, others]

theorem mapToArray2_throws (access : map.accessOrder = true) {first second : N × N}
    {rest : List (N × N)} (isEntries : map.entries = first :: second :: rest) (fuel : Nat) :
    mapToArray2 null (fuel + 2) map =
      some (.error .concurrentModification, (map.get null first.1).2) := by
  obtain ⟨changed, -⟩ := @get_moves N _ null map access first second rest isEntries
  have isNext : map.nextKey ⟨some first.1, map.modCount⟩ =
      .ok (first.1, ⟨some second.1, map.modCount⟩) := by
    unfold nextKey
    rw [if_neg (by simp), isEntries]
    simp [successor]
  have stops : (map.get null first.1).2.nextKey ⟨some second.1, map.modCount⟩ =
      .error .concurrentModification := by
    unfold nextKey
    rw [changed, if_pos (by simp)]
  unfold mapToArray2 iterator
  rw [isEntries]
  show keyLoop null (fuel + 1 + 1) map ⟨some first.1, map.modCount⟩ = _
  unfold keyLoop
  dsimp only
  rw [isNext]
  dsimp only
  unfold keyLoop
  dsimp only
  rw [stops]

end Reading

/-- **`mapToArray2` only observes the map**: it returns the alternating list of
all entries in iteration order, and the entries stay as they are. -/
def OnlyObserved [DecidableEq N] (null : N) (map : JavaMap N) : Prop :=
  ∃ final, (∀ fuel > map.entries.length,
      mapToArray2 null fuel map = some (.ok (alternating map.entries), final)) ∧
    final.entries = map.entries

/-- **Exactly the maps in access order with two entries or more are not only
observed.** -/
theorem onlyObserved_iff [DecidableEq N] (null : N) (map : JavaMap N) :
    map.OnlyObserved null ↔ ¬ (map.accessOrder = true ∧ 2 ≤ map.entries.length) := by
  constructor
  · rintro ⟨final, returns, -⟩ ⟨access, several⟩
    match isEntries : map.entries with
    | [] =>
        rw [isEntries] at several
        simp at several
    | [only] =>
        rw [isEntries] at several
        simp at several
    | first :: second :: rest =>
        have returned := returns (map.entries.length + 2) (by omega)
        rw [mapToArray2_throws access isEntries] at returned
        cases returned
  · intro harmless
    have still : ∀ entry ∈ map.entries, map.get null entry.1 = (entry.2, map) := by
      intro entry member
      by_cases insertion : map.accessOrder = false
      · exact still_of_insertionOrder insertion member
      · have access : map.accessOrder = true := by simpa using insertion
        have single : map.entries.length ≤ 1 := by
          by_contra several
          exact harmless ⟨access, by omega⟩
        exact still_of_single single member
    exact ⟨map, fun fuel enough => mapToArray2_reads still enough, rfl⟩

/-- An access-ordered map of the two entries 1 ↦ 10 and 2 ↦ 20. -/
def twoEntriesInAccessOrder : JavaMap Nat :=
  ⟨[(1, 10), (2, 20)], true, 2, by decide⟩

/-- Rendering it throws, and leaves the entries in the other order. -/
theorem twoEntriesInAccessOrder_not_onlyObserved :
    twoEntriesInAccessOrder.mapToArray2 0 3 =
        some (.error .concurrentModification, ⟨[(2, 20), (1, 10)], true, 3, by decide⟩) ∧
      ¬ twoEntriesInAccessOrder.OnlyObserved 0 := by
  have thrown : twoEntriesInAccessOrder.mapToArray2 0 3 =
      some (.error .concurrentModification, ⟨[(2, 20), (1, 10)], true, 3, by decide⟩) := rfl
  refine ⟨thrown, ?_⟩
  rintro ⟨final, returns, -⟩
  have returned := returns 3 (by decide)
  rw [thrown] at returned
  cases returned

end JavaMap

/-! ## Sparse arrays -/

/-- What `mapToArray2` is called on. A sparse array has ascending keys. -/
inductive MapObject (N : Type) where
  | sparse (entries : List (N × N)) (distinct : (entries.map Prod.fst).Nodup)
  | map (map : JavaMap N)

variable {N : Type} [DecidableEq N]

/-- `SupplyAPI.sparseToMap`. -/
def sparseToMap (entries : List (N × N)) : JavaMap N :=
  entries.foldl (fun map entry => map.put entry.1 entry.2) .empty

/-- `FormatMap.mapToArray2`. -/
def mapToArray2 (null : N) (fuel : Nat) :
    MapObject N → Option (Except MapFault (List N) × MapObject N)
  | .sparse entries distinct =>
      ((sparseToMap entries).mapToArray2 null fuel).map fun made =>
        (made.1, .sparse entries distinct)
  | .map map => (map.mapToArray2 null fuel).map fun made => (made.1, .map made.2)

theorem sparseToMap_entries {entries : List (N × N)}
    (distinct : (entries.map Prod.fst).Nodup) :
    (sparseToMap entries).entries = entries ∧ (sparseToMap entries).accessOrder = false := by
  have along : ∀ (entries : List (N × N)) (map : JavaMap N), map.accessOrder = false →
      ((map.entries ++ entries).map Prod.fst).Nodup →
        (entries.foldl (fun map entry => map.put entry.1 entry.2) map).entries =
            map.entries ++ entries ∧
          (entries.foldl (fun map entry => map.put entry.1 entry.2) map).accessOrder = false := by
    intro entries
    induction entries with
    | nil =>
        intro map insertion _
        exact ⟨(List.append_nil _).symm, insertion⟩
    | cons entry rest inductionHypothesis =>
        intro map insertion distinct
        have absent : entry.1 ∉ map.entries.map Prod.fst := by
          rw [List.map_append, List.nodup_append] at distinct
          intro member
          exact distinct.2.2 entry.1 member entry.1 (by simp) rfl
        have isPut : (map.put entry.1 entry.2).entries = map.entries ++ [entry] := by
          unfold JavaMap.put
          rw [dif_neg absent]
        have stays : (map.put entry.1 entry.2).accessOrder = false := by
          unfold JavaMap.put
          rw [dif_neg absent]
          exact insertion
        have later := inductionHypothesis (map.put entry.1 entry.2) stays
          (by rw [isPut, List.append_assoc]; exact distinct)
        rw [isPut, List.append_assoc] at later
        exact later
  exact along entries .empty rfl distinct

/-- A sparse array is only observed. -/
theorem mapToArray2_sparse (null : N) {entries : List (N × N)}
    (distinct : (entries.map Prod.fst).Nodup) {fuel : Nat} (enough : entries.length < fuel) :
    mapToArray2 null fuel (.sparse entries distinct) =
      some (.ok (JavaMap.alternating entries), .sparse entries distinct) := by
  obtain ⟨isEntries, insertion⟩ := sparseToMap_entries distinct
  have reads : (sparseToMap entries).mapToArray2 null fuel =
      some (.ok (JavaMap.alternating (sparseToMap entries).entries), sparseToMap entries) :=
    JavaMap.mapToArray2_reads
      (fun _ member => JavaMap.still_of_insertionOrder insertion member)
      (by rw [isEntries]; exact enough)
  show ((sparseToMap entries).mapToArray2 null fuel).map _ = _
  rw [reads, isEntries]
  rfl

end AndroidPatch.Formats
