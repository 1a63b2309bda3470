import Mathlib.Data.List.Perm.Basic
import Mathlib.Data.List.Flatten

/-!
Contract: the arena that Dobby takes executable memory from.

Owns:
- `MemoryArena::AllocateChunk`: the first page with the permission that has room behind
  its cursor, else a new page;
- over every run of requests: chunks never overlap, and each lies in a page with the
  permission that was asked for.

Does **not** own: the operating system. The pages it answers with are a parameter, and
each is apart from the pages that it gave before.

Addresses are numbers: a page never goes round the end of the address space. A new page
is used without a look at its size, so a request is only served well if it is not larger
than a page.
-/

namespace AndroidPatch.Dobby

inductive MemoryPermission where
  | kNoAccess
  | kRead
  | kReadWrite
  | kReadWriteExecute
  | kReadExecute
deriving DecidableEq, Repr

structure MemoryChunk where
  address : Nat
  length : Nat
deriving DecidableEq, Repr

namespace MemoryChunk

def stop (chunk : MemoryChunk) : Nat := chunk.address + chunk.length

/-- No byte is in both. -/
def Apart (left right : MemoryChunk) : Prop :=
  left.stop ≤ right.address ∨ right.stop ≤ left.address

/-- Every byte of the chunk is in the other. -/
def Inside (chunk other : MemoryChunk) : Prop :=
  other.address ≤ chunk.address ∧ chunk.stop ≤ other.stop

theorem Apart.symm {left right : MemoryChunk} (apart : left.Apart right) : right.Apart left :=
  Or.symm apart

theorem Apart.of_inside {left right left' right' : MemoryChunk} (apart : left.Apart right)
    (inside : left'.Inside left) (inside' : right'.Inside right) : left'.Apart right' := by
  unfold Apart Inside at *
  omega

end MemoryChunk

structure PageChunk where
  page : MemoryChunk
  pageCursor : Nat
  permission : MemoryPermission
  chunks : List MemoryChunk
deriving DecidableEq, Repr

namespace PageChunk

/-- The condition of the search. The room is not used up to the last byte. -/
def hasRoom (page : PageChunk) (allocSize : Nat) (permission : MemoryPermission) : Bool :=
  page.permission = permission ∧ page.pageCursor + allocSize < page.page.address + page.page.length

/-- The chunk at the cursor. -/
def nextChunk (page : PageChunk) (allocSize : Nat) : MemoryChunk := ⟨page.pageCursor, allocSize⟩

def push (page : PageChunk) (allocSize : Nat) : PageChunk :=
  { page with
    chunks := page.chunks ++ [page.nextChunk allocSize]
    pageCursor := page.pageCursor + allocSize }

def new (address pageSize : Nat) (permission : MemoryPermission) : PageChunk where
  page := ⟨address, pageSize⟩
  pageCursor := address
  permission := permission
  chunks := []

end PageChunk

/-- The search, and the chunk that the page it stops at is asked for. -/
def allocateIn (allocSize : Nat) (permission : MemoryPermission) :
    List PageChunk → Option (List PageChunk × MemoryChunk)
  | [] => none
  | page :: rest =>
      if page.hasRoom allocSize permission then
        some (page.push allocSize :: rest, page.nextChunk allocSize)
      else
        (allocateIn allocSize permission rest).map fun found => (page :: found.1, found.2)

/-- `MemoryArena::AllocateChunk`. `mapped` is what `OSMemory::Allocate` would answer. -/
def allocateChunk (pageSize : Nat) (mapped : Option Nat) (pages : List PageChunk)
    (allocSize : Nat) (permission : MemoryPermission) :
    List PageChunk × Option MemoryChunk :=
  match allocateIn allocSize permission pages with
  | some found => (found.1, some found.2)
  | none =>
      match mapped with
      | none => (pages, none)
      | some address =>
          let newPage := PageChunk.new address pageSize permission
          (pages ++ [newPage.push allocSize], some (newPage.nextChunk allocSize))

/-- `MemoryArena::AllocateCodeChunk` -/
def allocateCodeChunk (pageSize : Nat) (mapped : Option Nat) (pages : List PageChunk)
    (allocSize : Nat) : List PageChunk × Option MemoryChunk :=
  allocateChunk pageSize mapped pages allocSize .kReadExecute

/-! ## Steps -/

/-- The search finds nothing, or the first page with room, which gets the chunk. -/
theorem allocateIn_cases (allocSize : Nat) (permission : MemoryPermission)
    (pages : List PageChunk) :
    allocateIn allocSize permission pages = none ∨
      ∃ before page after, pages = before ++ page :: after ∧
        page.hasRoom allocSize permission ∧
        allocateIn allocSize permission pages =
          some (before ++ page.push allocSize :: after, page.nextChunk allocSize) := by
  induction pages with
  | nil => exact .inl rfl
  | cons page rest inductionHypothesis =>
      unfold allocateIn
      by_cases room : page.hasRoom allocSize permission
      · rw [if_pos room]
        exact .inr ⟨[], page, rest, rfl, room, rfl⟩
      · rw [if_neg room]
        rcases inductionHypothesis with missed | ⟨before, found, after, rfl, room, isFound⟩
        · exact .inl (by rw [missed]; rfl)
        · exact .inr ⟨page :: before, found, after, rfl, room, by rw [isFound]; rfl⟩

/-- What an allocation does: it fails and changes nothing, or one page, old or new, has one
more chunk. -/
theorem allocateChunk_cases (pageSize : Nat) (mapped : Option Nat) (pages : List PageChunk)
    (allocSize : Nat) (permission : MemoryPermission) :
    (mapped = none ∧
      allocateChunk pageSize mapped pages allocSize permission = (pages, none)) ∨
    (∃ before page after, pages = before ++ page :: after ∧
      page.hasRoom allocSize permission ∧
      allocateChunk pageSize mapped pages allocSize permission =
        (before ++ page.push allocSize :: after, some (page.nextChunk allocSize))) ∨
    (∃ address, mapped = some address ∧ allocateIn allocSize permission pages = none ∧
      allocateChunk pageSize mapped pages allocSize permission =
        (pages ++ [(PageChunk.new address pageSize permission).push allocSize],
          some ⟨address, allocSize⟩)) := by
  unfold allocateChunk
  rcases allocateIn_cases allocSize permission pages with
    missed | ⟨before, page, after, isSplit, room, isFound⟩
  · rw [missed]
    cases mapped with
    | none => exact .inl ⟨rfl, rfl⟩
    | some address => exact .inr (.inr ⟨address, rfl, rfl, rfl⟩)
  · rw [isFound]
    exact .inr (.inl ⟨before, page, after, isSplit, room, rfl⟩)

/-! ## Invariant -/

/-- The chunks of a page lie one behind the other before its cursor. -/
structure PageChunk.Tiled (page : PageChunk) : Prop where
  started : page.page.address ≤ page.pageCursor
  inside : page.pageCursor ≤ page.page.stop
  chunks : ∀ chunk ∈ page.chunks,
    page.page.address ≤ chunk.address ∧ chunk.stop ≤ page.pageCursor
  apart : page.chunks.Pairwise MemoryChunk.Apart

theorem PageChunk.Tiled.new (address pageSize : Nat) (permission : MemoryPermission) :
    (PageChunk.new address pageSize permission).Tiled where
  started := Nat.le_refl _
  inside := Nat.le_add_right _ _
  chunks := by simp [PageChunk.new]
  apart := .nil

theorem PageChunk.Tiled.push {page : PageChunk} (tiled : page.Tiled) {allocSize : Nat}
    (fits : page.pageCursor + allocSize ≤ page.page.stop) : (page.push allocSize).Tiled where
  started := Nat.le_trans tiled.started (Nat.le_add_right _ _)
  inside := fits
  chunks := by
    intro chunk isChunk
    rcases List.mem_append.mp isChunk with isOld | isNew
    · have bounds := tiled.chunks chunk isOld
      exact ⟨bounds.1, Nat.le_trans bounds.2 (Nat.le_add_right _ _)⟩
    · obtain rfl := List.mem_singleton.mp isNew
      exact ⟨tiled.started, Nat.le_refl _⟩
  apart := by
    refine List.pairwise_append.mpr ⟨tiled.apart, List.pairwise_singleton .., ?_⟩
    intro chunk isOld other isNew
    obtain rfl := List.mem_singleton.mp isNew
    exact .inl (tiled.chunks chunk isOld).2

theorem PageChunk.hasRoom_iff (page : PageChunk) (allocSize : Nat)
    (permission : MemoryPermission) :
    page.hasRoom allocSize permission ↔
      page.permission = permission ∧ page.pageCursor + allocSize < page.page.stop := by
  unfold PageChunk.hasRoom MemoryChunk.stop
  simp

/-- Every page is tiled, and no page overlaps another. -/
structure ArenaInvariant (pages : List PageChunk) : Prop where
  tiled : ∀ page ∈ pages, page.Tiled
  apart : pages.Pairwise fun left right => left.page.Apart right.page

/-- All chunks that the arena handed out. -/
def allChunks (pages : List PageChunk) : List MemoryChunk := pages.flatMap (·.chunks)

theorem ArenaInvariant.nil : ArenaInvariant [] where
  tiled := by simp
  apart := .nil

theorem ArenaInvariant.inside {pages : List PageChunk} (invariant : ArenaInvariant pages)
    {page : PageChunk} (isPage : page ∈ pages) {chunk : MemoryChunk} (isChunk : chunk ∈ page.chunks) :
    chunk.Inside page.page := by
  have tiled := invariant.tiled page isPage
  have bounds := tiled.chunks chunk isChunk
  exact ⟨bounds.1, Nat.le_trans bounds.2 tiled.inside⟩

theorem ArenaInvariant.chunks_apart {pages : List PageChunk} (invariant : ArenaInvariant pages) :
    (allChunks pages).Pairwise MemoryChunk.Apart := by
  refine List.pairwise_flatMap.mpr ⟨fun page isPage => (invariant.tiled page isPage).apart, ?_⟩
  refine invariant.apart.imp_of_mem ?_
  intro left right isLeft isRight apart chunk isChunk other isOther
  exact apart.of_inside (invariant.inside isLeft isChunk) (invariant.inside isRight isOther)

/-- The page that the operating system would answer with is apart from the others. -/
def Fresh (pageSize : Nat) (mapped : Option Nat) (pages : List PageChunk) : Prop :=
  ∀ address ∈ mapped, ∀ page ∈ pages, page.page.Apart ⟨address, pageSize⟩

theorem ArenaInvariant.push {before after : List PageChunk} {page : PageChunk} {allocSize : Nat}
    (invariant : ArenaInvariant (before ++ page :: after))
    (fits : page.pageCursor + allocSize ≤ page.page.stop) :
    ArenaInvariant (before ++ page.push allocSize :: after) where
  tiled := by
    intro other isOther
    rcases List.mem_append.mp isOther with isBefore | isAfter
    · exact invariant.tiled other (List.mem_append_left _ isBefore)
    rcases List.mem_cons.mp isAfter with rfl | isAfter
    · exact (invariant.tiled page (by simp)).push fits
    · exact invariant.tiled other (by simp [isAfter])
  apart := by
    have apart := invariant.apart
    rw [List.pairwise_append, List.pairwise_cons] at apart ⊢
    refine ⟨apart.1, ⟨apart.2.1.1, apart.2.1.2⟩, ?_⟩
    intro left isLeft right isRight
    rcases List.mem_cons.mp isRight with rfl | isRight
    · exact apart.2.2 left isLeft page List.mem_cons_self
    · exact apart.2.2 left isLeft right (List.mem_cons_of_mem _ isRight)

theorem ArenaInvariant.append {pages : List PageChunk} (invariant : ArenaInvariant pages)
    {page : PageChunk} (tiled : page.Tiled) (fresh : ∀ other ∈ pages, other.page.Apart page.page) :
    ArenaInvariant (pages ++ [page]) where
  tiled := by
    intro other isOther
    rcases List.mem_append.mp isOther with isOld | isNew
    · exact invariant.tiled other isOld
    · rwa [List.mem_singleton.mp isNew]
  apart := by
    refine List.pairwise_append.mpr ⟨invariant.apart, List.pairwise_singleton .., ?_⟩
    intro left isLeft right isRight
    rw [List.mem_singleton.mp isRight]
    exact fresh left isLeft

/-- An allocation keeps the invariant. A chunk that it hands out is listed with the others
and lies in a page with its permission. -/
theorem allocateChunk_spec {pageSize : Nat} {mapped : Option Nat} {pages : List PageChunk}
    {allocSize : Nat} (permission : MemoryPermission) (invariant : ArenaInvariant pages)
    (fresh : Fresh pageSize mapped pages) (small : allocSize ≤ pageSize) :
    let allocated := allocateChunk pageSize mapped pages allocSize permission
    ArenaInvariant allocated.1 ∧
      (allChunks allocated.1).Perm (allChunks pages ++ allocated.2.toList) ∧
      (∀ page ∈ pages, ∃ page' ∈ allocated.1,
        page'.page = page.page ∧ page'.permission = page.permission) ∧
      ∀ chunk ∈ allocated.2, chunk.length = allocSize ∧
        ∃ page ∈ allocated.1, page.permission = permission ∧ chunk.Inside page.page := by
  rcases allocateChunk_cases pageSize mapped pages allocSize permission with
    ⟨-, isAllocated⟩ | ⟨before, page, after, rfl, room, isAllocated⟩ |
    ⟨address, isMapped, -, isAllocated⟩
  · simp only [isAllocated]
    refine ⟨invariant, by simp, fun page isPage => ⟨page, isPage, rfl, rfl⟩, by simp⟩
  · simp only [isAllocated]
    obtain ⟨isPermission, fits⟩ := (page.hasRoom_iff allocSize permission).mp room
    have started := (invariant.tiled page (by simp)).started
    refine ⟨invariant.push (Nat.le_of_lt fits), ?_, ?_, ?_⟩
    · simp only [allChunks, List.flatMap_append, List.flatMap_cons, PageChunk.push,
        Option.toList_some, List.append_assoc]
      refine List.Perm.append_left _ (List.Perm.append_left _ ?_)
      exact List.perm_append_comm
    · intro other isOther
      rcases List.mem_append.mp isOther with isBefore | isAfter
      · exact ⟨other, List.mem_append_left _ isBefore, rfl, rfl⟩
      rcases List.mem_cons.mp isAfter with rfl | isAfter
      · exact ⟨other.push allocSize, by simp, rfl, rfl⟩
      · exact ⟨other, by simp [isAfter], rfl, rfl⟩
    · intro chunk isChunk
      obtain rfl := Option.some.inj isChunk
      exact ⟨rfl, page.push allocSize, by simp, isPermission, started, Nat.le_of_lt fits⟩
  · simp only [isAllocated]
    refine ⟨invariant.append ((PageChunk.Tiled.new ..).push ?_) (fresh address isMapped),
      ?_, ?_, ?_⟩
    · exact Nat.add_le_add_left small address
    · simp [allChunks, PageChunk.push, PageChunk.new, PageChunk.nextChunk]
    · exact fun page isPage => ⟨page, List.mem_append_left _ isPage, rfl, rfl⟩
    · intro chunk isChunk
      obtain rfl := Option.some.inj isChunk
      exact ⟨rfl, _, List.mem_append_right _ List.mem_cons_self, rfl, Nat.le_refl _,
        Nat.add_le_add_left small address⟩

/-! ## Runs -/

/-- A call of `AllocateChunk`, with the page that would be mapped for it. -/
structure Request where
  allocSize : Nat
  permission : MemoryPermission
  mapped : Option Nat
deriving DecidableEq, Repr

/-- The calls one after the other, and the chunks they were answered with. -/
def serve (pageSize : Nat) :
    List PageChunk → List Request → List PageChunk × List (Request × MemoryChunk)
  | pages, [] => (pages, [])
  | pages, request :: rest =>
      let allocated :=
        allocateChunk pageSize request.mapped pages request.allocSize request.permission
      let later := serve pageSize allocated.1 rest
      (later.1, allocated.2.toList.map (request, ·) ++ later.2)

/-- No request is larger than a page, and every page is apart from those before it. -/
def Proper (pageSize : Nat) : List PageChunk → List Request → Prop
  | _, [] => True
  | pages, request :: rest =>
      request.allocSize ≤ pageSize ∧ Fresh pageSize request.mapped pages ∧
        Proper pageSize
          (allocateChunk pageSize request.mapped pages request.allocSize request.permission).1 rest

/-- The chunk is what the request asked for. -/
def Answers (pages : List PageChunk) (request : Request) (chunk : MemoryChunk) : Prop :=
  chunk.length = request.allocSize ∧
    ∃ page ∈ pages, page.permission = request.permission ∧ chunk.Inside page.page

theorem serve_spec {pageSize : Nat} {pages : List PageChunk} {requests : List Request}
    (invariant : ArenaInvariant pages) (proper : Proper pageSize pages requests) :
    let served := serve pageSize pages requests
    ArenaInvariant served.1 ∧
      (allChunks served.1).Perm (allChunks pages ++ served.2.map Prod.snd) ∧
      (∀ page ∈ pages, ∃ page' ∈ served.1,
        page'.page = page.page ∧ page'.permission = page.permission) ∧
      ∀ granted ∈ served.2, Answers served.1 granted.1 granted.2 := by
  induction requests generalizing pages with
  | nil => exact ⟨invariant, by simp [serve], fun page isPage => ⟨page, isPage, rfl, rfl⟩,
      by simp [serve]⟩
  | cons request rest inductionHypothesis =>
      obtain ⟨small, fresh, proper⟩ := proper
      obtain ⟨invariant', listed, kept, answered⟩ :=
        allocateChunk_spec request.permission invariant fresh small
      obtain ⟨invariant'', listed', kept', answered'⟩ := inductionHypothesis invariant' proper
      refine ⟨invariant'', ?_, ?_, ?_⟩
      · have same (chunks : List MemoryChunk) :
            (chunks.map (request, ·)).map Prod.snd = chunks := by
          rw [List.map_map]
          exact List.map_id chunks
        simp only [serve, List.map_append, same]
        rw [← List.append_assoc]
        exact listed'.trans (listed.append_right _)
      · intro page isPage
        obtain ⟨page', isPage', isChunk, isPermission⟩ := kept page isPage
        obtain ⟨page'', isPage'', isChunk', isPermission'⟩ := kept' page' isPage'
        exact ⟨page'', isPage'', isChunk'.trans isChunk, isPermission'.trans isPermission⟩
      · intro granted isGranted
        rcases List.mem_append.mp isGranted with isNow | isLater
        · obtain ⟨chunk, isChunk, rfl⟩ := List.mem_map.mp isNow
          obtain ⟨isLength, page, isPage, isPermission, inside⟩ :=
            answered chunk (Option.mem_toList.mp isChunk)
          obtain ⟨page', isPage', same, samePermission⟩ := kept' page isPage
          exact ⟨isLength, page', isPage', samePermission.trans isPermission, by rwa [same]⟩
        · exact answered' granted isLater

end AndroidPatch.Dobby
