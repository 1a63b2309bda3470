import AndroidPatch.Dobby.CodePatch
import AndroidPatch.Dobby.Interceptor
import AndroidPatch.Dobby.Arm64.Trampoline

/-!
Contract: hooking functions and taking the hooks back.

Owns:
- `DobbyHook` with the routing that it builds, and `DobbyDestroy`;
- over every run of them: which trampolines stand, that what they overwrote can be put back,
  and that code that was handed out is not touched again.

Does **not** own: the ring of entries, which is the list it stands for
(`interceptor_refines_list`); the plugin for near trampolines, which is off.

The function that is hooked must be mapped and lie outside the arena, and its first bytes
are those of another hooked function or apart from them.
-/

namespace AndroidPatch.Dobby.Arm64

open Library.A64 Library.ByteMemory

/-- The process with the state of Dobby in it. -/
structure World where
  process : Process
  pages : List PageChunk
  entries : List HookEntry

variable (platform : Platform) (debug : Bool)

/-- `mmap` of a new page, which is full of zeros. -/
def mmap (process : Process) (address : Nat) (permission : MemoryPermission) : Process where
  bytes other :=
    if platform.pageOf other = address / platform.pageSize then 0 else process.bytes other
  access := Function.update process.access (address / platform.pageSize) (some permission)

/-- `MemoryArena::AllocateCodeChunk`, with the page that is mapped for it if need be. -/
def allocateCode (mapped : Option Nat) (world : World) (allocSize : Nat) :
    World × Option MemoryChunk :=
  let allocated := allocateCodeChunk platform.pageSize mapped world.pages allocSize
  let process :=
    match allocateIn allocSize .kReadExecute world.pages, mapped with
    | none, some address => mmap platform world.process address .kReadExecute
    | _, _ => world.process
  ({ world with process := process, pages := allocated.1 }, allocated.2)

/-- `AssemblyCodeBuilder::FinalizeFromTurboAssembler` without a fixed address. Its caller
does not look whether there is a chunk. -/
def finalizeFromTurboAssembler (mapped : Option Nat) (world : World) (buffer : List Word) :
    Option (World × MemoryChunk) :=
  -- extra bytes for align needed
  let allocated := allocateCode platform mapped world (4 * buffer.length + 4)
  allocated.2.bind fun chunk =>
    (codePatch platform allocated.1.process (BitVec.ofNat 64 chunk.address) (bytesOf buffer)).map
      fun process => ({ allocated.1 with process := process }, chunk)

inductive HookResult where
  | failed
  | success (originCall : Addr)
deriving DecidableEq, Repr

/-- The entry that the routing fills in. -/
def hookEntry (world : World) (address replaceCall relocated : Addr) (size : Nat) : HookEntry where
  id := world.entries.length
  type := .kFunctionInlineHook
  targetAddress := address
  trampolineTarget := replaceCall
  relocatedOriginInstructions := relocated
  originChunk := if relocated = 0 then [] else read world.process.bytes address size

/-- `DobbyHook`. A crash is `none`. -/
def dobbyHook (mapped : Option Nat) (world : World) (address replaceCall : Addr) :
    Option (World × HookResult) :=
  if address = 0 then some (world, .failed)
  else if (world.entries.find? (·.targetAddress = address)).any
      (·.trampolineTarget = replaceCall) then
    some (world, .failed)
  else
    let trampoline := generateNormalTrampolineBuffer address replaceCall
    let origin := readWords world.process.bytes address trampoline.length
    (genRelocateCodeAndBranch debug address origin).bind fun code =>
    (finalizeFromTurboAssembler platform mapped world code).bind fun (world, chunk) =>
      let relocated := BitVec.ofNat 64 chunk.address
      let entry := hookEntry world address replaceCall relocated (4 * trampoline.length)
      (codePatch platform world.process address (bytesOf trampoline)).map fun process =>
        ({ world with process := process, entries := entry :: world.entries }, .success relocated)

/-- `DobbyDestroy` and whether it found the hook. -/
def dobbyDestroy (world : World) (address : Addr) : Option (World × Bool) :=
  match world.entries.find? (·.targetAddress = address) with
  | none => some (world, false)
  | some entry =>
      (codePatch platform world.process address entry.originChunk).map fun process =>
        ({ world with
          process := process
          entries := world.entries.eraseP (·.targetAddress = address) }, true)

/-! ## Pages of the arena -/

/-- The addresses of a chunk. -/
def chunkBytes (chunk : MemoryChunk) : Set Addr :=
  {address | chunk.address ≤ address.toNat ∧ address.toNat < chunk.stop}

/-- The addresses of the pages of the arena. -/
def arenaBytes (pages : List PageChunk) : Set Addr :=
  {address | ∃ page ∈ pages, address ∈ chunkBytes page.page}

variable {platform}

theorem mem_chunkBytes (chunk : MemoryChunk) (address : Addr) :
    address ∈ chunkBytes chunk ↔ chunk.address ≤ address.toNat ∧ address.toNat < chunk.stop :=
  Iff.rfl

theorem range_chunk {chunk : MemoryChunk} (fits : chunk.stop ≤ 2 ^ 64) {length : Nat}
    (short : length ≤ chunk.length) :
    range (BitVec.ofNat 64 chunk.address) length ⊆ chunkBytes chunk := by
  intro address inside
  rw [mem_range] at inside
  have found := congrArg BitVec.toNat (add_offset (BitVec.ofNat 64 chunk.address) address)
  rw [BitVec.toNat_add, BitVec.toNat_ofNat, BitVec.toNat_ofNat] at found
  unfold MemoryChunk.stop at fits
  rw [mem_chunkBytes, MemoryChunk.stop]
  omega

/-- The page of the arena is a page of the process that is mapped. -/
structure PageMapped (platform : Platform) (process : Process) (page : PageChunk) : Prop where
  length : page.page.length = platform.pageSize
  aligned : platform.pageSize ∣ page.page.address
  positive : 0 < page.page.address
  fits : page.page.stop ≤ 2 ^ 64
  mapped : process.access (page.page.address / platform.pageSize) ≠ none

theorem PageMapped.congr {process : Process} {page page' : PageChunk}
    (pageMapped : PageMapped platform process page) (same : page'.page = page.page) :
    PageMapped platform process page' where
  length := same ▸ pageMapped.length
  aligned := same ▸ pageMapped.aligned
  positive := same ▸ pageMapped.positive
  fits := same ▸ pageMapped.fits
  mapped := same ▸ pageMapped.mapped

/-- The address is mapped. -/
def Mapped (platform : Platform) (process : Process) (address : Addr) : Prop :=
  process.access (platform.pageOf address) ≠ none

/-- What `mmap` promises: a whole page where nothing was mapped. -/
structure Grant (platform : Platform) (process : Process) (address : Nat) : Prop where
  aligned : platform.pageSize ∣ address
  positive : 0 < address
  fits : address + platform.pageSize ≤ 2 ^ 64
  unmapped : process.access (address / platform.pageSize) = none

/-- The addresses of a page are those with its number. -/
theorem mem_page_iff (chunk : MemoryChunk) (isLength : chunk.length = platform.pageSize)
    (aligned : platform.pageSize ∣ chunk.address) (address : Addr) :
    address ∈ chunkBytes chunk ↔ platform.pageOf address = chunk.address / platform.pageSize := by
  obtain ⟨number, isNumber⟩ := aligned
  have split := Nat.div_add_mod address.toNat platform.pageSize
  have below := Nat.mod_lt address.toNat platform.pageSize_pos
  rw [mem_chunkBytes, MemoryChunk.stop, isLength, isNumber,
    Nat.mul_div_cancel_left _ platform.pageSize_pos, Platform.pageOf]
  constructor
  · intro inside
    refine Nat.div_eq_of_lt_le ?_ ?_
    · rw [Nat.mul_comm]
      exact inside.1
    · rw [Nat.succ_mul, Nat.mul_comm]
      exact inside.2
  · intro isPage
    rw [isPage] at split
    omega

/-- A new page is apart from those of the arena, which are mapped. -/
theorem Grant.fresh {process : Process} {pages : List PageChunk}
    (mappedPages : ∀ page ∈ pages, PageMapped platform process page) {mapped : Option Nat}
    (granted : ∀ address ∈ mapped, Grant platform process address) :
    Fresh platform.pageSize mapped pages := by
  intro address isAddress page isPage
  have grant := granted address isAddress
  have pageMapped := mappedPages page isPage
  obtain ⟨number, isNumber⟩ := grant.aligned
  obtain ⟨number', isNumber'⟩ := pageMapped.aligned
  have unmapped := grant.unmapped
  have isMapped := pageMapped.mapped
  rw [isNumber, Nat.mul_div_cancel_left _ platform.pageSize_pos] at unmapped
  rw [isNumber', Nat.mul_div_cancel_left _ platform.pageSize_pos] at isMapped
  have different : number' ≠ number := by
    rintro rfl
    exact isMapped unmapped
  unfold MemoryChunk.Apart MemoryChunk.stop
  rw [pageMapped.length, isNumber, isNumber']
  rcases Nat.lt_or_gt_of_ne different with before | behind
  · exact .inl (Nat.mul_le_mul_left platform.pageSize before)
  · exact .inr (Nat.mul_le_mul_left platform.pageSize behind)

/-! ## Allocation -/

/-- What an allocation of code does to the world. -/
structure Allocated (platform : Platform) (world world' : World) (chunk : MemoryChunk) : Prop where
  arena : ArenaInvariant world'.pages
  pages : ∀ page ∈ world'.pages, PageMapped platform world'.process page
  chunks : (allChunks world'.pages).Perm (allChunks world.pages ++ [chunk])
  inside : ∃ page ∈ world'.pages, chunk.Inside page.page
  grown : arenaBytes world.pages ⊆ arenaBytes world'.pages
  new : ∀ address ∈ arenaBytes world'.pages,
    address ∈ arenaBytes world.pages ∨ ¬ Mapped platform world.process address
  bytes : ∀ address, Mapped platform world.process address →
    world'.process.bytes address = world.process.bytes address
  outside : SameOutside (arenaBytes world'.pages) world.process.bytes world'.process.bytes
  mapped : ∀ address, Mapped platform world.process address →
    Mapped platform world'.process address
  entries : world'.entries = world.entries

theorem allocateCode_cases (platform : Platform) (mapped : Option Nat) (world : World)
    (allocSize : Nat) :
    allocateCode platform mapped world allocSize = (world, none) ∨
    (∃ before page after, world.pages = before ++ page :: after ∧
      page.pageCursor + allocSize < page.page.stop ∧
      allocateCode platform mapped world allocSize =
        ({ world with pages := before ++ page.push allocSize :: after },
          some (page.nextChunk allocSize))) ∨
    (∃ address, mapped = some address ∧
      allocateCode platform mapped world allocSize =
        ({ world with
            process := mmap platform world.process address .kReadExecute
            pages := world.pages ++
              [(PageChunk.new address platform.pageSize .kReadExecute).push allocSize] },
          some ⟨address, allocSize⟩)) := by
  unfold allocateCode allocateCodeChunk allocateChunk
  rcases allocateIn_cases allocSize .kReadExecute world.pages with
    missed | ⟨before, page, after, isSplit, room, isFound⟩
  · rw [missed]
    cases mapped with
    | none => exact .inl rfl
    | some address => exact .inr (.inr ⟨address, rfl, rfl⟩)
  · rw [isFound]
    exact .inr (.inl ⟨before, page, after, isSplit, ((page.hasRoom_iff ..).mp room).2, rfl⟩)

theorem allocateCode_allocated {mapped : Option Nat} {world world' : World} {allocSize : Nat}
    {chunk : MemoryChunk} (arena : ArenaInvariant world.pages)
    (pages : ∀ page ∈ world.pages, PageMapped platform world.process page)
    (granted : ∀ address ∈ mapped, Grant platform world.process address)
    (small : allocSize ≤ platform.pageSize)
    (allocated : allocateCode platform mapped world allocSize = (world', some chunk)) :
    Allocated platform world world' chunk ∧ chunk.length = allocSize := by
  have isChunk : (allocateCodeChunk platform.pageSize mapped world.pages allocSize).2 =
      some chunk := congrArg Prod.snd allocated
  have isPages : (allocateCodeChunk platform.pageSize mapped world.pages allocSize).1 =
      world'.pages := congrArg (fun result => result.1.pages) allocated
  obtain ⟨arena', chunks, kept, answered⟩ :=
    allocateChunk_spec .kReadExecute arena (Grant.fresh pages granted) small
  rw [allocateCodeChunk] at isChunk isPages
  simp only [isChunk, isPages] at arena' chunks kept answered
  obtain ⟨isLength, page, isPage, -, inside⟩ := answered chunk rfl
  have grown : arenaBytes world.pages ⊆ arenaBytes world'.pages := by
    rintro address ⟨page, isPage, isInside⟩
    obtain ⟨page', isPage', same, -⟩ := kept page isPage
    exact ⟨page', isPage', by rwa [same]⟩
  refine ⟨?_, isLength⟩
  rcases allocateCode_cases platform mapped world allocSize with
    isResult | ⟨before, page, after, isSplit, room, isResult⟩ | ⟨address, isMapped, isResult⟩
  · rw [allocated] at isResult
    simp at isResult
  · obtain ⟨isWorld, -⟩ := Prod.mk.inj (allocated.symm.trans isResult)
    subst isWorld
    -- the page that was pushed to is the page that it was
    have old : ∀ page' ∈ before ++ page.push allocSize :: after, ∃ page ∈ world.pages,
        page'.page = page.page := by
      intro page' isPage'
      rw [isSplit]
      rcases List.mem_append.mp isPage' with isBefore | isAfter
      · exact ⟨page', List.mem_append_left _ isBefore, rfl⟩
      rcases List.mem_cons.mp isAfter with rfl | isAfter
      · exact ⟨page, by simp, rfl⟩
      · exact ⟨page', by simp [isAfter], rfl⟩
    refine ⟨arena', ?_, chunks, ⟨_, isPage, inside⟩, grown, ?_, fun _ _ => rfl, fun _ _ => rfl,
      fun _ isMapped => isMapped, rfl⟩
    · intro page' isPage'
      obtain ⟨page, isPage, same⟩ := old page' isPage'
      exact (pages page isPage).congr same
    · rintro address ⟨page', isPage', isInside⟩
      obtain ⟨page, isPage, same⟩ := old page' isPage'
      exact .inl ⟨page, isPage, by rwa [← same]⟩
  · obtain ⟨isWorld, -⟩ := Prod.mk.inj (allocated.symm.trans isResult)
    subst isWorld
    have grant := granted address isMapped
    have mapped (number : Nat) (isMapped : world.process.access number ≠ none) :
        (mmap platform world.process address .kReadExecute).access number ≠ none := by
      simp only [mmap, Function.update_apply]
      split
      · simp
      · exact isMapped
    have numbered (other : Addr) :=
      mem_page_iff ⟨address, platform.pageSize⟩ rfl grant.aligned other
    refine ⟨arena', ?_, chunks, ⟨_, isPage, inside⟩, grown, ?_, ?_, ?_,
      fun other => mapped (platform.pageOf other), rfl⟩
    · intro page' isPage'
      rcases List.mem_append.mp isPage' with isOld | isNew
      · have pageMapped := pages page' isOld
        exact { pageMapped with mapped := mapped _ pageMapped.mapped }
      · rw [List.mem_singleton.mp isNew]
        exact ⟨rfl, grant.aligned, grant.positive, grant.fits, by simp [mmap, PageChunk.push,
          PageChunk.new]⟩
    · rintro other ⟨page', isPage', isInside⟩
      rcases List.mem_append.mp isPage' with isOld | isNew
      · exact .inl ⟨page', isOld, isInside⟩
      · rw [List.mem_singleton.mp isNew] at isInside
        refine .inr fun isMapped => isMapped ?_
        rw [(numbered other).mp isInside]
        exact grant.unmapped
    · intro other isMapped
      refine if_neg fun isNew => isMapped ?_
      rw [isNew]
      exact grant.unmapped
    · intro other isOutside
      refine if_neg fun isNew => isOutside ?_
      exact ⟨_, List.mem_append_right _ List.mem_cons_self, (numbered other).mpr isNew⟩

theorem finalize_allocated {mapped : Option Nat} {world world' : World} {buffer : List Word}
    {chunk : MemoryChunk} (arena : ArenaInvariant world.pages)
    (pages : ∀ page ∈ world.pages, PageMapped platform world.process page)
    (granted : ∀ address ∈ mapped, Grant platform world.process address)
    (small : 4 * buffer.length + 4 ≤ platform.pageSize)
    (finalized : finalizeFromTurboAssembler platform mapped world buffer = some (world', chunk)) :
    ∃ middle, Allocated platform world middle chunk ∧ chunk.length = 4 * buffer.length + 4 ∧
      world' = { middle with
        process := patched platform middle.process (BitVec.ofNat 64 chunk.address)
          (bytesOf buffer) } := by
  obtain ⟨found, isFound, patching⟩ := Option.bind_eq_some_iff.mp finalized
  obtain ⟨process, isPatched, isResult⟩ := Option.map_eq_some_iff.mp patching
  obtain ⟨rfl, rfl⟩ := Prod.mk.inj isResult
  obtain ⟨-, rfl⟩ := codePatch_eq_some_iff.mp isPatched
  obtain ⟨allocated, isLength⟩ := allocateCode_allocated arena pages granted small
    (Prod.ext rfl isFound)
  exact ⟨_, allocated, isLength, rfl⟩

/-! ## Layers -/

def trampolineOf (entry : HookEntry) : List Word :=
  generateNormalTrampolineBuffer entry.targetAddress entry.trampolineTarget

/-- The bytes that the hook overwrites. -/
def hookedBytes (entry : HookEntry) : Set Addr :=
  range entry.targetAddress entry.originChunk.length

/-- The memory with the hooks taken back, newest first. -/
def unwind : List HookEntry → Memory 64 → Memory 64
  | [], memory => memory
  | entry :: rest, memory => unwind rest (write memory entry.targetAddress entry.originChunk)

/-- The trampoline of every hook stands once the newer ones are taken back. -/
def Layered : Memory 64 → List HookEntry → Prop
  | _, [] => True
  | memory, entry :: rest =>
      Holds memory entry.targetAddress (trampolineOf entry) ∧
        Layered (write memory entry.targetAddress entry.originChunk) rest

/-- The hooks are of the same function, or no byte is overwritten by both. -/
def Separate (entry other : HookEntry) : Prop :=
  entry.targetAddress = other.targetAddress ∨
    ∀ address ∈ hookedBytes entry, address ∉ hookedBytes other

/-- As many bytes were saved as the trampoline is long. -/
def SavedWhole (entry : HookEntry) : Prop :=
  entry.originChunk.length = 4 * (trampolineOf entry).length

theorem length_trampoline_le (fromAddr toAddr : Addr) :
    (generateNormalTrampolineBuffer fromAddr toAddr).length ≤ 4 := by
  unfold generateNormalTrampolineBuffer
  split
  · rw [TurboAssembler.br, TurboAssembler.emit, adrpAdd_buffer]
    simp [TurboAssembler.new]
  · rw [literalLdrBranch_eq]
    simp [TurboAssembler.new]

theorem trampoline_fits (entry : HookEntry) : 4 * (trampolineOf entry).length ≤ 2 ^ 64 := by
  have short := length_trampoline_le entry.targetAddress entry.trampolineTarget
  unfold trampolineOf
  omega

theorem unwind_append (entries rest : List HookEntry) (memory : Memory 64) :
    unwind (entries ++ rest) memory = unwind rest (unwind entries memory) := by
  induction entries generalizing memory with
  | nil => rfl
  | cons entry entries inductionHypothesis => exact inductionHypothesis _

theorem unwind_sameOutside (entries : List HookEntry) {unlike : Set Addr}
    {memory memory' : Memory 64} (same : SameOutside unlike memory memory') :
    SameOutside unlike (unwind entries memory) (unwind entries memory') := by
  induction entries generalizing memory memory' with
  | nil => exact same
  | cons entry rest inductionHypothesis => exact inductionHypothesis (same.write _ _)

/-- Only the bytes that hooks overwrite matter for the layers. -/
theorem Layered.congr {entries : List HookEntry} {unlike : Set Addr} {memory memory' : Memory 64}
    (layered : Layered memory entries) (same : SameOutside unlike memory memory')
    (apart : ∀ entry ∈ entries, SavedWhole entry ∧ ∀ address ∈ hookedBytes entry, address ∉ unlike) :
    Layered memory' entries := by
  induction entries generalizing memory memory' with
  | nil => trivial
  | cons entry rest inductionHypothesis =>
      obtain ⟨saved, outside⟩ := apart entry List.mem_cons_self
      refine ⟨layered.1.congr (trampoline_fits _) ?_, inductionHypothesis layered.2 (same.write _ _) ?_⟩
      · intro address inside
        apply same
        apply outside
        rwa [hookedBytes, saved]
      · exact fun other isOther => apart other (List.mem_cons_of_mem _ isOther)

/-- A store apart from the hooks can be made before or after they are taken back. -/
theorem unwind_write {entries : List HookEntry} {start : Addr} {bytes : List (BitVec 8)}
    (apart : ∀ entry ∈ entries, ∀ address ∈ hookedBytes entry, address ∉ range start bytes.length)
    (memory : Memory 64) :
    unwind entries (write memory start bytes) = write (unwind entries memory) start bytes := by
  induction entries generalizing memory with
  | nil => rfl
  | cons entry rest inductionHypothesis =>
      rw [unwind, unwind, ← write_comm _ (apart entry List.mem_cons_self)]
      exact inductionHypothesis (fun other isOther => apart other (List.mem_cons_of_mem _ isOther)) _

/-- A hook is taken back while newer ones stand. -/
theorem Layered.remove {before after : List HookEntry} {entry : HookEntry} {memory : Memory 64}
    (layered : Layered memory (before ++ entry :: after))
    (apart : ∀ other ∈ before, SavedWhole other ∧
      ∀ address ∈ hookedBytes other, address ∉ hookedBytes entry) :
    Layered (write memory entry.targetAddress entry.originChunk) (before ++ after) := by
  induction before generalizing memory with
  | nil => exact layered.2
  | cons other before inductionHypothesis =>
      obtain ⟨saved, outside⟩ := apart other List.mem_cons_self
      refine ⟨layered.1.write (trampoline_fits _) ?_, ?_⟩
      · intro address inside
        apply outside
        rwa [hookedBytes, saved]
      · rw [← write_comm _ outside]
        exact inductionHypothesis layered.2 fun more isMore => apart more (List.mem_cons_of_mem _ isMore)

/-- The trampoline of a hook that no newer one is in the way of. -/
theorem Layered.holds {before after : List HookEntry} {entry : HookEntry} {memory : Memory 64}
    (layered : Layered memory (before ++ entry :: after)) (saved : SavedWhole entry)
    (apart : ∀ other ∈ before, ∀ address ∈ hookedBytes other, address ∉ hookedBytes entry) :
    Holds memory entry.targetAddress (trampolineOf entry) := by
  induction before generalizing memory with
  | nil => exact layered.1
  | cons other before inductionHypothesis =>
      have later := inductionHypothesis layered.2 fun more isMore =>
        apart more (List.mem_cons_of_mem _ isMore)
      refine later.congr (trampoline_fits _) ?_
      intro address inside
      rw [write_of_not_mem]
      intro isOther
      apply apart other List.mem_cons_self address isOther
      rwa [hookedBytes, saved]

/-! ## Invariant -/

/-- What holds between the calls. `original` is the memory before the first hook. -/
structure Invariant (platform : Platform) (original : Memory 64) (world : World) : Prop where
  arena : ArenaInvariant world.pages
  pages : ∀ page ∈ world.pages, PageMapped platform world.process page
  saved : ∀ entry ∈ world.entries, SavedWhole entry
  outside : ∀ entry ∈ world.entries, ∀ address ∈ hookedBytes entry,
    Mapped platform world.process address ∧ address ∉ arenaBytes world.pages
  separate : world.entries.Pairwise Separate
  layered : Layered world.process.bytes world.entries
  restored : SameOutside (arenaBytes world.pages) original (unwind world.entries world.process.bytes)

/-- Chunks that were handed out stay so, and nothing in them changes. -/
def Intact (world world' : World) : Prop :=
  allChunks world.pages ⊆ allChunks world'.pages ∧
    ∀ chunk ∈ allChunks world.pages, ∀ address ∈ chunkBytes chunk,
      world'.process.bytes address = world.process.bytes address

theorem Intact.refl (world : World) : Intact world world :=
  ⟨List.Subset.refl _, fun _ _ _ _ => rfl⟩

theorem Intact.trans {first second third : World} (early : Intact first second)
    (late : Intact second third) : Intact first third :=
  ⟨List.Subset.trans early.1 late.1, fun chunk isChunk address inside =>
    (late.2 chunk (early.1 isChunk) address inside).trans (early.2 chunk isChunk address inside)⟩

/-- The bytes of chunks are bytes of pages. -/
theorem ArenaInvariant.mem_arenaBytes {pages : List PageChunk} (arena : ArenaInvariant pages)
    {chunk : MemoryChunk} (isChunk : chunk ∈ allChunks pages) :
    chunkBytes chunk ⊆ arenaBytes pages := by
  obtain ⟨page, isPage, isChunk⟩ := List.mem_flatMap.mp isChunk
  intro address inside
  have within := arena.inside isPage isChunk
  exact ⟨page, isPage, Nat.le_trans within.1 inside.1, Nat.lt_of_lt_of_le inside.2 within.2⟩

theorem PageMapped.mapped_of_mem {process : Process} {page : PageChunk}
    (pageMapped : PageMapped platform process page) {address : Addr}
    (inside : address ∈ chunkBytes page.page) : Mapped platform process address := by
  unfold Mapped
  rw [(mem_page_iff page.page pageMapped.length pageMapped.aligned address).mp inside]
  exact pageMapped.mapped

theorem mapped_patched {process : Process} {address other : Addr} {buffer : List (BitVec 8)}
    (isMapped : Mapped platform process other) :
    Mapped platform (patched platform process address buffer) other := by
  unfold Mapped patched at *
  simp only [Function.update_apply]
  split
  case isTrue same =>
    rw [← same]
    simpa using isMapped
  case isFalse => exact isMapped

theorem PageMapped.patched {process : Process} {page : PageChunk}
    (pageMapped : PageMapped platform process page) (address : Addr) (buffer : List (BitVec 8)) :
    PageMapped platform (patched platform process address buffer) page := by
  refine { pageMapped with mapped := ?_ }
  unfold Dobby.patched
  simp only [Function.update_apply]
  split
  case isTrue same =>
    rw [← same]
    simpa using pageMapped.mapped
  case isFalse => exact pageMapped.mapped

/-- The trampoline of the newest hook of a function stands. -/
theorem Invariant.holds_of_split {original : Memory 64} {world : World}
    (invariant : Invariant platform original world) {before after : List HookEntry}
    {entry : HookEntry} (isSplit : world.entries = before ++ entry :: after)
    (newest : ∀ other ∈ before, other.targetAddress ≠ entry.targetAddress) :
    Holds world.process.bytes entry.targetAddress
      (generateNormalTrampolineBuffer entry.targetAddress entry.trampolineTarget) := by
  have layered := invariant.layered
  have separate := invariant.separate
  rw [isSplit] at layered separate
  refine layered.holds (invariant.saved entry (by simp [isSplit])) ?_
  intro other isOther
  rcases (List.pairwise_append.mp separate).2.2 other isOther entry List.mem_cons_self with
    same | apart
  · exact absurd same (newest other isOther)
  · exact apart

/-! ## Steps -/

/-- The hook of this function can be made: its first bytes are mapped, outside the arena,
and the same as or apart from those of every hook in place. -/
structure Hookable (platform : Platform) (world : World) (address : Addr) (size : Nat) : Prop where
  outside : ∀ other ∈ range address size,
    Mapped platform world.process other ∧ other ∉ arenaBytes world.pages
  separate : ∀ entry ∈ world.entries, entry.targetAddress = address ∨
    ∀ other ∈ range address size, other ∉ hookedBytes entry

section Hook

variable {mapped : Option Nat} {world world' : World} {address replaceCall originCall : Addr}

/-- The world after the relocated code was put into its chunk. -/
def placed (platform : Platform) (middle : World) (chunk : MemoryChunk) (code : List Word) : World :=
  { middle with
    process := patched platform middle.process (BitVec.ofNat 64 chunk.address) (bytesOf code) }

/-- The world after the trampoline was put over the function. -/
def hookedWorld (platform : Platform) (world : World) (address replaceCall relocated : Addr) :
    World :=
  let trampoline := generateNormalTrampolineBuffer address replaceCall
  { world with
    process := patched platform world.process address (bytesOf trampoline)
    entries := hookEntry world address replaceCall relocated (4 * trampoline.length) ::
      world.entries }

/-- What a hook that succeeds has done. -/
theorem dobbyHook_success (arena : ArenaInvariant world.pages)
    (pages : ∀ page ∈ world.pages, PageMapped platform world.process page)
    (granted : ∀ page ∈ mapped, Grant platform world.process page)
    (hooked : dobbyHook platform debug mapped world address replaceCall =
      some (world', .success originCall)) :
    ∃ code chunk middle,
      genRelocateCodeAndBranch debug address (readWords world.process.bytes address
        (generateNormalTrampolineBuffer address replaceCall).length) = some code ∧
      Allocated platform world middle chunk ∧ chunk.length = 4 * code.length + 4 ∧
      originCall = BitVec.ofNat 64 chunk.address ∧
      world' = hookedWorld platform (placed platform middle chunk code) address replaceCall
        originCall := by
  unfold dobbyHook at hooked
  split at hooked
  · simp at hooked
  split at hooked
  · simp at hooked
  obtain ⟨code, generated, hooked⟩ := Option.bind_eq_some_iff.mp hooked
  obtain ⟨⟨afterwards, chunk⟩, finalized, hooked⟩ := Option.bind_eq_some_iff.mp hooked
  obtain ⟨process, isPatched, isResult⟩ := Option.map_eq_some_iff.mp hooked
  obtain ⟨rfl, isCall⟩ := Prod.mk.inj isResult
  obtain ⟨-, rfl⟩ := codePatch_eq_some_iff.mp isPatched
  have isOrigin : originCall = BitVec.ofNat 64 chunk.address := (HookResult.success.inj isCall).symm
  have small : 4 * code.length + 4 ≤ platform.pageSize := by
    have short := generated_length generated
    have few := length_trampoline_le address replaceCall
    have large := platform.le_pageSize
    rw [length_readWords] at short
    omega
  obtain ⟨middle, allocated, isLength, rfl⟩ :=
    finalize_allocated arena pages granted small finalized
  exact ⟨code, chunk, middle, generated, allocated, isLength, isOrigin, by rw [isOrigin]; rfl⟩

/-- A hook that is refused changes nothing. -/
theorem dobbyHook_failed
    (refused : dobbyHook platform debug mapped world address replaceCall = some (world', .failed)) :
    world' = world := by
  unfold dobbyHook at refused
  split at refused
  · exact (Prod.mk.inj (Option.some.inj refused)).1.symm
  split at refused
  · exact (Prod.mk.inj (Option.some.inj refused)).1.symm
  obtain ⟨code, -, refused⟩ := Option.bind_eq_some_iff.mp refused
  obtain ⟨finalized, -, refused⟩ := Option.bind_eq_some_iff.mp refused
  obtain ⟨process, -, isResult⟩ := Option.map_eq_some_iff.mp refused
  simp at isResult

section Middle

variable {middle : World} {chunk : MemoryChunk} {code : List Word}
variable (allocated : Allocated platform world middle chunk)
include allocated

theorem Allocated.subset_arenaBytes : chunkBytes chunk ⊆ arenaBytes middle.pages := by
  obtain ⟨page, isPage, inside⟩ := allocated.inside
  intro other isOther
  exact ⟨page, isPage, Nat.le_trans inside.1 isOther.1, Nat.lt_of_lt_of_le isOther.2 inside.2⟩

theorem Allocated.fits : chunk.stop ≤ 2 ^ 64 := by
  obtain ⟨page, isPage, inside⟩ := allocated.inside
  exact Nat.le_trans inside.2 (allocated.pages page isPage).fits

theorem Allocated.address_ne_zero (isLength : 0 < chunk.length) :
    BitVec.ofNat 64 chunk.address ≠ 0 := by
  obtain ⟨page, isPage, inside⟩ := allocated.inside
  have positive := (allocated.pages page isPage).positive
  have fits := allocated.fits
  intro isZero
  have number := congrArg BitVec.toNat isZero
  rw [BitVec.toNat_ofNat] at number
  unfold MemoryChunk.stop at fits
  have least := inside.1
  simp at number
  omega

/-- What is mapped and not in the arena does not come into it. -/
theorem Allocated.not_mem_arenaBytes {other : Addr} (isMapped : Mapped platform world.process other)
    (outside : other ∉ arenaBytes world.pages) : other ∉ arenaBytes middle.pages := by
  intro inside
  rcases allocated.new other inside with isOld | unmapped
  · exact outside isOld
  · exact unmapped isMapped

theorem Allocated.code_subset (isLength : chunk.length = 4 * code.length + 4) :
    range (BitVec.ofNat 64 chunk.address) (bytesOf code).length ⊆ chunkBytes chunk := by
  apply range_chunk allocated.fits
  rw [length_bytesOf]
  omega

theorem Allocated.placed_sameOutside (isLength : chunk.length = 4 * code.length + 4) :
    SameOutside (arenaBytes middle.pages) world.process.bytes
      (placed platform middle chunk code).process.bytes := by
  refine allocated.outside.write_right ?_
  exact fun other inside => allocated.subset_arenaBytes (allocated.code_subset isLength inside)

/-- The new chunk is apart from those handed out before. -/
theorem Allocated.apart {other : MemoryChunk} (isOther : other ∈ allChunks world.pages)
    {byte : Addr} (inside : byte ∈ chunkBytes other) : byte ∉ chunkBytes chunk := by
  have listed := (allocated.chunks.pairwise_iff MemoryChunk.Apart.symm).mp
    allocated.arena.chunks_apart
  have apart := (List.pairwise_append.mp listed).2.2 other isOther chunk List.mem_cons_self
  intro inside'
  rw [mem_chunkBytes] at inside inside'
  unfold MemoryChunk.Apart at apart
  omega

/-- Chunks handed out before are as they were after the code was put into the new one. -/
theorem Allocated.placed_intact (arena : ArenaInvariant world.pages)
    (pages : ∀ page ∈ world.pages, PageMapped platform world.process page)
    (isLength : chunk.length = 4 * code.length + 4) :
    Intact world (placed platform middle chunk code) := by
  refine ⟨fun other isOther => allocated.chunks.mem_iff.mpr (List.mem_append_left _ isOther), ?_⟩
  intro other isOther byte inside
  obtain ⟨page, isPage, within⟩ := ArenaInvariant.mem_arenaBytes arena isOther inside
  have isMapped := (pages page isPage).mapped_of_mem within
  show write middle.process.bytes _ (bytesOf code) byte = _
  rw [write_of_not_mem]
  · exact allocated.bytes byte isMapped
  · exact fun isCode => allocated.apart isOther inside (allocated.code_subset isLength isCode)

end Middle

/-- What can be hooked can be so after the code was put into its chunk. -/
theorem Hookable.placed {middle : World} {chunk : MemoryChunk} {size : Nat}
    (hookable : Hookable platform world address size)
    (allocated : Allocated platform world middle chunk) (code : List Word) :
    Hookable platform (placed platform middle chunk code) address size where
  outside byte inside := by
    obtain ⟨isMapped, outside⟩ := hookable.outside byte inside
    exact ⟨mapped_patched (allocated.mapped byte isMapped),
      allocated.not_mem_arenaBytes isMapped outside⟩
  separate := by
    show ∀ entry ∈ middle.entries, _
    rw [allocated.entries]
    exact hookable.separate

/-- The trampoline is apart from what was handed out. -/
theorem Hookable.intact (hookable : Hookable platform world address
      (4 * (generateNormalTrampolineBuffer address replaceCall).length))
    (arena : ArenaInvariant world.pages) (relocated : Addr) :
    Intact world (hookedWorld platform world address replaceCall relocated) := by
  refine ⟨List.Subset.refl _, ?_⟩
  intro other isOther byte inside
  apply write_of_not_mem
  intro isTrampoline
  rw [length_bytesOf] at isTrampoline
  exact (hookable.outside byte isTrampoline).2 (ArenaInvariant.mem_arenaBytes arena isOther inside)

/-- A trampoline on a world where its bytes can be saved keeps the invariant. -/
theorem Invariant.hooked {original : Memory 64} {relocated : Addr}
    (invariant : Invariant platform original world)
    (hookable : Hookable platform world address
      (4 * (generateNormalTrampolineBuffer address replaceCall).length))
    (proper : relocated ≠ 0) :
    Invariant platform original (hookedWorld platform world address replaceCall relocated) := by
  set size := 4 * (generateNormalTrampolineBuffer address replaceCall).length with isSize
  set entry := hookEntry world address replaceCall relocated size with isEntry
  have saves : entry.originChunk = read world.process.bytes address size := if_neg proper
  have savedLength : entry.originChunk.length = size := by rw [saves, length_read]
  have bytesLength :
      (bytesOf (generateNormalTrampolineBuffer address replaceCall)).length = size := by
    rw [length_bytesOf]
  -- taking the new hook back gives the memory before it
  have back : write (hookedWorld platform world address replaceCall relocated).process.bytes address
      entry.originChunk = world.process.bytes := by
    rw [saves]
    show write (write world.process.bytes address _) address _ = _
    rw [write_write _ _ (by rw [bytesLength, length_read]), write_read]
  have overwritten : hookedBytes entry = range address size := by
    rw [hookedBytes, savedLength]
    rfl
  refine ⟨invariant.arena, ?_, ?_, ?_, ?_, ?_, ?_⟩
  · exact fun page isPage => (invariant.pages page isPage).patched _ _
  · intro other isOther
    rcases List.mem_cons.mp isOther with rfl | isOther
    · exact savedLength
    · exact invariant.saved other isOther
  · intro other isOther byte inside
    rcases List.mem_cons.mp isOther with rfl | isOther
    · obtain ⟨isMapped, outside⟩ := hookable.outside byte (overwritten ▸ inside)
      exact ⟨mapped_patched isMapped, outside⟩
    · obtain ⟨isMapped, outside⟩ := invariant.outside other isOther byte inside
      exact ⟨mapped_patched isMapped, outside⟩
  · refine List.pairwise_cons.mpr ⟨?_, invariant.separate⟩
    intro other isOther
    rcases hookable.separate other isOther with same | apart
    · exact .inl same.symm
    · exact .inr fun byte inside => apart byte (overwritten ▸ inside)
  · refine ⟨holds_write _ _ (trampoline_fits entry), ?_⟩
    show Layered (write _ address entry.originChunk) world.entries
    rw [back]
    exact invariant.layered
  · show SameOutside _ original (unwind world.entries (write _ address entry.originChunk))
    rw [back]
    exact invariant.restored

/-- The relocated code in its chunk keeps the invariant. -/
theorem Invariant.placed {original : Memory 64} {middle : World} {chunk : MemoryChunk}
    {code : List Word} (invariant : Invariant platform original world)
    (allocated : Allocated platform world middle chunk)
    (isLength : chunk.length = 4 * code.length + 4) :
    Invariant platform original (placed platform middle chunk code) := by
  have same := allocated.placed_sameOutside isLength
  have outside : ∀ entry ∈ world.entries, ∀ byte ∈ hookedBytes entry,
      Mapped platform middle.process byte ∧ byte ∉ arenaBytes middle.pages := by
    intro entry isEntry byte inside
    obtain ⟨isMapped, outside⟩ := invariant.outside entry isEntry byte inside
    exact ⟨allocated.mapped byte isMapped, allocated.not_mem_arenaBytes isMapped outside⟩
  have entries : (Arm64.placed platform middle chunk code).entries = world.entries :=
    allocated.entries
  refine ⟨allocated.arena, fun page isPage => (allocated.pages page isPage).patched _ _, ?_, ?_,
    ?_, ?_, ?_⟩
  · rw [entries]
    exact invariant.saved
  · rw [entries]
    intro entry isEntry byte inside
    exact ⟨mapped_patched (outside entry isEntry byte inside).1,
      (outside entry isEntry byte inside).2⟩
  · rw [entries]
    exact invariant.separate
  · rw [entries]
    exact invariant.layered.congr same fun entry isEntry =>
      ⟨invariant.saved entry isEntry, fun byte inside => (outside entry isEntry byte inside).2⟩
  · rw [entries]
    exact (invariant.restored.mono allocated.grown).trans (unwind_sameOutside _ same)

/-- A hook that succeeds keeps the invariant and what was handed out. -/
theorem Invariant.dobbyHook {original : Memory 64} (invariant : Invariant platform original world)
    (granted : ∀ page ∈ mapped, Grant platform world.process page)
    (hookable : Hookable platform world address
      (4 * (generateNormalTrampolineBuffer address replaceCall).length))
    (hooked : Arm64.dobbyHook platform debug mapped world address replaceCall =
      some (world', .success originCall)) :
    Invariant platform original world' ∧ Intact world world' := by
  obtain ⟨code, chunk, middle, -, allocated, isLength, rfl, rfl⟩ :=
    dobbyHook_success debug invariant.arena invariant.pages granted hooked
  have stillHookable := hookable.placed allocated code
  refine ⟨(invariant.placed allocated isLength).hooked stillHookable
    (allocated.address_ne_zero (by omega)), ?_⟩
  exact (allocated.placed_intact invariant.arena invariant.pages isLength).trans
    (stillHookable.intact allocated.arena _)

end Hook

/-- What taking a hook back does: the newest one of the function goes. -/
theorem dobbyDestroy_cases {world world' : World} {address : Addr} {found : Bool}
    (destroyed : dobbyDestroy platform world address = some (world', found)) :
    world' = world ∨ ∃ before entry after, world.entries = before ++ entry :: after ∧
      entry.targetAddress = address ∧ (∀ other ∈ before, other.targetAddress ≠ address) ∧
      world' = { world with
        process := patched platform world.process address entry.originChunk
        entries := before ++ after } := by
  unfold dobbyDestroy at destroyed
  split at destroyed
  · exact .inl (Prod.mk.inj (Option.some.inj destroyed)).1.symm
  case _ entry isFound =>
    obtain ⟨process, isPatched, isResult⟩ := Option.map_eq_some_iff.mp destroyed
    obtain ⟨-, rfl⟩ := codePatch_eq_some_iff.mp isPatched
    obtain ⟨isTarget, before, after, isSplit, missed⟩ := List.find?_eq_some_iff_append.mp isFound
    have others : ∀ other ∈ before, other.targetAddress ≠ address := by simpa using missed
    refine .inr ⟨before, entry, after, isSplit, by simpa using isTarget, others, ?_⟩
    have erased : (entry :: after).eraseP (·.targetAddress = address) = after :=
      List.eraseP_cons_of_pos isTarget
    rw [← (Prod.mk.inj isResult).1, isSplit, List.eraseP_append_right _ (by simpa using others),
      erased]

theorem Invariant.dobbyDestroy {original : Memory 64} {world world' : World} {address : Addr}
    {found : Bool} (invariant : Invariant platform original world)
    (destroyed : Arm64.dobbyDestroy platform world address = some (world', found)) :
    Invariant platform original world' ∧ Intact world world' := by
  rcases dobbyDestroy_cases destroyed with
    rfl | ⟨before, entry, after, isSplit, rfl, others, rfl⟩
  · exact ⟨invariant, .refl _⟩
  have isEntry : entry ∈ world.entries := by simp [isSplit]
  have left : before ++ after ⊆ world.entries := by
    rw [isSplit]
    exact (List.Sublist.append_left (List.sublist_cons_self entry after) before).subset
  have separate := invariant.separate
  rw [isSplit] at separate
  have apart : ∀ other ∈ before, ∀ byte ∈ hookedBytes other, byte ∉ hookedBytes entry := by
    intro other isOther
    rcases (List.pairwise_append.mp separate).2.2 other isOther entry List.mem_cons_self with
      same | apart
    · exact absurd same (others other isOther)
    · exact apart
  refine ⟨⟨invariant.arena, ?_, ?_, ?_, ?_, ?_, ?_⟩, ⟨List.Subset.refl _, ?_⟩⟩
  · exact fun page isPage => (invariant.pages page isPage).patched _ _
  · exact fun other isOther => invariant.saved other (left isOther)
  · intro other isOther byte inside
    obtain ⟨isMapped, outside⟩ := invariant.outside other (left isOther) byte inside
    exact ⟨mapped_patched isMapped, outside⟩
  · exact separate.sublist (List.Sublist.append_left (List.sublist_cons_self entry after) before)
  · have layered := invariant.layered
    rw [isSplit] at layered
    refine layered.remove fun other isOther => ⟨?_, apart other isOther⟩
    exact invariant.saved other (left (List.mem_append_left _ isOther))
  · have restored := invariant.restored
    rw [isSplit, unwind_append, unwind] at restored
    show SameOutside _ original (unwind (before ++ after) (write _ _ _))
    rwa [unwind_append, unwind_write apart]
  · intro chunk isChunk byte inside
    apply write_of_not_mem
    intro isHooked
    exact (invariant.outside entry isEntry byte isHooked).2
      (ArenaInvariant.mem_arenaBytes invariant.arena isChunk inside)

/-! ## Runs -/

/-- A call of Dobby. `mapped` is the page that would be mapped for the relocated code. -/
inductive Action where
  | hook (address replaceCall : Addr) (mapped : Option Nat)
  | destroy (address : Addr)
deriving DecidableEq, Repr

/-- A call, unless it crashes. -/
def act (platform : Platform) (debug : Bool) (world : World) : Action → Option World
  | .hook address replaceCall mapped =>
      (dobbyHook platform debug mapped world address replaceCall).map Prod.fst
  | .destroy address => (dobbyDestroy platform world address).map Prod.fst

def runActions (platform : Platform) (debug : Bool) : World → List Action → Option World
  | world, [] => some world
  | world, action :: rest => (act platform debug world action).bind (runActions platform debug · rest)

/-- The operating system keeps its promise, and hooks are made where they can be. -/
def ProperAction (platform : Platform) (world : World) : Action → Prop
  | .hook address replaceCall mapped =>
      (∀ page ∈ mapped, Grant platform world.process page) ∧
        Hookable platform world address
          (4 * (generateNormalTrampolineBuffer address replaceCall).length)
  | .destroy _ => True

def ProperRun (platform : Platform) (debug : Bool) : World → List Action → Prop
  | _, [] => True
  | world, action :: rest => ProperAction platform world action ∧
      ∀ world', act platform debug world action = some world' →
        ProperRun platform debug world' rest

variable {debug}

theorem Invariant.act {original : Memory 64} {world world' : World} {action : Action}
    (invariant : Invariant platform original world) (proper : ProperAction platform world action)
    (acted : Arm64.act platform debug world action = some world') :
    Invariant platform original world' ∧ Intact world world' := by
  cases action with
  | hook address replaceCall mapped =>
      obtain ⟨granted, hookable⟩ := proper
      obtain ⟨⟨_, result⟩, hooked, rfl⟩ := Option.map_eq_some_iff.mp acted
      cases result with
      | failed =>
          rw [dobbyHook_failed debug hooked]
          exact ⟨invariant, .refl world⟩
      | success originCall => exact invariant.dobbyHook debug granted hookable hooked
  | destroy address =>
      obtain ⟨⟨_, found⟩, destroyed, rfl⟩ := Option.map_eq_some_iff.mp acted
      exact invariant.dobbyDestroy destroyed

theorem Invariant.run {original : Memory 64} {world world' : World} {actions : List Action}
    (invariant : Invariant platform original world)
    (proper : ProperRun platform debug world actions)
    (ran : runActions platform debug world actions = some world') :
    Invariant platform original world' ∧ Intact world world' := by
  induction actions generalizing world with
  | nil =>
      obtain rfl := Option.some.inj ran
      exact ⟨invariant, .refl _⟩
  | cons action rest inductionHypothesis =>
      obtain ⟨middle, acted, ran⟩ := Option.bind_eq_some_iff.mp ran
      obtain ⟨invariant', early⟩ := invariant.act proper.1 acted
      obtain ⟨invariant'', late⟩ := inductionHypothesis invariant' (proper.2 middle acted) ran
      exact ⟨invariant'', early.trans late⟩

/-- Before the first hook. -/
theorem invariant_start (platform : Platform) (process : Process) :
    Invariant platform process.bytes ⟨process, [], []⟩ where
  arena := .nil
  pages := by simp
  saved := by simp
  outside := by simp
  separate := .nil
  layered := trivial
  restored := .refl _ _

/-- In every run of hooks that are made and taken back in any order: taking back the hooks
that are in place, newest first, would restore the memory outside the arena as it was at
the start, which it is when none is in place; and of every hooked function the trampoline
of the newest hook stands. -/
theorem hooks_can_be_taken_back {process : Process} {actions : List Action} {world : World}
    (proper : ProperRun platform debug ⟨process, [], []⟩ actions)
    (ran : runActions platform debug ⟨process, [], []⟩ actions = some world) :
    SameOutside (arenaBytes world.pages) process.bytes
        (unwind world.entries world.process.bytes) ∧
      (world.entries = [] →
        SameOutside (arenaBytes world.pages) process.bytes world.process.bytes) ∧
      ∀ before entry after, world.entries = before ++ entry :: after →
        (∀ other ∈ before, other.targetAddress ≠ entry.targetAddress) →
        Holds world.process.bytes entry.targetAddress
          (generateNormalTrampolineBuffer entry.targetAddress entry.trampolineTarget) := by
  obtain ⟨invariant, -⟩ := (invariant_start platform process).run proper ran
  refine ⟨invariant.restored, ?_, ?_⟩
  · intro none
    have restored := invariant.restored
    rwa [none] at restored
  · intro before entry after isSplit newest
    exact invariant.holds_of_split isSplit newest

/-- Pages of 4096 bytes. -/
def smallPages : Platform where
  pageShift := 12
  large := by decide
  small := by decide

/-- A process with one page of code. -/
def onePage : Process where
  bytes _ := 0
  access number := if number = 1 then some .kReadExecute else none

theorem proper_onePage {address replaceCall : Addr}
    (inside : 0x1000 ≤ address.toNat ∧ address.toNat + 16 ≤ 0x2000) :
    ProperAction smallPages ⟨onePage, [], []⟩ (.hook address replaceCall (some 0x8000)) := by
  refine ⟨?_, fun other isOther => ⟨?_, by simp [arenaBytes]⟩, by simp⟩
  · intro page isPage
    obtain rfl := Option.some.inj isPage
    exact ⟨by decide, by decide, by decide, by decide⟩
  · have few := length_trampoline_le address replaceCall
    rw [mem_range, offset] at isOther
    have isPage : smallPages.pageOf other = 1 := by
      show other.toNat / 4096 = 1
      bv_omega
    rw [Mapped, isPage]
    decide

/-- A far hook that is taken back. -/
theorem hooks_can_be_taken_back_onePage :
    ∃ world, runActions smallPages false ⟨onePage, [], []⟩
        [.hook 0x1000 0x7F00000000 (some 0x8000), .destroy 0x1000] = some world ∧
      SameOutside (arenaBytes world.pages) onePage.bytes
        (unwind world.entries world.process.bytes) := by
  have going : (runActions smallPages false ⟨onePage, [], []⟩
      [.hook 0x1000 0x7F00000000 (some 0x8000), .destroy 0x1000]).isSome = true := by
    decide +kernel
  obtain ⟨world, ran⟩ := Option.isSome_iff_exists.mp going
  refine ⟨world, ran, (hooks_can_be_taken_back ?_ ran).1⟩
  exact ⟨proper_onePage (by decide), fun _ _ => ⟨trivial, fun _ _ => trivial⟩⟩

end AndroidPatch.Dobby.Arm64
