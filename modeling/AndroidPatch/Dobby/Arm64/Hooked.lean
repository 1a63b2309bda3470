import AndroidPatch.Dobby.Arm64.Hooking

/-!
Contract: what a hook that was made does, whatever is hooked and taken back after it.

Owns:
- where a call of the hooked function leads, and where a call of the address that the hook
  handed out leads: the first to the replacement, the second to where the function led.

The program may change its memory in between, but neither the pages of the arena nor the
bytes of the trampoline.
-/

namespace AndroidPatch.Dobby.Arm64

open Library.A64 Library.ByteMemory

variable {platform : Platform} {debug : Bool}

/-! ## Newest hooks -/

/-- The function that the call is about. -/
def Action.address : Action → Addr
  | .hook address _ _ => address
  | .destroy address => address

/-- The newest hook of a function. -/
def World.newest (world : World) (address : Addr) : Option HookEntry :=
  world.entries.find? (·.targetAddress = address)

theorem newest_hookedWorld_of_ne (world : World) (replaceCall relocated : Addr)
    {target address : Addr} (other : target ≠ address) :
    (hookedWorld platform world target replaceCall relocated).newest address =
      world.newest address := by
  apply List.find?_cons_of_neg
  rw [decide_eq_true_eq]
  exact other

/-- A call about another function leaves the newest hook as it is. -/
theorem act_newest {original : Memory 64} {world world' : World} {action : Action} {address : Addr}
    (invariant : Invariant platform original world) (proper : ProperAction platform world action)
    (acted : act platform debug world action = some world') (other : action.address ≠ address) :
    world'.newest address = world.newest address := by
  cases action with
  | hook target replaceCall mapped =>
      obtain ⟨granted, -⟩ := proper
      obtain ⟨⟨_, result⟩, hooked, rfl⟩ := Option.map_eq_some_iff.mp acted
      cases result with
      | failed => rw [dobbyHook_failed debug hooked]
      | success originCall =>
          obtain ⟨code, chunk, middle, -, allocated, -, -, isWorld⟩ :=
            dobbyHook_success debug invariant.arena invariant.pages granted hooked
          have others : target ≠ address := other
          simp only [isWorld, newest_hookedWorld_of_ne _ _ _ others]
          exact congrArg (List.find? _) allocated.entries
  | destroy target =>
      obtain ⟨⟨_, found⟩, destroyed, rfl⟩ := Option.map_eq_some_iff.mp acted
      rcases dobbyDestroy_cases destroyed with
        same | ⟨before, entry, after, isSplit, isTarget, -, isWorld⟩
      · rw [same]
      · have different : ¬ entry.targetAddress = address := by
          rw [isTarget]
          exact other
        rw [isWorld, World.newest, World.newest, isSplit, List.find?_append, List.find?_append,
          List.find?_cons_of_neg (by simpa using different)]

theorem runActions_newest {original : Memory 64} {world world' : World} {actions : List Action}
    {address : Addr} (invariant : Invariant platform original world)
    (proper : ProperRun platform debug world actions)
    (ran : runActions platform debug world actions = some world')
    (others : ∀ action ∈ actions, action.address ≠ address) :
    world'.newest address = world.newest address := by
  induction actions generalizing world with
  | nil =>
      obtain rfl := Option.some.inj ran
      rfl
  | cons action rest inductionHypothesis =>
      obtain ⟨middle, acted, ran⟩ := Option.bind_eq_some_iff.mp ran
      obtain ⟨invariant', -⟩ := invariant.act proper.1 acted
      rw [inductionHypothesis invariant' (proper.2 middle acted) ran fun later isLater =>
        others later (List.mem_cons_of_mem _ isLater)]
      exact act_newest invariant proper.1 acted (others action List.mem_cons_self)

/-- The trampoline of the newest hook stands. -/
theorem Invariant.holds_newest {original : Memory 64} {world : World} {address : Addr}
    {entry : HookEntry} (invariant : Invariant platform original world)
    (isNewest : world.newest address = some entry) :
    Holds world.process.bytes address
      (generateNormalTrampolineBuffer address entry.trampolineTarget) := by
  obtain ⟨isTarget, before, after, isSplit, missed⟩ := List.find?_eq_some_iff_append.mp isNewest
  obtain rfl : entry.targetAddress = address := by simpa using isTarget
  exact invariant.holds_of_split isSplit (by simpa using missed)

/-! ## Relocated code of a hook -/

/-- The code that stands for the first instructions of the function, in its chunk. -/
structure Kept (world world' : World) (address originCall : Addr) (count : Nat)
    (relocated : Relocated) : Prop where
  origin : relocated.origin = address
  start : relocated.start = originCall
  instrs : relocated.instrs = readWords world.process.bytes address count
  chunk : ∃ chunk ∈ allChunks world'.pages,
    range originCall (4 * relocated.buffer.length) ⊆ chunkBytes chunk
  holds : Holds world'.process.bytes originCall relocated.buffer

theorem Kept.intact {world world' world'' : World} {address originCall : Addr} {count : Nat}
    {relocated : Relocated} (kept : Kept world world' address originCall count relocated)
    (intact : Intact world' world'') : Kept world world'' address originCall count relocated := by
  obtain ⟨chunk, isChunk, inside⟩ := kept.chunk
  refine ⟨kept.origin, kept.start, kept.instrs, ⟨chunk, intact.1 isChunk, inside⟩, ?_⟩
  refine kept.holds.congr ?_ fun byte isByte => intact.2 chunk isChunk byte (inside isByte)
  have small := relocated.small
  omega

/-- A hook that succeeds leaves the relocated code behind, and its trampoline. -/
theorem Invariant.hook_kept {original : Memory 64} {world world' : World}
    {address replaceCall originCall : Addr} {mapped : Option Nat}
    (invariant : Invariant platform original world)
    (proper : ProperAction platform world (.hook address replaceCall mapped))
    (hooked : Arm64.dobbyHook platform debug mapped world address replaceCall =
      some (world', .success originCall)) :
    (∃ relocated, Kept world world' address originCall
        (generateNormalTrampolineBuffer address replaceCall).length relocated) ∧
      ∃ entry, world'.newest address = some entry ∧ entry.trampolineTarget = replaceCall := by
  obtain ⟨granted, hookable⟩ := proper
  obtain ⟨code, chunk, middle, generated, allocated, isLength, rfl, rfl⟩ :=
    dobbyHook_success debug invariant.arena invariant.pages granted hooked
  have few := length_trampoline_le address replaceCall
  let relocated : Relocated :=
    { debug, origin := address, instrs := _, start := BitVec.ofNat 64 chunk.address,
      buffer := code, generated, few := by rw [length_readWords]; omega }
  have isChunk : chunk ∈ allChunks middle.pages :=
    allocated.chunks.mem_iff.mpr (List.mem_append_right _ List.mem_cons_self)
  have inside : range (BitVec.ofNat 64 chunk.address) (4 * code.length) ⊆ chunkBytes chunk := by
    rw [← length_bytesOf]
    exact allocated.code_subset isLength
  have placedCode : Kept world (Arm64.placed platform middle chunk code) address
      (BitVec.ofNat 64 chunk.address) (generateNormalTrampolineBuffer address replaceCall).length
      relocated := by
    refine ⟨rfl, rfl, rfl, ⟨chunk, isChunk, inside⟩, holds_write _ _ ?_⟩
    have small : code.length ≤ 2 ^ 18 := relocated.small
    omega
  refine ⟨⟨relocated, placedCode.intact ?_⟩, _, List.find?_cons_of_pos (by simp [hookEntry]), rfl⟩
  exact (hookable.placed allocated code).intact allocated.arena _

/-! ## Calls -/

universe u
variable {σ : Type u} (cpu : Cpu σ)

/-- A machine on which instructions that are not modelled do nothing. -/
def idleCpu : Cpu Unit := fun _ _ state => (state, none)

/-- Registers that are zero. -/
def zeroState (memory : Memory 64) : State Unit := ⟨fun _ => 0, 0, (), memory⟩

theorem relocatable_zero (hidden : Set Reg) (unlike code : Set Addr) (pc : Addr)
    (state : State Unit) : Relocatable idleCpu hidden unlike code 0 pc state := by
  have blind : Blind idleCpu hidden unlike code 0 pc state :=
    ⟨fun _ _ _ => rfl, fun _ _ agrees => agrees, fun _ _ _ _ _ => rfl⟩
  simpa [Relocatable] using blind

theorem along_zero (hidden : Set Reg) (unlike code : Set Addr) (count : Nat) (pc : Addr) :
    Along idleCpu (Relocatable idleCpu hidden unlike code) count (pc, zeroState fun _ => 0) := by
  have fetched (pc : Addr) : read32 (zeroState fun _ => 0).mem pc = 0 := by
    simp [read32, zeroState]
  induction count generalizing pc with
  | zero => trivial
  | succ count inductionHypothesis =>
      refine ⟨?_, fun state executed => ?_⟩
      · simp only [fetched]
        exact relocatable_zero ..
      · simp only [fetched] at executed
        obtain rfl : (zeroState fun _ => 0) = state := congrArg Prod.fst executed
        exact inductionHypothesis _

end AndroidPatch.Dobby.Arm64
