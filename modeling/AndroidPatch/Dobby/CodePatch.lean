import AndroidPatch.Dobby.Arm64.Assembler
import AndroidPatch.Dobby.MemoryArena

/-!
Contract: writing code into the pages of the process.

Owns:
- the memory of the process with the permissions of its pages, and the calls of the
  operating system that `CodePatch` makes;
- `CodePatch`: when it goes through, and what it leaves behind.

A store to a page that is not writable is a fault, which is `none`. `mprotect` is called for
one page only, the one of the first byte, so that code across the end of a page needs a
next page that is writable already.
-/

namespace AndroidPatch.Dobby

open Library.A64 Library.ByteMemory Arm64

/-- The size of a page is a power of two, at least 4096, that an `int` holds. -/
structure Platform where
  pageShift : Nat
  large : 12 ≤ pageShift
  small : pageShift ≤ 30

def Platform.pageSize (platform : Platform) : Nat := 2 ^ platform.pageShift

def MemoryPermission.writable : MemoryPermission → Bool
  | .kReadWrite | .kReadWriteExecute => true
  | _ => false

/-- The memory, and for every page that is mapped its permission. -/
structure Process where
  bytes : Memory 64
  access : Nat → Option MemoryPermission

variable (platform : Platform)

/-- The number of the page. -/
def Platform.pageOf (address : Addr) : Nat := address.toNat / platform.pageSize

namespace Process

/-- `mprotect` of the page at an address. For a page that is not mapped it fails, which is
not looked at. -/
def mprotect (process : Process) (address : Addr) (permission : MemoryPermission) : Process :=
  { process with
    access := Function.update process.access (platform.pageOf address)
      ((process.access (platform.pageOf address)).map fun _ => permission) }

/-- A byte can be stored. -/
def writable (process : Process) (address : Addr) : Bool :=
  ((process.access (platform.pageOf address)).map (·.writable)).getD false

def memcpy (process : Process) (address : Addr) (buffer : List (BitVec 8)) : Option Process :=
  if (List.range buffer.length).all fun distance =>
      process.writable platform (address + BitVec.ofNat 64 distance) then
    some { process with bytes := write process.bytes address buffer }
  else none

end Process

/-- `CodePatch` -/
def codePatch (process : Process) (address : Addr) (buffer : List (BitVec 8)) : Option Process :=
  let pageAlignAddress := alignFloor address (BitVec.ofNat 64 platform.pageSize)
  let offset := address - pageAlignAddress
  let opened := process.mprotect platform pageAlignAddress .kReadWriteExecute
  (opened.memcpy platform (pageAlignAddress + offset) buffer).map fun patched =>
    patched.mprotect platform pageAlignAddress .kReadExecute

/-! ## Pages -/

variable {platform}

theorem Platform.pageSize_pos (platform : Platform) : 0 < platform.pageSize :=
  Nat.two_pow_pos _

theorem Platform.le_pageSize (platform : Platform) : 4096 ≤ platform.pageSize :=
  Nat.pow_le_pow_right (by decide : 2 > 0) platform.large

theorem Platform.pageSize_le (platform : Platform) : platform.pageSize ≤ 2 ^ 30 :=
  Nat.pow_le_pow_right (by decide) platform.small

/-- The start of the page. -/
theorem toNat_alignFloor (platform : Platform) (address : Addr) :
    (alignFloor address (BitVec.ofNat 64 platform.pageSize)).toNat =
      platform.pageSize * platform.pageOf address := by
  have small := platform.small
  have large := platform.pageSize_le
  have positive := platform.pageSize_pos
  have mask : (BitVec.ofNat 64 platform.pageSize - 1).toNat = 2 ^ platform.pageShift - 1 := by
    rw [BitVec.toNat_sub, BitVec.toNat_ofNat]
    unfold Platform.pageSize at *
    simp
    omega
  have shifted : alignFloor address (BitVec.ofNat 64 platform.pageSize) =
      address >>> platform.pageShift <<< platform.pageShift := by
    apply BitVec.eq_of_getLsbD_eq
    intro i inside
    have bit : (BitVec.ofNat 64 platform.pageSize - 1).getLsbD i =
        decide (i < platform.pageShift) := by
      rw [← BitVec.testBit_toNat, mask, Nat.testBit_two_pow_sub_one]
    unfold alignFloor
    rw [BitVec.getLsbD_and, BitVec.getLsbD_not, bit, BitVec.getLsbD_shiftLeft,
      BitVec.getLsbD_ushiftRight]
    by_cases low : i < platform.pageShift
    · simp [low]
    · simp [low, inside, show platform.pageShift + (i - platform.pageShift) = i by omega]
  rw [shifted, BitVec.toNat_shiftLeft, BitVec.toNat_ushiftRight, Nat.shiftLeft_eq,
    Nat.shiftRight_eq_div_pow, Nat.mul_comm]
  refine Nat.mod_eq_of_lt (Nat.lt_of_le_of_lt ?_ address.isLt)
  exact Nat.mul_div_le _ _

theorem pageOf_alignFloor (platform : Platform) (address : Addr) :
    platform.pageOf (alignFloor address (BitVec.ofNat 64 platform.pageSize)) =
      platform.pageOf address := by
  rw [Platform.pageOf, toNat_alignFloor, Nat.mul_div_cancel_left _ platform.pageSize_pos]

/-- The distance of an address from the start of its page. -/
theorem alignFloor_add_offset (platform : Platform) (address : Addr) :
    alignFloor address (BitVec.ofNat 64 platform.pageSize) +
      (address - alignFloor address (BitVec.ofNat 64 platform.pageSize)) = address := by
  rw [BitVec.add_comm, BitVec.sub_add_cancel]

/-- The page of a byte behind an address: its own one or, as long as no page is skipped,
the next. -/
theorem pageOf_add (platform : Platform) (address : Addr) (distance : Nat)
    (short : distance < platform.pageSize)
    (fits : address.toNat + distance < 2 ^ 64) :
    platform.pageOf (address + BitVec.ofNat 64 distance) =
      if address.toNat % platform.pageSize + distance < platform.pageSize then
        platform.pageOf address
      else platform.pageOf address + 1 := by
  have positive := platform.pageSize_pos
  have behind : (address + BitVec.ofNat 64 distance).toNat = address.toNat + distance := by
    rw [BitVec.toNat_add, BitVec.toNat_ofNat]
    omega
  have split := Nat.div_add_mod address.toNat platform.pageSize
  have below := Nat.mod_lt address.toNat positive
  unfold Platform.pageOf
  rw [behind]
  split
  case isTrue inside =>
    refine Nat.div_eq_of_lt_le ?_ ?_
    · rw [Nat.mul_comm]
      omega
    · rw [Nat.succ_mul, Nat.mul_comm]
      omega
  case isFalse outside =>
    refine Nat.div_eq_of_lt_le ?_ ?_
    · rw [Nat.succ_mul, Nat.mul_comm]
      omega
    · rw [Nat.succ_mul, Nat.succ_mul, Nat.mul_comm]
      omega

/-! ## Patching -/

/-- Every byte is in the page of the first one, which must be mapped, or in a page that is
writable. -/
def Patchable (platform : Platform) (process : Process) (address : Addr) (length : Nat) : Prop :=
  ∀ distance < length,
    if platform.pageOf (address + BitVec.ofNat 64 distance) = platform.pageOf address then
      process.access (platform.pageOf address) ≠ none
    else process.writable platform (address + BitVec.ofNat 64 distance)

/-- What a patch that goes through leaves behind. -/
def patched (platform : Platform) (process : Process) (address : Addr)
    (buffer : List (BitVec 8)) : Process where
  bytes := write process.bytes address buffer
  access := Function.update process.access (platform.pageOf address)
    ((process.access (platform.pageOf address)).map fun _ => .kReadExecute)

theorem mprotect_alignFloor (process : Process) (address : Addr)
    (permission : MemoryPermission) :
    process.mprotect platform (alignFloor address (BitVec.ofNat 64 platform.pageSize)) permission =
      process.mprotect platform address permission := by
  unfold Process.mprotect
  rw [pageOf_alignFloor]

theorem access_mprotect (process : Process) (address : Addr) (permission : MemoryPermission)
    (page : Nat) :
    (process.mprotect platform address permission).access page =
      if page = platform.pageOf address then (process.access page).map fun _ => permission
      else process.access page := by
  unfold Process.mprotect
  by_cases same : page = platform.pageOf address
  · simp [same]
  · simp [same]

/-- After the first `mprotect`, the page of the address is writable if it is mapped. -/
theorem writable_opened (process : Process) (address other : Addr) :
    (process.mprotect platform address .kReadWriteExecute).writable platform other = true ↔
      if platform.pageOf other = platform.pageOf address then
        process.access (platform.pageOf address) ≠ none
      else process.writable platform other := by
  unfold Process.writable
  rw [access_mprotect]
  split
  case isTrue same =>
    rw [same]
    cases process.access (platform.pageOf address) <;> simp [MemoryPermission.writable]
  case isFalse => rfl

theorem codePatch_eq_some_iff {process process' : Process} {address : Addr}
    {buffer : List (BitVec 8)} :
    codePatch platform process address buffer = some process' ↔
      Patchable platform process address buffer.length ∧
        process' = patched platform process address buffer := by
  have through : ((List.range buffer.length).all fun distance =>
      (process.mprotect platform address .kReadWriteExecute).writable platform
        (address + BitVec.ofNat 64 distance)) = true ↔
      Patchable platform process address buffer.length := by
    simp only [List.all_eq_true, List.mem_range, writable_opened, Patchable]
  unfold codePatch Process.memcpy
  simp only [alignFloor_add_offset, mprotect_alignFloor]
  by_cases passes : Patchable platform process address buffer.length
  · rw [if_pos (through.mpr passes)]
    have result : Process.mprotect platform
        { process.mprotect platform address .kReadWriteExecute with
          bytes := write (process.mprotect platform address .kReadWriteExecute).bytes address buffer }
        address .kReadExecute = patched platform process address buffer := by
      simp only [Process.mprotect, patched, Function.update_self, Function.update_idem,
        Option.map_map]
      rfl
    rw [Option.map_some, result, Option.some_inj]
    exact ⟨fun isResult => ⟨passes, isResult.symm⟩, fun both => both.2.symm⟩
  · rw [if_neg fun all => passes (through.mp all)]
    simp [passes]

theorem codePatch_eq_none_iff {process : Process} {address : Addr} {buffer : List (BitVec 8)} :
    codePatch platform process address buffer = none ↔
      ¬ Patchable platform process address buffer.length := by
  constructor
  · intro faulted passes
    rw [codePatch_eq_some_iff.mpr ⟨passes, rfl⟩] at faulted
    simp at faulted
  · intro fails
    rw [Option.eq_none_iff_forall_ne_some]
    intro process' isPatched
    exact fails (codePatch_eq_some_iff.mp isPatched).1

/-- For code that is not longer than a page: the page must be mapped, and the code must end
in it or the next page must be writable. -/
theorem patchable_iff (process : Process) {address : Addr} {length : Nat} (positive : 0 < length)
    (short : length ≤ platform.pageSize) (fits : address.toNat + length ≤ 2 ^ 64) :
    Patchable platform process address length ↔
      process.access (platform.pageOf address) ≠ none ∧
        (address.toNat % platform.pageSize + length ≤ platform.pageSize ∨
          (process.access (platform.pageOf address + 1)).map (·.writable) = some true) := by
  have place (distance : Nat) (inside : distance < length) :=
    pageOf_add platform address distance (by omega) (by omega)
  have below := Nat.mod_lt address.toNat platform.pageSize_pos
  constructor
  · intro patchable
    have own : platform.pageOf (address + BitVec.ofNat 64 0) = platform.pageOf address := by
      rw [place 0 positive, if_pos (by omega)]
    have first := patchable 0 positive
    rw [if_pos own] at first
    refine ⟨first, ?_⟩
    by_cases ends : address.toNat % platform.pageSize + length ≤ platform.pageSize
    · exact .inl ends
    · have next : platform.pageOf (address + BitVec.ofNat 64 (length - 1)) =
          platform.pageOf address + 1 := by
        rw [place (length - 1) (by omega), if_neg (by omega)]
      have last := patchable (length - 1) (by omega)
      rw [if_neg (by omega), Process.writable, next] at last
      right
      cases isNext : process.access (platform.pageOf address + 1) with
      | none => simp [isNext] at last
      | some permission => simpa [isNext] using last
  · rintro ⟨mapped, ends⟩ distance inside
    rw [Process.writable, place distance inside]
    split
    · rwa [if_pos rfl]
    · rw [if_neg (by omega)]
      rcases ends with ends | next
      · omega
      · rw [next]
        rfl

end AndroidPatch.Dobby
