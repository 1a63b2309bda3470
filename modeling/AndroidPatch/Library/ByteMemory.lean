import Mathlib.Data.List.Basic
import Mathlib.Data.Nat.Basic
import Mathlib.Data.Set.Basic
import Mathlib.Tactic.IntervalCases

/-!
Contract: a byte-addressed memory with little-endian words.

Owns:
- reading a word of 32 or of 64 bits, storing a run of bytes;
- which words stand at an address, and that storing them there makes it so;
- the bytes a store leaves alone.

Addresses are bit vectors of any width, so that a run may go round the end of the
address space. `offset` is the distance of an address from the start of a run.
-/

namespace AndroidPatch.Library.ByteMemory

variable {n : Nat}

abbrev Memory (n : Nat) := BitVec n → BitVec 8

/-- How far the address is behind the start. -/
def offset (start address : BitVec n) : Nat := (address - start).toNat

theorem offset_add (start : BitVec n) {distance : Nat} (small : distance < 2 ^ n) :
    offset start (start + BitVec.ofNat n distance) = distance := by
  unfold offset
  rw [BitVec.add_comm, BitVec.add_sub_cancel, BitVec.toNat_ofNat, Nat.mod_eq_of_lt small]

theorem add_offset (start address : BitVec n) :
    start + BitVec.ofNat n (offset start address) = address := by
  unfold offset
  rw [BitVec.ofNat_toNat, BitVec.setWidth_eq, BitVec.add_comm, BitVec.sub_add_cancel]

theorem offset_inj {start left right : BitVec n}
    (same : offset start left = offset start right) : left = right := by
  rw [← add_offset start left, same, add_offset]

/-- The addresses of a run of bytes. -/
def range (start : BitVec n) (length : Nat) : Set (BitVec n) :=
  {address | offset start address < length}

theorem mem_range (start address : BitVec n) (length : Nat) :
    address ∈ range start length ↔ offset start address < length :=
  Iff.rfl

theorem add_mem_range (start : BitVec n) {distance length : Nat} (inside : distance < length)
    (fits : length ≤ 2 ^ n) : start + BitVec.ofNat n distance ∈ range start length := by
  rw [mem_range, offset_add start (by omega)]
  exact inside

/-- What `memcpy` makes of the memory. -/
def write (memory : Memory n) (start : BitVec n) (bytes : List (BitVec 8)) : Memory n :=
  fun address => bytes[offset start address]?.getD (memory address)

/-- The bytes that stand there. -/
def read (memory : Memory n) (start : BitVec n) (length : Nat) : List (BitVec 8) :=
  (List.range length).map fun distance => memory (start + BitVec.ofNat n distance)

@[simp]
theorem length_read (memory : Memory n) (start : BitVec n) (length : Nat) :
    (read memory start length).length = length := by
  simp [read]

theorem write_of_not_mem (memory : Memory n) {start address : BitVec n}
    {bytes : List (BitVec 8)} (outside : address ∉ range start bytes.length) :
    write memory start bytes address = memory address := by
  rw [mem_range, Nat.not_lt] at outside
  unfold write
  rw [List.getElem?_eq_none outside, Option.getD_none]

theorem write_add (memory : Memory n) (start : BitVec n) {bytes : List (BitVec 8)}
    {distance : Nat} (inside : distance < bytes.length) (fits : bytes.length ≤ 2 ^ n) :
    write memory start bytes (start + BitVec.ofNat n distance) = bytes[distance] := by
  unfold write
  rw [offset_add start (by omega), List.getElem?_eq_getElem inside, Option.getD_some]

/-- Storing what stands there changes nothing. -/
theorem write_read (memory : Memory n) (start : BitVec n) (length : Nat) :
    write memory start (read memory start length) = memory := by
  funext address
  by_cases inside : offset start address < length
  · unfold write
    rw [List.getElem?_eq_getElem (by simpa using inside), Option.getD_some]
    simp [read, add_offset]
  · exact write_of_not_mem memory (by simpa [mem_range] using inside)

/-- A store of the same length undoes the one before it. -/
theorem write_write (memory : Memory n) (start : BitVec n) {first second : List (BitVec 8)}
    (sameLength : first.length = second.length) :
    write (write memory start first) start second = write memory start second := by
  funext address
  by_cases inside : address ∈ range start second.length
  · rw [mem_range] at inside
    unfold write
    rw [List.getElem?_eq_getElem inside, Option.getD_some, Option.getD_some]
  · rw [write_of_not_mem _ inside, write_of_not_mem _ inside,
      write_of_not_mem _ (by rwa [sameLength])]

/-- Stores to different bytes can be swapped. -/
theorem write_comm (memory : Memory n) {start other : BitVec n} {first second : List (BitVec 8)}
    (apart : ∀ address ∈ range start first.length, address ∉ range other second.length) :
    write (write memory start first) other second = write (write memory other second) start first := by
  funext address
  by_cases inFirst : address ∈ range start first.length
  · rw [write_of_not_mem _ (apart address inFirst)]
    rw [mem_range] at inFirst
    unfold write
    rw [List.getElem?_eq_getElem inFirst, Option.getD_some, Option.getD_some]
  · rw [write_of_not_mem _ inFirst]
    by_cases inSecond : address ∈ range other second.length
    · rw [mem_range] at inSecond
      unfold write
      rw [List.getElem?_eq_getElem inSecond, Option.getD_some, Option.getD_some]
    · rw [write_of_not_mem _ inSecond, write_of_not_mem _ inSecond, write_of_not_mem _ inFirst]

/-- The memories differ in some bytes at most. -/
def SameOutside (unlike : Set (BitVec n)) (memory memory' : Memory n) : Prop :=
  ∀ address, address ∉ unlike → memory' address = memory address

namespace SameOutside

variable {unlike : Set (BitVec n)} {memory memory' memory'' : Memory n}

theorem refl (unlike : Set (BitVec n)) (memory : Memory n) : SameOutside unlike memory memory :=
  fun _ _ => rfl

theorem trans (first : SameOutside unlike memory memory')
    (second : SameOutside unlike memory' memory'') : SameOutside unlike memory memory'' :=
  fun address alike => (second address alike).trans (first address alike)

theorem mono {unlike' : Set (BitVec n)} (same : SameOutside unlike memory memory')
    (more : unlike ⊆ unlike') : SameOutside unlike' memory memory' :=
  fun address alike => same address fun isUnlike => alike (more isUnlike)

/-- Both memories get the same bytes. -/
theorem write (same : SameOutside unlike memory memory') (start : BitVec n)
    (bytes : List (BitVec 8)) :
    SameOutside unlike (write memory start bytes) (ByteMemory.write memory' start bytes) := by
  intro address alike
  unfold ByteMemory.write
  rw [same address alike]

/-- A store to the bytes that may differ. -/
theorem write_right (same : SameOutside unlike memory memory') {start : BitVec n}
    {bytes : List (BitVec 8)} (inside : range start bytes.length ⊆ unlike) :
    SameOutside unlike memory (ByteMemory.write memory' start bytes) := by
  intro address alike
  rw [write_of_not_mem memory' fun isInside => alike (inside isInside)]
  exact same address alike

end SameOutside

/-! ## Words -/

/-- `*(uint32_t *)address`. -/
def read32 (memory : Memory n) (address : BitVec n) : BitVec 32 :=
  memory (address + 3#n) ++ memory (address + 2#n) ++ memory (address + 1#n) ++ memory address

/-- `*(uint64_t *)address`. -/
def read64 (memory : Memory n) (address : BitVec n) : BitVec 64 :=
  read32 memory (address + 4#n) ++ read32 memory address

/-- The bytes of a word in the order of their addresses. -/
def bytes32 (word : BitVec 32) : List (BitVec 8) :=
  [word.extractLsb' 0 8, word.extractLsb' 8 8, word.extractLsb' 16 8, word.extractLsb' 24 8]

theorem bytes32_append (word : BitVec 32) :
    (word.extractLsb' 24 8 ++ word.extractLsb' 16 8 ++ word.extractLsb' 8 8 ++
      word.extractLsb' 0 8 : BitVec 32) = word := by
  apply BitVec.eq_of_getLsbD_eq
  intro i inside
  rw [BitVec.getLsbD_append, BitVec.getLsbD_append, BitVec.getLsbD_append]
  interval_cases i <;> simp

theorem halves_append (value : BitVec 64) :
    (value.extractLsb' 32 32 ++ value.extractLsb' 0 32 : BitVec 64) = value := by
  apply BitVec.eq_of_getLsbD_eq
  intro i inside
  rw [BitVec.getLsbD_append]
  by_cases low : i < 32
  · simp [low]
  · simp [low, show i - 32 < 32 by omega, show 32 + (i - 32) = i by omega]

/-- A word is read from its four bytes. -/
theorem read32_eq {memory : Memory n} {address : BitVec n} {word : BitVec 32}
    (stored : ∀ part (small : part < 4),
      memory (address + BitVec.ofNat n part) = (bytes32 word)[part]) :
    read32 memory address = word := by
  have first := stored 0 (by omega)
  rw [show BitVec.ofNat n 0 = 0#n from rfl, BitVec.add_zero] at first
  unfold read32
  rw [first, stored 1 (by omega), stored 2 (by omega), stored 3 (by omega)]
  exact bytes32_append word

theorem read32_congr {memory memory' : Memory n} {address : BitVec n}
    (same : ∀ part < 4, memory' (address + BitVec.ofNat n part) =
      memory (address + BitVec.ofNat n part)) :
    read32 memory' address = read32 memory address := by
  have first := same 0 (by omega)
  rw [show BitVec.ofNat n 0 = 0#n from rfl, BitVec.add_zero] at first
  unfold read32
  rw [first, same 1 (by omega), same 2 (by omega), same 3 (by omega)]

theorem read64_congr {memory memory' : Memory n} {address : BitVec n}
    (same : ∀ part < 8, memory' (address + BitVec.ofNat n part) =
      memory (address + BitVec.ofNat n part)) :
    read64 memory' address = read64 memory address := by
  unfold read64
  congr 1
  · apply read32_congr
    intro part small
    have shifted := same (4 + part) (by omega)
    rw [BitVec.ofNat_add, ← BitVec.add_assoc] at shifted
    exact shifted
  · exact read32_congr fun part small => same part (by omega)

/-- The bytes of several words. -/
def bytesOf (words : List (BitVec 32)) : List (BitVec 8) := words.flatMap bytes32

@[simp]
theorem length_bytesOf (words : List (BitVec 32)) :
    (bytesOf words).length = 4 * words.length := by
  induction words with
  | nil => rfl
  | cons word rest inductionHypothesis =>
      simp only [bytesOf, List.flatMap_cons, List.length_append, List.length_cons] at *
      simp only [bytes32, List.length_cons, List.length_nil]
      omega

/-- The words stand at the address, one behind the other. -/
def Holds (memory : Memory n) (start : BitVec n) (words : List (BitVec 32)) : Prop :=
  ∀ index word, words[index]? = some word →
    read32 memory (start + BitVec.ofNat n (4 * index)) = word

theorem getElem?_bytesOf (words : List (BitVec 32)) {index : Nat} {word : BitVec 32}
    (isWord : words[index]? = some word) {part : Nat} (small : part < 4) :
    (bytesOf words)[4 * index + part]? = (bytes32 word)[part]? := by
  induction words generalizing index with
  | nil => simp at isWord
  | cons head rest inductionHypothesis =>
      have unfolded : bytesOf (head :: rest) = bytes32 head ++ bytesOf rest := by
        simp [bytesOf]
      have headLength : (bytes32 head).length = 4 := rfl
      cases index with
      | zero =>
          have isHead : head = word := by simpa using isWord
          rw [unfolded, List.getElem?_append_left (by omega), isHead, Nat.mul_zero, Nat.zero_add]
      | succ index =>
          have inRest : rest[index]? = some word := by simpa using isWord
          rw [unfolded, List.getElem?_append_right (by omega), headLength,
            show 4 * (index + 1) + part - 4 = 4 * index + part by omega]
          exact inductionHypothesis inRest

/-- Storing words makes them stand there. -/
theorem holds_write (memory : Memory n) (start : BitVec n) {words : List (BitVec 32)}
    (fits : 4 * words.length ≤ 2 ^ n) :
    Holds (write memory start (bytesOf words)) start words := by
  intro index word isWord
  have inside : index < words.length := (List.getElem?_eq_some_iff.mp isWord).1
  apply read32_eq
  intro part small
  rw [BitVec.add_assoc, ← BitVec.ofNat_add, write_add _ _ (by simp; omega) (by simpa)]
  have found := getElem?_bytesOf words isWord small
  rw [List.getElem?_eq_getElem (by simp; omega), List.getElem?_eq_getElem small] at found
  exact Option.some.inj found

/-- The words that stand there. -/
def readWords (memory : Memory n) (start : BitVec n) (count : Nat) : List (BitVec 32) :=
  (List.range count).map fun index => read32 memory (start + BitVec.ofNat n (4 * index))

@[simp]
theorem length_readWords (memory : Memory n) (start : BitVec n) (count : Nat) :
    (readWords memory start count).length = count := by
  simp [readWords]

theorem holds_readWords (memory : Memory n) (start : BitVec n) (count : Nat) :
    Holds memory start (readWords memory start count) := by
  intro index word isWord
  simp only [readWords, List.getElem?_map, Option.map_eq_some_iff] at isWord
  obtain ⟨found, isFound, rfl⟩ := isWord
  obtain ⟨inside, isFound⟩ := List.getElem?_eq_some_iff.mp isFound
  rw [← isFound, List.getElem_range]

/-- Only the bytes of the run matter. -/
theorem Holds.congr {memory memory' : Memory n} {start : BitVec n} {words : List (BitVec 32)}
    (holds : Holds memory start words) (fits : 4 * words.length ≤ 2 ^ n)
    (same : ∀ address ∈ range start (4 * words.length), memory' address = memory address) :
    Holds memory' start words := by
  intro index word isWord
  have inside : index < words.length := (List.getElem?_eq_some_iff.mp isWord).1
  rw [← holds index word isWord]
  apply read32_congr
  intro part small
  apply same
  rw [BitVec.add_assoc, ← BitVec.ofNat_add]
  exact add_mem_range start (by omega) fits

/-- A store elsewhere. -/
theorem Holds.write {memory : Memory n} {start other : BitVec n} {words : List (BitVec 32)}
    (holds : Holds memory start words) (fits : 4 * words.length ≤ 2 ^ n) {bytes : List (BitVec 8)}
    (apart : ∀ address ∈ range start (4 * words.length), address ∉ range other bytes.length) :
    Holds (write memory other bytes) start words :=
  holds.congr fits fun address inside => write_of_not_mem memory (apart address inside)

/-- Two neighbouring words read as one. -/
theorem Holds.read64_eq {memory : Memory n} {start : BitVec n} {words : List (BitVec 32)}
    (holds : Holds memory start words) {index : Nat} {low high : BitVec 32}
    (isLow : words[index]? = some low) (isHigh : words[index + 1]? = some high) :
    read64 memory (start + BitVec.ofNat n (4 * index)) = high ++ low := by
  unfold read64
  rw [holds index low isLow]
  have next : start + BitVec.ofNat n (4 * index) + 4#n =
      start + BitVec.ofNat n (4 * (index + 1)) := by
    rw [BitVec.add_assoc, Nat.mul_succ, BitVec.ofNat_add]
  rw [next, holds (index + 1) high isHigh]

end AndroidPatch.Library.ByteMemory
