import AndroidPatch.Library.ArrayHeap

/-!
Contract: `copyExecutableFile`, and the two servers that are started from the copy.

Owns:
- what the file system can do to the one read and the one write of the copy;
- `readFileToByteArray`, `writeByteArrayToFile` and `copyExecutableFile` under every
  such behaviour, and the commands that `startGDBServer` and `startIDAServer` execute;
- exactly when the copy is intact wherever a path is returned.

The bytes of the source are those that it holds before the copy. It is read before the
target is opened.
-/

namespace AndroidPatch.Killer

open Library

abbrev Bytes := List UInt8

/-! ## The file system -/

/-- How `new FileInputStream(file)` and `input.read(data)` end. A call of `read` may
deliver fewer bytes than there is room for. -/
inductive ReadOutcome where
  | openFails
  | readFails
  | delivers (count : Nat)
deriving DecidableEq, Repr

/-- How `new FileOutputStream(file)` and `output.write(data)` end. A target that cannot
be opened stays as it is, one that is opened is empty at first. -/
inductive WriteOutcome where
  | openFails
  | failsAfter (count : Nat)
  | completes
deriving DecidableEq, Repr

/-- The source file, and how the file system behaves. `File.length` is zero where the
length cannot be told. -/
structure Device where
  content : Bytes
  lengthKnown : Bool
  reading : ReadOutcome
  writing : WriteOutcome
  currentPackageName : String
  myPid : Nat
deriving DecidableEq, Repr

/-- What the target file holds, if it exists, and the commands executed so far, each with
what the target held then. -/
structure DebugState where
  target : Option Bytes
  executed : List (String × Option Bytes)
deriving DecidableEq, Repr

/-- The cast of a long to an int. -/
def intCast (value : Nat) : Int :=
  let word := value % 0x100000000
  if word < 0x80000000 then word else (word : Int) - 0x100000000

namespace Device

variable (device : Device)

/-- `(int) file.length()` -/
def intLength : Int :=
  intCast (if device.lengthKnown then device.content.length else 0)

/-- The bytes read, put at the start of the array. -/
def fill (data bytes : Bytes) : Bytes :=
  bytes.take data.length ++ data.drop bytes.length

/-- `Killer.readFileToByteArray` on the source. -/
def readFileToByteArray : Except ArrayFault Bytes :=
  if device.intLength < 0 then .error .negativeArraySize
  else
    let data : Bytes := List.replicate device.intLength.toNat 0
    .ok (match device.reading with
      | .openFails => data
      | .readFails => data
      | .delivers count => fill data (device.content.take count))

/-- `Killer.writeByteArrayToFile` on the target. -/
def writeByteArrayToFile (data : Bytes) (state : DebugState) : DebugState :=
  match device.writing with
  | .openFails => state
  | .failsAfter count => { state with target := some (data.take count) }
  | .completes => { state with target := some data }

/-- `DebugKiller.executeCommand`; what the command does is not seen. -/
def executeCommand (command : String) (state : DebugState) : DebugState :=
  { state with executed := state.executed ++ [(command, state.target)] }

/-- `DebugKiller.copyExecutableFile`. -/
def copyExecutableFile (name : String) (state : DebugState) :
    Except ArrayFault (Option String) × DebugState :=
  match device.readFileToByteArray with
  | .error fault => (.error fault, state)
  | .ok data =>
      if data.length = 0 then (.ok none, state)
      else
        let targetPath := "/data/data/" ++ device.currentPackageName ++ "/debug/" ++ name
        let state := device.writeByteArrayToFile data state
        (.ok (some targetPath), executeCommand ("chmod 700 " ++ targetPath) state)

/-- The common part of the two servers: copy, and execute the copy if there is one. -/
def startServer (name : String) (command : String → String) (state : DebugState) :
    Except ArrayFault Bool × DebugState :=
  match device.copyExecutableFile name state with
  | (.error fault, state) => (.error fault, state)
  | (.ok none, state) => (.ok false, state)
  | (.ok (some debugServer), state) => (.ok true, executeCommand (command debugServer) state)

/-- `DebugKiller.startGDBServer`. -/
def startGDBServer (state : DebugState) : Except ArrayFault Bool × DebugState :=
  device.startServer "gdbserver"
    (fun debugServer => debugServer ++ " :23946 --attach " ++ ToString.toString device.myPid) state

/-- `DebugKiller.startIDAServer`. -/
def startIDAServer (state : DebugState) : Except ArrayFault Bool × DebugState :=
  device.startServer "android_server" id state

/-! ## The condition -/

/-- The bytes that the one call of `read` delivers, as far as the source has them. -/
def delivered : Nat :=
  match device.reading with
  | .openFails => 0
  | .readFails => 0
  | .delivers count => count

/-- The bytes that reach a target that can be opened. -/
def reached : Nat :=
  match device.writing with
  | .openFails => 0
  | .failsAfter count => min count device.intLength.toNat
  | .completes => device.intLength.toNat

/-- The length is not negative as an int; and it is zero, or the target cannot be opened
and holds the bytes of the source already, or as many bytes as the source has reach the
target and those that the read did not deliver are zero. -/
def CopiesIntact (state : DebugState) : Prop :=
  0 ≤ device.intLength ∧
    (device.intLength = 0 ∨
      device.writing = .openFails ∧ state.target = some device.content ∨
      device.writing ≠ .openFails ∧ device.reached = device.content.length ∧
        ∀ byte ∈ device.content.drop device.delivered, byte = 0)

/-- **No damaged copy.** `copyExecutableFile` returns, and returns a path only if the
target holds the bytes of the source; a server that reports success has executed nothing
but that copy. -/
def NoDamagedCopy (state : DebugState) : Prop :=
  (∀ name, ∃ result, (device.copyExecutableFile name state).1 = .ok result ∧
    (result ≠ none → (device.copyExecutableFile name state).2.target = some device.content)) ∧
  (∀ start ∈ [device.startGDBServer, device.startIDAServer], (start state).1 = .ok true →
    ∀ command ∈ (start state).2.executed.drop state.executed.length,
      command.2 = some device.content)

/-! ## Reading and writing -/

theorem toNat_intCast_le (value : Nat) : (intCast value).toNat ≤ value := by
  unfold intCast
  dsimp only
  split_ifs
  · omega
  · omega

theorem intLength_le : device.intLength.toNat ≤ device.content.length := by
  unfold intLength
  cases device.lengthKnown with
  | false => exact (toNat_intCast_le 0).trans (Nat.zero_le _)
  | true => exact toNat_intCast_le device.content.length

/-- The array that is read: what the source delivers, and zeros. -/
def readBytes : Bytes :=
  fill (List.replicate device.intLength.toNat 0) (device.content.take device.delivered)

theorem readFileToByteArray_eq (nonnegative : 0 ≤ device.intLength) :
    device.readFileToByteArray = .ok device.readBytes := by
  unfold readFileToByteArray readBytes delivered
  rw [if_neg (by omega)]
  cases device.reading with
  | openFails => simp [fill]
  | readFails => simp [fill]
  | delivers count => rfl

theorem length_readBytes : device.readBytes.length = device.intLength.toNat := by
  simp only [readBytes, fill, List.length_append, List.length_take, List.length_replicate,
    List.length_drop]
  omega

/-- What a target that can be opened holds in the end. -/
theorem writeByteArrayToFile_target (opens : device.writing ≠ .openFails) (state : DebugState) :
    (device.writeByteArrayToFile device.readBytes state).target =
      some (device.readBytes.take device.reached) := by
  have isLength := device.length_readBytes
  unfold writeByteArrayToFile reached
  cases isWriting : device.writing with
  | openFails => exact absurd isWriting opens
  | failsAfter count =>
      dsimp only
      rw [← isLength, ← List.take_take, List.take_length]
  | completes =>
      dsimp only
      rw [← isLength, List.take_length]

theorem reached_le : device.reached ≤ device.intLength.toNat := by
  unfold reached
  cases device.writing with
  | openFails => exact Nat.zero_le _
  | failsAfter count => exact Nat.min_le_right _ _
  | completes => exact le_rfl

/-- **The bytes written are those of the source if and only if they are as many, and the
read delivered all that are not zero.** -/
theorem written_eq_content_iff :
    device.readBytes.take device.reached = device.content ↔
      device.reached = device.content.length ∧
        ∀ byte ∈ device.content.drop device.delivered, byte = 0 := by
  have isLength := device.length_readBytes
  have atMost := device.intLength_le
  have reachedAtMost := device.reached_le
  have lengthWritten : (device.readBytes.take device.reached).length = device.reached := by
    rw [List.length_take]
    omega
  -- Where all bytes of the source are written, the array is as long as the source.
  have whole : device.reached = device.content.length →
      device.readBytes.take device.reached = device.content.take device.delivered ++
        List.replicate (device.content.drop device.delivered).length 0 := by
    intro allReached
    have sameLength : device.intLength.toNat = device.content.length := by omega
    rw [List.take_of_length_le (by omega)]
    unfold readBytes fill
    rw [List.length_replicate, sameLength, List.take_of_length_le (by simp), List.drop_replicate]
    congr 2
    simp only [List.length_take, List.length_drop]
    omega
  constructor
  · intro written
    have allReached : device.reached = device.content.length := by
      rw [← lengthWritten, written]
    refine ⟨allReached, ?_⟩
    rw [whole allReached] at written
    nth_rewrite 3 [← List.take_append_drop device.delivered device.content] at written
    have zeros := List.append_cancel_left written
    intro byte isByte
    rw [← zeros] at isByte
    exact List.eq_of_mem_replicate isByte
  · rintro ⟨allReached, zeros⟩
    rw [whole allReached, ← List.eq_replicate_of_mem zeros, List.take_append_drop]

/-! ## The copy -/

theorem copyExecutableFile_negative (negative : device.intLength < 0) (name : String)
    (state : DebugState) :
    device.copyExecutableFile name state = (.error .negativeArraySize, state) := by
  unfold copyExecutableFile readFileToByteArray
  rw [if_pos negative]

theorem copyExecutableFile_empty (isEmpty : device.intLength = 0) (name : String)
    (state : DebugState) : device.copyExecutableFile name state = (.ok none, state) := by
  have noBytes : device.readBytes.length = 0 := by
    rw [device.length_readBytes, isEmpty]
    rfl
  unfold copyExecutableFile
  rw [device.readFileToByteArray_eq (by omega)]
  dsimp only
  rw [if_pos noBytes]

/-- A copy that is made ends with a path, whatever became of it. -/
theorem copyExecutableFile_made (positive : 0 < device.intLength) (name : String)
    (state : DebugState) :
    let targetPath := "/data/data/" ++ device.currentPackageName ++ "/debug/" ++ name
    device.copyExecutableFile name state = (.ok (some targetPath),
      executeCommand ("chmod 700 " ++ targetPath)
        (device.writeByteArrayToFile device.readBytes state)) := by
  have someBytes : device.readBytes.length ≠ 0 := by
    rw [device.length_readBytes]
    omega
  unfold copyExecutableFile
  rw [device.readFileToByteArray_eq (by omega)]
  dsimp only
  rw [if_neg someBytes]

theorem executed_writeByteArrayToFile (data : Bytes) (state : DebugState) :
    (device.writeByteArrayToFile data state).executed = state.executed := by
  unfold writeByteArrayToFile
  cases device.writing with
  | openFails => rfl
  | failsAfter count => rfl
  | completes => rfl

/-- What the target holds after a copy that is made. -/
theorem target_intact_iff (state : DebugState) :
    (device.writeByteArrayToFile device.readBytes state).target = some device.content ↔
      device.writing = .openFails ∧ state.target = some device.content ∨
      device.writing ≠ .openFails ∧ device.reached = device.content.length ∧
        ∀ byte ∈ device.content.drop device.delivered, byte = 0 := by
  by_cases opens : device.writing = .openFails
  · have unchanged : device.writeByteArrayToFile device.readBytes state = state := by
      unfold writeByteArrayToFile
      rw [opens]
    rw [unchanged]
    simp [opens]
  · rw [device.writeByteArrayToFile_target opens, Option.some.injEq,
      device.written_eq_content_iff]
    simp [opens]

/-- A server that is started executes what the copy left. -/
theorem startServer_made (positive : 0 < device.intLength) (name : String)
    (command : String → String) (state : DebugState) :
    ∀ executed ∈ (device.startServer name command state).2.executed.drop state.executed.length,
      executed.2 = (device.writeByteArrayToFile device.readBytes state).target := by
  have keeps := device.executed_writeByteArrayToFile device.readBytes state
  unfold startServer
  rw [device.copyExecutableFile_made positive]
  intro executed isExecuted
  simp only [executeCommand, keeps, List.append_assoc, List.drop_left] at isExecuted
  rcases List.mem_append.mp isExecuted with isChmod | isServer
  · rw [List.mem_singleton.mp isChmod]
  · rw [List.mem_singleton.mp isServer]

/-- **No damaged copy is returned, or executed, exactly when the condition holds.** -/
theorem noDamagedCopy_iff (state : DebugState) :
    device.NoDamagedCopy state ↔ device.CopiesIntact state := by
  unfold NoDamagedCopy CopiesIntact
  rcases lt_trichotomy device.intLength 0 with negative | isEmpty | positive
  · constructor
    · rintro ⟨copies, -⟩
      obtain ⟨result, returns, -⟩ := copies ""
      rw [device.copyExecutableFile_negative negative] at returns
      cases returns
    · rintro ⟨nonnegative, -⟩
      omega
  · constructor
    · exact fun _ => ⟨by omega, Or.inl isEmpty⟩
    · refine fun _ => ⟨fun name => ⟨none, ?_, fun notNone => absurd rfl notNone⟩, ?_⟩
      · rw [device.copyExecutableFile_empty isEmpty]
      · intro start isStart reports
        simp only [List.mem_cons, List.not_mem_nil, or_false] at isStart
        rcases isStart with rfl | rfl
        · simp [startGDBServer, startServer, device.copyExecutableFile_empty isEmpty] at reports
        · simp [startIDAServer, startServer, device.copyExecutableFile_empty isEmpty] at reports
  · have intactIff := device.target_intact_iff state
    constructor
    · rintro ⟨copies, -⟩
      obtain ⟨result, returns, intact⟩ := copies ""
      rw [device.copyExecutableFile_made positive] at returns intact
      have isPath : result ≠ none := by
        rw [← Except.ok.inj returns]
        exact Option.some_ne_none _
      exact ⟨positive.le, Or.inr (intactIff.mp (intact isPath))⟩
    · rintro ⟨-, isEmpty | isIntact⟩
      · omega
      · have intact := intactIff.mpr isIntact
        refine ⟨fun name => ?_, ?_⟩
        · rw [device.copyExecutableFile_made positive]
          exact ⟨_, rfl, fun _ => intact⟩
        · intro start isStart _ command isCommand
          simp only [List.mem_cons, List.not_mem_nil, or_false] at isStart
          rcases isStart with rfl | rfl
          · rw [device.startServer_made positive _ _ state command isCommand, intact]
          · rw [device.startServer_made positive _ _ state command isCommand, intact]

/-- A read that delivers one byte of two. -/
theorem damagedCopy_of_short_read :
    let device : Device := ⟨[0x7f, 0x45], true, .delivers 1, .completes, "app", 1⟩
    (device.copyExecutableFile "gdbserver" ⟨none, []⟩).2.target = some [0x7f, 0] ∧
      ¬ device.NoDamagedCopy ⟨none, []⟩ := by
  intro device
  refine ⟨by decide, ?_⟩
  rintro ⟨copies, -⟩
  obtain ⟨result, returns, intact⟩ := copies "gdbserver"
  have isPath : result ≠ none := by
    rw [← Except.ok.inj returns]
    exact Option.some_ne_none _
  exact absurd (intact isPath) (by decide)

end Device

end AndroidPatch.Killer
