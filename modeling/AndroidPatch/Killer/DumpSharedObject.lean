import AndroidPatch.Killer.SharedObjectMaps
import AndroidPatch.Library.Intervals

/-!
Contract: `dumpSharedObject`, from the mappings of the process to the range that is
copied.

Owns:
- the mappings, and the text that `/proc/self/maps` shows of them;
- what the loop reads back of that text: for every mapping its addresses and its path,
  the latter as far as it fits into the buffer;
- the range and the length that `dumpSharedObject` copies, and exactly when the range
  is the shared object.
-/

namespace AndroidPatch.Killer

open Library Library.Stdio

/-! ## Mappings -/

/-- A mapping of a 32-bit process. The path is empty when it maps no file. -/
structure Mapping where
  start : Nat
  stop : Nat
  readable : Bool
  writable : Bool
  executable : Bool
  isShared : Bool
  offset : Nat
  major : Nat
  minor : Nat
  inode : Nat
  path : List Char
  proper : start < stop
  inMemory : stop < wordSize
  inRange : offset < 16 ^ 16 ∧ major < 16 ^ 8 ∧ minor < 16 ^ 8 ∧ inode < 10 ^ 20
  noSpace : ∀ char ∈ path, isSpace char = false ∧ char ≠ '\x00'
deriving DecidableEq

/-- The mappings of a process: disjoint and ascending. -/
structure Mappings where
  mappings : List Mapping
  ascending : mappings.Pairwise fun mapping later => mapping.stop ≤ later.start

/-- The kernel pads the fields according to the size of its own pointers. -/
inductive Kernel where
  | bits32
  | bits64
deriving DecidableEq, Repr

/-- `25 + sizeof(void *) * 6 - 1` -/
def Kernel.width : Kernel → Nat
  | .bits32 => 48
  | .bits64 => 72

namespace Mapping

def permissions (mapping : Mapping) : List Char :=
  [if mapping.readable then 'r' else '-', if mapping.writable then 'w' else '-',
    if mapping.executable then 'x' else '-', if mapping.isShared then 's' else 'p']

/-- `%08lx-%08lx %s %08llx %02x:%02x %lu` -/
def fields (mapping : Mapping) : List Char :=
  printNumber 16 8 mapping.start ++ '-' ::
    (printNumber 16 8 mapping.stop ++ ' ' ::
      (mapping.permissions ++ ' ' ::
        (printNumber 16 8 mapping.offset ++ ' ' ::
          (printNumber 16 2 mapping.major ++ ':' ::
            (printNumber 16 2 mapping.minor ++ ' ' :: printNumber 10 1 mapping.inode)))))

/-- The white space before the path. -/
def padding (kernel : Kernel) (mapping : Mapping) : List Char :=
  if mapping.path = [] then [' ']
  else List.replicate (1 + (kernel.width - (mapping.fields.length + 1)) + 1) ' '

/-- The line of a mapping, without the newline. -/
def line (kernel : Kernel) (mapping : Mapping) : List Char :=
  mapping.fields ++ mapping.padding kernel ++ mapping.path

/-- The path as far as it fits into the buffer. -/
def shownPath (kernel : Kernel) (mapping : Mapping) : List Char :=
  mapping.path.take (lineRoom - (mapping.fields ++ mapping.padding kernel).length)

end Mapping

/-- What `/proc/self/maps` holds. -/
def mapsText (kernel : Kernel) : List Mapping → List Char
  | [] => []
  | mapping :: rest => mapping.line kernel ++ '\n' :: mapsText kernel rest

/-! ## Reading a line back -/

namespace Mapping

variable (mapping : Mapping)

theorem permissions_ne_nil : mapping.permissions ≠ [] := by
  simp [permissions]

theorem visible_of_all {text : List Char}
    (isVisible : text.all (fun char => ! isSpace char && char != '\x00') = true) :
    ∀ char ∈ text, isSpace char = false ∧ char ≠ '\x00' := by
  intro char isMember
  simpa using List.all_eq_true.mp isVisible char isMember

theorem permissions_visible :
    ∀ char ∈ mapping.permissions, isSpace char = false ∧ char ≠ '\x00' := by
  apply visible_of_all
  have isVisible : ∀ readable writable executable isShared : Bool,
      [if readable then 'r' else '-', if writable then 'w' else '-',
        if executable then 'x' else '-', if isShared then 's' else 'p'].all
          (fun char => ! isSpace char && char != '\x00') = true := by
    decide
  exact isVisible _ _ _ _

theorem isSpace_permissions : ∀ char ∈ mapping.permissions, isSpace char = false :=
  fun char isMember => (mapping.permissions_visible char isMember).1

theorem skipSpace_number (width value : Nat) {base : Nat} (atLeast : 1 < base)
    (atMost : base ≤ 16) (rest : List Char) :
    skipSpace (' ' :: (printNumber base width value ++ rest)) =
      printNumber base width value ++ rest :=
  skipSpace_word (printNumber_ne_nil width value)
    (isSpace_printNumber atLeast atMost width value) rest

/-- The fields convert, and leave what follows them to the rest of the pattern. -/
theorem sscanf_fields (rest : List Char) :
    sscanf mapsPattern (mapping.fields ++ ' ' :: rest) =
      .number mapping.start :: .number mapping.stop ::
        sscanf [.space, .word true, .space] (' ' :: rest) := by
  have startFits : mapping.start % wordSize = mapping.start :=
    Nat.mod_eq_of_lt (mapping.proper.trans mapping.inMemory)
  have stopFits : mapping.stop % wordSize = mapping.stop := Nat.mod_eq_of_lt mapping.inMemory
  have minusEnds : Ends 16 '-' := ⟨by decide, by decide, by decide⟩
  have spaceEnds : Ends 16 ' ' := ⟨by decide, by decide, by decide⟩
  have colonEnds : Ends 16 ':' := ⟨by decide, by decide, by decide⟩
  have spaceEndsDecimal : Ends 10 ' ' := ⟨by decide, by decide, by decide⟩
  have skipToPermissions : ∀ after, skipSpace (' ' :: (mapping.permissions ++ ' ' :: after)) =
      mapping.permissions ++ ' ' :: after := fun after =>
    skipSpace_word mapping.permissions_ne_nil mapping.isSpace_permissions (' ' :: after)
  unfold fields mapsPattern
  simp only [List.append_assoc, List.cons_append]
  rw [sscanf_number _ (readNumber_printNumber (by omega) (by omega) 8 mapping.start minusEnds _),
    sscanf_literal,
    sscanf_number _ (readNumber_printNumber (by omega) (by omega) 8 mapping.stop spaceEnds _),
    sscanf_space, skipToPermissions,
    sscanf_word _ (readWord_of_word mapping.permissions_ne_nil mapping.isSpace_permissions
      (by simp; decide)),
    sscanf_space, skipSpace_number 8 mapping.offset (by omega) (by omega),
    sscanf_number _ (readNumber_printNumber (by omega) (by omega) 8 mapping.offset spaceEnds _),
    sscanf_space, skipSpace_number 2 mapping.major (by omega) (by omega),
    sscanf_number _ (readNumber_printNumber (by omega) (by omega) 2 mapping.major colonEnds _),
    sscanf_literal,
    sscanf_number _ (readNumber_printNumber (by omega) (by omega) 2 mapping.minor spaceEnds _),
    sscanf_space, skipSpace_number 1 mapping.inode (by omega) (by omega),
    sscanf_number _ (readNumber_printNumber (by omega) (by omega) 1 mapping.inode
      spaceEndsDecimal _),
    startFits, stopFits]
  rfl

/-- The end of the pattern stores the path, unless there is none. -/
theorem sscanf_path {spaces path ending : List Char}
    (areSpaces : ∀ char ∈ spaces, isSpace char = true)
    (noSpace : ∀ char ∈ path, isSpace char = false)
    (endsInSpace : ∀ char ∈ ending, isSpace char = true) :
    sscanf [.space, .word true, .space] (spaces ++ (path ++ ending)) =
      if path = [] then [] else [.text path] := by
  rw [sscanf_space, skipSpace_spaces areSpaces]
  split_ifs with isEmpty
  · have nothing : skipSpace ending = [] := by
      rw [← List.append_nil ending, skipSpace_spaces endsInSpace]
      rfl
    rw [isEmpty, List.nil_append, nothing]
    rfl
  · have endsWord : ∀ char ∈ ending.head?, isSpace char = true :=
      fun char isHead => endsInSpace char (List.mem_of_mem_head? isHead)
    rw [skipSpace_word isEmpty noSpace,
      sscanf_word _ (readWord_of_word isEmpty noSpace endsWord), sscanf_space]
    rfl

theorem padding_spaces (kernel : Kernel) :
    ∃ spaces, mapping.padding kernel = ' ' :: spaces ∧ ∀ char ∈ spaces, char = ' ' := by
  unfold padding
  split_ifs
  · exact ⟨[], rfl, by simp⟩
  · refine ⟨List.replicate (kernel.width - (mapping.fields.length + 1) + 1) ' ', ?_, ?_⟩
    · rw [← List.replicate_succ]
      congr 1
      omega
    · exact fun char isMember => List.eq_of_mem_replicate isMember

theorem length_fields_le : mapping.fields.length ≤ 78 := by
  obtain ⟨offsetFits, majorFits, minorFits, inodeFits⟩ := mapping.inRange
  have wordIs : wordSize = 16 ^ 8 := by decide
  have startFits : mapping.start < 16 ^ 8 := wordIs ▸ mapping.proper.trans mapping.inMemory
  have stopFits : mapping.stop < 16 ^ 8 := wordIs ▸ mapping.inMemory
  have isStart := length_printNumber_le (by omega) (by omega) startFits 8
  have isStop := length_printNumber_le (by omega) (by omega) stopFits 8
  have isOffset := length_printNumber_le (by omega) (by omega) offsetFits 8
  have isMajor := length_printNumber_le (by omega) (by omega) majorFits 2
  have isMinor := length_printNumber_le (by omega) (by omega) minorFits 2
  have isInode := length_printNumber_le (by omega) (by omega) inodeFits 1
  have isPermissions : mapping.permissions.length = 4 := rfl
  simp only [fields, List.length_append, List.length_cons, isPermissions]
  omega

/-- What stands before the path fits into the buffer. -/
theorem length_head_le (kernel : Kernel) :
    (mapping.fields ++ mapping.padding kernel).length ≤ lineRoom := by
  have fieldsFit := mapping.length_fields_le
  have widthIs : kernel.width ≤ 72 := by
    cases kernel with
    | bits32 => decide
    | bits64 => decide
  simp only [List.length_append, padding, lineRoom]
  split_ifs
  · simp only [List.length_singleton]
    omega
  · rw [List.length_replicate]
    omega

theorem ne_newline {char : Char} (visible : isSpace char = false ∧ char ≠ '\x00') :
    char ≠ '\n' ∧ char ≠ '\x00' := by
  refine ⟨?_, visible.2⟩
  rintro rfl
  exact absurd visible.1 (by decide)

/-- A line holds no newline and no null character. -/
theorem line_plain (kernel : Kernel) :
    ∀ char ∈ mapping.line kernel, char ≠ '\n' ∧ char ≠ '\x00' := by
  have numberPlain : ∀ base width value, 1 < base → base ≤ 16 →
      ∀ char ∈ printNumber base width value, char ≠ '\n' ∧ char ≠ '\x00' := by
    intro base width value atLeast atMost char isMember
    have isDigit := isDigitOf_printNumber atLeast atMost width value char isMember
    exact ⟨ne_of_isDigitOf atMost isDigit (by decide), ne_of_isDigitOf atMost isDigit (by decide)⟩
  have hexPlain := fun width value => numberPlain 16 width value (by omega) (by omega)
  have permissionsPlain : ∀ char ∈ mapping.permissions, char ≠ '\n' ∧ char ≠ '\x00' :=
    fun char isMember => ne_newline (mapping.permissions_visible char isMember)
  have pathPlain : ∀ char ∈ mapping.path, char ≠ '\n' ∧ char ≠ '\x00' :=
    fun char isMember => ne_newline (mapping.noSpace char isMember)
  have paddingPlain : ∀ char ∈ mapping.padding kernel, char ≠ '\n' ∧ char ≠ '\x00' := by
    obtain ⟨spaces, isPadding, areSpaces⟩ := mapping.padding_spaces kernel
    intro char isMember
    rw [isPadding] at isMember
    have isSpace : char = ' ' := (List.mem_cons.mp isMember).elim id (areSpaces char)
    rw [isSpace]
    decide
  simp only [line, fields, List.forall_mem_append, List.forall_mem_cons]
  exact ⟨⟨⟨hexPlain _ _, by decide, hexPlain _ _, by decide, permissionsPlain, by decide,
    hexPlain _ _, by decide, hexPlain _ _, by decide, hexPlain _ _, by decide,
    numberPlain 10 _ _ (by omega) (by omega)⟩, paddingPlain⟩, pathPlain⟩

/-- The piece that holds the start of a line. -/
def firstPiece (kernel : Kernel) : List Char :=
  (mapping.line kernel ++ ['\n']).take lineRoom

theorem firstPiece_eq (kernel : Kernel) :
    ∃ ending, (∀ char ∈ ending, isSpace char = true) ∧
      mapping.firstPiece kernel = mapping.fields ++
        (mapping.padding kernel ++ (mapping.shownPath kernel ++ ending)) := by
  have headFits := mapping.length_head_le kernel
  refine ⟨['\n'].take (lineRoom - (mapping.line kernel).length), ?_, ?_⟩
  · intro char isMember
    have isNewline : char = '\n' := by simpa using List.mem_of_mem_take isMember
    rw [isNewline]
    decide
  · unfold firstPiece
    rw [List.take_append]
    unfold shownPath line
    rw [List.take_append, List.take_of_length_le headFits]
    simp only [List.append_assoc]

/-- **A line is a hit if and only if the name occurs in the path that it shows.** -/
theorem isHit_firstPiece_iff (kernel : Kernel) {needle : List Char} (nonempty : needle ≠ [])
    (left right : Nat) :
    IsHit needle (mapping.firstPiece kernel) left right ↔
      left = mapping.start ∧ right = mapping.stop ∧ needle <:+: mapping.shownPath kernel := by
  obtain ⟨ending, endsInSpace, isPiece⟩ := mapping.firstPiece_eq kernel
  obtain ⟨spaces, isPadding, areSpaces⟩ := mapping.padding_spaces kernel
  have isString : cString (mapping.firstPiece kernel) = mapping.firstPiece kernel := by
    unfold cString
    refine List.takeWhile_eq_self_iff.mpr fun char isMember => ?_
    rcases List.mem_append.mp (List.mem_of_mem_take isMember) with inLine | isNewline
    · simpa using (mapping.line_plain kernel char inLine).2
    · rw [List.mem_singleton.mp isNewline]
      decide
  have pathNoSpace : ∀ char ∈ mapping.shownPath kernel, isSpace char = false :=
    fun char isMember => (mapping.noSpace char (List.mem_of_mem_take isMember)).1
  have paddingIsSpace : ∀ char ∈ ' ' :: spaces, isSpace char = true := by
    intro char isMember
    have isSpace : char = ' ' := (List.mem_cons.mp isMember).elim id (areSpaces char)
    rw [isSpace]
    decide
  have scanned : sscanf mapsPattern (mapping.firstPiece kernel) =
      .number mapping.start :: .number mapping.stop ::
        if mapping.shownPath kernel = [] then [] else [.text (mapping.shownPath kernel)] := by
    rw [isPiece, isPadding, List.cons_append, mapping.sscanf_fields,
      ← List.cons_append, sscanf_path paddingIsSpace pathNoSpace endsInSpace]
  unfold IsHit
  rw [isString, scanned]
  constructor
  · rintro ⟨path, converted, -, contains⟩
    split_ifs at converted with isEmpty
    · simp at converted
    · simp only [List.cons.injEq, Value.number.injEq, Value.text.injEq, and_true] at converted
      obtain ⟨isLeft, isRight, isPath⟩ := converted
      exact ⟨isLeft.symm, isRight.symm, isPath ▸ contains⟩
  · rintro ⟨rfl, rfl, contains⟩
    have notEmpty : mapping.shownPath kernel ≠ [] := by
      intro isEmpty
      rw [isEmpty, List.infix_nil] at contains
      exact nonempty contains
    exact ⟨mapping.shownPath kernel, by rw [if_neg notEmpty], mapping.proper.le, contains⟩

end Mapping

/-- A piece of one word converts at most up to the permissions. -/
theorem length_sscanf_oneWord {input : List Char} (oneWord : OneWord input) :
    (sscanf mapsPattern input).length ≤ 2 := by
  refine length_sscanf_cons_le 1 fun _ afterLeft readsLeft => ?_
  refine length_sscanf_cons_le 1 fun _ afterMinus readsMinus => ?_
  refine length_sscanf_cons_le 0 fun _ afterRight readsRight => ?_
  refine length_sscanf_cons_le 0 fun _ afterSpace readsSpace => ?_
  refine length_sscanf_cons_le 0 fun _ afterWord readsWord => ?_
  have isSuffix : afterSpace <:+ input :=
    (((read_suffix readsSpace).trans (read_suffix readsRight)).trans
      (read_suffix readsMinus)).trans (read_suffix readsLeft)
  have leftOneWord : OneWord afterSpace := oneWord.sublist isSuffix.sublist
  obtain ⟨word, readsWord⟩ : ∃ word, readWord afterSpace = some (word, afterWord) := by
    obtain ⟨result, isRead, isResult⟩ := Option.map_eq_some_iff.mp readsWord
    cases isResult
    exact ⟨result.1, isRead⟩
  rw [sscanf_space, leftOneWord.rest readsWord]
  exact le_rfl

theorem not_isHit_of_oneWord {piece : List Char} (oneWord : OneWord piece) (needle : List Char)
    (left right : Nat) : ¬ IsHit needle piece left right := by
  rintro ⟨path, converted, -⟩
  have atMost := length_sscanf_oneWord (oneWord.sublist (List.takeWhile_sublist (· ≠ '\x00')))
  unfold cString at converted
  rw [converted] at atMost
  exact absurd atMost (by simp)

/-! ## Reading the text back -/

/-- The pieces of a line: its start, and parts of a path that is too long for the
buffer. -/
theorem fgetsAll_mapping (kernel : Kernel) (mapping : Mapping) (stream : List Char) :
    ∃ tails, fgetsAll lineRoom [] (mapping.line kernel ++ '\n' :: stream) =
        mapping.firstPiece kernel :: (tails ++ fgetsAll lineRoom [] stream) ∧
      ∀ piece ∈ tails, OneWord piece := by
  have noNewline : '\n' ∉ mapping.line kernel := fun isMember =>
    (mapping.line_plain kernel '\n' isMember).1 rfl
  have cut : fgetsAll lineRoom [] (mapping.line kernel ++ '\n' :: stream) =
      mapping.firstPiece kernel ::
        fgetsAll lineRoom [] ((mapping.line kernel ++ ['\n']).drop lineRoom ++ stream) :=
    fgetsAll_line (by decide) noNewline stream
  rcases Nat.lt_or_ge (mapping.line kernel).length lineRoom with short | long
  · have nothingLeft : (mapping.line kernel ++ ['\n']).drop lineRoom = [] :=
      List.drop_of_length_le (by simp; omega)
    rw [nothingLeft] at cut
    exact ⟨[], cut, by simp⟩
  · have left : (mapping.line kernel ++ ['\n']).drop lineRoom =
        (mapping.line kernel).drop lineRoom ++ ['\n'] := List.drop_append_of_le_length long
    have noNewlineLeft : '\n' ∉ (mapping.line kernel).drop lineRoom := fun isMember =>
      noNewline (List.mem_of_mem_drop isMember)
    obtain ⟨tails, areTails, areParts⟩ :=
      fgetsAll_parts lineRoom (by decide) noNewlineLeft stream
    -- What is left of the line is a part of the path.
    have inPath : ∀ char ∈ (mapping.line kernel).drop lineRoom, isSpace char = false := by
      intro char isMember
      have headFits := mapping.length_head_le kernel
      unfold Mapping.line at isMember
      rw [List.drop_append, List.drop_of_length_le headFits, List.nil_append] at isMember
      exact (mapping.noSpace char (List.mem_of_mem_drop isMember)).1
    have oneWord : OneWord ((mapping.line kernel).drop lineRoom ++ ['\n']) := by
      refine List.pairwise_append.mpr ⟨?_, List.pairwise_singleton _ _, ?_⟩
      · refine List.pairwise_of_forall_mem_list fun char isMember later _ isSpace => ?_
        exact absurd isSpace (by simp [inPath char isMember])
      · intro char isMember later _ isSpace
        exact absurd isSpace (by simp [inPath char isMember])
    rw [left, List.append_assoc, List.singleton_append, areTails] at cut
    exact ⟨tails, cut, fun piece isTail => oneWord.sublist (areParts piece isTail).sublist⟩

/-- **The hits are the mappings that show the name.** -/
theorem hits_mapsText (kernel : Kernel) {needle : List Char} (nonempty : needle ≠ [])
    (mappings : List Mapping) (left right : Nat) :
    (∃ piece ∈ fgetsAll lineRoom [] (mapsText kernel mappings), IsHit needle piece left right) ↔
      ∃ mapping ∈ mappings, needle <:+: mapping.shownPath kernel ∧
        mapping.start = left ∧ mapping.stop = right := by
  induction mappings with
  | nil => simp [mapsText, fgetsAll]
  | cons mapping rest inductionHypothesis =>
      obtain ⟨tails, arePieces, areOneWord⟩ :=
        fgetsAll_mapping kernel mapping (mapsText kernel rest)
      have noTail : ∀ piece ∈ tails, ¬ IsHit needle piece left right :=
        fun piece isTail => not_isHit_of_oneWord (areOneWord piece isTail) needle left right
      rw [mapsText, arePieces]
      simp only [List.exists_mem_cons_iff, List.mem_append, or_and_right, exists_or,
        inductionHypothesis, mapping.isHit_firstPiece_iff kernel nonempty]
      constructor
      · rintro (⟨isLeft, isRight, contains⟩ | ⟨piece, isTail, isHit⟩ | isLater)
        · exact Or.inl ⟨contains, isLeft.symm, isRight.symm⟩
        · exact absurd isHit (noTail piece isTail)
        · exact Or.inr isLater
      · rintro (⟨contains, isLeft, isRight⟩ | isLater)
        · exact Or.inl ⟨isLeft.symm, isRight.symm, contains⟩
        · exact Or.inr (Or.inr isLater)

/-! ## The dump -/

/-- The cast of a word to `jsize`. -/
def toJsize (word : Nat) : Int :=
  if word < 0x80000000 then word else (word : Int) - wordSize

/-- What `dumpSharedObject` copies: from `start` on, `length` bytes. -/
structure Dump where
  start : Nat
  stop : Nat
  length : Int
deriving DecidableEq, Repr

/-- `Killer.dumpSharedObject`. -/
def dumpSharedObject (filename : List Char) (maps : Option (List Char)) (state : MapsState) :
    Dump :=
  let result := getSharedObjectMaps filename maps state
  let start := if result.got then result.startOut else 0
  let stop := if result.got then result.endOut else 0
  ⟨start, stop, toJsize ((stop + wordSize - start) % wordSize)⟩

/-- What follows the last slash of a path. -/
def lastComponent (path : List Char) : List Char :=
  path.rtakeWhile (· ≠ '/')

namespace Mappings

variable (kernel : Kernel) (filename : List Char) (process : Mappings)

/-- Every address of the range lies in a mapping of the file, and the length is the
number of bytes in it. -/
def DumpsObject : Prop :=
  ∀ state, let maps := some (mapsText kernel process.mappings)
    (getSharedObjectMaps filename maps state).got = true →
    let dump := dumpSharedObject filename maps state
    (∀ address, dump.start ≤ address → address < dump.stop →
      ∃ mapping ∈ process.mappings, mapping.start ≤ address ∧ address < mapping.stop ∧
        lastComponent mapping.path = filename) ∧
    0 ≤ dump.length ∧ dump.length = (dump.stop : Int) - dump.start

/-- From the first to the last mapping that shows the name. -/
def objectSpan : List Mapping :=
  Intervals.span (fun mapping => decide (filename <:+: mapping.shownPath kernel)) process.mappings

/-- The mappings of the span all map the file, touch, and are smaller than 2 GiB
together. -/
def IsOneObject : Prop :=
  (∀ mapping ∈ process.objectSpan kernel filename, lastComponent mapping.path = filename) ∧
    Intervals.Adjoining Mapping.start Mapping.stop (process.objectSpan kernel filename) ∧
    ((process.objectSpan kernel filename).map fun mapping =>
      mapping.stop - mapping.start).sum < 0x80000000

instance : Decidable (process.IsOneObject kernel filename) :=
  inferInstanceAs (Decidable (_ ∧ _ ∧ _))

theorem intervals_ascending :
    Intervals.Ascending Mapping.start Mapping.stop process.mappings :=
  ⟨fun mapping _ => mapping.proper, process.ascending⟩

theorem hitsOf_mappings (nonempty : filename ≠ []) :
    hitsOf filename (mapsPieces (some (mapsText kernel process.mappings))) =
      {hit | ∃ mapping ∈ process.mappings,
        decide (filename <:+: mapping.shownPath kernel) = true ∧
          (mapping.start, mapping.stop) = hit} := by
  ext ⟨left, right⟩
  simp only [Set.mem_ofPred_eq, decide_eq_true_eq, Prod.mk.injEq]
  exact hits_mapsText kernel nonempty process.mappings left right

theorem leftsOf_mappings (nonempty : filename ≠ []) :
    leftsOf filename (mapsPieces (some (mapsText kernel process.mappings))) =
      {point | ∃ mapping ∈ process.mappings,
        decide (filename <:+: mapping.shownPath kernel) = true ∧ mapping.start = point} := by
  rw [leftsOf_eq_image, process.hitsOf_mappings kernel filename nonempty]
  ext left
  constructor
  · rintro ⟨_, ⟨mapping, isMapping, isSelected, rfl⟩, isLeft⟩
    exact ⟨mapping, isMapping, isSelected, isLeft⟩
  · rintro ⟨mapping, isMapping, isSelected, isLeft⟩
    exact ⟨_, ⟨mapping, isMapping, isSelected, rfl⟩, isLeft⟩

theorem rightsOf_mappings (nonempty : filename ≠ []) :
    rightsOf filename (mapsPieces (some (mapsText kernel process.mappings))) =
      {point | ∃ mapping ∈ process.mappings,
        decide (filename <:+: mapping.shownPath kernel) = true ∧ mapping.stop = point} := by
  rw [rightsOf_eq_image, process.hitsOf_mappings kernel filename nonempty]
  ext right
  constructor
  · rintro ⟨_, ⟨mapping, isMapping, isSelected, rfl⟩, isRight⟩
    exact ⟨mapping, isMapping, isSelected, isRight⟩
  · rintro ⟨mapping, isMapping, isSelected, isRight⟩
    exact ⟨_, ⟨mapping, isMapping, isSelected, rfl⟩, isRight⟩

theorem got_iff_span (nonempty : filename ≠ []) (state : MapsState) :
    (getSharedObjectMaps filename (some (mapsText kernel process.mappings)) state).got = true ↔
      process.objectSpan kernel filename ≠ [] := by
  have hull := getSharedObjectMaps_hull nonempty (some (mapsText kernel process.mappings)) state
  rw [hull.got_iff, process.hitsOf_mappings kernel filename nonempty]
  constructor
  · rintro ⟨hit, mapping, isMapping, isSelected, -⟩
    exact List.ne_nil_of_mem (Intervals.mem_span _ isMapping isSelected)
  · intro hasSpan
    obtain ⟨first, rest, isSpan⟩ := List.exists_cons_of_ne_nil hasSpan
    obtain ⟨mapping, isMapping, isSelected, -⟩ :=
      (process.intervals_ascending.least_span isSpan).1
    exact ⟨_, mapping, isMapping, isSelected, rfl⟩

/-- The range that is dumped runs from the start of the span to its stop. -/
theorem dump_of_span (nonempty : filename ≠ []) (state : MapsState) {first : Mapping}
    {rest : List Mapping} (isSpan : process.objectSpan kernel filename = first :: rest) :
    let dump := dumpSharedObject filename (some (mapsText kernel process.mappings)) state
    dump.start = first.start ∧
      dump.stop = ((first :: rest).getLast (List.cons_ne_nil first rest)).stop ∧
      dump.length = toJsize ((dump.stop + wordSize - dump.start) % wordSize) := by
  intro dump
  have isGot := (process.got_iff_span kernel filename nonempty state).mpr (by simp [isSpan])
  have hull := getSharedObjectMaps_hull nonempty (some (mapsText kernel process.mappings)) state
  have least := hull.least isGot
  have greatest := hull.greatest isGot
  rw [process.leftsOf_mappings kernel filename nonempty] at least
  rw [process.rightsOf_mappings kernel filename nonempty] at greatest
  refine ⟨?_, ?_, rfl⟩
  · simp only [dump, dumpSharedObject, isGot, if_true]
    exact least.unique (process.intervals_ascending.least_span isSpan)
  · simp only [dump, dumpSharedObject, isGot, if_true]
    exact greatest.unique (process.intervals_ascending.greatest_span isSpan)

/-- The length is right if and only if it fits a signed word. -/
theorem toJsize_length_iff {start stop : Nat} (inOrder : start ≤ stop) (inMemory : stop < wordSize) :
    (0 ≤ toJsize ((stop + wordSize - start) % wordSize) ∧
      toJsize ((stop + wordSize - start) % wordSize) = (stop : Int) - start) ↔
      stop - start < 0x80000000 := by
  have isLength : (stop + wordSize - start) % wordSize = stop - start := by
    have regrouped : stop + wordSize - start = stop - start + wordSize := by omega
    rw [regrouped, Nat.add_mod_right]
    exact Nat.mod_eq_of_lt (by omega)
  rw [isLength]
  unfold toJsize
  unfold wordSize at *
  split_ifs with fits
  · constructor
    · exact fun _ => fits
    · exact fun _ => ⟨by omega, by omega⟩
  · constructor
    · rintro ⟨nonnegative, -⟩
      omega
    · exact fun fits' => absurd fits' fits

theorem span_in_order {first : Mapping} {rest : List Mapping}
    (isSpan : process.objectSpan kernel filename = first :: rest) :
    first.start ≤ ((first :: rest).getLast (List.cons_ne_nil first rest)).stop := by
  have isFirst : first ∈ process.mappings ∧
      decide (filename <:+: first.shownPath kernel) = true := by
    obtain ⟨before, after, split, -⟩ := Intervals.span_split
      (fun mapping => decide (filename <:+: mapping.shownPath kernel)) process.mappings
    refine ⟨?_, (Intervals.span_ends _ isSpan).1⟩
    unfold objectSpan at isSpan
    rw [split, isSpan]
    simp
  exact first.proper.le.trans
    ((process.intervals_ascending.greatest_span isSpan).2 ⟨first, isFirst.1, isFirst.2, rfl⟩)

/-- **The dumped range is the shared object exactly when the mappings from the first to
the last one that shows the name all map the file, touch, and are smaller than 2 GiB
together.** -/
theorem dumpsObject_iff_isOneObject {filename : List Char} (nonempty : filename ≠ []) :
    process.DumpsObject kernel filename ↔ process.IsOneObject kernel filename := by
  have gotIff := process.got_iff_span kernel filename nonempty
  cases isSpan : process.objectSpan kernel filename with
  | nil =>
      have vacuous : process.DumpsObject kernel filename := fun state isGot =>
        absurd isSpan ((gotIff state).mp isGot)
      have isOne : process.IsOneObject kernel filename := by
        unfold IsOneObject
        rw [isSpan]
        exact ⟨by simp, List.IsChain.nil, by decide⟩
      exact ⟨fun _ => isOne, fun _ => vacuous⟩
  | cons first rest =>
      have dumpIs := fun state => process.dump_of_span kernel filename nonempty state isSpan
      have coveredIff := @Intervals.covered_span_iff Mapping Nat _ Mapping.start Mapping.stop
        (fun mapping => lastComponent mapping.path = filename) _ _ _ _
        process.intervals_ascending isSpan
      have lengthIff := toJsize_length_iff (process.span_in_order kernel filename isSpan)
        ((first :: rest).getLast (List.cons_ne_nil first rest)).inMemory
      have lengthIs := @Intervals.length_of_adjoining Mapping Mapping.start Mapping.stop first rest
        fun mapping _ => mapping.proper
      unfold IsOneObject
      rw [isSpan]
      constructor
      · intro dumps
        obtain ⟨covered, rightLength⟩ := dumps ⟨false, 0, 0, [], 0, 0⟩
          ((gotIff _).mpr (by simp [isSpan]))
        obtain ⟨isStart, isStop, isLength⟩ := dumpIs ⟨false, 0, 0, [], 0, 0⟩
        rw [isLength, isStart, isStop] at rightLength
        rw [isStart, isStop] at covered
        obtain ⟨named, adjoining⟩ := coveredIff.mp covered
        refine ⟨named, adjoining, ?_⟩
        have fits := lengthIff.mp rightLength
        have total := lengthIs adjoining
        omega
      · rintro ⟨named, adjoining, fits⟩ state maps -
        obtain ⟨isStart, isStop, isLength⟩ := dumpIs state
        dsimp only
        rw [isLength, isStart, isStop]
        refine ⟨coveredIff.mpr ⟨named, adjoining⟩, lengthIff.mpr ?_⟩
        have total := lengthIs adjoining
        omega

/-- A mapping of the library that the next statements are about. -/
def ofLibrary (start stop : Nat) (proper : start < stop) (inMemory : stop < wordSize) : Mapping where
  start := start
  stop := stop
  readable := true
  writable := false
  executable := true
  isShared := false
  offset := 0
  major := 0
  minor := 0
  inode := 1
  path := "/lib/a.so".toList
  proper := proper
  inMemory := inMemory
  inRange := by decide
  noSpace := Mapping.visible_of_all (by decide)

/-- Two mappings that touch. -/
theorem dumpsObject_of_touching :
    (Mappings.mk [ofLibrary 0x1000 0x2000 (by decide) (by decide),
      ofLibrary 0x2000 0x3000 (by decide) (by decide)] (by decide)).DumpsObject .bits32
      "a.so".toList :=
  (dumpsObject_iff_isOneObject _ _ (by decide)).mpr (by decide +kernel)

/-- Two mappings with a gap between them: the address at its start is dumped, and
mapped to nothing. -/
theorem not_dumpsObject_of_gap :
    ¬ (Mappings.mk [ofLibrary 0x1000 0x2000 (by decide) (by decide),
      ofLibrary 0x3000 0x4000 (by decide) (by decide)] (by decide)).DumpsObject .bits32
      "a.so".toList := by
  intro dumps
  obtain ⟨covered, -⟩ := dumps ⟨false, 0, 0, [], 0, 0⟩ (by decide +kernel)
  obtain ⟨mapping, isMapping, starts, stops, -⟩ :=
    covered 0x2000 (by decide +kernel) (by decide +kernel)
  simp only [List.mem_cons, List.not_mem_nil, or_false] at isMapping
  rcases isMapping with isFirst | isSecond
  · rw [isFirst] at stops
    exact absurd stops (by decide)
  · rw [isSecond] at starts
    exact absurd starts (by decide)

end Mappings

end AndroidPatch.Killer
