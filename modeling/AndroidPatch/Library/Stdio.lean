import Mathlib.Algebra.Ring.Nat
import Mathlib.Data.List.Infix

/-!
Contract: the part of `<cstdio>` and `<cstring>` that reads a text line by line and
takes it apart: `fgets`, `sscanf` and `strstr`.

Owns:
- the pieces into which `fgets` cuts a stream;
- the directives of a scanning pattern, what each one reads, and the values that a
  pattern stores;
- that the stored values are a prefix of those asked for, and that what is left of
  the input is a suffix of it.

A byte is a character, and a string is a list of them. A number that a field holds is
stored in a word of 32 bits.
-/

namespace AndroidPatch.Library.Stdio

/-! ## Pieces and strings -/

/-- What successive calls of `fgets` return until the stream ends: pieces of at most
`room` bytes, each one ended by a newline, by the bound or by the end of the stream.
`piece` is what the call under way has read so far. -/
def fgetsAll (room : Nat) (piece : List Char) : List Char → List (List Char)
  | [] => if piece = [] then [] else [piece]
  | char :: stream =>
      if char = '\n' ∨ piece.length + 1 = room then
        (piece ++ [char]) :: fgetsAll room [] stream
      else fgetsAll room (piece ++ [char]) stream

/-- The string that a buffer holds. -/
def cString (buffer : List Char) : List Char :=
  buffer.takeWhile (· ≠ '\x00')

/-- `strstr`: the haystack from the first occurrence of the needle on. -/
def strstr (haystack needle : List Char) : Option (List Char) :=
  haystack.tails.find? needle.isPrefixOf

theorem strstr_isSome_iff (haystack needle : List Char) :
    (strstr haystack needle).isSome ↔ needle <:+: haystack := by
  unfold strstr
  rw [List.find?_isSome]
  simp only [List.mem_tails, List.isPrefixOf_iff_prefix]
  rw [List.infix_iff_prefix_suffix]
  constructor
  · rintro ⟨tail, isSuffix, isPrefix⟩
    exact ⟨tail, isPrefix, isSuffix⟩
  · rintro ⟨tail, isPrefix, isSuffix⟩
    exact ⟨tail, isSuffix, isPrefix⟩

/-! ## Numbers and words -/

/-- `isspace` in the C locale. -/
def isSpace (char : Char) : Bool :=
  char ∈ [' ', '\t', '\n', '\x0b', '\x0c', '\r']

def skipSpace (input : List Char) : List Char :=
  input.dropWhile isSpace

/-- The value of a letter or digit; no base is larger than 36. -/
def digitValue (char : Char) : Nat :=
  if '0' ≤ char ∧ char ≤ '9' then char.toNat - 48
  else if 'a' ≤ char ∧ char ≤ 'z' then char.toNat - 87
  else if 'A' ≤ char ∧ char ≤ 'Z' then char.toNat - 55
  else 36

def isDigitOf (base : Nat) (char : Char) : Bool :=
  digitValue char < base

def digitsValue (base : Nat) (digits : List Char) : Nat :=
  digits.foldl (fun value digit => base * value + digitValue digit) 0

/-- The number of values of a word. -/
def wordSize : Nat := 0x100000000

def readSign : List Char → Bool × List Char
  | '-' :: rest => (true, rest)
  | '+' :: rest => (false, rest)
  | input => (false, input)

/-- The prefix that base 16 allows. -/
def skipPrefix (base : Nat) : List Char → List Char
  | '0' :: 'x' :: rest => if base = 16 then rest else '0' :: 'x' :: rest
  | '0' :: 'X' :: rest => if base = 16 then rest else '0' :: 'X' :: rest
  | input => input

/-- `%x` or `%u`: white space, a sign, a prefix and digits, of which there must be
one. A minus sign negates the word; a number too large for it is cut to it. -/
def readNumber (base : Nat) (input : List Char) : Option (Nat × List Char) :=
  let (negative, unsigned) := readSign (skipSpace input)
  let unprefixed := skipPrefix base unsigned
  let digits := unprefixed.takeWhile (isDigitOf base)
  let word := digitsValue base digits % wordSize
  if digits = [] then none
  else some (if negative then (wordSize - word) % wordSize else word,
    unprefixed.dropWhile (isDigitOf base))

/-- `%s`: white space, and what stands up to the next. -/
def readWord (input : List Char) : Option (List Char × List Char) :=
  let trimmed := skipSpace input
  let word := trimmed.takeWhile (! isSpace ·)
  if word = [] then none
  else some (word, trimmed.dropWhile (! isSpace ·))

/-- A character of the pattern that stands for itself. -/
def readLiteral (char : Char) : List Char → Option (List Char)
  | [] => none
  | first :: rest => if first = char then some rest else none

/-! ## Patterns -/

inductive Value where
  | number (word : Nat)
  | text (characters : List Char)
deriving DecidableEq, Repr

inductive Kind where
  | number
  | text
deriving DecidableEq, Repr

def Value.kind : Value → Kind
  | .number _ => .number
  | .text _ => .text

/-- A directive of a pattern. A conversion is stored unless a `*` suppresses it. -/
inductive Directive where
  | space
  | literal (char : Char)
  | number (base : Nat) (stored : Bool)
  | word (stored : Bool)
deriving DecidableEq, Repr

namespace Directive

/-- The kind of the value that the directive stores, if it stores one. -/
def kind : Directive → Option Kind
  | .number _ true => some .number
  | .word true => some .text
  | _ => none

/-- The value that the directive stores and what is left of the input, or the failure
that ends the scan. -/
def read : Directive → List Char → Option (Option Value × List Char)
  | .space, input => some (none, skipSpace input)
  | .literal char, input => (readLiteral char input).map (none, ·)
  | .number base stored, input =>
      (readNumber base input).map fun result =>
        (if stored then some (.number result.1) else none, result.2)
  | .word stored, input =>
      (readWord input).map fun result =>
        (if stored then some (.text result.1) else none, result.2)

end Directive

/-- `sscanf`: the values stored, in order, up to the first directive that fails. -/
def sscanf : List Directive → List Char → List Value
  | [], _ => []
  | directive :: pattern, input =>
      match directive.read input with
      | none => []
      | some (value, rest) => value.toList ++ sscanf pattern rest

theorem sscanf_of_fail {directive : Directive} {input : List Char}
    (fails : directive.read input = none) (pattern : List Directive) :
    sscanf (directive :: pattern) input = [] := by
  rw [sscanf, fails]

theorem sscanf_of_read {directive : Directive} {input rest : List Char} {value : Option Value}
    (reads : directive.read input = some (value, rest)) (pattern : List Directive) :
    sscanf (directive :: pattern) input = value.toList ++ sscanf pattern rest := by
  rw [sscanf, reads]

theorem kind_of_read {directive : Directive} {input rest : List Char} {value : Option Value}
    (reads : directive.read input = some (value, rest)) :
    value.map Value.kind = directive.kind := by
  cases directive with
  | space =>
      cases reads
      rfl
  | literal char =>
      obtain ⟨result, -, isResult⟩ := Option.map_eq_some_iff.mp reads
      cases isResult
      rfl
  | number base stored =>
      obtain ⟨result, -, isResult⟩ := Option.map_eq_some_iff.mp reads
      cases isResult
      cases stored
      · rfl
      · rfl
  | word stored =>
      obtain ⟨result, -, isResult⟩ := Option.map_eq_some_iff.mp reads
      cases isResult
      cases stored
      · rfl
      · rfl

/-- **The stored values are a prefix of those that the pattern asks for.** -/
theorem sscanf_kinds (pattern : List Directive) (input : List Char) :
    (sscanf pattern input).map Value.kind <+: pattern.filterMap Directive.kind := by
  induction pattern generalizing input with
  | nil => exact List.nil_prefix
  | cons directive pattern inductionHypothesis =>
      cases isRead : directive.read input with
      | none =>
          rw [sscanf_of_fail isRead]
          exact List.nil_prefix
      | some result =>
          obtain ⟨value, rest⟩ := result
          have kindIs := kind_of_read isRead
          rw [sscanf_of_read isRead, List.map_append, List.filterMap_cons, ← kindIs]
          cases value with
          | none => exact inductionHypothesis rest
          | some value => exact (List.prefix_cons_inj _).mpr (inductionHypothesis rest)

/-! ## What is left of the input -/

theorem skipSpace_suffix (input : List Char) : skipSpace input <:+ input :=
  List.dropWhile_suffix _

theorem readSign_suffix (input : List Char) : (readSign input).2 <:+ input := by
  unfold readSign
  split
  · exact List.suffix_cons _ _
  · exact List.suffix_cons _ _
  · exact List.suffix_rfl

theorem skipPrefix_suffix (base : Nat) (input : List Char) : skipPrefix base input <:+ input := by
  unfold skipPrefix
  split
  · split_ifs
    · exact (List.suffix_cons _ _).trans (List.suffix_cons _ _)
    · exact List.suffix_rfl
  · split_ifs
    · exact (List.suffix_cons _ _).trans (List.suffix_cons _ _)
    · exact List.suffix_rfl
  · exact List.suffix_rfl

theorem readNumber_suffix {base : Nat} {input rest : List Char} {word : Nat}
    (reads : readNumber base input = some (word, rest)) : rest <:+ input := by
  unfold readNumber at reads
  dsimp only at reads
  split_ifs at reads
  all_goals
    cases reads
    exact ((List.dropWhile_suffix _).trans (skipPrefix_suffix _ _)).trans
      ((readSign_suffix _).trans (skipSpace_suffix input))

theorem readWord_rest {input rest word : List Char} (reads : readWord input = some (word, rest)) :
    rest = (skipSpace input).dropWhile (! isSpace ·) := by
  unfold readWord at reads
  dsimp only at reads
  split_ifs at reads
  simp only [Option.some.injEq, Prod.mk.injEq] at reads
  exact reads.2.symm

theorem readWord_suffix {input rest word : List Char} (reads : readWord input = some (word, rest)) :
    rest <:+ input := by
  rw [readWord_rest reads]
  exact (List.dropWhile_suffix _).trans (skipSpace_suffix input)

theorem readLiteral_suffix {char : Char} {input rest : List Char}
    (reads : readLiteral char input = some rest) : rest <:+ input := by
  cases input with
  | nil => cases reads
  | cons first input =>
      simp only [readLiteral] at reads
      split_ifs at reads
      cases reads
      exact List.suffix_cons first _

/-- **What a directive leaves is a suffix of what it was given.** -/
theorem read_suffix {directive : Directive} {input rest : List Char} {value : Option Value}
    (reads : directive.read input = some (value, rest)) : rest <:+ input := by
  cases directive with
  | space =>
      cases reads
      exact skipSpace_suffix input
  | literal char =>
      obtain ⟨result, isRead, isResult⟩ := Option.map_eq_some_iff.mp reads
      cases isResult
      exact readLiteral_suffix isRead
  | number base stored =>
      obtain ⟨result, isRead, isResult⟩ := Option.map_eq_some_iff.mp reads
      cases isResult
      exact readNumber_suffix isRead
  | word stored =>
      obtain ⟨result, isRead, isResult⟩ := Option.map_eq_some_iff.mp reads
      cases isResult
      exact readWord_suffix isRead

/-- A directive adds at most the value that it stores. -/
theorem length_sscanf_cons_le {directive : Directive} {pattern : List Directive}
    {input : List Char} (bound : Nat)
    (later : ∀ value rest, directive.read input = some (value, rest) →
      (sscanf pattern rest).length ≤ bound) :
    (sscanf (directive :: pattern) input).length ≤ directive.kind.toList.length + bound := by
  cases isRead : directive.read input with
  | none =>
      rw [sscanf_of_fail isRead]
      exact Nat.zero_le _
  | some result =>
      obtain ⟨value, rest⟩ := result
      have atMost := later value rest isRead
      have sameLength : value.toList.length = directive.kind.toList.length := by
        rw [← kind_of_read isRead]
        cases value with
        | none => rfl
        | some value => rfl
      rw [sscanf_of_read isRead, List.length_append, sameLength]
      omega

/-! ## Reading back what was printed -/

/-- `%0wx` or `%0wu`: the digits of a number, with leading zeros up to a width. -/
def printNumber (base width value : Nat) : List Char :=
  List.replicate (width - (Nat.toDigits base value).length) '0' ++ Nat.toDigits base value

theorem skipSpace_spaces {spaces : List Char} (areSpaces : ∀ char ∈ spaces, isSpace char = true)
    (rest : List Char) : skipSpace (spaces ++ rest) = skipSpace rest :=
  List.dropWhile_append_of_pos areSpaces

theorem skipSpace_word {word : List Char} (nonempty : word ≠ [])
    (noSpace : ∀ char ∈ word, isSpace char = false) (rest : List Char) :
    skipSpace (word ++ rest) = word ++ rest := by
  cases word with
  | nil => exact absurd rfl nonempty
  | cons first word => simp [skipSpace, noSpace first]

section Printed

variable {base : Nat}

theorem digitValue_digitChar {digit : Nat} (small : digit < 16) :
    digitValue digit.digitChar = digit := by
  have allOf : ∀ digit : Fin 16, digitValue (Nat.digitChar digit) = digit := by decide
  exact allOf ⟨digit, small⟩

theorem digitsValue_append (digits : List Char) (digit : Char) :
    digitsValue base (digits ++ [digit]) = base * digitsValue base digits + digitValue digit := by
  simp [digitsValue]

theorem digitsValue_zeros (zeros : Nat) (digits : List Char) :
    digitsValue base (List.replicate zeros '0' ++ digits) = digitsValue base digits := by
  induction zeros with
  | zero => rfl
  | succ zeros inductionHypothesis =>
      rw [← inductionHypothesis]
      simp [digitsValue, List.replicate_succ, show digitValue '0' = 0 by decide]

theorem digitsValue_toDigits (atLeast : 1 < base) (atMost : base ≤ 16) (value : Nat) :
    digitsValue base (Nat.toDigits base value) = value := by
  induction value using Nat.strongRecOn with
  | _ value inductionHypothesis =>
      rw [Nat.toDigits_eq_if atLeast]
      split_ifs with isDigit
      · simp [digitsValue, digitValue_digitChar (Nat.lt_of_lt_of_le isDigit atMost)]
      · have lower : value % base < base := Nat.mod_lt value (by omega)
        have smaller : value / base < value := Nat.div_lt_self (by omega) atLeast
        rw [digitsValue_append, inductionHypothesis _ smaller,
          digitValue_digitChar (Nat.lt_of_lt_of_le lower atMost)]
        exact Nat.div_add_mod value base

theorem digitsValue_printNumber (atLeast : 1 < base) (atMost : base ≤ 16) (width value : Nat) :
    digitsValue base (printNumber base width value) = value := by
  unfold printNumber
  rw [digitsValue_zeros, digitsValue_toDigits atLeast atMost]

theorem isDigitOf_toDigits (atLeast : 1 < base) (atMost : base ≤ 16) (value : Nat) :
    ∀ digit ∈ Nat.toDigits base value, isDigitOf base digit := by
  induction value using Nat.strongRecOn with
  | _ value inductionHypothesis =>
      intro digit isMember
      rw [Nat.toDigits_eq_if atLeast] at isMember
      have isDigit : ∀ number, number < base → isDigitOf base number.digitChar := by
        intro number small
        simp [isDigitOf, digitValue_digitChar (Nat.lt_of_lt_of_le small atMost), small]
      split_ifs at isMember with small
      · rw [List.mem_singleton.mp isMember]
        exact isDigit value small
      · have smaller : value / base < value := Nat.div_lt_self (by omega) atLeast
        rcases List.mem_append.mp isMember with isUpper | isLower
        · exact inductionHypothesis _ smaller digit isUpper
        · rw [List.mem_singleton.mp isLower]
          exact isDigit _ (Nat.mod_lt value (by omega))

theorem isDigitOf_printNumber (atLeast : 1 < base) (atMost : base ≤ 16) (width value : Nat) :
    ∀ digit ∈ printNumber base width value, isDigitOf base digit := by
  intro digit isMember
  rcases List.mem_append.mp isMember with isZero | isDigit
  · rw [List.eq_of_mem_replicate isZero]
    simp [isDigitOf, show digitValue '0' = 0 by decide]
    omega
  · exact isDigitOf_toDigits atLeast atMost value digit isDigit

theorem printNumber_ne_nil (width value : Nat) : printNumber base width value ≠ [] := by
  simp [printNumber, Nat.toDigits_ne_nil]

theorem length_printNumber_le {size value : Nat} (atLeast : 1 < base) (positive : 0 < size)
    (fits : value < base ^ size) (width : Nat) :
    (printNumber base width value).length ≤ max width size := by
  have digitsFit := (Nat.length_toDigits_le_iff atLeast positive).mpr fits
  simp only [printNumber, List.length_append, List.length_replicate]
  omega

/-- A digit is none of the characters that end a number or stand before one. -/
theorem ne_of_isDigitOf (atMost : base ≤ 16) {digit other : Char} (isDigit : isDigitOf base digit)
    (notDigit : 16 ≤ digitValue other) : digit ≠ other := by
  rintro rfl
  simp only [isDigitOf, decide_eq_true_eq] at isDigit
  omega

theorem isSpace_of_isDigitOf (atMost : base ≤ 16) {digit : Char} (isDigit : isDigitOf base digit) :
    isSpace digit = false := by
  unfold isSpace
  simp only [List.mem_cons, List.not_mem_nil, or_false, decide_eq_false_iff_not, not_or]
  exact ⟨ne_of_isDigitOf atMost isDigit (by decide), ne_of_isDigitOf atMost isDigit (by decide),
    ne_of_isDigitOf atMost isDigit (by decide), ne_of_isDigitOf atMost isDigit (by decide),
    ne_of_isDigitOf atMost isDigit (by decide), ne_of_isDigitOf atMost isDigit (by decide)⟩

theorem isSpace_printNumber (atLeast : 1 < base) (atMost : base ≤ 16) (width value : Nat) :
    ∀ digit ∈ printNumber base width value, isSpace digit = false :=
  fun digit isMember => isSpace_of_isDigitOf atMost
    (isDigitOf_printNumber atLeast atMost width value digit isMember)

theorem readSign_of_head {first : Char} (notMinus : first ≠ '-') (notPlus : first ≠ '+')
    (rest : List Char) : readSign (first :: rest) = (false, first :: rest) := by
  unfold readSign
  split
  · exact absurd (by simp_all) notMinus
  · exact absurd (by simp_all) notPlus
  · rfl

theorem skipPrefix_of_second {second : Char} (notLower : second ≠ 'x') (notUpper : second ≠ 'X')
    (first : Char) (rest : List Char) :
    skipPrefix base (first :: second :: rest) = first :: second :: rest := by
  unfold skipPrefix
  split
  · exact absurd (by simp_all) notLower
  · exact absurd (by simp_all) notUpper
  · rfl

/-- A character that ends a number. -/
def Ends (base : Nat) (char : Char) : Prop :=
  isDigitOf base char = false ∧ char ≠ 'x' ∧ char ≠ 'X'

theorem skipPrefix_of_digits (atMost : base ≤ 16) {digits : List Char} {ending : Char}
    (nonempty : digits ≠ []) (areDigits : ∀ digit ∈ digits, isDigitOf base digit)
    (ends : Ends base ending) (rest : List Char) :
    skipPrefix base (digits ++ ending :: rest) = digits ++ ending :: rest := by
  rcases digits with _ | ⟨first, _ | ⟨second, digits⟩⟩
  · exact absurd rfl nonempty
  · exact skipPrefix_of_second ends.2.1 ends.2.2 first rest
  · have isDigit := areDigits second (by simp)
    exact skipPrefix_of_second (ne_of_isDigitOf atMost isDigit (by decide))
      (ne_of_isDigitOf atMost isDigit (by decide)) first (digits ++ ending :: rest)

theorem readNumber_of_digits (atMost : base ≤ 16) {digits : List Char} {ending : Char}
    (nonempty : digits ≠ []) (areDigits : ∀ digit ∈ digits, isDigitOf base digit)
    (ends : Ends base ending) (rest : List Char) :
    readNumber base (digits ++ ending :: rest) =
      some (digitsValue base digits % wordSize, ending :: rest) := by
  have noPrefix := skipPrefix_of_digits atMost nonempty areDigits ends rest
  have notSkipped : skipSpace (digits ++ ending :: rest) = digits ++ ending :: rest :=
    skipSpace_word nonempty
      (fun digit isMember => isSpace_of_isDigitOf atMost (areDigits digit isMember)) _
  have noSign : readSign (digits ++ ending :: rest) = (false, digits ++ ending :: rest) := by
    cases digits with
    | nil => exact absurd rfl nonempty
    | cons first digits =>
        have isDigit := areDigits first (by simp)
        exact readSign_of_head (ne_of_isDigitOf atMost isDigit (by decide))
          (ne_of_isDigitOf atMost isDigit (by decide)) (digits ++ ending :: rest)
  unfold readNumber
  simp only [notSkipped, noSign, noPrefix]
  rw [List.takeWhile_append_of_pos areDigits, List.dropWhile_append_of_pos areDigits]
  simp [nonempty, ends.1]

theorem readNumber_printNumber (atLeast : 1 < base) (atMost : base ≤ 16) (width value : Nat)
    {ending : Char} (ends : Ends base ending) (rest : List Char) :
    readNumber base (printNumber base width value ++ ending :: rest) =
      some (value % wordSize, ending :: rest) := by
  rw [readNumber_of_digits atMost (printNumber_ne_nil width value)
    (isDigitOf_printNumber atLeast atMost width value) ends,
    digitsValue_printNumber atLeast atMost]

end Printed

theorem readWord_of_word {word rest : List Char} (nonempty : word ≠ [])
    (noSpace : ∀ char ∈ word, isSpace char = false)
    (ends : ∀ char ∈ rest.head?, isSpace char = true) :
    readWord (word ++ rest) = some (word, rest) := by
  have notSkipped := skipSpace_word nonempty noSpace rest
  have areWord : ∀ char ∈ word, (! isSpace char) = true := by
    intro char isMember
    simp [noSpace char isMember]
  unfold readWord
  simp only [notSkipped]
  rw [List.takeWhile_append_of_pos areWord, List.dropWhile_append_of_pos areWord]
  cases rest with
  | nil => simp [nonempty]
  | cons first rest => simp [nonempty, ends first rfl]

/-! ## Scanning step by step -/

section Steps

variable (pattern : List Directive)

@[simp] theorem sscanf_space (input : List Char) :
    sscanf (.space :: pattern) input = sscanf pattern (skipSpace input) := rfl

@[simp] theorem sscanf_literal (char : Char) (rest : List Char) :
    sscanf (.literal char :: pattern) (char :: rest) = sscanf pattern rest := by
  have isRead : (Directive.literal char).read (char :: rest) = some (none, rest) := by
    simp [Directive.read, readLiteral]
  rw [sscanf_of_read isRead]
  rfl

theorem sscanf_number {base : Nat} {input rest : List Char} {word : Nat}
    (reads : readNumber base input = some (word, rest)) (stored : Bool) :
    sscanf (.number base stored :: pattern) input =
      (if stored then [.number word] else []) ++ sscanf pattern rest := by
  have isRead : (Directive.number base stored).read input =
      some (if stored then some (.number word) else none, rest) := by
    simp [Directive.read, reads]
  rw [sscanf_of_read isRead]
  cases stored
  · rfl
  · rfl

theorem sscanf_word {input rest word : List Char} (reads : readWord input = some (word, rest))
    (stored : Bool) :
    sscanf (.word stored :: pattern) input =
      (if stored then [.text word] else []) ++ sscanf pattern rest := by
  have isRead : (Directive.word stored).read input =
      some (if stored then some (.text word) else none, rest) := by
    simp [Directive.read, reads]
  rw [sscanf_of_read isRead]
  cases stored
  · rfl
  · rfl

end Steps

/-! ## Texts of one word -/

/-- No character that is not white space follows one that is. -/
def OneWord (input : List Char) : Prop :=
  input.Pairwise fun char later => isSpace char = true → isSpace later = true

/-- What follows the word is white space. -/
theorem OneWord.rest {input rest word : List Char} (oneWord : OneWord input)
    (reads : readWord input = some (word, rest)) : skipSpace rest = [] := by
  have isRest := readWord_rest reads
  have restOneWord : OneWord rest := oneWord.sublist (readWord_suffix reads).sublist
  cases rest with
  | nil => rfl
  | cons first rest =>
      have firstIsSpace : isSpace first = true := by
        have headNot := @List.head_dropWhile_not _ (! isSpace ·) (skipSpace input)
        rw [← isRest] at headNot
        simpa using headNot (by simp)
      have allSpace := (List.pairwise_cons.mp restOneWord).1
      have restAllSpace : rest.dropWhile isSpace = [] := by
        rw [← List.append_nil rest, List.dropWhile_append_of_pos
          fun char isLater => allSpace char isLater firstIsSpace]
        rfl
      simp [skipSpace, firstIsSpace, restAllSpace]

/-! ## The pieces of a line -/

/-- What a call of `fgets` leaves of a line, it leaves to the next call. -/
theorem fgetsAll_line {room : Nat} {piece line : List Char} (fits : piece.length < room)
    (noNewline : '\n' ∉ line) (stream : List Char) :
    fgetsAll room piece (line ++ '\n' :: stream) =
      (piece ++ line ++ ['\n']).take room ::
        fgetsAll room [] ((piece ++ line ++ ['\n']).drop room ++ stream) := by
  induction line generalizing piece with
  | nil =>
      have whole : (piece ++ ['\n']).length ≤ room := by
        simp
        omega
      simp [fgetsAll, List.take_of_length_le whole, List.drop_of_length_le whole]
  | cons char line inductionHypothesis =>
      obtain ⟨notNewline, noNewlineLater⟩ := List.ne_and_not_mem_of_not_mem_cons noNewline
      rw [List.cons_append, fgetsAll]
      by_cases isFull : piece.length + 1 = room
      · rw [if_pos (Or.inr isFull)]
        have full : (piece ++ [char]).length = room := by simpa using isFull
        have regrouped : piece ++ char :: line ++ ['\n'] =
            (piece ++ [char]) ++ (line ++ ['\n']) := by simp
        rw [regrouped, List.take_left' full, List.drop_left' full]
        simp
      · rw [if_neg (by simp [notNewline.symm, isFull]),
          inductionHypothesis (by simp; omega) noNewlineLater]
        simp

/-- The pieces of a line are parts of it. -/
theorem fgetsAll_parts (room : Nat) (positive : 0 < room) {line : List Char}
    (noNewline : '\n' ∉ line) (stream : List Char) :
    ∃ pieces, fgetsAll room [] (line ++ '\n' :: stream) = pieces ++ fgetsAll room [] stream ∧
      ∀ piece ∈ pieces, piece <:+: line ++ ['\n'] := by
  induction isLength : line.length using Nat.strongRecOn generalizing line with
  | _ length inductionHypothesis =>
      have cut : fgetsAll room [] (line ++ '\n' :: stream) = (line ++ ['\n']).take room ::
          fgetsAll room [] ((line ++ ['\n']).drop room ++ stream) :=
        fgetsAll_line positive noNewline stream
      have isPart : (line ++ ['\n']).take room <:+: line ++ ['\n'] :=
        (List.take_prefix room _).isInfix
      rcases Nat.lt_or_ge line.length room with short | long
      · have nothingLeft : (line ++ ['\n']).drop room = [] :=
          List.drop_of_length_le (by simp; omega)
        rw [nothingLeft, List.nil_append] at cut
        exact ⟨[_], cut, by simpa using isPart⟩
      · have left : (line ++ ['\n']).drop room = line.drop room ++ ['\n'] :=
          List.drop_append_of_le_length long
        have noNewlineLeft : '\n' ∉ line.drop room := fun member =>
          noNewline (List.mem_of_mem_drop member)
        obtain ⟨pieces, isPieces, areParts⟩ := inductionHypothesis (line.drop room).length
          (by rw [List.length_drop]; omega) noNewlineLeft rfl
        rw [left, List.append_assoc, List.singleton_append, isPieces] at cut
        refine ⟨_ :: pieces, cut, ?_⟩
        intro piece isPiece
        rcases List.mem_cons.mp isPiece with isFirst | isLater
        · exact isFirst ▸ isPart
        · have isSuffix : line.drop room ++ ['\n'] <:+ line ++ ['\n'] :=
            left ▸ List.drop_suffix room _
          exact (areParts piece isLater).trans isSuffix.isInfix

end AndroidPatch.Library.Stdio
