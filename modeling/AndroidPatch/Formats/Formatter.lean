import AndroidPatch.Lang.Objects

/-!
Contract: `String.format` on string arguments.

Owns:
- the grammar of format specifiers, and the checks that are made when a
  template is read;
- the conversions of a string or null argument;
- the effect of a template of plain text and `%s`, the only kind that the
  framework builds itself.

A template is read to its end before anything is printed. Every failure is an
`IllegalFormatException`, a subclass of `IllegalArgumentException`; it is told
apart here by the name of its class.
-/

namespace AndroidPatch.Formats

open AndroidPatch.Lang

def illegalFormat (className : String) : Throwable := .illegalArgument className

/-- `%[index$][flags][width][.precision]conversion`. -/
structure FormatSpecifier where
  index : Option Nat
  flags : List Char
  width : Option Nat
  precision : Option Nat
  dateTime : Bool
  conversion : Char
deriving DecidableEq, Repr

inductive Piece where
  | text (character : Char)
  | specifier (specifier : FormatSpecifier)
deriving DecidableEq, Repr

/-! ## Reading a template -/

def decimalValue (digits : List Char) : Nat :=
  digits.foldl (fun value digit => value * 10 + (digit.toNat - '0'.toNat)) 0

def readNumber (chars : List Char) : Option Nat × List Char :=
  match chars.takeWhile Char.isDigit with
  | [] => (none, chars)
  | digits => (some (decimalValue digits), chars.dropWhile Char.isDigit)

def readIndex (chars : List Char) : Option Nat × List Char :=
  match readNumber chars with
  | (some index, '$' :: rest) => (some index, rest)
  | _ => (none, chars)

def readPrecision (chars : List Char) : Option Nat × List Char :=
  match chars with
  | '.' :: rest =>
      match readNumber rest with
      | (some precision, rest) => (some precision, rest)
      | (none, _) => (none, chars)
  | _ => (none, chars)

def isFlag (character : Char) : Bool :=
  character ∈ ['-', '#', '+', ' ', '0', ',', '(', '<']

def isConversion (character : Char) : Bool :=
  character.isAlpha || character == '%'

/-- A `t` is the first half of a date conversion if it can be. -/
def readConversion : List Char → Option (Bool × Char × List Char)
  | [] => none
  | [character] => if isConversion character then some (false, character, []) else none
  | character :: next :: rest =>
      if (character = 't' ∨ character = 'T') ∧ isConversion next then
        some (true, next, rest)
      else if isConversion character then
        some (false, character, next :: rest)
      else
        none

/-- The specifier behind a `%`, and what follows it. -/
def readSpecifier (chars : List Char) : Option (FormatSpecifier × List Char) :=
  let afterIndex := readIndex chars
  let flags := afterIndex.2.takeWhile isFlag
  let afterWidth := readNumber (afterIndex.2.dropWhile isFlag)
  let afterPrecision := readPrecision afterWidth.2
  match readConversion afterPrecision.2 with
  | none => none
  | some (dateTime, conversion, rest) =>
      some (⟨afterIndex.1, flags, afterWidth.1, afterPrecision.1, dateTime, conversion⟩, rest)

/-- The conversions behind `%t`. -/
def dateConversions : List Char :=
  ['H', 'I', 'k', 'l', 'M', 'N', 'L', 'Q', 'p', 's', 'S', 'T', 'z', 'Z', 'a', 'A', 'b', 'B',
    'C', 'd', 'e', 'h', 'j', 'm', 'y', 'Y', 'r', 'R', 'c', 'D', 'F']

namespace FormatSpecifier

variable (specifier : FormatSpecifier)

def has (flag : Char) : Bool := flag ∈ specifier.flags

/-- No flag of the list is given. -/
def lacks (flags : List Char) : Bool := flags.all fun flag => !specifier.has flag

/-- A flag that pads needs a width. -/
def checkWidth (flags : List Char) : Except Throwable Unit :=
  if specifier.width = none ∧ !specifier.lacks flags then
    .error (illegalFormat "MissingFormatWidthException")
  else
    .ok ()

def checkFlags (flags : List Char) : Except Throwable Unit :=
  if specifier.lacks flags then .ok ()
  else .error (illegalFormat "FormatFlagsConversionMismatchException")

def checkPrecision : Except Throwable Unit :=
  if specifier.precision = none then .ok ()
  else .error (illegalFormat "IllegalFormatPrecisionException")

def checkGeneral : Except Throwable Unit := do
  if specifier.conversion ∈ ['b', 'B', 'h', 'H'] then specifier.checkFlags ['#']
  specifier.checkWidth ['-']
  specifier.checkFlags ['+', ' ', '0', ',', '(']

def checkText : Except Throwable Unit := do
  specifier.checkPrecision
  if specifier.conversion = '%' then
    if specifier.flags = ['-'] ∨ specifier.flags = [] then specifier.checkWidth ['-']
    else .error (illegalFormat "IllegalFormatFlagsException")
  else if specifier.width ≠ none then .error (illegalFormat "IllegalFormatWidthException")
  else if specifier.flags ≠ [] then .error (illegalFormat "IllegalFormatFlagsException")

def checkNumeric : Except Throwable Unit := do
  specifier.checkWidth ['-', '0']
  if specifier.has '+' && specifier.has ' ' || specifier.has '-' && specifier.has '0' then
    .error (illegalFormat "IllegalFormatFlagsException")

/-- The checks of the constructor of a specifier. -/
def check : Except Throwable Unit := do
  if ¬ specifier.flags.Nodup then .error (illegalFormat "DuplicateFormatFlagsException")
  if specifier.dateTime then
    if specifier.conversion ∉ dateConversions then
      .error (illegalFormat "UnknownFormatConversionException")
    specifier.checkPrecision
    specifier.checkFlags ['#', '+', ' ', '0', ',', '(']
    specifier.checkWidth ['-']
  else if specifier.conversion ∈ ['b', 'B', 'h', 'H', 's', 'S'] then
    specifier.checkGeneral
  else if specifier.conversion ∈ ['n', '%'] then
    specifier.checkText
  else if specifier.conversion ∈ ['c', 'C'] then
    specifier.checkPrecision
    specifier.checkFlags ['#', '+', ' ', '0', ',', '(']
    specifier.checkWidth ['-']
  else if specifier.conversion ∈ ['d', 'o', 'x', 'X'] then
    specifier.checkNumeric
    specifier.checkPrecision
    specifier.checkFlags (if specifier.conversion = 'd' then ['#'] else [','])
  else if specifier.conversion ∈ ['e', 'E', 'f', 'g', 'G', 'a', 'A'] then
    specifier.checkNumeric
    if specifier.conversion ∈ ['a', 'A'] then specifier.checkFlags ['(', ',']
    if specifier.conversion ∈ ['e', 'E'] then specifier.checkFlags [',']
    if specifier.conversion ∈ ['g', 'G'] then specifier.checkFlags ['#']
  else
    .error (illegalFormat "UnknownFormatConversionException")

end FormatSpecifier

theorem readNumber_suffix (chars : List Char) : (readNumber chars).2 <:+ chars := by
  unfold readNumber
  split
  · exact List.suffix_rfl
  · exact List.dropWhile_suffix _

theorem readIndex_suffix (chars : List Char) : (readIndex chars).2 <:+ chars := by
  have number := readNumber_suffix chars
  unfold readIndex
  split
  · rename_i index rest isNumber
    rw [isNumber] at number
    exact (List.suffix_cons '$' rest).trans number
  · exact List.suffix_rfl

theorem readPrecision_suffix (chars : List Char) : (readPrecision chars).2 <:+ chars := by
  unfold readPrecision
  split
  · rename_i rest
    have number := readNumber_suffix rest
    split
    · rename_i precision rest' isNumber
      rw [isNumber] at number
      exact number.trans (List.suffix_cons '.' rest)
    · exact List.suffix_rfl
  · exact List.suffix_rfl

theorem readConversion_suffix {chars rest : List Char} {dateTime : Bool} {conversion : Char}
    (isRead : readConversion chars = some (dateTime, conversion, rest)) :
    conversion :: rest <:+ chars := by
  unfold readConversion at isRead
  split at isRead
  · cases isRead
  · split_ifs at isRead
    cases isRead
    exact List.suffix_rfl
  · split_ifs at isRead
    · cases isRead
      exact List.suffix_cons _ _
    · cases isRead
      exact List.suffix_rfl

/-- A specifier ends with its conversion. -/
theorem readSpecifier_suffix {chars rest : List Char} {specifier : FormatSpecifier}
    (isRead : readSpecifier chars = some (specifier, rest)) :
    specifier.conversion :: rest <:+ chars := by
  unfold readSpecifier at isRead
  dsimp only at isRead
  split at isRead
  · cases isRead
  · rename_i dateTime conversion rest' isConversion
    cases isRead
    exact (((readConversion_suffix isConversion).trans (readPrecision_suffix _)).trans
      (readNumber_suffix _)).trans ((List.dropWhile_suffix _).trans (readIndex_suffix chars))

theorem length_of_readSpecifier {chars rest : List Char} {specifier : FormatSpecifier}
    (isRead : readSpecifier chars = some (specifier, rest)) : rest.length < chars.length :=
  (readSpecifier_suffix isRead).length_le

/-- The pieces of a template. -/
def parse (template : List Char) : Except Throwable (List Piece) :=
  match template with
  | [] => .ok []
  | character :: rest =>
      if character = '%' then
        match isRead : readSpecifier rest with
        | none => .error (illegalFormat "UnknownFormatConversionException")
        | some (specifier, behind) =>
            have : behind.length < rest.length := length_of_readSpecifier isRead
            match specifier.check with
            | .error throwable => .error throwable
            | .ok () => (parse behind).map (.specifier specifier :: ·)
      else
        (parse rest).map (.text character :: ·)
termination_by template.length
decreasing_by
  · simp only [List.length_cons]
    omega
  · simp

/-! ## Printing -/

/-- `Integer.toHexString` of the hash code of a string. -/
def hexHash (text : List Char) : List Char :=
  let units := text.flatMap fun character =>
    if character.toNat < 0x10000 then [character.toNat]
    else [0xD800 + (character.toNat - 0x10000) / 0x400, 0xDC00 + (character.toNat - 0x10000) % 0x400]
  Nat.toDigits 16 (units.foldl (fun hash unit => (hash * 31 + unit) % 0x100000000) 0)

/-- Cut to the precision, and pad to the width. -/
def FormatSpecifier.print (specifier : FormatSpecifier) (text : List Char) : List Char :=
  let cut := match specifier.precision with
    | none => text
    | some precision => text.take precision
  let padding := List.replicate (specifier.width.getD 0 - cut.length) ' '
  if specifier.has '-' then cut ++ padding else padding ++ cut

/-- One argument, converted. `toUpperCase` is that of the default locale. -/
def FormatSpecifier.convert (toUpperCase : List Char → List Char)
    (specifier : FormatSpecifier) (argument : Option (List Char)) :
    Except Throwable (List Char) :=
  let finish := fun text =>
    specifier.print (if specifier.conversion.isUpper then toUpperCase text else text)
  if ¬ specifier.dateTime ∧ specifier.conversion ∈ ['b', 'B'] then
    .ok (finish (if argument = none then "false".toList else "true".toList))
  else
    match argument with
    | none => .ok (finish "null".toList)
    | some text =>
        if ¬ specifier.dateTime ∧ specifier.conversion ∈ ['s', 'S'] then
          if specifier.has '#' then
            .error (illegalFormat "FormatFlagsConversionMismatchException")
          else
            .ok (finish text)
        else if ¬ specifier.dateTime ∧ specifier.conversion ∈ ['h', 'H'] then
          .ok (finish (hexHash text))
        else
          .error (illegalFormat "IllegalFormatConversionException")

/-- The position of the argument a specifier takes; `next` is the position of the
next ordinary one, `last` that of the argument taken before. -/
def FormatSpecifier.position (specifier : FormatSpecifier) (next : Nat) (last : Option Nat) :
    Option Nat :=
  if specifier.has '<' then last
  else
    match specifier.index with
    | none => some next
    | some 0 => some next
    | some (index + 1) => some index

/-- Whether a specifier moves on to the next ordinary argument. -/
def FormatSpecifier.isOrdinary (specifier : FormatSpecifier) : Bool :=
  !specifier.has '<' && specifier.index.getD 0 == 0

def printAll (toUpperCase : List Char → List Char) (arguments : List (Option (List Char))) :
    List Piece → Nat → Option Nat → Except Throwable (List Char)
  | [], _, _ => .ok []
  | .text character :: rest, next, last =>
      (printAll toUpperCase arguments rest next last).map (character :: ·)
  | .specifier specifier :: rest, next, last =>
      if ¬ specifier.dateTime ∧ specifier.conversion = 'n' then
        (printAll toUpperCase arguments rest next last).map ('\n' :: ·)
      else if ¬ specifier.dateTime ∧ specifier.conversion = '%' then
        (printAll toUpperCase arguments rest next last).map (specifier.print ['%'] ++ ·)
      else
        match specifier.position next last with
        | none => .error (illegalFormat "MissingFormatArgumentException")
        | some position =>
            match arguments[position]? with
            | none => .error (illegalFormat "MissingFormatArgumentException")
            | some argument =>
                match specifier.convert toUpperCase argument with
                | .error throwable => .error throwable
                | .ok text =>
                    (printAll toUpperCase arguments rest
                      (if specifier.isOrdinary then next + 1 else next) (some position)).map
                        (text ++ ·)

/-- What a rest of a template prints. -/
def formatFrom (toUpperCase : List Char → List Char) (arguments : List (Option (List Char)))
    (template : List Char) (next : Nat) (last : Option Nat) : Except Throwable (List Char) :=
  match parse template with
  | .error throwable => .error throwable
  | .ok pieces => printAll toUpperCase arguments pieces next last

/-- `String.format(template, arguments)`. -/
def stringFormat (toUpperCase : List Char → List Char) (template : Option String)
    (arguments : List (Option String)) : Except Throwable String :=
  match template with
  | none => .error .nullPointer
  | some template =>
      (formatFrom toUpperCase (arguments.map (Option.map String.toList)) template.toList 0
        none).map String.ofList

/-! ## Plain text and `%s` -/

section Plain

variable (toUpperCase : List Char → List Char) (arguments : List (Option (List Char)))

/-- The specifier `%s`. -/
def plainSpecifier : FormatSpecifier := ⟨none, [], none, none, false, 's'⟩

theorem readSpecifier_plain (rest : List Char) :
    readSpecifier ('s' :: rest) = some (plainSpecifier, rest) := by
  have number : readNumber ('s' :: rest) = (none, 's' :: rest) := by
    simp [readNumber, show Char.isDigit 's' = false from by decide]
  have index : readIndex ('s' :: rest) = (none, 's' :: rest) := by
    simp [readIndex, number]
  have letter : isConversion 's' = true := by decide
  have conversion : readConversion ('s' :: rest) = some (false, 's', rest) := by
    cases rest with
    | nil => simp [readConversion, letter]
    | cons next rest => simp [readConversion, letter]
  simp [readSpecifier, index, number, readPrecision, conversion, plainSpecifier,
    show isFlag 's' = false from by decide]

theorem parse_text {character : Char} (other : character ≠ '%') (rest : List Char) :
    parse (character :: rest) = (parse rest).map (.text character :: ·) := by
  rw [parse, if_neg other]

theorem parse_specifier {rest behind : List Char} {specifier : FormatSpecifier}
    (isRead : readSpecifier rest = some (specifier, behind))
    (accepted : specifier.check = .ok ()) :
    parse ('%' :: rest) = (parse behind).map (.specifier specifier :: ·) := by
  rw [parse, if_pos rfl]
  split
  · rename_i unread
    rw [isRead] at unread
    cases unread
  · rename_i read left isRead'
    rw [isRead] at isRead'
    cases isRead'
    rw [accepted]

theorem parse_unread {rest : List Char} (unread : readSpecifier rest = none) :
    parse ('%' :: rest) = .error (illegalFormat "UnknownFormatConversionException") := by
  rw [parse, if_pos rfl]
  split
  · rfl
  · rename_i isRead
    rw [unread] at isRead
    cases isRead

theorem ok_of_map {α β : Type} {f : α → β} {result : Except Throwable α} {value : β}
    (mapped : result.map f = .ok value) : ∃ before, result = .ok before ∧ value = f before := by
  cases result with
  | error throwable => cases mapped
  | ok before => exact ⟨before, rfl, (Except.ok.inj mapped).symm⟩

/-- What it takes for a template to be read from a `%` on. -/
theorem specifier_of_parse {rest : List Char} {pieces : List Piece}
    (parsed : parse ('%' :: rest) = .ok pieces) :
    ∃ specifier behind later, readSpecifier rest = some (specifier, behind) ∧
      parse behind = .ok later ∧ pieces = .specifier specifier :: later := by
  rw [parse, if_pos rfl] at parsed
  split at parsed
  · cases parsed
  · rename_i specifier behind isRead
    cases accepted : specifier.check with
    | error throwable =>
        rw [accepted] at parsed
        cases parsed
    | ok _ =>
        rw [accepted] at parsed
        obtain ⟨later, isLater, arePieces⟩ := ok_of_map parsed
        exact ⟨specifier, behind, later, isRead, isLater, arePieces⟩

theorem formatFrom_nil (next : Nat) (last : Option Nat) :
    formatFrom toUpperCase arguments [] next last = .ok [] := by
  simp [formatFrom, parse, printAll]

theorem formatFrom_cons {character : Char} (other : character ≠ '%') (rest : List Char)
    (next : Nat) (last : Option Nat) :
    formatFrom toUpperCase arguments (character :: rest) next last =
      (formatFrom toUpperCase arguments rest next last).map (character :: ·) := by
  unfold formatFrom
  rw [parse_text other]
  cases parse rest with
  | error throwable => rfl
  | ok pieces => rfl

/-- Text without a `%` is printed as it is. -/
theorem formatFrom_text {text : List Char} (plain : '%' ∉ text) (rest : List Char) (next : Nat)
    (last : Option Nat) :
    formatFrom toUpperCase arguments (text ++ rest) next last =
      (formatFrom toUpperCase arguments rest next last).map (text ++ ·) := by
  induction text with
  | nil =>
      rw [List.nil_append]
      cases formatFrom toUpperCase arguments rest next last with
      | error throwable => rfl
      | ok printed => rfl
  | cons character text inductionHypothesis =>
      have other : character ≠ '%' := fun same => plain (same ▸ List.mem_cons_self)
      rw [List.cons_append, formatFrom_cons toUpperCase arguments other,
        inductionHypothesis fun member => plain (List.mem_cons_of_mem _ member)]
      cases formatFrom toUpperCase arguments rest next last with
      | error throwable => rfl
      | ok printed => rfl

/-- A `%s` prints the next argument. -/
theorem formatFrom_argument {next : Nat} {argument : Option (List Char)}
    (isNext : arguments[next]? = some argument) (rest : List Char) (last : Option Nat) :
    formatFrom toUpperCase arguments ('%' :: 's' :: rest) next last =
      (formatFrom toUpperCase arguments rest (next + 1) (some next)).map
        (argument.getD "null".toList ++ ·) := by
  have converted : plainSpecifier.convert toUpperCase argument =
      .ok (argument.getD "null".toList) := by
    cases argument with
    | none =>
        simp [FormatSpecifier.convert, plainSpecifier, FormatSpecifier.print,
          FormatSpecifier.has]
    | some text =>
        simp [FormatSpecifier.convert, plainSpecifier, FormatSpecifier.print,
          FormatSpecifier.has]
  have accepted : plainSpecifier.check = .ok () := by decide
  have position : plainSpecifier.position next last = some next := by
    simp [FormatSpecifier.position, plainSpecifier, FormatSpecifier.has]
  have ordinary : plainSpecifier.isOrdinary = true := by decide
  unfold formatFrom
  rw [parse_specifier (readSpecifier_plain rest) accepted]
  cases parse rest with
  | error throwable => rfl
  | ok pieces =>
      have notNewline : ¬ (¬ plainSpecifier.dateTime ∧ plainSpecifier.conversion = 'n') := by
        decide
      have notPercent : ¬ (¬ plainSpecifier.dateTime ∧ plainSpecifier.conversion = '%') := by
        decide
      simp only [Except.map, printAll]
      rw [if_neg notNewline, if_neg notPercent, position]
      simp only [isNext, converted, ordinary, if_true]

/-- Plain text to the end. -/
theorem formatFrom_plain {text : List Char} (plain : '%' ∉ text) (next : Nat)
    (last : Option Nat) :
    formatFrom toUpperCase arguments text next last = .ok text := by
  have printed := formatFrom_text toUpperCase arguments plain [] next last
  rw [List.append_nil, formatFrom_nil] at printed
  rw [printed]
  show Except.ok (text ++ []) = _
  rw [List.append_nil]

end Plain

end AndroidPatch.Formats
