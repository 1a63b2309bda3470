import AndroidPatch.Formats.Formatter

/-!
Contract: `FormatEntry.toString`, the recursive rendering of an object graph.

Owns:
- the `format` methods of the three kinds of `Format`;
- the search for the first format that answers, the thread's stack of objects
  being rendered, and the recursion over an answer's children;
- one call in closed form: a marker, a direct answer, or a template over its
  children.

Objects are values of an arbitrary type whose equality is identity; null is one
of them. `fuel` is the recursion depth that is left, for the rendering and for
the `equals` methods that it calls: a result `none` says that this depth is
exceeded.
-/

namespace AndroidPatch.Formats

open AndroidPatch.Lang

/-- `Pair<String, Object[]>`: a text, or a template with its arguments. -/
structure Formatting (N : Type) where
  first : Option String
  second : Option (List N)

/-- `Format.format`; a null result is `none`. -/
abbrev Format (N : Type) := N → Except Throwable (Option (Formatting N))

variable {N : Type}

/-! ## The three kinds of `Format` -/

/-- `FormatObject.format`. -/
def FormatObject.format (belongTo : N → Except Throwable Bool)
    (toString : N → Except Throwable (Option String)) : Format N := fun object => do
  if ¬ (← belongTo object) then
    return none
  return some ⟨← toString object, none⟩

/-- The loop of `FormatIterable.format`: `%s` for every element, with `, `
between two of them. -/
def placeholders : Nat → List Char
  | 0 => []
  | 1 => ['%', 's']
  | count + 2 => ['%', 's', ',', ' '] ++ placeholders (count + 1)

def FormatIterable.template (name : Option String) (array : Option (List N)) : String :=
  name.getD "" ++ "[" ++ String.ofList (placeholders (array.getD []).length) ++ "]"

/-- `FormatIterable.format`. -/
def FormatIterable.format (belongTo : N → Except Throwable Bool)
    (toArray : N → Except Throwable (Option (List N)))
    (nameOf : N → Except Throwable (Option String)) : Format N := fun object => do
  if ¬ (← belongTo object) then
    return none
  let array ← toArray object
  let name ← nameOf object
  return some ⟨some (FormatIterable.template name array), array⟩

/-- The loop of `FormatMap.format`. -/
def pairPlaceholders : Nat → List Char
  | 0 => []
  | 1 => ['%', 's', '=', '%', 's']
  | count + 2 => ['%', 's', '=', '%', 's', ',', ' '] ++ pairPlaceholders (count + 1)

/-- `//Fix mistake`: a missing last value becomes null. -/
def FormatMap.fixMistake (null : N) (array2 : List N) : List N :=
  if array2.length % 2 ≠ 0 then array2 ++ [null] else array2

def FormatMap.template (name : Option String) (array2 : Option (List N)) : String :=
  name.getD "" ++ "\x7b" ++ String.ofList (pairPlaceholders ((array2.getD []).length / 2)) ++
    "\x7d"

/-- `FormatMap.format`. -/
def FormatMap.format (null : N) (belongTo : N → Except Throwable Bool)
    (toArray2 : N → Except Throwable (Option (List N)))
    (nameOf : N → Except Throwable (Option String)) : Format N := fun object => do
  if ¬ (← belongTo object) then
    return none
  let array2 ← toArray2 object
  let name ← nameOf object
  let array2 := array2.map (FormatMap.fixMistake null)
  return some ⟨some (FormatMap.template name array2), array2⟩

/-! ## What the templates print -/

/-- A string as `%s` prints it. -/
def printed (text : Option String) : String := text.getD "null"

/-- The texts with `, ` between two of them. -/
def joined : List String → String
  | [] => ""
  | [text] => text
  | text :: next :: rest => text ++ ", " ++ joined (next :: rest)

/-- The pairs `key=value` with `, ` between two of them. -/
def joinedPairs : List (String × String) → String
  | [] => ""
  | [(key, value)] => key ++ "=" ++ value
  | (key, value) :: next :: rest => key ++ "=" ++ value ++ ", " ++ joinedPairs (next :: rest)

section Templates

variable (toUpperCase : List Char → List Char) (arguments : List (Option String))

/-- One `%s` inside a template. -/
theorem formatFrom_string {next : Nat} {argument : Option String}
    (isNext : arguments[next]? = some argument) (rest : List Char) (last : Option Nat) :
    formatFrom toUpperCase (arguments.map (Option.map String.toList)) ('%' :: 's' :: rest) next
        last =
      (formatFrom toUpperCase (arguments.map (Option.map String.toList)) rest (next + 1)
        (some next)).map ((printed argument).toList ++ ·) := by
  have isNextChars : (arguments.map (Option.map String.toList))[next]? =
      some (argument.map String.toList) := by
    rw [List.getElem?_map, isNext]
    rfl
  rw [formatFrom_argument _ _ isNextChars]
  cases argument with
  | none => rfl
  | some text => rfl

/-- The placeholders of `FormatIterable.format` print the arguments that are
left. -/
theorem formatFrom_placeholders {rest : List Char} (plain : '%' ∉ rest) {count next : Nat}
    (covers : next + count = arguments.length) (last : Option Nat) :
    formatFrom toUpperCase (arguments.map (Option.map String.toList))
        (placeholders count ++ rest) next last =
      .ok ((joined ((arguments.drop next).map printed)).toList ++ rest) := by
  induction count using placeholders.induct generalizing next last with
  | case1 =>
      have noneLeft : arguments.drop next = [] := List.drop_of_length_le (by omega)
      rw [noneLeft]
      exact formatFrom_plain _ _ plain next last
  | case2 =>
      have below : next < arguments.length := by omega
      have oneLeft : arguments.drop next = [arguments[next]] := by
        rw [List.drop_eq_getElem_cons below, List.drop_of_length_le (by omega)]
      show formatFrom _ _ ('%' :: 's' :: rest) next last = _
      rw [formatFrom_string _ _ (List.getElem?_eq_getElem below), formatFrom_plain _ _ plain,
        oneLeft]
      rfl
  | case3 count inductionHypothesis =>
      have below : next < arguments.length := by omega
      have belowNext : next + 1 < arguments.length := by omega
      have separator : '%' ∉ [',', ' '] := by decide
      show formatFrom _ _ ('%' :: 's' :: ([',', ' '] ++ (placeholders (count + 1) ++ rest))) next
        last = _
      rw [formatFrom_string _ _ (List.getElem?_eq_getElem below),
        formatFrom_text _ _ separator, inductionHypothesis (by omega),
        List.drop_eq_getElem_cons below, List.drop_eq_getElem_cons belowNext]
      simp only [Except.map, List.map_cons, joined, String.toList_append, List.append_assoc]
      rfl

/-- The next two arguments, when those that are left make up pairs. -/
theorem drop_eq_pairs {next : Nat} {pair : Option String × Option String}
    {others : List (Option String × Option String)}
    (isRest : arguments.drop next =
      (pair :: others).flatMap fun pair => [pair.1, pair.2]) :
    arguments[next]? = some pair.1 ∧ arguments[next + 1]? = some pair.2 ∧
      arguments.drop (next + 2) = others.flatMap fun pair => [pair.1, pair.2] := by
  have first : arguments.drop next =
      pair.1 :: pair.2 :: others.flatMap fun pair => [pair.1, pair.2] := isRest
  refine ⟨?_, ?_, ?_⟩
  · rw [← List.head?_drop, first]
    rfl
  · rw [← List.head?_drop, ← List.drop_drop, first]
    rfl
  · rw [← List.drop_drop, first]
    rfl

theorem formatFrom_pairPlaceholders {rest : List Char} (plain : '%' ∉ rest) {count next : Nat}
    {pairs : List (Option String × Option String)} (size : pairs.length = count)
    (isRest : arguments.drop next = pairs.flatMap fun pair => [pair.1, pair.2])
    (last : Option Nat) :
    formatFrom toUpperCase (arguments.map (Option.map String.toList))
        (pairPlaceholders count ++ rest) next last =
      .ok ((joinedPairs (pairs.map fun pair => (printed pair.1, printed pair.2))).toList ++
        rest) := by
  have equalsSign : '%' ∉ ['='] := by decide
  have separator : '%' ∉ [',', ' '] := by decide
  induction count using pairPlaceholders.induct generalizing next last pairs with
  | case1 =>
      obtain rfl : pairs = [] := List.length_eq_zero_iff.mp size
      exact formatFrom_plain _ _ plain next last
  | case2 =>
      obtain ⟨pair, rfl⟩ := List.length_eq_one_iff.mp size
      obtain ⟨isKey, isValue, -⟩ := drop_eq_pairs arguments isRest
      show formatFrom _ _ ('%' :: 's' :: (['='] ++ ('%' :: 's' :: rest))) next last = _
      rw [formatFrom_string _ _ isKey, formatFrom_text _ _ equalsSign,
        formatFrom_string _ _ isValue, formatFrom_plain _ _ plain]
      simp [Except.map, joinedPairs]
  | case3 count inductionHypothesis =>
      obtain ⟨pair, others, rfl⟩ := List.exists_cons_of_length_eq_add_one size
      obtain ⟨second, later, rfl⟩ := List.exists_cons_of_length_eq_add_one
        (show others.length = count + 1 by simpa using size)
      obtain ⟨isKey, isValue, isLater⟩ := drop_eq_pairs arguments isRest
      show formatFrom _ _ ('%' :: 's' :: (['='] ++ ('%' :: 's' ::
        ([',', ' '] ++ (pairPlaceholders (count + 1) ++ rest))))) next last = _
      rw [formatFrom_string _ _ isKey, formatFrom_text _ _ equalsSign,
        formatFrom_string _ _ isValue, formatFrom_text _ _ separator,
        inductionHypothesis (by simpa using size) isLater]
      simp [Except.map, joinedPairs]

/-- `Name[r1, ..., rn]`. -/
theorem stringFormat_iterable {name : String} (plain : '%' ∉ name.toList) {children : List N}
    (size : children.length = arguments.length) :
    stringFormat toUpperCase (some (FormatIterable.template (some name) (some children)))
        arguments =
      .ok (name ++ "[" ++ joined (arguments.map printed) ++ "]") := by
  have isTemplate : (FormatIterable.template (some name) (some children)).toList =
      (name.toList ++ ['[']) ++ (placeholders arguments.length ++ [']']) := by
    simp [FormatIterable.template, size]
  have noPercent : '%' ∉ name.toList ++ ['['] := by simp [plain]
  have bracket : '%' ∉ [']'] := by decide
  unfold stringFormat
  dsimp only
  rw [isTemplate, formatFrom_text _ _ noPercent,
    formatFrom_placeholders _ _ bracket (Nat.zero_add _), List.drop_zero]
  simp only [Except.map]
  congr 1
  apply String.toList_injective
  simp

/-- A map prints as its name and the pairs in braces. -/
theorem stringFormat_map {name : String} (plain : '%' ∉ name.toList) {children : List N}
    {pairs : List (Option String × Option String)}
    (isPairs : arguments = pairs.flatMap fun pair => [pair.1, pair.2])
    (size : children.length = arguments.length) :
    stringFormat toUpperCase (some (FormatMap.template (some name) (some children))) arguments =
      .ok (name ++ "\x7b" ++
        joinedPairs (pairs.map fun pair => (printed pair.1, printed pair.2)) ++ "\x7d") := by
  have count : children.length / 2 = pairs.length := by
    rw [size, isPairs]
    simp
  have isTemplate : (FormatMap.template (some name) (some children)).toList =
      (name.toList ++ "\x7b".toList) ++ (pairPlaceholders pairs.length ++ "\x7d".toList) := by
    simp [FormatMap.template, count]
  have noPercent : '%' ∉ name.toList ++ "\x7b".toList := by simp [plain]
  have brace : '%' ∉ "\x7d".toList := by decide
  unfold stringFormat
  dsimp only
  rw [isTemplate, formatFrom_text _ _ noPercent,
    formatFrom_pairPlaceholders _ _ brace rfl (by rw [List.drop_zero, isPairs])]
  simp only [Except.map]
  congr 1
  apply String.toList_injective
  simp

end Templates

/-! ## `FormatEntry` -/

/-- What a `FormatEntry` consults. `getSimpleName` is that of the object's class,
none for null. `equals` is `object.equals(other)`, and identity for null. -/
structure FormatEntry (N : Type) where
  mFormatArray : List (Format N)
  getSimpleName : N → Option String
  equals : Nat → N → N → Option Bool
  toUpperCase : List Char → List Char

/-- The state of the rendering thread. The stack has its top first. `markers`
lists every marker printed so far, with the stack it was printed for; nothing
reads it. -/
structure ThreadState (N : Type) where
  mIgnores : Option (List N)
  markers : List (List N × N)
deriving DecidableEq, Repr

namespace ThreadState

/-- The stack; `toString` creates an empty one if there is none. -/
def ignore (thread : ThreadState N) : List N := thread.mIgnores.getD []

/-- A thread whose stack is `stack`. -/
def withIgnore (thread : ThreadState N) (stack : List N) : ThreadState N :=
  { thread with mIgnores := some stack }

@[simp] theorem ignore_withIgnore (thread : ThreadState N) (stack : List N) :
    (thread.withIgnore stack).ignore = stack := rfl

@[simp] theorem markers_withIgnore (thread : ThreadState N) (stack : List N) :
    (thread.withIgnore stack).markers = thread.markers := rfl

end ThreadState

/-- How a call ends: out of depth, or with a text or a throwable. -/
abbrev Rendered (N A : Type) := Option (Except Throwable A × ThreadState N)

/-- `Stack.lastIndexOf`: from the top down. -/
def lastIndexOf (equals : N → N → Option Bool) (object : N) : List N → Option Int
  | [] => some (-1)
  | top :: rest =>
      match equals object top with
      | none => none
      | some true => some rest.length
      | some false => lastIndexOf equals object rest

/-- The loop that renders the arguments of a template. -/
def renderAll (render : N → ThreadState N → Rendered N (Option String)) :
    List N → ThreadState N → Rendered N (List (Option String))
  | [], thread => some (.ok [], thread)
  | child :: rest, thread =>
      match render child thread with
      | none => none
      | some (.error throwable, thread) => some (.error throwable, thread)
      | some (.ok text, thread) =>
          match renderAll render rest thread with
          | none => none
          | some (.error throwable, thread) => some (.error throwable, thread)
          | some (.ok texts, thread) => some (.ok (text :: texts), thread)

namespace FormatEntry

variable (entry : FormatEntry N)

/-- `String.format(pair.first, args)`, once the arguments are there. -/
def complete (first : Option String) (arguments : Except Throwable (List (Option String))) :
    Except Throwable (Option String) :=
  match arguments with
  | .error throwable => .error throwable
  | .ok texts => (stringFormat entry.toUpperCase first texts).map some

/-- The loop over the formats. The object is on the stack while its arguments
are rendered, however that ends. -/
def formatLoop (render : N → ThreadState N → Rendered N (Option String)) (object : N)
    (thread : ThreadState N) : List (Format N) → Rendered N (Option String)
  | [] => some (.ok none, thread)
  | format :: rest =>
      match format object with
      | .error throwable => some (.error throwable, thread)
      | .ok none => formatLoop render object thread rest
      | .ok (some pair) =>
          match pair.second with
          | none => some (.ok pair.first, thread)
          | some [] => some (.ok pair.first, thread)
          | some (child :: children) =>
              match renderAll render (child :: children)
                  (thread.withIgnore (object :: thread.ignore)) with
              | none => none
              | some (arguments, thread) =>
                  some (entry.complete pair.first arguments,
                    thread.withIgnore thread.ignore.tail)

/-- The text `SimpleName.this`. -/
def marker (object : N) : String :=
  (entry.getSimpleName object).getD "null" ++ ".this"

/-- `FormatEntry.toString`. -/
def toString : Nat → N → ThreadState N → Rendered N (Option String)
  | 0, _, _ => none
  | fuel + 1, object, thread =>
      let thread := thread.withIgnore thread.ignore
      match lastIndexOf (entry.equals fuel) object thread.ignore with
      | none => none
      | some index =>
          if index ≥ 0 then
            some (.ok (some (entry.marker object)),
              { thread with markers := thread.markers ++ [(thread.ignore, object)] })
          else
            entry.formatLoop (toString fuel) object thread entry.mFormatArray

/-! ## One call in closed form -/

end FormatEntry

/-- What the formats make of an object: a result at once, or a template with at
least one argument. -/
inductive Answer (N : Type) where
  | direct (result : Except Throwable (Option String))
  | template (first : Option String) (child : N) (children : List N)

/-- The arguments of a template. -/
def Answer.arguments : Answer N → List N
  | .direct _ => []
  | .template _ child children => child :: children

namespace FormatEntry

variable (entry : FormatEntry N)

/-- The answer of the first format that has one. -/
def answerOf (object : N) : List (Format N) → Answer N
  | [] => .direct (.ok none)
  | format :: rest =>
      match format object with
      | .error throwable => .direct (.error throwable)
      | .ok none => answerOf object rest
      | .ok (some pair) =>
          match pair.second with
          | none => .direct (.ok pair.first)
          | some [] => .direct (.ok pair.first)
          | some (child :: children) => .template pair.first child children

def answer (object : N) : Answer N :=
  answerOf object entry.mFormatArray

/-- The objects that the rendering of an object goes on to. -/
def childrenOf (object : N) : List N :=
  (entry.answer object).arguments

theorem formatLoop_eq (render : N → ThreadState N → Rendered N (Option String)) (object : N)
    (thread : ThreadState N) (formats : List (Format N)) :
    entry.formatLoop render object thread formats =
      match answerOf object formats with
      | .direct result => some (result, thread)
      | .template first child children =>
          match renderAll render (child :: children)
              (thread.withIgnore (object :: thread.ignore)) with
          | none => none
          | some (arguments, thread) =>
              some (entry.complete first arguments, thread.withIgnore thread.ignore.tail) := by
  induction formats with
  | nil => rfl
  | cons format rest inductionHypothesis =>
      unfold formatLoop answerOf
      cases format object with
      | error throwable => rfl
      | ok pair =>
          cases pair with
          | none => exact inductionHypothesis
          | some pair =>
              obtain ⟨first, second⟩ := pair
              rcases second with _ | _ | ⟨child, children⟩
              · rfl
              · rfl
              · rfl

/-- A call on an object that equals one on the stack. -/
theorem toString_marker {fuel : Nat} {object : N} {thread : ThreadState N} {index : Int}
    (found : lastIndexOf (entry.equals fuel) object thread.ignore = some index)
    (nonnegative : index ≥ 0) :
    entry.toString (fuel + 1) object thread =
      some (.ok (some (entry.marker object)), ⟨some thread.ignore,
        thread.markers ++ [(thread.ignore, object)]⟩) := by
  simp only [toString, ThreadState.ignore_withIgnore, found, if_pos nonnegative]
  rfl

/-- A call on any other object. -/
theorem toString_answer {fuel : Nat} {object : N} {thread : ThreadState N} {index : Int}
    (missing : lastIndexOf (entry.equals fuel) object thread.ignore = some index)
    (negative : ¬ index ≥ 0) :
    entry.toString (fuel + 1) object thread =
      match entry.answer object with
      | .direct result => some (result, thread.withIgnore thread.ignore)
      | .template first child children =>
          match renderAll (entry.toString fuel) (child :: children)
              (thread.withIgnore (object :: thread.ignore)) with
          | none => none
          | some (arguments, thread) =>
              some (entry.complete first arguments, thread.withIgnore thread.ignore.tail) := by
  simp only [toString, ThreadState.ignore_withIgnore, missing, if_neg negative]
  rw [formatLoop_eq]
  rfl

end FormatEntry

/-! ## What a call keeps -/

/-- Everything that the calls on all arguments can do: end with the last one, or
throw what one of them throws. -/
inductive AllRendered (render : N → ThreadState N → Rendered N (Option String)) :
    List N → ThreadState N → Except Throwable (List (Option String)) → ThreadState N →
      Prop where
  | nil (thread : ThreadState N) : AllRendered render [] thread (.ok []) thread
  | throws {child : N} {rest : List N} {thread final : ThreadState N} {throwable : Throwable}
      (first : render child thread = some (.error throwable, final)) :
      AllRendered render (child :: rest) thread (.error throwable) final
  | goesOn {child : N} {rest : List N} {thread later final : ThreadState N}
      {text : Option String} {result : Except Throwable (List (Option String))}
      (first : render child thread = some (.ok text, later))
      (others : AllRendered render rest later result final) :
      AllRendered render (child :: rest) thread (result.map (text :: ·)) final

theorem renderAll_cases {render : N → ThreadState N → Rendered N (Option String)}
    {children : List N} {thread final : ThreadState N}
    {result : Except Throwable (List (Option String))}
    (rendered : renderAll render children thread = some (result, final)) :
    AllRendered render children thread result final := by
  induction children generalizing thread result final with
  | nil =>
      cases rendered
      exact .nil thread
  | cons child rest inductionHypothesis =>
      unfold renderAll at rendered
      rcases first : render child thread with _ | ⟨throwable | text, later⟩
      · rw [first] at rendered
        cases rendered
      · rw [first] at rendered
        cases rendered
        exact .throws first
      · rw [first] at rendered
        dsimp only at rendered
        rcases others : renderAll render rest later with _ | ⟨throwable | texts, last⟩
        · rw [others] at rendered
          cases rendered
        · rw [others] at rendered
          cases rendered
          exact .goesOn first (inductionHypothesis others)
        · rw [others] at rendered
          cases rendered
          exact .goesOn first (inductionHypothesis others)

namespace AllRendered

variable {render : N → ThreadState N → Rendered N (Option String)} {children : List N}
  {thread final : ThreadState N} {result : Except Throwable (List (Option String))}

theorem renderAll_eq (rendered : AllRendered render children thread result final) :
    renderAll render children thread = some (result, final) := by
  induction rendered with
  | nil thread => rfl
  | throws first => rw [renderAll, first]
  | @goesOn child rest thread later final text result first _ inductionHypothesis =>
      rw [renderAll, first]
      dsimp only
      rw [inductionHypothesis]
      cases result with
      | error throwable => rfl
      | ok texts => rfl

/-- A preorder of thread states that every call keeps is kept by the calls on
all arguments of a template. -/
theorem keeps (rendered : AllRendered render children thread result final)
    (Kept : ThreadState N → ThreadState N → Prop) (refl : ∀ thread, Kept thread thread)
    (trans : ∀ first second third, Kept first second → Kept second third → Kept first third)
    (each : ∀ child ∈ children, ∀ thread result final,
      render child thread = some (result, final) → Kept thread final) :
    Kept thread final := by
  induction rendered with
  | nil thread => exact refl thread
  | throws first => exact each _ List.mem_cons_self _ _ _ first
  | goesOn first _ inductionHypothesis =>
      have early := each _ List.mem_cons_self _ _ _ first
      exact trans _ _ _ early
        (inductionHypothesis fun other member => each other (List.mem_cons_of_mem _ member))

theorem length_eq (rendered : AllRendered render children thread result final)
    {texts : List (Option String)} (isOk : result = .ok texts) :
    texts.length = children.length := by
  induction rendered generalizing texts with
  | nil thread =>
      cases isOk
      rfl
  | throws first => cases isOk
  | @goesOn _ _ _ _ _ _ result _ _ inductionHypothesis =>
      cases result with
      | error throwable => cases isOk
      | ok others =>
          cases isOk
          simp [inductionHypothesis rfl]

end AllRendered

namespace FormatEntry

variable {entry : FormatEntry N}

/-- **Everything a call that ends can do**: print a marker, answer at once, or
render the arguments of a template one level below, with its object on the
stack. -/
inductive CallResult (entry : FormatEntry N) (fuel : Nat) (object : N) (thread : ThreadState N) :
    Except Throwable (Option String) → ThreadState N → Prop where
  | marker (index : Int)
      (found : lastIndexOf (entry.equals fuel) object thread.ignore = some index)
      (nonnegative : index ≥ 0) :
      CallResult entry fuel object thread (.ok (some (entry.marker object)))
        ⟨some thread.ignore, thread.markers ++ [(thread.ignore, object)]⟩
  | direct (index : Int) (result : Except Throwable (Option String))
      (missing : lastIndexOf (entry.equals fuel) object thread.ignore = some index)
      (negative : ¬ index ≥ 0) (answered : entry.answer object = .direct result) :
      CallResult entry fuel object thread result (thread.withIgnore thread.ignore)
  | template (index : Int) (first : Option String) (child : N) (children : List N)
      (arguments : Except Throwable (List (Option String))) (final : ThreadState N)
      (missing : lastIndexOf (entry.equals fuel) object thread.ignore = some index)
      (negative : ¬ index ≥ 0) (answered : entry.answer object = .template first child children)
      (rendered : renderAll (entry.toString fuel) (child :: children)
        (thread.withIgnore (object :: thread.ignore)) = some (arguments, final)) :
      CallResult entry fuel object thread (entry.complete first arguments)
        (final.withIgnore final.ignore.tail)

theorem toString_cases {fuel : Nat} {object : N} {thread final : ThreadState N}
    {result : Except Throwable (Option String)}
    (rendered : entry.toString (fuel + 1) object thread = some (result, final)) :
    CallResult entry fuel object thread result final := by
  cases search : lastIndexOf (entry.equals fuel) object thread.ignore with
  | none => simp [toString, search] at rendered
  | some index =>
      by_cases nonnegative : index ≥ 0
      · rw [entry.toString_marker search nonnegative] at rendered
        cases rendered
        exact .marker index search nonnegative
      · rw [entry.toString_answer search nonnegative] at rendered
        cases answered : entry.answer object with
        | direct ended =>
            rw [answered] at rendered
            cases rendered
            exact .direct index result search nonnegative answered
        | template first child children =>
            rw [answered] at rendered
            dsimp only at rendered
            cases arguments : renderAll (entry.toString fuel) (child :: children)
                (thread.withIgnore (object :: thread.ignore)) with
            | none =>
                rw [arguments] at rendered
                cases rendered
            | some made =>
                rw [arguments] at rendered
                cases rendered
                exact .template index first child children made.1 made.2 search nonnegative
                  answered arguments

/-- **A call that ends restores the stack**, whether it returns or throws. -/
theorem toString_restores {fuel : Nat} {object : N} {thread final : ThreadState N}
    {result : Except Throwable (Option String)}
    (rendered : entry.toString fuel object thread = some (result, final)) :
    final.mIgnores = some thread.ignore := by
  induction fuel generalizing object thread result final with
  | zero => cases rendered
  | succ fuel inductionHypothesis =>
      cases toString_cases rendered with
      | marker => rfl
      | direct => rfl
      | template index first child children arguments inner _ _ _ renderedAll =>
          have each : ∀ other ∈ child :: children, ∀ before ended after,
              entry.toString fuel other before = some (ended, after) →
                after.ignore = before.ignore := by
            intro other _ before ended after renderedOther
            simp [ThreadState.ignore, inductionHypothesis renderedOther]
          have same : inner.ignore = (thread.withIgnore (object :: thread.ignore)).ignore :=
            (renderAll_cases renderedAll).keeps (fun before after => after.ignore = before.ignore)
              (fun _ => rfl) (fun _ _ _ early late => late.trans early) each
          show some inner.ignore.tail = some thread.ignore
          rw [same]
          rfl

theorem toString_ignore {fuel : Nat} {object : N} {thread final : ThreadState N}
    {result : Except Throwable (Option String)}
    (rendered : entry.toString fuel object thread = some (result, final)) :
    final.ignore = thread.ignore := by
  rw [ThreadState.ignore, toString_restores rendered]
  rfl

end FormatEntry

end AndroidPatch.Formats
