import AndroidPatch.Formats.Rendering
import AndroidPatch.Formats.Termination
import AndroidPatch.Library.Stdio

/-!
Contract: the name of an object in its rendering, for subclasses of `FormatIterable`
and `FormatMap` that choose the name.

Owns:
- what it means that a name is rendered verbatim, for every number of elements;
- a weight that the interpretation of a template never increases, so that no name with
  a `%` survives it;
- exactly when a name is rendered verbatim.
-/

namespace AndroidPatch.Formats

open AndroidPatch.Lang

/-! ## Weights -/

/-- The weight of a text that is printed. The letter is one that every element below
prints once. -/
def printedWeight (text : List Char) : Nat :=
  2 * text.count '%' + text.count 'u'

/-- The weight of a template: a specifier stands for one letter at most, and only two
`%` stand for a `%`. -/
def templateWeight (template : List Char) : Nat :=
  template.count '%' + template.count 'u'

theorem printedWeight_append (text more : List Char) :
    printedWeight (text ++ more) = printedWeight text + printedWeight more := by
  simp only [printedWeight, List.count_append]
  omega

theorem templateWeight_append (template more : List Char) :
    templateWeight (template ++ more) = templateWeight template + templateWeight more := by
  simp only [templateWeight, List.count_append]
  omega

theorem templateWeight_of_suffix {rest template : List Char} (isSuffix : rest <:+ template) :
    templateWeight rest ≤ templateWeight template := by
  have percents := isSuffix.sublist.count_le '%'
  have letters := isSuffix.sublist.count_le 'u'
  unfold templateWeight
  omega

theorem printedWeight_take (count : Nat) (text : List Char) :
    printedWeight (text.take count) ≤ printedWeight text := by
  have percents := (List.take_sublist count text).count_le '%'
  have letters := (List.take_sublist count text).count_le 'u'
  unfold printedWeight
  omega

theorem printedWeight_print (specifier : FormatSpecifier) (text : List Char) :
    printedWeight (specifier.print text) ≤ printedWeight text := by
  have paddingWeight : ∀ width, printedWeight (List.replicate width ' ') = 0 := by
    intro width
    simp [printedWeight, List.count_replicate]
  have padded : ∀ cut padding, printedWeight cut ≤ printedWeight text → printedWeight padding = 0 →
      printedWeight (if specifier.has '-' then cut ++ padding else padding ++ cut) ≤
        printedWeight text := by
    intro cut padding isCut isPadding
    split_ifs
    · rw [printedWeight_append, isPadding]
      exact isCut
    · rw [printedWeight_append, isPadding, Nat.zero_add]
      exact isCut
  unfold FormatSpecifier.print
  cases specifier.precision with
  | none => exact padded text _ le_rfl (paddingWeight _)
  | some precision =>
      exact padded (text.take precision) _ (printedWeight_take precision text) (paddingWeight _)

theorem printedWeight_hexHash (text : List Char) : printedWeight (hexHash text) = 0 := by
  have absent : ∀ char, 16 ≤ Library.Stdio.digitValue char → char ∉ hexHash text := by
    intro char notDigit isMember
    have isDigit := Library.Stdio.isDigitOf_toDigits (by omega) (by omega) _ char isMember
    exact Library.Stdio.ne_of_isDigitOf (by omega) isDigit notDigit rfl
  unfold printedWeight
  rw [List.count_eq_zero_of_not_mem (absent '%' (by decide)),
    List.count_eq_zero_of_not_mem (absent 'u' (by decide))]

/-- An argument of weight one prints as a text of weight one at most. -/
theorem printedWeight_convert {specifier : FormatSpecifier} {text output : List Char}
    (light : printedWeight text ≤ 1)
    (converts : specifier.convert id (some text) = .ok output) : printedWeight output ≤ 1 := by
  have finished : ∀ converted, printedWeight converted ≤ 1 →
      printedWeight (specifier.print
        (if specifier.conversion.isUpper then id converted else converted)) ≤ 1 := by
    intro converted isLight
    rw [id, ite_self]
    exact (printedWeight_print specifier converted).trans isLight
  unfold FormatSpecifier.convert at converts
  dsimp only at converts
  by_cases isBoolean : ¬ specifier.dateTime ∧ specifier.conversion ∈ ['b', 'B']
  · rw [if_pos isBoolean] at converts
    simp only [reduceCtorEq, if_false] at converts
    rw [← Except.ok.inj converts]
    exact finished "true".toList (by decide)
  · rw [if_neg isBoolean] at converts
    by_cases isString : ¬ specifier.dateTime ∧ specifier.conversion ∈ ['s', 'S']
    · rw [if_pos isString] at converts
      by_cases alternate : specifier.has '#' = true
      · rw [if_pos alternate] at converts
        cases converts
      · rw [if_neg alternate] at converts
        rw [← Except.ok.inj converts]
        exact finished text light
    · rw [if_neg isString] at converts
      by_cases isHash : ¬ specifier.dateTime ∧ specifier.conversion ∈ ['h', 'H']
      · rw [if_pos isHash] at converts
        rw [← Except.ok.inj converts]
        exact finished (hexHash text) (by rw [printedWeight_hexHash]; omega)
      · rw [if_neg isHash] at converts
        cases converts

/-! ## A template never prints more than its weight -/

/-- A specifier prints a weight of one, or of two where its conversion is a `%`. -/
theorem printAll_specifier {arguments : List (Option (List Char))}
    (light : ∀ argument ∈ arguments, ∃ text, argument = some text ∧ printedWeight text ≤ 1)
    {specifier : FormatSpecifier} {pieces : List Piece} {output : List Char} {next : Nat}
    {last : Option Nat}
    (prints : printAll id arguments (.specifier specifier :: pieces) next last = .ok output) :
    ∃ (head later : List Char) (next' : Nat) (last' : Option Nat),
      output = head ++ later ∧ printAll id arguments pieces next' last' = .ok later ∧
        (specifier.conversion = '%' ∧ printedWeight head ≤ 2 ∨ printedWeight head ≤ 1) := by
  rw [printAll] at prints
  by_cases isNewline : ¬ specifier.dateTime ∧ specifier.conversion = 'n'
  · rw [if_pos isNewline] at prints
    obtain ⟨later, printsLater, isOutput⟩ := ok_of_map prints
    exact ⟨['\n'], later, next, last, isOutput, printsLater, Or.inr (by decide)⟩
  · rw [if_neg isNewline] at prints
    by_cases isPercent : ¬ specifier.dateTime ∧ specifier.conversion = '%'
    · rw [if_pos isPercent] at prints
      obtain ⟨later, printsLater, isOutput⟩ := ok_of_map prints
      exact ⟨specifier.print ['%'], later, next, last, isOutput, printsLater,
        Or.inl ⟨isPercent.2, printedWeight_print specifier ['%']⟩⟩
    · rw [if_neg isPercent] at prints
      cases isPosition : specifier.position next last with
      | none =>
          rw [isPosition] at prints
          cases prints
      | some position =>
          rw [isPosition] at prints
          dsimp only at prints
          cases isArgument : arguments[position]? with
          | none =>
              rw [isArgument] at prints
              cases prints
          | some argument =>
              rw [isArgument] at prints
              dsimp only at prints
              obtain ⟨text, rfl, isLight⟩ := light argument (List.mem_of_getElem? isArgument)
              cases isConverted : specifier.convert id (some text) with
              | error throwable =>
                  rw [isConverted] at prints
                  cases prints
              | ok converted =>
                  rw [isConverted] at prints
                  obtain ⟨later, printsLater, isOutput⟩ := ok_of_map prints
                  exact ⟨converted, later, _, _, isOutput, printsLater,
                    Or.inr (printedWeight_convert isLight isConverted)⟩

/-- What a template prints from a `%` on: what the specifier behind it prints, and what
the rest does. -/
theorem formatFrom_percent {arguments : List (Option (List Char))}
    (light : ∀ argument ∈ arguments, ∃ text, argument = some text ∧ printedWeight text ≤ 1)
    {rest output : List Char} {next : Nat} {last : Option Nat}
    (prints : formatFrom id arguments ('%' :: rest) next last = .ok output) :
    ∃ (specifier : FormatSpecifier) (behind head later : List Char) (next' : Nat)
        (last' : Option Nat),
      readSpecifier rest = some (specifier, behind) ∧ output = head ++ later ∧
        formatFrom id arguments behind next' last' = .ok later ∧
        (specifier.conversion = '%' ∧ printedWeight head ≤ 2 ∨ printedWeight head ≤ 1) := by
  unfold formatFrom at prints
  cases isParsed : parse ('%' :: rest) with
  | error throwable =>
      rw [isParsed] at prints
      cases prints
  | ok pieces =>
      obtain ⟨specifier, behind, pieces, isRead, isLater, rfl⟩ := specifier_of_parse isParsed
      rw [isParsed] at prints
      obtain ⟨head, later, next', last', isOutput, printsLater, headLight⟩ :=
        printAll_specifier light prints
      refine ⟨specifier, behind, head, later, next', last', isRead, isOutput, ?_, headLight⟩
      unfold formatFrom
      rw [isLater]
      exact printsLater

/-- **The interpretation of a template never increases the weight.** -/
theorem printedWeight_formatFrom {arguments : List (Option (List Char))}
    (light : ∀ argument ∈ arguments, ∃ text, argument = some text ∧ printedWeight text ≤ 1)
    {template output : List Char} {next : Nat} {last : Option Nat}
    (prints : formatFrom id arguments template next last = .ok output) :
    printedWeight output ≤ templateWeight template := by
  induction size : template.length using Nat.strongRecOn generalizing template output next last with
  | _ length inductionHypothesis =>
      cases template with
      | nil =>
          rw [formatFrom_nil] at prints
          rw [← Except.ok.inj prints]
          exact le_rfl
      | cons char rest =>
          rw [List.length_cons] at size
          by_cases isPercent : char = '%'
          · subst isPercent
            obtain ⟨specifier, behind, head, later, next', last', isRead, isOutput, printsLater,
              headLight⟩ := formatFrom_percent light prints
            have shorter := length_of_readSpecifier isRead
            have laterLight := inductionHypothesis behind.length (by omega) printsLater rfl
            have consumed := templateWeight_of_suffix (readSpecifier_suffix isRead)
            rw [isOutput, printedWeight_append]
            simp only [templateWeight, List.count_cons] at consumed laterLight ⊢
            rcases headLight with ⟨endsWithPercent, atMostTwo⟩ | atMostOne
            · rw [endsWithPercent] at consumed
              simp at consumed ⊢
              omega
            · simp at consumed ⊢
              omega
          · rw [formatFrom_cons _ _ isPercent] at prints
            obtain ⟨printed, isPrinted, isOutput⟩ := ok_of_map prints
            have laterLight := inductionHypothesis rest.length (by omega) isPrinted rfl
            rw [isOutput]
            simp only [printedWeight, templateWeight, List.count_cons] at laterLight ⊢
            simp [isPercent] at laterLight ⊢
            omega

/-! ## The weights of the templates and of their texts -/

theorem templateWeight_placeholders (count : Nat) :
    templateWeight (placeholders count) = count := by
  induction count using placeholders.induct with
  | case1 => rfl
  | case2 => rfl
  | case3 count inductionHypothesis =>
      rw [placeholders, templateWeight_append, inductionHypothesis,
        show templateWeight ['%', 's', ',', ' '] = 1 by decide]
      omega

theorem templateWeight_pairPlaceholders (count : Nat) :
    templateWeight (pairPlaceholders count) = 2 * count := by
  induction count using pairPlaceholders.induct with
  | case1 => rfl
  | case2 => rfl
  | case3 count inductionHypothesis =>
      rw [pairPlaceholders, templateWeight_append, inductionHypothesis,
        show templateWeight ['%', 's', '=', '%', 's', ',', ' '] = 2 by decide]
      omega

theorem printedWeight_joined {texts : List String}
    (weighOne : ∀ text ∈ texts, printedWeight text.toList = 1) :
    printedWeight (joined texts).toList = texts.length := by
  induction texts using joined.induct with
  | case1 => rfl
  | case2 text => exact weighOne text (by simp)
  | case3 text next rest inductionHypothesis =>
      have later := inductionHypothesis fun other isOther =>
        weighOne other (List.mem_cons_of_mem text isOther)
      rw [joined, String.toList_append, String.toList_append, printedWeight_append,
        printedWeight_append, later, weighOne text (by simp),
        show printedWeight ", ".toList = 0 by decide]
      simp only [List.length_cons]
      omega

theorem printedWeight_joinedPairs {pairs : List (String × String)}
    (weighOne : ∀ pair ∈ pairs, printedWeight pair.1.toList = 1 ∧ printedWeight pair.2.toList = 1) :
    printedWeight (joinedPairs pairs).toList = 2 * pairs.length := by
  induction pairs using joinedPairs.induct with
  | case1 => rfl
  | case2 key value =>
      obtain ⟨keyWeight, valueWeight⟩ := weighOne (key, value) (by simp)
      rw [joinedPairs, String.toList_append, String.toList_append, printedWeight_append,
        printedWeight_append, keyWeight, valueWeight, show printedWeight "=".toList = 0 by decide]
      rfl
  | case3 key value next rest inductionHypothesis =>
      have later := inductionHypothesis fun other isOther =>
        weighOne other (List.mem_cons_of_mem (key, value) isOther)
      obtain ⟨keyWeight, valueWeight⟩ := weighOne (key, value) (by simp)
      rw [joinedPairs]
      simp only [String.toList_append, printedWeight_append]
      rw [later, keyWeight, valueWeight, show printedWeight "=".toList = 0 by decide,
        show printedWeight ", ".toList = 0 by decide]
      simp only [List.length_cons]
      omega

/-- The texts all weigh one. -/
def WeighOne (texts : List (Option String)) : Prop :=
  ∀ text ∈ texts, ∃ characters, text = some characters ∧ printedWeight characters.toList = 1

theorem WeighOne.light {texts : List (Option String)} (weighOne : WeighOne texts) :
    ∀ argument ∈ texts.map (Option.map String.toList),
      ∃ text, argument = some text ∧ printedWeight text ≤ 1 := by
  intro argument isArgument
  obtain ⟨text, isText, rfl⟩ := List.mem_map.mp isArgument
  obtain ⟨characters, rfl, weight⟩ := weighOne text isText
  exact ⟨characters.toList, rfl, weight.le⟩

theorem WeighOne.printed {texts : List (Option String)} (weighOne : WeighOne texts) :
    ∀ text ∈ texts.map printed, printedWeight text.toList = 1 := by
  intro text isText
  obtain ⟨original, isOriginal, rfl⟩ := List.mem_map.mp isText
  obtain ⟨characters, rfl, weight⟩ := weighOne original isOriginal
  exact weight

/-- A template that prints its own name, and elements that weigh one, has no `%` in the
name. -/
theorem plain_of_prints {name middle after printed : List Char} {texts : List (Option String)}
    (weighOne : WeighOne texts)
    (sameWeight : printedWeight printed = templateWeight middle)
    (prints : formatFrom id (texts.map (Option.map String.toList)) (name ++ middle ++ after) 0
      none = .ok (name ++ printed ++ after)) : '%' ∉ name := by
  have atMost := printedWeight_formatFrom weighOne.light prints
  simp only [printedWeight_append, templateWeight_append] at atMost
  simp only [printedWeight, templateWeight] at atMost sameWeight
  have noPercent : name.count '%' = 0 := by omega
  exact List.count_eq_zero.mp noPercent

theorem plain_of_stringFormat_iterable {N : Type} {name : Option String} {array : Option (List N)}
    {texts : List (Option String)} (weighOne : WeighOne texts)
    (size : (array.getD []).length = texts.length)
    (prints : stringFormat id (some (FormatIterable.template name array)) texts =
      .ok (sequenceText (name.getD "") texts)) : '%' ∉ (name.getD "").toList := by
  obtain ⟨output, isOutput, isText⟩ := ok_of_map prints
  have outputIs : output = (name.getD "").toList ++
      ('[' :: (joined (texts.map printed)).toList) ++ [']'] := by
    have asList := congrArg String.toList isText
    simpa [sequenceText] using asList.symm
  have templateIs : (FormatIterable.template name array).toList = (name.getD "").toList ++
      ('[' :: placeholders texts.length) ++ [']'] := by
    simp [FormatIterable.template, size]
  rw [templateIs, outputIs] at isOutput
  refine plain_of_prints weighOne ?_ isOutput
  have joinedWeight := printedWeight_joined weighOne.printed
  have placeholdersWeight := templateWeight_placeholders texts.length
  rw [List.length_map] at joinedWeight
  simp only [printedWeight, templateWeight] at joinedWeight placeholdersWeight ⊢
  simp
  omega

theorem plain_of_stringFormat_map {N : Type} {name : Option String} {array2 : Option (List N)}
    {pairs : List (Option String × Option String)}
    (weighOne : WeighOne (pairs.flatMap fun pair => [pair.1, pair.2]))
    (size : (array2.getD []).length = 2 * pairs.length)
    (prints : stringFormat id (some (FormatMap.template name array2))
        (pairs.flatMap fun pair => [pair.1, pair.2]) =
      .ok (mapText (name.getD "") pairs)) : '%' ∉ (name.getD "").toList := by
  obtain ⟨output, isOutput, isText⟩ := ok_of_map prints
  have outputIs : output = (name.getD "").toList ++
      ("\x7b".toList ++ (joinedPairs (pairs.map fun pair =>
        (printed pair.1, printed pair.2))).toList) ++ "\x7d".toList := by
    have asList := congrArg String.toList isText
    simpa [mapText] using asList.symm
  have templateIs : (FormatMap.template name array2).toList = (name.getD "").toList ++
      ("\x7b".toList ++ pairPlaceholders pairs.length) ++ "\x7d".toList := by
    simp [FormatMap.template, size]
  rw [templateIs, outputIs] at isOutput
  refine plain_of_prints weighOne ?_ isOutput
  have pairsWeighOne : ∀ pair ∈ pairs.map fun pair => (printed pair.1, printed pair.2),
      printedWeight pair.1.toList = 1 ∧ printedWeight pair.2.toList = 1 := by
    intro pair isPair
    obtain ⟨original, isOriginal, rfl⟩ := List.mem_map.mp isPair
    have inTexts : ∀ text ∈ [original.1, original.2],
        text ∈ pairs.flatMap fun pair => [pair.1, pair.2] :=
      fun text isText => List.mem_flatMap.mpr ⟨original, isOriginal, isText⟩
    exact ⟨weighOne.printed _ (List.mem_map.mpr ⟨_, inTexts original.1 (by simp), rfl⟩),
      weighOne.printed _ (List.mem_map.mpr ⟨_, inTexts original.2 (by simp), rfl⟩)⟩
  have joinedWeight := printedWeight_joinedPairs pairsWeighOne
  have placeholdersWeight := templateWeight_pairPlaceholders pairs.length
  rw [List.length_map] at joinedWeight
  rw [printedWeight_append, templateWeight_append, joinedWeight, placeholdersWeight]
  rfl

/-! ## The rendering of an object that a format claims -/

section Claimed

variable {N : Type}

/-- The formats before this one answer null, so that the loop comes to it. -/
def FormatEntry.ComesTo (entry : FormatEntry N) (object : N) (format : Format N) : Prop :=
  ∃ before after, entry.mFormatArray = before ++ format :: after ∧
    ∀ earlier ∈ before, earlier object = .ok none

theorem FormatEntry.answer_of_comesTo {entry : FormatEntry N} {object : N} {format : Format N}
    {pair : Formatting N} (comesTo : entry.ComesTo object format)
    (answers : format object = .ok (some pair)) : entry.answer object = .ofFormatting pair := by
  obtain ⟨before, after, isArray, silent⟩ := comesTo
  unfold FormatEntry.answer
  rw [isArray]
  clear isArray
  induction before with
  | nil => exact FormatEntry.answerOf_found answers after
  | cons earlier before inductionHypothesis =>
      rw [List.cons_append, FormatEntry.answerOf_silent (silent earlier (by simp))]
      exact inductionHypothesis fun other isOther => silent other (List.mem_cons_of_mem _ isOther)

/-- A call of `toString` on an object that is not on the stack, whose format is asked for
an answer, and whose elements then render to these texts. -/
structure ElementsRendered (entry : FormatEntry N) (fuel : Nat) (object : N)
    (thread : ThreadState N) (format : Format N) (elements : List N)
    (texts : List (Option String)) : Prop where
  comesTo : entry.ComesTo object format
  missing : lastIndexOf (entry.equals fuel) object thread.ignore = some (-1)
  rendered : ∃ final, renderAll (entry.toString fuel) elements
    (thread.withIgnore (object :: thread.ignore)) = some (.ok texts, final)

/-- Without elements the template itself is the text, with elements it is
interpreted. -/
theorem ElementsRendered.toString_eq {entry : FormatEntry N} {fuel : Nat} {object : N}
    {thread : ThreadState N} {format : Format N} {array : Option (List N)}
    {texts : List (Option String)} {template : String}
    (call : ElementsRendered entry fuel object thread format (array.getD []) texts)
    (answers : format object = .ok (some ⟨some template, array⟩)) :
    ∃ final, entry.toString (fuel + 1) object thread =
      some (if array.getD [] = [] then .ok (some template)
        else (stringFormat entry.toUpperCase (some template) texts).map some, final) := by
  obtain ⟨final, rendered⟩ := call.rendered
  rw [entry.toString_answer call.missing (by omega),
    FormatEntry.answer_of_comesTo call.comesTo answers]
  rcases array with _ | _ | ⟨child, children⟩
  · exact ⟨_, rfl⟩
  · exact ⟨_, rfl⟩
  · rw [Option.getD_some] at rendered
    simp only [Answer.ofFormatting, rendered, FormatEntry.complete]
    exact ⟨_, rfl⟩

theorem ElementsRendered.length_eq {entry : FormatEntry N} {fuel : Nat} {object : N}
    {thread : ThreadState N} {format : Format N} {elements : List N}
    {texts : List (Option String)}
    (call : ElementsRendered entry fuel object thread format elements texts) :
    texts.length = elements.length := by
  obtain ⟨final, rendered⟩ := call.rendered
  exact (renderAll_cases rendered).length_eq rfl

end Claimed

/-- **The name and the elements of a sequence, verbatim.** For every subclass of
`FormatIterable`, every entry that comes to it, and every array of this length whose
elements can be rendered. -/
def IterableVerbatim (name : Option String) (length : Nat) : Prop :=
  ∀ (N : Type) (entry : FormatEntry N) (fuel : Nat) (object : N) (thread : ThreadState N)
    (belongTo : N → Except Throwable Bool) (toArray : N → Except Throwable (Option (List N)))
    (nameOf : N → Except Throwable (Option String)) (array : Option (List N))
    (texts : List (Option String)),
    belongTo object = .ok true → toArray object = .ok array → nameOf object = .ok name →
    (array.getD []).length = length →
    ElementsRendered entry fuel object thread (FormatIterable.format belongTo toArray nameOf)
      (array.getD []) texts →
    ∃ final, entry.toString (fuel + 1) object thread =
      some (.ok (some (sequenceText (name.getD "") texts)), final)

/-- What the first format of an entry does for null: `FormatObject.B` claims it, and
prints it as `null`. Null equals nothing else. -/
structure RendersNull {N : Type} (entry : FormatEntry N) (null : N) : Prop where
  claimed : ∃ format rest, entry.mFormatArray = format :: rest ∧
    format null = .ok (some ⟨some "null", none⟩)
  identity : ∀ fuel other, entry.equals fuel null other = some true → other = null

/-- **The name and the pairs of a map, verbatim**, a missing last value as null. -/
def MapVerbatim (name : Option String) (length : Nat) : Prop :=
  ∀ (N : Type) (null : N) (entry : FormatEntry N) (fuel : Nat) (object : N)
    (thread : ThreadState N) (belongTo : N → Except Throwable Bool)
    (toArray2 : N → Except Throwable (Option (List N)))
    (nameOf : N → Except Throwable (Option String)) (array2 : Option (List N))
    (texts : List (Option String)),
    RendersNull entry null → null ∉ object :: thread.ignore →
    belongTo object = .ok true → toArray2 object = .ok array2 → nameOf object = .ok name →
    (array2.getD []).length = length →
    ElementsRendered entry fuel object thread (FormatMap.format null belongTo toArray2 nameOf)
      ((array2.map (FormatMap.fixMistake null)).getD []) texts →
    ∃ pairs final, texts = (pairs.flatMap fun pair => [pair.1, pair.2]) ∧
      (length % 2 = 1 → ∃ key, pairs.getLast? = some (key, some "null")) ∧
      entry.toString (fuel + 1) object thread =
        some (.ok (some (mapText (name.getD "") pairs)), final)

/-! ## Names without a `%` -/

theorem iterableVerbatim_of_plain {name : Option String} {length : Nat}
    (plain : '%' ∉ (name.getD "").toList ∨ length = 0) : IterableVerbatim name length := by
  intro N entry fuel object thread belongTo toArray nameOf array texts belongs isArray isName size
    call
  obtain ⟨final, rendered⟩ := call.toString_eq (FormatIterable.format_answers belongs isArray isName)
  refine ⟨final, rendered.trans ?_⟩
  have sameLength := call.length_eq
  rcases array with _ | _ | ⟨child, children⟩
  · obtain rfl : texts = [] := List.length_eq_zero_iff.mp sameLength
    rfl
  · obtain rfl : texts = [] := List.length_eq_zero_iff.mp sameLength
    rfl
  · have nonempty : length ≠ 0 := by
      simp only [Option.getD_some, List.length_cons] at size
      omega
    have printed : stringFormat entry.toUpperCase
        (some (FormatIterable.template name (some (child :: children)))) texts =
          .ok (sequenceText (name.getD "") texts) :=
      stringFormat_iterable entry.toUpperCase texts (plain.resolve_right nonempty) sameLength.symm
    rw [if_neg (by simp), printed]
    rfl

theorem exists_pairs {texts : List (Option String)} (even : texts.length % 2 = 0) :
    ∃ pairs : List (Option String × Option String),
      texts = pairs.flatMap fun pair => [pair.1, pair.2] := by
  induction size : texts.length using Nat.strongRecOn generalizing texts with
  | _ length inductionHypothesis =>
      rcases texts with _ | ⟨key, _ | ⟨value, rest⟩⟩
      · exact ⟨[], rfl⟩
      · simp at even
      · simp only [List.length_cons] at size even
        obtain ⟨pairs, isPairs⟩ := inductionHypothesis rest.length (by omega) (by omega) rfl
        exact ⟨(key, value) :: pairs, by rw [List.flatMap_cons, ← isPairs]; rfl⟩

/-- Null is rendered as `null`. -/
theorem RendersNull.text {N : Type} {entry : FormatEntry N} {null : N}
    (rendersNull : RendersNull entry null) {fuel : Nat} {thread final : ThreadState N}
    {text : Option String} (notOnStack : null ∉ thread.ignore)
    (rendered : entry.toString fuel null thread = some (.ok text, final)) :
    text = some "null" := by
  obtain ⟨format, rest, isArray, claims⟩ := rendersNull.claimed
  have answered : entry.answer null = .direct (.ok (some "null")) :=
    FormatEntry.answer_of_comesTo ⟨[], rest, isArray, by simp⟩ claims
  cases fuel with
  | zero => cases rendered
  | succ fuel =>
      generalize isResult : (Except.ok text : Except Throwable (Option String)) = result at rendered
      cases FormatEntry.toString_cases rendered with
      | marker index found nonnegative =>
          obtain ⟨ancestor, isAncestor, equal⟩ := lastIndexOf_nonneg found nonnegative
          rw [rendersNull.identity fuel ancestor equal] at isAncestor
          exact absurd isAncestor notOnStack
      | direct index result missing negative isAnswer =>
          rw [answered] at isAnswer
          injection isAnswer with isDirect
          rw [← isDirect] at isResult
          exact Except.ok.inj isResult
      | template index first child children arguments inner missing negative isAnswer =>
          rw [answered] at isAnswer
          cases isAnswer

/-- The text of a null that stands last. -/
theorem RendersNull.last {N : Type} {entry : FormatEntry N} {null : N}
    (rendersNull : RendersNull entry null) {fuel : Nat} {elements : List N}
    {thread final : ThreadState N} {texts : List (Option String)}
    (notOnStack : null ∉ thread.ignore)
    (rendered : renderAll (entry.toString fuel) (elements ++ [null]) thread =
      some (.ok texts, final)) : texts.getLast? = some (some "null") := by
  have allRendered := renderAll_cases rendered
  clear rendered
  induction elements generalizing thread texts with
  | nil =>
      generalize isResult : (Except.ok texts : Except Throwable (List (Option String))) = result
        at allRendered
      cases allRendered with
      | throws first => cases isResult
      | @goesOn _ _ _ later _ text others first rest =>
          cases rest
          cases isResult
          rw [rendersNull.text notOnStack first]
          rfl
  | cons element elements inductionHypothesis =>
      generalize isResult : (Except.ok texts : Except Throwable (List (Option String))) = result
        at allRendered
      cases allRendered with
      | throws first => cases isResult
      | @goesOn _ _ _ later _ text others first rest =>
          cases others with
          | error throwable => cases isResult
          | ok others =>
              cases isResult
              have sameStack := FormatEntry.toString_ignore first
              have isLast := inductionHypothesis (sameStack ▸ notOnStack) rest
              rw [List.getLast?_cons, isLast]
              rfl

theorem length_fixMistake {N : Type} (null : N) (array2 : List N) :
    (FormatMap.fixMistake null array2).length % 2 = 0 := by
  unfold FormatMap.fixMistake
  split_ifs with odd
  · rw [List.length_append, List.length_singleton]
    omega
  · omega

theorem FormatMap.format_fixed {N : Type} {null : N} {belongTo : N → Except Throwable Bool}
    {toArray2 : N → Except Throwable (Option (List N))}
    {nameOf : N → Except Throwable (Option String)} {object : N} {array2 : Option (List N)}
    {name : Option String} (belongs : belongTo object = .ok true)
    (isArray : toArray2 object = .ok array2) (isName : nameOf object = .ok name) :
    FormatMap.format null belongTo toArray2 nameOf object =
      .ok (some ⟨some (FormatMap.template name (array2.map (FormatMap.fixMistake null))),
        array2.map (FormatMap.fixMistake null)⟩) := by
  unfold FormatMap.format
  rw [belongs, isArray, isName]
  rfl

/-- The last of the texts is the value of the last pair. -/
theorem last_of_pairs {pairs : List (Option String × Option String)} {text : Option String}
    (isLast : (pairs.flatMap fun pair => [pair.1, pair.2]).getLast? = some text) :
    ∃ key, pairs.getLast? = some (key, text) := by
  rcases List.eq_nil_or_concat pairs with rfl | ⟨others, pair, rfl⟩
  · cases isLast
  · simp only [List.concat_eq_append, List.flatMap_append, List.flatMap_cons,
      List.flatMap_nil, List.append_nil, List.getLast?_append_cons, List.getLast?_cons_cons,
      List.getLast?_singleton, Option.some.injEq] at isLast
    exact ⟨pair.1, by simp [← isLast]⟩

theorem mapVerbatim_of_plain {name : Option String} {length : Nat}
    (plain : '%' ∉ (name.getD "").toList ∨ length = 0) : MapVerbatim name length := by
  intro N null entry fuel object thread belongTo toArray2 nameOf array2 texts rendersNull notNull
    belongs isArray isName size call
  obtain ⟨final, rendered⟩ := call.toString_eq (FormatMap.format_fixed belongs isArray isName)
  have sameLength := call.length_eq
  have isEven : ((array2.map (FormatMap.fixMistake null)).getD []).length % 2 = 0 := by
    cases array2 with
    | none => rfl
    | some array2 => exact length_fixMistake null array2
  obtain ⟨pairs, isPairs⟩ := exists_pairs (sameLength ▸ isEven)
  refine ⟨pairs, final, isPairs, ?_, rendered.trans ?_⟩
  · intro isOdd
    cases array2 with
    | none =>
        rw [← size] at isOdd
        cases isOdd
    | some array2 =>
        have padded : FormatMap.fixMistake null array2 = array2 ++ [null] := by
          unfold FormatMap.fixMistake
          rw [if_pos (by simp only [Option.getD_some] at size; omega)]
        obtain ⟨rest, renderedAll⟩ := call.rendered
        rw [Option.map_some, Option.getD_some, padded] at renderedAll
        have isLast := rendersNull.last (by simpa using notNull) renderedAll
        exact last_of_pairs (isPairs ▸ isLast)
  · by_cases isEmpty : (array2.map (FormatMap.fixMistake null)).getD [] = []
    · have noTexts : texts = [] := List.length_eq_zero_iff.mp (by rw [sameLength, isEmpty]; rfl)
      have noPairs : pairs = [] := by
        cases pairs with
        | nil => rfl
        | cons pair rest => simp [noTexts] at isPairs
      rw [if_pos isEmpty, noPairs]
      simp [FormatMap.template, isEmpty, mapText, pairPlaceholders, joinedPairs]
    · have nonempty : length ≠ 0 := by
        intro isZero
        rw [isZero] at size
        cases array2 with
        | none => exact isEmpty rfl
        | some array2 =>
            rw [Option.getD_some, List.length_eq_zero_iff] at size
            exact isEmpty (by rw [size]; rfl)
      obtain ⟨children, isChildren⟩ : ∃ children,
          array2.map (FormatMap.fixMistake null) = some children := by
        cases array2 with
        | none => exact absurd rfl isEmpty
        | some array2 => exact ⟨_, rfl⟩
      rw [isChildren] at sameLength isEmpty ⊢
      have printed : stringFormat entry.toUpperCase
          (some (FormatMap.template name (some children))) texts =
            .ok (mapText (name.getD "") pairs) :=
        stringFormat_map entry.toUpperCase texts (plain.resolve_right nonempty) isPairs
          sameLength.symm
      rw [if_neg isEmpty, printed]
      rfl

/-! ## Names with a `%` -/

/-- An entry that renders null as `null`, one object through the given format, and the
other one as a letter. -/
def letterEntry (format : Format (Option Bool)) : FormatEntry (Option Bool) where
  mFormatArray := [FormatObject.format (fun object => .ok object.isNone) (fun _ => .ok (some "null")),
    format, FormatObject.format (fun _ => .ok true) (fun _ => .ok (some "u"))]
  getSimpleName := fun _ => none
  equals := fun _ object other => some (object == other)
  toUpperCase := id

def letterText (object : Option Bool) : Option String :=
  some (if object.isNone then "null" else "u")

theorem weighOne_letterText (objects : List (Option Bool)) :
    WeighOne (objects.map letterText) := by
  intro text isText
  obtain ⟨object, -, rfl⟩ := List.mem_map.mp isText
  cases object with
  | none => exact ⟨"null", rfl, by decide⟩
  | some flag => exact ⟨"u", rfl, by decide⟩

theorem rendersNull_letterEntry (format : Format (Option Bool)) :
    RendersNull (letterEntry format) none := by
  refine ⟨⟨_, _, rfl, rfl⟩, ?_⟩
  intro fuel other equal
  cases other with
  | none => rfl
  | some flag => cases equal

theorem elementsRendered_letterEntry {format : Format (Option Bool)}
    (silent : format (some false) = .ok none) {elements : List (Option Bool)}
    (others : ∀ element ∈ elements, element = some false ∨ element = none) :
    ElementsRendered (letterEntry format) 1 (some true) ⟨none, []⟩ format elements
      (elements.map letterText) := by
  have each : ∀ element ∈ elements, (letterEntry format).toString 1 element ⟨some [some true], []⟩ =
      some (.ok (letterText element), ⟨some [some true], []⟩) := by
    intro element isElement
    rcases others element isElement with rfl | rfl
    · simp only [FormatEntry.toString, letterEntry, FormatEntry.formatLoop, silent]
      rfl
    · rfl
  exact ⟨⟨[_], [_], rfl, by simp; rfl⟩, rfl, ⟨_, renderAll_texts each⟩⟩

/-- What the letters make of the two ways to render a template. -/
theorem stringFormat_of_toString {format : Format (Option Bool)} {template text : String}
    {elements : List (Option Bool)} {texts : List (Option String)}
    {final : ThreadState (Option Bool)} (nonempty : elements ≠ [])
    (call : ElementsRendered (letterEntry format) 1 (some true) ⟨none, []⟩ format elements texts)
    (answers : format (some true) = .ok (some ⟨some template, some elements⟩))
    (rendered : (letterEntry format).toString 2 (some true) ⟨none, []⟩ =
      some (.ok (some text), final)) :
    stringFormat id (some template) texts = .ok text := by
  obtain ⟨final', isRendered⟩ := @ElementsRendered.toString_eq _ _ _ _ _ _ (some elements) _ _ call
    answers
  rw [isRendered, Option.getD_some, if_neg nonempty] at rendered
  have isText := congrArg Prod.fst (Option.some.inj rendered)
  obtain ⟨printed, isPrinted, isSome⟩ := ok_of_map isText
  rw [Option.some.inj isSome]
  exact isPrinted

theorem plain_of_iterableVerbatim {name : Option String} {length : Nat} (nonempty : length ≠ 0)
    (verbatim : IterableVerbatim name length) : '%' ∉ (name.getD "").toList := by
  have isElements : List.replicate length (some false) ≠ [] := by
    simp [nonempty]
  have call := @elementsRendered_letterEntry
    (FormatIterable.format (fun object => .ok (object == some true))
      (fun _ => .ok (some (List.replicate length (some false)))) (fun _ => .ok name)) rfl
    (List.replicate length (some false)) fun element isElement =>
      Or.inl (List.eq_of_mem_replicate isElement)
  obtain ⟨final, rendered⟩ := verbatim _ _ _ _ _ _ _ _ (some (List.replicate length (some false))) _
    rfl rfl rfl (by simp) call
  have prints := stringFormat_of_toString isElements call rfl rendered
  exact plain_of_stringFormat_iterable (weighOne_letterText _) (by simp) prints

theorem plain_of_mapVerbatim {name : Option String} {length : Nat} (nonempty : length ≠ 0)
    (verbatim : MapVerbatim name length) : '%' ∉ (name.getD "").toList := by
  have isElements : FormatMap.fixMistake none (List.replicate length (some false)) ≠ [] := by
    unfold FormatMap.fixMistake
    split_ifs
    · simp
    · simp [nonempty]
  have others : ∀ element ∈ FormatMap.fixMistake none (List.replicate length (some false)),
      element = some false ∨ element = none := by
    intro element isElement
    unfold FormatMap.fixMistake at isElement
    split_ifs at isElement
    · rcases List.mem_append.mp isElement with isFalse | isNull
      · exact Or.inl (List.eq_of_mem_replicate isFalse)
      · exact Or.inr (List.mem_singleton.mp isNull)
    · exact Or.inl (List.eq_of_mem_replicate isElement)
  have call := @elementsRendered_letterEntry
    (FormatMap.format none (fun object => .ok (object == some true))
      (fun _ => .ok (some (List.replicate length (some false)))) (fun _ => .ok name)) rfl _ others
  obtain ⟨pairs, final, isPairs, -, rendered⟩ := verbatim _ none _ _ _ _ _ _ _
    (some (List.replicate length (some false))) _ (rendersNull_letterEntry _) (by simp [ThreadState.ignore])
    rfl rfl rfl (by simp) call
  have prints := stringFormat_of_toString isElements call rfl rendered
  have size := call.length_eq
  have weighOne := weighOne_letterText (FormatMap.fixMistake none (List.replicate length (some false)))
  rw [isPairs] at prints weighOne size
  exact plain_of_stringFormat_map weighOne (by simpa [Nat.mul_comm] using size.symm) prints

/-- **A name is rendered verbatim exactly when it holds no `%`, or there are no
elements.** -/
theorem verbatim_iff_plain (name : Option String) (length : Nat) :
    (IterableVerbatim name length ↔ '%' ∉ (name.getD "").toList ∨ length = 0) ∧
      (MapVerbatim name length ↔ '%' ∉ (name.getD "").toList ∨ length = 0) := by
  refine ⟨⟨fun verbatim => ?_, iterableVerbatim_of_plain⟩,
    ⟨fun verbatim => ?_, mapVerbatim_of_plain⟩⟩
  · by_cases isEmpty : length = 0
    · exact Or.inr isEmpty
    · exact Or.inl (plain_of_iterableVerbatim isEmpty verbatim)
  · by_cases isEmpty : length = 0
    · exact Or.inr isEmpty
    · exact Or.inl (plain_of_mapVerbatim isEmpty verbatim)

/-- The name `100%` is lost as soon as there is an element: the bracket behind it is no
conversion. -/
theorem percent_not_verbatim :
    stringFormat id (some (FormatIterable.template (some "100%") (some [()]))) [some "u"] =
        .error (illegalFormat "UnknownFormatConversionException") ∧
      ¬ IterableVerbatim (some "100%") 1 ∧ ¬ MapVerbatim (some "100%") 1 := by
  refine ⟨?_, ?_, ?_⟩
  · have isTemplate : (FormatIterable.template (some "100%") (some [()])).toList =
        "100".toList ++ '%' :: "[%s]".toList := by decide
    have unread : readSpecifier "[%s]".toList = none := by decide
    unfold stringFormat
    dsimp only
    rw [isTemplate, formatFrom_text _ _ (by decide), formatFrom, parse_unread unread]
    rfl
  · exact fun verbatim => plain_of_iterableVerbatim (by decide) verbatim (by decide)
  · exact fun verbatim => plain_of_mapVerbatim (by decide) verbatim (by decide)

end AndroidPatch.Formats
