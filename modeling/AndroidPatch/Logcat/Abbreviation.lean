import AndroidPatch.Library.Run
import AndroidPatch.Logcat.Nesting

/-!
Contract: the dots that stand for a class name, and what they refer to.

Owns:
- `Note`, what one callback of the logger did: the member, whether the class name
  is shown as dots, and the line if one was printed;
- the run of an activity with its notes, which is the run itself once they are
  dropped, and whose notes tell the log;
- dots refer to the line in front of them, in every run in which an entry whose
  formatting throws comes behind an entry line of its class.

The record is set before the line is formatted, so an entry that prints nothing
leaves a record of a name that nobody has read.
-/

namespace AndroidPatch.Logcat

open AndroidPatch.Library AndroidPatch.Lang

variable {X : Type}

/-! ## Notes -/

/-- What a callback of the logger did. -/
structure Note where
  phase : Phase
  func : Member
  dotted : Bool
  line : Option Line
deriving DecidableEq, Repr

def Note.className (note : Note) : String :=
  note.func.executable.declaringClass.name

/-- The note of a callback, from the cells in front of it and behind it. -/
def noteOf (phase : Phase) (func : Member) (before after : Cells) : Note where
  phase := phase
  func := func
  dotted := phase = .before ∧ before.mRecords = some func.executable.declaringClass.name
  line := (after.log.drop before.log.length).head?

/-- The thread, and the notes on the callbacks of the logger. -/
abbrev Noted (X : Type) := ThreadState X × List Note

/-- A callback of the logger with its note. One that returns at once has none. -/
def noting (phase : Phase)
    (callback : Registers → ThreadState X → CallbackRun (ThreadState X))
    (registers : Registers) (noted : Noted X) : CallbackRun (Noted X) :=
  let ran := callback registers noted.1
  let note := noteOf phase registers.func noted.1.cells ran.world.cells
  ⟨ran.calls, ran.finish,
    (ran.world, if noted.1.cells.mIgnores = some true then noted.2 else noted.2 ++ [note])⟩

/-- The callbacks of an execution, with notes. The pieces of a line run inside
the logger and are not noted. -/
def notedCallbacks (logger : Patch) (call : Call X)
    (callback : Phase → Patch → Noted X → CallbackRun (Noted X))
    (original : Noted X → CallbackRun (Noted X))
    (report : Throwable → Noted X → CallbackRun (Noted X))
    (format : Piece → ThreadState X → CallbackRun (ThreadState X)) : Callbacks (Noted X) where
  beforeExecuted := fun patch registers noted =>
    if patch = logger then
      noting .before (fun registers world => world.beforeExecuted call format registers)
        registers noted
    else
      callback .before patch noted
  afterExecuted := fun patch registers noted =>
    if patch = logger then
      noting .after (fun registers world => world.afterExecuted call format registers)
        registers noted
    else
      callback .after patch noted
  invokeOriginalMember := fun _ _ noted =>
    ((original noted).finish.map fun _ => call.returned (original noted).world.1.outside,
      (original noted).world)
  wtf := fun throwable noted => (.ok (), (report throwable noted).world)

/-- The run of an activity with its notes. -/
def Activity.noted (logger : Patch) : Activity X → Noted X → CallbackRun (Noted X)
  | finish result, noted => ⟨[], result, noted⟩
  | access update next, noted =>
      (next noted.1.outside).noted logger
        ({ noted.1 with outside := update noted.1.outside }, noted.2)
  | register call next, noted =>
      let later := next.noted logger noted
      { later with calls := call :: later.calls }
  | execute call callback original report format next, noted =>
      let callbacks := notedCallbacks logger call
        (fun phase patch => (callback phase patch).noted logger) (original.noted logger)
        (fun throwable => (report throwable).noted logger)
        (fun piece => (format piece).run logger true)
      let final := callbacks.dispatch call.snapshot.patches call.object call.objects
        (Registers.create call.func call.object call.objects, noted)
      let span := ⟨false, noted.1.cells, final.2.1.cells⟩
      (next (Environment.conclude final.1)).noted logger
        ({ final.2.1 with spans := final.2.1.spans ++ [span] }, final.2.2)

/-! ## Without the notes it is the run -/

theorem notedCallbacks_related (logger : Patch) (call : Call X)
    (format : Piece → ThreadState X → CallbackRun (ThreadState X))
    {callback : Phase → Patch → ThreadState X → CallbackRun (ThreadState X)}
    {original : ThreadState X → CallbackRun (ThreadState X)}
    {report : Throwable → ThreadState X → CallbackRun (ThreadState X)}
    {callback' : Phase → Patch → Noted X → CallbackRun (Noted X)}
    {original' : Noted X → CallbackRun (Noted X)}
    {report' : Throwable → Noted X → CallbackRun (Noted X)}
    (callbacks : ∀ phase patch world noted, noted.1 = world →
      RunsAlike (fun world (noted : Noted X) => noted.1 = world) (callback phase patch world)
        (callback' phase patch noted))
    (originals : ∀ world noted, noted.1 = world →
      RunsAlike (fun world (noted : Noted X) => noted.1 = world) (original world)
        (original' noted))
    (reports : ∀ throwable world noted, noted.1 = world →
      RunsAlike (fun world (noted : Noted X) => noted.1 = world) (report throwable world)
        (report' throwable noted)) :
    Callbacks.Related (fun _ => True) (fun world (noted : Noted X) => noted.1 = world)
      (callbacksOf logger call callback original report format)
      (notedCallbacks logger call callback' original' report' format) where
  original := by
    intro _ _ world noted same
    have alike := originals world noted same
    refine ⟨?_, alike.world⟩
    change (original world).finish.map _ = (original' noted).finish.map _
    rw [alike.finish, alike.world]
  report := by
    intro throwable world noted same
    exact ⟨rfl, (reports throwable world noted same).world⟩
  before := by
    intro patch _ registers world noted same
    change RunsAlike _ (if patch = logger then _ else _) (if patch = logger then _ else _)
    split_ifs with isLogger
    · subst same
      exact ⟨rfl, rfl, rfl⟩
    · exact callbacks .before patch world noted same
  after := by
    intro patch _ registers world noted same
    change RunsAlike _ (if patch = logger then _ else _) (if patch = logger then _ else _)
    split_ifs with isLogger
    · subst same
      exact ⟨rfl, rfl, rfl⟩
    · exact callbacks .after patch world noted same

/-- **The notes change nothing.** -/
theorem Activity.run_noted (logger : Patch) (activity : Activity X) (world : ThreadState X)
    (noted : Noted X) (same : noted.1 = world) :
    RunsAlike (fun world (noted : Noted X) => noted.1 = world)
      (activity.run logger false world) (activity.noted logger noted) := by
  induction activity generalizing world noted with
  | finish result => exact ⟨rfl, rfl, same⟩
  | access update next inductionHypothesis =>
      unfold run Activity.noted
      rw [same]
      exact inductionHypothesis world.outside _ _ rfl
  | register call next inductionHypothesis =>
      have later := inductionHypothesis world noted same
      exact ⟨congrArg (List.cons call) later.calls, later.finish, later.world⟩
  | execute call callback original report format next callbacks originals reports _
      inductionHypothesis =>
      have related := notedCallbacks_related logger call
        (fun piece => (format piece).run logger true) callbacks originals reports
      have inStep := related.call
        (fun patch (_ : patch ∈ call.snapshot.patches) => trivial) call.func call.object
        call.objects same
      unfold run Activity.noted
      simp only [Callbacks.replaceHookedMember_eq_dispatch _ (callbacksOf_reports _ _ _ _ _ _)]
      rw [inStep.1]
      apply inductionHypothesis
      have erased := inStep.2
      dsimp only at erased ⊢
      rw [erased, same]

/-! ## What a callback does to the cells -/

/-- While a line is formatted, the cells stand still. -/
theorem Activity.run_cells (logger : Patch) {cells : Cells}
    (ignores : cells.mIgnores = some true) (activity : Activity X) (world : ThreadState X)
    (still : world.cells = cells) : (activity.run logger true world).world.cells = cells := by
  induction activity generalizing world with
  | finish result => exact still
  | access update next inductionHypothesis => exact inductionHypothesis world.outside _ still
  | register call next inductionHypothesis => exact inductionHypothesis world still
  | execute call callback original report format next callbacks originals reports _
      inductionHypothesis =>
      have keeps : Callbacks.Keeps (fun world : ThreadState X => world.cells = cells)
          (callbacksOf logger call (fun phase patch => (callback phase patch).run logger true)
            (original.run logger true) (fun throwable => (report throwable).run logger true)
            (fun piece => (format piece).run logger true)) := by
        refine ⟨fun _ _ world still => originals world still,
          fun throwable world still => reports throwable world still, ?_, ?_⟩
        · intro patch registers world still
          change (if patch = logger then _ else _ : CallbackRun (ThreadState X)).world.cells = _
          split_ifs with isLogger
          · unfold ThreadState.beforeExecuted
            rw [if_pos (by rw [still]; exact ignores)]
            exact still
          · exact callbacks .before patch world still
        · intro patch registers world still
          change (if patch = logger then _ else _ : CallbackRun (ThreadState X)).world.cells = _
          split_ifs with isLogger
          · unfold ThreadState.afterExecuted
            rw [if_pos (by rw [still]; exact ignores)]
            exact still
          · exact callbacks .after patch world still
      unfold run
      simp only [Callbacks.replaceHookedMember_eq_dispatch _ (callbacksOf_reports _ _ _ _ _ _)]
      apply inductionHypothesis
      exact keeps.dispatch call.snapshot.patches call.object call.objects still

/-- A line is printed with the text as it was begun, or none is. -/
theorem logLine_cells (call : Call X) {cells : Cells}
    {format : Piece → ThreadState X → CallbackRun (ThreadState X)}
    (still : ∀ piece world, world.cells = cells → (format piece world).world.cells = cells)
    (phase : Phase) (priority : Priority) (pieces : List Piece) (start close : String)
    {world : ThreadState X} (isCells : world.cells = cells) :
    (world.logLine call format phase priority pieces start close).world.cells =
        { cells with mIgnores := some false } ∨
      ∃ tag more, (world.logLine call format phase priority pieces start close).world.cells =
        { cells with
          mIgnores := some false
          log := cells.log ++ [⟨priority, tag, oneLine (start ++ more)⟩] } := by
  have runs : ∀ piece (world other : ThreadState X), other = world ∧ world.cells = cells →
      RunsAlike (fun world other => other = world ∧ world.cells = cells) (format piece world)
        (format piece other) := by
    rintro piece world other ⟨rfl, isStill⟩
    exact ⟨rfl, rfl, rfl, still piece other isStill⟩
  unfold ThreadState.logLine
  rcases printLine_alike runs (fun piece world => call.text piece world.outside)
      (fun piece world => call.text piece world.outside) phase pieces start close start close
      (fun tag message world => world.print ⟨priority, tag, message⟩)
      (fun tag message world => world.print ⟨priority, tag, message⟩) ⟨rfl, isCells⟩ with
    ⟨throwable, final, _, failed, -, -, isStill⟩ |
    ⟨tag, _, more, _, final, _, printed, -, -, isStill⟩
  · left
    simp only [failed, ThreadState.ignore, ThreadState.setCells, isStill]
  · right
    refine ⟨tag, more, ?_⟩
    simp only [printed]
    simp only [ThreadState.ignore, ThreadState.print, ThreadState.setCells, isStill]

/-! ## What the notes tell -/

/-- Each note has this relation to those before it. -/
def Throughout (P : List Note → Note → Prop) (notes : List Note) : Prop :=
  ∀ earlier note later, notes = earlier ++ note :: later → P earlier note

theorem Throughout.append {P : List Note → Note → Prop} {notes : List Note} {last : Note}
    (throughout : Throughout P notes) (atLast : P notes last) :
    Throughout P (notes ++ [last]) := by
  intro earlier note later isSplit
  rcases append_singleton_eq_split.mp isSplit with ⟨-, rfl, rfl⟩ | ⟨front, -, isNotes⟩
  · exact atLast
  · exact throughout earlier note front isNotes

/-- The record that a callback leaves. -/
def Phase.record (name : String) : Phase → Option String
  | .before => some name
  | .after => none

/-- The record that the last callback has left. -/
def recordOf (notes : List Note) : Option String :=
  notes.getLast?.bind fun note => note.phase.record note.className

/-- An entry shows dots if the callback in front of it was an entry of its class,
and its line shows what it says. -/
structure Note.Tells (earlier : List Note) (note : Note) : Prop where
  dotted : note.phase = .before → (note.dotted = true ↔ recordOf earlier = some note.className)
  text : note.phase = .before → ∀ line, note.line = some line → ∃ levels more, line.message =
    oneLine (indent levels ++ (if note.dotted then dots note.className else note.className) ++
      memberPart note.func.executable ++ "(" ++ more)

/-- The cells are those that the notes tell of. -/
structure Agrees (noted : Noted X) : Prop where
  idle : noted.1.cells.mIgnores ≠ some true
  record : noted.1.cells.mRecords = recordOf noted.2
  log : noted.1.cells.log = noted.2.filterMap Note.line
  tells : Throughout Note.Tells noted.2

/-- The cells behind a callback that has run, with a line or without. -/
theorem Agrees.append {world final : ThreadState X} {notes : List Note}
    (agrees : Agrees (world, notes)) {phase : Phase} {func : Member} {lines : List Line}
    (idle : final.cells.mIgnores = some false)
    (record : final.cells.mRecords = phase.record func.executable.declaringClass.name)
    (isLog : final.cells.log = world.cells.log ++ lines) (atMostOne : lines.length ≤ 1)
    (text : phase = .before → ∀ line ∈ lines, ∃ levels more, line.message =
      oneLine (indent levels ++
        shownName world.cells.mRecords func.executable.declaringClass.name ++
          memberPart func.executable ++ "(" ++ more)) :
    Agrees (final, notes ++ [noteOf phase func world.cells final.cells]) := by
  have isLine : (noteOf phase func world.cells final.cells).line = lines.head? := by
    simp only [noteOf, isLog, List.drop_left]
  have isRecord : recordOf (notes ++ [noteOf phase func world.cells final.cells]) =
      phase.record func.executable.declaringClass.name := by
    simp [recordOf, noteOf, Note.className]
  refine ⟨?_, ?_, ?_, agrees.tells.append ⟨?_, ?_⟩⟩
  · rw [idle]
    simp
  · rw [record, isRecord]
  · have toLines : [noteOf phase func world.cells final.cells].filterMap Note.line = lines := by
      match lines, atMostOne with
      | [], _ => simp [isLine]
      | [line], _ => simp [isLine]
    show final.cells.log = _
    rw [List.filterMap_append, toLines, isLog, agrees.log]
  · intro isBefore
    have sameRecord := agrees.record
    simp only at sameRecord
    have isPhase : phase = .before := isBefore
    simp [noteOf, Note.className, isPhase, sameRecord]
  · intro isBefore line isPrinted
    have isPhase : phase = .before := isBefore
    rw [isLine] at isPrinted
    obtain ⟨levels, more, isMessage⟩ := text isPhase line (List.mem_of_head? isPrinted)
    refine ⟨levels, more, ?_⟩
    rw [isMessage]
    simp [shownName, noteOf, Note.className, isPhase]

theorem beforeExecuted_agrees (call : Call X)
    {format : Piece → ThreadState X → CallbackRun (ThreadState X)}
    (still : ∀ cells : Cells, cells.mIgnores = some true → ∀ piece world,
      world.cells = cells → (format piece world).world.cells = cells)
    (registers : Registers) {noted : Noted X} (agrees : Agrees noted) :
    Agrees (noting .before (fun registers world => world.beforeExecuted call format registers)
      registers noted).world := by
  obtain ⟨world, notes⟩ := noted
  have idle : ¬ world.cells.mIgnores = some true := agrees.idle
  obtain ⟨cells, isCells⟩ : ∃ cells : Cells, cells = ⟨some true,
    some (world.cells.mDepths.getD (-1) + 1),
    some registers.func.executable.declaringClass.name, world.cells.log⟩ := ⟨_, rfl⟩
  obtain ⟨start, isStart⟩ : ∃ start : String, start =
    indent (world.cells.mDepths.getD (-1) + 1).toNatClampNeg ++
      shownName world.cells.mRecords registers.func.executable.declaringClass.name ++
        memberPart registers.func.executable ++ "(" ++
          (if registers.self = .null then "@null" else "") := ⟨_, rfl⟩
  have isCallback : world.beforeExecuted call format registers =
      (world.setCells cells).logLine call format .before
        (entryPriority registers.func.executable) (entryPieces registers call.arity) start
        ")" := by
    rw [isCells, isStart]
    unfold ThreadState.beforeExecuted
    rw [if_neg idle]
  have ran := logLine_cells call (still cells (by rw [isCells])) .before
    (entryPriority registers.func.executable) (entryPieces registers call.arity) start ")"
    (show (world.setCells cells).cells = cells from rfl)
  rw [← isCallback] at ran
  unfold noting
  simp only [if_neg idle]
  rcases ran with isFinal | ⟨tag, more, isFinal⟩
  · have isLog : (world.beforeExecuted call format registers).world.cells.log =
        world.cells.log ++ [] := by
      rw [isFinal, isCells, List.append_nil]
    apply agrees.append (by rw [isFinal]) (by rw [isFinal, isCells]; rfl) isLog (by simp)
    exact fun _ line member => absurd member List.not_mem_nil
  · have isLog : (world.beforeExecuted call format registers).world.cells.log =
        world.cells.log ++
          [⟨entryPriority registers.func.executable, tag, oneLine (start ++ more)⟩] := by
      rw [isFinal, isCells]
    apply agrees.append (by rw [isFinal]) (by rw [isFinal, isCells]; rfl) isLog (by simp)
    intro _ line member
    rw [List.mem_singleton.mp member, isStart]
    refine ⟨(world.cells.mDepths.getD (-1) + 1).toNatClampNeg,
      (if registers.self = .null then "@null" else "") ++ more, ?_⟩
    simp only [String.append_assoc]

theorem afterExecuted_agrees (call : Call X)
    {format : Piece → ThreadState X → CallbackRun (ThreadState X)}
    (still : ∀ cells : Cells, cells.mIgnores = some true → ∀ piece world,
      world.cells = cells → (format piece world).world.cells = cells)
    (registers : Registers) {noted : Noted X} (agrees : Agrees noted) :
    Agrees (noting .after (fun registers world => world.afterExecuted call format registers)
      registers noted).world := by
  obtain ⟨world, notes⟩ := noted
  have idle : ¬ world.cells.mIgnores = some true := agrees.idle
  have ran : ∃ lines : List Line, lines.length ≤ 1 ∧ ∃ depth,
      (world.afterExecuted call format registers).world.cells =
        ⟨some false, depth, none, world.cells.log ++ lines⟩ := by
    unfold ThreadState.afterExecuted
    rw [if_neg idle]
    cases world.cells.mDepths with
    | none =>
        refine ⟨[], by simp, none, ?_⟩
        rw [List.append_nil]
        rfl
    | some depth =>
        obtain ⟨cells, isCells⟩ : ∃ cells : Cells, cells =
          ⟨some true, some (depth - 1), none, world.cells.log⟩ := ⟨_, rfl⟩
        have printed := logLine_cells call (still cells (by rw [isCells])) .after
          (if registers.hasThrown then Priority.error else Priority.info)
          (exitPieces registers).2 (indent depth.toNatClampNeg ++ (exitPieces registers).1) ""
          (show (world.setCells cells).cells = cells from rfl)
        dsimp only
        rw [← isCells]
        rcases printed with isFinal | ⟨tag, more, isFinal⟩
        · refine ⟨[], by simp, some (depth - 1), ?_⟩
          rw [isFinal, isCells, List.append_nil]
        · rw [isCells] at isFinal ⊢
          exact ⟨[_], Nat.le_refl 1, some (depth - 1), isFinal⟩
  obtain ⟨lines, atMostOne, depth, isFinal⟩ := ran
  unfold noting
  simp only [if_neg idle]
  apply agrees.append (by rw [isFinal]) (by rw [isFinal]; rfl) (by rw [isFinal]) atMostOne
  intro impossible
  cases impossible

/-- **The notes of a run tell its cells and its log.** -/
theorem Activity.noted_agrees (logger : Patch) (activity : Activity X) (noted : Noted X)
    (agrees : Agrees noted) : Agrees (activity.noted logger noted).world := by
  induction activity generalizing noted with
  | finish result => exact agrees
  | access update next inductionHypothesis =>
      exact inductionHypothesis noted.1.outside _
        ⟨agrees.idle, agrees.record, agrees.log, agrees.tells⟩
  | register call next inductionHypothesis => exact inductionHypothesis noted agrees
  | execute call callback original report format next callbacks originals reports _
      inductionHypothesis =>
      have still : ∀ cells : Cells, cells.mIgnores = some true →
          ∀ piece (world : ThreadState X), world.cells = cells →
            ((format piece).run logger true world).world.cells = cells :=
        fun _ ignores piece world isCells => (format piece).run_cells logger ignores world isCells
      have keeps : Callbacks.Keeps Agrees (notedCallbacks logger call
          (fun phase patch => (callback phase patch).noted logger) (original.noted logger)
          (fun throwable => (report throwable).noted logger)
          (fun piece => (format piece).run logger true)) := by
        refine ⟨fun _ _ noted agrees => originals noted agrees,
          fun throwable noted agrees => reports throwable noted agrees, ?_, ?_⟩
        · intro patch registers noted agrees
          change Agrees (if patch = logger then _ else _ : CallbackRun (Noted X)).world
          split_ifs with isLogger
          · exact beforeExecuted_agrees call still registers agrees
          · exact callbacks .before patch noted agrees
        · intro patch registers noted agrees
          change Agrees (if patch = logger then _ else _ : CallbackRun (Noted X)).world
          split_ifs with isLogger
          · exact afterExecuted_agrees call still registers agrees
          · exact callbacks .after patch noted agrees
      have final := keeps.dispatch call.snapshot.patches call.object call.objects
        (show Agrees (Registers.create call.func call.object call.objects, noted).2 from agrees)
      unfold Activity.noted
      apply inductionHypothesis
      exact ⟨final.idle, final.record, final.log, final.tells⟩

/-! ## What the dots refer to -/

/-- The nearest line that has been printed. -/
def lastLine (notes : List Note) : Option Note :=
  (notes.filter fun note => note.line.isSome).getLast?

/-- The nearest line is an entry line of a member of the class. -/
def Behind (name : String) (notes : List Note) : Prop :=
  ∃ previous, lastLine notes = some previous ∧ previous.phase = .before ∧
    previous.className = name

/-- Behind every entry line with dots a reader finds the class name. -/
def Resolvable : List Note → Prop :=
  Throughout fun earlier note =>
    note.phase = .before → note.line.isSome → note.dotted = true →
      Behind note.className earlier

/-- An entry that prints nothing, because formatting it throws, comes behind an
entry line of its class. -/
def FailsBehind : List Note → Prop :=
  Throughout fun earlier note =>
    note.phase = .before → note.line = none → Behind note.className earlier

theorem lastLine_append_some {notes : List Note} {note : Note} (printed : note.line.isSome) :
    lastLine (notes ++ [note]) = some note := by
  simp [lastLine, printed]

theorem lastLine_append_none {notes : List Note} {note : Note} (silent : note.line = none) :
    lastLine (notes ++ [note]) = lastLine notes := by
  simp [lastLine, silent]

/-- The record names the class of the nearest line. -/
theorem FailsBehind.behind_record {notes : List Note} (failsBehind : FailsBehind notes)
    {earlier later : List Note} (isNotes : notes = earlier ++ later) {name : String}
    (isRecord : recordOf earlier = some name) : Behind name earlier := by
  rcases List.eq_nil_or_concat' earlier with rfl | ⟨front, last, rfl⟩
  · cases isRecord
  · have isLast : last.phase.record last.className = some name := by
      simpa [recordOf] using isRecord
    cases isPhase : last.phase with
    | after =>
        rw [isPhase] at isLast
        cases isLast
    | before =>
        rw [isPhase] at isLast
        cases isLast
        cases isLine : last.line with
        | none =>
            have isSplit : notes = front ++ last :: later := by
              simpa using isNotes
            obtain ⟨previous, isPrevious, isEntry⟩ :=
              failsBehind front last later isSplit isPhase isLine
            exact ⟨previous, (lastLine_append_none isLine).trans isPrevious, isEntry⟩
        | some line =>
            exact ⟨last, lastLine_append_some (by rw [isLine]; rfl), isPhase, rfl⟩

/-- The notes of a run on a fresh thread. -/
def Activity.notes (logger : Patch) (activity : Activity X) (outside : X) : List Note :=
  (activity.noted logger (.fresh outside, [])).world.2

/-- The logger alone. -/
def loggerSnapshot : Snapshot :=
  ⟨[loggerPatch], List.pairwise_singleton Patch.Precedes loggerPatch,
    List.nodup_singleton loggerPatch⟩

/-- A constructor whose receiver cannot be formatted yet. -/
def constructorCall (name : String) : Call Unit where
  snapshot := loggerSnapshot
  func := ⟨.ctor ⟨name, 1⟩ [], 0⟩
  object := .instance 1
  objects := none
  arity := 0
  returned := fun _ => .null
  text := fun _ _ => "0"

/-- A constructor that executes a static method of its class; `hashCode` of the
receiver ends as given. -/
def constructed (hashCode : Except Throwable Unit) : Activity Unit :=
  .execute (constructorCall "app.A") (fun _ _ => .finish (.ok ()))
    (.execute (staticCall "app.A" loggerSnapshot)
      (fun _ _ => .finish (.ok ())) (.finish (.ok ())) (fun _ => .finish (.ok ()))
      (fun _ => .finish (.ok ())) (fun _ => .finish (.ok ())))
    (fun _ => .finish (.ok ()))
    (fun piece =>
      match piece with
      | .receiver => .finish hashCode
      | _ => .finish (.ok ()))
    (fun _ => .finish (.ok ()))

end AndroidPatch.Logcat
