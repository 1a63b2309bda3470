import AndroidPatch.Logcat.Logging

/-!
Contract: the lines of a logger nest as the executions do.

Owns:
- what an activity does when the logger is silent, and the lines it should print
  when it is not, both without any thread-local cell: the depth is the depth of
  the recursion;
- the callbacks with their cells run in step with both;
- on a fresh thread every execution restores the depth, those inside a callback
  of the logger change nothing, and the lines are the expected ones;
- an execution that a patch in front of the logger starts, which the indentation
  does not count as nested, and a depth that wraps around.
-/

namespace AndroidPatch.Logcat

open AndroidPatch.Library AndroidPatch.Lang

variable {X : Type}

/-! ## The activity without cells -/

/-- The callbacks of an execution when the logger does nothing. -/
def silentCallbacks (logger : Patch) (call : Call X)
    (callback : Phase → Patch → X → CallbackRun X) (original : X → CallbackRun X)
    (report : Throwable → X → CallbackRun X) : Callbacks X where
  beforeExecuted := fun patch _ outside =>
    if patch = logger then ⟨[], .ok (), outside⟩ else callback .before patch outside
  afterExecuted := fun patch _ outside =>
    if patch = logger then ⟨[], .ok (), outside⟩ else callback .after patch outside
  invokeOriginalMember := fun _ _ outside =>
    ((original outside).finish.map fun _ => call.returned (original outside).world,
      (original outside).world)
  wtf := fun throwable outside => (.ok (), (report throwable outside).world)

/-- What an activity does inside a callback of the logger. -/
def Activity.silent (logger : Patch) : Activity X → X → CallbackRun X
  | finish result, outside => ⟨[], result, outside⟩
  | access update next, outside => (next outside).silent logger (update outside)
  | register call next, outside =>
      let later := next.silent logger outside
      { later with calls := call :: later.calls }
  | execute call callback original report _ next, outside =>
      let callbacks := silentCallbacks logger call
        (fun phase patch => (callback phase patch).silent logger) (original.silent logger)
        (fun throwable => (report throwable).silent logger)
      let final := callbacks.dispatch call.snapshot.patches call.object call.objects
        (Registers.create call.func call.object call.objects, outside)
      (next (Environment.conclude final.1)).silent logger final.2

/-- A line that should be printed. -/
structure Mark where
  phase : Phase
  func : Member
  depth : Nat
deriving DecidableEq, Repr

/-- The state, and the lines that should have been printed. -/
abbrev Marked (X : Type) := X × List Mark

/-- The callbacks of an execution, apart from those of the logger. -/
def markedCallbacks (call : Call X)
    (callback : Phase → Patch → Marked X → CallbackRun (Marked X))
    (original : Marked X → CallbackRun (Marked X))
    (report : Throwable → Marked X → CallbackRun (Marked X)) : Callbacks (Marked X) where
  beforeExecuted := fun patch _ marked => callback .before patch marked
  afterExecuted := fun patch _ marked => callback .after patch marked
  invokeOriginalMember := fun _ _ marked =>
    ((original marked).finish.map fun _ => call.returned (original marked).world.1,
      (original marked).world)
  wtf := fun throwable marked => (.ok (), (report throwable marked).world)

/-- A piece runs silently. -/
def markedPiece (format : Piece → X → CallbackRun X) (piece : Piece) (marked : Marked X) :
    CallbackRun (Marked X) :=
  let piecewise := format piece marked.1
  ⟨piecewise.calls, piecewise.finish, (piecewise.world, marked.2)⟩

/-- A callback of the logger: a line is expected if no piece throws. -/
def markLine (phase : Phase) (depth : Nat) (pieces : Registers → List Piece)
    (format : Piece → X → CallbackRun X) (registers : Registers) (marked : Marked X) :
    CallbackRun (Marked X) :=
  let (finish, marked) := printLine (markedPiece format) (fun _ _ => "") phase
    (pieces registers) "" ""
    (fun _ _ marked => (marked.1, marked.2 ++ [⟨phase, registers.func, depth⟩])) marked
  ⟨[], finish, marked⟩

/-- A call with the logger in its snapshot: the patches in front of it run in
`outer`; everything between its two callbacks runs in `inner`. -/
def nestedDispatch {V : Type} (logger : Patch) (outer inner : Callbacks V)
    (entry exit : Registers → V → CallbackRun V) (patches : List Patch) (object : Obj)
    (objects : Option ArrayHeap.Ref) (state : Registers × V) : Registers × V :=
  let early := patches.takeWhile (· ≠ logger)
  let late := (patches.dropWhile (· ≠ logger)).tail
  let state := outer.runBefores early state
  let state := inner.callbackStep (fun _ => entry) state logger
  let state := inner.dispatch late object objects state
  let state := outer.callbackStep (fun _ => exit) state logger
  outer.runAfters early state

/-- One execution at some depth, given the callbacks of the other patches at every
depth. The patches in front of the logger run at the depth `outer`. -/
def markedDispatch (logger : Patch) (call : Call X) (depth outer : Nat)
    (callbacks : Nat → Callbacks (Marked X)) (format : Piece → X → CallbackRun X)
    (marked : Marked X) : Registers × Marked X :=
  let patches := call.snapshot.patches
  let start := (Registers.create call.func call.object call.objects, marked)
  if logger ∈ patches then
    nestedDispatch logger (callbacks outer) (callbacks (depth + 1))
      (markLine .before depth (entryPieces · call.arity) format)
      (markLine .after depth (fun registers => (exitPieces registers).2) format)
      patches call.object call.objects start
  else
    (callbacks depth).dispatch patches call.object call.objects start

/-- The lines an activity should print at some depth. `outer` is the depth at
which the patches in front of the logger run, as a function of the depth of their
execution. -/
def Activity.marked (logger : Patch) (outer : Nat → Nat) :
    Activity X → Nat → Marked X → CallbackRun (Marked X)
  | finish result, _, marked => ⟨[], result, marked⟩
  | access update next, depth, marked =>
      (next marked.1).marked logger outer depth (update marked.1, marked.2)
  | register call next, depth, marked =>
      let later := next.marked logger outer depth marked
      { later with calls := call :: later.calls }
  | execute call callback original report format next, depth, marked =>
      let callbacks := fun depth => markedCallbacks call
        (fun phase patch => (callback phase patch).marked logger outer depth)
        (original.marked logger outer depth)
        (fun throwable => (report throwable).marked logger outer depth)
      let final := markedDispatch logger call depth (outer depth) callbacks
        (fun piece => (format piece).silent logger) marked
      (next (Environment.conclude final.1)).marked logger outer depth final.2

/-! ## Inside a callback of the logger -/

/-- An execution that restored the depth; and one that began inside a callback of
the logger changed no cell and printed nothing. -/
structure Span.Balanced (span : Span) : Prop where
  depth : span.finish.mDepths.getD (-1) = span.start.mDepths.getD (-1)
  quiet : span.inside = true → span.finish = span.start

theorem Span.balanced_append {spans : List Span} (earlier : ∀ span ∈ spans, span.Balanced)
    {last : Span} (balanced : last.Balanced) : ∀ span ∈ spans ++ [last], span.Balanced := by
  intro span present
  rcases List.mem_append.mp present with isEarlier | isLast
  · exact earlier span isEarlier
  · rw [List.mem_singleton.mp isLast]
    exact balanced

/-- The cells stand still, whatever happens outside. -/
structure Muted (cells : Cells) (world : ThreadState X) (outside : X) : Prop where
  cells : world.cells = cells
  outside : world.outside = outside
  spans : ∀ span ∈ world.spans, span.Balanced

theorem callbacksOf_reports (logger : Patch) (call : Call X)
    (callback : Phase → Patch → ThreadState X → CallbackRun (ThreadState X))
    (original : ThreadState X → CallbackRun (ThreadState X))
    (report : Throwable → ThreadState X → CallbackRun (ThreadState X))
    (format : Piece → ThreadState X → CallbackRun (ThreadState X)) :
    (callbacksOf logger call callback original report format).Reports :=
  fun _ _ => rfl

/-- While the flag is set, both callbacks of the logger return at once. -/
theorem silentCallbacks_related (logger : Patch) (call : Call X)
    (format : Piece → ThreadState X → CallbackRun (ThreadState X)) {cells : Cells}
    (ignores : cells.mIgnores = some true)
    {callback : Phase → Patch → ThreadState X → CallbackRun (ThreadState X)}
    {original : ThreadState X → CallbackRun (ThreadState X)}
    {report : Throwable → ThreadState X → CallbackRun (ThreadState X)}
    {callback' : Phase → Patch → X → CallbackRun X} {original' : X → CallbackRun X}
    {report' : Throwable → X → CallbackRun X}
    (callbacks : ∀ phase patch world outside, Muted cells world outside →
      RunsAlike (Muted cells) (callback phase patch world) (callback' phase patch outside))
    (originals : ∀ world outside, Muted cells world outside →
      RunsAlike (Muted cells) (original world) (original' outside))
    (reports : ∀ throwable world outside, Muted cells world outside →
      RunsAlike (Muted cells) (report throwable world) (report' throwable outside)) :
    Callbacks.Related (fun _ => True) (Muted cells)
      (callbacksOf logger call callback original report format)
      (silentCallbacks logger call callback' original' report') where
  original := by
    intro _ _ world outside muted
    have alike := originals world outside muted
    refine ⟨?_, alike.world⟩
    change (original world).finish.map _ = (original' outside).finish.map _
    rw [alike.finish, alike.world.outside]
  report := by
    intro throwable world outside muted
    exact ⟨rfl, (reports throwable world outside muted).world⟩
  before := by
    intro patch _ registers world outside muted
    change RunsAlike _ (if patch = logger then _ else _) (if patch = logger then _ else _)
    split_ifs with isLogger
    · unfold ThreadState.beforeExecuted
      rw [if_pos (by rw [muted.cells]; exact ignores)]
      exact ⟨rfl, rfl, muted⟩
    · exact callbacks .before patch world outside muted
  after := by
    intro patch _ registers world outside muted
    change RunsAlike _ (if patch = logger then _ else _) (if patch = logger then _ else _)
    split_ifs with isLogger
    · unfold ThreadState.afterExecuted
      rw [if_pos (by rw [muted.cells]; exact ignores)]
      exact ⟨rfl, rfl, muted⟩
    · exact callbacks .after patch world outside muted

/-- **Whatever runs inside a callback of the logger leaves it alone.** -/
theorem Activity.run_silent (logger : Patch) {cells : Cells}
    (ignores : cells.mIgnores = some true) (activity : Activity X)
    (world : ThreadState X) (outside : X) (muted : Muted cells world outside) :
    RunsAlike (Muted cells) (activity.run logger true world)
      (activity.silent logger outside) := by
  induction activity generalizing world outside with
  | finish result => exact ⟨rfl, rfl, muted⟩
  | access update next inductionHypothesis =>
      unfold run silent
      rw [muted.outside]
      exact inductionHypothesis outside _ _ ⟨muted.cells, rfl, muted.spans⟩
  | register call next inductionHypothesis =>
      have later := inductionHypothesis world outside muted
      exact ⟨congrArg (List.cons call) later.calls, later.finish, later.world⟩
  | execute call callback original report format next callbacks originals reports _
      inductionHypothesis =>
      have related := silentCallbacks_related logger call
        (fun piece => (format piece).run logger true) ignores callbacks originals reports
      have inStep := related.call
        (fun patch (_ : patch ∈ call.snapshot.patches) => trivial) call.func call.object
        call.objects muted
      unfold run silent
      simp only [Callbacks.replaceHookedMember_eq_dispatch _ (callbacksOf_reports _ _ _ _ _ _)]
      rw [inStep.1]
      apply inductionHypothesis
      refine ⟨inStep.2.cells, inStep.2.outside, Span.balanced_append inStep.2.spans ⟨?_, ?_⟩⟩
      · rw [inStep.2.cells, muted.cells]
      · intro _
        rw [inStep.2.cells, muted.cells]

/-! ## Printing a line -/

section Printing

variable {W V : Type} {R : W → V → Prop} {run : Piece → W → CallbackRun W}
  {run' : Piece → V → CallbackRun V}

/-- Formatting in step: it fails in both, or gives texts that begin as they
should. -/
theorem formatAll_alike
    (runs : ∀ piece world other, R world other →
      RunsAlike R (run piece world) (run' piece other))
    (read : Piece → W → String) (read' : Piece → V → String) (pieces : List Piece)
    (text text' : String) (world : W) (other : V) (related : R world other) :
    (∃ throwable final final', formatAll run read pieces text world =
        (.error throwable, final) ∧
      formatAll run' read' pieces text' other = (.error throwable, final') ∧
      R final final') ∨
    ∃ more result final final', formatAll run read pieces text world =
        (.ok (text ++ more), final) ∧
      formatAll run' read' pieces text' other = (.ok result, final') ∧ R final final' := by
  induction pieces generalizing text text' world other with
  | nil =>
      refine Or.inr ⟨"", text', world, other, ?_, rfl, related⟩
      rw [String.append_empty]
      rfl
  | cons piece rest inductionHypothesis =>
      have alike := runs piece world other related
      unfold formatAll
      simp only [alike.finish]
      cases (run' piece other).finish with
      | error throwable => exact Or.inl ⟨throwable, _, _, rfl, rfl, alike.world⟩
      | ok =>
          rcases inductionHypothesis
              (text ++ piece.lead ++ read piece (run piece world).world)
              (text' ++ piece.lead ++ read' piece (run' piece other).world) _ _
              alike.world with failed | ⟨more, result, last, last', ok, ok', together⟩
          · exact Or.inl failed
          · have joined : text ++ piece.lead ++ read piece (run piece world).world ++ more =
                text ++ (piece.lead ++ read piece (run piece world).world ++ more) := by
              simp only [String.append_assoc]
            rw [joined] at ok
            exact Or.inr ⟨_, result, last, last', ok, ok', together⟩

/-- A line is printed in both, or in neither. -/
theorem printLine_alike
    (runs : ∀ piece world other, R world other →
      RunsAlike R (run piece world) (run' piece other))
    (read : Piece → W → String) (read' : Piece → V → String) (phase : Phase)
    (pieces : List Piece) (start close start' close' : String)
    (print : String → String → W → W) (print' : String → String → V → V) {world : W}
    {other : V} (related : R world other) :
    (∃ throwable final final', printLine run read phase pieces start close print world =
        (.error throwable, final) ∧
      printLine run' read' phase pieces start' close' print' other =
        (.error throwable, final') ∧ R final final') ∨
    ∃ tag tag' more message final final',
      printLine run read phase pieces start close print world =
        (.ok (), print tag (oneLine (start ++ more)) final) ∧
      printLine run' read' phase pieces start' close' print' other =
        (.ok (), print' tag' message final') ∧ R final final' := by
  unfold printLine
  rcases formatAll_alike runs read read' pieces start start' world other related with
    ⟨throwable, final, final', failed, failed', together⟩ |
    ⟨more, result, middle, middle', ok, ok', together⟩
  · simp only [failed, failed']
    exact Or.inl ⟨throwable, final, final', rfl, rfl, together⟩
  · have alike := runs (.tag phase) middle middle' together
    simp only [ok, ok', alike.finish, String.append_assoc]
    cases (run' (.tag phase) middle').finish with
    | error throwable => exact Or.inl ⟨throwable, _, _, rfl, rfl, alike.world⟩
    | ok => exact Or.inr ⟨_, _, more ++ close, _, _, _, rfl, rfl, alike.world⟩

end Printing

/-! ## Outside the callbacks of the logger -/

/-- A line is the expected one: an entry line of the member, or an exit line, with
two spaces for each of its levels. -/
def Line.Shows (levels : Nat) (line : Line) (mark : Mark) : Prop :=
  match mark.phase with
  | .before =>
      line.priority = entryPriority mark.func.executable ∧
        ∃ shown more, (shown = mark.func.executable.declaringClass.name ∨
            shown = dots mark.func.executable.declaringClass.name) ∧
          line.message = oneLine (indent levels ++ shown ++
            memberPart mark.func.executable ++ "(" ++ more)
  | .after =>
      ∃ lead more, (lead = ">>>" ∧ line.priority = .info ∨
          lead = "<<<" ∧ line.priority = .error) ∧
        line.message = oneLine (indent levels ++ lead ++ more)

/-- The lines are the expected ones, with as many levels as their depths call for. -/
abbrev Shown (levels : Nat → Nat) : List Line → List Mark → Prop :=
  List.Forall₂ fun line mark => line.Shows (levels mark.depth) mark

/-- The levels that a depth shows as an `int`. -/
def intLevels (depth : Nat) : Nat := (Int32.ofNat depth).toNatClampNeg

/-- The cells agree with the depth of the recursion, and the log with the expected
lines. -/
structure Tracks (depth : Nat) (world : ThreadState X) (marked : Marked X) : Prop where
  outside : world.outside = marked.1
  idle : world.cells.mIgnores ≠ some true
  depth : world.cells.mDepths = some (Int32.ofNat depth - 1) ∨
    depth = 0 ∧ world.cells.mDepths = none
  lines : Shown intLevels world.cells.log marked.2
  spans : ∀ span ∈ world.spans, span.Balanced

theorem Tracks.getD_depth {depth : Nat} {world : ThreadState X} {marked : Marked X}
    (tracks : Tracks depth world marked) :
    world.cells.mDepths.getD (-1) = Int32.ofNat depth - 1 := by
  rcases tracks.depth with isSet | ⟨isZero, isNull⟩
  · rw [isSet]
    rfl
  · rw [isNull, isZero]
    rfl

theorem ofNat_succ_sub_one (depth : Nat) :
    Int32.ofNat (depth + 1) - 1 = Int32.ofNat depth := by
  rw [Int32.ofNat_add]
  exact Int32.add_sub_cancel _ _

section Callbacks

variable {depth : Nat} {format : Piece → ThreadState X → CallbackRun (ThreadState X)}
  {format' : Piece → X → CallbackRun X} {world : ThreadState X} {marked : Marked X}

/-- **The logger prints a line exactly if one is expected.**  While the line is
formatted the cells stand still. -/
theorem logLine_alike {R : ThreadState X → Marked X → Prop} (call : Call X) {cells : Cells}
    (alike : ∀ piece world outside, Muted cells world outside →
      RunsAlike (Muted cells) (format piece world) (format' piece outside))
    (phase : Phase) (priority : Priority) (pieces : Registers → List Piece)
    (start close : String) (registers : Registers) (muted : Muted cells world marked.1)
    (quiet : ∀ final outside, Muted cells final outside →
      R (final.ignore false) (outside, marked.2))
    (prints : ∀ tag more final outside, Muted cells final outside →
      R ((final.print ⟨priority, tag, oneLine (start ++ more)⟩).ignore false)
        (outside, marked.2 ++ [⟨phase, registers.func, depth⟩])) :
    RunsAlike R
      (world.logLine call format phase priority (pieces registers) start close)
      (markLine phase depth pieces format' registers marked) := by
  have runs : ∀ piece world (other : Marked X),
      (Muted cells world other.1 ∧ other.2 = marked.2) →
        RunsAlike (fun world other => Muted cells world other.1 ∧ other.2 = marked.2)
          (format piece world) (markedPiece format' piece other) := by
    intro piece world other related
    have piecewise := alike piece world other.1 related.1
    exact ⟨piecewise.calls, piecewise.finish, piecewise.world, related.2⟩
  unfold ThreadState.logLine markLine
  rcases printLine_alike runs (fun piece world => call.text piece world.outside)
      (fun _ _ => "") phase (pieces registers) start close "" ""
      (fun tag message world => world.print ⟨priority, tag, message⟩)
      (fun _ _ marked => (marked.1, marked.2 ++ [⟨phase, registers.func, depth⟩]))
      ⟨muted, rfl⟩ with
    ⟨throwable, final, final', failed, failed', isMuted, lines⟩ |
    ⟨tag, _, more, _, final, final', printed, printed', isMuted, lines⟩
  · simp only [failed, failed']
    refine ⟨rfl, rfl, ?_⟩
    have kept := quiet final final'.1 isMuted
    rw [← lines] at kept
    exact kept
  · simp only [printed, printed', lines]
    exact ⟨rfl, rfl, prints tag more final final'.1 isMuted⟩

/-- The callback ends without a line. -/
theorem Muted.tracks {cells : Cells} {outside : X} {marks : List Mark}
    (muted : Muted cells world outside)
    (isDepth : cells.mDepths = some (Int32.ofNat depth - 1))
    (lines : Shown intLevels cells.log marks) :
    Tracks depth (world.ignore false) (outside, marks) := by
  refine ⟨muted.outside, fun impossible => (nomatch impossible), Or.inl ?_, ?_, muted.spans⟩
  · change world.cells.mDepths = _
    rw [muted.cells]
    exact isDepth
  · change Shown _ world.cells.log marks
    rw [muted.cells]
    exact lines

/-- The callback ends with a line. -/
theorem Muted.tracks_print {cells : Cells} {outside : X} {marks : List Mark}
    (muted : Muted cells world outside)
    (isDepth : cells.mDepths = some (Int32.ofNat depth - 1))
    (lines : Shown intLevels cells.log marks) {line : Line} {mark : Mark}
    (shows : line.Shows (intLevels mark.depth) mark) :
    Tracks depth ((world.print line).ignore false) (outside, marks ++ [mark]) := by
  refine ⟨muted.outside, fun impossible => (nomatch impossible), Or.inl ?_, ?_, muted.spans⟩
  · change world.cells.mDepths = _
    rw [muted.cells]
    exact isDepth
  · change Shown _ (world.cells.log ++ [line]) (marks ++ [mark])
    rw [muted.cells]
    exact List.rel_append lines (.cons shows .nil)

theorem beforeExecuted_alike (call : Call X)
    (pieces : ∀ cells, cells.mIgnores = some true → ∀ piece world outside,
      Muted cells world outside →
        RunsAlike (Muted cells) (format piece world) (format' piece outside))
    (registers : Registers) (tracks : Tracks depth world marked) :
    RunsAlike (Tracks (depth + 1)) (world.beforeExecuted call format registers)
      (markLine .before depth (entryPieces · call.arity) format' registers marked) := by
  have isDepth : world.cells.mDepths.getD (-1) + 1 = Int32.ofNat depth := by
    rw [tracks.getD_depth, Int32.sub_add_cancel]
  have entered : some (Int32.ofNat depth) = some (Int32.ofNat (depth + 1) - 1) := by
    rw [ofNat_succ_sub_one]
  have muted : Muted
      ⟨some true, some (Int32.ofNat depth), some registers.func.executable.declaringClass.name,
        world.cells.log⟩
      (world.setCells ⟨some true, some (Int32.ofNat depth),
        some registers.func.executable.declaringClass.name, world.cells.log⟩) marked.1 :=
    ⟨rfl, tracks.outside, tracks.spans⟩
  unfold ThreadState.beforeExecuted
  simp only [if_neg tracks.idle, isDepth]
  apply logLine_alike call (pieces _ rfl) .before _ (entryPieces · call.arity) _ ")" registers
    muted
  · intro final outside still
    exact still.tracks entered tracks.lines
  · intro tag more final outside still
    apply still.tracks_print entered tracks.lines
    refine ⟨rfl, shownName world.cells.mRecords registers.func.executable.declaringClass.name,
      (if registers.self = .null then "@null" else "") ++ more, ?_, ?_⟩
    · unfold shownName
      split_ifs
      · exact Or.inr rfl
      · exact Or.inl rfl
    · simp only [intLevels, String.append_assoc]

/-- An exit line begins with the mark of its priority. -/
theorem exitPieces_lead (registers : Registers) :
    ∃ mark rest, (exitPieces registers).1 = mark ++ rest ∧
      (mark = ">>>" ∧
          (if registers.hasThrown then Priority.error else Priority.info) = .info ∨
        mark = "<<<" ∧
          (if registers.hasThrown then Priority.error else Priority.info) = .error) := by
  unfold exitPieces
  by_cases thrown : registers.hasThrown
  · simp only [if_pos thrown]
    exact ⟨"<<<", " ", by decide, Or.inr ⟨rfl, trivial⟩⟩
  · simp only [if_neg thrown]
    cases registers.func.executable with
    | ctor => exact ⟨">>>", " ", rfl, Or.inl ⟨rfl, trivial⟩⟩
    | method _ _ returnType =>
        by_cases isVoid : returnType = JavaClass.void
        · simp only [if_pos isVoid]
          exact ⟨">>>", "", by decide, Or.inl ⟨rfl, trivial⟩⟩
        · simp only [if_neg isVoid]
          exact ⟨">>>", " ", by decide, Or.inl ⟨rfl, trivial⟩⟩

theorem afterExecuted_alike (call : Call X)
    (pieces : ∀ cells, cells.mIgnores = some true → ∀ piece world outside,
      Muted cells world outside →
        RunsAlike (Muted cells) (format piece world) (format' piece outside))
    (registers : Registers) (tracks : Tracks (depth + 1) world marked) :
    RunsAlike (Tracks depth) (world.afterExecuted call format registers)
      (markLine .after depth (fun registers => (exitPieces registers).2) format' registers
        marked) := by
  have isDepth : world.cells.mDepths = some (Int32.ofNat depth) := by
    rcases tracks.depth with isSet | ⟨isZero, -⟩
    · rw [isSet, ofNat_succ_sub_one]
    · exact absurd isZero (Nat.succ_ne_zero depth)
  have muted : Muted ⟨some true, some (Int32.ofNat depth - 1), none, world.cells.log⟩
      (world.setCells ⟨some true, some (Int32.ofNat depth - 1), none, world.cells.log⟩)
      marked.1 :=
    ⟨rfl, tracks.outside, tracks.spans⟩
  unfold ThreadState.afterExecuted
  simp only [if_neg tracks.idle, isDepth]
  apply logLine_alike call (pieces _ rfl) .after _ (fun registers => (exitPieces registers).2)
    _ "" registers muted
  · intro final outside still
    exact still.tracks rfl tracks.lines
  · intro tag more final outside still
    apply still.tracks_print rfl tracks.lines
    obtain ⟨mark, rest, isLead, isMark⟩ := exitPieces_lead registers
    refine ⟨mark, rest ++ more, isMark, ?_⟩
    simp only [isLead, intLevels, String.append_assoc]

end Callbacks

/-! ## Executions -/

section Executions

variable {logger : Patch} {call : Call X} {depth : Nat}
  {callback : Phase → Patch → ThreadState X → CallbackRun (ThreadState X)}
  {original : ThreadState X → CallbackRun (ThreadState X)}
  {report : Throwable → ThreadState X → CallbackRun (ThreadState X)}
  {format : Piece → ThreadState X → CallbackRun (ThreadState X)}
  {callback' : Phase → Patch → Marked X → CallbackRun (Marked X)}
  {original' : Marked X → CallbackRun (Marked X)}
  {report' : Throwable → Marked X → CallbackRun (Marked X)}

/-- The callbacks of the other patches run in step. -/
theorem markedCallbacks_related
    (callbacks : ∀ phase patch world marked, Tracks depth world marked →
      RunsAlike (Tracks depth) (callback phase patch world) (callback' phase patch marked))
    (originals : ∀ world marked, Tracks depth world marked →
      RunsAlike (Tracks depth) (original world) (original' marked))
    (reports : ∀ throwable world marked, Tracks depth world marked →
      RunsAlike (Tracks depth) (report throwable world) (report' throwable marked)) :
    Callbacks.Related (· ≠ logger) (Tracks depth)
      (callbacksOf logger call callback original report format)
      (markedCallbacks call callback' original' report') where
  original := by
    intro _ _ world marked tracks
    have alike := originals world marked tracks
    refine ⟨?_, alike.world⟩
    change (original world).finish.map _ = (original' marked).finish.map _
    rw [alike.finish, alike.world.outside]
  report := by
    intro throwable world marked tracks
    exact ⟨rfl, (reports throwable world marked tracks).world⟩
  before := by
    intro patch isOther registers world marked tracks
    change RunsAlike _ (if patch = logger then _ else _) _
    rw [if_neg isOther]
    exact callbacks .before patch world marked tracks
  after := by
    intro patch isOther registers world marked tracks
    change RunsAlike _ (if patch = logger then _ else _) _
    rw [if_neg isOther]
    exact callbacks .after patch world marked tracks

end Executions

/-- The patches in front of the logger and those behind it. -/
theorem Snapshot.split (snapshot : Snapshot) {logger : Patch}
    (present : logger ∈ snapshot.patches) :
    snapshot.patches = snapshot.patches.takeWhile (· ≠ logger) ++
        logger :: (snapshot.patches.dropWhile (· ≠ logger)).tail ∧
      (∀ patch ∈ snapshot.patches.takeWhile (· ≠ logger), patch ≠ logger) ∧
      ∀ patch ∈ (snapshot.patches.dropWhile (· ≠ logger)).tail, patch ≠ logger := by
  have nodup := snapshot.nodup
  obtain ⟨early, late, isSplit⟩ := List.append_of_mem present
  rw [isSplit] at nodup ⊢
  have notEarly : ∀ patch ∈ early, patch ≠ logger := by
    intro patch isEarly same
    rw [same] at isEarly
    exact (List.nodup_append.mp nodup).2.2 logger isEarly logger List.mem_cons_self rfl
  have notLate : ∀ patch ∈ late, patch ≠ logger := by
    intro patch isLate same
    rw [same] at isLate
    exact (List.nodup_cons.mp (List.nodup_append.mp nodup).2.1).1 isLate
  have allEarly : ∀ patch ∈ early, decide (patch ≠ logger) = true := by
    intro patch isEarly
    exact decide_eq_true (notEarly patch isEarly)
  have isTake : (early ++ logger :: late).takeWhile (· ≠ logger) = early := by
    rw [List.takeWhile_append_of_pos allEarly]
    simp
  have isDrop : (early ++ logger :: late).dropWhile (· ≠ logger) = logger :: late := by
    rw [List.dropWhile_append_of_pos allEarly]
    simp
  rw [isTake, isDrop]
  exact ⟨rfl, notEarly, notLate⟩

/-- **An execution with the logger in its snapshot.**  Its two callbacks take the
cells one level down and up again. -/
theorem nestedDispatch_alike {logger : Patch} {depth : Nat} {snapshot : Snapshot}
    (present : logger ∈ snapshot.patches) {callbacks : Callbacks (ThreadState X)}
    {outer inner : Callbacks (Marked X)}
    {entry exit : Registers → Marked X → CallbackRun (Marked X)}
    (outside : Callbacks.Related (· ≠ logger) (Tracks depth) callbacks outer)
    (within : Callbacks.Related (· ≠ logger) (Tracks (depth + 1)) callbacks inner)
    (enters : ∀ registers world marked, Tracks depth world marked →
      RunsAlike (Tracks (depth + 1)) (callbacks.beforeExecuted logger registers world)
        (entry registers marked))
    (exits : ∀ registers world marked, Tracks (depth + 1) world marked →
      RunsAlike (Tracks depth) (callbacks.afterExecuted logger registers world)
        (exit registers marked))
    (object : Obj) (objects : Option ArrayHeap.Ref) {state : Registers × ThreadState X}
    {state' : Registers × Marked X} (inStep : InStep (Tracks depth) state state') :
    InStep (Tracks depth) (callbacks.dispatch snapshot.patches object objects state)
      (nestedDispatch logger outer inner entry exit snapshot.patches object objects
        state') := by
  obtain ⟨isSplit, allEarly, allLate⟩ := snapshot.split present
  unfold nestedDispatch
  generalize snapshot.patches.takeWhile (· ≠ logger) = early at isSplit allEarly ⊢
  generalize (snapshot.patches.dropWhile (· ≠ logger)).tail = late at isSplit allLate ⊢
  rw [isSplit, Callbacks.dispatch_append_cons]
  have before := outside.runBefores allEarly inStep
  have entered := within.toSupports.callbackStep callbacks.beforeExecuted (fun _ => entry)
    logger before.1 fun registers => enters registers _ _ before.2
  have between := within.dispatch allLate object objects entered
  have exited := outside.toSupports.callbackStep callbacks.afterExecuted (fun _ => exit)
    logger between.1 fun registers => exits registers _ _ between.2
  exact outside.runAfters allEarly exited

theorem markedDispatch_alike (logger : Patch) (call : Call X) {depth : Nat}
    {callback : Phase → Patch → ThreadState X → CallbackRun (ThreadState X)}
    {original : ThreadState X → CallbackRun (ThreadState X)}
    {report : Throwable → ThreadState X → CallbackRun (ThreadState X)}
    {format : Piece → ThreadState X → CallbackRun (ThreadState X)}
    {callbacks' : Nat → Callbacks (Marked X)} {format' : Piece → X → CallbackRun X}
    (related : ∀ depth, Callbacks.Related (· ≠ logger) (Tracks depth)
      (callbacksOf logger call callback original report format) (callbacks' depth))
    (pieces : ∀ cells : Cells, cells.mIgnores = some true → ∀ piece world outside,
      Muted cells world outside →
        RunsAlike (Muted cells) (format piece world) (format' piece outside))
    {world : ThreadState X} {marked : Marked X} (tracks : Tracks depth world marked) :
    InStep (Tracks depth)
      ((callbacksOf logger call callback original report format).dispatch
        call.snapshot.patches call.object call.objects
        (Registers.create call.func call.object call.objects, world))
      (markedDispatch logger call depth depth callbacks' format' marked) := by
  unfold markedDispatch
  simp only
  split_ifs with present
  · apply nestedDispatch_alike present (related depth) (related (depth + 1)) _ _ call.object
      call.objects ⟨rfl, tracks⟩
    · intro registers world marked tracks
      change RunsAlike _ (if logger = logger then _ else _) _
      rw [if_pos rfl]
      exact beforeExecuted_alike call pieces registers tracks
    · intro registers world marked tracks
      change RunsAlike _ (if logger = logger then _ else _) _
      rw [if_pos rfl]
      exact afterExecuted_alike call pieces registers tracks
  · apply (related depth).call _ call.func call.object call.objects tracks
    intro patch isPatch same
    rw [same] at isPatch
    exact present isPatch

/-- **The cells keep step with the recursion.** -/
theorem Activity.run_marked (logger : Patch) (activity : Activity X) (depth : Nat)
    (world : ThreadState X) (marked : Marked X) (tracks : Tracks depth world marked) :
    RunsAlike (Tracks depth) (activity.run logger false world)
      (activity.marked logger id depth marked) := by
  induction activity generalizing depth world marked with
  | finish result => exact ⟨rfl, rfl, tracks⟩
  | access update next inductionHypothesis =>
      unfold run Activity.marked
      rw [tracks.outside]
      exact inductionHypothesis marked.1 depth _ _
        ⟨rfl, tracks.idle, tracks.depth, tracks.lines, tracks.spans⟩
  | register call next inductionHypothesis =>
      have later := inductionHypothesis depth world marked tracks
      exact ⟨congrArg (List.cons call) later.calls, later.finish, later.world⟩
  | execute call callback original report format next callbacks originals reports _
      inductionHypothesis =>
      have inStep := markedDispatch_alike logger call
        (fun depth => markedCallbacks_related
          (fun phase patch => callbacks phase patch depth) (originals depth)
          (fun throwable => reports throwable depth))
        (fun _ ignores piece => (format piece).run_silent logger ignores) tracks
      unfold run Activity.marked
      simp only [Callbacks.replaceHookedMember_eq_dispatch _ (callbacksOf_reports _ _ _ _ _ _)]
      rw [inStep.1]
      apply inductionHypothesis
      refine ⟨inStep.2.outside, inStep.2.idle, inStep.2.depth, inStep.2.lines,
        Span.balanced_append inStep.2.spans ⟨?_, fun impossible => (nomatch impossible)⟩⟩
      rw [inStep.2.getD_depth, tracks.getD_depth]

/-- **The log of a thread nests.**  Every execution restores the depth, one inside
a callback of the logger changes nothing, and the lines printed are the expected
ones. -/
structure LogNests (logger : Patch) (outer levels : Nat → Nat) (activity : Activity X)
    (outside : X) : Prop where
  restores : ∀ span ∈ (activity.run logger false (.fresh outside)).world.spans,
    span.finish.mDepths.getD (-1) = span.start.mDepths.getD (-1)
  quiet : ∀ span ∈ (activity.run logger false (.fresh outside)).world.spans,
    span.inside = true → span.finish = span.start
  lines : Shown levels (activity.run logger false (.fresh outside)).world.cells.log
    (activity.marked logger outer 0 (outside, [])).world.2

theorem run_nests (logger : Patch) (activity : Activity X) (outside : X) :
    LogNests logger id intLevels activity outside := by
  have fresh : Tracks 0 (.fresh outside) (outside, []) :=
    ⟨rfl, fun impossible => (nomatch impossible), Or.inr ⟨rfl, rfl⟩, .nil,
      fun _ impossible => (nomatch impossible)⟩
  have final := (activity.run_marked logger 0 _ _ fresh).world
  exact ⟨fun span present => (final.spans span present).depth,
    fun span present => (final.spans span present).quiet, final.lines⟩

/-- The depth is an `int`, so the indentation is exact below `2 ^ 31` levels. -/
theorem logNests (logger : Patch) (activity : Activity X) (outside : X) :
    ∃ levels : Nat → Nat, (∀ depth < 2 ^ 31, levels depth = depth) ∧
      LogNests logger id levels activity outside :=
  ⟨intLevels, fun _ small => Int32.toNatClampNeg_ofNat_of_lt small,
    run_nests logger activity outside⟩

/-! ## A patch in front of the logger -/

/-- A patch of the highest priority whose loader has a smaller hash. -/
def frontPatch : Patch := ⟨⟨1, 2147483647, 6, 1⟩, .plugin⟩

def loggerPatch : Patch := ⟨⟨3, 2147483647, 7, 3⟩, .logcat⟩

/-- A static method without arguments. -/
def staticCall (name : String) (snapshot : Snapshot) : Call Unit where
  snapshot := snapshot
  func := ⟨.method ⟨name, 1⟩ "run" .void [], 0⟩
  object := .null
  objects := none
  arity := 0
  returned := fun _ => .null
  text := fun _ _ => ""

/-- A method is executed, and the patch in front of the logger executes another
one before the logger hears of the first. -/
def executedInFront : Activity Unit :=
  .execute (staticCall "app.Outer" ⟨[frontPatch, loggerPatch], by decide, by decide⟩)
    (fun phase _ =>
      match phase with
      | .before =>
          .execute (staticCall "app.Inner" ⟨[loggerPatch], by decide, by decide⟩)
            (fun _ _ => .finish (.ok ())) (.finish (.ok ())) (fun _ => .finish (.ok ()))
            (fun _ => .finish (.ok ())) (fun _ => .finish (.ok ()))
      | .after => .finish (.ok ()))
    (.finish (.ok ())) (fun _ => .finish (.ok ())) (fun _ => .finish (.ok ()))
    (fun _ => .finish (.ok ()))

/-- The lines of the inner execution come first and are not indented, although an
execution with the logger in its snapshot encloses it. -/
theorem executedInFront_not_nested :
    ¬ LogNests loggerPatch (· + 1) id executedInFront () := by
  intro nests
  have lines := nests.lines
  have isLog : (executedInFront.run loggerPatch false (.fresh ())).world.cells.log =
      [⟨.info, "", "app.Inner.run(@null)"⟩, ⟨.info, "", ">>>"⟩,
        ⟨.info, "", "app.Outer.run(@null)"⟩, ⟨.info, "", ">>>"⟩] := by
    decide
  have isMarked : (executedInFront.marked loggerPatch (· + 1) 0 ((), [])).world.2 =
      [⟨.before, ⟨.method ⟨"app.Inner", 1⟩ "run" .void [], 0⟩, 1⟩,
        ⟨.after, ⟨.method ⟨"app.Inner", 1⟩ "run" .void [], 0⟩, 1⟩,
        ⟨.before, ⟨.method ⟨"app.Outer", 1⟩ "run" .void [], 0⟩, 0⟩,
        ⟨.after, ⟨.method ⟨"app.Outer", 1⟩ "run" .void [], 0⟩, 0⟩] := by
    decide
  rw [isLog, isMarked] at lines
  obtain ⟨⟨-, shown, more, -, message⟩, -⟩ := List.forall₂_cons.mp lines
  have first := congrArg (fun text => text.toList.head?) message
  simp [oneLine, indent] at first

/-! ## A depth that wraps around -/

/-- A static method that calls itself `levels` times. -/
def executedDeep : Nat → Activity Unit
  | 0 => .finish (.ok ())
  | levels + 1 =>
      .execute (staticCall "app.Deep" ⟨[loggerPatch], by decide, by decide⟩)
        (fun _ _ => .finish (.ok ())) (executedDeep levels) (fun _ => .finish (.ok ()))
        (fun _ => .finish (.ok ())) (fun _ => .finish (.ok ()))

def deepMember : Member := ⟨.method ⟨"app.Deep", 1⟩ "run" .void [], 0⟩

def deepMarks : Nat → Nat → List Mark
  | 0, _ => []
  | levels + 1, depth =>
      ⟨.before, deepMember, depth⟩ :: (deepMarks levels (depth + 1) ++
        [⟨.after, deepMember, depth⟩])

theorem marked_executedDeep (levels depth : Nat) (marks : List Mark) :
    (executedDeep levels).marked loggerPatch id depth ((), marks) =
      ⟨[], .ok (), ((), marks ++ deepMarks levels depth)⟩ := by
  induction levels generalizing depth marks with
  | zero =>
      rw [deepMarks, List.append_nil]
      rfl
  | succ levels inductionHypothesis =>
      -- the call runs: no piece but the tag, the call itself, and the exit line
      simp [executedDeep, Activity.marked, markedDispatch, nestedDispatch, staticCall,
        markedCallbacks, Callbacks.callbackStep, Callbacks.dispatch, Callbacks.runBefores,
        Callbacks.runAfters, Callbacks.originalStep, Callbacks.report, markLine, printLine,
        formatAll, markedPiece, entryPieces, exitPieces, Activity.silent, Registers.create,
        Registers.Clear, Registers.performAll, Registers.settle, Registers.hasThrown,
        inductionHypothesis, Except.map, deepMarks, deepMember]

theorem getElem?_deepMarks {levels more : Nat} (depth : Nat) (below : more < levels) :
    (deepMarks levels depth)[more]? = some ⟨.before, deepMember, depth + more⟩ := by
  induction levels generalizing more depth with
  | zero => omega
  | succ levels inductionHypothesis =>
      cases more with
      | zero => rfl
      | succ more =>
          have found := inductionHypothesis (depth + 1) (show more < levels by omega)
          have inner := (List.getElem?_eq_some_iff.mp found).1
          change (deepMarks levels (depth + 1) ++ [_])[more]? = _
          rw [List.getElem?_append_left inner, found, Nat.add_right_comm, Nat.add_assoc]

theorem head_indent (levels : Nat) (text : String) :
    (oneLine (indent (levels + 1) ++ text)).toList.head? = some ' ' := by
  induction levels generalizing text with
  | zero => simp [oneLine, indent]
  | succ levels inductionHypothesis =>
      rw [indent, String.append_assoc]
      exact inductionHypothesis _

/-- Where the `int` shows no level, a line of a nested execution is not indented. -/
theorem executedDeep_not_indented {depth : Nat} (flat : intLevels (depth + 1) = 0) :
    ¬ LogNests loggerPatch id id (executedDeep (depth + 2)) () := by
  intro nests
  have promised := nests.lines
  have printed := (run_nests loggerPatch (executedDeep (depth + 2)) ()).lines
  rw [marked_executedDeep, List.nil_append] at promised printed
  generalize ((executedDeep (depth + 2)).run loggerPatch false
    (.fresh ())).world.cells.log = log at promised printed
  obtain ⟨inMarks, isMark⟩ := List.getElem?_eq_some_iff.mp
    (getElem?_deepMarks 0 (Nat.lt_succ_self (depth + 1)))
  have inLog : depth + 1 < log.length := promised.length_eq ▸ inMarks
  have indented := promised.get inLog inMarks
  have unindented := printed.get inLog inMarks
  simp only [List.get_eq_getElem, isMark, Nat.zero_add, flat] at indented unindented
  obtain ⟨-, _, _, -, spaces⟩ := indented
  obtain ⟨-, shown, more, isName, noSpaces⟩ := unindented
  rw [noSpaces] at spaces
  have first := congrArg (fun text => text.toList.head?) spaces
  simp only [id_eq, String.append_assoc, head_indent] at first
  have isDots : dots deepMember.executable.declaringClass.name = "...     " := by decide
  rcases isName with isName | isName
  · rw [isName] at first
    simp [oneLine, indent, deepMember, Executable.declaringClass] at first
  · rw [isName, isDots] at first
    simp [oneLine, indent] at first

/-- Two executions that are not indented by the number of executions that enclose
them. -/
theorem miscounted :
    ¬ LogNests loggerPatch (· + 1) id executedInFront () ∧
      ¬ LogNests loggerPatch id id (executedDeep (2 ^ 31 + 1)) () :=
  ⟨executedInFront_not_nested, executedDeep_not_indented (by decide)⟩

end AndroidPatch.Logcat
