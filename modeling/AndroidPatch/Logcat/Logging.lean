import Mathlib.Algebra.Ring.Nat
import AndroidPatch.Lang.Simulation

/-!
Contract: the callbacks of `Logcat` on one thread.

Owns:
- the three thread-local cells and the lines that one logger prints;
- `beforeExecuted` and `afterExecuted`, with the code of the application that
  they run while they format a line, and its failures;
- `Activity`, whatever a thread does: accesses to a state of any kind, setter
  calls, and executions of hooked members, whose callbacks, originals and
  formatters are activities again.

`Lucy` overrides neither callback. `ThreadLocal` and `Log` are not hooked, and
`wtf` returns.
-/

namespace AndroidPatch.Logcat

open AndroidPatch.Library AndroidPatch.Lang

/-- `Log.i`, `Log.w` and `Log.e`. -/
inductive Priority where
  | info
  | warn
  | error
deriving DecidableEq, Repr

structure Line where
  priority : Priority
  tag : String
  message : String
deriving DecidableEq, Repr

/-- The cells of one logger on one thread, and the lines it has printed there.
A cell that was never set is null. -/
structure Cells where
  mIgnores : Option Bool
  mDepths : Option Int32
  mRecords : Option String
  log : List Line
deriving DecidableEq, Repr

def Cells.fresh : Cells := ⟨none, none, none, []⟩

inductive Phase where
  | before
  | after
deriving DecidableEq, Repr

/-- What a callback of the logger runs outside itself: `registers.self.hashCode()`,
`mFormatter.toString` of an argument or of what an exit line shows, and
`currentTag()`. -/
inductive Piece where
  | receiver
  | argument (index : Nat)
  | result
  | tag (phase : Phase)
deriving DecidableEq, Repr

/-! ## The text of a line -/

/-- `while (depth-- > 0) { sBuilder.append("  "); }`, from a depth that is not
negative; from a negative one the loop appends nothing. -/
def indent : Nat → String
  | 0 => ""
  | depth + 1 => indent depth ++ "  "

/-- `String.length`, in UTF-16 units. -/
def utf16Length (text : String) : Nat :=
  (text.toList.map fun character => if character.val < 0x10000 then 1 else 2).sum

/-- What stands for a class name that was printed just before. -/
def dots (name : String) : String :=
  String.ofList ((List.range (utf16Length name)).map fun index =>
    if index < 3 then '.' else ' ')

def shownName (record : Option String) (name : String) : String :=
  if record = some name then dots name else name

/-- The member behind its class name. -/
def memberPart : Executable → String
  | .ctor _ _ => ""
  | .method _ name _ _ => "." ++ name

/-- `replace('\n', '\\')` -/
def oneLine (text : String) : String :=
  String.ofList (text.toList.map fun character => if character = '\n' then '\\' else character)

/-- What precedes a piece in the text. -/
def Piece.lead : Piece → String
  | .receiver => "@"
  | .argument _ => ", "
  | .result => ""
  | .tag _ => ""

def entryPriority : Executable → Priority
  | .ctor _ _ => .warn
  | .method _ _ _ _ => .info

/-- The pieces of an entry line. -/
def entryPieces (registers : Registers) (arity : Nat) : List Piece :=
  (if registers.self = .null then [] else [.receiver]) ++
    match registers.args with
    | none => []
    | some _ => (List.range arity).map .argument

/-- The pieces of an exit line and what precedes them. -/
def exitPieces (registers : Registers) : String × List Piece :=
  if registers.hasThrown then
    ("<<< ", [.result])
  else
    match registers.func.executable with
    | .ctor _ _ => (">>> ", [.result])
    | .method _ _ returnType _ =>
        if returnType = JavaClass.void then (">>>", []) else (">>> ", [.result])

section Printing

variable {W : Type} (run : Piece → W → CallbackRun W) (read : Piece → W → String)

/-- Append the pieces to the text, as long as none throws. -/
def formatAll : List Piece → String → W → Except Throwable String × W
  | [], text, world => (.ok text, world)
  | piece :: rest, text, world =>
      let piecewise := run piece world
      match piecewise.finish with
      | .error throwable => (.error throwable, piecewise.world)
      | .ok () =>
          formatAll rest (text ++ piece.lead ++ read piece piecewise.world) piecewise.world

/-- Format a line, find its tag and print it. -/
def printLine (phase : Phase) (pieces : List Piece) (start close : String)
    (print : String → String → W → W) (world : W) : Except Throwable Unit × W :=
  match formatAll run read pieces start world with
  | (.error throwable, world) => (.error throwable, world)
  | (.ok text, world) =>
      let tagged := run (.tag phase) world
      match tagged.finish with
      | .error throwable => (.error throwable, tagged.world)
      | .ok () =>
          (.ok (), print (read (.tag phase) tagged.world) (oneLine (text ++ close)) tagged.world)

end Printing

/-! ## The two callbacks -/

/-- A snapshot as kernels publish them. -/
structure Snapshot where
  patches : List Patch
  sorted : patches.Pairwise Patch.Precedes
  nodup : patches.Nodup

/-- One execution of a hooked member. `arity` is the length of the argument
array, `returned` what the original returns and `text` what a piece returns, as
functions of the state they leave. -/
structure Call (X : Type) where
  snapshot : Snapshot
  func : Member
  object : Obj
  objects : Option ArrayHeap.Ref
  arity : Nat
  returned : X → Obj
  text : Piece → X → String

/-- An execution that has ended: whether it began inside a callback of the
logger, and the cells before and after it. -/
structure Span where
  inside : Bool
  start : Cells
  finish : Cells

/-- The thread as the logger sees it. `outside` is everything else; `spans` lists
the executions that have ended and is read by nothing. -/
structure ThreadState (X : Type) where
  outside : X
  cells : Cells
  spans : List Span

namespace ThreadState

variable {X : Type}

def setCells (world : ThreadState X) (cells : Cells) : ThreadState X :=
  { world with cells := cells }

def ignore (world : ThreadState X) (ignores : Bool) : ThreadState X :=
  world.setCells { world.cells with mIgnores := some ignores }

def print (world : ThreadState X) (line : Line) : ThreadState X :=
  world.setCells { world.cells with log := world.cells.log ++ [line] }

/-- What the `try` block of either callback does once the text has been begun,
and its `finally` block. -/
def logLine (call : Call X) (run : Piece → ThreadState X → CallbackRun (ThreadState X))
    (phase : Phase) (priority : Priority) (pieces : List Piece) (start close : String)
    (world : ThreadState X) : CallbackRun (ThreadState X) :=
  let (finish, world) := printLine run (fun piece world => call.text piece world.outside)
    phase pieces start close
    (fun tag message world => world.print ⟨priority, tag, message⟩) world
  ⟨[], finish, world.ignore false⟩

/-- `Logcat.beforeExecuted`. -/
def beforeExecuted (call : Call X)
    (run : Piece → ThreadState X → CallbackRun (ThreadState X))
    (registers : Registers) (world : ThreadState X) : CallbackRun (ThreadState X) :=
  if world.cells.mIgnores = some true then
    ⟨[], .ok (), world⟩
  else
    let depth := world.cells.mDepths.getD (-1) + 1
    let executable := registers.func.executable
    let name := executable.declaringClass.name
    let start := indent depth.toNatClampNeg ++ shownName world.cells.mRecords name ++
      memberPart executable ++ "(" ++ (if registers.self = .null then "@null" else "")
    let world := world.setCells ⟨some true, some depth, some name, world.cells.log⟩
    world.logLine call run .before (entryPriority executable)
      (entryPieces registers call.arity) start ")"

/-- `Logcat.afterExecuted`. Unboxing a null depth throws. -/
def afterExecuted (call : Call X)
    (run : Piece → ThreadState X → CallbackRun (ThreadState X))
    (registers : Registers) (world : ThreadState X) : CallbackRun (ThreadState X) :=
  if world.cells.mIgnores = some true then
    ⟨[], .ok (), world⟩
  else
    match world.cells.mDepths with
    | none =>
        let world := world.setCells ⟨some true, none, none, world.cells.log⟩
        ⟨[], .error .nullPointer, world.ignore false⟩
    | some depth =>
        let world := world.setCells ⟨some true, some (depth - 1), none, world.cells.log⟩
        let (lead, pieces) := exitPieces registers
        let priority := if registers.hasThrown then Priority.error else Priority.info
        world.logLine call run .after priority pieces (indent depth.toNatClampNeg ++ lead) ""

end ThreadState

/-! ## What a thread does -/

/-- Terminating code of the thread. A callback, an original member or a formatter
may do anything with the state `X` and depend on it; a callback may call the
setters of its registers; and all may execute hooked members. -/
inductive Activity (X : Type) where
  | finish (result : Except Throwable Unit)
  | access (update : X → X) (next : X → Activity X)
  | register (call : RegisterCall) (next : Activity X)
  | execute (call : Call X) (callback : Phase → Patch → Activity X) (original : Activity X)
      (report : Throwable → Activity X) (format : Piece → Activity X)
      (next : Except Throwable Slot → Activity X)

/-- The callbacks of one execution, given by what running their code does. -/
def callbacksOf {X : Type} (logger : Patch) (call : Call X)
    (callback : Phase → Patch → ThreadState X → CallbackRun (ThreadState X))
    (original : ThreadState X → CallbackRun (ThreadState X))
    (report : Throwable → ThreadState X → CallbackRun (ThreadState X))
    (format : Piece → ThreadState X → CallbackRun (ThreadState X)) :
    Callbacks (ThreadState X) where
  beforeExecuted := fun patch registers world =>
    if patch = logger then
      world.beforeExecuted call format registers
    else
      callback .before patch world
  afterExecuted := fun patch registers world =>
    if patch = logger then
      world.afterExecuted call format registers
    else
      callback .after patch world
  invokeOriginalMember := fun _ _ world =>
    ((original world).finish.map fun _ => call.returned (original world).world.outside,
      (original world).world)
  wtf := fun throwable world => (.ok (), (report throwable world).world)

/-- Run an activity. `inside` says whether a callback of the logger is running
it. -/
def Activity.run {X : Type} (logger : Patch) :
    Bool → Activity X → ThreadState X → CallbackRun (ThreadState X)
  | _, finish result, world => ⟨[], result, world⟩
  | inside, access update next, world =>
      (next world.outside).run logger inside { world with outside := update world.outside }
  | inside, register call next, world =>
      let later := next.run logger inside world
      { later with calls := call :: later.calls }
  | inside, execute call callback original report format next, world =>
      let callbacks := callbacksOf logger call
        (fun phase patch => (callback phase patch).run logger inside)
        (original.run logger inside)
        (fun throwable => (report throwable).run logger inside)
        (fun piece => (format piece).run logger true)
      let (result, final) := (callbacks.over call.snapshot.patches).replaceHookedMember
        call.snapshot.patches.length call.func call.object call.objects world
      (next result).run logger inside
        { final with spans := final.spans ++ [⟨inside, world.cells, final.cells⟩] }

/-- A thread that has not executed anything yet. -/
def ThreadState.fresh {X : Type} (outside : X) : ThreadState X :=
  ⟨outside, .fresh, []⟩

end AndroidPatch.Logcat
