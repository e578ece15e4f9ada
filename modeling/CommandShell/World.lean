import CommandShell.Commands
import CommandShell.FileSystem
import CommandShell.FileSystem.Changes
import CommandShell.Log.Journal
import CommandShell.Settings

/-! # The world of a shell

A session is what a shell remembers from line to line; only `cd` changes it. The world is everything
that running a line can read or change: the file system, the session, the terminal, the journal and
the programs that were started. An action takes a world to another one and ends with a value or with
a reason to stop; what it did before it stopped remains.
-/
namespace CommandShell

inductive Variable where
  | searchPath
  | home
  deriving DecidableEq, Repr

namespace Variable

def name : Variable → String
  | searchPath => "PATH"
  | home => "HOME"

def ofName? : String → Option Variable
  | "PATH" => some searchPath
  | "HOME" => some home
  | _ => none

end Variable

structure Session where
  dir : String
  searchPath : Option String := none
  home : Option Value := none

namespace Session

def assigned (s : Session) : List Variable :=
  (if s.home.isSome then [.home] else []) ++ (if s.searchPath.isSome then [.searchPath] else [])

def assign (s : Session) (name value : String) : Session :=
  match Variable.ofName? name with
  | some .searchPath => { s with searchPath := some value }
  | some .home => { s with home := some (.text value) }
  | none => s

def homeOrRoot (s : Session) : Value :=
  s.home.getD (.text "/")

def fromEnvironment (fs : FileSystem) (processDir start : String) (env : Table String String)
    (defaultHome : Value := .text "/") : Except Fault Session := do
  return {
    dir := ← fs.realPath processDir start
    searchPath := some ((env.get? "PATH").getD "")
    home := some (((env.get? "HOME").map .text).getD defaultHome) }

def searchDirectories (s : Session) : List String :=
  ((Text.pieces ':' (s.searchPath.getD "")).filter (· ≠ "")).map (Path.Posix.absoluteFrom s.dir)

def homeText (s : Session) (operation : String) : Except Fault String :=
  match s.homeOrRoot with
  | .text h => .ok h
  | v => .error (.missingOperation v.kind operation)

def homeOperation? : List Char → Option String
  | ['~'] => some "startswith"
  | '~' :: '/' :: _ => some "rstrip"
  | _ => none

/-- The argument of `cd` with the home directory in place of `~`. Without an argument the home
directory stands for it, in which a `~` is expanded too. -/
def expanded (s : Session) : Option String → Except Fault String
  | none => (s.homeText "startswith").map fun h => Path.expandHome h h
  | some p =>
    match homeOperation? p.toList with
    | some operation => (s.homeText operation).map (Path.expandHome p)
    | none => .ok p

def target (s : Session) (argument : Option String) : Except Fault (String × String) :=
  (s.expanded argument).map fun p => (p, Path.resolve p s.dir)

end Session

inductive Notice where
  | text (s : String)
  | record (s : String)
  deriving DecidableEq, Repr

def Notice.content : Notice → String
  | text s | record s => s

structure World where
  fs : FileSystem := {}
  processDir : String := "/"
  environment : Table String String := []
  settings : Settings := {}
  session : Session := { dir := "/" }
  builtins : Builtins := .standard
  journal : Log.Journal := {}
  time : Moment := 946684800000000
  /-- Whether the read loop goes on after the current line. -/
  running : Bool := false
  output : String := ""
  notices : List Notice := []
  launches : List Launch := []

namespace World

def errors (w : World) : String :=
  String.join (w.notices.map (·.content))

end World

abbrev Action := EStateM Stop World

namespace Action

def ofExcept : Except Fault α → Action α
  | .ok a => pure a
  | .error f => throw (.fault f)

/-- The outcome of an action as a value; the action itself no longer stops. -/
def outcome (action : Action α) : Action (Except Stop α) := fun w =>
  match action w with
  | .ok a w => .ok (.ok a) w
  | .error s w => .ok (.error s) w

def write (s : String) : Action Unit :=
  modify fun w => { w with output := w.output ++ s }

def writeError (s : String) : Action Unit :=
  modify fun w => { w with notices := w.notices ++ [.text s] }

def say (s : String) : Action Unit :=
  write (s ++ "\n")

def complain (s : String) : Action Unit :=
  writeError (s ++ "\n")

def log (level : Log.Level) (origin message : String) (details : Members := [])
    (cause : Option Log.Cause := none) : Action Unit :=
  modify fun w =>
    let r : Log.Record := ⟨level, message, some origin, details, w.time, cause⟩
    { w with
      journal := w.journal.keep r
      notices := w.notices ++ (w.journal.consoleLines r).map .record
      fs := w.journal.write r w.fs }

end Action

end CommandShell
