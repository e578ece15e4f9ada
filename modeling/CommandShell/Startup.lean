import CommandShell.CommandLine
import CommandShell.Log.Journal
import CommandShell.Shell

/-! # Starting the program

The command line is read, then the settings, then the journal is set up and the session begins. With
a command on the command line that command is run as a script, and otherwise the read loop on the
input.
-/
namespace CommandShell.Startup

/-- How the program ends: its status, and whether the command line alone decided it. -/
structure Ending where
  status : Int
  immediate : Bool := false
  deriving DecidableEq, Repr

def loadSettings (path : Option String) : Action Unit := do
  match path with
  | none | some "" => return ()
  | some path =>
    let w ← get
    match Settings.load w.fs w.processDir path with
    | .ok settings => set { w with settings }
    | .error s => throw s

def levelOf : Value → Except Fault Log.Level
  | .text s => .ok (Log.Level.ofName s)
  | v => .error (.missingOperation v.kind "upper")

def openingOf (processDir : String) (home : Option String) (v : Value) :
    Option Log.Journal.Opening :=
  if v.isGiven then
    match v with
    | .text path => some (Log.openFile processDir home path)
    | _ => some fun fs => (.error .wrongKind, fs)
  else none

def startJournal (terminal : Bool) : Action Unit := do
  let w ← get
  let level ← Action.ofExcept (levelOf w.settings.logLevel)
  let console :=
    if w.settings.consoleOutput.isGiven then
      some (Log.Layout.forStream w.settings.useColors.isGiven (some terminal))
    else none
  let opening := openingOf w.processDir (w.environment.get? "HOME") w.settings.logFile
  let (r, journal, fs) := w.journal.start level console opening w.fs
  set { w with journal, fs }
  Action.ofExcept r

def startSession : Action Unit := do
  let w ← get
  let session ← Action.ofExcept
    (Session.fromEnvironment w.fs w.processDir w.processDir w.environment w.settings.defaultHome)
  set { w with session }
  Action.log .info "main" "Starting shell" [("cwd", .text session.dir)]

/-- Runs a script, or the read loop, in which an interrupt that nothing answers ends the program. -/
def work (task : CommandLine.Task) (input : List Read) : Action Int := do
  match task with
  | .script s => Shell.runScript s
  | .missing => throw (.fault (.missingOperation "list" "split"))
  | .input =>
    match ← (Shell.run input).outcome with
    | .ok code => return code
    | .error .interrupt =>
      Action.writeError "\n"
      return 130
    | .error s => throw s

/-- Runs the program. `terminal` says whether the error stream is a terminal. -/
def start (arguments : List String) (input : List Read) (terminal : Bool := false) :
    Action Ending := do
  match CommandLine.request arguments with
  | .showHelp =>
    Action.write CommandLine.help
    return ⟨0, true⟩
  | .showVersion =>
    Action.write CommandLine.version
    return ⟨0, true⟩
  | .wrong complaint =>
    Action.writeError (CommandLine.report complaint)
    return ⟨2, true⟩
  | .start config task =>
    match ← (loadSettings config).outcome with
    | .ok () =>
      startJournal terminal
      startSession
      return ⟨← work task input, false⟩
    | .error (.failure f) =>
      Action.complain ("minish: " ++ f.message)
      return ⟨2, false⟩
    | .error s => throw s

end CommandShell.Startup
