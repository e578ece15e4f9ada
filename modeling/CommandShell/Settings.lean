import CommandShell.FileSystem.Changes
import CommandShell.Json.Reader
import CommandShell.Path

/-! # Settings

What can be set for a shell, and how the settings come from a file. The file holds an object with
the sections `shell` and `logging`; what it does not mention keeps its usual value. The values
themselves are taken as they are.
-/
namespace CommandShell

structure Settings where
  prompt : Value := .text "$ "
  defaultHome : Value := .text "/"
  logLevel : Value := .text "WARNING"
  logFile : Value := .null
  consoleOutput : Value := .bool false
  useColors : Value := .bool true

namespace Settings

def configurationFailure (message : String) : Stop :=
  .failure { cause := .configuration message }

def sectionOf (data : Members) (name : String) : Except Stop Members :=
  match data.get? name with
  | none => .ok []
  | some (.object members) => .ok members
  | some _ =>
    .error (configurationFailure ("Configuration section '" ++ name ++ "' must be a JSON object"))

def ofSections (shell logging : Members) : Settings :=
  let usual : Settings := {}
  { prompt := (shell.get? "prompt").getD usual.prompt
    defaultHome := (shell.get? "default_home").getD usual.defaultHome
    logLevel := (logging.get? "level").getD usual.logLevel
    logFile := (logging.get? "log_file").getD usual.logFile
    consoleOutput := (logging.get? "console_output").getD usual.consoleOutput
    useColors := (logging.get? "use_colors").getD usual.useColors }

def ofMembers (data : Members) : Except Stop Settings := do
  let shell ← sectionOf data "shell"
  let logging ← sectionOf data "logging"
  return ofSections shell logging

def ofValue : Value → Except Stop Settings
  | .object data => ofMembers data
  | _ => .error (configurationFailure "Configuration root must be a JSON object")

def ofText (text : String) : Except Stop Settings :=
  match Json.read text with
  | .ok v => ofValue v
  | .error (.malformed what offset cs) =>
    .error (configurationFailure
      ("Invalid JSON in configuration file: " ++ Json.located what offset cs))
  | .error .tooManyDigits => .error (.fault .tooManyDigits)
  | .error .tooDeep => .error (.fault .tooDeep)

/-- Whether a path leads to anything. Some errors mean that it does not; the others are errors here
too. -/
def fileExists (fs : FileSystem) (processDir path : String) : Except Fault Bool :=
  match fs.locate processDir path with
  | .ok _ => .ok true
  | .error .nulCharacter => .ok false
  | .error (.system e p) =>
    match e with
    | .notFound | .notDirectory | .linkLoop => .ok false
    | _ => .error (.system e p)
  | .error f => .error f

def load (fs : FileSystem) (processDir path : String) : Except Stop Settings :=
  let plain := Path.Posix.compact path
  match fileExists fs processDir plain with
  | .error f => .error (.fault f)
  | .ok false => .error (configurationFailure ("Configuration file not found: " ++ path))
  | .ok true =>
    match fs.readText processDir plain with
    | .ok text => ofText text
    | .error (.system e p) =>
      .error (configurationFailure
        ("Cannot read configuration file: " ++ (Fault.system e p).message))
    | .error f => .error (.fault f)

end Settings

structure Configuration where
  settings : Settings := {}
  loaded : Bool := false

namespace Configuration

/-- Loads settings from a file; if this fails nothing changes. -/
def load (c : Configuration) (fs : FileSystem) (processDir path : String) :
    Option Stop × Configuration :=
  match Settings.load fs processDir path with
  | .ok s => (none, ⟨s, true⟩)
  | .error e => (some e, c)

def reset (_ : Configuration) : Configuration := {}

end Configuration

end CommandShell
