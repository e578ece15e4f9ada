import CommandShell.Number
import CommandShell.World

/-! # Running commands

A built-in command writes nothing itself: it has a result, whose text goes to exactly one place. A
redirection captures it if it is of the kind that the redirection names, success on the output and
failure on the error stream; otherwise it goes to the terminal, on the error stream if that is the
one redirected. The outputs of a program are opened before anything else about its request is
checked, so a file that one of them goes to is there even if the program cannot be started.
-/
namespace CommandShell

namespace Output

open Line (Redirection)

def openTarget (path : String) (append : Bool) : Action Location := do
  let w ← get
  match w.fs.openForWriting w.processDir path append with
  | .ok (place, fs) =>
    set { w with fs }
    return place
  | .error (.system e _) => throw (.failure { cause := .unwritableTarget path e.text })
  | .error f => throw (.fault f)

/-- Opens the target of a redirection once before the command runs. Whether or not anything will be
written to it, the target then exists, and is empty unless the redirection appends. -/
def prepare (r : Redirection) : Action Unit := do
  match r.isActive, r.target with
  | true, some path => discard (openTarget path r.append)
  | _, _ => return ()

/-- Writing to a file that is open never fails: that a disk is full or breaks is left out, so what
the system refuses it refuses when a file is opened. -/
def writeAt (place : Location) (text : String) : Action Unit :=
  modify fun w => { w with fs := w.fs.append place text.toUTF8 }

def writeTarget (path : String) (append : Bool) (text : String) : Action Unit := do
  let place ← openTarget path append
  writeAt place (text ++ "\n")

def showOn (r : Redirection) (text : String) : Action Unit :=
  if r.namesError then Action.complain text else Action.say text

def captures (r : Redirection) (result : Result) : Bool :=
  r.isActive && result.ok != r.namesError

/-- Puts the text of a result in its place. A success without text has none. If a target cannot be
opened, this is reported and the text goes to the terminal instead. -/
def route (result : Result) (r : Redirection) : Action Unit := do
  if result.ok && result.output == "" then return ()
  match captures r result, r.target with
  | true, some path =>
    match ← (writeTarget path r.append result.output).outcome with
    | .ok () => return ()
    | .error (.failure f) =>
      Action.log .error "output" f.message f.details
      Action.complain f.message
      showOn r result.output
    | .error s => throw s
  | _, _ => showOn r result.output

end Output

def Exit.ofArguments : List String → Exit
  | [] => {}
  | a :: _ => ⟨(Integer.ofText? a).getD 0⟩

def Session.changeDirectory (s : Session) (fs : FileSystem) (processDir : String)
    (arguments : List String) : Except Fault (Result × Session) := do
  let (shown, target) ← s.target arguments.head?
  if fs.isDirectory processDir target then
    let dir ← fs.realPath processDir target
    return (⟨true, ""⟩, { s with dir := dir })
  else return (⟨false, "cd: " ++ shown ++ ": No such file or directory"⟩, s)

def Builtins.describe (bs : Builtins) (fs : FileSystem) (processDir : String) (s : Session) :
    List String → Result
  | [] | "" :: _ => ⟨true, ""⟩
  | name :: _ =>
    if bs.has name then ⟨true, name ++ " is a shell builtin"⟩
    else
      match fs.findProgram? processDir name s.searchDirectories with
      | some found => ⟨true, name ++ " is " ++ found.path⟩
      | none => ⟨false, name ++ ": not found"⟩

def Behavior.run (arguments : List String) : Behavior → Action Result
  | returns r => pure r
  | listsArguments ok => do
    return ⟨ok, (← get).session.dir ++ ":" ++ Text.joined "," arguments⟩
  | raises s => throw s
  | endsLoop => do
    modify fun w => { w with running := false }
    return ⟨true, ""⟩

def Builtin.run (arguments : List String) : Builtin → Action Result
  | exit => throw (.exit (.ofArguments arguments))
  | echo => pure ⟨true, Text.joined " " arguments⟩
  | pwd => do return ⟨true, (← get).session.dir⟩
  | cd => do
    let w ← get
    let (result, session) ← Action.ofExcept (w.session.changeDirectory w.fs w.processDir arguments)
    if result.ok then
      set { w with session }
      Action.log .debug "builtins" "Changed directory" [("cwd", .text session.dir)]
    return result
  | type => do
    let w ← get
    return w.builtins.describe w.fs w.processDir w.session arguments
  | added b => b.run arguments

def Builtins.run (name : String) (arguments : List String) : Action Result := do
  match (← get).builtins.get? name with
  | none => return ⟨false, name ++ ": not a shell builtin"⟩
  | some b =>
    Action.log .debug "builtins" ("Running builtin " ++ name)
      [("args", .list (arguments.map .text))]
    b.run arguments

namespace Launch

open Line (Redirection)

def openWiring : Wiring → Action (Option Location)
  | .inherited => return none
  | .toFile (some path) append => some <$> Output.openTarget path append
  | .toFile none _ => throw (.fault .wrongKind)

def emit (place : Option Location) (terminal : String → Action Unit) (text : String) :
    Action Unit :=
  match place with
  | some l => Output.writeAt l text
  | none => terminal text

def run (request : Launch) : Action Int := do
  modify fun w => { w with launches := w.launches ++ [request] }
  let output ← openWiring request.output
  let error ← openWiring request.error
  let w ← get
  match request.program w.fs w.processDir with
  | .error f => throw (request.refusal f)
  | .ok program =>
    emit output Action.write (request.outputOf program)
    emit error Action.writeError program.diagnostics
    if program.interrupts then throw .interrupt
    return program.status

def runNamed (name : String) (arguments : List String) (r : Redirection) :
    Action (Option Int) := do
  let w ← get
  match w.fs.findProgram? w.processDir name w.session.searchDirectories with
  | none =>
    Action.log .info "executor" "Command not found" [("command", .text name)]
    Action.say (name ++ ": command not found")
    return none
  | some found =>
    let request := Launch.ofCommand found name arguments r (some w.session.dir)
    Action.log .info "executor" ("Spawning " ++ found.path)
      [("argv", .list (request.arguments.map .text))]
    let status ← request.run
    Action.log .debug "executor" (name ++ " exited") [("status", .integer status)]
    return some status

end Launch

end CommandShell
