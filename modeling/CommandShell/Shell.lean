import CommandShell.Execution
import CommandShell.Line
import CommandShell.Text

/-! # Lines, scripts and the read loop

A line is read, its redirection opened, and its command run. A failure on a line is reported and the
shell goes on; what leaves a line otherwise is a request to exit, an interrupt or a fault. A script
ends at the first of these. The read loop reads line by line, each attempt giving a line with its
end or an interrupt, and ends only at an exit and at the end of its input.
-/
namespace CommandShell

/-- One attempt to read a line. A double interrupt also hits the line break that is written in
answer to the first one. -/
inductive Read where
  | line (s : String)
  | interrupt
  | doubleInterrupt
  deriving DecidableEq, Repr

namespace Read

def linesOf : List Char → List (List Char)
  | [] => []
  | '\n' :: cs => ['\n'] :: linesOf cs
  | c :: cs =>
    match linesOf cs with
    | [] => [[c]]
    | l :: ls => (c :: l) :: ls

def ofText (s : String) : List Read :=
  (linesOf s.toList).map fun l => .line (String.ofList l)

def withoutEnd (line : String) : String :=
  String.ofList (Text.dropEnd (fun c => c == '\r' || c == '\n') line.toList)

end Read

namespace Shell

open Line (Command)

/-- Runs a command whose redirection has been taken from the working directory it starts in. -/
def runCommand (c : Command) : Action (Option Int) := do
  let r := c.redirection.resolved (← get).session.dir
  Output.prepare r
  if (← get).builtins.has c.name then
    let result ← Builtins.run c.name c.arguments
    Output.route result r
    return none
  else Launch.runNamed c.name c.arguments r

def runLine (line : String) : Action (Option Int) := do
  match Command.ofLine line with
  | .ok c => runCommand c
  | .error f => throw (.failure f)

def executeLine (line : String) : Action (Option Int) := do
  Action.log .debug "shell" "Executing line" [("line", .text line)]
  match ← (runLine line).outcome with
  | .ok status => return status
  | .error (.failure f) =>
    Action.log .warning "shell" f.message f.details
    Action.complain f.message
    return none
  | .error s => throw s

def runLines : List String → Action Int
  | [] => return 0
  | line :: rest => do
    if Text.isBlankText line then runLines rest
    else
      match ← (executeLine line).outcome with
      | .ok _ => runLines rest
      | .error (.exit e) => return e.code
      | .error s => throw s

def runScript (script : String) : Action Int :=
  runLines (Text.pieces '\n' script)

def showPrompt : Action Unit := do
  match (← get).settings.prompt with
  | .text s => Action.write s
  | _ => throw (.fault .wrongKind)

/-- Reports what stopped a line in the read loop. The result is the status of an exit, which alone
ends the loop. -/
def afterStop : Stop → Action (Option Int)
  | .exit e => return some e.code
  | .interrupt => do
    Action.write "\n"
    return none
  | .failure f => report f.cause.kind.name f.summary
  | .fault f => report f.kind f.message
where
  report (kind message : String) : Action (Option Int) := do
    Action.log .error "shell" ("Shell error: " ++ message) [] (some ⟨kind, message⟩)
    Action.complain ("minish: error: " ++ message)
    return none

def answerLine (line : String) : Action (Option Int) := do
  match ← (executeLine (Read.withoutEnd line)).outcome with
  | .ok _ => return none
  | .error s => afterStop s

def readLoop : List Read → Action Int
  | [] => do
    showPrompt
    Action.write "\n"
    return 0
  | .interrupt :: rest => do
    showPrompt
    Action.write "\n"
    readLoop rest
  | .doubleInterrupt :: _ => do
    showPrompt
    throw .interrupt
  | .line s :: rest => do
    showPrompt
    match ← answerLine s with
    | some code => return code
    | none => if (← get).running then readLoop rest else return 0

def run (input : List Read) : Action Int := do
  modify fun w => { w with running := true }
  let code ← readLoop input
  modify fun w => { w with running := false }
  Action.log .info "shell" "Shell loop finished" [("exit_code", .integer code)]
  return code

end Shell

end CommandShell
