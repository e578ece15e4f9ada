import CommandShell.Failure
import CommandShell.FileSystem.Changes
import CommandShell.Line
import CommandShell.Value

/-! # Commands

The shell runs some commands itself, by their names: five of them are there from the start, others
can be added, and a name can be given to another command. For any other name a program is looked for
in a list of directories and described by a request. Whether a request can be met is decided by the
file system: arguments, directory and executable are checked in this order.
-/
namespace CommandShell

structure Result where
  ok : Bool
  output : String := ""
  deriving DecidableEq, Repr

inductive Behavior where
  | returns (r : Result)
  | listsArguments (ok : Bool)
  | raises (s : Stop)
  | endsLoop

inductive Builtin where
  | exit
  | echo
  | pwd
  | cd
  | type
  | added (b : Behavior)

abbrev Builtins := Table String Builtin

namespace Builtins

def standard : Builtins :=
  [("exit", .exit), ("echo", .echo), ("pwd", .pwd), ("cd", .cd), ("type", .type)]

def has (bs : Builtins) (name : String) : Bool :=
  (bs.get? name).isSome

def names (bs : Builtins) : List String :=
  (bs.map (·.1)).mergeSort fun a b => a ≤ b

end Builtins

open Line (Redirection)

structure Found where
  directory : String
  path : String
  deriving DecidableEq, Repr

def FileSystem.findProgram? (fs : FileSystem) (processDir name : String)
    (directories : List String) : Option Found :=
  if name = "" then none
  else directories.findSome? fun directory =>
    let path := Path.Posix.join directory name
    if fs.isFile processDir path && fs.mayExecute processDir path then some ⟨directory, path⟩
    else none

/-- Where one output of a program goes. A file need not have a path in a request made by hand. -/
inductive Wiring where
  | inherited
  | toFile (path : Option String) (append : Bool)
  deriving DecidableEq, Repr

structure Launch where
  executable : String
  arguments : List String
  output : Wiring := .inherited
  error : Wiring := .inherited
  dir : Option String := none
  deriving DecidableEq, Repr

namespace Launch

/-- The request to run a program that was found. Of its outputs only the one that the redirection
names goes to a file. -/
def ofCommand (found : Found) (name : String) (arguments : List String) (r : Redirection)
    (dir : Option String := none) : Launch :=
  let file := Wiring.toFile r.target r.append
  let request : Launch := { executable := found.path, arguments := name :: arguments, dir }
  if !r.isActive then request
  else if r.namesError then { request with error := file }
  else { request with output := file }

def checkDirectory (fs : FileSystem) (processDir dir : String) : Except Fault Unit := do
  let l ← fs.locate processDir dir
  match fs.obstacle? l with
  | some e => throw (.system e dir)
  | none => return ()

def program (request : Launch) (fs : FileSystem) (processDir : String) : Except Fault Program := do
  if request.arguments.any FileSystem.hasNul then throw .nulCharacter
  match request.dir with
  | some dir => checkDirectory fs processDir dir
  | none => pure ()
  let l ← fs.locate processDir request.executable
  let refused (e : SystemError) : Except Fault Program := .error (.system e request.executable)
  match fs.node? l with
  | some (.file p _ program) =>
    if !p.execute then refused .permissionDenied
    else
      match program with
      | some program => return program
      | none => refused .badExecutable
  | _ => refused .permissionDenied

def outputOf (request : Launch) (program : Program) : String :=
  program.output ++
    if program.showsCall then
      Text.joined "|" request.arguments ++ "\n" ++ request.dir.getD "None" ++ "\n"
    else ""

def refusal (request : Launch) : Fault → Stop
  | .system e _ =>
    match request.arguments with
    | name :: _ => .failure { cause := .launch name request.executable e.text }
    | [] => .fault .noArguments
  | f => .fault f

end Launch

end CommandShell
