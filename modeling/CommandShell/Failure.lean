import CommandShell.Value

/-! # Failures and faults

A failure is what the shell reports about a line, a file, a program or the configuration. It has a
cause, which fixes its message and its code, and details in the order in which they became known. A
fault stops an operation without being a failure: the system refused a path, a value of the wrong
kind was used, or a limit was passed. A running operation ends early for one of the four reasons
that `Stop` lists.
-/
namespace CommandShell

/-- What went wrong. The causes that carry a message of their own also take a code; zero counts as
no code. -/
inductive Cause where
  | general (message : String) (code : Option Int)
  | malformedLine (message : String) (code : Option Int)
  | missingTarget (operator : String)
  | openQuote (quote : String)
  | fileAccess (message : String) (path reason : Option String) (code : Option Int)
  | unwritableTarget (path reason : String)
  | process (message : String) (command : Option String) (code : Option Int)
  | launch (command path reason : String)
  | configuration (message : String)

inductive Kind where
  | general | malformedLine | missingTarget | openQuote | fileAccess | unwritableTarget
  | process | launch | configuration
  deriving DecidableEq, Repr

namespace Kind

def parent? : Kind → Option Kind
  | general => none
  | malformedLine | fileAccess | process | configuration => some general
  | missingTarget | openQuote => some malformedLine
  | unwritableTarget => some fileAccess
  | launch => some process

def ancestors (k : Kind) : List Kind :=
  match k.parent? with
  | none => []
  | some p => p :: match p.parent? with
    | none => []
    | some g => [g]

def name : Kind → String
  | general => "ShellException"
  | malformedLine => "ShellSyntaxError"
  | missingTarget => "RedirectionSyntaxError"
  | openQuote => "UnterminatedQuoteError"
  | fileAccess => "ShellIOError"
  | unwritableTarget => "RedirectionIOError"
  | process => "ProcessException"
  | launch => "ExecError"
  | configuration => "ConfigError"

end Kind

namespace Cause

def kind : Cause → Kind
  | general .. => .general
  | malformedLine .. => .malformedLine
  | missingTarget .. => .missingTarget
  | openQuote .. => .openQuote
  | fileAccess .. => .fileAccess
  | unwritableTarget .. => .unwritableTarget
  | process .. => .process
  | launch .. => .launch
  | configuration .. => .configuration

def message : Cause → String
  | general m _ | malformedLine m _ | fileAccess m _ _ _ | process m _ _ | configuration m => m
  | missingTarget operator => "syntax error: expected file after '" ++ operator ++ "'"
  | openQuote quote => "syntax error: unterminated quote " ++ quote
  | unwritableTarget path reason => "Error writing to file " ++ path ++ ": " ++ reason
  | launch command _ reason => command ++ ": " ++ reason

def orElse (code : Option Int) (usual : Int) : Int :=
  match code with
  | some n => if n = 0 then usual else n
  | none => usual

def code : Cause → Int
  | general _ c => orElse c 1000
  | malformedLine _ c => orElse c 1100
  | missingTarget _ => 1101
  | openQuote _ => 1102
  | fileAccess _ _ _ c => orElse c 1200
  | unwritableTarget _ _ => 1201
  | configuration _ => 1300
  | process _ _ c => orElse c 2000
  | launch _ _ _ => 2006

def noting (key : String) (text : String) (details : Members) : Members :=
  if text = "" then details else details.put key (.text text)

def addDetails (given : Members) : Cause → Members
  | missingTarget operator => given.put "operator" (.text operator)
  | fileAccess _ path _ _ => noting "path" (path.getD "") given
  | unwritableTarget path _ => noting "path" path given
  | process _ command _ => noting "command" (command.getD "") given
  | launch command path _ => noting "command" command (given.put "path" (.text path))
  | general .. | malformedLine .. | openQuote .. | configuration .. => given

end Cause

structure Failure where
  cause : Cause
  given : Members := []

namespace Failure

def message (f : Failure) : String := f.cause.message
def code (f : Failure) : Int := f.cause.code
def details (f : Failure) : Members := f.cause.addDetails f.given

def summary (f : Failure) : String :=
  let line := "[Error " ++ toString f.code ++ "] " ++ f.message
  if f.details.isEmpty then line
  else line ++ " (" ++ Text.joined ", " (f.details.map fun d => d.1 ++ "=" ++ d.2.display) ++ ")"

def term (f : Failure) : String :=
  f.cause.kind.name ++ "(message=" ++ Text.quoted f.message ++ ", error_code=" ++
    toString f.code ++ ")"

end Failure

/-- A request to leave the shell. It is no failure and is never reported. -/
structure Exit where
  code : Int := 0
  deriving DecidableEq, Repr

namespace Exit

def summary (e : Exit) : String := toString e.code
def term (e : Exit) : String := "ShellExit(" ++ toString e.code ++ ")"

end Exit

inductive SystemError where
  | notFound
  | permissionDenied
  | alreadyExists
  | notDirectory
  | isDirectory
  | badExecutable
  | nameTooLong
  | linkLoop
  deriving DecidableEq, Repr

namespace SystemError

def number : SystemError → Nat
  | notFound => 2
  | badExecutable => 8
  | permissionDenied => 13
  | alreadyExists => 17
  | notDirectory => 20
  | isDirectory => 21
  | nameTooLong => 36
  | linkLoop => 40

def text : SystemError → String
  | notFound => "No such file or directory"
  | badExecutable => "Exec format error"
  | permissionDenied => "Permission denied"
  | alreadyExists => "File exists"
  | notDirectory => "Not a directory"
  | isDirectory => "Is a directory"
  | nameTooLong => "File name too long"
  | linkLoop => "Too many levels of symbolic links"

end SystemError

inductive Fault where
  | nulCharacter
  | system (error : SystemError) (path : String)
  | missingOperation (kind operation : String)
  | wrongKind
  | notText
  | tooManyDigits
  | tooDeep
  /-- A program without arguments could not be started, so there is no name to report it under. -/
  | noArguments
  | noHome
  | beyondRecord
  | beyondClock
  | badValue (message : String)
  | unexpected (message : String)
  deriving DecidableEq, Repr

namespace Fault

def kind : Fault → String
  | nulCharacter | tooManyDigits | badValue _ => "ValueError"
  | system e _ =>
    match e with
    | .notFound => "FileNotFoundError"
    | .permissionDenied => "PermissionError"
    | .alreadyExists => "FileExistsError"
    | .notDirectory => "NotADirectoryError"
    | .isDirectory => "IsADirectoryError"
    | .badExecutable | .nameTooLong | .linkLoop => "OSError"
  | missingOperation _ _ => "AttributeError"
  | wrongKind => "TypeError"
  | notText => "UnicodeDecodeError"
  | tooDeep => "RecursionError"
  | noArguments => "IndexError"
  | beyondRecord => "OSError"
  | beyondClock => "OverflowError"
  | noHome | unexpected _ => "RuntimeError"

def message : Fault → String
  | nulCharacter => "embedded null byte"
  | system e path => "[Errno " ++ toString e.number ++ "] " ++ e.text ++ ": " ++ Text.quoted path
  | missingOperation kind operation =>
    "'" ++ kind ++ "' object has no attribute '" ++ operation ++ "'"
  | wrongKind => "unsupported kind of value"
  | notText => "invalid text encoding"
  | tooManyDigits => "too many digits for an integer"
  | tooDeep => "maximum recursion depth exceeded"
  | noArguments => "tuple index out of range"
  | beyondRecord => "[Errno 75] Value too large for defined data type"
  | beyondClock => "timestamp out of range for platform time_t"
  | noHome => "Could not determine home directory."
  | badValue m | unexpected m => m

end Fault

inductive Stop where
  | failure (f : Failure)
  | exit (e : Exit)
  | interrupt
  | fault (f : Fault)

def Stop.message : Stop → String
  | failure f => f.summary
  | exit e => e.summary
  | interrupt => "interrupted"
  | fault f => f.kind ++ ": " ++ f.message

end CommandShell
