import CommandShell.Text
import CommandShell.Value

/-! # The command line of the program

The arguments are first told apart: switches, of which long ones may be abbreviated, and everything
else. Then they are taken in their order. A switch that shows something ends the program at once, so
what is wrong with the arguments after it is never noticed, unless it is an ambiguous switch.
-/
namespace CommandShell.CommandLine

inductive Switch where
  | help
  | config
  | command
  | version
  deriving DecidableEq, Repr

def spellings : Table String Switch :=
  [("-h", .help), ("--help", .help), ("--config", .config), ("-c", .command),
   ("--version", .version)]

namespace Switch

def takesValue : Switch → Bool
  | config | command => true
  | help | version => false

def name : Switch → String
  | help => "-h/--help"
  | config => "--config"
  | command => "-c"
  | version => "--version"

def ofLetter? (c : Char) : Option Switch :=
  spellings.get? (String.ofList ['-', c])

end Switch

inductive Argument where
  | operand (s : String)
  | separator
  | switch (s : Switch) (long : Bool) (attached : Option (List Char))
  | unknown (s : String)
  deriving DecidableEq, Repr

def atEquals : List Char → List Char × Option (List Char)
  | [] => ([], none)
  | c :: cs => if c = '=' then ([], some cs) else ((atEquals cs).map (c :: ·) id)

def isNegativeNumber (cs : List Char) : Bool :=
  let isDigit (c : Char) : Bool := (Text.digitValue? c).isSome
  -- a line feed at the end does not count
  let cs := if cs.getLast? = some '\n' then cs.dropLast else cs
  match cs with
  | '-' :: r =>
    let rest := r.dropWhile isDigit
    match rest with
    | [] => !r.isEmpty
    | '.' :: places => !places.isEmpty && places.all isDigit
    | _ => false
  | _ => false

def abbreviated (short : List Char) : Table String Switch :=
  spellings.filter fun s => short.isPrefixOf s.1.toList

def ambiguous (s : String) (matching : Table String Switch) : String :=
  "ambiguous option: " ++ s ++ " could match " ++ Text.joined ", " (matching.map (·.1))

def unspelled (s : String) : Argument :=
  if isNegativeNumber s.toList ∨ s.toList.contains ' ' then .operand s else .unknown s

def classify (s : String) : Except String Argument :=
  if s = "--" then .ok .separator
  else
    let cs := s.toList
    match cs, spellings.get? s with
    | '-' :: '-' :: _, some switch => .ok (.switch switch true none)
    | _, some switch => .ok (.switch switch false none)
    | '-' :: '-' :: _, none =>
      let (front, value) := atEquals cs
      match spellings.get? (String.ofList front), abbreviated front with
      | some switch, _ => .ok (.switch switch true value)
      | none, [] => .ok (unspelled s)
      | none, [(_, switch)] => .ok (.switch switch true value)
      | none, matching => .error (ambiguous s matching)
    | '-' :: c :: '=' :: value, none =>
      match Switch.ofLetter? c with
      | some switch => .ok (.switch switch false (some value))
      | none => .ok (unspelled s)
    | '-' :: c :: value, none =>
      match Switch.ofLetter? c with
      | some switch => .ok (.switch switch false (some value))
      | none => .ok (unspelled s)
    | _, none => .ok (.operand s)

def classifyAll : List String → Except String (List Argument)
  | [] => .ok []
  | s :: rest => do
    match ← classify s with
    | .separator => return .separator :: rest.map .operand
    | a => return a :: (← classifyAll rest)

/-- What one argument that starts with a switch asks for, and whether the next argument belongs to
it. A switch that takes a value may be left without one. -/
structure Taken where
  actions : List (Switch × Option String)
  usesNext : Bool := false
  deriving DecidableEq, Repr

def complaintAbout (s : Switch) (what : String) : String :=
  "argument " ++ s.name ++ ": " ++ what

def takeBare (s : Switch) (next : Option String) : Except String Taken :=
  if s.takesValue then
    match next with
    | some v => .ok { actions := [(s, some v)], usesNext := true }
    | none => .error (complaintAbout s "expected one argument")
  else .ok { actions := [(s, none)] }

def ignored (s : Switch) (text : List Char) : String :=
  complaintAbout s ("ignored explicit argument " ++ Text.quoted (String.ofList text))

def Taken.after (s : Switch) (t : Taken) : Taken :=
  { t with actions := (s, none) :: t.actions }

def attachedValue (text : List Char) : Option String :=
  if text = ['-', '-'] then none else some (String.ofList text)

/-- A switch with a text attached to it. The text is its value, or else further short switches. -/
def takeAttached (next : Option String) (s : Switch) (long : Bool) : List Char → Except String Taken
  | [] => if s.takesValue then .ok { actions := [(s, some "")] } else .error (ignored s [])
  | c :: rest =>
    if s.takesValue then .ok { actions := [(s, attachedValue (c :: rest))] }
    else if long then .error (ignored s (c :: rest))
    else
      match Switch.ofLetter? c with
      | none => .error (ignored s (c :: rest))
      | some further =>
        if rest.isEmpty then (takeBare further next).map (·.after s)
        else (takeAttached next further false rest).map (·.after s)

inductive Task where
  | input
  | script (s : String)
  | missing
  deriving DecidableEq, Repr

inductive Request where
  | showHelp
  | showVersion
  | wrong (complaint : String)
  | start (config : Option String) (task : Task)
  deriving DecidableEq, Repr

structure Values where
  config : Option String := none
  task : Task := .input
  leftOver : List String := []

/-- Carries out what an argument asks for; showing something ends all. -/
def Values.take (v : Values) : List (Switch × Option String) → Except Request Values
  | [] => .ok v
  | (.help, _) :: _ => .error .showHelp
  | (.version, _) :: _ => .error .showVersion
  | (.config, x) :: rest => { v with config := x }.take rest
  | (.command, some x) :: rest => { v with task := .script x }.take rest
  | (.command, none) :: rest => { v with task := .missing }.take rest

def Values.leave (v : Values) (more : List String) : Values :=
  { v with leftOver := v.leftOver ++ more }

def nextOperand? : List Argument → Option String
  | .operand s :: _ => some s
  | _ => none

/-- Takes arguments in order; `skip` says that the first one belongs to the switch before it. -/
def interpret (v : Values) (skip : Bool) : List Argument → Request
  | [] =>
    if v.leftOver.isEmpty then .start v.config v.task
    else .wrong ("unrecognized arguments: " ++ Text.joined " " v.leftOver)
  | a :: rest =>
    if skip then interpret v false rest
    else
      match a with
      | .operand s | .unknown s => interpret (v.leave [s]) false rest
      | .separator => interpret (v.leave ["--"]) false rest
      | .switch s long attached =>
        let taken := match attached with
          | none => takeBare s (nextOperand? rest)
          | some t => takeAttached (nextOperand? rest) s long t
        match taken with
        | .error complaint => .wrong complaint
        | .ok t =>
          match v.take t.actions with
          | .error request => request
          | .ok v => interpret v t.usesNext rest

def request (arguments : List String) : Request :=
  match classifyAll arguments with
  | .error complaint => .wrong complaint
  | .ok as => interpret {} false as

def usage : String := "usage: minish [-h] [--config FILE] [-c COMMAND] [--version]\n"

def help : String := usage ++ "
A small interactive command-line shell.

options:
  -h, --help     show this help message and exit
  --config FILE  JSON configuration file
  -c COMMAND     run COMMAND and exit instead of reading from stdin
  --version      show program's version number and exit
"

def version : String := "minish 1.0.0\n"

def report (complaint : String) : String :=
  usage ++ "minish: error: " ++ complaint ++ "\n"

end CommandShell.CommandLine
