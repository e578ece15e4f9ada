import CommandShell.Failure
import CommandShell.Path
import CommandShell.Text

/-! # Lines

A line is read from left to right in one of three contexts: outside quotes, between single quotes
and between double quotes. It contributes letters of words, gaps between words, and at the very end
possibly a quote that was never closed. The words after the first one may hold redirection
operators; an operator takes the word after it as its target, even if that is an operator too, and
of several redirections the last one counts alone.
-/
namespace CommandShell.Line

inductive Quote where
  | single
  | double
  deriving DecidableEq, Repr

def Quote.char : Quote → Char
  | single => '\''
  | double => '"'

inductive Mark where
  | letter (c : Char)
  | gap
  | unclosed (q : Quote)
  deriving DecidableEq, Repr

def isEscapable (c : Char) : Bool :=
  c == '\\' || c == '$' || c == '"'

/-- The marks of a line from a place in the given context; `none` is outside quotes. A backslash
outside quotes stands for the next character, whichever it is, and for nothing at the end of the
line. Between double quotes it stands for itself unless the next character is escapable. -/
def marks : Option Quote → List Char → List Mark
  | none, [] => []
  | some q, [] => [.unclosed q]
  | none, '\\' :: c :: r => .letter c :: marks none r
  | none, c :: r =>
    if c = '\\' then marks none r
    else if c = '\'' then marks (some .single) r
    else if c = '"' then marks (some .double) r
    else if Text.isBlank c then .gap :: marks none r
    else .letter c :: marks none r
  | some .single, c :: r => if c = '\'' then marks none r else .letter c :: marks (some .single) r
  | some .double, '\\' :: c :: r =>
    if isEscapable c then .letter c :: marks (some .double) r
    else .letter '\\' :: marks (some .double) (c :: r)
  | some .double, c :: r => if c = '"' then marks none r else .letter c :: marks (some .double) r

def runs : List Mark → List Char × List (List Char)
  | [] => ([], [])
  | .gap :: ms => ([], (runs ms).1 :: (runs ms).2)
  | .letter c :: ms => (c :: (runs ms).1, (runs ms).2)
  | .unclosed _ :: ms => runs ms

def wordsOf (ms : List Mark) : List (List Char) :=
  ((runs ms).1 :: (runs ms).2).filter (!·.isEmpty)

def openQuote? (ms : List Mark) : Option Quote :=
  ms.findSome? fun m => match m with
    | .unclosed q => some q
    | _ => none

/-- The words of a line; a quote that is left open is read as if it were closed at the end. -/
def words (line : String) : List String :=
  (wordsOf (marks none line.toList)).map String.ofList

def strictWords (line : String) : Except Failure (List String) :=
  match openQuote? (marks none line.toList) with
  | some q =>
    .error { cause := .openQuote (String.singleton q.char), given := [("line", .text line)] }
  | none => .ok (words line)

def readWords (strict : Bool) (line : String) : Except Failure (List String) :=
  if strict then strictWords line else .ok (words line)

inductive Channel where
  | nothing
  | output
  | error
  deriving DecidableEq, Repr

structure Redirection where
  target : Option String := none
  append : Bool := false
  channel : Channel := .nothing
  deriving DecidableEq, Repr

namespace Redirection

def isActive (r : Redirection) : Bool :=
  r.target.isSome && r.channel != .nothing

def namesError (r : Redirection) : Bool :=
  r.channel == .error

def resolved (dir : String) (r : Redirection) : Redirection :=
  { r with target := r.target.map (Path.Posix.absoluteFrom dir) }

def ofOperator? : String → Option (Channel × Bool)
  | ">" | "1>" => some (.output, false)
  | "2>" => some (.error, false)
  | ">>" | "1>>" => some (.output, true)
  | "2>>" => some (.error, true)
  | _ => none

def extract (last : Redirection) : List String → Except Failure (List String × Redirection)
  | [] => .ok ([], last)
  | [w] =>
    match ofOperator? w with
    | some _ => .error { cause := .missingTarget w }
    | none => .ok ([w], last)
  | w :: target :: rest =>
    match ofOperator? w with
    | some (channel, append) => extract ⟨some target, append, channel⟩ rest
    | none => (extract last (target :: rest)).map fun (ws, r) => (w :: ws, r)

def split : List String → Except Failure (List String × Redirection)
  | [] => .ok ([], {})
  | command :: rest => (extract {} rest).map fun (ws, r) => (command :: ws, r)

end Redirection

structure Command where
  name : String
  arguments : List String := []
  redirection : Redirection := {}
  deriving DecidableEq, Repr

namespace Command

/-- A line without words is the command with the empty name, which no one knows. -/
def ofWords : List String × Redirection → Command
  | ([], r) => ⟨"", [], r⟩
  | (name :: arguments, r) => ⟨name, arguments, r⟩

def ofLine (line : String) (strict : Bool := false) : Except Failure Command := do
  return ofWords (← Redirection.split (← readWords strict line))

end Command

end CommandShell.Line
