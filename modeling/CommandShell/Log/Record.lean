import CommandShell.Calendar
import CommandShell.Failure
import CommandShell.Value

/-! # Log records

A record has a level, the part of the shell it comes from, a message and details. It is written as
one line; the cause of an error follows on a line of its own.
-/
namespace CommandShell.Log

abbrev Level := Int

namespace Level

def debug : Level := 10
def info : Level := 20
def warning : Level := 30
def error : Level := 40
def critical : Level := 50

def named : Table String Level :=
  [("DEBUG", debug), ("INFO", info), ("WARNING", warning), ("ERROR", error), ("CRITICAL", critical)]

def name (l : Level) : String :=
  match named.find? fun n => n.2 = l with
  | some n => n.1
  | none => if l = 0 then "NOTSET" else "Level " ++ toString l

/-- A letter in upper case. Besides the letters of ASCII only the dotless i has an upper case among
them. -/
def upper (c : Char) : Char :=
  if c = 'ı' then 'I' else c.toUpper

def ofName (s : String) : Level :=
  (named.get? (String.ofList (s.toList.map upper))).getD warning

end Level

structure Cause where
  kind : String
  message : String
  deriving DecidableEq, Repr

structure Record where
  level : Level
  message : String
  origin : Option String := none
  details : Members := []
  time : Moment := 0
  cause : Option Cause := none

structure Layout where
  colors : Bool := false
  deriving DecidableEq, Repr

namespace Layout

/-- Colors are used only on a stream that is known to be a terminal. -/
def forStream (wanted : Bool) (terminal : Option Bool) : Layout :=
  ⟨wanted && terminal.getD false⟩

def color? : Level → Option String
  | 10 => some "\x1b[36m"
  | 20 => some "\x1b[32m"
  | 30 => some "\x1b[33m"
  | 40 => some "\x1b[31m"
  | 50 => some "\x1b[35m"
  | _ => none

def resetColor : String := "\x1b[0m"

def padded (width : Nat) (s : String) : String :=
  s ++ String.ofList (List.replicate (width - s.length) ' ')

def level (layout : Layout) (l : Level) : String :=
  let text := padded 8 (Level.name l)
  match layout.colors, color? l with
  | true, some c => c ++ text ++ resetColor
  | _, _ => text

def details (ds : Members) : List String :=
  if ds.isEmpty then []
  else ["\x7b" ++ Text.joined " " (ds.map fun d => d.1 ++ "=" ++ d.2.display) ++ "\x7d"]

def cause (c : Cause) : String :=
  if c.message = "" then c.kind else c.kind ++ ": " ++ c.message

def text (layout : Layout) (r : Record) : String :=
  let parts := ["[" ++ Moment.stamp r.time ++ "]", layout.level r.level] ++
    r.origin.toList.map (fun o => "[" ++ o ++ "]") ++ [r.message] ++ details r.details
  Text.joined " " parts ++ (r.cause.map fun c => "\n" ++ cause c).getD ""

def undatedFault : Undated → Fault
  | .year y => .badValue ("year " ++ toString y ++ " is out of range")
  | .beyondRecord => .beyondRecord
  | .beyondClock => .beyondClock

def text? (layout : Layout) (r : Record) : Except Fault String :=
  match Moment.undated? r.time with
  | some u => .error (undatedFault u)
  | none => .ok (layout.text r)

end Layout

end CommandShell.Log
