import CommandShell.Number
import CommandShell.Text

/-! # Tables and untyped values

A table holds keys with values, in the order in which the keys first came. A value is what a
configuration file can hold, and what a log record can carry beside its message. Nothing is checked
when it is read: a value of the wrong kind shows only where it is used.
-/
namespace CommandShell

abbrev Table (κ ν : Type) := List (κ × ν)

namespace Table

variable {κ ν : Type} [DecidableEq κ]

def get? : Table κ ν → κ → Option ν
  | [], _ => none
  | (k, v) :: rest, key => if k = key then some v else get? rest key

/-- Puts a value under a key. A key that is there already keeps its place. -/
def put : Table κ ν → κ → ν → Table κ ν
  | [], key, v => [(key, v)]
  | (k, w) :: rest, key, v => if k = key then (k, v) :: rest else (k, w) :: put rest key v

def ofList (pairs : List (κ × ν)) : Table κ ν :=
  pairs.foldl (fun t p => t.put p.1 p.2) []

theorem get?_put (t : Table κ ν) (key other : κ) (v : ν) :
    (t.put key v).get? other = if key = other then some v else t.get? other := by
  induction t with
  | nil => rfl
  | cons p rest ih =>
    obtain ⟨k, w⟩ := p
    by_cases hk : k = key
    · subst hk
      by_cases h : k = other <;> simp [put, get?, h]
    · by_cases h : key = other
      · subst h
        simp [put, get?, hk, ih]
      · simp [put, get?, hk, h, ih]

end Table

inductive Value where
  | null
  | bool (b : Bool)
  | integer (n : Int)
  | real (x : Binary64)
  | text (s : String)
  | list (items : List Value)
  | object (members : List (String × Value))
  deriving Inhabited

namespace Value

def kind : Value → String
  | null => "NoneType"
  | bool _ => "bool"
  | integer _ => "int"
  | real _ => "float"
  | text _ => "str"
  | list _ => "list"
  | object _ => "dict"

/-- A value counts as given unless it is empty, zero, false or null. -/
def isGiven : Value → Bool
  | null => false
  | bool b => b
  | integer n => n != 0
  | real x => !x.isZero
  | text s => s != ""
  | list items => !items.isEmpty
  | object members => !members.isEmpty

mutual

def nested : Value → String
  | null => "None"
  | bool b => if b then "True" else "False"
  | integer n => toString n
  | real x => x.display
  | text s => Text.quoted s
  | list items => "[" ++ Text.joined ", " (nestedItems items) ++ "]"
  | object members => "\x7b" ++ Text.joined ", " (nestedMembers members) ++ "\x7d"

def nestedItems : List Value → List String
  | [] => []
  | v :: vs => nested v :: nestedItems vs

def nestedMembers : List (String × Value) → List String
  | [] => []
  | (key, v) :: ms => (Text.quoted key ++ ": " ++ nested v) :: nestedMembers ms

end

def display : Value → String
  | text s => s
  | v => v.nested

end Value

abbrev Members := Table String Value

end CommandShell
