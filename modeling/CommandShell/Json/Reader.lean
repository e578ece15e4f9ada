import CommandShell.Number
import CommandShell.Value

/-! # Reading JSON

The reader takes a text from left to right and stops at the first thing that is wrong, with a
complaint and the place it is about. Two further limits are about size: digits of one integer, and
depth of nesting. A repeated name keeps its first place among the members of an object and takes its
last value.
-/
namespace CommandShell.Json

inductive Complaint where
  | expectedValue
  | expectedName
  | expectedColon
  | expectedComma
  | unterminatedString
  | controlCharacter
  | badEscape
  | badCodePoint
  | extraData
  | byteOrderMark
  deriving DecidableEq, Repr

def Complaint.message : Complaint → String
  | expectedValue => "Expecting value"
  | expectedName => "Expecting property name enclosed in double quotes"
  | expectedColon => "Expecting ':' delimiter"
  | expectedComma => "Expecting ',' delimiter"
  | unterminatedString => "Unterminated string starting at"
  | controlCharacter => "Invalid control character at"
  | badEscape => "Invalid \\escape"
  | badCodePoint => "Invalid \\uXXXX escape"
  | extraData => "Extra data"
  | byteOrderMark => "Unexpected UTF-8 BOM (decode using utf-8-sig)"

/-- Why reading stopped; a complaint comes with what was still to be read where it arose. -/
inductive Halt where
  | complaint (what : Complaint) (rest : List Char)
  | tooManyDigits
  | tooDeep
  deriving DecidableEq, Repr

inductive Problem where
  | malformed (what : Complaint) (offset : Nat) (text : List Char)
  | tooManyDigits
  | tooDeep
  deriving DecidableEq, Repr

def lineOf (text : List Char) (offset : Nat) : Nat :=
  (text.take offset).count '\n' + 1

def columnOf (text : List Char) (offset : Nat) : Nat :=
  ((text.take offset).reverse.takeWhile (· != '\n')).length + 1

def located (what : Complaint) (offset : Nat) (text : List Char) : String :=
  what.message ++ ": line " ++ toString (lineOf text offset) ++ " column " ++
    toString (columnOf text offset) ++ " (char " ++ toString offset ++ ")"

def escapes : Table Char Char :=
  [('"', '"'), ('\\', '\\'), ('/', '/'), ('b', '\x08'), ('f', '\x0c'), ('n', '\n'), ('r', '\r'),
   ('t', '\t')]

def hexValue? (c : Char) : Option Nat :=
  if '0' ≤ c ∧ c ≤ '9' then some (c.toNat - 48)
  else if 'a' ≤ c ∧ c ≤ 'f' then some (c.toNat - 87)
  else if 'A' ≤ c ∧ c ≤ 'F' then some (c.toNat - 55)
  else none

def codeUnit? (a b c d : Char) : Option Nat := do
  return 4096 * (← hexValue? a) + 256 * (← hexValue? b) + 16 * (← hexValue? c) + (← hexValue? d)

/-- The code units of a string after its opening quote, which `opening` starts with. An escape of
four digits is refused also where the text ends right after it. -/
def stringUnits (opening : List Char) : List Char → Except Halt (List Nat × List Char)
  | [] => .error (.complaint .unterminatedString opening)
  | '"' :: r => .ok ([], r)
  | ['\\'] => .error (.complaint .unterminatedString opening)
  | '\\' :: 'u' :: a :: b :: c :: d :: e :: r =>
    match codeUnit? a b c d with
    | none => .error (.complaint .badCodePoint ('u' :: a :: b :: c :: d :: e :: r))
    | some n => (stringUnits opening (e :: r)).map fun (ns, rest) => (n :: ns, rest)
  | '\\' :: 'u' :: r => .error (.complaint .badCodePoint ('u' :: r))
  | '\\' :: c :: r =>
    match escapes.get? c with
    | none => .error (.complaint .badEscape ('\\' :: c :: r))
    | some x => (stringUnits opening r).map fun (ns, rest) => (x.toNat :: ns, rest)
  | c :: r =>
    if c.toNat < 0x20 then .error (.complaint .controlCharacter (c :: r))
    else (stringUnits opening r).map fun (ns, rest) => (c.toNat :: ns, rest)

def isHighSurrogate (n : Nat) : Bool := 0xD800 ≤ n && n < 0xDC00
def isLowSurrogate (n : Nat) : Bool := 0xDC00 ≤ n && n < 0xE000

/-- The characters of a sequence of code units. Two halves of a pair that meet are one character; a
half on its own denotes none and is replaced. -/
def characters : List Nat → List Char
  | [] => []
  | high :: low :: r =>
    if isHighSurrogate high && isLowSurrogate low then
      Char.ofNat (0x10000 + (high - 0xD800) * 0x400 + (low - 0xDC00)) :: characters r
    else if isHighSurrogate high || isLowSurrogate high then '\uFFFD' :: characters (low :: r)
    else Char.ofNat high :: characters (low :: r)
  | [n] => if isHighSurrogate n || isLowSurrogate n then ['\uFFFD'] else [Char.ofNat n]

def string (opening rest : List Char) : Except Halt (String × List Char) :=
  (stringUnits opening rest).map fun (ns, rest) => (String.ofList (characters ns), rest)

def isDigit (c : Char) : Bool := '0' ≤ c && c ≤ '9'

def wholePart? : List Char → Option (List Char × List Char)
  | '0' :: r => some (['0'], r)
  | c :: r => if isDigit c then some (c :: r.takeWhile isDigit, r.dropWhile isDigit) else none
  | [] => none

def fraction : List Char → List Char × List Char
  | '.' :: c :: r =>
    if isDigit c then (c :: r.takeWhile isDigit, r.dropWhile isDigit) else ([], '.' :: c :: r)
  | r => ([], r)

def exponentDigits? : List Char → Option (List Char × List Char)
  | c :: r => if isDigit c then some (c :: r.takeWhile isDigit, r.dropWhile isDigit) else none
  | [] => none

def exponentAfterMark? : List Char → Option ((Bool × List Char) × List Char)
  | '-' :: r => (exponentDigits? r).map fun (ds, rest) => ((true, ds), rest)
  | '+' :: r => (exponentDigits? r).map fun (ds, rest) => ((false, ds), rest)
  | r => (exponentDigits? r).map fun (ds, rest) => ((false, ds), rest)

def exponent? : List Char → Option ((Bool × List Char) × List Char)
  | c :: r => if c = 'e' ∨ c = 'E' then exponentAfterMark? r else none
  | [] => none

def naturalOf (ds : List Char) : Nat :=
  Integer.ofDigits (ds.map fun c => c.toNat - 48)

def unsigned? (negative : Bool) (cs : List Char) : Option (Except Halt (Value × List Char)) :=
  match wholePart? cs with
  | none => none
  | some (whole, r) =>
    let (places, r) := fraction r
    match exponent? r with
    | some ((down, power), r) =>
      let shift : Int := if down then -(naturalOf power : Int) else naturalOf power
      let x := Binary64.ofDecimal negative (naturalOf (whole ++ places)) (shift - places.length)
      some (.ok (.real x, r))
    | none =>
      if places.isEmpty then
        if Integer.digitLimit < whole.length then some (.error .tooManyDigits)
        else
          let n : Int := naturalOf whole
          some (.ok (.integer (if negative then -n else n), r))
      else
        let x := Binary64.ofDecimal negative (naturalOf (whole ++ places)) (-places.length)
        some (.ok (.real x, r))

def number? : List Char → Option (Except Halt (Value × List Char))
  | '-' :: r => unsigned? true r
  | r => unsigned? false r

def afterWord? : List Char → List Char → Option (List Char)
  | [], r => some r
  | _ :: _, [] => none
  | w :: ws, c :: r => if w = c then afterWord? ws r else none

/-- The words that stand for values; three of them are numbers that have no digits. -/
def words : Table String Value :=
  [("null", .null), ("true", .bool true), ("false", .bool false), ("NaN", .real .undefined),
   ("Infinity", .real (.infinite false)), ("-Infinity", .real (.infinite true))]

def word? (cs : List Char) : Option (Value × List Char) :=
  words.findSome? fun (w, v) => (afterWord? w.toList cs).map (v, ·)

def isBlank (c : Char) : Bool :=
  c == ' ' || c == '\t' || c == '\n' || c == '\r'

def skipBlanks (cs : List Char) : List Char :=
  cs.dropWhile isBlank

def depthLimit : Nat := 987

mutual

/-- A value at the front of a text. `fuel` bounds the number of calls and `depth` the lists and
objects that may still be opened. -/
def value : (fuel depth : Nat) → List Char → Except Halt (Value × List Char)
  | 0, _, _ => .error .tooDeep
  | fuel + 1, depth, cs =>
    match cs, depth with
    | '"' :: r, _ => (string cs r).map fun (s, rest) => (.text s, rest)
    | '[' :: _, 0 => .error .tooDeep
    | '[' :: r, depth + 1 =>
      match skipBlanks r with
      | ']' :: rest => .ok (.list [], rest)
      | r => (items fuel depth r).map fun (vs, rest) => (.list vs, rest)
    | '\x7b' :: _, 0 => .error .tooDeep
    | '\x7b' :: r, depth + 1 =>
      match skipBlanks r with
      | '\x7d' :: rest => .ok (.object [], rest)
      | r => (members fuel depth r).map fun (ms, rest) => (.object (Table.ofList ms), rest)
    | cs, _ =>
      match word? cs with
      | some found => .ok found
      | none => (number? cs).getD (.error (.complaint .expectedValue cs))

def items : (fuel depth : Nat) → List Char → Except Halt (List Value × List Char)
  | 0, _, _ => .error .tooDeep
  | fuel + 1, depth, cs => do
    let (v, r) ← value fuel depth cs
    match skipBlanks r with
    | ']' :: rest => .ok ([v], rest)
    | ',' :: r =>
      let (vs, rest) ← items fuel depth (skipBlanks r)
      .ok (v :: vs, rest)
    | r => .error (.complaint .expectedComma r)

def members : (fuel depth : Nat) → List Char → Except Halt (List (String × Value) × List Char)
  | 0, _, _ => .error .tooDeep
  | fuel + 1, depth, cs =>
    match cs with
    | '"' :: r => do
      let (name, r) ← string cs r
      match skipBlanks r with
      | ':' :: r =>
        let (v, r) ← value fuel depth (skipBlanks r)
        match skipBlanks r with
        | '\x7d' :: rest => .ok ([(name, v)], rest)
        | ',' :: r =>
          let (ms, rest) ← members fuel depth (skipBlanks r)
          .ok ((name, v) :: ms, rest)
        | r => .error (.complaint .expectedComma r)
      | r => .error (.complaint .expectedColon r)
    | cs => .error (.complaint .expectedName cs)

end

def document (cs : List Char) : Except Halt Value :=
  match cs with
  | '\uFEFF' :: _ => .error (.complaint .byteOrderMark cs)
  | cs => do
    let (v, r) ← value (2 * cs.length + 2) depthLimit (skipBlanks cs)
    match skipBlanks r with
    | [] => .ok v
    | rest => .error (.complaint .extraData rest)

def read (text : String) : Except Problem Value :=
  let cs := text.toList
  match document cs with
  | .ok v => .ok v
  | .error (.complaint what rest) => .error (.malformed what (cs.length - rest.length) cs)
  | .error .tooManyDigits => .error .tooManyDigits
  | .error .tooDeep => .error .tooDeep

end CommandShell.Json
