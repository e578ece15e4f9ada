import CommandShell.Text

/-! # Numbers and their texts

A number of the 64-bit binary format is kept exactly, as an integer times a power of two. Of the
decimals that read back as it the one with the fewest digits is written, and of those the nearest:
for each count of digits the two neighbours on the grid of decimals with that many digits are tested
in exact arithmetic. An integer may stand between blanks, may have a sign, and may have single
underscores between its digits, which may be those of any script.
-/
namespace CommandShell

/-- `finite negative m e` is `m * 2 ^ e` with its sign; `m` has at most 53 bits, and fewer only at
the least exponent, `-1074`. -/
inductive Binary64 where
  | finite (negative : Bool) (mantissa : Nat) (exponent : Int)
  | infinite (negative : Bool)
  | undefined
  deriving DecidableEq, Repr

namespace Binary64

def leastExponent : Int := -1074
def greatestExponent : Int := 971

def roundedQuotient (num den : Nat) : Nat :=
  let q := num / den
  let r := num % den
  if 2 * r < den then q else if den < 2 * r then q + 1 else q + q % 2

def fullMantissa : Nat := 0x10000000000000

def scaled (base num den : Nat) (e : Int) : Nat × Nat :=
  if 0 ≤ e then (num, den * Nat.pow base e.toNat) else (num * Nat.pow base (-e).toNat, den)

def ofQuotient (negative : Bool) (num den : Nat) : Binary64 :=
  let guess : Int := (num.log2 : Int) - den.log2 - 52
  let (a, b) := scaled 2 num den guess
  let e := max leastExponent (if a < b * fullMantissa then guess - 1 else guess)
  let (a, b) := scaled 2 num den e
  let m := roundedQuotient a b
  let (m, e) := if m = 2 * fullMantissa then (fullMantissa, e + 1) else (m, e)
  if greatestExponent < e then infinite negative else finite negative m e

/-- The number nearest to `digits * 10 ^ exponent`. Powers far outside the format are not
computed. -/
def ofDecimal (negative : Bool) (digits : Nat) (exponent : Int) : Binary64 :=
  let magnitude := (Nat.toDigits 10 digits).length + exponent
  if digits = 0 ∨ magnitude < -330 then finite negative 0 leastExponent
  else if 310 < magnitude then infinite negative
  else if 0 ≤ exponent then ofQuotient negative (digits * Nat.pow 10 exponent.toNat) 1
  else ofQuotient negative digits (Nat.pow 10 (-exponent).toNat)

def isZero : Binary64 → Bool
  | finite _ m _ => m == 0
  | _ => false

structure Decimal where
  digits : Nat
  exponent : Int
  deriving DecidableEq, Repr

def magnitudeTen (num den : Nat) : Int :=
  if den ≤ num then (Nat.toDigits 10 (num / den)).length
  else
    let k : Int := 1 - (Nat.toDigits 10 (den / num)).length
    let (a, b) := scaled 10 num den k
    if b ≤ a then k + 1 else k

/-- The numbers that round to `mantissa * 2 ^ exponent`, as the ends of an interval in quarters of
the last place; the gap below a power of two is half of the gap above it. -/
def rounding (mantissa : Nat) (exponent : Int) : Nat × Nat :=
  let below := if mantissa = fullMantissa ∧ leastExponent < exponent then 1 else 2
  (4 * mantissa - below, 4 * mantissa + 2)

def candidate? (mantissa : Nat) (exponent : Int) (count : Nat) : Option Decimal :=
  let (num, den) := scaled 2 (4 * mantissa) 1 (-(exponent - 2))
  let place := magnitudeTen num den - count
  let (a, b) := scaled 10 num den place
  let low := a / b
  let (lowest, highest) := rounding mantissa exponent
  -- `d` on the grid reads back when `d * b / a` times the number lies in the interval
  let readsBack (d : Nat) : Bool :=
    let x := d * b * (4 * mantissa)
    if mantissa % 2 = 0 then lowest * a ≤ x && x ≤ highest * a
    else lowest * a < x && x < highest * a
  let pick (d : Nat) : Option Decimal := some ⟨d, place⟩
  match readsBack low, readsBack (low + 1) with
  | true, true =>
    let below := a - low * b
    let above := (low + 1) * b - a
    if below < above then pick low else if above < below then pick (low + 1)
    else pick (low + low % 2)
  | true, false => pick low
  | false, true => pick (low + 1)
  | false, false => none

/-- The shortest decimal of a positive number; 17 digits always suffice. -/
def shortest (mantissa : Nat) (exponent : Int) : Decimal :=
  ((List.range 17).findSome? fun n => candidate? mantissa exponent (n + 1)).getD ⟨mantissa, exponent⟩

/-- Where positional notation gives way to an exponent: the decimal point stands at most three zeros
before the first digit and at most sixteen places after it. -/
def isPositional (point : Int) : Bool :=
  -4 < point && point ≤ 16

/-- A positive decimal in characters. There is always a point or an exponent, and an exponent has a
sign and at least two digits. -/
def Decimal.display (d : Decimal) : String :=
  let all := Nat.toDigits 10 d.digits
  let point := all.length + d.exponent
  let kept := (all.reverse.dropWhile (· == '0')).reverse
  let digits :=
    if isPositional point then
      if point ≤ 0 then '0' :: '.' :: List.replicate (-point).toNat '0' ++ kept
      else if kept.length ≤ point.toNat then
        kept ++ List.replicate (point.toNat - kept.length) '0' ++ ['.', '0']
      else kept.take point.toNat ++ '.' :: kept.drop point.toNat
    else
      let power := Nat.toDigits 10 (point - 1).natAbs
      kept.take 1 ++ (if kept.length ≤ 1 then [] else '.' :: kept.drop 1) ++
        ['e', if point - 1 < 0 then '-' else '+'] ++
        (if power.length < 2 then '0' :: power else power)
  String.ofList digits

def display : Binary64 → String
  | undefined => "nan"
  | infinite negative => if negative then "-inf" else "inf"
  | finite negative m e =>
    (if negative then "-" else "") ++ if m = 0 then "0.0" else (shortest m e).display

end Binary64

namespace Integer

def digitLimit : Nat := 4300

/-- The blanks that may surround a number: those of ASCII, and any other from the end of ASCII on.
The information separators, which also separate words, are not among them. -/
def isPadding (c : Char) : Bool :=
  Text.isAsciiSpace c || (127 ≤ c.toNat && Text.isBlank c)

def digits? : List Char → Option (List Nat)
  | [] => none
  | c :: r =>
    match Text.digitValue? c, r with
    | none, _ => none
    | some d, [] => some [d]
    | some d, '_' :: r => (digits? r).map (d :: ·)
    | some d, r => (digits? r).map (d :: ·)

def ofDigits (ds : List Nat) : Nat :=
  ds.foldl (fun n d => 10 * n + d) 0

def natural? (cs : List Char) : Option Nat :=
  match digits? cs with
  | some ds => if ds.length ≤ digitLimit then some (ofDigits ds) else none
  | none => none

def signed? : List Char → Option Int
  | '-' :: r => (natural? r).map fun n => -(n : Int)
  | '+' :: r => (natural? r).map Int.ofNat
  | cs => (natural? cs).map Int.ofNat

def ofText? (s : String) : Option Int :=
  signed? (Text.dropEnd isPadding (s.toList.dropWhile isPadding))

end Integer

end CommandShell
