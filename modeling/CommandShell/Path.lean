import CommandShell.Text

/-! # Paths

A path is absolute or relative and has components; empty components and `.` say nothing and are
dropped when it is read. The tidy form of a path also resolves `..`, by the text alone: a `..` takes
away the component before it, stays at the root, and remains only at the front of a relative path.
The rules of POSIX differ from these in one point: exactly two slashes at the front are kept,
because POSIX leaves their meaning open.
-/
namespace CommandShell

structure Path where
  absolute : Bool
  components : List String
  deriving DecidableEq, Repr

namespace Path

def startsAtRoot (s : String) : Bool :=
  s.toList.head? == some '/'

def names (s : String) : List String :=
  (Text.pieces '/' s).filter (· ≠ "")

def ofText (s : String) : Path :=
  ⟨startsAtRoot s, (names s).filter (· ≠ ".")⟩

def text (p : Path) : String :=
  if p.absolute then "/" ++ Text.joined "/" p.components
  else if p.components.isEmpty then "." else Text.joined "/" p.components

def step (absolute : Bool) (before : List String) (c : String) : List String :=
  match before with
  | top :: rest =>
    if c = ".." then if top ≠ ".." then rest else if absolute then before else c :: before
    else c :: before
  | [] => if c = ".." ∧ absolute then [] else [c]

def reduced (p : Path) : Path :=
  { p with components := (p.components.foldl (step p.absolute) []).reverse }

def tidy (s : String) : String :=
  (ofText s).reduced.text

def withoutEndSlashes (s : String) : String :=
  String.ofList (Text.dropEnd (· == '/') s.toList)

def resolve (s dir : String) : String :=
  if startsAtRoot s then tidy s else tidy (withoutEndSlashes dir ++ "/" ++ s)

theorem startsAtRoot_text {p : Path} (h : p.absolute = true) : startsAtRoot p.text = true := by
  simp [startsAtRoot, text, h]

theorem startsAtRoot_tidy {s : String} (h : startsAtRoot s = true) :
    startsAtRoot (tidy s) = true := by
  apply startsAtRoot_text
  exact h

/-- The slash before what follows takes the place of those at the end of the directory, so that the
root, too, is spelled out. -/
theorem startsAtRoot_below {dir : String} (s : String) (h : startsAtRoot dir = true) :
    startsAtRoot (withoutEndSlashes dir ++ "/" ++ s) = true := by
  obtain ⟨r, hr⟩ := Text.dropEnd_prefix (· == '/') dir.toList
  simp only [startsAtRoot, beq_iff_eq] at h ⊢
  rw [← hr] at h
  cases hd : Text.dropEnd (· == '/') dir.toList with
  | nil => simp [withoutEndSlashes, hd]
  | cons c cs =>
    rw [hd] at h
    simpa [withoutEndSlashes, hd] using h

theorem startsAtRoot_resolve {dir : String} (s : String) (h : startsAtRoot dir = true) :
    startsAtRoot (resolve s dir) = true := by
  unfold resolve
  split
  · next hs => exact startsAtRoot_tidy hs
  · exact startsAtRoot_tidy (startsAtRoot_below s h)

def expandHome (s home : String) : String :=
  match s.toList with
  | ['~'] => home
  | '~' :: '/' :: rest => withoutEndSlashes home ++ "/" ++ String.ofList rest
  | _ => s

end Path

namespace Path.Posix

def join (dir s : String) : String :=
  if startsAtRoot s then s
  else if dir = "" ∨ dir.toList.getLast? = some '/' then dir ++ s
  else dir ++ "/" ++ s

/-- How many slashes at the front of a path count: none, one, or exactly two. -/
def rootSlashes : List Char → Nat
  | '/' :: '/' :: '/' :: _ => 1
  | '/' :: '/' :: _ => 2
  | '/' :: _ => 1
  | _ => 0

def keeps (root : Nat) (before : List String) (c : String) : Bool :=
  c != ".." || (root == 0 && before.isEmpty) || before.head? == some ".."

def simplified (root : Nat) : List String → List String → List String
  | before, [] => before
  | before, c :: cs =>
    if c = "" ∨ c = "." then simplified root before cs
    else if keeps root before c then simplified root (c :: before) cs
    else simplified root before.tail cs

def normal (s : String) : String :=
  let root := rootSlashes s.toList
  let kept := (simplified root [] (Text.pieces '/' s)).reverse
  let result := String.ofList (List.replicate root '/') ++ Text.joined "/" kept
  if result = "" then "." else result

/-- The path without empty components and dots. Every `..` stays, because it may follow a link. -/
def compact (s : String) : String :=
  let kept := (Text.pieces '/' s).filter fun c => c ≠ "" ∧ c ≠ "."
  let result := String.ofList (List.replicate (rootSlashes s.toList) '/') ++ Text.joined "/" kept
  if result = "" then "." else result

def absoluteFrom (dir s : String) : String :=
  if startsAtRoot s then s else normal (join dir s)

end Path.Posix

end CommandShell
