import CommandShell.Failure
import CommandShell.Path
import CommandShell.Value

/-! # File systems

A file system maps locations to nodes. A location is the way from the root, and the root is always a
directory. A lookup takes the components of a path one by one: before each of them the directory
reached so far must exist and be searchable; `..` goes to the directory above the one reached,
however it was reached; a link is replaced by its text. The real path of a path is found by text
instead as far as the file system does not answer: a component that does not exist is kept, and so
is a link that leads back to itself, with everything after it.
-/
namespace CommandShell

/-- The names on the way from the root, the innermost one first. -/
abbrev Location := List String

namespace Location

def text (l : Location) : String :=
  Path.text ⟨true, l.reverse⟩

def ofText (s : String) : Location :=
  (Path.names s).reverse

def isWithin (l top : Location) : Bool :=
  l.drop (l.length - top.length) = top

end Location

structure Permissions where
  read : Bool := true
  write : Bool := true
  execute : Bool := true
  deriving DecidableEq, Repr

def Permissions.plain : Permissions := { execute := false }

structure Program where
  output : String := ""
  diagnostics : String := ""
  showsCall : Bool := false
  status : Int := 0
  interrupts : Bool := false
  deriving DecidableEq, Repr

inductive Node where
  | directory (p : Permissions)
  | file (p : Permissions) (content : ByteArray) (program : Option Program)
  | link (target : String)

structure FileSystem where
  root : Permissions := {}
  nodes : Table Location Node := []

namespace FileSystem

def node? (fs : FileSystem) (l : Location) : Option Node :=
  match l with
  | [] => some (.directory fs.root)
  | _ :: _ => fs.nodes.get? l

/-- Puts a node at a location; the root takes only the permissions of a directory. -/
def set (fs : FileSystem) (l : Location) (n : Node) : FileSystem :=
  match l, n with
  | [], .directory p => { fs with root := p }
  | [], _ => fs
  | _ :: _, n => { fs with nodes := fs.nodes.put l n }

def erase (fs : FileSystem) (l : Location) : FileSystem :=
  { fs with nodes := fs.nodes.filter fun m => !m.1.isWithin l }

def ensureDirectory (fs : FileSystem) : Location → FileSystem
  | [] => fs
  | name :: above =>
    let fs := fs.ensureDirectory above
    if (fs.node? (name :: above)).isSome then fs else fs.set (name :: above) (.directory {})

/-- Adds a node in place of whatever has its name. A directory that is there already keeps its
entries and takes the new permissions. -/
def add (fs : FileSystem) (l : Location) (n : Node) : FileSystem :=
  let fs := fs.ensureDirectory l.tail
  match n, fs.node? l with
  | .directory p, some (.directory _) => fs.set l (.directory p)
  | n, _ => (fs.erase l).set l n

theorem node?_set {l : Location} (hl : l ≠ []) (fs : FileSystem) (n : Node) (other : Location) :
    (fs.set l n).node? other = if l = other then some n else fs.node? other := by
  match l, hl with
  | name :: above, _ =>
    match other with
    | [] => simp [set, node?]
    | _ :: _ => simp only [set, node?, Table.get?_put]

theorem node?_root (fs : FileSystem) : fs.node? [] = some (.directory fs.root) := rfl

def linkLimit : Nat := 40
def nameLimit : Nat := 255
def pathLimit : Nat := 4095

inductive Destination where
  | existing (l : Location)
  | free (directory : Location) (name : String)
  deriving DecidableEq, Repr

inductive Progress where
  | done (d : Destination)
  | atLink (directory : Location) (target : String) (rest : List String)
  deriving DecidableEq, Repr

def obstacle? (fs : FileSystem) (l : Location) : Option SystemError :=
  match fs.node? l with
  | some (.directory p) => if p.execute then none else some .permissionDenied
  | some _ => some .notDirectory
  | none => some .notFound

/-- Takes components up to their end or to a link that is to be followed. A link that is the last
component is followed only if `followLast` says so. -/
def advance (fs : FileSystem) (followLast : Bool) (l : Location) :
    List String → Except SystemError Progress
  | [] => .ok (.done (.existing l))
  | c :: cs =>
    match fs.obstacle? l with
    | some e => .error e
    | none =>
      if c = "." then advance fs followLast l cs
      else if c = ".." then advance fs followLast l.tail cs
      else if nameLimit < c.utf8ByteSize then .error .nameTooLong
      else
        match fs.node? (c :: l) with
        | none => if cs.isEmpty then .ok (.done (.free l c)) else .error .notFound
        | some (.link target) =>
          if cs.isEmpty && !followLast then .ok (.done (.existing (c :: l)))
          else .ok (.atLink l target cs)
        | some _ => advance fs followLast (c :: l) cs

/-- Takes components to their end, following at most `links` links. Of the text of a link its names
alone count: a slash at its end does not ask for a directory, as one at the end of a path does. -/
def walk (fs : FileSystem) (followLast : Bool) :
    (links : Nat) → Location → List String → Except SystemError Destination
  | links, l, cs =>
    match advance fs followLast l cs, links with
    | .error e, _ => .error e
    | .ok (.done d), _ => .ok d
    | .ok (.atLink _ _ _), 0 => .error .linkLoop
    | .ok (.atLink directory target rest), links + 1 =>
      walk fs followLast links (if Path.startsAtRoot target then [] else directory)
        (Path.names target ++ rest)

def hasNul (s : String) : Bool :=
  s.toList.contains '\x00'

def endsWithSlash (s : String) : Bool :=
  s.toList.getLast? == some '/'

def componentsFrom (processDir path : String) : List String :=
  if Path.startsAtRoot path then Path.names path else Path.names processDir ++ Path.names path

def isDirectoryAt (fs : FileSystem) (l : Location) : Bool :=
  match fs.node? l with
  | some (.directory _) => true
  | _ => false

/-- The destination of a path without the character zero. A slash at the end asks for a directory,
and for this a link at the end is followed. -/
def find (fs : FileSystem) (processDir path : String) (followLast : Bool := true) :
    Except SystemError Destination :=
  if path = "" then .error .notFound
  else if pathLimit < path.utf8ByteSize then .error .nameTooLong
  else
    match walk fs (followLast || endsWithSlash path) linkLimit [] (componentsFrom processDir path) with
    | .error e => .error e
    | .ok (.free directory name) => .ok (.free directory name)
    | .ok (.existing l) =>
      if endsWithSlash path && !fs.isDirectoryAt l then .error .notDirectory else .ok (.existing l)

def lookup (fs : FileSystem) (processDir path : String) (followLast : Bool := true) :
    Except Fault Destination :=
  if hasNul path then .error .nulCharacter
  else (fs.find processDir path followLast).mapError fun e => .system e path

def locate (fs : FileSystem) (processDir path : String) (followLast : Bool := true) :
    Except Fault Location :=
  match fs.lookup processDir path followLast with
  | .error e => .error e
  | .ok (.existing l) => .ok l
  | .ok (.free _ _) => .error (.system .notFound path)

structure Trail where
  absolute : Bool
  names : List String := []
  deriving DecidableEq, Repr

namespace Trail

def text (t : Trail) : String :=
  Path.text ⟨t.absolute, t.names.reverse⟩

def enter (t : Trail) (name : String) : Trail :=
  { t with names := name :: t.names }

def leave (t : Trail) : Trail :=
  { t with names := Path.step t.absolute t.names ".." }

end Trail

inductive Resolution where
  | resolved (t : Trail)
  | looping (text : String)
  deriving DecidableEq, Repr

/-- The links met so far by their paths, the latest first. A link whose resolution has begun and not
ended has no trail. -/
abbrev LinksSeen := Table String (Option Trail)

/-- The text of a link, if a path names one. What the system refuses is no link; only the character
zero ends the search. -/
def linkText? (fs : FileSystem) (processDir path : String) : Except Fault (Option String) :=
  match fs.locate processDir path false with
  | .ok l =>
    match fs.node? l with
    | some (.link target) => .ok (some target)
    | _ => .ok none
  | .error (.system _ _) => .ok none
  | .error f => .error f

def along (fs : FileSystem) (processDir : String)
    (resolveLink : LinksSeen → Trail → String → Except Fault (Resolution × LinksSeen)) :
    LinksSeen → Trail → List String → Except Fault (Resolution × LinksSeen)
  | seen, t, [] => .ok (.resolved t, seen)
  | seen, t, c :: rest =>
    if c = "" ∨ c = "." then along fs processDir resolveLink seen t rest
    else if c = ".." then along fs processDir resolveLink seen t.leave rest
    else
      let next := t.enter c
      match fs.linkText? processDir next.text with
      | .error f => .error f
      | .ok none => along fs processDir resolveLink seen next rest
      | .ok (some target) =>
        match seen.get? next.text with
        | some (some known) => along fs processDir resolveLink seen known rest
        | some none => .ok (.looping (Path.Posix.join next.text (Text.joined "/" rest)), seen)
        | none =>
          match resolveLink ((next.text, none) :: seen) t target with
          | .error f => .error f
          | .ok (.looping s, seen) =>
            .ok (.looping (Path.Posix.join s (Text.joined "/" rest)), seen)
          | .ok (.resolved known, seen) =>
            along fs processDir resolveLink ((next.text, some known) :: seen) known rest

def nestingLimit : Nat := 950

def resolveFrom (fs : FileSystem) (processDir : String) :
    (depth : Nat) → LinksSeen → Trail → String → Except Fault (Resolution × LinksSeen)
  | 0, _, _, _ => .error .tooDeep
  | depth + 1, seen, t, path =>
    along fs processDir (resolveFrom fs processDir depth) seen
      (if Path.startsAtRoot path then ⟨true, []⟩ else t) (Text.pieces '/' path)

def realPath (fs : FileSystem) (processDir path : String) : Except Fault String := do
  let (r, _) ← resolveFrom fs processDir nestingLimit [] ⟨false, []⟩ path
  let text := match r with
    | .resolved t => if t.names.isEmpty && !t.absolute then "" else t.text
    | .looping s => s
  return Path.Posix.normal (Path.Posix.join processDir text)

end FileSystem

end CommandShell
