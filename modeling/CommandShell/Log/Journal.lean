import CommandShell.FileSystem.Changes
import CommandShell.Log.Record
import CommandShell.Path

/-! # Where records go

A journal has a threshold of its own and sinks, each with its own threshold: buffers, the console
and files. A buffer keeps the latest records. Setting a journal up adds a buffer, and on demand the
console and a file, in this order; the directories on the way to the file are made as far as they
are missing. If the file cannot be opened, what was done before remains.
-/
namespace CommandShell.Log

/-- What remains of a list from the place on that is `n` from its end. For `n` up to zero the place
is `-n` from its front. -/
def lastPart (n : Int) (xs : List α) : List α :=
  if 0 < n then xs.drop (xs.length - n.toNat) else xs.drop (-n).toNat

structure Buffer where
  bound : Int := 1000
  records : List Record := []

namespace Buffer

def push (b : Buffer) (r : Record) : Buffer :=
  let records := b.records ++ [r]
  { b with records := if b.bound < records.length then lastPart b.bound records else records }

def clear (b : Buffer) : Buffer :=
  { b with records := [] }

def passes (filter : Option String) (value : Option String) : Bool :=
  match filter with
  | none => true
  | some f => f == "" || value == some f

def get (b : Buffer) (level origin : Option String := none) (limit : Int := 100) : List Record :=
  lastPart limit (b.records.filter fun r =>
    passes level (some (Level.name r.level)) && passes origin r.origin)

end Buffer

inductive Sink where
  | buffer (threshold : Level) (b : Buffer)
  | console (threshold : Level) (layout : Layout)
  | file (threshold : Level) (place : Location)

namespace Sink

def keep (r : Record) : Sink → Sink
  | buffer t b => buffer t (if t ≤ r.level then b.push r else b)
  | s => s

def consoleLine? (r : Record) : Sink → Option String
  | console t layout => if t ≤ r.level then some (layout.text r ++ "\n") else none
  | _ => none

def write (r : Record) (fs : FileSystem) : Sink → FileSystem
  | file t place =>
    if t ≤ r.level then fs.append place (Layout.text {} r ++ "\n").toUTF8 else fs
  | _ => fs

def clear : Sink → Sink
  | buffer t b => buffer t b.clear
  | s => s

def buffer? : Sink → Option Buffer
  | buffer _ b => some b
  | _ => none

end Sink

structure Journal where
  threshold : Level := 0
  sinks : List Sink := []
  ready : Bool := false

namespace Journal

/-- Whether records of a level are taken. As long as no threshold is set, that of warnings
counts. -/
def takes (j : Journal) (level : Level) : Bool :=
  (if j.threshold = 0 then Level.warning else j.threshold) ≤ level

def get (j : Journal) (level origin : Option String := none) (limit : Int := 100) : List Record :=
  match j.sinks.reverse.findSome? Sink.buffer? with
  | some b => b.get level origin limit
  | none => []

def keep (j : Journal) (r : Record) : Journal :=
  if j.takes r.level then { j with sinks := j.sinks.map (Sink.keep r) } else j

def clear (j : Journal) : Journal :=
  { j with sinks := j.sinks.map Sink.clear }

def consoleLines (j : Journal) (r : Record) : List String :=
  if j.takes r.level then j.sinks.filterMap (Sink.consoleLine? r) else []

def write (j : Journal) (r : Record) (fs : FileSystem) : FileSystem :=
  if j.takes r.level then j.sinks.foldl (Sink.write r) fs else fs

/-- The parts of setting up that cannot fail. -/
def addSinks (j : Journal) (level : Level) (console : Option Layout) : Journal :=
  { j with
    threshold := level
    sinks := j.sinks ++ [.buffer level {}] ++ (console.map (Sink.console level)).toList }

abbrev Opening := FileSystem → Except Fault Location × FileSystem

def start (j : Journal) (level : Level) (console : Option Layout) (opening : Option Opening)
    (fs : FileSystem) : Except Fault Unit × Journal × FileSystem :=
  if j.ready then (.ok (), j, fs)
  else
    let j := j.addSinks level console
    match opening with
    | none => (.ok (), { j with ready := true }, fs)
    | some action =>
      match action fs with
      | (.ok place, fs) =>
        (.ok (), { j with sinks := j.sinks ++ [.file level place], ready := true }, fs)
      | (.error e, fs) => (.error e, j, fs)

end Journal

structure Spelling where
  root : Nat
  names : List String
  deriving DecidableEq, Repr

namespace Spelling

def ofText (s : String) : Spelling :=
  ⟨Path.Posix.rootSlashes s.toList,
    ((Text.pieces '/' s).filter fun c => c ≠ "" ∧ c ≠ ".").reverse⟩

def text (p : Spelling) : String :=
  let t := String.ofList (List.replicate p.root '/') ++ Text.joined "/" p.names.reverse
  if t = "" then "." else t

/-- The directory that a path is in; the root and the empty path are in themselves. -/
def above (p : Spelling) : Spelling :=
  { p with names := p.names.tail }

end Spelling

def homeOf (home : String) : String :=
  let h := Path.withoutEndSlashes home
  if h = "" then "/" else h

/-- The path with the home directory in place of a first component `~`. Homes of other users are not
known. -/
def expandUser (home : Option String) (path : String) : Except Fault Spelling :=
  let p := Spelling.ofText path
  if p.root = 0 ∧ (p.names.reverse.headD "").toList.head? = some '~' then
    match p.names.reverse, home with
    | "~" :: rest, some h =>
      let h := homeOf h
      if h.toList.head? = some '~' then .error .noHome
      else
        let h := Spelling.ofText h
        .ok { h with names := rest.reverse ++ h.names }
    | _, _ => .error .noHome
  else .ok p

def excuse (fs : FileSystem) (processDir : String) (path : String) (f : Fault) :
    Except Fault Unit :=
  match f with
  | .system _ _ =>
    match fs.locate processDir path with
    | .ok l => if fs.isDirectoryAt l then .ok () else .error f
    | .error (.system e p) =>
      match e with
      | .notFound | .notDirectory | .linkLoop => .error f
      | _ => .error (.system e p)
    | .error g => .error g
  | f => .error f

def makeOne (fs : FileSystem) (processDir : String) (p : Spelling) :
    Except Fault Unit × FileSystem :=
  match fs.makeDirectory processDir p.text with
  | .ok fs => (.ok (), fs)
  | .error (.system .notFound path) => (.error (.system .notFound path), fs)
  | .error f => (excuse fs processDir p.text f, fs)

def makeAll (fs : FileSystem) (processDir : String) (root : Nat) :
    List String → Except Fault Unit × FileSystem
  | [] => makeOne fs processDir ⟨root, []⟩
  | name :: above =>
    match makeOne fs processDir ⟨root, name :: above⟩ with
    | (.error (.system .notFound _), _) =>
      match makeAll fs processDir root above with
      | (.ok (), fs) => makeOne fs processDir ⟨root, name :: above⟩
      | r => r
    | r => r

def openFile (processDir : String) (home : Option String) (path : String) : Journal.Opening :=
  fun fs =>
    match expandUser home path with
    | .error f => (.error f, fs)
    | .ok p =>
      match makeAll fs processDir p.root p.above.names with
      | (.error f, fs) => (.error f, fs)
      | (.ok (), fs) =>
        let full := Path.Posix.normal (Path.Posix.join processDir p.text)
        match fs.openForWriting processDir full true with
        | .ok (place, fs) => (.ok place, fs)
        | .error f => (.error f, fs)

end CommandShell.Log
