import CommandShell.FileSystem

/-! # Reading and changing files

Opening a file for writing makes it if its name is free and its directory may be written; the file
stays open at its location, and what is written goes to the end of it.
-/
namespace CommandShell.FileSystem

variable (fs : FileSystem) (processDir path : String)

def reached? : Option Node :=
  match fs.locate processDir path with
  | .ok l => fs.node? l
  | .error _ => none

def isFile : Bool :=
  match fs.reached? processDir path with
  | some (.file ..) => true
  | _ => false

def isDirectory : Bool :=
  match fs.reached? processDir path with
  | some (.directory _) => true
  | _ => false

def mayExecute : Bool :=
  match fs.reached? processDir path with
  | some (.file p ..) | some (.directory p) => p.execute
  | _ => false

def plainLineEnds : List Char → List Char
  | '\r' :: '\n' :: cs => '\n' :: plainLineEnds cs
  | '\r' :: cs => '\n' :: plainLineEnds cs
  | c :: cs => c :: plainLineEnds cs
  | [] => []

theorem plainLineEnds_cons {c : Char} {cs : List Char} (hc : c ≠ '\r') :
    plainLineEnds (c :: cs) = c :: plainLineEnds cs := by
  rw [plainLineEnds]
  · rintro cs' rfl
    exact absurd rfl hc
  · rintro rfl
    exact absurd rfl hc

theorem plainLineEnds_eq_self {cs : List Char} (h : '\r' ∉ cs) : plainLineEnds cs = cs := by
  induction cs with
  | nil => rfl
  | cons c cs ih =>
    rw [plainLineEnds_cons (Ne.symm (List.ne_of_not_mem_cons h)),
      ih (List.not_mem_of_not_mem_cons h)]

theorem ofList_plainLineEnds {s : String} (h : '\r' ∉ s.toList) :
    String.ofList (plainLineEnds s.toList) = s := by
  rw [plainLineEnds_eq_self h, String.ofList_toList]

/-- Two texts keep their line ends apart, unless one is cut in its middle. -/
theorem plainLineEnds_append {cs rest : List Char}
    (h : cs.getLast? ≠ some '\r' ∨ rest.head? ≠ some '\n') :
    plainLineEnds (cs ++ rest) = plainLineEnds cs ++ plainLineEnds rest := by
  fun_induction plainLineEnds cs with
  | case1 cs ih =>
    have hrest : cs.getLast? ≠ some '\r' ∨ rest.head? ≠ some '\n' := by
      refine h.imp_left fun hlast hcs => hlast ?_
      simp [List.getLast?_cons, hcs]
    simp only [List.cons_append, plainLineEnds, ih hrest]
  | case2 cs hne ih =>
    have hrest : cs.getLast? ≠ some '\r' ∨ rest.head? ≠ some '\n' := by
      refine h.imp_left fun hlast hcs => hlast ?_
      simp [List.getLast?_cons, hcs]
    have hnext : ∀ r, cs ++ rest = '\n' :: r → False := by
      intro r hr
      cases cs with
      | nil => simp_all
      | cons c cs => exact hne cs (by simpa using (List.cons.inj hr).1)
    rw [List.cons_append, plainLineEnds, ih hrest, List.cons_append]
    exact hnext
  | case3 c cs _ hc ih =>
    have hrest : cs.getLast? ≠ some '\r' ∨ rest.head? ≠ some '\n' := by
      refine h.imp_left fun hlast hcs => hlast ?_
      simp [List.getLast?_cons, hcs]
    rw [List.cons_append, plainLineEnds_cons hc, ih hrest, List.cons_append]
  | case4 => rfl

def readBytes : Except Fault ByteArray :=
  match fs.locate processDir path with
  | .error e => .error e
  | .ok l =>
    match fs.node? l with
    | some (.file p content _) =>
      if p.read then .ok content else .error (.system .permissionDenied path)
    | some (.directory p) =>
      .error (.system (if p.read then .isDirectory else .permissionDenied) path)
    | _ => .error (.system .notFound path)

def readText : Except Fault String :=
  match fs.readBytes processDir path with
  | .error e => .error e
  | .ok bytes =>
    match String.fromUTF8? bytes with
    | some s => .ok (String.ofList (plainLineEnds s.toList))
    | none => .error .notText

def append (l : Location) (bytes : ByteArray) : FileSystem :=
  match fs.node? l with
  | some (.file p content program) => fs.set l (.file p (content ++ bytes) program)
  | _ => fs

theorem node?_append {l other : Location} (fs : FileSystem) (bytes : ByteArray) (h : other ≠ l) :
    (fs.append l bytes).node? other = fs.node? other := by
  unfold append
  split
  · next p content program found =>
    have hl : l ≠ [] := by
      rintro rfl
      simp [node?_root] at found
    simp [node?_set hl, Ne.symm h]
  · rfl

def aboveEndSlash (path : String) : String :=
  let cs := Text.dropEnd (· ≠ '/') (Text.dropEnd (· == '/') path.toList)
  if cs.isEmpty then "." else String.ofList cs

def refusalAtEndSlash : SystemError :=
  if path.utf8ByteSize > pathLimit then .nameTooLong
  else if Path.names path = [] then .isDirectory
  else
    match fs.find processDir (aboveEndSlash path) with
    | .error e => e
    | .ok (.free _ _) => .notFound
    | .ok (.existing l) => (fs.obstacle? l).getD .isDirectory

def openAt (append : Bool) : Destination → Except SystemError (Location × FileSystem)
  | .free directory name =>
    match fs.node? directory with
    | some (.directory p) =>
      if p.write then
        .ok (name :: directory, fs.set (name :: directory) (.file .plain .empty none))
      else .error .permissionDenied
    | _ => .error .notDirectory
  | .existing l =>
    match fs.node? l with
    | some (.file p _ program) =>
      if p.write then .ok (l, if append then fs else fs.set l (.file p .empty program))
      else .error .permissionDenied
    | _ => .error .isDirectory

def openForWriting (append : Bool) : Except Fault (Location × FileSystem) :=
  if hasNul path then .error .nulCharacter
  else if endsWithSlash path then
    .error (.system (fs.refusalAtEndSlash processDir path) path)
  else
    match fs.find processDir path with
    | .error e => .error (.system e path)
    | .ok d => (fs.openAt append d).mapError fun e => .system e path

def makeDirectory : Except Fault FileSystem :=
  match fs.lookup processDir path false with
  | .error e => .error e
  | .ok (.existing _) => .error (.system .alreadyExists path)
  | .ok (.free directory name) =>
    match fs.node? directory with
    | some (.directory p) =>
      if p.write then .ok (fs.set (name :: directory) (.directory {}))
      else .error (.system .permissionDenied path)
    | _ => .error (.system .notDirectory path)

def files (fs : FileSystem) : Table String ByteArray :=
  (fs.nodes.filterMap fun (l, n) => match n with
    | .file _ content _ => some (l.text, content)
    | _ => none).mergeSort fun a b => a.1 ≤ b.1

def changes (before after : FileSystem) : Table String ByteArray × List String :=
  let old := before.files
  let new := after.files
  (new.filter fun (path, content) => old.get? path != some content,
    (old.filter fun (path, _) => (new.get? path).isNone).map (·.1))

end CommandShell.FileSystem
