import CommandShell.Proofs.Builtin
import CommandShell.Proofs.FileSystem.Opening
import CommandShell.Proofs.FileSystem.Spelled

/-! # File systems without links

Where there are no links, a lookup comes to the place that the text of its path spells, so it may as
well be given the text of that place: every name that the text keeps was passed on the way, the
directories above the place could be searched, and the text is no longer than the path. So `cd`,
redirections and the search for programs, which all simplify a path first, mean by it what the
system means. -/
namespace CommandShell

open FileSystem (hasNul endsWithSlash pathLimit)

namespace FileSystem

def Unlinked (fs : FileSystem) : Prop :=
  ∀ l target, fs.node? l ≠ some (.link target)

/-- A destination at the end of a way: a node that is there, or a name that is free. -/
inductive Stands (fs : FileSystem) : Destination → Prop where
  | existing {l node} : fs.Way l → fs.node? l = some node → Stands fs (.existing l)
  | free {directory name} : fs.Way (name :: directory) → fs.node? (name :: directory) = none →
      Stands fs (.free directory name)

variable {fs : FileSystem} {followLast : Bool} {processDir path other : String}

theorem stands_of_leads {n : Nat} {l : Location} {e : Destination} {cs : List String} {node : Node}
    (hl : fs.Way l) (hnode : fs.node? l = some node) (hc : AreComponents cs)
    (h : fs.Leads followLast n l cs e) : fs.Stands e := by
  induction h generalizing node with
  | here => exact .existing hl hnode
  | dot _ _ ih => exact ih hl hnode hc.tail
  | @up n l cs e ho _ ih =>
    have hdir := hl.directory_of_suffix (isDirectoryAt_of_clear ho) (List.tail_suffix l)
    obtain ⟨p, hp⟩ := isDirectoryAt_iff.mp hdir
    exact ih hl.tail hp hc.tail
  | enter ht hentry _ _ ih => exact ih (ht.way hc hl) hentry hc.tail
  | free ht hfree => exact .free (ht.way hc hl) hfree
  | last ht hlink _ => exact .existing (ht.way hc hl) hlink
  | @link n l c cs e target ht _ _ _ ih =>
    have hstart : ∃ m, fs.node? (linkStart l target) = some m := by
      unfold linkStart
      split
      · exact ⟨_, node?_root fs⟩
      · exact ⟨_, hnode⟩
    obtain ⟨m, hm⟩ := hstart
    exact ih (hl.linkStart target) hm ((areComponents_names target).append hc.tail)

theorem stands_of_find {e : Destination} (h : fs.find processDir path = .ok e) : fs.Stands e := by
  obtain ⟨-, -, ⟨n, -, walk⟩, -⟩ := find_eq_ok_iff.mp h
  exact stands_of_leads .root (node?_root fs) (areComponents_componentsFrom processDir path) walk

/-- Without links the place that a walk comes to does not depend on the file system. -/
theorem Unlinked.place_of_leads (hfs : fs.Unlinked) {n : Nat} {l : Location} {e : Destination}
    {cs : List String} (hc : AreComponents cs) (h : fs.Leads followLast n l cs e) :
    e.place = cs.foldl Location.move l := by
  induction h with
  | here => rfl
  | dot _ _ ih => exact ih hc.tail
  | up _ _ ih => exact ih hc.tail
  | enter ht _ _ _ ih =>
    rw [List.foldl_cons, Location.move_of_name (ht.isName hc)]
    exact ih hc.tail
  | free ht _ =>
    rw [List.foldl_cons, Location.move_of_name (ht.isName hc)]
    rfl
  | last _ hlink _ => exact absurd hlink (hfs _ _)
  | link _ hlink _ _ _ => exact absurd hlink (hfs _ _)

theorem Unlinked.place_of_find (hfs : fs.Unlinked) {e : Destination}
    (hpath : Path.startsAtRoot path = true) (h : fs.find processDir path = .ok e) :
    e.place = Location.spelled path := by
  obtain ⟨-, -, ⟨n, -, walk⟩, -⟩ := find_eq_ok_iff.mp h
  rw [componentsFrom, if_pos hpath] at walk
  exact hfs.place_of_leads (areComponents_names path) walk

theorem Unlinked.place_of_locate (hfs : fs.Unlinked) {l : Location}
    (hpath : Path.startsAtRoot path = true) (h : fs.locate processDir path = .ok l) :
    l = Location.spelled path :=
  hfs.place_of_find hpath (locate_eq_ok_iff.mp h).2

theorem Unlinked.leads_of_stands (hfs : fs.Unlinked) {e : Destination} (h : fs.Stands e) :
    fs.Leads true 0 [] e.place.reverse e := by
  cases h with
  | @existing l node hway hnode =>
    refine hway.leads_to hnode ?_
    intro target hlink
    exact absurd (hlink ▸ hnode) (hfs l target)
  | @free directory name hway hfree =>
    cases hway with
    | entry hname hshort hclear hway =>
      have hwalk : fs.Leads true 0 directory [name] (.free directory name) :=
        .free ⟨hclear, hname.ne_dot, hname.ne_dots, hshort⟩ hfree
      have hdir := isDirectoryAt_of_clear hclear
      rw [Destination.place, List.reverse_cons]
      exact hway.leads_from_root hdir hwalk

/-- Another path to the place of a destination finds it too, if the system takes the path. -/
theorem Unlinked.find_of_names (hfs : fs.Unlinked) {e : Destination} (h : fs.Stands e)
    (hroot : Path.startsAtRoot other = true) (hnames : Path.names other = e.place.reverse)
    (hshort : other.utf8ByteSize ≤ pathLimit)
    (hend : endsWithSlash other = true → e.place = []) : fs.find processDir other = .ok e := by
  rw [find_eq_ok_iff, componentsFrom, if_pos hroot, hnames, Bool.true_or]
  refine ⟨?_, hshort, ⟨0, Nat.zero_le _, hfs.leads_of_stands h⟩, ?_⟩
  · rintro rfl
    simp [Path.startsAtRoot] at hroot
  · intro hslash d hd
    subst hd
    have hempty : d = [] := hend hslash
    subst hempty
    exact isDirectoryAt_iff.mpr ⟨_, node?_root fs⟩

theorem eq_nil_of_endsWithSlash {l : Location} (h : l.Proper)
    (hend : endsWithSlash l.text = true) : l = [] := by
  cases l with
  | nil => rfl
  | cons c l =>
    have hlast := Location.getLast?_text_ne_slash (l := l) (h c List.mem_cons_self)
    simp [endsWithSlash, hlast] at hend

/-- The text of the place that a path spells stands for the path. -/
theorem Unlinked.find_spelled (hfs : fs.Unlinked) {e : Destination}
    (hpath : Path.startsAtRoot path = true) (h : fs.find processDir path = .ok e) :
    fs.find processDir (Location.spelled path).text = .ok e := by
  obtain ⟨-, hshort, -, -⟩ := find_eq_ok_iff.mp h
  have hplace := hfs.place_of_find hpath h
  have hproper := Location.proper_spelled path
  have hsize := Location.utf8ByteSize_spelled_le hpath
  refine hfs.find_of_names (stands_of_find h) (Location.startsAtRoot_text _) ?_ (by omega) ?_
  · rw [Location.names_text hproper, hplace]
  · intro hend
    rw [hplace]
    exact eq_nil_of_endsWithSlash hproper hend

theorem eq_nil_of_normal_endsWithSlash (hpath : Path.startsAtRoot path = true)
    (hend : endsWithSlash (Path.Posix.normal path) = true) : Location.spelled path = [] := by
  obtain ⟨n, rest, -, hnormal⟩ := Location.exists_normal hpath
  rw [hnormal, Path.endsWithSlash_append _ (Location.text_ne_empty _)] at hend
  exact eq_nil_of_endsWithSlash (Location.proper_spelled path) hend

theorem Unlinked.find_normal (hfs : fs.Unlinked) {e : Destination}
    (hpath : Path.startsAtRoot path = true) (h : fs.find processDir path = .ok e) :
    fs.find processDir (Path.Posix.normal path) = .ok e := by
  obtain ⟨-, hshort, -, -⟩ := find_eq_ok_iff.mp h
  have hplace := hfs.place_of_find hpath h
  have hsize := Location.utf8ByteSize_normal_le hpath
  have hroot := Path.Posix.startsAtRoot_normal hpath
  refine hfs.find_of_names (stands_of_find h) hroot ?_ (by omega) ?_
  · rw [Location.names_normal hpath, hplace]
  · intro hend
    rw [hplace]
    exact eq_nil_of_normal_endsWithSlash hpath hend

theorem Unlinked.locate_spelled (hfs : fs.Unlinked) {d : Location}
    (hpath : Path.startsAtRoot path = true) (h : fs.locate processDir path = .ok d) :
    fs.locate processDir (Location.spelled path).text = .ok d := by
  obtain ⟨hnul, hfind⟩ := locate_eq_ok_iff.mp h
  refine locate_eq_ok_iff.mpr ⟨?_, hfs.find_spelled hpath hfind⟩
  apply Path.hasNul_text
  intro c hc
  have hname := Location.mem_names_of_mem_spelled (List.mem_reverse.mp hc)
  exact Text.hasNul_of_mem_pieces hnul (List.mem_filter.mp hname).1

theorem Unlinked.locate_normal (hfs : fs.Unlinked) {d : Location}
    (hpath : Path.startsAtRoot path = true) (h : fs.locate processDir path = .ok d) :
    fs.locate processDir (Path.Posix.normal path) = .ok d := by
  obtain ⟨hnul, hfind⟩ := locate_eq_ok_iff.mp h
  exact locate_eq_ok_iff.mpr ⟨Path.Posix.hasNul_normal hnul, hfs.find_normal hpath hfind⟩

theorem Unlinked.openForWriting_normal (hfs : fs.Unlinked) {append : Bool}
    {opened : Location × FileSystem} (hpath : Path.startsAtRoot path = true)
    (h : fs.openForWriting processDir path append = .ok opened) :
    fs.openForWriting processDir (Path.Posix.normal path) append = .ok opened := by
  by_cases hnul : hasNul path = true
  · simp [openForWriting_of_nul hnul] at h
  have hnul : hasNul path = false := by simpa using hnul
  by_cases hslash : endsWithSlash path = true
  · simp [openForWriting_of_end_slash hnul hslash] at h
  have hslash : endsWithSlash path = false := by simpa using hslash
  cases hfind : fs.find processDir path with
  | error e => simp [openForWriting_of_find_error hnul hslash hfind] at h
  | ok e =>
    rw [openForWriting_of_find hnul hslash hfind] at h
    have hplace := hfs.place_of_find hpath hfind
    have hend : endsWithSlash (Path.Posix.normal path) = false := by
      apply Bool.eq_false_iff.mpr
      intro hend
      rw [eq_nil_of_normal_endsWithSlash hpath hend] at hplace
      -- The root is a directory, which is not opened.
      cases e with
      | existing l =>
        obtain rfl : l = [] := hplace
        simp [openAt, node?_root] at h
      | free directory name => exact List.cons_ne_nil _ _ hplace
    rw [openForWriting_of_find (Path.Posix.hasNul_normal hnul) hend
      (hfs.find_normal hpath hfind)]
    cases hopen : fs.openAt append e with
    | error r => simp [hopen] at h
    | ok r => simpa [hopen] using h

/-- A name is looked for below a path as it is in the directory that the path spells, as far as the
system takes a path of that length. -/
theorem find_join {d : Location} {name : String} (hroot : Path.startsAtRoot path = true)
    (hnames : Path.names path = d.reverse) (hd : d.Proper) (hname : Path.startsAtRoot name = false)
    (hne : name ≠ "") : fs.find processDir (Path.Posix.join path name) =
      if pathLimit < (Path.Posix.join path name).utf8ByteSize then .error .nameTooLong
      else fs.find d.text name := by
  have hcomponents : componentsFrom processDir (Path.Posix.join path name) =
      componentsFrom d.text name := by
    rw [componentsFrom, if_pos (Path.Posix.startsAtRoot_join name hroot),
      Path.names_join hroot hname, componentsFrom, if_neg (by simp [hname]),
      Location.names_text hd, hnames]
  have hjoin : ∃ front, Path.Posix.join path name = front ++ name := by
    unfold Path.Posix.join
    split
    · exact ⟨"", String.empty_append.symm⟩
    split
    · exact ⟨path, rfl⟩
    · exact ⟨path ++ "/", rfl⟩
  obtain ⟨front, hfront⟩ := hjoin
  have hsize : name.utf8ByteSize ≤ (Path.Posix.join path name).utf8ByteSize := by
    rw [hfront, String.utf8ByteSize_append]
    omega
  have hslash : endsWithSlash (Path.Posix.join path name) = endsWithSlash name := by
    rw [hfront, Path.endsWithSlash_append front hne]
  have hjoined : Path.Posix.join path name ≠ "" := by
    rw [hfront]
    exact fun he => hne (String.append_eq_empty_iff.mp he).2
  rw [find, if_neg hjoined]
  split
  · rfl
  · next hshort =>
    rw [find, if_neg hne, if_neg (by omega), hcomponents, hslash]

theorem Unlinked.linkText? (hfs : fs.Unlinked) (hnul : hasNul path = false) :
    fs.linkText? processDir path = .ok none := by
  obtain ⟨text, htext⟩ := linkText?_ok fs processDir hnul
  cases text with
  | none => exact htext
  | some target =>
    obtain ⟨l, -, hlink⟩ := (linkText?_eq_some_iff fs processDir path target).mp htext
    exact absurd hlink (hfs l target)

theorem Unlinked.along_names (hfs : fs.Unlinked)
    {resolveLink : LinksSeen → Trail → String → Except Fault (Resolution × LinksSeen)}
    {seen : LinksSeen} {l : Location} {cs : List String} (hcs : ∀ c ∈ cs, IsName c)
    (hnul : ∀ c ∈ cs.reverse ++ l, hasNul c = false) :
    fs.along processDir resolveLink seen ⟨true, l⟩ cs =
      .ok (.resolved ⟨true, cs.reverse ++ l⟩, seen) := by
  induction cs generalizing l with
  | nil => rfl
  | cons c cs ih =>
    have hmem : ∀ d ∈ c :: l, d ∈ (c :: cs).reverse ++ l := by simp +contextual
    have htext : hasNul (Location.text (c :: l)) = false :=
      Path.hasNul_text fun d hd => hnul d (hmem d (List.mem_reverse.mp hd))
    have hassoc : (c :: cs).reverse ++ l = cs.reverse ++ c :: l := by simp
    rw [hassoc] at hnul ⊢
    rw [along_name (hcs c List.mem_cons_self), hfs.linkText? htext]
    exact ih (fun d hd => hcs d (List.mem_cons_of_mem c hd)) hnul

theorem Unlinked.realPath_text (hfs : fs.Unlinked) {l : Location} (hl : l.Proper)
    (hnul : hasNul l.text = false) : fs.realPath processDir l.text = .ok l.text := by
  have hrun : fs.resolveFrom processDir nestingLimit [] ⟨false, []⟩ l.text =
      .ok (.resolved ⟨true, l⟩, []) := by
    rw [nestingLimit, resolveFrom, if_pos (Location.startsAtRoot_text l)]
    by_cases he : l = []
    · subst he
      rfl
    · have hpieces := Location.pieces_text he hl
      have hparts : ∀ c ∈ l, hasNul c = false := by
        intro c hc
        have hpiece : c ∈ Text.pieces '/' l.text := by
          rw [hpieces]
          exact List.mem_cons_of_mem "" (List.mem_reverse.mpr hc)
        exact Text.hasNul_of_mem_pieces hnul hpiece
      rw [hpieces, along_skip (.inl rfl), hfs.along_names hl.reverse (by simpa using hparts)]
      simp
  have hjoin : Path.Posix.join processDir l.text = l.text := by
    rw [Path.Posix.join, if_pos (Location.startsAtRoot_text l)]
  have htrail : Trail.text ⟨true, l⟩ = l.text := rfl
  simp [realPath, hrun, bind, Except.bind, pure, Except.pure, htrail, hjoin,
    Location.normal_text hl]

end FileSystem

/-- What `cd` makes of a relative path is the text of the place that the path spells. -/
theorem Path.resolve_eq_text {dir p : String} (hdir : startsAtRoot dir = true)
    (hp : startsAtRoot p = false) :
    resolve p dir = (Location.spelled (Posix.join dir p)).text := by
  have hnames : names (withoutEndSlashes dir ++ "/" ++ p) = names (Posix.join dir p) := by
    rw [names_append, names_withoutEndSlashes, names_join hdir hp]
  rw [resolve, if_neg (by simp [hp]), Location.tidy_eq (startsAtRoot_below p hdir),
    Location.spelled, hnames, Location.spelled]

namespace Session

open FileSystem (Unlinked)

variable {fs : FileSystem} {s : Session} {p processDir : String} {d : Location}

theorem target_relative (hdir : Path.startsAtRoot s.dir = true) (hp : Path.startsAtRoot p = false)
    (hhome : p ≠ "~") (hbelow : ¬ ['~', '/'] <+: p.toList) :
    s.target (some p) = .ok (p, (Location.spelled (Path.Posix.join s.dir p)).text) := by
  rw [target_of_plain (homeOperation?_eq_none hhome hbelow), Path.resolve_eq_text hdir hp]

/-- `cd` goes where the system goes. -/
theorem changeDirectory_unlinked (hfs : fs.Unlinked) (hdir : Path.startsAtRoot s.dir = true)
    (hp : Path.startsAtRoot p = false) (hhome : p ≠ "~") (hbelow : ¬ ['~', '/'] <+: p.toList)
    (hd : fs.locate processDir (Path.Posix.join s.dir p) = .ok d)
    (hdirectory : fs.isDirectoryAt d = true) (rest : List String) :
    s.changeDirectory fs processDir (p :: rest) = .ok (⟨true, ""⟩, { s with dir := d.text }) := by
  have hroot := Path.Posix.startsAtRoot_join p hdir
  have hplace := hfs.place_of_locate hroot hd
  have htarget := target_relative hdir hp hhome hbelow
  have hlocate := hfs.locate_spelled hroot hd
  rw [← hplace] at htarget hlocate
  obtain ⟨hnul, -⟩ := FileSystem.locate_eq_ok_iff.mp hlocate
  have hproper := (FileSystem.way_of_locate hd).proper
  have hreached : fs.isDirectory processDir d.text = true :=
    FileSystem.isDirectory_iff.mpr ⟨d, hlocate, hdirectory⟩
  rw [changeDirectory_of_directory htarget hreached, hfs.realPath_text hproper hnul]
  rfl

theorem absoluteFrom_relative (hp : Path.startsAtRoot p = false) :
    Path.Posix.absoluteFrom s.dir p = Path.Posix.normal (Path.Posix.join s.dir p) := by
  rw [Path.Posix.absoluteFrom, if_neg (by simp [hp])]

theorem mem_searchDirectories {text : String} (htext : s.searchPath = some text)
    (hp : p ∈ Text.pieces ':' text) (hne : p ≠ "") :
    Path.Posix.absoluteFrom s.dir p ∈ s.searchDirectories := by
  apply List.mem_map_of_mem
  rw [htext]
  exact List.mem_filter.mpr ⟨hp, by simpa using hne⟩

/-- A relative path of which the shell makes an absolute one by its text alone means what it means
to the system: as an argument of `cd`, as the target of a redirection, and as a directory that is
searched for programs. -/
theorem relative_path_unlinked {w : World} (hfs : w.fs.Unlinked)
    (hdir : Path.startsAtRoot w.session.dir = true) (hp : Path.startsAtRoot p = false) :
    (p ≠ "~" → ¬ ['~', '/'] <+: p.toList → ∀ d,
      w.fs.locate w.processDir (Path.Posix.join w.session.dir p) = .ok d →
      w.fs.isDirectoryAt d = true → ∀ rest, ∃ w',
        Builtin.cd.run (p :: rest) w = .ok ⟨true, ""⟩ w' ∧
          w'.session = { w.session with dir := d.text }) ∧
    (∀ (r : Line.Redirection) place after, r.target = some p →
      w.fs.openForWriting w.processDir (Path.Posix.join w.session.dir p) r.append =
        .ok (place, after) →
      ∃ path, (r.resolved w.session.dir).target = some path ∧
        w.fs.openForWriting w.processDir path (r.resolved w.session.dir).append =
          .ok (place, after)) ∧
    (∀ text d, w.session.searchPath = some text → p ∈ Text.pieces ':' text → p ≠ "" →
      w.fs.locate w.processDir (Path.Posix.join w.session.dir p) = .ok d →
      w.fs.isDirectoryAt d = true →
      ∃ path ∈ w.session.searchDirectories, path = Path.Posix.absoluteFrom w.session.dir p ∧
        w.fs.locate w.processDir path = .ok d ∧
        ∀ name, name ≠ "" → Path.startsAtRoot name = false →
          w.fs.find w.processDir (Path.Posix.join path name) =
            if pathLimit < (Path.Posix.join path name).utf8ByteSize then .error .nameTooLong
            else w.fs.find d.text name) := by
  have hroot := Path.Posix.startsAtRoot_join p hdir
  have habsolute := absoluteFrom_relative (s := w.session) hp
  refine ⟨?_, ?_, ?_⟩
  · intro hhome hbelow d hd hdirectory rest
    have hgoes : w.Goes (p :: rest) { w.session with dir := d.text } :=
      changeDirectory_unlinked hfs hdir hp hhome hbelow hd hdirectory rest
    exact Builtin.cd_of_goes hgoes
  · intro r place after htarget hopen
    refine ⟨Path.Posix.absoluteFrom w.session.dir p, ?_, ?_⟩
    · rw [Line.Redirection.resolved, htarget]
      rfl
    · rw [habsolute]
      exact hfs.openForWriting_normal hroot hopen
  · intro text d htext hentry hne hd hdirectory
    refine ⟨_, mem_searchDirectories htext hentry hne, rfl, ?_, ?_⟩
    · rw [habsolute]
      exact hfs.locate_normal hroot hd
    · intro name hname hrelative
      have hplace := hfs.place_of_locate hroot hd
      have hnames := Location.names_normal hroot
      have hproper := (FileSystem.way_of_locate hd).proper
      rw [← hplace] at hnames
      rw [habsolute]
      exact FileSystem.find_join (Path.Posix.startsAtRoot_normal hroot) hnames hproper hrelative
        hname

/-- Two directories and a file, to which paths lead around: `cd` goes to the inner directory, which
is also searched, and the file is opened. -/
theorem paths_lead_around :
    let fs : FileSystem := { nodes := [(["a"], .directory {}), (["b", "a"], .directory {}),
      (["f", "a"], .file {} .empty none)] }
    let s : Session := { dir := "/a", searchPath := some "/bin:b/../b/." }
    let w : World := { fs, session := s }
    let r : Line.Redirection := ⟨some "b/../f", true, .output⟩
    fs.Unlinked ∧
      (∃ w', Builtin.cd.run ["b/../b/."] w = .ok ⟨true, ""⟩ w' ∧
        w'.session = { s with dir := "/a/b" }) ∧
      (∃ path, (r.resolved s.dir).target = some path ∧
        fs.openForWriting "/" path true = .ok (["f", "a"], fs)) ∧
      ∃ path ∈ s.searchDirectories, fs.locate "/" path = .ok ["b", "a"] := by
  intro fs s w r
  have hfs : fs.Unlinked := by
    intro l target
    match l with
    | [] => simp [FileSystem.node?_root]
    | c :: above =>
      simp only [fs, FileSystem.node?, Table.get?]
      split
      · simp
      split
      · simp
      split
      · simp
      · simp
  have hjoin : Path.Posix.join s.dir "b/../b/." = "/a/b/../b/." := by decide
  have hb : fs.locate "/" (Path.Posix.join s.dir "b/../b/.") = .ok ["b", "a"] := hjoin ▸ rfl
  have hjoin : Path.Posix.join s.dir "b/../f" = "/a/b/../f" := by decide
  have hf : fs.openForWriting "/" (Path.Posix.join s.dir "b/../f") true = .ok (["f", "a"], fs) :=
    hjoin ▸ rfl
  have hentry : "b/../b/." ∈ Text.pieces ':' "/bin:b/../b/." := by decide
  obtain ⟨hcd, -, hsearch⟩ := relative_path_unlinked (w := w) (p := "b/../b/.") hfs (by decide)
    (by decide)
  obtain ⟨-, hopen, -⟩ := relative_path_unlinked (w := w) (p := "b/../f") hfs (by decide)
    (by decide)
  obtain ⟨path, hmem, -, hlocate, -⟩ :=
    hsearch _ ["b", "a"] rfl hentry (by decide) hb rfl
  exact ⟨hfs, hcd (by decide) (by decide) _ hb rfl [], hopen r _ _ rfl hf, path, hmem, hlocate⟩

end Session

end CommandShell
