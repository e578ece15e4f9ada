import CommandShell.Proofs.Builtin
import CommandShell.Proofs.Unlinked

/-! # Going down in two steps

`cd` simplifies its target by the text alone and then looks it up. After a first step the working
directory is the text of a location, without the links that led there, so the second step looks up
other names than the whole path does. Both lookups can be cut where the first step ended: what comes
before is one walk to that directory under two names, and what comes after is the same walk from
there. A path with `..` cannot be cut, since the text takes the name of a link away and the lookup
the name of the directory behind it. -/
namespace CommandShell

open FileSystem (componentsFrom pathLimit)

namespace Path

variable {dir p q : String}

/-- Where a path that is taken from a directory leads by its text alone. -/
def place (dir p : String) : Location :=
  (componentsFrom dir p).foldl Location.move []

theorem resolve_eq_place (hdir : startsAtRoot dir = true) (p : String) :
    resolve p dir = (place dir p).text := by
  by_cases hp : startsAtRoot p = true
  · rw [resolve, if_pos hp, Location.tidy_eq hp, place, componentsFrom, if_pos hp,
      Location.spelled]
  · have hp : startsAtRoot p = false := by simpa using hp
    rw [resolve_eq_text hdir hp, Location.spelled, names_join hdir hp, place, componentsFrom,
      if_neg (by simp [hp])]

theorem proper_place (dir p : String) : (place dir p).Proper :=
  Location.proper_nil.foldl_move fun c hc => (FileSystem.areComponents_componentsFrom dir p c hc).2

def steps (q : String) : List String :=
  (names q).filter (· ≠ ".")

theorem foldl_move_steps (hup : ".." ∉ names q) (l : Location) :
    (names q).foldl Location.move l = (steps q).reverse ++ l := by
  have hq : ∀ c ∈ names q, c ≠ "" ∧ c ≠ ".." := fun c hc =>
    ⟨(FileSystem.areComponents_names q c hc).1, fun h => hup (h ▸ hc)⟩
  unfold steps
  generalize names q = cs at hq
  induction cs generalizing l with
  | nil => rfl
  | cons c cs ih =>
    obtain ⟨hempty, hdots⟩ := hq c List.mem_cons_self
    have hcs : ∀ d ∈ cs, d ≠ "" ∧ d ≠ ".." := fun d hd => hq d (List.mem_cons_of_mem c hd)
    by_cases hdot : c = "."
    · subst hdot
      rw [List.foldl_cons, List.filter_cons_of_neg (by simp)]
      exact ih l hcs
    · have hmove : Location.move l c = c :: l := by simp [Location.move, hempty, hdots, hdot]
      rw [List.foldl_cons, hmove, ih _ hcs, List.filter_cons_of_pos (by simpa using hdot),
        List.reverse_cons, List.append_assoc]
      rfl

theorem head?_below (hp : p ≠ "") (q : String) :
    (p ++ "/" ++ q).toList.head? = p.toList.head? := by
  obtain ⟨c, cs, hcs⟩ := List.exists_cons_of_ne_nil (show p.toList ≠ [] by simpa using hp)
  simp [hcs]

theorem place_append (hp : p ≠ "") (dir q : String) :
    place dir (p ++ "/" ++ q) = (names q).foldl Location.move (place dir p) := by
  have hnames : componentsFrom dir (p ++ "/" ++ q) = componentsFrom dir p ++ names q := by
    rw [componentsFrom, componentsFrom, startsAtRoot, head?_below hp, ← startsAtRoot, names_append]
    split
    · rfl
    · rw [List.append_assoc]
  rw [place, hnames, List.foldl_append, place]

theorem place_from_text {l : Location} (hl : l.Proper) (hq : startsAtRoot q = false) :
    place l.text q = (names q).foldl Location.move l := by
  have hspelled : Location.spelled l.text = l := by
    apply Location.text_injective (Location.proper_spelled l.text) hl
    rw [← Location.tidy_eq (Location.startsAtRoot_text l), Location.tidy_text hl]
  rw [Location.spelled] at hspelled
  rw [place, componentsFrom, if_neg (by simp [hq]), List.foldl_append, hspelled]

theorem place_below (hp : p ≠ "") (hup : ".." ∉ names q) (dir : String) :
    place dir (p ++ "/" ++ q) = (steps q).reverse ++ place dir p := by
  rw [place_append hp, foldl_move_steps hup]

theorem place_text {l : Location} (hl : l.Proper) (hq : startsAtRoot q = false)
    (hup : ".." ∉ names q) : place l.text q = (steps q).reverse ++ l := by
  rw [place_from_text hl hq, foldl_move_steps hup]

end Path

namespace FileSystem

variable {fs : FileSystem} {processDir : String}

/-- Whatever leads to a directory, a lookup that goes on from there takes the same walk. -/
theorem leads_below {base m d : Location} {cs : List String} {n : Nat}
    (hproper : Location.Proper (cs.reverse ++ base))
    (hm : fs.Leads true n [] base.reverse (.existing m))
    (hd : fs.locate processDir (Location.text (cs.reverse ++ base)) = .ok d) :
    ∃ k, fs.Leads true k m cs (.existing d) := by
  obtain ⟨_, -, hwalk⟩ := leads_of_locate hd
  rw [componentsFrom_text hproper, List.reverse_append, List.reverse_reverse] at hwalk
  obtain ⟨_, k, m', -, hfirst, hrest⟩ := leads_split hwalk
  obtain ⟨-, hsame⟩ := leads_unique hm hfirst
  cases hsame
  exact ⟨k, hrest⟩

end FileSystem

namespace Session

variable {s s' s₁ s₂ : Session} {fs : FileSystem} {processDir p q : String}

theorem target_of_typed (hdir : Path.startsAtRoot s.dir = true)
    (hp : homeOperation? p.toList = none) :
    s.target (some p) = .ok (p, (Path.place s.dir p).text) := by
  rw [target_of_plain hp, Path.resolve_eq_place hdir]

theorem went_of_typed (hfs : fs.Short) (hdir : Path.startsAtRoot s.dir = true)
    (hp : homeOperation? p.toList = none)
    (h : s.changeDirectory fs processDir [p] = .ok (⟨true, ""⟩, s')) :
    ∃ d, fs.locate processDir (Path.place s.dir p).text = .ok d ∧ fs.isDirectoryAt d = true ∧
      s' = { s with dir := d.text } := by
  obtain ⟨_, _, d, ht, hl, hd, hs⟩ := went_of_changeDirectory hfs hdir h
  have htyped : s.target [p].head? = .ok (p, (Path.place s.dir p).text) := target_of_typed hdir hp
  rw [htyped] at ht
  cases ht
  exact ⟨d, hl, hd, hs⟩

/-- Going to a directory and from there down leads where going the whole way does. -/
theorem changeDirectory_descends (hfs : fs.Short) (hdir : Path.startsAtRoot s.dir = true)
    (hp : p ≠ "") (hhome : p.toList.head? ≠ some '~') (hq : Path.startsAtRoot q = false)
    (hqhome : q ≠ "~") (hqbelow : ¬ ['~', '/'] <+: q.toList) (hup : ".." ∉ Path.names q)
    (first : s.changeDirectory fs processDir [p] = .ok (⟨true, ""⟩, s₁))
    (second : s₁.changeDirectory fs processDir [q] = .ok (⟨true, ""⟩, s₂))
    (whole : s.changeDirectory fs processDir [p ++ "/" ++ q] = .ok (⟨true, ""⟩, s')) :
    s₂ = s' := by
  have hptyped := homeOperation?_of_head? hhome
  have hwtyped : homeOperation? (p ++ "/" ++ q).toList = none :=
    homeOperation?_of_head? (by rwa [Path.head?_below hp])
  obtain ⟨m, hm, hmdir, rfl⟩ := went_of_typed hfs hdir hptyped first
  have hmid : Path.startsAtRoot ({ s with dir := m.text } : Session).dir = true :=
    Location.startsAtRoot_text m
  obtain ⟨e, he, -, rfl⟩ := went_of_typed hfs hmid
    (homeOperation?_eq_none hqhome hqbelow) second
  obtain ⟨d, hd, -, rfl⟩ := went_of_typed hfs hdir hwtyped whole
  have hway := FileSystem.way_of_locate hm
  obtain ⟨node, hnode⟩ := FileSystem.isDirectoryAt_iff.mp hmdir
  -- The directory in between has two names: as it was typed, and the text of its location.
  obtain ⟨n, -, htyped⟩ := FileSystem.leads_of_locate hm
  rw [FileSystem.componentsFrom_text (Path.proper_place s.dir p)] at htyped
  have hreal : fs.Leads true 0 [] m.reverse (.existing m) := hway.leads_to hnode (by simp)
  have hwhole := Path.proper_place s.dir (p ++ "/" ++ q)
  have hsecond := Path.proper_place m.text q
  rw [Path.place_below hp hup] at hwhole hd
  rw [Path.place_text hway.proper hq hup] at hsecond he
  obtain ⟨_, hrest⟩ := FileSystem.leads_below hwhole htyped hd
  obtain ⟨_, hrest'⟩ := FileSystem.leads_below hsecond hreal he
  obtain ⟨-, hsame⟩ := FileSystem.leads_unique hrest hrest'
  cases hsame
  rfl

end Session

/-- `cd` to a path and then down another path ends where `cd` to the joined path does. -/
theorem cd_descends {w w₁ w₂ w' : World} {p q : String} {o₁ o₂ o : String}
    (hfs : w.fs.Short) (hdir : Path.startsAtRoot w.session.dir = true)
    (hp : p ≠ "") (hhome : p.toList.head? ≠ some '~') (hq : Path.startsAtRoot q = false)
    (hqhome : q ≠ "~") (hqbelow : ¬ ['~', '/'] <+: q.toList) (hup : ".." ∉ Path.names q)
    (first : Builtin.cd.run [p] w = .ok ⟨true, o₁⟩ w₁)
    (second : Builtin.cd.run [q] w₁ = .ok ⟨true, o₂⟩ w₂)
    (whole : Builtin.cd.run [p ++ "/" ++ q] w = .ok ⟨true, o⟩ w') :
    w₂.session = w'.session := by
  obtain ⟨hfirst, hgrows, hproc⟩ := Builtin.goes_of_cd first
  obtain ⟨hsecond, -, -⟩ := Builtin.goes_of_cd second
  obtain ⟨hwhole, -, -⟩ := Builtin.goes_of_cd whole
  unfold World.Goes at hfirst hsecond hwhole
  rw [hproc, hgrows.changeDirectory] at hsecond
  exact Session.changeDirectory_descends hfs hdir hp hhome hq hqhome hqbelow hup hfirst hsecond
    hwhole

/-- Through a link to the directory above it, and past dots. -/
theorem descent_by_link :
    let fs : FileSystem := { nodes := [(["a"], .directory {}), (["b", "a"], .directory {}),
      (["l"], .link "a")] }
    ∃ w₁ w₂ w', Builtin.cd.run ["l/."] { fs } = .ok ⟨true, ""⟩ w₁ ∧
      Builtin.cd.run ["./b"] w₁ = .ok ⟨true, ""⟩ w₂ ∧
      Builtin.cd.run ["l/." ++ "/" ++ "./b"] { fs } = .ok ⟨true, ""⟩ w' ∧
      w₂.session = w'.session ∧ w'.session.dir = "/a/b" := by
  intro fs
  have hnode (l : Location) (n : Node) (h : fs.node? l = some n) :
      l = [] ∨ l = ["a"] ∨ l = ["b", "a"] ∨ l = ["l"] := by
    match l with
    | [] => exact .inl rfl
    | c :: above =>
      simp only [fs, FileSystem.node?, Table.get?] at h
      grind
  have haddr (l : Location) (n : Node) (h : fs.node? l = some n) : FileSystem.Addressable l := by
    rcases hnode l n h with rfl | rfl | rfl | rfl
    · exact ⟨by decide, by decide⟩
    · exact ⟨by decide, by decide⟩
    · exact ⟨by decide, by decide⟩
    · exact ⟨by decide, by decide⟩
  have hfs : fs.Nameable := ⟨fun l p h => haddr l _ h, fun l t h => haddr l _ h⟩
  have hgoes (s : Session) (p target : String) (d : Location) (dir : String)
      (hdir : Path.startsAtRoot s.dir = true) (hp : Session.homeOperation? p.toList = none)
      (htarget : (Path.place s.dir p).text = target) (hd : fs.locate "/" target = .ok d)
      (hdirectory : fs.isDirectoryAt d = true) (htext : d.text = dir) :
      s.changeDirectory fs "/" [p] = .ok (⟨true, ""⟩, { s with dir }) := by
    have ht : s.target [p].head? = .ok (p, target) :=
      htarget ▸ Session.target_of_typed hdir hp
    exact htext ▸ ((Session.cdFollows hfs "/" hdir ht).reached d hd hdirectory).1
  have hfirst : World.Goes { fs } ["l/."] { dir := "/a" } :=
    hgoes { dir := "/" } "l/." "/l" ["a"] "/a" (by decide) (by decide) (by decide) rfl rfl
      (by decide)
  have hwhole : World.Goes { fs } ["l/." ++ "/" ++ "./b"] { dir := "/a/b" } :=
    hgoes { dir := "/" } ("l/." ++ "/" ++ "./b") "/l/b" ["b", "a"] "/a/b" (by decide) (by decide)
      (by decide) rfl rfl (by decide)
  obtain ⟨w₁, first, hs₁⟩ := Builtin.cd_of_goes hfirst
  obtain ⟨-, hgrows, hproc⟩ := Builtin.goes_of_cd first
  have hsecond : w₁.Goes ["./b"] { dir := "/a/b" } := by
    unfold World.Goes
    rw [hs₁, hproc, hgrows.changeDirectory]
    exact hgoes { dir := "/a" } "./b" "/a/b" ["b", "a"] "/a/b" (by decide) (by decide) (by decide)
      rfl rfl (by decide)
  obtain ⟨w₂, second, -⟩ := Builtin.cd_of_goes hsecond
  obtain ⟨w', whole, hs⟩ := Builtin.cd_of_goes hwhole
  refine ⟨w₁, w₂, w', first, second, whole, ?_, by rw [hs]⟩
  exact cd_descends hfs.short (by decide) (by decide) (by decide) (by decide) (by decide)
    (by decide) (by decide) first second whole

end CommandShell
