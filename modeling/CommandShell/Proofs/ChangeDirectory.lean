import CommandShell.Proofs.FileSystem.Growth

/-! # Changing the directory

`cd` goes where the lookup of its target goes. The directory it comes to is spelled in one way only,
by the names on the way to it from the root, and from there `cd` to the same path stays. -/
namespace CommandShell

/-- A path that is the canonical spelling of a directory and leads to it. -/
structure FileSystem.Canonical (fs : FileSystem) (processDir path : String) (d : Location) :
    Prop where
  spelled : path = d.text
  names : d.Proper
  directories : ∀ k, k <:+ d → fs.isDirectoryAt k = true
  located : fs.locate processDir path = .ok d

namespace FileSystem

variable {a b fs : FileSystem} {processDir path : String} {d : Location}

theorem canonical_of_locate (hfs : fs.Nameable) (h : fs.locate processDir path = .ok d)
    (hd : fs.isDirectoryAt d = true) : fs.Canonical processDir d.text d := by
  have hw := way_of_locate h
  obtain ⟨p, hp⟩ := isDirectoryAt_iff.mp hd
  refine ⟨rfl, hw.proper, fun k hk => hw.directory_of_suffix hd hk, ?_⟩
  exact hw.locate_text (hfs.directory d p hp) hp (by simp) processDir

theorem Canonical.isDirectoryAt (h : fs.Canonical processDir path d) :
    fs.isDirectoryAt d = true :=
  h.directories d (List.suffix_refl d)

theorem Canonical.startsAtRoot (h : fs.Canonical processDir path d) :
    Path.startsAtRoot path = true := by
  rw [h.spelled]
  exact Location.startsAtRoot_text d

theorem Canonical.grows (h : a.Canonical processDir path d) (hg : a.Grows b) :
    b.Canonical processDir path d := by
  obtain ⟨p, hp⟩ := isDirectoryAt_iff.mp h.isDirectoryAt
  refine ⟨h.spelled, h.names, ?_, (hg.locate_iff (by simp [hp])).mp h.located⟩
  intro k hk
  rw [hg.isDirectoryAt]
  exact h.directories k hk

end FileSystem

namespace Session

variable {s s' : Session} {fs : FileSystem} {processDir : String} {arguments : List String}

theorem homeOperation?_eq_none {p : String} (hhome : p ≠ "~")
    (hbelow : ¬ ['~', '/'] <+: p.toList) : homeOperation? p.toList = none := by
  unfold homeOperation?
  split
  · next h => exact absurd (String.toList_injective h) hhome
  · next rest h => exact absurd ⟨rest, h.symm⟩ hbelow
  · rfl

theorem homeOperation?_of_head? {p : String} (h : p.toList.head? ≠ some '~') :
    homeOperation? p.toList = none := by
  apply homeOperation?_eq_none
  · rintro rfl
    exact h rfl
  · rintro ⟨rest, hrest⟩
    rw [← hrest] at h
    exact h rfl

theorem target_of_plain {p : String} (hp : homeOperation? p.toList = none) :
    s.target (some p) = .ok (p, Path.resolve p s.dir) := by
  simp [target, expanded, hp, Except.map]

theorem target_of_root {p : String} (hroot : Path.startsAtRoot p = true) :
    s.target (some p) = .ok (p, Path.resolve p s.dir) := by
  apply target_of_plain
  apply homeOperation?_of_head?
  rw [beq_iff_eq.mp hroot]
  decide

theorem startsAtRoot_target {shown target : String} {argument : Option String}
    (habs : Path.startsAtRoot s.dir = true) (h : s.target argument = .ok (shown, target)) :
    Path.startsAtRoot target = true := by
  unfold Session.target at h
  cases he : s.expanded argument with
  | error f => simp [he, Except.map] at h
  | ok p =>
    simp only [he, Except.map, Except.ok.injEq, Prod.mk.injEq] at h
    rw [← h.2]
    exact Path.startsAtRoot_resolve p habs

theorem changeDirectory_of_target_error {f : Fault} (h : s.target arguments.head? = .error f) :
    s.changeDirectory fs processDir arguments = .error f := by
  simp [changeDirectory, h, bind, Except.bind]

theorem changeDirectory_of_directory {shown target : String}
    (h : s.target arguments.head? = .ok (shown, target))
    (hd : fs.isDirectory processDir target = true) :
    s.changeDirectory fs processDir arguments =
      (fs.realPath processDir target).map fun dir => (⟨true, ""⟩, { s with dir }) := by
  simp only [changeDirectory, h, hd, if_true, bind, Except.bind, pure, Except.pure]
  cases fs.realPath processDir target <;> rfl

theorem changeDirectory_elsewhere {shown target : String}
    (h : s.target arguments.head? = .ok (shown, target))
    (hd : fs.isDirectory processDir target = false) :
    s.changeDirectory fs processDir arguments =
      .ok (⟨false, "cd: " ++ shown ++ ": No such file or directory"⟩, s) := by
  simp [changeDirectory, h, hd, bind, Except.bind, pure, Except.pure]

theorem changeDirectory_cases (s : Session) (fs : FileSystem) (processDir : String)
    (arguments : List String) :
    (∃ f, s.changeDirectory fs processDir arguments = .error f) ∨
      (∃ dir, s.changeDirectory fs processDir arguments = .ok (⟨true, ""⟩, { s with dir })) ∨
      ∃ output, s.changeDirectory fs processDir arguments = .ok (⟨false, output⟩, s) := by
  cases ht : s.target arguments.head? with
  | error f => exact .inl ⟨f, changeDirectory_of_target_error ht⟩
  | ok p =>
    obtain ⟨shown, target⟩ := p
    by_cases hd : fs.isDirectory processDir target = true
    · rw [changeDirectory_of_directory ht hd]
      cases fs.realPath processDir target with
      | error f => exact .inl ⟨f, rfl⟩
      | ok dir => exact .inr (.inl ⟨dir, rfl⟩)
    · exact .inr (.inr ⟨_, changeDirectory_elsewhere ht (by simpa using hd)⟩)

/-- A `cd` that succeeds has gone to the directory that its target is looked up as. -/
theorem went_of_changeDirectory (hfs : fs.Short) (habs : Path.startsAtRoot s.dir = true)
    (h : s.changeDirectory fs processDir arguments = .ok (⟨true, ""⟩, s')) :
    ∃ shown target d, s.target arguments.head? = .ok (shown, target) ∧
      fs.locate processDir target = .ok d ∧ fs.isDirectoryAt d = true ∧
      s' = { s with dir := d.text } := by
  cases ht : s.target arguments.head? with
  | error f => simp [changeDirectory_of_target_error ht] at h
  | ok p =>
    obtain ⟨shown, target⟩ := p
    by_cases hd : fs.isDirectory processDir target = true
    · obtain ⟨d, hl, hdir⟩ := FileSystem.isDirectory_iff.mp hd
      refine ⟨shown, target, d, rfl, hl, hdir, ?_⟩
      rw [changeDirectory_of_directory ht hd] at h
      rcases FileSystem.realPath_cases hfs (startsAtRoot_target habs ht) hl hdir with hreal | hnul
      · rw [hreal] at h
        cases h
        rfl
      · rw [hnul.fault] at h
        cases h
    · rw [changeDirectory_elsewhere ht (by simpa using hd)] at h
      simp at h

def notReached (shown : String) : Result :=
  ⟨false, "cd: " ++ shown ++ ": No such file or directory"⟩

/-- Where `cd` goes from its arguments, by what the lookup of its target says. -/
structure CdFollows (s : Session) (fs : FileSystem) (processDir : String)
    (arguments : List String) (shown target : String) : Prop where
  reached : ∀ d, fs.locate processDir target = .ok d → fs.isDirectoryAt d = true →
    s.changeDirectory fs processDir arguments = .ok (⟨true, ""⟩, { s with dir := d.text }) ∧
      fs.Canonical processDir d.text d
  missed : (∀ d, fs.locate processDir target = .ok d → fs.isDirectoryAt d = false) →
    s.changeDirectory fs processDir arguments = .ok (notReached shown, s)

theorem cdFollows (hfs : fs.Nameable) (processDir : String) (habs : Path.startsAtRoot s.dir = true)
    {shown target : String} (ht : s.target arguments.head? = .ok (shown, target)) :
    s.CdFollows fs processDir arguments shown target := by
  refine ⟨?_, ?_⟩
  · intro d hl hd
    have hroot := startsAtRoot_target habs ht
    have hdir := FileSystem.isDirectory_iff.mpr ⟨d, hl, hd⟩
    rw [changeDirectory_of_directory ht hdir, FileSystem.realPath_of_locate hfs hroot hl hd]
    exact ⟨rfl, FileSystem.canonical_of_locate hfs hl hd⟩
  · intro hno
    have hdir : fs.isDirectory processDir target = false := by
      by_cases hdir : fs.isDirectory processDir target = true
      · obtain ⟨d, hl, hd⟩ := FileSystem.isDirectory_iff.mp hdir
        simp [hno d hl] at hd
      · simpa using hdir
    exact changeDirectory_elsewhere ht hdir

theorem target_of_canonical {path : String} {d : Location}
    (h : fs.Canonical processDir path d) : s.target (some path) = .ok (path, path) := by
  have hres : Path.resolve path s.dir = path := by
    rw [h.spelled]
    exact Location.resolve_text h.names s.dir
  rw [target_of_root h.startsAtRoot, hres]

theorem changeDirectory_here {d : Location} (hfs : fs.Nameable)
    (h : fs.Canonical processDir s.dir d) :
    s.changeDirectory fs processDir [s.dir] = .ok (⟨true, ""⟩, s) := by
  have ht : s.target [s.dir].head? = .ok (s.dir, s.dir) := target_of_canonical h
  have hgo := ((cdFollows hfs processDir h.startsAtRoot ht).reached d h.located h.isDirectoryAt).1
  rw [hgo, ← h.spelled]

theorem changeDirectory_canonical {dir : String} (hfs : fs.Nameable)
    (habs : Path.startsAtRoot s.dir = true)
    (h : s.changeDirectory fs processDir arguments = .ok (⟨true, ""⟩, { s with dir })) :
    ∃ d, fs.Canonical processDir dir d := by
  obtain ⟨_, _, d, -, hl, hd, hs⟩ := went_of_changeDirectory hfs.short habs h
  obtain rfl : dir = d.text := congrArg Session.dir hs
  exact ⟨d, FileSystem.canonical_of_locate hfs hl hd⟩

end Session

end CommandShell
