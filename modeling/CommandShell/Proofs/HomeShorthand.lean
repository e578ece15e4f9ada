import CommandShell.Proofs.Descent

/-! # The home directory in the argument of `cd`

`~` is a shorthand: `cd` goes where it would go if the home directory stood there in full. Where
`cd` goes depends on the full path that its argument comes to and on nothing else, and for that path
the slashes at the end of the home directory do not count. An argument without the shorthand has
nothing to do with the home directory. -/
namespace CommandShell

namespace Path

variable {p : String}

theorem startsAtRoot_append (h : startsAtRoot p = true) (t : String) :
    startsAtRoot (p ++ t) = true := by
  simp only [startsAtRoot, beq_iff_eq, String.toList_append, List.head?_append] at h ⊢
  rw [h]
  rfl

theorem tidy_below (h : startsAtRoot p = true) (r : String) :
    tidy (withoutEndSlashes p ++ "/" ++ r) = tidy (p ++ "/" ++ r) := by
  have hnames : names (withoutEndSlashes p ++ "/" ++ r) = names (p ++ "/" ++ r) := by
    rw [names_append, names_append, names_withoutEndSlashes]
  have hfull := startsAtRoot_append (startsAtRoot_append h "/") r
  rw [tidy, tidy, ofText, ofText, hnames, startsAtRoot_below r h, hfull]

theorem resolve_below (h : startsAtRoot p = true) (r dir : String) :
    resolve (withoutEndSlashes p ++ "/" ++ r) dir = resolve (p ++ "/" ++ r) dir := by
  have hfull := startsAtRoot_append (startsAtRoot_append h "/") r
  rw [resolve, resolve, if_pos (startsAtRoot_below r h), if_pos hfull, tidy_below h r]

end Path

namespace Session

variable {s : Session} {h p : String}

def withHome (s : Session) (home : Option Value) : Session :=
  { s with home }

theorem homeText_eq (hhome : s.homeOrRoot = .text h) (operation : String) :
    s.homeText operation = .ok h := by
  simp [homeText, hhome]

/-- The home directory itself is not expanded a second time, because it starts at the root. -/
theorem target_none (hhome : s.homeOrRoot = .text h) (hroot : Path.startsAtRoot h = true) :
    s.target none = s.target (some h) := by
  have hself : Path.expandHome h h = h := by
    obtain ⟨rest, hrest⟩ := List.head?_eq_some_iff.mp (by simpa [Path.startsAtRoot] using hroot)
    simp [Path.expandHome, hrest]
  rw [target_of_root hroot]
  simp [target, expanded, homeText_eq hhome, hself, Except.map]

theorem target_tilde (hhome : s.homeOrRoot = .text h) (hroot : Path.startsAtRoot h = true) :
    s.target (some "~") = s.target (some h) := by
  rw [target_of_root hroot]
  simp [target, expanded, homeOperation?, homeText_eq hhome, Path.expandHome, Except.map]

theorem target_below_tilde (hhome : s.homeOrRoot = .text h) (hroot : Path.startsAtRoot h = true)
    (r : String) :
    s.target (some ("~/" ++ r)) =
      .ok (Path.withoutEndSlashes h ++ "/" ++ r, Path.resolve (h ++ "/" ++ r) s.dir) := by
  rw [← Path.resolve_below hroot r s.dir]
  simp [target, expanded, homeOperation?, homeText_eq hhome, Path.expandHome, Except.map]

theorem changeDirectory_ok_congr {p' path shown shown' : String}
    (hp : s.target (some p) = .ok (shown, path)) (hp' : s.target (some p') = .ok (shown', path))
    (fs : FileSystem) (processDir : String) (rest : List String) :
    (s.changeDirectory fs processDir (p :: rest)).map (Prod.map Result.ok id) =
      (s.changeDirectory fs processDir (p' :: rest)).map (Prod.map Result.ok id) := by
  by_cases hd : fs.isDirectory processDir path = true
  · rw [changeDirectory_of_directory hp hd, changeDirectory_of_directory hp' hd]
  · rw [changeDirectory_elsewhere hp (by simpa using hd),
      changeDirectory_elsewhere hp' (by simpa using hd)]
    rfl

theorem changeDirectory_withHome {fs : FileSystem} {processDir : String} {rest : List String}
    (hp : homeOperation? p.toList = none) (home : Option Value) :
    (s.withHome home).changeDirectory fs processDir (p :: rest) =
      (s.changeDirectory fs processDir (p :: rest)).map (Prod.map id (withHome · home)) := by
  have hs : s.target (p :: rest).head? = .ok (p, Path.resolve p s.dir) := target_of_plain hp
  have hs' : (s.withHome home).target (p :: rest).head? = .ok (p, Path.resolve p s.dir) :=
    target_of_plain hp
  by_cases hd : fs.isDirectory processDir (Path.resolve p s.dir) = true
  · rw [changeDirectory_of_directory hs hd, changeDirectory_of_directory hs' hd]
    cases fs.realPath processDir (Path.resolve p s.dir) <;> rfl
  · rw [changeDirectory_elsewhere hs (by simpa using hd),
      changeDirectory_elsewhere hs' (by simpa using hd)]
    rfl

end Session

namespace World

def withHome (w : World) (home : Option Value) : World :=
  { w with session := w.session.withHome home }

end World

/-- How an action ends in a world with another home directory, where the home directory has nothing
to do with it. -/
def Action.endWithHome (home : Option Value) :
    EStateM.Result Stop World α → EStateM.Result Stop World α
  | .ok a w => .ok a (w.withHome home)
  | .error s w => .error s (w.withHome home)

namespace Builtin

variable {w : World} {h : String} {arguments arguments' : List String}

def afterChange (change : Except Fault (Result × Session)) : Action Result := do
  let (result, session) ← Action.ofExcept change
  if result.ok then
    modify fun w => { w with session }
    Action.log .debug "builtins" "Changed directory" [("cwd", .text session.dir)]
  return result

theorem cd_run (arguments : List String) (w : World) :
    cd.run arguments w = afterChange (w.session.changeDirectory w.fs w.processDir arguments) w := by
  rw [run, Action.get_bind]
  rcases w.session.changeDirectory w.fs w.processDir arguments with f | ⟨⟨ok, output⟩, session⟩
  · rfl
  · cases ok <;> rfl

theorem cd_run_congr (heq : w.session.target arguments.head? = w.session.target arguments'.head?) :
    cd.run arguments w = cd.run arguments' w := by
  rw [cd_run, cd_run, Session.changeDirectory, heq, Session.changeDirectory]

/-- The success and everything that `cd` leaves behind do not depend on the text of a refusal. -/
theorem ok_afterChange {c c' : Except Fault (Result × Session)}
    (heq : c.map (Prod.map Result.ok id) = c'.map (Prod.map Result.ok id)) :
    Result.ok <$> afterChange c = Result.ok <$> afterChange c' := by
  rcases c with f | ⟨⟨ok, output⟩, session⟩
  · rcases c' with f' | ⟨⟨ok', output'⟩, session'⟩
    · cases heq
      rfl
    · cases heq
  · rcases c' with f' | ⟨⟨ok', output'⟩, session'⟩
    · cases heq
    · cases heq
      cases ok <;> rfl

theorem afterChange_withHome (change : Except Fault (Result × Session)) (home : Option Value)
    (w : World) :
    afterChange (change.map (Prod.map id (Session.withHome · home))) (w.withHome home) =
      Action.endWithHome home (afterChange change w) := by
  rcases change with f | ⟨⟨ok, output⟩, session⟩
  · rfl
  · cases ok <;> rfl

theorem map_cd_run (f : Result → α) (arguments : List String) (w : World) :
    (f <$> cd.run arguments) w =
      (f <$> afterChange (w.session.changeDirectory w.fs w.processDir arguments)) w := by
  simp only [Functor.map, EStateM.map, cd_run]

/-- `~` is the home directory and `~/` what is below it, whatever slashes its path ends with and
whatever follows, and only for them does `cd` look at the home directory. A refusal names the path
as it was expanded, which may spell the same place with fewer slashes. -/
theorem cd_home_shorthand (hhome : w.session.homeOrRoot = .text h)
    (hroot : Path.startsAtRoot h = true) (rest : List String) :
    cd.run [] w = cd.run (h :: rest) w ∧
      cd.run ("~" :: rest) w = cd.run (h :: rest) w ∧
      (∀ r, (Result.ok <$> cd.run (("~/" ++ r) :: rest)) w =
        (Result.ok <$> cd.run ((h ++ "/" ++ r) :: rest)) w) ∧
      ∀ p, p ≠ "~" → ¬ ['~', '/'] <+: p.toList → ∀ home,
        cd.run (p :: rest) (w.withHome home) =
          Action.endWithHome home (cd.run (p :: rest) w) := by
  refine ⟨?_, ?_, ?_, ?_⟩
  · exact cd_run_congr (Session.target_none hhome hroot)
  · exact cd_run_congr (Session.target_tilde hhome hroot)
  · intro r
    have hshort := Session.target_below_tilde hhome hroot r
    have hfull := Session.target_of_root (s := w.session)
      (Path.startsAtRoot_append (Path.startsAtRoot_append hroot "/") r)
    have hsame := Session.changeDirectory_ok_congr hshort hfull w.fs w.processDir rest
    rw [map_cd_run, map_cd_run, ok_afterChange hsame]
  · intro p htilde hbelow home
    have hp := Session.homeOperation?_eq_none htilde hbelow
    rw [cd_run, cd_run, ← afterChange_withHome, ← Session.changeDirectory_withHome hp]
    rfl

/-- Out of a home directory that is spelled with slashes at its end, and back into it. -/
theorem cd_around_home_with_slashes :
    let w : World := {
      fs := { nodes := [(["home"], .directory {})] }
      session := { dir := "/", home := some (.text "/home//") } }
    w.session.homeOrRoot = .text "/home//" ∧ Path.startsAtRoot "/home//" = true ∧
      (Result.ok <$> cd.run ["~/" ++ "/../home/."]) w =
        (Result.ok <$> cd.run ["/home//" ++ "/" ++ "/../home/."]) w ∧
      ∃ w', cd.run ["~/" ++ "/../home/."] w = .ok ⟨true, ""⟩ w' ∧ w'.session.dir = "/home" := by
  intro w
  refine ⟨rfl, by decide, (cd_home_shorthand rfl (by decide) []).2.2.1 "/../home/.", ?_⟩
  have hnode (l : Location) (n : Node) (h : w.fs.node? l = some n) : FileSystem.Addressable l := by
    have hl : l = [] ∨ l = ["home"] := by
      match l with
      | [] => exact .inl rfl
      | c :: above =>
        simp only [w, FileSystem.node?, Table.get?] at h
        grind
    rcases hl with rfl | rfl
    · exact ⟨by decide, by decide⟩
    · exact ⟨by decide, by decide⟩
  have hfs : w.fs.Nameable := ⟨fun l p h => hnode l _ h, fun l t h => hnode l _ h⟩
  have ht : w.session.target ["~/" ++ "/../home/."].head? = .ok ("/home//../home/.", "/home") := by
    rfl
  have hgoes := ((Session.cdFollows hfs "/" (by decide) ht).reached ["home"] rfl rfl).1
  obtain ⟨w', hrun, hs⟩ := cd_of_goes hgoes
  exact ⟨w', hrun, by rw [hs]; decide⟩

end Builtin

end CommandShell
