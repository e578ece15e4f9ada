import Mathlib.Data.List.Forall2
import CommandShell.Proofs.PathAgreement

/-! # Resolved paths

The target of a redirection and the directories that are searched for programs are handed to the
system as absolute paths. One that is absolute already stays as it is written; any other is taken
from the working directory of the shell and tidied. Whatever the shell does after that, it does not
change again: the resolved path no longer depends on a directory. -/
namespace CommandShell

namespace Path

/-- What a path becomes when it is taken from a directory. If exactly two slashes start the
directory, there is one more slash before the tidy form. -/
inductive Settles (dir : String) : String → String → Prop where
  | rooted {p : String} : startsAtRoot p = true → Settles dir p p
  | below {p : String} {q : Path} : startsAtRoot p = false → q.absolute = true → q.Reduced →
      q.text = resolve p dir → ¬ StartsWithTwoSlashes dir → Settles dir p q.text
  | belowTwoSlashes {p : String} {q : Path} : startsAtRoot p = false → q.absolute = true →
      q.Reduced → q.text = resolve p dir → StartsWithTwoSlashes dir → Settles dir p ("/" ++ q.text)

variable {dir p q : String}

theorem Reduced.absolute_eq {p : Path} (h : p.Reduced) : p.absolute = startsAtRoot p.text :=
  (congrArg absolute h.ofText_text).symm

theorem exists_resolved (p : String) (hdir : startsAtRoot dir = true) :
    ∃ q : Path, q.absolute = true ∧ q.Reduced ∧ q.text = resolve p dir := by
  obtain ⟨q, hq, htext⟩ := isTidy_resolve p dir
  have hroot := startsAtRoot_resolve p hdir
  rw [htext, ← hq.absolute_eq] at hroot
  exact ⟨q, hroot, hq, htext.symm⟩

namespace Posix

theorem startsWithTwoSlashes_join (hdir : StartsWithTwoSlashes dir) (hp : startsAtRoot p = false) :
    StartsWithTwoSlashes (join dir p) := by
  obtain ⟨added, hjoin, hadded⟩ := join_eq dir hp
  obtain ⟨rest, hrest, hthird⟩ := hdir
  refine ⟨rest ++ added, by rw [hjoin, hrest]; rfl, ?_⟩
  cases rest with
  | nil => exact hadded (by rw [hrest]; rfl)
  | cons c rest => exact hthird

theorem absoluteFrom_eq_slash_resolve (hdir : startsAtRoot dir = true)
    (htwo : StartsWithTwoSlashes dir) (hp : startsAtRoot p = false) :
    absoluteFrom dir p = "/" ++ resolve p dir := by
  have hroot := startsAtRoot_join p hdir
  rw [absoluteFrom, if_neg (by simp [hp]),
    normal_eq_slash_tidy (startsWithTwoSlashes_join htwo hp), Location.tidy_eq hroot,
    resolve_eq_text hdir hp]

theorem absoluteFrom_of_root (dir : String) (h : startsAtRoot p = true) :
    absoluteFrom dir p = p := by
  rw [absoluteFrom, if_pos h]

/-- What has been resolved from one directory stays as it is in any other. -/
theorem absoluteFrom_absoluteFrom (p other : String) (hdir : startsAtRoot dir = true) :
    absoluteFrom other (absoluteFrom dir p) = absoluteFrom dir p :=
  absoluteFrom_of_root other (startsAtRoot_absoluteFrom p hdir)

theorem settles_absoluteFrom (p : String) (hdir : startsAtRoot dir = true) :
    Settles dir p (absoluteFrom dir p) := by
  cases hp : startsAtRoot p with
  | true =>
    rw [absoluteFrom_of_root dir hp]
    exact .rooted hp
  | false =>
    obtain ⟨q, habs, hq, htext⟩ := exists_resolved p hdir
    by_cases htwo : StartsWithTwoSlashes dir
    · rw [absoluteFrom_eq_slash_resolve hdir htwo hp, ← htext]
      exact .belowTwoSlashes hp habs hq htext htwo
    · rw [absoluteFrom_eq_resolve hdir htwo hp, ← htext]
      exact .below hp habs hq htext htwo

end Posix

theorem Settles.startsAtRoot (h : Settles dir p q) : startsAtRoot q = true := by
  cases h with
  | rooted hp => exact hp
  | below _ habs => exact startsAtRoot_text habs
  | belowTwoSlashes => simp [Path.startsAtRoot]

end Path

open CommandShell.Path (startsAtRoot Settles)
open CommandShell.Path.Posix (absoluteFrom)

namespace Line.Redirection

variable {dir : String}

theorem target_resolved (r : Redirection) (hdir : startsAtRoot dir = true) :
    Option.Rel (Settles dir) r.target (r.resolved dir).target := by
  cases htarget : r.target with
  | none =>
    have hresolved : (r.resolved dir).target = none := by rw [resolved, htarget]; rfl
    rw [hresolved]
    exact .none
  | some p =>
    have hresolved : (r.resolved dir).target = some (absoluteFrom dir p) := by
      rw [resolved, htarget]; rfl
    rw [hresolved]
    exact .some (Path.Posix.settles_absoluteFrom p hdir)

theorem resolved_resolved (r : Redirection) (other : String) (hdir : startsAtRoot dir = true) :
    (r.resolved dir).resolved other = r.resolved dir := by
  obtain ⟨target, append, channel⟩ := r
  cases target with
  | none => simp [resolved]
  | some p => simp [resolved, Path.Posix.absoluteFrom_absoluteFrom p other hdir]

end Line.Redirection

namespace Session

variable {s t : Session}

theorem forall₂_searchDirectories (hdir : startsAtRoot s.dir = true) :
    List.Forall₂ (Settles s.dir) ((Text.pieces ':' (s.searchPath.getD "")).filter (· ≠ ""))
      s.searchDirectories := by
  rw [searchDirectories, List.forall₂_map_right_iff, List.forall₂_same]
  intro p _
  exact Path.Posix.settles_absoluteFrom p hdir

theorem startsAtRoot_of_mem_searchDirectories (hdir : startsAtRoot s.dir = true) {d : String}
    (hd : d ∈ s.searchDirectories) : startsAtRoot d = true := by
  obtain ⟨p, -, rfl⟩ := List.mem_map.mp hd
  exact Path.Posix.startsAtRoot_absoluteFrom p hdir

/-- Written down as a search path, absolute directories are what is searched, wherever the shell
is. -/
theorem searchDirectories_of_joined {ds : List String}
    (hds : ∀ d ∈ ds, startsAtRoot d = true ∧ ':' ∉ d.toList)
    (ht : t.searchPath = some (Text.joined ":" ds)) : t.searchDirectories = ds := by
  have hpieces : (Text.pieces ':' (Text.joined ":" ds)).filter (· ≠ "") = ds := by
    refine Text.filter_pieces_joined fun d hd => ⟨?_, (hds d hd).2⟩
    rintro rfl
    exact absurd (hds "" hd).1 (by decide)
  rw [searchDirectories, ht, Option.getD_some, hpieces]
  calc ds.map (absoluteFrom t.dir)
      = ds.map id := List.map_congr_left fun d hd =>
          Path.Posix.absoluteFrom_of_root t.dir (hds d hd).1
    _ = ds := List.map_id ds

end Session

/-- A redirection that is resolved keeps all but a relative target, which becomes absolute and tidy,
and is resolved once and for all. A search path is resolved entry by entry in the same way, and what
is searched can be put back as the search path of any session. -/
theorem resolved_once_for_all :
    (∀ (r : Line.Redirection) (dir other : String), startsAtRoot dir = true →
        (r.resolved dir).append = r.append ∧ (r.resolved dir).channel = r.channel ∧
          Option.Rel (Settles dir) r.target (r.resolved dir).target ∧
          (∀ q ∈ (r.resolved dir).target, startsAtRoot q = true) ∧
          (r.resolved dir).resolved other = r.resolved dir) ∧
      ∀ s : Session, startsAtRoot s.dir = true →
        List.Forall₂ (Settles s.dir) ((Text.pieces ':' (s.searchPath.getD "")).filter (· ≠ ""))
            s.searchDirectories ∧
          (∀ d ∈ s.searchDirectories, startsAtRoot d = true) ∧
          ∀ t : Session, (∀ d ∈ s.searchDirectories, ':' ∉ d.toList) →
            t.searchPath = some (Text.joined ":" s.searchDirectories) →
            t.searchDirectories = s.searchDirectories := by
  constructor
  · intro r dir other hdir
    have hrel := r.target_resolved hdir
    refine ⟨rfl, rfl, hrel, ?_, r.resolved_resolved other hdir⟩
    intro q hq
    rw [Option.mem_def.mp hq] at hrel
    generalize r.target = target at hrel
    cases hrel with
    | some hsettles => exact hsettles.startsAtRoot
  · intro s hdir
    have hroot (d : String) (hd : d ∈ s.searchDirectories) : startsAtRoot d = true :=
      Session.startsAtRoot_of_mem_searchDirectories hdir hd
    refine ⟨Session.forall₂_searchDirectories hdir, hroot, ?_⟩
    intro t hcolon ht
    exact Session.searchDirectories_of_joined (fun d hd => ⟨hroot d hd, hcolon d hd⟩) ht

/-- From a directory with two slashes in front, past the root, and an empty target. -/
theorem resolved_once_for_all_past_the_root :
    let r : Line.Redirection := ⟨some "", true, .error⟩
    let s : Session := { dir := "//w/", searchPath := some "bin:::/usr//x:../../.." }
    let t : Session := { dir := "/v", searchPath := some "//w/bin:/usr//x://" }
    startsAtRoot s.dir = true ∧ (r.resolved s.dir).target = some "//w" ∧
      Option.Rel (Settles s.dir) (some "") (some "//w") ∧
      (r.resolved s.dir).resolved "/v" = r.resolved s.dir ∧
      s.searchDirectories = ["//w/bin", "/usr//x", "//"] ∧
      List.Forall₂ (Settles s.dir) ["bin", "/usr//x", "../../.."]
        ["//w/bin", "/usr//x", "//"] ∧
      (∀ d ∈ s.searchDirectories, ':' ∉ d.toList) ∧
      t.searchPath = some (Text.joined ":" s.searchDirectories) ∧
      t.searchDirectories = s.searchDirectories := by
  intro r s t
  have hdir : startsAtRoot s.dir = true := by decide
  have hresolved : (r.resolved s.dir).target = some "//w" := by decide
  have hpieces : (Text.pieces ':' (s.searchPath.getD "")).filter (· ≠ "") =
      ["bin", "/usr//x", "../../.."] := by decide
  have hdirectories : s.searchDirectories = ["//w/bin", "/usr//x", "//"] := by decide
  have hcolon : ∀ d ∈ s.searchDirectories, ':' ∉ d.toList := by
    rw [hdirectories]
    decide
  have hpath : t.searchPath = some (Text.joined ":" s.searchDirectories) := by
    rw [hdirectories]
    decide
  obtain ⟨hredirection, hsearch⟩ := resolved_once_for_all
  obtain ⟨-, -, htarget, -, hagain⟩ := hredirection r s.dir "/v" hdir
  obtain ⟨hentries, -, hback⟩ := hsearch s hdir
  rw [hresolved] at htarget
  rw [hpieces, hdirectories] at hentries
  exact ⟨hdir, hresolved, htarget, hagain, hdirectories, hentries, hcolon, hpath,
    hback t hcolon hpath⟩

end CommandShell
