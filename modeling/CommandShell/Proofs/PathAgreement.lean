import CommandShell.Proofs.NormalPaths

/-! # Two normal forms

The shell simplifies the argument of `cd` by its own rules and every other relative path by those of
POSIX. Both rules keep the same components and differ in the slashes at the front alone: where a
path starts with exactly two, POSIX keeps them. A path taken from a directory starts as the
directory does, so the two rules name the same place wherever that does not start in this way. -/
namespace CommandShell

namespace Path

def StartsWithTwoSlashes (s : String) : Prop :=
  ∃ rest, s.toList = '/' :: '/' :: rest ∧ rest.head? ≠ some '/'

variable {s dir p : String}

namespace Posix

theorem rootSlashes_eq_two_iff : rootSlashes s.toList = 2 ↔ StartsWithTwoSlashes s := by
  unfold rootSlashes StartsWithTwoSlashes
  split
  · next h => simp [h]
  · next rest hthree h =>
    have hrest : rest.head? ≠ some '/' := by
      intro hhead
      obtain ⟨tail, rfl⟩ := List.head?_eq_some_iff.mp hhead
      exact hthree tail rfl
    simpa [h] using hrest
  · next rest hthree htwo h =>
    refine ⟨fun he => absurd he (by decide), ?_⟩
    rintro ⟨tail, htail, -⟩
    rw [h] at htail
    exact absurd (List.cons.inj htail).2 (htwo tail)
  · next hone =>
    refine ⟨fun he => absurd he (by decide), ?_⟩
    rintro ⟨tail, htail, -⟩
    exact absurd htail (hone _)

instance : DecidablePred StartsWithTwoSlashes :=
  fun _ => decidable_of_iff _ rootSlashes_eq_two_iff

theorem rootSlashes_le (cs : List Char) : rootSlashes cs ≤ 2 := by
  unfold rootSlashes
  split <;> decide

/-- The POSIX form of a path is its tidy form, after a slash more if exactly two start the path. -/
theorem normal_eq (s : String) : normal s = slashes (rootSlashes s.toList - 1) ++ tidy s := by
  have hkept : (simplified (rootSlashes s.toList) [] (Text.pieces '/' s)).reverse =
      (ofText s).reduced.components := by
    rw [simplified_eq_foldl fun _ => List.not_mem_nil, rootSlashes_ne_zero]
    rfl
  have hwritten := written_eq (reduced_ofText s).components (rootSlashes s.toList)
  rw [rootSlashes_ne_zero] at hwritten
  simp only [normal, hkept]
  exact hwritten

theorem normal_eq_tidy (h : ¬ StartsWithTwoSlashes s) : normal s = tidy s := by
  have htwo : rootSlashes s.toList ≠ 2 := fun he => h (rootSlashes_eq_two_iff.mp he)
  have hle := rootSlashes_le s.toList
  have hmore : rootSlashes s.toList - 1 = 0 := by omega
  have hslashes : slashes 0 = "" := rfl
  rw [normal_eq, hmore, hslashes, String.empty_append]

theorem normal_eq_slash_tidy (h : StartsWithTwoSlashes s) : normal s = "/" ++ tidy s := by
  rw [normal_eq, rootSlashes_eq_two_iff.mpr h]
  rfl

theorem join_eq (dir : String) (hp : startsAtRoot p = false) :
    ∃ added, (join dir p).toList = dir.toList ++ added ∧
      (dir.toList.getLast? = some '/' → added.head? ≠ some '/') := by
  have hhead : p.toList.head? ≠ some '/' := by simpa [startsAtRoot] using hp
  rw [join, if_neg (by simp [hp])]
  split
  · exact ⟨p.toList, String.toList_append, fun _ => hhead⟩
  · next hend =>
    refine ⟨'/' :: p.toList, by simp, ?_⟩
    intro hlast
    exact absurd (.inr hlast) hend

theorem not_startsWithTwoSlashes_join (hdir : startsAtRoot dir = true)
    (htwo : ¬ StartsWithTwoSlashes dir) (hp : startsAtRoot p = false) :
    ¬ StartsWithTwoSlashes (join dir p) := by
  obtain ⟨added, hjoin, hadded⟩ := join_eq dir hp
  obtain ⟨front, hfront⟩ : ∃ front, dir.toList = '/' :: front := by
    simp only [startsAtRoot, beq_iff_eq] at hdir
    exact List.head?_eq_some_iff.mp hdir
  rintro ⟨rest, hrest, hthird⟩
  rw [hjoin, hfront] at hrest
  cases front with
  | nil =>
    obtain ⟨-, rfl⟩ := List.cons.inj hrest
    exact hadded (by simp [hfront]) rfl
  | cons c tail =>
    obtain ⟨rfl, rfl⟩ : c = '/' ∧ tail ++ added = rest := by simpa using hrest
    refine htwo ⟨tail, hfront, ?_⟩
    intro hhead
    obtain ⟨after, rfl⟩ := List.head?_eq_some_iff.mp hhead
    exact hthird rfl

/-- Taken from a directory, a relative path means the same to both rules. -/
theorem absoluteFrom_eq_resolve (hdir : startsAtRoot dir = true)
    (htwo : ¬ StartsWithTwoSlashes dir) (hp : startsAtRoot p = false) :
    absoluteFrom dir p = resolve p dir := by
  have hroot := startsAtRoot_join p hdir
  rw [absoluteFrom, if_neg (by simp [hp]),
    normal_eq_tidy (not_startsWithTwoSlashes_join hdir htwo hp), Location.tidy_eq hroot,
    resolve_eq_text hdir hp]

end Posix

end Path

namespace Session

variable {s : Session}

/-- The directories of a search path are where `cd` would take them, the absolute ones apart, which
are searched as they are written. -/
theorem searchDirectories_eq (hdir : Path.startsAtRoot s.dir = true)
    (htwo : ¬ Path.StartsWithTwoSlashes s.dir) :
    s.searchDirectories = ((Text.pieces ':' (s.searchPath.getD "")).filter (· ≠ "")).map fun p =>
      if Path.startsAtRoot p then p else Path.resolve p s.dir := by
  unfold searchDirectories
  apply List.map_congr_left
  intro p _
  by_cases hp : Path.startsAtRoot p = true
  · rw [Path.Posix.absoluteFrom, if_pos hp, if_pos hp]
  · have hp : Path.startsAtRoot p = false := by simpa using hp
    rw [Path.Posix.absoluteFrom_eq_resolve hdir htwo hp, if_neg (by simp [hp])]

end Session

theorem Text.pieces_of_not_mem {sep : Char} {s : String} (h : sep ∉ s.toList) :
    pieces sep s = [s] := by
  have hpieces : pieces sep (joined (String.ofList [sep]) [s]) = [s] :=
    pieces_joined (by simpa using h)
  exact hpieces

namespace Path

/-- The two normal forms of a path are one text, but for a slash where exactly two start the path;
so a relative path stands for one place as an argument of `cd`, as the target of a redirection and
as a directory that is searched for programs. -/
theorem normal_forms_agree :
    (∀ p, ¬ StartsWithTwoSlashes p → tidy p = Posix.normal p) ∧
      (∀ p, StartsWithTwoSlashes p → Posix.normal p = "/" ++ tidy p) ∧
      ∀ dir p, startsAtRoot dir = true → ¬ StartsWithTwoSlashes dir → startsAtRoot p = false →
        (∀ s : Session, s.dir = dir → p ≠ "~" → ¬ ['~', '/'] <+: p.toList →
            s.target (some p) = .ok (p, resolve p dir)) ∧
          (∀ r : Line.Redirection, r.target = some p →
            (r.resolved dir).target = some (resolve p dir)) ∧
          (∀ s : Session, s.dir = dir → s.searchPath = some p → p ≠ "" → ':' ∉ p.toList →
            s.searchDirectories = [resolve p dir]) := by
  refine ⟨fun p h => (Posix.normal_eq_tidy h).symm, fun p => Posix.normal_eq_slash_tidy, ?_⟩
  intro dir p hdir htwo hp
  refine ⟨?_, ?_, ?_⟩
  · rintro s rfl hhome hbelow
    rw [Session.target_relative hdir hp hhome hbelow, resolve_eq_text hdir hp]
  · intro r htarget
    rw [Line.Redirection.resolved, htarget]
    exact congrArg some (Posix.absoluteFrom_eq_resolve hdir htwo hp)
  · rintro s rfl hpath hne hcolon
    rw [Session.searchDirectories_eq hdir htwo, hpath]
    simp [Text.pieces_of_not_mem hcolon, hne, hp]

/-- Up past the root from a directory with three slashes, and two slashes that one form keeps. -/
theorem normal_forms_agree_past_the_root :
    let s : Session := { dir := "///a/", searchPath := some "../..//./~x/" }
    ¬ StartsWithTwoSlashes "../../a//./b/.." ∧
      tidy "../../a//./b/.." = Posix.normal "../../a//./b/.." ∧
      StartsWithTwoSlashes "//../a//" ∧ Posix.normal "//../a//" = "/" ++ tidy "//../a//" ∧
      tidy "//../a//" = "/a" ∧
      startsAtRoot s.dir = true ∧ ¬ StartsWithTwoSlashes s.dir ∧
      startsAtRoot "../..//./~x/" = false ∧ resolve "../..//./~x/" s.dir = "/~x" ∧
      s.target (some "../..//./~x/") = .ok ("../..//./~x/", resolve "../..//./~x/" s.dir) ∧
      (Line.Redirection.resolved s.dir ⟨some "../..//./~x/", true, .error⟩).target =
        some (resolve "../..//./~x/" s.dir) ∧
      s.searchDirectories = [resolve "../..//./~x/" s.dir] := by
  intro s
  have hdir : startsAtRoot s.dir = true := by decide
  have htwo : ¬ StartsWithTwoSlashes s.dir := by decide
  have hp : startsAtRoot "../..//./~x/" = false := by decide
  obtain ⟨hagree, hkept, htaken⟩ := normal_forms_agree
  obtain ⟨hcd, hredirection, hsearch⟩ := htaken s.dir "../..//./~x/" hdir htwo hp
  refine ⟨by decide, hagree _ (by decide), by decide, hkept _ (by decide), by decide, hdir, htwo,
    hp, by decide, ?_, ?_, ?_⟩
  · exact hcd s rfl (by decide) (by decide)
  · exact hredirection _ rfl
  · exact hsearch s rfl rfl (by decide) (by decide)

end Path

end CommandShell
