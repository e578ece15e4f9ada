import CommandShell.Proofs.Descent
import CommandShell.Proofs.FileSystem.Compact

/-! # Normal forms of paths

The tidy form of a path is one from which the text alone takes nothing away: no component is empty
or a dot, and `..` stands only where nothing can be taken away before it, which is nowhere in an
absolute path and at the front of a relative one. The components read so far, with every `..`
resolved, are all that the rest of a path needs to know of them; so a path can be resolved in two
steps. A path that is written down is read back as the same path, and leads where it led. -/
namespace CommandShell.Path

open FileSystem (AreComponents)

/-- No component can be left out, by the text alone. -/
structure Reduced (p : Path) : Prop where
  components : AreComponents p.components
  noDot : "." ∉ p.components
  rooted : p.absolute = true → ".." ∉ p.components
  /-- Only another `..` can stand before a `..`. -/
  dotsInFront : p.components.Pairwise fun before c => c = ".." → before = ".."

/-- A text that writes down a path of which nothing can be left out. -/
def IsTidy (s : String) : Prop :=
  ∃ p : Path, p.Reduced ∧ s = p.text

variable {p : Path} {absolute : Bool} {before cs : List String} {c s : String}

theorem ofText_text (h : AreComponents p.components) (hdot : "." ∉ p.components) :
    ofText p.text = p := by
  obtain ⟨absolute, components⟩ := p
  have hkept : components.filter (· ≠ ".") = components := by
    rw [List.filter_eq_self]
    intro c hc
    simpa using fun he : c = "." => hdot (he ▸ hc)
  cases absolute with
  | true =>
    have htext : text ⟨true, components⟩ = "/" ++ Text.joined "/" components := rfl
    rw [ofText, startsAtRoot_text rfl, htext, names_slash, Posix.names_joined h, hkept]
  | false =>
    cases components with
    | nil => decide
    | cons c cs =>
      have htext : text ⟨false, c :: cs⟩ = Text.joined "/" (c :: cs) := rfl
      rw [ofText, htext, Posix.startsAtRoot_joined h, Posix.names_joined h, hkept]

theorem Reduced.ofText_text (h : p.Reduced) : ofText p.text = p :=
  Path.ofText_text h.components h.noDot

theorem areComponents_ofText (s : String) : AreComponents (ofText s).components :=
  Posix.areComponents_plainNames s

theorem dot_notMem_ofText (s : String) : "." ∉ (ofText s).components := by
  intro hmem
  simpa using (List.mem_filter.mp hmem).2

namespace Reduced

theorem nil (absolute : Bool) : Reduced ⟨absolute, []⟩ :=
  ⟨fun _ h => absurd h List.not_mem_nil, List.not_mem_nil, fun _ => List.not_mem_nil, .nil⟩

theorem front (h : Reduced ⟨absolute, before ++ cs⟩) : Reduced ⟨absolute, before⟩ where
  components c hc := h.components c (List.mem_append_left cs hc)
  noDot hmem := h.noDot (List.mem_append_left cs hmem)
  rooted ha hmem := h.rooted ha (List.mem_append_left cs hmem)
  dotsInFront := (List.pairwise_append.mp h.dotsInFront).1

theorem concat (h : Reduced ⟨absolute, before⟩) (hc : c ≠ "" ∧ '/' ∉ c.toList) (hdot : c ≠ ".")
    (hdots : c = ".." → absolute = false ∧ ∀ d ∈ before, d = "..") :
    Reduced ⟨absolute, before ++ [c]⟩ where
  components d hd := by
    rcases List.mem_append.mp hd with hd | hd
    · exact h.components d hd
    · exact List.mem_singleton.mp hd ▸ hc
  noDot hmem := by
    rcases List.mem_append.mp hmem with hmem | hmem
    · exact h.noDot hmem
    · exact hdot (List.mem_singleton.mp hmem).symm
  rooted ha hmem := by
    rcases List.mem_append.mp hmem with hmem | hmem
    · exact h.rooted ha hmem
    · have hrelative := (hdots (List.mem_singleton.mp hmem).symm).1
      rw [show absolute = true from ha] at hrelative
      cases hrelative
  dotsInFront := by
    refine List.pairwise_append.mpr ⟨h.dotsInFront, List.pairwise_singleton _ c, ?_⟩
    intro d hd e he hup
    obtain rfl := List.mem_singleton.mp he
    exact (hdots hup).2 d hd

theorem eq_dots (h : Reduced ⟨absolute, cs ++ [".."]⟩) : ∀ d ∈ cs ++ [".."], d = ".." := by
  intro d hd
  rcases List.mem_append.mp hd with hd | hd
  · exact (List.pairwise_append.mp h.dotsInFront).2.2 d hd ".." List.mem_cons_self rfl
  · exact List.mem_singleton.mp hd

theorem step (h : Reduced ⟨absolute, before.reverse⟩) (hc : c ≠ "" ∧ '/' ∉ c.toList)
    (hdot : c ≠ ".") : Reduced ⟨absolute, (step absolute before c).reverse⟩ := by
  have hadd (hdots : c = ".." → absolute = false ∧ ∀ d ∈ before.reverse, d = "..") :
      Reduced ⟨absolute, (c :: before).reverse⟩ := by
    rw [List.reverse_cons]
    exact h.concat hc hdot hdots
  cases before with
  | nil =>
    rw [Path.step]
    split
    · exact nil absolute
    · next hup =>
      rw [not_and, Bool.not_eq_true] at hup
      exact hadd fun hdots => ⟨hup hdots, by simp⟩
  | cons top rest =>
    rw [Path.step]
    split
    · next hdots =>
      split
      · rw [List.reverse_cons] at h
        exact h.front
      · next htop =>
        -- Nothing is left to take away: the root stays, a relative path gets one `..` more.
        obtain rfl : top = ".." := Classical.not_not.mp htop
        split
        · exact h
        · next habs =>
          rw [List.reverse_cons] at h hadd
          exact hadd fun _ => ⟨by simpa using habs, h.eq_dots⟩
    · next hname => exact hadd fun hdots => absurd hdots hname

theorem foldl_step (h : Reduced ⟨absolute, before.reverse⟩) (hcs : AreComponents cs)
    (hdot : "." ∉ cs) : Reduced ⟨absolute, (cs.foldl (Path.step absolute) before).reverse⟩ := by
  induction cs generalizing before with
  | nil => exact h
  | cons c cs ih =>
    have hc : c ≠ "." := fun he => hdot (he ▸ List.mem_cons_self)
    exact ih (h.step (hcs c List.mem_cons_self) hc) (fun d hd => hcs d (List.mem_cons_of_mem c hd))
      fun hmem => hdot (List.mem_cons_of_mem c hmem)

end Reduced

theorem reduced_ofText (s : String) : (ofText s).reduced.Reduced :=
  Reduced.foldl_step (Reduced.nil _) (areComponents_ofText s) (dot_notMem_ofText s)

theorem isTidy_tidy (s : String) : IsTidy (tidy s) :=
  ⟨(ofText s).reduced, reduced_ofText s, rfl⟩

theorem startsAtRoot_tidy_eq (s : String) : startsAtRoot (tidy s) = startsAtRoot s :=
  congrArg Path.absolute (reduced_ofText s).ofText_text

theorem step_of_reduced (h : Reduced ⟨absolute, before.reverse ++ c :: cs⟩) :
    step absolute before c = c :: before := by
  by_cases hup : c = ".."
  · subst hup
    have hrelative : absolute ≠ true := fun habs => h.rooted habs (by simp)
    cases before with
    | nil => simp [step, hrelative]
    | cons top rest =>
      have htop : top = ".." := (List.pairwise_append.mp h.dotsInFront).2.2 top (by simp) ".."
        List.mem_cons_self rfl
      simp [step, htop, hrelative]
  · cases before with
    | nil => simp [step, hup]
    | cons top rest => simp [step, hup]

theorem foldl_step_of_reduced (h : Reduced ⟨absolute, before.reverse ++ cs⟩) :
    cs.foldl (step absolute) before = cs.reverse ++ before := by
  induction cs generalizing before with
  | nil => rfl
  | cons c cs ih =>
    have hnext : Reduced ⟨absolute, (c :: before).reverse ++ cs⟩ := by simpa using h
    rw [List.foldl_cons, step_of_reduced h, ih hnext, List.reverse_cons, List.append_assoc]
    rfl

theorem Reduced.reduced_eq (h : p.Reduced) : p.reduced = p := by
  have hfold : p.components.foldl (Path.step p.absolute) [] = p.components.reverse ++ [] :=
    foldl_step_of_reduced h
  rw [reduced, hfold, List.append_nil, List.reverse_reverse]

theorem IsTidy.tidy_eq (h : IsTidy s) : tidy s = s := by
  obtain ⟨p, hp, rfl⟩ := h
  rw [tidy, hp.ofText_text, hp.reduced_eq]

theorem tidy_eq_self_iff (s : String) : tidy s = s ↔ IsTidy s :=
  ⟨fun h => h ▸ isTidy_tidy s, IsTidy.tidy_eq⟩

instance : DecidablePred IsTidy :=
  fun s => decidable_of_iff _ (tidy_eq_self_iff s)

example : IsTidy "../../a" := by decide

theorem isTidy_resolve (s dir : String) : IsTidy (resolve s dir) := by
  unfold resolve
  split
  · exact isTidy_tidy s
  · exact isTidy_tidy _

theorem resolve_resolve {dir p q : String} (hdir : startsAtRoot dir = true) (hp : p ≠ "")
    (hq : startsAtRoot q = false) : resolve q (resolve p dir) = resolve (p ++ "/" ++ q) dir := by
  calc resolve q (resolve p dir)
      = (place (resolve p dir) q).text := resolve_eq_place (startsAtRoot_resolve p hdir) q
    _ = ((names q).foldl Location.move (place dir p)).text := by
        rw [resolve_eq_place hdir p, place_from_text (proper_place dir p) hq]
    _ = (place dir (p ++ "/" ++ q)).text := by rw [place_append hp]
    _ = resolve (p ++ "/" ++ q) dir := (resolve_eq_place hdir _).symm

/-- Simplifying gives exactly the texts that it leaves as they are, absolute for absolute paths; and
to resolve a path and then another from there is to resolve them joined. -/
theorem resolution_composes :
    (∀ s, tidy (tidy s) = tidy s ∧ startsAtRoot (tidy s) = startsAtRoot s ∧ IsTidy (tidy s)) ∧
      (∀ s, tidy s = s ↔ IsTidy s) ∧
      ∀ dir p q, startsAtRoot dir = true → p ≠ "" → startsAtRoot q = false →
        resolve q (resolve p dir) = resolve (p ++ "/" ++ q) dir ∧
          startsAtRoot (resolve (p ++ "/" ++ q) dir) = true ∧
          IsTidy (resolve (p ++ "/" ++ q) dir) := by
  refine ⟨fun s => ⟨(isTidy_tidy s).tidy_eq, startsAtRoot_tidy_eq s, isTidy_tidy s⟩,
    tidy_eq_self_iff, ?_⟩
  intro dir p q hdir hp hq
  exact ⟨resolve_resolve hdir hp hq, startsAtRoot_resolve _ hdir, isTidy_resolve _ dir⟩

/-- Past the root, through dots and repeated slashes. -/
theorem resolution_composes_past_the_root :
    startsAtRoot "/home//u/" = true ∧ "../../..//x/." ≠ "" ∧ startsAtRoot "./y//../../../z" = false ∧
      resolve "../../..//x/." "/home//u/" = "/x" ∧
      resolve "./y//../../../z" (resolve "../../..//x/." "/home//u/") =
        resolve ("../../..//x/." ++ "/" ++ "./y//../../../z") "/home//u/" ∧
      resolve "./y//../../../z" "/x" = "/z" := by
  refine ⟨by decide, by decide, by decide, by decide, ?_, by decide⟩
  exact (resolution_composes.2.2 _ _ _ (by decide) (by decide) (by decide)).1

end CommandShell.Path

namespace CommandShell

open FileSystem (hasNul endsWithSlash pathLimit componentsFrom)
open CommandShell.Path (ofText startsAtRoot slashes)

namespace Path

theorem ofText_text_ofText (s : String) : ofText (ofText s).text = ofText s :=
  ofText_text (areComponents_ofText s) (dot_notMem_ofText s)

theorem text_ofText_inj {s t : String} :
    (ofText s).text = (ofText t).text ↔ ofText s = ofText t := by
  constructor
  · intro h
    rw [← ofText_text_ofText s, h, ofText_text_ofText]
  · exact congrArg text

theorem startsAtRoot_slashes {s : String} (n : Nat) (h : startsAtRoot s = true) :
    startsAtRoot (slashes n ++ s) = true := by
  cases n with
  | zero => simpa [slashes] using h
  | succ n => simp [slashes_succ, startsAtRoot]

end Path

namespace FileSystem

variable {fs : FileSystem} {processDir path : String} {l : Location}

/-- More slashes before an absolute path add nothing to it but length. -/
theorem locate_of_slashes {n : Nat} (hroot : startsAtRoot path = true)
    (h : fs.locate processDir (slashes n ++ path) = .ok l) : fs.locate processDir path = .ok l := by
  obtain ⟨hnul, hfind⟩ := locate_eq_ok_iff.mp h
  obtain ⟨-, hshort, hleads, hslash⟩ := find_eq_ok_iff.mp hfind
  have hne : path ≠ "" := by
    rintro rfl
    exact absurd hroot (by decide)
  have hcomponents : componentsFrom processDir (slashes n ++ path) =
      componentsFrom processDir path := by
    rw [componentsFrom, componentsFrom, if_pos (Path.startsAtRoot_slashes n hroot), if_pos hroot,
      Path.names_slashes]
  have hend := Path.endsWithSlash_append (slashes n) hne
  rw [String.utf8ByteSize_append] at hshort
  rw [hcomponents, hend] at hleads
  rw [hend] at hslash
  rw [locate_eq_ok_iff, find_eq_ok_iff]
  exact ⟨(hasNul_append_iff.mp hnul).2, hne, by omega, hleads, hslash⟩

/-- What a path leads to is found by its printed form, too. -/
theorem locate_printed (h : fs.locate processDir path = .ok l) :
    fs.locate processDir (ofText path).text = .ok l := by
  have hcompact := locate_compact h
  rw [Path.Posix.compact_eq_text] at hcompact
  cases hroot : startsAtRoot path with
  | true => exact locate_of_slashes (Path.startsAtRoot_text hroot) hcompact
  | false =>
    -- A relative path has no slashes in front that its printed form could lose.
    have hnone : slashes (Path.Posix.rootSlashes path.toList - 1) = "" := by
      rw [Path.Posix.rootSlashes_eq_zero hroot]
      rfl
    rwa [hnone, String.empty_append] at hcompact

theorem ne_empty_of_locate (h : fs.locate processDir path = .ok l) : path ≠ "" :=
  (find_eq_ok_iff.mp (locate_eq_ok_iff.mp h).2).1

end FileSystem

namespace Path

/-- A printed path is read back as what was printed, different paths are printed differently, and
what a path leads to is what its printed form leads to. -/
theorem printed_faithfully :
    (∀ s, ofText (ofText s).text = ofText s) ∧
      (∀ s t, (ofText s).text = (ofText t).text ↔ ofText s = ofText t) ∧
      ∀ (fs : FileSystem) (processDir s : String) (l : Location),
        fs.locate processDir s = .ok l →
          s ≠ "" ∧ fs.locate processDir (ofText s).text = .ok l := by
  refine ⟨ofText_text_ofText, fun s t => text_ofText_inj, ?_⟩
  intro fs processDir s l h
  exact ⟨FileSystem.ne_empty_of_locate h, FileSystem.locate_printed h⟩

/-- A directory behind a link, looked up through dots and with slashes at both ends. -/
theorem printed_faithfully_behind_a_link :
    let fs : FileSystem := { nodes := [(["a"], .directory {}), (["d", "a"], .directory {}),
      (["b"], .link "./a//")] }
    fs.locate "/" "//./b//./d//" = .ok ["d", "a"] ∧ fs.isDirectoryAt ["d", "a"] = true ∧
      (ofText "//./b//./d//").text = "/b/d" ∧ "//./b//./d//" ≠ "" ∧
      fs.locate "/" (ofText "//./b//./d//").text = .ok ["d", "a"] ∧
      fs.locate "/b" ".//d/." = .ok ["d", "a"] ∧ (ofText ".//d/.").text = "d" ∧ ".//d/." ≠ "" ∧
      fs.locate "/b" (ofText ".//d/.").text = .ok ["d", "a"] := by
  intro fs
  obtain ⟨-, -, hkept⟩ := printed_faithfully
  have hroot : fs.locate "/" "//./b//./d//" = .ok ["d", "a"] := rfl
  have hbelow : fs.locate "/b" ".//d/." = .ok ["d", "a"] := rfl
  obtain ⟨hne, hprinted⟩ := hkept fs "/" "//./b//./d//" ["d", "a"] hroot
  obtain ⟨hneBelow, hprintedBelow⟩ := hkept fs "/b" ".//d/." ["d", "a"] hbelow
  exact ⟨hroot, by decide +kernel, by decide, hne, hprinted, hbelow, by decide, hneBelow,
    hprintedBelow⟩

end Path

end CommandShell
