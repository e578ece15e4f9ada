import Mathlib.Data.List.TakeWhile
import CommandShell.Proofs.FileSystem.LinkTexts

/-! # Absolute paths

What an absolute path leads to does not depend on the directory of the process. For a real path this
is so because the trail of the search stays absolute, whatever links are followed: no relative path
is looked up on the way. -/
namespace CommandShell

namespace Text

variable {p : Char → Bool} {cs : List Char} {c : Char}

theorem head?_dropEnd (hc : c ∈ cs) (hp : p c = false) : (dropEnd p cs).head? = cs.head? := by
  have hne : dropEnd p cs ≠ [] := by
    intro h
    rw [dropEnd, List.reverse_eq_nil_iff, List.dropWhile_eq_nil_iff] at h
    have hall := h c (List.mem_reverse.mpr hc)
    rw [hp] at hall
    cases hall
  obtain ⟨rest, hrest⟩ := dropEnd_prefix p cs
  obtain ⟨a, as, has⟩ := List.exists_cons_of_ne_nil hne
  rw [has, ← hrest, has]
  rfl

end Text

namespace Path

theorem exists_not_slash {path : String} (h : names path ≠ []) :
    ∃ c ∈ path.toList, c ≠ '/' := by
  obtain ⟨name, hname⟩ := List.exists_mem_of_ne_nil _ h
  obtain ⟨hpiece, hne⟩ := List.mem_filter.mp hname
  have hchars : name.toList ≠ [] := by simpa using hne
  obtain ⟨c, hc⟩ := List.exists_mem_of_ne_nil _ hchars
  refine ⟨c, Text.mem_of_mem_pieces hpiece hc, ?_⟩
  rintro rfl
  exact Text.not_mem_pieces hpiece hc

end Path

namespace FileSystem

open CommandShell.Path (startsAtRoot)

variable {fs : FileSystem} {path : String} {followLast append : Bool} (dir other : String)

theorem startsAtRoot_aboveEndSlash (h : startsAtRoot path = true) (hn : Path.names path ≠ []) :
    startsAtRoot (aboveEndSlash path) = true := by
  obtain ⟨c, hc, hslash⟩ := Path.exists_not_slash hn
  have hroot : path.toList.head? = some '/' := by simpa [startsAtRoot] using h
  have hfirst : (Text.dropEnd (· == '/') path.toList).head? = some '/' := by
    rw [Text.head?_dropEnd hc (by simpa using hslash), hroot]
  have hmem := List.mem_of_mem_head? hfirst
  have hsecond : (Text.dropEnd (· ≠ '/') (Text.dropEnd (· == '/') path.toList)).head? =
      some '/' := by
    rw [Text.head?_dropEnd hmem (by simp), hfirst]
  obtain ⟨rest, hrest⟩ := List.head?_eq_some_iff.mp hsecond
  rw [aboveEndSlash, hrest]
  simp [startsAtRoot]

theorem componentsFrom_absolute (h : startsAtRoot path = true) :
    componentsFrom dir path = componentsFrom other path := by
  rw [componentsFrom, componentsFrom, if_pos h, if_pos h]

theorem find_absolute (h : startsAtRoot path = true) :
    fs.find dir path followLast = fs.find other path followLast := by
  rw [find, find, componentsFrom_absolute dir other h]

theorem locate_absolute (h : startsAtRoot path = true) :
    fs.locate dir path followLast = fs.locate other path followLast := by
  rw [locate, locate, lookup, lookup, find_absolute dir other h]

theorem isDirectory_absolute (h : startsAtRoot path = true) :
    fs.isDirectory dir path = fs.isDirectory other path := by
  rw [isDirectory, isDirectory, reached?, reached?, locate_absolute dir other h]

theorem isProgram_absolute (h : startsAtRoot path = true) :
    (fs.isFile dir path && fs.mayExecute dir path) =
      (fs.isFile other path && fs.mayExecute other path) := by
  simp only [isFile, mayExecute, reached?, locate_absolute dir other h]

theorem openForWriting_absolute (h : startsAtRoot path = true) :
    fs.openForWriting dir path append = fs.openForWriting other path append := by
  have hrefusal : fs.refusalAtEndSlash dir path = fs.refusalAtEndSlash other path := by
    by_cases hn : Path.names path = []
    · simp only [refusalAtEndSlash, if_pos hn]
    · simp only [refusalAtEndSlash, if_neg hn,
        find_absolute dir other (startsAtRoot_aboveEndSlash h hn)]
  simp only [openForWriting, hrefusal, find_absolute dir other h]

theorem findProgram?_absolute {name : String} {directories : List String}
    (h : ∀ d ∈ directories, startsAtRoot d = true) :
    fs.findProgram? dir name directories = fs.findProgram? other name directories := by
  unfold findProgram?
  split
  · rfl
  · induction directories with
    | nil => rw [List.findSome?_nil, List.findSome?_nil]
    | cons d directories ih =>
      have hd := Path.Posix.startsAtRoot_join name (h d List.mem_cons_self)
      simp only [List.findSome?_cons, isProgram_absolute dir other hd,
        ih fun d' h' => h d' (List.mem_cons_of_mem d h')]

def Resolution.Absolute : Resolution → Prop
  | resolved t => t.absolute = true
  | looping s => startsAtRoot s = true

def LinksSeen.Absolute (seen : LinksSeen) : Prop :=
  ∀ key t, seen.get? key = some (some t) → t.absolute = true

def FindsAbsolute (result : Except Fault (Resolution × LinksSeen)) : Prop :=
  ∀ r seen, result = .ok (r, seen) → r.Absolute ∧ LinksSeen.Absolute seen

variable {t : Trail} {seen : LinksSeen}

theorem Trail.startsAtRoot_text (h : t.absolute = true) : startsAtRoot t.text = true :=
  Path.startsAtRoot_text h

theorem linkText?_absolute (h : startsAtRoot path = true) :
    fs.linkText? dir path = fs.linkText? other path := by
  rw [linkText?, linkText?, locate_absolute dir other h]

/-- From an absolute trail the search goes on with absolute trails alone, so it goes the same way
from every directory. -/
theorem along_absolute
    {resolve resolve' : LinksSeen → Trail → String → Except Fault (Resolution × LinksSeen)}
    (hr : ∀ seen t path, LinksSeen.Absolute seen → t.absolute = true →
      resolve seen t path = resolve' seen t path ∧ FindsAbsolute (resolve seen t path))
    (hseen : LinksSeen.Absolute seen) (ht : t.absolute = true) (ps : List String) :
    along fs dir resolve seen t ps = along fs other resolve' seen t ps ∧
      FindsAbsolute (along fs dir resolve seen t ps) := by
  induction ps generalizing seen t with
  | nil =>
    refine ⟨rfl, ?_⟩
    rintro r seen' h
    cases h
    exact ⟨ht, hseen⟩
  | cons c rest ih =>
    have hnext : startsAtRoot (t.enter c).text = true := Trail.startsAtRoot_text ht
    by_cases hdot : c = "" ∨ c = "."
    · simp only [along, if_pos hdot]
      exact ih hseen ht
    by_cases hup : c = ".."
    · simp only [along, if_neg hdot, if_pos hup]
      exact ih hseen ht
    simp only [along, if_neg hdot, if_neg hup, linkText?_absolute dir other hnext]
    cases hlink : fs.linkText? other (t.enter c).text with
    | error f => exact ⟨rfl, fun r seen' h => by cases h⟩
    | ok target? =>
      cases target? with
      | none => exact ih hseen ht
      | some target =>
        dsimp only
        cases hget : seen.get? (t.enter c).text with
        | some known? =>
          cases known? with
          | some known => exact ih hseen (hseen _ known hget)
          | none =>
            refine ⟨rfl, ?_⟩
            rintro r seen' h
            cases h
            exact ⟨Path.Posix.startsAtRoot_join _ hnext, hseen⟩
        | none =>
          obtain ⟨he, hfinds⟩ := hr (((t.enter c).text, none) :: seen) t target
            (LinksSeen.forall_cons hseen (by simp)) ht
          dsimp only
          rw [← he]
          cases hres : resolve (((t.enter c).text, none) :: seen) t target with
          | error f => exact ⟨rfl, fun r seen' h => by cases h⟩
          | ok found =>
            obtain ⟨r, after⟩ := found
            obtain ⟨habs, hafter⟩ := hfinds r after hres
            cases r with
            | looping s =>
              refine ⟨rfl, ?_⟩
              rintro r seen' h
              cases h
              exact ⟨Path.Posix.startsAtRoot_join _ habs, hafter⟩
            | resolved known =>
              exact ih (LinksSeen.forall_cons hafter fun u hu => Option.some.inj hu ▸ habs) habs

theorem resolveFrom_absolute (depth : Nat) (hseen : LinksSeen.Absolute seen)
    (h : startsAtRoot path = true ∨ t.absolute = true) :
    resolveFrom fs dir depth seen t path = resolveFrom fs other depth seen t path ∧
      FindsAbsolute (resolveFrom fs dir depth seen t path) := by
  induction depth generalizing seen t path with
  | zero => exact ⟨rfl, fun r seen' h => by cases h⟩
  | succ depth ih =>
    have hstart : (if startsAtRoot path then (⟨true, []⟩ : Trail) else t).absolute = true := by
      by_cases hp : startsAtRoot path = true
      · rw [if_pos hp]
      · rw [if_neg hp]
        exact h.resolve_left hp
    exact along_absolute dir other (fun _ _ _ hseen ht => ih hseen (.inr ht)) hseen hstart _

theorem ok_normal_absolute {s : String} (h : startsAtRoot s = true) :
    (.ok (Path.Posix.normal (Path.Posix.join dir s)) : Except Fault String) =
        .ok (Path.Posix.normal (Path.Posix.join other s)) ∧
      ∀ real, (.ok (Path.Posix.normal (Path.Posix.join dir s)) : Except Fault String) = .ok real →
        startsAtRoot real = true := by
  have hjoin (d : String) : Path.Posix.join d s = s := if_pos h
  rw [hjoin, hjoin]
  refine ⟨rfl, ?_⟩
  rintro real hr
  cases hr
  exact Path.Posix.startsAtRoot_normal h

/-- The real path of an absolute path is absolute, and the same for every directory of the
process. -/
theorem realPath_absolute (h : startsAtRoot path = true) :
    fs.realPath dir path = fs.realPath other path ∧
      ∀ real, fs.realPath dir path = .ok real → startsAtRoot real = true := by
  have hseen : LinksSeen.Absolute [] := fun _ _ h => by simp [Table.get?] at h
  unfold realPath
  generalize nestingLimit = depth
  have hresolve : resolveFrom fs dir depth [] ⟨false, []⟩ path =
      resolveFrom fs other depth [] ⟨false, []⟩ path ∧
        FindsAbsolute (resolveFrom fs dir depth [] ⟨false, []⟩ path) :=
    resolveFrom_absolute dir other depth hseen (.inl h)
  rw [← hresolve.1]
  simp only [bind, Except.bind, pure, Except.pure]
  cases hres : resolveFrom fs dir depth [] ⟨false, []⟩ path with
  | error f => exact ⟨rfl, fun real hr => by cases hr⟩
  | ok found =>
    obtain ⟨r, seen⟩ := found
    obtain ⟨habs, -⟩ := hresolve.2 r seen hres
    cases r with
    | looping s => exact ok_normal_absolute dir other habs
    | resolved t =>
      have ht : t.absolute = true := habs
      simp only [ht, Bool.not_true, Bool.and_false, Bool.false_eq_true, if_false]
      exact ok_normal_absolute dir other (Trail.startsAtRoot_text ht)

end FileSystem

end CommandShell
