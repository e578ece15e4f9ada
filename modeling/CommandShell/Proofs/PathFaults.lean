import CommandShell.Log.Journal
import CommandShell.Proofs.ChangeDirectory

/-! # Faults of paths

Whatever is done with a path, if it ends with a fault, this is one of a few: a text that the system
is to take has the character zero, the system refuses the path, links lead too deep through one
another, or a home directory is not known. So a path that is a text never leads to a complaint about
the kind of a value. -/
namespace CommandShell

namespace Fault

inductive OfPath : Fault → Prop where
  | nulCharacter : OfPath .nulCharacter
  | system (e : SystemError) (path : String) : OfPath (.system e path)
  | tooDeep : OfPath .tooDeep
  | noHome : OfPath .noHome

inductive OfKind : Fault → Prop where
  | wrongKind : OfKind .wrongKind
  | missingOperation (kind operation : String) : OfKind (.missingOperation kind operation)

theorem OfPath.not_ofKind {f : Fault} (h : f.OfPath) : ¬ f.OfKind := by
  intro hk
  cases hk <;> cases h

end Fault

namespace FileSystem

variable {fs : FileSystem} {processDir path : String} {followLast : Bool} {f : Fault}

theorem lookup_fault (h : fs.lookup processDir path followLast = .error f) : f.OfPath := by
  rcases lookup_error h with ⟨rfl, -⟩ | ⟨e, -, rfl⟩
  · exact .nulCharacter
  · exact .system e path

theorem locate_fault (h : fs.locate processDir path followLast = .error f) : f.OfPath := by
  rcases locate_error h with ⟨rfl, -⟩ | ⟨e, -, rfl⟩
  · exact .nulCharacter
  · exact .system e path

theorem linkText?_fault (h : fs.linkText? processDir path = .error f) : f.OfPath := by
  unfold linkText? at h
  split at h
  · split at h <;> cases h
  · cases h
  · next hlocate =>
    cases h
    exact locate_fault hlocate

theorem along_fault
    {resolveLink : LinksSeen → Trail → String → Except Fault (Resolution × LinksSeen)}
    (hr : ∀ seen t path f, resolveLink seen t path = .error f → f.OfPath) {seen : LinksSeen}
    {t : Trail} {cs : List String} (h : along fs processDir resolveLink seen t cs = .error f) :
    f.OfPath := by
  induction cs generalizing seen t with
  | nil => cases h
  | cons c rest ih =>
    unfold along at h
    split at h
    · exact ih h
    split at h
    · exact ih h
    dsimp only at h
    split at h
    · next hlink =>
      cases h
      exact linkText?_fault hlink
    · exact ih h
    · split at h
      · exact ih h
      · cases h
      · split at h
        · next hresolve =>
          cases h
          exact hr _ _ _ _ hresolve
        · cases h
        · exact ih h

theorem resolveFrom_fault {depth : Nat} {seen : LinksSeen} {t : Trail}
    (h : resolveFrom fs processDir depth seen t path = .error f) : f.OfPath := by
  induction depth generalizing seen t path f with
  | zero =>
    cases h
    exact .tooDeep
  | succ depth ih => exact along_fault (fun _ _ _ _ hr => ih hr) h

theorem realPath_fault (h : fs.realPath processDir path = .error f) : f.OfPath := by
  unfold realPath at h
  cases hr : resolveFrom fs processDir nestingLimit [] ⟨false, []⟩ path with
  | error e =>
    rw [hr] at h
    cases h
    exact resolveFrom_fault hr
  | ok r =>
    rw [hr] at h
    cases h

theorem openForWriting_fault {append : Bool}
    (h : fs.openForWriting processDir path append = .error f) : f.OfPath := by
  unfold openForWriting at h
  split at h
  · cases h
    exact .nulCharacter
  split at h
  · cases h
    exact .system _ path
  split at h
  · cases h
    exact .system _ path
  · next d _ =>
    cases hopen : fs.openAt append d with
    | error e =>
      rw [hopen] at h
      cases h
      exact .system e path
    | ok r =>
      rw [hopen] at h
      cases h

theorem makeDirectory_fault (h : fs.makeDirectory processDir path = .error f) : f.OfPath := by
  unfold makeDirectory at h
  split at h
  · next hlookup =>
    cases h
    exact lookup_fault hlookup
  · cases h
    exact .system .alreadyExists path
  · split at h
    · split at h
      · cases h
      · cases h
        exact .system .permissionDenied path
    · cases h
      exact .system .notDirectory path

end FileSystem

namespace Log

variable {fs fs' : FileSystem} {processDir path : String} {home : Option String} {f : Fault}

theorem expandUser_fault (h : expandUser home path = .error f) : f.OfPath := by
  unfold expandUser at h
  dsimp only at h
  split at h
  · split at h
    · split at h
      · cases h
        exact .noHome
      · cases h
    · cases h
      exact .noHome
  · cases h

theorem excuse_fault {g : Fault} (hg : g.OfPath) (h : excuse fs processDir path g = .error f) :
    f.OfPath := by
  unfold excuse at h
  split at h
  · split at h
    · split at h
      · cases h
      · cases h
        exact hg
    · split at h
      · cases h
        exact hg
      · cases h
        exact hg
      · cases h
        exact hg
      · cases h
        exact .system _ _
    · next hlocate =>
      cases h
      exact FileSystem.locate_fault hlocate
  · cases h
    exact hg

theorem makeOne_fault {p : Spelling} (h : makeOne fs processDir p = (.error f, fs')) :
    f.OfPath := by
  unfold makeOne at h
  split at h
  · cases h
  · cases h
    exact .system .notFound _
  · next hmake =>
    obtain ⟨hexcuse, -⟩ := Prod.mk.inj h
    exact excuse_fault (FileSystem.makeDirectory_fault hmake) hexcuse

theorem makeAll_fault {root : Nat} {names : List String}
    (h : makeAll fs processDir root names = (.error f, fs')) : f.OfPath := by
  induction names generalizing fs' with
  | nil => exact makeOne_fault h
  | cons name above ih =>
    unfold makeAll at h
    split at h
    · split at h
      · exact makeOne_fault h
      · exact ih h
    · exact makeOne_fault h

theorem openFile_fault (h : openFile processDir home path fs = (.error f, fs')) : f.OfPath := by
  unfold openFile at h
  split at h
  · next hexpand =>
    cases h
    exact expandUser_fault hexpand
  · split at h
    · next hmake =>
      cases h
      exact makeAll_fault hmake
    · dsimp only at h
      split at h
      · cases h
      · next hopen =>
        cases h
        exact FileSystem.openForWriting_fault hopen

end Log

theorem Session.changeDirectory_fault {s : Session} {fs : FileSystem} {processDir : String}
    {arguments : List String} {f : Fault} (ht : ∃ p, s.target arguments.head? = .ok p)
    (h : s.changeDirectory fs processDir arguments = .error f) : f.OfPath := by
  obtain ⟨⟨shown, target⟩, ht⟩ := ht
  by_cases hd : fs.isDirectory processDir target = true
  · rw [changeDirectory_of_directory ht hd] at h
    cases hreal : fs.realPath processDir target with
    | error e =>
      rw [hreal] at h
      cases h
      exact FileSystem.realPath_fault hreal
    | ok dir =>
      rw [hreal] at h
      cases h
  · rw [changeDirectory_elsewhere ht (by simpa using hd)] at h
    cases h

end CommandShell
