import CommandShell.Proofs.PathFaults
import CommandShell.Proofs.Shell.ReadLoop
import CommandShell.Proofs.Shell.Script

/-! # Faults about the kind of a value

All that a line works with is text, but for the home directory, which may be any value. Where it is
a text, no line and no script ends with a fault about the kind of a value. The read loop answers the
faults of its lines. It needs one value itself, the prompt, and ends with a fault exactly if that is
no text. -/
namespace CommandShell

open Line (Command Redirection)

/-- The home directory is a text, and no command was added that complains about a kind. -/
structure World.Typed (w : World) : Prop where
  home : ∃ h, w.session.homeOrRoot = .text h
  builtins : ∀ name f, w.builtins.get? name = some (.added (.raises (.fault f))) → ¬ f.OfKind

variable {w w' : World} {f : Fault} {name line prompt : String} {arguments : List String}
  {r : Redirection}

namespace World.Typed

theorem steady (h : w.Typed) (hs : w.Steady w') : w'.Typed :=
  ⟨hs.session ▸ h.home, hs.builtins ▸ h.builtins⟩

/-- The lines of a session neither change the home directory nor add commands. -/
theorem lineEnded {res : Except Stop (Option Int)} (h : w.Typed)
    (he : Shell.LineEnded w line res w') : w'.Typed := by
  have hc := he.changes
  refine ⟨?_, hc.builtins ▸ h.builtins⟩
  rcases hc.session with hs | ⟨c, -, -, hg⟩
  · exact hs ▸ h.home
  · rw [hg.session_eq]
    exact h.home

theorem completes {lines : List String} (h : w.Typed) (hc : Shell.Completes w lines w') :
    w'.Typed := by
  induction hc with
  | nil => exact h
  | cons hrun _ ih => exact ih (h.lineEnded ((Shell.executeLine_ends _ _).ok hrun))

end World.Typed

theorem World.Typed.answer {b : Builtin} (h : w.Typed) (hb : w.builtins.get? name = some b)
    (ha : b.answer w arguments = .error (.fault f)) : ¬ f.OfKind := by
  cases b with
  | cd =>
    simp only [Builtin.answer] at ha
    split at ha
    · cases ha
    · next g hcd =>
      cases ha
      exact (Session.changeDirectory_fault (Shell.target_of_home h.home _) hcd).not_ofKind
  | added b =>
    cases b with
    | raises s =>
      obtain rfl : s = .fault f := by simpa [Builtin.answer] using ha
      exact h.builtins name f hb
    | _ => simp [Builtin.answer] at ha
  | _ => simp [Builtin.answer] at ha

theorem Launch.ending_fault {found : Found} {dir : Option String} {fs : FileSystem}
    {processDir : String} (hfound : FileSystem.hasNul found.path = false)
    (h : (Launch.ofCommand found name arguments r dir).ending fs processDir =
      .error (.fault f)) : f = .nulCharacter := by
  have hexecutable : (ofCommand found name arguments r dir).executable = found.path :=
    (ofCommand_fields found name arguments r dir).1
  have harguments : (ofCommand found name arguments r dir).arguments = name :: arguments :=
    (ofCommand_fields found name arguments r dir).2.1
  generalize ofCommand found name arguments r dir = request at h hexecutable harguments
  unfold ending at h
  by_cases hn : request.NamesNul
  · rw [program_of_nul hn] at h
    cases h
    rfl
  · rcases program_cases fs processDir hn (hexecutable ▸ hfound) with
      ⟨_, _, program, _, hp, -⟩ | ⟨e, path, hp⟩
    · rw [hp] at h
      dsimp only at h
      split at h <;> cases h
    · simp [hp, refusal, harguments] at h

namespace Outcome

theorem ofName_fault (h : (ofName w r name arguments).result = .error (.fault f)) :
    f = .nulCharacter := by
  unfold ofName at h
  cases hf : w.fs.findProgram? w.processDir name w.session.searchDirectories with
  | none =>
    rw [hf] at h
    cases h
  | some found =>
    rw [hf] at h
    dsimp only [ofLaunch] at h
    cases hending : (Launch.ofCommand found name arguments r (some w.session.dir)).ending w.fs
        w.processDir with
    | ok status =>
      rw [hending] at h
      cases h
    | error s =>
      rw [hending] at h
      cases h
      exact Launch.ending_fault (FileSystem.findProgram?_no_nul hf).1 hending

theorem ofCommand_fault {c : Command} (hw : w.Typed)
    (h : (ofCommand w c r).result = .error (.fault f)) : ¬ f.OfKind := by
  unfold ofCommand at h
  cases hb : w.builtins.get? c.name with
  | some b =>
    rw [hb] at h
    dsimp only [ofBuiltin] at h
    cases ha : b.answer w c.arguments with
    | ok result =>
      rw [ha] at h
      cases h
    | error s =>
      rw [ha] at h
      cases h
      exact hw.answer hb ha
  | none =>
    rw [hb] at h
    obtain rfl := ofName_fault h
    exact Fault.OfPath.nulCharacter.not_ofKind

/-- What is reported is a failure, so a fault is there before. -/
theorem fault_of_reported {o : Outcome} (h : o.reported.result = .error (.fault f)) :
    o.result = .error (.fault f) := by
  unfold reported at h
  split at h
  · cases h
  · exact h

end Outcome

namespace Shell

theorem executeLine_fault (h : w.Typed) (hrun : executeLine line w = .error (.fault f) w') :
    ¬ f.OfKind := by
  by_cases hopen : ∃ c, Command.ofLine line = .ok c ∧ Opens w c
  · obtain ⟨c, hc, ho⟩ := hopen
    obtain ⟨l, haims⟩ := ho.exists_aim
    have hgives : (executeLine line).Gives w.journal.files w _ _ := gives_executeLine hc haims
    obtain ⟨hres, -⟩ := (hgives w (.self w)).error hrun
    have hprepared := w.prepared_steady (redirectionIn w c) l
    exact Outcome.ofCommand_fault (h.steady hprepared) (Outcome.fault_of_reported hres.symm)
  · have hclosed : ∀ c, Command.ofLine line = .ok c → ¬ Opens w c :=
      fun c hc ho => hopen ⟨c, hc, ho⟩
    obtain ⟨res, error, hres, hgives⟩ := gives_executeLine_abandoned w.journal.files hclosed
    obtain ⟨rfl, -⟩ := (hgives w (.self w)).error hrun
    rcases hres with hres | hres
    · cases hres
    · cases hres
      exact Fault.OfPath.nulCharacter.not_ofKind

theorem runScript_fault {script : String} (h : w.Typed)
    (hrun : runScript script w = .error (.fault f) w') : ¬ f.OfKind := by
  obtain ⟨-, hstops⟩ := runLines_error_iff.mp hrun
  obtain ⟨-, hcompletes, hline⟩ := hstops
  exact executeLine_fault (h.completes hcompletes) hline

theorem LastTurn.result_ne_fault {rest : List Read} {last : String} {result : Except Stop Int}
    (h : LastTurn prompt w rest last result w') : result ≠ .error (.fault f) := by
  cases h <;> simp

theorem run_ne_fault (hp : w.settings.prompt = .text prompt) (input : List Read) :
    run input w ≠ .error (.fault f) w' := by
  obtain ⟨_, _, _, _, _, result, _, -, -, hlast, hends⟩ :=
    readLoop_turns (w := { w with running := true }) hp rfl input
  rw [run_eq hends]
  have hresult := hlast.result_ne_fault (f := f)
  intro h
  cases result with
  | ok code => cases h
  | error s =>
    cases h
    exact hresult rfl

theorem readLoop_of_no_prompt (hp : ∀ text, w.settings.prompt ≠ .text text) (input : List Read) :
    readLoop input w = .error (.fault .wrongKind) w := by
  have hshow : showPrompt w = .error (.fault .wrongKind) w := by
    rw [showPrompt, Action.get_bind]
    cases hprompt : w.settings.prompt with
    | text s => exact absurd hprompt (hp s)
    | _ => rfl
  cases input with
  | nil =>
    rw [readLoop]
    exact Action.bind_of_error hshow
  | cons read rest =>
    cases read with
    | interrupt =>
      rw [readLoop]
      exact Action.bind_of_error hshow
    | doubleInterrupt =>
      rw [readLoop]
      exact Action.bind_of_error hshow
    | line s =>
      rw [readLoop]
      exact Action.bind_of_error hshow

theorem run_of_no_prompt (hp : ∀ text, w.settings.prompt ≠ .text text) (input : List Read) :
    run input w = .error (.fault .wrongKind) { w with running := true } := by
  have hloop : readLoop input { w with running := true } =
      Action.ended (.error (.fault .wrongKind)) { w with running := true } :=
    readLoop_of_no_prompt (w := { w with running := true }) hp input
  rw [run_eq hloop]
  rfl

end Shell

end CommandShell
