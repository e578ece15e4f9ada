import CommandShell.Proofs.Line.Operators
import CommandShell.Proofs.Records
import CommandShell.Proofs.Shell.Line

/-! # Lines that are given up

A line is given up if an operator in it has no target, or if the target of its redirection cannot be
opened. Nothing of it is done then: what is left is a message, and the records of it. -/
namespace CommandShell

open FileSystem (AgreesOff SameNodes hasNul)
open Line (Command Redirection)

def lineRecord (line : String) (time : Moment) : Log.Record :=
  ⟨.debug, "Executing line", some "shell", [("line", .text line)], time, none⟩

def failureRecord (f : Failure) (time : Moment) : Log.Record :=
  ⟨.warning, f.message, some "shell", f.details, time, none⟩

def World.givenUp (w : World) (line : String) (f : Failure) : World :=
  ((w.recording (lineRecord line w.time)).recording (failureRecord f w.time)).complaining f.message

/-- What is left of a line that is given up: a message on the error stream, besides records. -/
structure World.Unaffected (w v : World) (message : String) : Prop where
  session : v.session = w.session
  environment : v.environment = w.environment
  launches : v.launches = w.launches
  output : v.output = w.output
  running : v.running = w.running
  texts : v.texts = w.texts ++ (message ++ "\n")
  errors : ¬ w.journal.HasConsole → v.errors = w.errors ++ (message ++ "\n")
  nodes : w.fs.SameNodes v.fs
  fs_off : AgreesOff w.journal.files w.fs v.fs
  fs : w.journal.files = [] → v.fs = w.fs

namespace Shell

inductive GivenUp (w : World) (line : String) : Failure → Prop where
  | dangling {op} : Command.ofLine line = .error { cause := .missingTarget op } →
      GivenUp w line { cause := .missingTarget op }
  | refused {c path e} : Command.ofLine line = .ok c → (redirectionIn w c).isActive = true →
      (redirectionIn w c).target = some path →
      w.fs.openForWriting w.processDir path (redirectionIn w c).append =
        .error (.system e path) →
      GivenUp w line { cause := .unwritableTarget path e.text }

variable {w : World} {line : String} {f : Failure}

/-- A line that is no command ends in an operator without a target. -/
theorem ofLine_error (h : Command.ofLine line = .error f) :
    ∃ op, f = { cause := .missingTarget op } := by
  have hwords : Line.readWords false line = .ok (Line.words line) := rfl
  cases hw : Line.words line with
  | nil =>
    rw [hw] at hwords
    rw [Command.ofLine, hwords] at h
    cases h
  | cons name rest =>
    rw [hw] at hwords
    obtain ⟨ps, dangling, hp⟩ := Line.exists_parses rest
    rw [Line.ofLine_of_parses hwords hp] at h
    cases dangling with
    | none => cases h
    | some op =>
      cases h
      exact ⟨op.text, rfl⟩

theorem givenUp_of_not_prepared
    (hnul : ∀ c, Command.ofLine line = .ok c → ¬ (redirectionIn w c).NamesNul)
    (hstop : ∀ c, Command.ofLine line = .ok c → ∀ v,
      Output.prepare (redirectionIn w c) w ≠ .ok () v) : ∃ f, GivenUp w line f := by
  cases hc : Command.ofLine line with
  | error f =>
    obtain ⟨op, rfl⟩ := ofLine_error hc
    exact ⟨_, .dangling hc⟩
  | ok c =>
    have hready : ¬ Opens w c := by
      intro ho
      have hends := Output.prepare_of_ready ho
      cases hrun : Output.prepare (redirectionIn w c) w with
      | ok x v => exact hstop c hc v hrun
      | error s v => cases (hends.error hrun).1
    simp only [Opens, Redirection.Ready, Classical.not_forall] at hready
    obtain ⟨path, ha, ht, hw⟩ := hready
    have hn := Redirection.no_nul_of_target (hnul c hc) ha ht
    obtain ⟨e, he⟩ := FileSystem.openForWriting_refused (redirectionIn w c).append hn hw
    exact ⟨_, .refused hc ha ht he⟩

theorem prepare_of_refused {r : Redirection} {path : String} {e : SystemError} {p : String}
    (ha : r.isActive = true) (ht : r.target = some path)
    (h : w.fs.openForWriting w.processDir path r.append = .error (.system e p)) :
    Output.prepare r w = .error (.failure { cause := .unwritableTarget path e.text }) w := by
  have hopen : Output.openTarget path r.append w =
      .error (.failure { cause := .unwritableTarget path e.text }) w := by
    rw [Output.openTarget, Action.get_bind, h]
    rfl
  rw [Output.prepare_active ha ht]
  exact Action.bind_of_error hopen

/-- The record that is made first does not change that the line is given up. -/
theorem GivenUp.runLine (h : GivenUp w line f) (r : Log.Record) :
    Shell.runLine line (w.recording r) = .error (.failure f) (w.recording r) := by
  cases h with
  | dangling hc =>
    rw [runLine_error hc]
    rfl
  | refused hc ha ht he =>
    have he' := (w.recording_sameNodes r).openForWriting_error he
    rw [runLine_ok hc, runCommand, Action.get_bind]
    exact Action.bind_of_error (prepare_of_refused ha ht he')

theorem GivenUp.executeLine (h : GivenUp w line f) :
    Shell.executeLine line w = .ok none (w.givenUp line f) := by
  rw [Shell.executeLine, Action.bind_of_ok (Action.log_eq _ _ _ _ _ w)]
  exact Action.bind_of_ok (Action.outcome_of_error (h.runLine _))

theorem unaffected_givenUp (w : World) (line : String) (f : Failure) :
    w.Unaffected (w.givenUp line f) f.message := by
  let r₁ := lineRecord line w.time
  let r₂ := failureRecord f w.time
  refine ⟨rfl, rfl, rfl, rfl, rfl, ?_, ?_, ?_, ?_, ?_⟩
  · rw [World.givenUp, World.texts_complaining, World.texts_recording, World.texts_recording]
  · intro h
    have h₁ : ¬ (w.recording r₁).journal.HasConsole := Log.Journal.not_hasConsole_keep h r₁
    rw [World.givenUp, World.errors_complaining, World.errors_recording h₁,
      World.errors_recording h]
  · exact (w.recording_sameNodes r₁).trans ((w.recording r₁).recording_sameNodes r₂)
  · have h₁ := w.recording_agreesOff r₁ fun _ hl => hl
    have h₂ := (w.recording r₁).recording_agreesOff r₂ fun l hl => w.files_recording r₁ ▸ hl
    exact h₁.trans h₂
  · intro h
    have h₁ : (w.recording r₁).journal.files = [] := (w.files_recording r₁).trans h
    exact (Log.Journal.write_of_no_files h₁ r₂ _).trans (Log.Journal.write_of_no_files h r₁ w.fs)

/-- A line that is no command, or whose redirection cannot be opened, comes back without a status
and has no effect but for its message and the records of it. Whatever the built-in commands do, none
of them is run. -/
theorem abandoned_line_has_no_effect
    (hnul : ∀ c, Command.ofLine line = .ok c → ¬ (redirectionIn w c).NamesNul)
    (hstop : ∀ c, Command.ofLine line = .ok c → ∀ v,
      Output.prepare (redirectionIn w c) w ≠ .ok () v) :
    ∃ f, GivenUp w line f ∧ w.Unaffected (w.givenUp line f) f.message ∧
      ∀ builtins, executeLine line { w with builtins } =
        .ok none { w.givenUp line f with builtins } := by
  obtain ⟨f, hf⟩ := givenUp_of_not_prepared hnul hstop
  refine ⟨f, hf, unaffected_givenUp w line f, fun builtins => ?_⟩
  have hf' : GivenUp { w with builtins } line f := by
    cases hf with
    | dangling hc => exact .dangling hc
    | refused hc ha ht he => exact .refused hc ha ht he
  exact hf'.executeLine

/-- A directory cannot be written to, and then the shell is not left either. -/
theorem exit_into_directory_has_no_effect :
    let w : World := { fs := { nodes := [(["d"], .directory {})] } }
    (∀ c, Command.ofLine "exit 3 > d" = .ok c → ¬ (redirectionIn w c).NamesNul) ∧
      (∀ c, Command.ofLine "exit 3 > d" = .ok c → ∀ v,
        Output.prepare (redirectionIn w c) w ≠ .ok () v) ∧
      ∃ v, executeLine "exit 3 > d" w = .ok none v ∧ v.fs = w.fs ∧ v.output = "" ∧
        v.errors = "Error writing to file /d: Is a directory\n" := by
  intro w
  let c : Command := ⟨"exit", ["3"], ⟨some "d", false, .output⟩⟩
  have hc : Command.ofLine "exit 3 > d" = .ok c := rfl
  have hpath : (redirectionIn w c).target = some "/d" := by decide
  have hprepare : ∃ s, Output.prepare (redirectionIn w c) w = .error s w :=
    ⟨_, prepare_of_refused rfl hpath rfl⟩
  have hnul : ∀ c, Command.ofLine "exit 3 > d" = .ok c → ¬ (redirectionIn w c).NamesNul := by
    rintro _ hc' ⟨path, -, ht, hn⟩
    cases hc.symm.trans hc'
    cases hpath.symm.trans ht
    exact absurd hn (by decide)
  have hstop : ∀ c, Command.ofLine "exit 3 > d" = .ok c → ∀ v,
      Output.prepare (redirectionIn w c) w ≠ .ok () v := by
    intro _ hc' v hv
    cases hc.symm.trans hc'
    obtain ⟨s, hs⟩ := hprepare
    cases hs.symm.trans hv
  obtain ⟨f, hf, hunaffected, hrun⟩ := abandoned_line_has_no_effect hnul hstop
  have hmessage : f.message = "Error writing to file /d: Is a directory" := by
    cases hf with
    | dangling hd => cases hc.symm.trans hd
    | refused hc' _ ht he =>
      cases hc.symm.trans hc'
      cases hpath.symm.trans ht
      cases he
      rfl
  refine ⟨hnul, hstop, _, hrun w.builtins, hunaffected.fs rfl, hunaffected.output, ?_⟩
  refine (hunaffected.errors ?_).trans (by rw [hmessage]; rfl)
  rintro ⟨_, _, hm⟩
  cases hm

/-- A file that takes records gets those of a line that is given up. Where the working directory
holds the character zero, a fault leaves the line. -/
theorem abandoned_line_is_recorded :
    (let w : World :=
        { fs := { nodes := [(["log"], .file .plain .empty none)] }
          journal := { threshold := Log.Level.warning, sinks := [.file Log.Level.warning ["log"]] } }
      ∃ v, executeLine "echo hi >" w = .ok none v ∧
        (v.fs.contentAt ["log"]).size ≠ (w.fs.contentAt ["log"]).size) ∧
    (let w : World := { session := { dir := "/a\x00b" } }
      let c : Command := ⟨"echo", ["hi"], ⟨some "f", false, .output⟩⟩
      Command.ofLine "echo hi > f" = .ok c ∧ hasNul "f" = false ∧
      (∀ v, Output.prepare (redirectionIn w c) w ≠ .ok () v) ∧
      ∃ v, executeLine "echo hi > f" w = .error (.fault .nulCharacter) v) := by
  constructor
  · intro w
    have hf : GivenUp w "echo hi >" { cause := .missingTarget ">" } := .dangling rfl
    exact ⟨_, hf.executeLine, by decide +kernel⟩
  · have hrun : ∃ v, executeLine "echo hi > f" { session := { dir := "/a\x00b" } } =
        .error (.fault .nulCharacter) v := ⟨_, rfl⟩
    intro w c
    have ht : (redirectionIn w c).target = some "/a\x00b/f" := by decide
    have hn : (redirectionIn w c).NamesNul := ⟨_, by decide, ht, by decide⟩
    refine ⟨rfl, by decide, ?_, hrun⟩
    intro v hv
    cases ((Output.prepare_of_nul hn).ok hv).1

end Shell

end CommandShell
