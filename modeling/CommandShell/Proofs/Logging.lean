import CommandShell.Proofs.Configuration
import CommandShell.Proofs.Shell.Abreast
import CommandShell.Startup

/-! # Logging

What the settings say about logging decides which records are made and where they are shown, and
nothing else: the runs under two such settings are abreast from the moment at which the journal is
set up. -/
namespace CommandShell

structure Settings.Fileless (s : Settings) : Prop where
  level : ∃ name, s.logLevel = .text name
  file : s.logFile.isGiven = false

structure Settings.LogApart (s t : Settings) : Prop where
  prompt : t.prompt = s.prompt
  defaultHome : t.defaultHome = s.defaultHome
  first : s.Fileless
  second : t.Fileless

/-- The worlds of one kind and those of another kind are abreast, each with one of the others. -/
structure World.Paired (a b : Run) (P Q : World → Prop) : Prop where
  forward : ∀ u, P u → ∃ v, u.Abreast a b v ∧ Q v
  back : ∀ v, Q v → ∃ u, u.Abreast a b v ∧ P u

namespace Startup

open CommandShell.Action (InStep Together ended)
open Shell (Prompts Completes scriptLines)

def begun (terminal : Bool) : Action Unit := do
  startJournal terminal
  startSession

/-- The worlds between the lines of a run that starts with its settings in `w`, by what is left of
the input or of the script: those at the prompts of the read loop, and those before and after each
line of a script. -/
inductive Between (w : World) (terminal : Bool) (input : List Read) :
    CommandLine.Task → List Read → List String → World → Prop where
  | prompt {x u rest} : begun terminal w = .ok () x →
      Prompts { x with running := true } input u rest → Between w terminal input .input rest [] u
  | line {x u script before rest} : begun terminal w = .ok () x →
      scriptLines script = before ++ rest → Completes x before u →
      Between w terminal input (.script script) input rest u

variable {a b : Run} {w v x y : World} {s t : Settings} {terminal : Bool}

theorem startJournal_eq (hj : w.journal = {}) (hs : w.settings.Fileless) (terminal : Bool) :
    ∃ j : Log.Journal, startJournal terminal w = .ok () { w with journal := j } ∧ j.files = [] ∧
      (w.settings.consoleOutput.isGiven = false → ¬ j.HasConsole) := by
  obtain ⟨name, hname⟩ := hs.level
  have hopening (home : Option String) :
      openingOf w.processDir home w.settings.logFile = none := by
    unfold openingOf
    rw [if_neg (by simp [hs.file])]
  let console := if w.settings.consoleOutput.isGiven then
    some (Log.Layout.forStream w.settings.useColors.isGiven (some terminal)) else none
  refine ⟨{ Log.Journal.addSinks {} (Log.Level.ofName name) console with ready := true },
    ?_, ?_, ?_⟩
  · unfold startJournal
    rw [Action.get_bind, hname, hopening, hj]
    rfl
  · cases console <;> rfl
  · intro hconsole
    have hnone : console = none := if_neg (by simp [hconsole])
    rw [hnone]
    rintro ⟨threshold, layout, hm⟩
    simp [Log.Journal.addSinks] at hm

theorem inStep_startSession : startSession.InStep a b := by
  apply InStep.get_bind
  intro w v h
  have hsame : Session.fromEnvironment v.fs v.processDir v.processDir v.environment
        v.settings.defaultHome =
      Session.fromEnvironment w.fs w.processDir w.processDir w.environment
        w.settings.defaultHome := by
    unfold Session.fromEnvironment
    rw [h.processDir, h.environment, h.defaultHome, h.fs.sameNodes.grows.realPath]
  rw [hsame]
  cases Session.fromEnvironment w.fs w.processDir w.processDir w.environment
      w.settings.defaultHome with
  | error f => exact .throw h _
  | ok session =>
    exact Action.inStep_setSession (f := fun _ => _) h session (Action.inStep_log _ _ _ _ _)

theorem loadSettings_of_load {path : String} (hne : path ≠ "")
    (h : Settings.load w.fs w.processDir path = .ok s) :
    loadSettings (some path) w = .ok () { w with settings := s } := by
  unfold loadSettings
  generalize hp : some path = p
  split
  · cases hp
  · cases hp
    exact absurd rfl hne
  · cases hp
    rw [Action.get_bind, h]
    rfl

/-- Two runs are abreast once their journals are set up. -/
theorem startJournal_together {fs : FileSystem} (hj : w.journal = {}) (hn : w.notices = [])
    (hfs : w.fs.SameNodes fs) (hs : s.LogApart t) (terminal : Bool) :
    Together ⟨w.fs, s.consoleOutput.isGiven⟩ ⟨fs, t.consoleOutput.isGiven⟩ (startJournal terminal)
      (startJournal terminal) { w with settings := s } { w with fs, settings := t } := by
  have hjw : ({ w with settings := s } : World).journal = {} := hj
  have hjv : ({ w with fs, settings := t } : World).journal = {} := hj
  obtain ⟨j, hrun, hfiles, hconsole⟩ := startJournal_eq hjw hs.first terminal
  obtain ⟨j', hrun', hfiles', hconsole'⟩ := startJournal_eq hjv hs.second terminal
  refine ⟨.ok (), _, _, ?_, hrun, hrun'⟩
  exact {
    first := ⟨hfiles, hconsole, by simp [hn]⟩
    second := ⟨hfiles', hconsole', by simp [hn]⟩
    fs := hfs.sameChanges
    processDir := rfl
    environment := rfl
    prompt := hs.prompt
    defaultHome := hs.defaultHome
    session := rfl
    builtins := rfl
    running := rfl
    output := rfl
    texts := rfl
    launches := rfl }

theorem inStep_work (task : CommandLine.Task) (input : List Read) :
    (work task input).InStep a b := by
  cases task with
  | script script => exact Shell.inStep_runLines _
  | missing => exact .throw _
  | input =>
    apply (Shell.inStep_run input).outcome.bind
    intro ended
    match ended with
    | .ok code => exact .pure code
    | .error .interrupt => exact .bind (Action.inStep_writeError _) fun _ => .pure 130
    | .error (.exit e) => exact .throw _
    | .error (.failure f) => exact .throw _
    | .error (.fault f) => exact .throw _

theorem start_of_loaded {arguments : List String} {config : Option String}
    {task : CommandLine.Task} (input : List Read)
    (hrequest : CommandLine.request arguments = .start config task)
    (hload : loadSettings config w = .ok () x) : start arguments input terminal w =
      (do begun terminal; return ⟨← work task input, false⟩ : Action Ending) x := by
  unfold start
  rw [hrequest]
  dsimp only
  rw [Action.bind_of_ok (Action.outcome_of_ok hload)]
  simp [begun]

theorem between_abreast
    (hbegun : ∀ x, begun terminal w = .ok () x →
      ∃ y, x.Abreast a b y ∧ begun terminal v = .ok () y) {input : List Read}
    {task : CommandLine.Task} {reads : List Read} {lines : List String} {u : World}
    (hu : Between w terminal input task reads lines u) :
    ∃ z, u.Abreast a b z ∧ Between v terminal input task reads lines z := by
  cases hu with
  | @prompt x u rest hx hprompts =>
    obtain ⟨y, hxy, hy⟩ := hbegun _ hx
    have hrunning : World.Abreast a b { x with running := true } { y with running := true } :=
      { hxy with running := rfl }
    obtain ⟨z, hz, hprompts'⟩ := Shell.prompts_abreast hrunning hprompts
    exact ⟨z, hz, .prompt hy hprompts'⟩
  | line hx hlines hcompletes =>
    obtain ⟨y, hxy, hy⟩ := hbegun _ hx
    obtain ⟨z, hz, hcompletes'⟩ := Shell.completes_abreast hxy hcompletes
    exact ⟨z, hz, .line hy hlines hcompletes'⟩

/-- Two runs with the same task, under settings that differ in logging alone, on file systems that
may differ in the bytes of files: both end with the same result, in worlds that are abreast, and so
are the worlds between their lines. From the same file system both come to the same one, and a run
without the console has the texts of the other one on its error stream, which are what is left
there without the records. -/
theorem logging_never_matters {fs : FileSystem} {first second : List String}
    {config config' : Option String} {task : CommandLine.Task}
    (hj : w.journal = {}) (hn : w.notices = []) (hfs : w.fs.SameNodes fs)
    (hfirst : CommandLine.request first = .start config task)
    (hsecond : CommandLine.request second = .start config' task)
    (hload : loadSettings config w = .ok () { w with settings := s })
    (hload' : loadSettings config' { w with fs } = .ok () { w with fs, settings := t })
    (hs : s.LogApart t) (input : List Read) (terminal : Bool) :
    let a : Run := ⟨w.fs, s.consoleOutput.isGiven⟩
    let b : Run := ⟨fs, t.consoleOutput.isGiven⟩
    (∃ r u v, u.Abreast a b v ∧ start first input terminal w = ended r u ∧
      start second input terminal { w with fs } = ended r v ∧
      (fs = w.fs → ∀ l, v.fs.node? l = u.fs.node? l) ∧
      (a.console = false → u.errors = v.texts) ∧ (b.console = false → v.errors = u.texts)) ∧
    ∀ reads lines, World.Paired a b
      (Between { w with settings := s } terminal input task reads lines)
      (Between { w with fs, settings := t } terminal input task reads lines) := by
  intro a b
  have hbegun : Together a b (begun terminal) (begun terminal) { w with settings := s }
      { w with fs, settings := t } :=
    (startJournal_together hj hn hfs hs terminal).bind fun _ => inStep_startSession
  refine ⟨?_, fun reads lines => ⟨?_, ?_⟩⟩
  · have hrun := hbegun.bind fun _ =>
      (inStep_work task input).bind fun status => .pure (⟨status, false⟩ : Ending)
    obtain ⟨r, u, v, huv, hu, hv⟩ := hrun
    refine ⟨r, u, v, huv, ?_, ?_, ?_, huv.symm.errors, huv.errors⟩
    · rw [start_of_loaded input hfirst hload, ← hu]
    · rw [start_of_loaded input hsecond hload', ← hv]
    · rintro rfl
      exact huv.fs.node?_eq
  · intro u hu
    exact between_abreast (hbegun.of_ok ()) hu
  · intro v hv
    obtain ⟨u, hu, hbetween⟩ := between_abreast (hbegun.symm.of_ok ()) hv
    exact ⟨u, hu.symm, hbetween⟩

def blankFileWorld : World where
  fs := { nodes := [(["c"], .file {} .empty none), (["d"], .directory {})] }

/-- What a script does without a configuration it does with one that asks for records on the
console. -/
theorem recorded_script_does_the_same :
    let text := "\x7b\"logging\":\x7b\"console_output\":true\x7d\x7d"
    let fs := blankFileWorld.fs.set ["c"] (.file {} text.toUTF8 none)
    ∃ v, start ["--config", "c", "-c", "x >\ncd d"] [] false { blankFileWorld with fs } =
      .ok ⟨0, false⟩ v ∧ v.session.dir = "/d" ∧ v.output = "" ∧
      v.texts = "syntax error: expected file after '>'\n" := by
  intro text fs
  have hknown : (match start ["-c", "x >\ncd d"] [] false blankFileWorld with
    | .ok ⟨0, false⟩ u => decide (u.session.dir = "/d" ∧ u.output = "" ∧
        u.texts = "syntax error: expected file after '>'\n")
    | _ => false) = true := by decide +kernel
  have hread : Json.read text =
      .ok (.object [("logging", .object [("console_output", .bool true)])]) := by
    decide +kernel
  have hplain : String.ofList (FileSystem.plainLineEnds text.toList) = text :=
    FileSystem.ofList_plainLineEnds (by simp [text])
  have hgiven : Settings.Given text.toUTF8 _ :=
    .intro (Text.fromUTF8?_toUTF8 text) (hplain ▸ hread) (.absent rfl) (.object rfl)
  have hload : Settings.load fs "/" "c" = .ok _ := Settings.load_of_given rfl hgiven
  have hs : Settings.LogApart {} (Settings.ofSections [] [("console_output", .bool true)]) :=
    ⟨rfl, rfl, ⟨⟨_, rfl⟩, rfl⟩, ⟨⟨_, rfl⟩, rfl⟩⟩
  have hquiet : CommandLine.request ["-c", "x >\ncd d"] = .start none (.script "x >\ncd d") := rfl
  have hloud : CommandLine.request ["--config", "c", "-c", "x >\ncd d"] =
      .start (some "c") (.script "x >\ncd d") := rfl
  have hnodes : blankFileWorld.fs.SameNodes fs := FileSystem.set_sameNodes rfl
  obtain ⟨⟨r, u, v, huv, hu, hv, -⟩, -⟩ := logging_never_matters (w := blankFileWorld) rfl rfl
    hnodes hquiet hloud rfl (loadSettings_of_load (by decide) hload) hs [] false
  rw [hu] at hknown
  cases r with
  | error stop => cases hknown
  | ok ending =>
    dsimp only [ended] at hknown hv
    split at hknown
    · next h =>
      cases h
      obtain ⟨hdir, houtput, htexts⟩ := of_decide_eq_true hknown
      exact ⟨v, hv, huv.session ▸ hdir, huv.output.trans houtput, huv.texts.trans htexts⟩
    · cases hknown

end Startup

end CommandShell
