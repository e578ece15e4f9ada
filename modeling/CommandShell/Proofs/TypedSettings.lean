import CommandShell.Proofs.ConfigurationFile
import CommandShell.Proofs.Shell.KindFaults
import CommandShell.Proofs.Shell.Reliable
import CommandShell.Proofs.Starting

/-! # Settings of the declared kinds

Every setting is declared to be of a kind, but a file that is loaded may give it a value of any
kind. The settings are of their kinds exactly if the values in the file are. If they are, the program that
is started with them never ends with a fault about a kind; if not, it ends so at the level of
records, at the log file or at the first prompt, where the values are used. -/
namespace CommandShell

/-- The kinds that settings are declared to be of. -/
inductive Declared where
  | text
  | optionalText
  | flag
  deriving DecidableEq, Repr

def Declared.admits : Declared → Value → Bool
  | text, .text _ | optionalText, .text _ | optionalText, .null | flag, .bool _ => true
  | _, _ => false

inductive Setting where
  | prompt
  | defaultHome
  | logLevel
  | logFile
  | consoleOutput
  | useColors
  deriving DecidableEq, Repr

namespace Setting

def part : Setting → String
  | prompt | defaultHome => "shell"
  | logLevel | logFile | consoleOutput | useColors => "logging"

def key : Setting → String
  | prompt => "prompt"
  | defaultHome => "default_home"
  | logLevel => "level"
  | logFile => "log_file"
  | consoleOutput => "console_output"
  | useColors => "use_colors"

def declared : Setting → Declared
  | prompt | defaultHome | logLevel => .text
  | logFile => .optionalText
  | consoleOutput | useColors => .flag

def value (s : Settings) : Setting → Value
  | prompt => s.prompt
  | defaultHome => s.defaultHome
  | logLevel => s.logLevel
  | logFile => s.logFile
  | consoleOutput => s.consoleOutput
  | useColors => s.useColors

end Setting

def Settings.WellTyped (s : Settings) : Prop :=
  ∀ k : Setting, k.declared.admits (k.value s) = true

theorem Declared.text_admits_iff {v : Value} :
    text.admits v = true ↔ ∃ s, v = .text s := by
  cases v <;> simp [admits]

theorem Declared.text_not_admits_iff {v : Value} :
    text.admits v = false ↔ ∀ s, v ≠ .text s := by
  cases v <;> simp [admits]

namespace Settings

variable {fs : FileSystem} {processDir path name : String} {data members : Members} {s : Settings}

theorem wellTyped_usual : WellTyped {} := by
  intro k
  cases k <;> rfl

theorem Section.memberOf (h : Section data name members) (key : String) :
    Settings.memberOf data name key = members.get? key := by
  cases h with
  | absent hnone => simp [Settings.memberOf, hnone, Table.get?]
  | object hobject => simp [Settings.memberOf, hobject]

theorem meant_of_load (h : load fs processDir path = .ok s) : ∃ text data,
    fs.readText processDir (Path.Posix.compact path) = .ok text ∧
      Json.read text = .ok (.object data) ∧ s = meant data := by
  obtain ⟨content, hcontent, hgiven⟩ := load_eq_ok_iff.mp h
  cases hgiven with
  | @intro text data shell logging hdecode hread hshell hlogging =>
    have htext := readText_of_readBytes hcontent
    rw [hdecode] at htext
    refine ⟨_, data, htext, hread, ?_⟩
    simp only [meant, ofSections, hshell.memberOf, hlogging.memberOf]

/-- A file with the line ends of the shell is loaded with the sections of its object. -/
theorem load_of_read {text : String} {shell logging : Members}
    (hcontent : fs.readBytes processDir (Path.Posix.compact path) = .ok text.toUTF8)
    (hreturn : '\r' ∉ text.toList) (hread : Json.read text = .ok (.object data))
    (hshell : Section data "shell" shell) (hlogging : Section data "logging" logging)
    (hs : s = ofSections shell logging) : load fs processDir path = .ok s := by
  rw [← FileSystem.ofList_plainLineEnds hreturn] at hread
  have hgiven : Given text.toUTF8 (ofSections shell logging) :=
    .intro (Text.fromUTF8?_toUTF8 text) hread hshell hlogging
  rw [hs]
  exact load_of_given hcontent hgiven

theorem value_meant (data : Members) (k : Setting) :
    k.value (meant data) = (memberOf data k.part k.key).getD (k.value {}) := by
  cases k <;> rfl

theorem wellTyped_meant_iff : (meant data).WellTyped ↔
    ∀ (k : Setting) v, memberOf data k.part k.key = some v → k.declared.admits v = true := by
  constructor
  · intro h k v hv
    have hk := h k
    rw [value_meant, hv] at hk
    exact hk
  · intro h k
    rw [value_meant]
    cases hv : memberOf data k.part k.key with
    | none => exact wellTyped_usual k
    | some v => exact h k v hv

end Settings

namespace Startup

variable {w x : World} {terminal : Bool} {path : String} {f : Fault} {input : List Read}
  {task : CommandLine.Task}

/-- Why a program that works on its input comes to a value of the wrong kind. -/
inductive Misfit (terminal : Bool) (w : World) : Prop where
  | level : Declared.text.admits w.settings.logLevel = false → Misfit terminal w
  /-- A value that does not count as given stands for no log file, whatever its kind. -/
  | logFile : w.settings.logFile.isGiven = true →
      Declared.optionalText.admits w.settings.logFile = false → Misfit terminal w
  | prompt {x : World} : begun terminal w = .ok () x →
      Declared.text.admits w.settings.prompt = false → Misfit terminal w

theorem levelOf_error_iff {v : Value} :
    (∃ f, levelOf v = .error f) ↔ Declared.text.admits v = false := by
  rw [Declared.text_not_admits_iff]
  rcases levelOf_cases v with ⟨name, rfl, hlevel⟩ | ⟨hname, hlevel⟩
  · simp [hlevel]
  · simp [hlevel, hname]

theorem fromEnvironment_fault {fs : FileSystem} {processDir start : String}
    {env : Table String String} {home : Value}
    (h : Session.fromEnvironment fs processDir start env home = .error f) : f.OfPath := by
  unfold Session.fromEnvironment at h
  cases hreal : fs.realPath processDir start with
  | error g =>
    rw [hreal] at h
    cases h
    exact FileSystem.realPath_fault hreal
  | ok dir =>
    rw [hreal] at h
    cases h

/-- Only a value that is no text makes the opening of a log file complain about its kind. -/
theorem opening_fault {processDir : String} {home : Option String} {v : Value}
    {opening : Log.Journal.Opening} {fs fs' : FileSystem}
    (hopening : openingOf processDir home v = some opening) (h : opening fs = (.error f, fs'))
    (hkind : f.OfKind) : v.isGiven = true ∧ Declared.optionalText.admits v = false := by
  unfold openingOf at hopening
  split at hopening
  · next hgiven =>
    refine ⟨hgiven, ?_⟩
    cases v with
    | text path =>
      cases hopening
      exact absurd hkind (Log.openFile_fault h).not_ofKind
    | null => cases hgiven
    | _ => rfl
  · cases hopening

theorem openingOf_of_not_text {processDir : String} {home : Option String} {v : Value}
    (hgiven : v.isGiven = true) (hv : Declared.optionalText.admits v = false) :
    openingOf processDir home v = some fun fs => (.error .wrongKind, fs) := by
  unfold openingOf
  rw [if_pos hgiven]
  cases v with
  | text path => cases hv
  | _ => rfl

theorem Unbegun.misfit (h : Unbegun terminal w f) (hkind : f.OfKind) : Misfit terminal w := by
  cases h with
  | level hlevel => exact .level (Declared.text_not_admits_iff.mpr hlevel)
  | logFile _ _ hopening hfails =>
    obtain ⟨hgiven, hfile⟩ := opening_fault hopening hfails hkind
    exact .logFile hgiven hfile
  | directory _ hreal => exact absurd hkind (FileSystem.realPath_fault hreal).not_ofKind

theorem unbegun_of_begun (h : begun terminal w = .error (.fault f) x) : Unbegun terminal w f := by
  rcases begun_cases terminal w with ⟨y, hy⟩ | ⟨g, hg⟩
  · rw [hy] at h
    cases h
  · obtain ⟨y, hy⟩ := hg.begun
    rw [hy] at h
    cases h
    exact hg

theorem startSession_home (h : startSession w = .ok () x) :
    x.settings = w.settings ∧ x.builtins = w.builtins ∧ x.session.home =
      some (((w.environment.get? "HOME").map .text).getD w.settings.defaultHome) := by
  unfold startSession Session.fromEnvironment at h
  rw [Action.get_bind] at h
  cases hreal : w.fs.realPath w.processDir w.processDir with
  | error g =>
    rw [hreal] at h
    cases h
  | ok dir =>
    rw [hreal] at h
    cases h
    exact ⟨rfl, rfl, rfl⟩

theorem eq_of_ofExcept {r : Except Fault Unit} (h : Action.ofExcept r w = .ok () x) : x = w := by
  cases r with
  | ok => cases h; rfl
  | error => cases h

theorem startJournal_world (h : startJournal terminal w = .ok () x) :
    ∃ journal fs, x = { w with journal, fs } := by
  rcases levelOf_cases w.settings.logLevel with ⟨name, -, hlevel⟩ | ⟨hname, -⟩
  · obtain ⟨journal, fs, hj⟩ := startJournal_of_level hlevel terminal
    exact ⟨journal, fs, eq_of_ofExcept (hj.symm.trans h)⟩
  · rw [startJournal_of_not_text hname] at h
    cases h

theorem begun_home (h : begun terminal w = .ok () x) :
    x.settings = w.settings ∧ x.builtins = w.builtins ∧ x.session.home =
      some (((w.environment.get? "HOME").map .text).getD w.settings.defaultHome) := by
  obtain ⟨⟨⟩, y, hy, hx⟩ := Action.ok_of_bind h
  obtain ⟨journal, fs, rfl⟩ := startJournal_world hy
  have hhome := startSession_home hx
  exact hhome

/-- Without a log file a session begins wherever the directory of the process has a real path. -/
theorem begun_of_fileless {dir : String} (hj : w.journal = {}) (hs : w.settings.Fileless)
    (hreal : w.fs.realPath w.processDir w.processDir = .ok dir) :
    ∃ x, begun terminal w = .ok () x := by
  obtain ⟨journal, hstart, -⟩ := startJournal_eq hj hs terminal
  have hsame : ({ w with journal } : World).fs.realPath w.processDir w.processDir = .ok dir := hreal
  obtain ⟨x, hx⟩ := startSession_of_ok hsame
  exact ⟨x, (Action.bind_of_ok hstart).trans hx⟩

theorem typed_of_begun (hhome : Declared.text.admits w.settings.defaultHome = true)
    (hbuiltins : w.builtins = .standard) (h : begun terminal w = .ok () x) : x.Typed := by
  obtain ⟨-, hsame, hx⟩ := begun_home h
  constructor
  · obtain ⟨default, hdefault⟩ := Declared.text_admits_iff.mp hhome
    rw [Session.homeOrRoot, hx, Option.getD_some, hdefault]
    cases w.environment.get? "HOME" with
    | none => exact ⟨default, rfl⟩
    | some home => exact ⟨home, rfl⟩
  · intro name f hname
    rw [hsame, hbuiltins] at hname
    exact absurd hname (Shell.standard_not_added name _)

theorem work_input_ne_fault (hp : Declared.text.admits w.settings.prompt = true) :
    work .input input w ≠ .error (.fault f) x := by
  obtain ⟨prompt, hprompt⟩ := Declared.text_admits_iff.mp hp
  intro h
  unfold work at h
  dsimp only at h
  cases hrun : Shell.run input w with
  | ok code y =>
    rw [Action.bind_of_ok (Action.outcome_of_ok hrun)] at h
    cases h
  | error s y =>
    rw [Action.bind_of_ok (Action.outcome_of_error hrun)] at h
    cases s with
    | fault g => exact Shell.run_ne_fault hprompt input hrun
    | _ => cases h

theorem work_input_of_no_prompt (hp : Declared.text.admits w.settings.prompt = false)
    (input : List Read) :
    work .input input w = .error (.fault .wrongKind) { w with running := true } := by
  have hrun := Shell.run_of_no_prompt (Declared.text_not_admits_iff.mp hp) input
  unfold work
  dsimp only
  rw [Action.bind_of_ok (Action.outcome_of_error hrun)]
  rfl

theorem work_fault (hw : w.Typed) (hp : Declared.text.admits w.settings.prompt = true)
    (htask : task ≠ .missing) (h : work task input w = .error (.fault f) x) : ¬ f.OfKind := by
  cases task with
  | script script => exact Shell.runScript_fault hw h
  | missing => exact absurd rfl htask
  | input => exact absurd h (work_input_ne_fault hp)

theorem not_misfit (h : w.settings.WellTyped) : ¬ Misfit terminal w := by
  intro hmisfit
  cases hmisfit with
  | level hlevel => exact Bool.false_ne_true (hlevel.symm.trans (h .logLevel))
  | logFile _ hfile => exact Bool.false_ne_true (hfile.symm.trans (h .logFile))
  | prompt _ hprompt => exact Bool.false_ne_true (hprompt.symm.trans (h .prompt))

theorem begun_work_fault (hs : w.settings.WellTyped) (hbuiltins : w.builtins = .standard)
    (htask : task ≠ .missing)
    (h : (do begun terminal; return ⟨← work task input, false⟩ : Action Ending) w =
      .error (.fault f) x) : ¬ f.OfKind := by
  rcases Action.error_of_bind h with hbegun | ⟨⟨⟩, y, hbegun, hrest⟩
  · exact fun hkind => not_misfit hs ((unbegun_of_begun hbegun).misfit hkind)
  · rcases Action.error_of_bind hrest with hwork | ⟨code, z, -, hreturn⟩
    · have hy := typed_of_begun (hs .defaultHome) hbuiltins hbegun
      have hprompt : Declared.text.admits y.settings.prompt = true := by
        rw [(begun_home hbegun).1]
        exact hs .prompt
      exact work_fault hy hprompt htask hwork
    · cases hreturn

theorem begun_work_input_iff (hready : w.journal.ready = false) (input : List Read) :
    (∃ f x, (do begun terminal; return ⟨← work .input input, false⟩ : Action Ending) w =
      .error (.fault f) x ∧ f.OfKind) ↔ Misfit terminal w := by
  constructor
  · rintro ⟨f, x, h, hkind⟩
    rcases Action.error_of_bind h with hbegun | ⟨⟨⟩, y, hbegun, hrest⟩
    · exact (unbegun_of_begun hbegun).misfit hkind
    · rcases Action.error_of_bind hrest with hwork | ⟨code, z, -, hreturn⟩
      · refine .prompt hbegun ?_
        rw [← (begun_home hbegun).1, ← Bool.not_eq_true]
        exact fun hprompt => work_input_ne_fault hprompt hwork
      · cases hreturn
  · intro h
    have hunbegun {g : Fault} (hg : Unbegun terminal w g) (hkind : g.OfKind) :
        ∃ f x, (do begun terminal; return ⟨← work .input input, false⟩ : Action Ending) w =
          .error (.fault f) x ∧ f.OfKind := by
      obtain ⟨y, hy⟩ := hg.begun
      exact ⟨g, y, Action.bind_of_error hy, hkind⟩
    cases h with
    | level hlevel =>
      exact hunbegun (.level (Declared.text_not_admits_iff.mp hlevel)) (.missingOperation _ _)
    | logFile hgiven hfile =>
      rcases levelOf_cases w.settings.logLevel with ⟨name, hname, -⟩ | ⟨hname, -⟩
      · exact hunbegun (.logFile hname hready (openingOf_of_not_text hgiven hfile) rfl) .wrongKind
      · exact hunbegun (.level hname) (.missingOperation _ _)
    | @prompt y hbegun hprompt =>
      have hwork : Declared.text.admits y.settings.prompt = false := by
        rw [(begun_home hbegun).1]
        exact hprompt
      refine ⟨.wrongKind, { y with running := true }, ?_, .wrongKind⟩
      rw [Action.bind_of_ok hbegun]
      exact Action.bind_of_error (work_input_of_no_prompt hwork input)

/-- A file that is loaded gives each setting the value that it holds for it, or the usual one, so
the settings are of their kinds exactly if the values in the file are. The level of records and the
prompt are met with a fault about a kind exactly if they are no texts, and the session never is. The
program that is started with settings of their kinds does not end with such a fault; one that works
on its input ends with one exactly if it comes to a setting of the wrong kind. -/
theorem settings_by_kind (w : World) (path : String) (s : Settings)
    (hload : Settings.load w.fs w.processDir path = .ok s) :
    (∃ text data, w.fs.readText w.processDir (Path.Posix.compact path) = .ok text ∧
      Json.read text = .ok (.object data) ∧
      (∀ k : Setting,
        k.value s = (Settings.memberOf data k.part k.key).getD (k.value {})) ∧
      (s.WellTyped ↔ ∀ (k : Setting) v,
        Settings.memberOf data k.part k.key = some v → k.declared.admits v = true)) ∧
    ((∃ f, levelOf s.logLevel = .error f) ↔ Declared.text.admits s.logLevel = false) ∧
    (∀ fs processDir start env f,
      Session.fromEnvironment fs processDir start env s.defaultHome = .error f → ¬ f.OfKind) ∧
    (∀ (v : World) input, v.settings = s → ((∃ f v', Shell.run input v = .error (.fault f) v') ↔
      Declared.text.admits s.prompt = false)) ∧
    ∀ arguments task input terminal, path ≠ "" →
      CommandLine.request arguments = .start (some path) task → w.journal.ready = false →
        (s.WellTyped → w.builtins = .standard → task ≠ .missing →
          ∀ f x, start arguments input terminal w = .error (.fault f) x → ¬ f.OfKind) ∧
        (task = .input →
          ((∃ f x, start arguments input terminal w = .error (.fault f) x ∧ f.OfKind) ↔
            Misfit terminal { w with settings := s })) := by
  refine ⟨?_, levelOf_error_iff, fun _ _ _ _ _ h => (fromEnvironment_fault h).not_ofKind, ?_, ?_⟩
  · obtain ⟨text, data, htext, hread, rfl⟩ := Settings.meant_of_load hload
    exact ⟨text, data, htext, hread, Settings.value_meant data, Settings.wellTyped_meant_iff⟩
  · rintro v input rfl
    constructor
    · rintro ⟨f, v', hrun⟩
      rw [Declared.text_not_admits_iff]
      intro prompt hprompt
      exact Shell.run_ne_fault hprompt input hrun
    · intro hp
      exact ⟨_, _, Shell.run_of_no_prompt (Declared.text_not_admits_iff.mp hp) input⟩
  · intro arguments task input terminal hne hrequest hready
    rw [start_of_loaded input hrequest (loadSettings_of_load hne hload)]
    constructor
    · intro hs hbuiltins htask f x h
      exact begun_work_fault (w := { w with settings := s }) hs hbuiltins htask h
    · rintro rfl
      exact begun_work_input_iff (w := { w with settings := s }) hready input

/-- A prompt of its own and no log file; whatever is typed, nothing complains about a kind. -/
theorem settings_by_kind_with_prompt :
    let text := "\x7b\"shell\":\x7b\"prompt\":\"> \"\x7d,\"logging\":\x7b\"log_file\":null\x7d\x7d"
    let w : World := { fs := { nodes := [(["c"], .file {} text.toUTF8 none)] } }
    let s : Settings := { prompt := .text "> " }
    Settings.load w.fs "/" "c" = .ok s ∧ s.WellTyped ∧
      ∀ input f x, start ["--config", "c"] input false w = .error (.fault f) x → ¬ f.OfKind := by
  intro text w s
  have hread : Json.read text = .ok (.object [("shell", .object [("prompt", .text "> ")]),
      ("logging", .object [("log_file", .null)])]) := by decide +kernel
  have hload : Settings.load w.fs "/" "c" = .ok s :=
    Settings.load_of_read rfl (by decide) hread (.object rfl) (.object rfl) rfl
  have hs : s.WellTyped := by
    intro k
    cases k <;> rfl
  obtain ⟨-, -, -, -, hstart⟩ := settings_by_kind w "c" s hload
  refine ⟨hload, hs, ?_⟩
  intro input f x h
  obtain ⟨hkept, -⟩ := hstart ["--config", "c"] .input input false (by decide) rfl rfl
  exact hkept hs rfl (by decide) f x h

/-- A prompt and a level that are numbers: both files are loaded. The first one ends the program at
its first prompt, the second one before anything else. -/
theorem loaded_with_number :
    (let text := "\x7b\"shell\":\x7b\"prompt\":5\x7d\x7d"
      let w : World := { fs := { nodes := [(["c"], .file {} text.toUTF8 none)] } }
      let s : Settings := { prompt := .integer 5 }
      Settings.load w.fs "/" "c" = .ok s ∧ ¬ s.WellTyped ∧
        ∃ x, start ["--config", "c"] [] false w = .error (.fault .wrongKind) x) ∧
    (let text := "\x7b\"logging\":\x7b\"level\":5\x7d\x7d"
      let w : World := { fs := { nodes := [(["c"], .file {} text.toUTF8 none)] } }
      let s : Settings := { logLevel := .integer 5 }
      Settings.load w.fs "/" "c" = .ok s ∧ ¬ s.WellTyped ∧
        ∃ x, start ["--config", "c"] [] false w =
          .error (.fault (.missingOperation "int" "upper")) x) := by
  constructor
  · intro text w s
    have hread : Json.read text = .ok (.object [("shell", .object [("prompt", .integer 5)])]) := by
      decide +kernel
    have hload : Settings.load w.fs "/" "c" = .ok s :=
      Settings.load_of_read rfl (by decide) hread (.object rfl) (.absent rfl) rfl
    refine ⟨hload, fun hs => absurd (hs .prompt) (by decide), ?_⟩
    have hrequest : CommandLine.request ["--config", "c"] = .start (some "c") .input := by decide
    have hreal : w.fs.realPath "/" "/" = .ok "/" := rfl
    have hbegun : ∃ x, begun false { w with settings := s } = .ok () x :=
      begun_of_fileless rfl ⟨⟨"WARNING", rfl⟩, rfl⟩ hreal
    obtain ⟨x, hx⟩ := hbegun
    rw [start_of_loaded [] hrequest (loadSettings_of_load (by decide) hload),
      Action.bind_of_ok hx]
    refine ⟨_, Action.bind_of_error (work_input_of_no_prompt ?_ [])⟩
    rw [(begun_home hx).1]
    rfl
  · intro text w s
    have hread : Json.read text = .ok (.object [("logging", .object [("level", .integer 5)])]) := by
      decide +kernel
    have hload : Settings.load w.fs "/" "c" = .ok s :=
      Settings.load_of_read rfl (by decide) hread (.absent rfl) (.object rfl) rfl
    refine ⟨hload, fun hs => absurd (hs .logLevel) (by decide), ?_⟩
    have hrequest : CommandLine.request ["--config", "c"] = .start (some "c") .input := by decide
    have hlevel : Unbegun false { w with settings := s } (.missingOperation "int" "upper") :=
      .level (by simp [s])
    obtain ⟨x, hx⟩ := hlevel.begun
    rw [start_of_loaded [] hrequest (loadSettings_of_load (by decide) hload)]
    exact ⟨x, Action.bind_of_error hx⟩

end Startup

end CommandShell
