import CommandShell.Proofs.FileSystem.Walk
import CommandShell.Proofs.Json.Limits
import CommandShell.Proofs.Logging

/-! # Starting with a configuration

A load gives settings or is refused with a failure, and a refused load ends the program with one
line and the status 2. In a few cases, which the path and the content of the file tell, the load
ends with a fault that is no failure; it ends the program as it is, and nothing is reported. -/
namespace CommandShell

namespace Text

def OnOneLine (s : String) : Prop :=
  '\n' ∉ s.toList

instance : DecidablePred OnOneLine := fun s => inferInstanceAs (Decidable ('\n' ∉ s.toList))

@[simp]
theorem onOneLine_append {s t : String} :
    OnOneLine (s ++ t) ↔ OnOneLine s ∧ OnOneLine t := by
  simp [OnOneLine]

@[simp]
theorem onOneLine_repr (n : Nat) : OnOneLine n.repr := by
  intro h
  rw [Nat.toList_repr] at h
  exact absurd (Nat.isDigit_of_mem_toDigits (by decide) (by decide) h) (by decide)

theorem newline_not_mem_toDigits (n : Nat) : '\n' ∉ Nat.toDigits 16 n := by
  induction n using Nat.strongRecOn with
  | ind n ih =>
    rw [Nat.toDigits_eq_if (by decide)]
    split
    · simp
    · have hless : n / 16 < n := by omega
      simp [ih _ hless]

theorem newline_not_mem_hex (width n : Nat) : '\n' ∉ hex width n := by
  simp [hex, newline_not_mem_toDigits]

theorem newline_not_mem_escaped {quote : Char} (hquote : quote ≠ '\n') (c : Char) :
    '\n' ∉ escaped quote c := by
  unfold escaped
  split_ifs with h _ hn
  · rcases h with rfl | rfl
    · simp [Ne.symm hquote]
    · decide
  · decide
  · decide
  · decide
  · simp [Ne.symm hn]
  all_goals simp [newline_not_mem_hex]

/-- The ends of lines in a text are shown as escapes between quotes. -/
@[simp]
theorem onOneLine_quoted (s : String) : OnOneLine (quoted s) := by
  have hquote : quoteFor s.toList ≠ '\n' := by
    unfold quoteFor
    split <;> decide
  unfold OnOneLine quoted
  simp [Ne.symm hquote, newline_not_mem_escaped hquote]

end Text

theorem Fault.onOneLine_system (e : SystemError) (path : String) :
    Text.OnOneLine (Fault.system e path).message := by
  have htext : Text.OnOneLine e.text := by cases e <;> decide +kernel
  simp +decide [Fault.message, htext]

theorem Json.onOneLine_located (what : Complaint) (offset : Nat) (text : List Char) :
    Text.OnOneLine (located what offset text) := by
  have hwhat : Text.OnOneLine what.message := by cases what <;> decide +kernel
  simp +decide [located, hwhat]

namespace Settings

open FileSystem (plainLineEnds)

/-- The faults that a load ends with. The system does not let the path be looked up, or the content
is not a text, or it is more than the reader takes. -/
inductive Fails (fs : FileSystem) (processDir path : String) : Fault → Prop where
  | lookup {e} :
      fs.locate processDir (Path.Posix.compact path) =
        .error (.system e (Path.Posix.compact path)) →
      e = .permissionDenied ∨ e = .nameTooLong →
      Fails fs processDir path (.system e (Path.Posix.compact path))
  | notText {content} : fs.readBytes processDir (Path.Posix.compact path) = .ok content →
      String.fromUTF8? content = none → Fails fs processDir path .notText
  | tooManyDigits {text} : fs.readText processDir (Path.Posix.compact path) = .ok text →
      Json.read text = .error .tooManyDigits → Fails fs processDir path .tooManyDigits
  | tooDeep {text} : fs.readText processDir (Path.Posix.compact path) = .ok text →
      Json.read text = .error .tooDeep → Fails fs processDir path .tooDeep

/-- A path that the system lets be looked up, with a content, if there is one, that is a text of a
size that the reader takes. -/
structure Legible (fs : FileSystem) (processDir path : String) : Prop where
  lookup : ∀ e p, fs.locate processDir (Path.Posix.compact path) = .error (.system e p) →
    e ≠ .permissionDenied ∧ e ≠ .nameTooLong
  text : ∀ content, fs.readBytes processDir (Path.Posix.compact path) = .ok content →
    ∃ text, String.fromUTF8? content = some text
  digits : ∀ text, fs.readText processDir (Path.Posix.compact path) = .ok text →
    ¬ Json.LongDigits text.toList
  nesting : ∀ text, fs.readText processDir (Path.Posix.compact path) = .ok text →
    Json.openings text.toList ≤ Json.depthLimit

variable {fs : FileSystem} {processDir path : String} {f : Fault}

theorem configurationFailure_inj {m m' : String}
    (h : configurationFailure m = configurationFailure m') : m = m' := by
  cases h
  rfl

theorem Fails.refused (h : Fails fs processDir path f) :
    Refused fs processDir path (.fault f) := by
  cases h with
  | lookup hl he => exact .system hl (by rcases he with rfl | rfl <;> decide)
  | notText hcontent hdecode => exact .undecodable hcontent hdecode
  | tooManyDigits htext hread => exact .tooManyDigits htext hread
  | tooDeep htext hread => exact .tooDeep htext hread

theorem Refused.cases {stop : Stop} (h : Refused fs processDir path stop) :
    (∃ m, stop = configurationFailure m) ∨ ∃ f, stop = .fault f ∧ Fails fs processDir path f := by
  cases h with
  | missing => exact .inl ⟨_, rfl⟩
  | @system e p hl he =>
    obtain ⟨hmem, rfl⟩ := FileSystem.locate_system hl
    refine .inr ⟨_, rfl, .lookup hl ?_⟩
    simp only [FileSystem.lookupErrors, List.mem_cons, List.not_mem_nil, or_false] at hmem
    grind
  | unreadable => exact .inl ⟨_, rfl⟩
  | undecodable hcontent hdecode => exact .inr ⟨_, rfl, .notText hcontent hdecode⟩
  | malformed => exact .inl ⟨_, rfl⟩
  | tooManyDigits htext hread => exact .inr ⟨_, rfl, .tooManyDigits htext hread⟩
  | tooDeep htext hread => exact .inr ⟨_, rfl, .tooDeep htext hread⟩
  | root => exact .inl ⟨_, rfl⟩
  | shell => exact .inl ⟨_, rfl⟩
  | logging => exact .inl ⟨_, rfl⟩

theorem load_eq_fault_iff :
    load fs processDir path = .error (.fault f) ↔ Fails fs processDir path f := by
  rw [load_eq_error_iff]
  constructor
  · intro h
    rcases h.cases with ⟨m, hm⟩ | ⟨f', hf, hfails⟩
    · cases hm
    · cases hf
      exact hfails
  · exact Fails.refused

theorem load_ends (fs : FileSystem) (processDir path : String) :
    (∃ s, load fs processDir path = .ok s) ∨
      (∃ m, load fs processDir path = .error (configurationFailure m)) ∨
      ∃ f, Fails fs processDir path f := by
  cases h : load fs processDir path with
  | ok s => exact .inl ⟨s, rfl⟩
  | error stop =>
    rcases (load_eq_error_iff.mp h).cases with ⟨m, rfl⟩ | ⟨f, -, hfails⟩
    · exact .inr (.inl ⟨m, rfl⟩)
    · exact .inr (.inr ⟨f, hfails⟩)

theorem Legible.not_fails (h : Legible fs processDir path) : ¬ Fails fs processDir path f := by
  intro hfails
  cases hfails with
  | lookup hl he =>
    obtain ⟨hpermission, hlong⟩ := h.lookup _ _ hl
    exact he.elim hpermission hlong
  | notText hcontent hdecode =>
    obtain ⟨text, htext⟩ := h.text _ hcontent
    rw [hdecode] at htext
    cases htext
  | tooManyDigits htext hread => exact h.digits _ htext (Json.longDigits_of_read hread)
  | tooDeep htext hread =>
    exact absurd (Json.openings_of_read hread) (Nat.not_lt.mpr (h.nesting _ htext))

/-- Only the path itself brings the end of a line into a message. -/
theorem Refused.onOneLine {stop : Stop} (h : Refused fs processDir path stop)
    (hpath : Text.OnOneLine path) {m : String} (hm : stop = configurationFailure m) :
    Text.OnOneLine m := by
  cases h with
  | missing =>
    obtain rfl := configurationFailure_inj hm
    simp +decide [hpath]
  | @unreadable _ e p =>
    obtain rfl := configurationFailure_inj hm
    simp +decide [Fault.onOneLine_system]
  | malformed =>
    obtain rfl := configurationFailure_inj hm
    simp +decide [Json.onOneLine_located]
  | root | shell | logging =>
    obtain rfl := configurationFailure_inj hm
    decide +kernel
  | _ => cases hm

end Settings

namespace Log.Journal

theorem start_fst (j : Journal) (level : Level) (console : Option Layout)
    (opening : Option Opening) (fs : FileSystem) : (j.start level console opening fs).1 =
      match opening with
      | some action => if j.ready then .ok () else (action fs).1.map fun _ => ()
      | none => .ok () := by
  unfold start
  cases j.ready with
  | true => cases opening <;> rfl
  | false =>
    cases opening with
    | none => rfl
    | some action =>
      simp only [Bool.false_eq_true, if_false]
      rcases action fs with ⟨_ | _, _⟩ <;> rfl

end Log.Journal

namespace Startup

inductive Loaded (w : World) : String → World → Prop where
  | unnamed : Loaded w "" w
  | named {path s} : path ≠ "" → Settings.load w.fs w.processDir path = .ok s →
      Loaded w path { w with settings := s }

inductive Unbegun (terminal : Bool) (w : World) : Fault → Prop where
  | level : (∀ name, w.settings.logLevel ≠ .text name) →
      Unbegun terminal w (.missingOperation w.settings.logLevel.kind "upper")
  | logFile {name opening f fs} : w.settings.logLevel = .text name → w.journal.ready = false →
      openingOf w.processDir (w.environment.get? "HOME") w.settings.logFile = some opening →
      opening w.fs = (.error f, fs) → Unbegun terminal w f
  | directory {x f} : startJournal terminal w = .ok () x →
      x.fs.realPath x.processDir x.processDir = .error f → Unbegun terminal w f

/-- How the program ends that was told to load its settings from a path: the session begins and the
work is done, or it does not begin, or the refused load is reported, or the load ends with a
fault. -/
structure Follows (path : String) (task : CommandLine.Task) (input : List Read) (terminal : Bool)
    (w : World) (result : EStateM.Result Stop World Ending) : Prop where
  begun : ∀ x y, Loaded w path x → begun terminal x = .ok () y →
    result = (do return ⟨← work task input, false⟩ : Action Ending) y
  unbegun : ∀ x f, Loaded w path x → Unbegun terminal x f → ∃ y, result = .error (.fault f) y
  refused : ∀ m, path ≠ "" →
    Settings.load w.fs w.processDir path = .error (Settings.configurationFailure m) →
    result = .ok ⟨2, false⟩ { w with notices := w.notices ++ [.text ("minish: " ++ m ++ "\n")] }
  fails : ∀ f, path ≠ "" → Settings.Fails w.fs w.processDir path f → result = .error (.fault f) w

variable {w x : World} {terminal : Bool} {path : String} {f : Fault}

theorem levelOf_cases (v : Value) :
    (∃ name, v = .text name ∧ levelOf v = .ok (Log.Level.ofName name)) ∨
      ((∀ name, v ≠ .text name) ∧ levelOf v = .error (.missingOperation v.kind "upper")) := by
  cases v with
  | text name => exact .inl ⟨name, rfl, rfl⟩
  | _ => exact .inr ⟨by simp, rfl⟩

theorem startJournal_of_level {level : Log.Level} (h : levelOf w.settings.logLevel = .ok level)
    (terminal : Bool) : ∃ journal fs, startJournal terminal w = Action.ofExcept
      (match openingOf w.processDir (w.environment.get? "HOME") w.settings.logFile with
        | some action => if w.journal.ready then .ok () else (action w.fs).1.map fun _ => ()
        | none => .ok ()) { w with journal, fs } := by
  let console := if w.settings.consoleOutput.isGiven then
    some (Log.Layout.forStream w.settings.useColors.isGiven (some terminal)) else none
  let opening := openingOf w.processDir (w.environment.get? "HOME") w.settings.logFile
  let r := w.journal.start level console opening w.fs
  refine ⟨r.2.1, r.2.2, ?_⟩
  have hr := Log.Journal.start_fst w.journal level console opening w.fs
  unfold startJournal
  rw [Action.get_bind, h, ← hr]
  rfl

theorem startSession_of_error (h : w.fs.realPath w.processDir w.processDir = .error f) :
    startSession w = .error (.fault f) w := by
  unfold startSession Session.fromEnvironment
  rw [Action.get_bind, h]
  rfl

theorem startSession_of_ok {dir : String} (h : w.fs.realPath w.processDir w.processDir = .ok dir) :
    ∃ x, startSession w = .ok () x := by
  unfold startSession Session.fromEnvironment
  rw [Action.get_bind, h]
  exact ⟨_, rfl⟩

theorem startJournal_of_not_text (h : ∀ name, w.settings.logLevel ≠ .text name)
    (terminal : Bool) : startJournal terminal w =
      .error (.fault (.missingOperation w.settings.logLevel.kind "upper")) w := by
  rcases levelOf_cases w.settings.logLevel with ⟨name, hname, -⟩ | ⟨-, hlevel⟩
  · exact absurd hname (h name)
  · unfold startJournal
    rw [Action.get_bind, hlevel]
    rfl

theorem Unbegun.begun (h : Unbegun terminal w f) :
    ∃ y, begun terminal w = .error (.fault f) y := by
  cases h with
  | level hlevel => exact ⟨w, Action.bind_of_error (startJournal_of_not_text hlevel terminal)⟩
  | @logFile name opening f fs hlevel hready hopening hfails =>
    have hname : levelOf w.settings.logLevel = .ok (Log.Level.ofName name) := by
      rw [hlevel, levelOf]
    obtain ⟨journal, fs', hj⟩ := startJournal_of_level hname terminal
    rw [hopening] at hj
    simp only [hready, hfails] at hj
    exact ⟨_, Action.bind_of_error hj⟩
  | directory hx hreal =>
    exact ⟨_, (Action.bind_of_ok hx).trans (startSession_of_error hreal)⟩

theorem startJournal_cases (terminal : Bool) (w : World) :
    (∃ x, startJournal terminal w = .ok () x) ∨ ∃ f, Unbegun terminal w f := by
  rcases levelOf_cases w.settings.logLevel with ⟨name, hname, hlevel⟩ | ⟨hname, -⟩
  · obtain ⟨journal, fs, hj⟩ := startJournal_of_level hlevel terminal
    cases hopening : openingOf w.processDir (w.environment.get? "HOME") w.settings.logFile with
    | none =>
      rw [hopening] at hj
      exact .inl ⟨_, hj⟩
    | some action =>
      rw [hopening] at hj
      cases hready : w.journal.ready with
      | true =>
        rw [hready] at hj
        exact .inl ⟨_, hj⟩
      | false =>
        rcases hr : action w.fs with ⟨f | place, fs'⟩
        · exact .inr ⟨f, .logFile hname hready hopening hr⟩
        · simp only [hready, hr] at hj
          exact .inl ⟨_, hj⟩
  · exact .inr ⟨_, .level hname⟩

/-- The session begins, or there is a reason why it does not. -/
theorem begun_cases (terminal : Bool) (w : World) :
    (∃ x, begun terminal w = .ok () x) ∨ ∃ f, Unbegun terminal w f := by
  rcases startJournal_cases terminal w with ⟨x, hx⟩ | hunbegun
  · cases hreal : x.fs.realPath x.processDir x.processDir with
    | error f => exact .inr ⟨f, .directory hx hreal⟩
    | ok dir =>
      obtain ⟨y, hy⟩ := startSession_of_ok hreal
      exact .inl ⟨y, (Action.bind_of_ok hx).trans hy⟩
  · exact .inr hunbegun

theorem Loaded.loadSettings (h : Loaded w path x) :
    loadSettings (some path) w = .ok () x := by
  cases h with
  | unnamed => rfl
  | named hne hload => exact loadSettings_of_load hne hload

theorem loadSettings_of_error {stop : Stop} (hne : path ≠ "")
    (h : Settings.load w.fs w.processDir path = .error stop) :
    loadSettings (some path) w = .error stop w := by
  unfold Startup.loadSettings
  generalize hp : some path = p
  split
  · cases hp
  · cases hp
    exact absurd rfl hne
  · cases hp
    rw [Action.get_bind, h]
    rfl

/-- What is done about a load that does not succeed: a failure is reported, and everything else is
passed on. -/
theorem start_of_not_loaded {arguments : List String} {task : CommandLine.Task} {stop : Stop}
    (hrequest : CommandLine.request arguments = .start (some path) task) (input : List Read)
    (hne : path ≠ "") (h : Settings.load w.fs w.processDir path = .error stop) :
    start arguments input terminal w = match stop with
      | .failure f => .ok ⟨2, false⟩
          { w with notices := w.notices ++ [.text ("minish: " ++ f.message ++ "\n")] }
      | _ => .error stop w := by
  unfold start
  rw [hrequest]
  dsimp only
  rw [Action.bind_of_ok (Action.outcome_of_error (loadSettings_of_error hne h))]
  cases stop <;> rfl

theorem follows_start {arguments : List String} {task : CommandLine.Task}
    (hrequest : CommandLine.request arguments = .start (some path) task) (input : List Read)
    (terminal : Bool) (w : World) :
    Follows path task input terminal w (start arguments input terminal w) where
  begun x y hx hy := by
    rw [start_of_loaded input hrequest hx.loadSettings, Action.bind_of_ok hy]
  unbegun x f hx hf := by
    obtain ⟨y, hy⟩ := hf.begun
    exact ⟨y, (start_of_loaded input hrequest hx.loadSettings).trans (Action.bind_of_error hy)⟩
  refused m hne hload := start_of_not_loaded hrequest input hne hload
  fails f hne hf := start_of_not_loaded hrequest input hne (Settings.load_eq_fault_iff.mpr hf)

/-- A load gives settings, is refused with a failure, or ends with one of the faults, of which none
is left if the path is legible. The program that was told to load them begins the session with the
settings, if nothing stands in the way of that; reports a failure in one line and ends with the
status 2; and ends with a fault as it is. -/
theorem start_with_configuration (w : World) (path : String) :
    ((∃ s, Settings.load w.fs w.processDir path = .ok s) ∨
      (∃ m, Settings.load w.fs w.processDir path = .error (Settings.configurationFailure m)) ∨
      ∃ f, Settings.Fails w.fs w.processDir path f) ∧
    (∀ f, Settings.load w.fs w.processDir path = .error (.fault f) ↔
      Settings.Fails w.fs w.processDir path f) ∧
    (Settings.Legible w.fs w.processDir path → ∀ f, ¬ Settings.Fails w.fs w.processDir path f) ∧
    (Text.OnOneLine path → ∀ m,
      Settings.load w.fs w.processDir path = .error (Settings.configurationFailure m) →
      Text.OnOneLine m) ∧
    (∀ terminal x, Loaded w path x →
      (∃ y, begun terminal x = .ok () y) ∨ ∃ f, Unbegun terminal x f) ∧
    ∀ arguments task input terminal, CommandLine.request arguments = .start (some path) task →
      Follows path task input terminal w (start arguments input terminal w) := by
  refine ⟨Settings.load_ends w.fs w.processDir path, fun _ => Settings.load_eq_fault_iff,
    fun hlegible _ => hlegible.not_fails, ?_, fun terminal x _ => begun_cases terminal x,
    fun _ _ input terminal hrequest => follows_start hrequest input terminal w⟩
  intro hpath m hload
  exact (Settings.load_eq_error_iff.mp hload).onOneLine hpath rfl

/-- A section that is no object ends the program with one line. -/
theorem start_with_bad_section :
    let text := "\x7b\"logging\":1\x7d"
    let w : World := { fs := { nodes := [(["c"], .file {} text.toUTF8 none)] } }
    let line := "minish: Configuration section 'logging' must be a JSON object\n"
    Settings.Legible w.fs "/" "c" ∧ (∀ f, ¬ Settings.Fails w.fs "/" "c" f) ∧
      start ["--config", "c"] [] false w = .ok ⟨2, false⟩ { w with notices := [.text line] } := by
  intro text w line
  have hplain : String.ofList (FileSystem.plainLineEnds text.toList) = text :=
    FileSystem.ofList_plainLineEnds (by simp [text])
  have hcontent : w.fs.readBytes "/" (Path.Posix.compact "c") = .ok text.toUTF8 := rfl
  have htext : w.fs.readText "/" (Path.Posix.compact "c") = .ok text := by
    rw [Settings.readText_of_readBytes hcontent, Text.fromUTF8?_toUTF8]
    exact congrArg Except.ok hplain
  have hread : Json.read text = .ok (.object [("logging", .integer 1)]) := by decide +kernel
  have hlegible : Settings.Legible w.fs "/" "c" := by
    constructor
    · intro e p hl
      cases hl
    · intro content h
      rw [hcontent] at h
      cases h
      exact ⟨text, Text.fromUTF8?_toUTF8 text⟩
    · intro t h
      rw [htext] at h
      cases h
      rintro ⟨ds, hds, -, hlong⟩
      have hshort : text.toList.length < Integer.digitLimit := by decide
      exact absurd (hds.length_le.trans_lt hshort) (Nat.not_lt_of_gt hlong)
    · intro t h
      rw [htext] at h
      cases h
      decide
  have hload : Settings.load w.fs "/" "c" = .error (Settings.configurationFailure
      "Configuration section 'logging' must be a JSON object") :=
    Settings.Refused.load (.logging htext hread (.absent rfl) ⟨_, rfl, by simp⟩)
  obtain ⟨-, -, hfails, -, -, hstart⟩ := start_with_configuration w "c"
  refine ⟨hlegible, hfails hlegible, ?_⟩
  exact (hstart ["--config", "c"] .input [] false rfl).refused _ (by decide) hload

/-- A file in a directory that may not be searched ends the program with a fault, of which nothing
is reported. -/
theorem start_with_unsearchable_file :
    let w : World := { fs := { nodes := [
      (["c.json", "d"], .file {} "\x7b\x7d".toUTF8 none),
      (["d"], .directory { execute := false })] } }
    let stop := Stop.fault (.system .permissionDenied "/d/c.json")
    Settings.load w.fs "/" "/d/c.json" = .error stop ∧
      start ["--config", "/d/c.json"] [] false w = .error stop w :=
  ⟨rfl, rfl⟩

end Startup

end CommandShell
