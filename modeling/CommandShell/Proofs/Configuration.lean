import CommandShell.Proofs.FileSystem.Walk
import CommandShell.Proofs.Value
import CommandShell.Settings

/-! # Configurations

A load either takes effect, by what the file holds and nothing else, or it is refused for one of a
few reasons and changes nothing. So after any loads and resets the configuration is that of the last
load since the last reset that was not refused. -/
namespace CommandShell

open FileSystem (plainLineEnds)

theorem Text.fromUTF8?_toUTF8 (s : String) : String.fromUTF8? s.toUTF8 = some s := by
  simp only [String.fromUTF8?, Option.dite_none_right_eq_some]
  exact ⟨s.isValidUTF8, rfl⟩

namespace Settings

/-- The members of a section of a configuration, which is not there or an object. -/
inductive Section (data : Members) (name : String) : Members → Prop where
  | absent : data.get? name = none → Section data name []
  | object {members} : data.get? name = some (.object members) → Section data name members

def BadSection (data : Members) (name : String) : Prop :=
  ∃ v, data.get? name = some v ∧ ∀ members, v ≠ .object members

inductive Given (content : ByteArray) : Settings → Prop where
  | intro {text data shell logging} : String.fromUTF8? content = some text →
      Json.read (String.ofList (plainLineEnds text.toList)) = .ok (.object data) →
      Section data "shell" shell → Section data "logging" logging →
      Given content (ofSections shell logging)

inductive Missing (fs : FileSystem) (processDir path : String) : Prop where
  | nul : fs.locate processDir path = .error .nulCharacter → Missing fs processDir path
  | system {e p} : fs.locate processDir path = .error (.system e p) →
      e = .notFound ∨ e = .notDirectory ∨ e = .linkLoop → Missing fs processDir path

/-- Why a load is refused, and what is reported. The stages come in the order in which they are
taken. -/
inductive Refused (fs : FileSystem) (processDir path : String) : Stop → Prop where
  | missing : Missing fs processDir (Path.Posix.compact path) →
      Refused fs processDir path (configurationFailure ("Configuration file not found: " ++ path))
  | system {e p} : fs.locate processDir (Path.Posix.compact path) = .error (.system e p) →
      ¬ (e = .notFound ∨ e = .notDirectory ∨ e = .linkLoop) →
      Refused fs processDir path (.fault (.system e p))
  | unreadable {l e p} : fs.locate processDir (Path.Posix.compact path) = .ok l →
      fs.readBytes processDir (Path.Posix.compact path) = .error (.system e p) →
      Refused fs processDir path (configurationFailure
        ("Cannot read configuration file: " ++ (Fault.system e p).message))
  | undecodable {content} : fs.readBytes processDir (Path.Posix.compact path) = .ok content →
      String.fromUTF8? content = none → Refused fs processDir path (.fault .notText)
  | malformed {text what offset cs} : fs.readText processDir (Path.Posix.compact path) = .ok text →
      Json.read text = .error (.malformed what offset cs) →
      Refused fs processDir path (configurationFailure
        ("Invalid JSON in configuration file: " ++ Json.located what offset cs))
  | tooManyDigits {text} : fs.readText processDir (Path.Posix.compact path) = .ok text →
      Json.read text = .error .tooManyDigits → Refused fs processDir path (.fault .tooManyDigits)
  | tooDeep {text} : fs.readText processDir (Path.Posix.compact path) = .ok text →
      Json.read text = .error .tooDeep → Refused fs processDir path (.fault .tooDeep)
  | root {text v} : fs.readText processDir (Path.Posix.compact path) = .ok text →
      Json.read text = .ok v → (∀ data, v ≠ .object data) → Refused fs processDir path
        (configurationFailure "Configuration root must be a JSON object")
  | shell {text data} : fs.readText processDir (Path.Posix.compact path) = .ok text →
      Json.read text = .ok (.object data) → BadSection data "shell" → Refused fs processDir path
        (configurationFailure "Configuration section 'shell' must be a JSON object")
  | logging {text data members} : fs.readText processDir (Path.Posix.compact path) = .ok text →
      Json.read text = .ok (.object data) → Section data "shell" members →
      BadSection data "logging" → Refused fs processDir path
        (configurationFailure "Configuration section 'logging' must be a JSON object")

variable {fs : FileSystem} {processDir path name : String} {data members : Members}

theorem sectionOf_eq_ok_iff : sectionOf data name = .ok members ↔ Section data name members := by
  constructor
  · intro h
    unfold sectionOf at h
    split at h
    · next hnone =>
      cases h
      exact .absent hnone
    · next hobject =>
      cases h
      exact .object hobject
    · cases h
  · intro h
    cases h with
    | absent hnone => simp [sectionOf, hnone]
    | object hobject => simp [sectionOf, hobject]

theorem sectionOf_cases (data : Members) (name : String) :
    (∃ members, Section data name members) ∨ BadSection data name := by
  cases hv : data.get? name with
  | none => exact .inl ⟨[], .absent hv⟩
  | some v =>
    cases v with
    | object members => exact .inl ⟨members, .object hv⟩
    | _ => exact .inr ⟨_, hv, by simp⟩

theorem BadSection.sectionOf (h : BadSection data name) : sectionOf data name =
    .error (configurationFailure ("Configuration section '" ++ name ++
      "' must be a JSON object")) := by
  obtain ⟨v, hv, hobject⟩ := h
  cases v with
  | object members => exact absurd rfl (hobject members)
  | _ => simp [Settings.sectionOf, hv]

theorem Section.unique {other : Members} (h : Section data name members)
    (k : Section data name other) : members = other := by
  have he := sectionOf_eq_ok_iff.mpr h
  rw [sectionOf_eq_ok_iff.mpr k] at he
  exact (Except.ok.inj he).symm

theorem Given.unique {content : ByteArray} {s t : Settings} (h : Given content s)
    (k : Given content t) : s = t := by
  cases h with
  | intro hdecode hread hshell hlogging =>
    cases k with
    | intro kdecode kread kshell klogging =>
      rw [hdecode] at kdecode
      cases kdecode
      rw [hread] at kread
      cases kread
      rw [hshell.unique kshell, hlogging.unique klogging]

theorem fileExists_of_located {l : Location} (h : fs.locate processDir path = .ok l) :
    fileExists fs processDir path = .ok true := by
  simp [fileExists, h]

theorem locate_of_readBytes {content : ByteArray} (h : fs.readBytes processDir path = .ok content) :
    ∃ l, fs.locate processDir path = .ok l := by
  unfold FileSystem.readBytes at h
  split at h
  · cases h
  · next l hl => exact ⟨l, hl⟩

theorem readText_of_readBytes {content : ByteArray}
    (h : fs.readBytes processDir path = .ok content) : fs.readText processDir path =
      match String.fromUTF8? content with
      | some s => .ok (String.ofList (plainLineEnds s.toList))
      | none => .error .notText := by
  unfold FileSystem.readText
  cases hd : String.fromUTF8? content <;> simp only [h, hd]

theorem readBytes_of_readText {text : String} (h : fs.readText processDir path = .ok text) :
    ∃ content decoded, fs.readBytes processDir path = .ok content ∧
      String.fromUTF8? content = some decoded ∧
      text = String.ofList (plainLineEnds decoded.toList) := by
  unfold FileSystem.readText at h
  split at h
  · cases h
  · next content hcontent =>
    split at h
    · next decoded hdecode =>
      cases h
      exact ⟨content, decoded, hcontent, hdecode, rfl⟩
    · cases h

theorem load_of_located {l : Location}
    (hl : fs.locate processDir (Path.Posix.compact path) = .ok l) : load fs processDir path =
      match fs.readText processDir (Path.Posix.compact path) with
      | .ok text => ofText text
      | .error (.system e p) => .error (configurationFailure
          ("Cannot read configuration file: " ++ (Fault.system e p).message))
      | .error f => .error (.fault f) := by
  have hexists := fileExists_of_located hl
  unfold load
  dsimp only
  cases fs.readText processDir (Path.Posix.compact path) with
  | ok text => rw [hexists]
  | error f => cases f <;> rw [hexists]

theorem load_of_readText {text : String}
    (h : fs.readText processDir (Path.Posix.compact path) = .ok text) :
    load fs processDir path = ofText text := by
  obtain ⟨content, decoded, hcontent, -, -⟩ := readBytes_of_readText h
  obtain ⟨l, hl⟩ := locate_of_readBytes hcontent
  rw [load_of_located hl, h]

theorem load_of_given {content : ByteArray} {s : Settings}
    (hcontent : fs.readBytes processDir (Path.Posix.compact path) = .ok content)
    (h : Given content s) : load fs processDir path = .ok s := by
  cases h with
  | @intro text data shell logging hdecode hread hshell hlogging =>
    have htext := readText_of_readBytes hcontent
    rw [hdecode] at htext
    rw [load_of_readText htext, ofText, hread]
    simp [ofValue, ofMembers, sectionOf_eq_ok_iff.mpr hshell, sectionOf_eq_ok_iff.mpr hlogging,
      bind, Except.bind, pure, Except.pure]

theorem Missing.fileExists (h : Missing fs processDir path) :
    fileExists fs processDir path = .ok false := by
  cases h with
  | nul hl => simp [Settings.fileExists, hl]
  | system hl he => rcases he with rfl | rfl | rfl <;> simp [Settings.fileExists, hl]

theorem fileExists_of_system {e : SystemError} {p : String}
    (hl : fs.locate processDir path = .error (.system e p))
    (he : ¬ (e = .notFound ∨ e = .notDirectory ∨ e = .linkLoop)) :
    fileExists fs processDir path = .error (.system e p) := by
  cases e <;> simp_all [fileExists]

theorem Refused.load {e : Stop} (h : Refused fs processDir path e) :
    load fs processDir path = .error e := by
  cases h with
  | missing hmissing =>
    unfold Settings.load
    dsimp only
    rw [hmissing.fileExists]
  | system hl he =>
    unfold Settings.load
    dsimp only
    rw [fileExists_of_system hl he]
  | @unreadable l e p hl hread =>
    have htext : fs.readText processDir (Path.Posix.compact path) = .error (.system e p) := by
      rw [FileSystem.readText, hread]
    rw [load_of_located hl, htext]
  | undecodable hcontent hdecode =>
    obtain ⟨l, hl⟩ := locate_of_readBytes hcontent
    have htext : fs.readText processDir (Path.Posix.compact path) = .error .notText := by
      rw [readText_of_readBytes hcontent, hdecode]
    rw [load_of_located hl, htext]
  | malformed htext hread => rw [load_of_readText htext, ofText, hread]
  | tooManyDigits htext hread => rw [load_of_readText htext, ofText, hread]
  | tooDeep htext hread => rw [load_of_readText htext, ofText, hread]
  | @root text v htext hread hroot =>
    rw [load_of_readText htext, ofText, hread]
    cases v with
    | object data => exact absurd rfl (hroot data)
    | _ => rfl
  | shell htext hread hbad =>
    rw [load_of_readText htext, ofText, hread]
    simp [ofValue, ofMembers, hbad.sectionOf, bind, Except.bind]
  | logging htext hread hshell hbad =>
    rw [load_of_readText htext, ofText, hread]
    simp [ofValue, ofMembers, sectionOf_eq_ok_iff.mpr hshell, hbad.sectionOf, bind, Except.bind]

theorem readBytes_error_of_located {l : Location} {f : Fault}
    (hl : fs.locate processDir path = .ok l) (h : fs.readBytes processDir path = .error f) :
    ∃ e p, f = .system e p := by
  rw [FileSystem.readBytes, hl] at h
  dsimp only at h
  split at h
  · split at h
    · cases h
    · cases h
      exact ⟨_, _, rfl⟩
  · cases h
    exact ⟨_, _, rfl⟩
  · cases h
    exact ⟨_, _, rfl⟩

theorem given_or_refused {content : ByteArray}
    (hcontent : fs.readBytes processDir (Path.Posix.compact path) = .ok content) :
    (∃ s, Given content s) ∨ ∃ e, Refused fs processDir path e := by
  have htext := readText_of_readBytes hcontent
  cases hdecode : String.fromUTF8? content with
  | none => exact .inr ⟨_, .undecodable hcontent hdecode⟩
  | some text =>
    rw [hdecode] at htext
    cases hread : Json.read (String.ofList (plainLineEnds text.toList)) with
    | error problem =>
      cases problem with
      | malformed => exact .inr ⟨_, .malformed htext hread⟩
      | tooManyDigits => exact .inr ⟨_, .tooManyDigits htext hread⟩
      | tooDeep => exact .inr ⟨_, .tooDeep htext hread⟩
    | ok v =>
      cases v with
      | object data =>
        rcases sectionOf_cases data "shell" with ⟨shell, hshell⟩ | hbad
        · rcases sectionOf_cases data "logging" with ⟨logging, hlogging⟩ | hbad
          · exact .inl ⟨_, .intro hdecode hread hshell hlogging⟩
          · exact .inr ⟨_, .logging htext hread hshell hbad⟩
        · exact .inr ⟨_, .shell htext hread hbad⟩
      | _ => exact .inr ⟨_, .root htext hread (by simp)⟩

/-- A load takes effect by a content that it has read, or it is refused. -/
theorem load_cases (fs : FileSystem) (processDir path : String) :
    (∃ content s, fs.readBytes processDir (Path.Posix.compact path) = .ok content ∧
      Given content s) ∨ ∃ e, Refused fs processDir path e := by
  cases hl : fs.locate processDir (Path.Posix.compact path) with
  | error f =>
    rcases FileSystem.locate_error hl with ⟨rfl, -⟩ | ⟨e, -, rfl⟩
    · exact .inr ⟨_, .missing (.nul hl)⟩
    · by_cases he : e = .notFound ∨ e = .notDirectory ∨ e = .linkLoop
      · exact .inr ⟨_, .missing (.system hl he)⟩
      · exact .inr ⟨_, .system hl he⟩
  | ok l =>
    cases hcontent : fs.readBytes processDir (Path.Posix.compact path) with
    | error f =>
      obtain ⟨e, p, rfl⟩ := readBytes_error_of_located hl hcontent
      exact .inr ⟨_, .unreadable hl hcontent⟩
    | ok content =>
      rcases given_or_refused hcontent with ⟨s, hs⟩ | hrefused
      · exact .inl ⟨content, s, rfl, hs⟩
      · exact .inr hrefused

/-- A load that succeeds has read a content, and gives the settings of this content. -/
theorem load_eq_ok_iff {s : Settings} : load fs processDir path = .ok s ↔
    ∃ content, fs.readBytes processDir (Path.Posix.compact path) = .ok content ∧
      Given content s := by
  constructor
  · intro h
    rcases load_cases fs processDir path with ⟨content, t, hcontent, ht⟩ | ⟨e, he⟩
    · rw [load_of_given hcontent ht] at h
      cases h
      exact ⟨content, hcontent, ht⟩
    · rw [he.load] at h
      cases h
  · intro hx
    obtain ⟨content, hcontent, hs⟩ := hx
    exact load_of_given hcontent hs

theorem load_eq_error_iff {e : Stop} :
    load fs processDir path = .error e ↔ Refused fs processDir path e := by
  constructor
  · intro h
    rcases load_cases fs processDir path with ⟨content, t, hcontent, ht⟩ | ⟨f, hf⟩
    · rw [load_of_given hcontent ht] at h
      cases h
    · rw [hf.load] at h
      cases h
      exact hf
  · exact Refused.load

end Settings

namespace Configuration

open Settings (Given Refused)

inductive Step where
  | load (fs : FileSystem) (processDir path : String)
  | reset

def Step.take (c : Configuration) : Step → Option Stop × Configuration
  | load fs processDir path => c.load fs processDir path
  | reset => (none, c.reset)

def run (c : Configuration) (steps : List Step) : Configuration :=
  steps.foldl (fun c step => (step.take c).2) c

def Step.Fails : Step → Prop
  | load fs processDir path => ∃ e, Refused fs processDir path e
  | reset => False

def Step.Gives (step : Step) (content : ByteArray) (s : Settings) : Prop :=
  ∃ fs processDir path, step = load fs processDir path ∧
    fs.readBytes processDir (Path.Posix.compact path) = .ok content ∧ Given content s

/-- The last load that was not refused read a content that gives the settings, and no reset came
after it. -/
def LastGiven (steps : List Step) (content : ByteArray) (s : Settings) : Prop :=
  ∃ before step after, steps = before ++ step :: after ∧ step.Gives content s ∧
    ∀ later ∈ after, later.Fails

structure Stands (steps : List Step) (c : Configuration) : Prop where
  given : ∀ content s, LastGiven steps content s → c = ⟨s, true⟩
  usual : (∀ content s, ¬ LastGiven steps content s) → c = {}

variable {c : Configuration} {step : Step} {steps : List Step} {content : ByteArray} {s : Settings}

theorem Step.Gives.take (h : step.Gives content s) (c : Configuration) :
    step.take c = (none, ⟨s, true⟩) := by
  obtain ⟨fs, processDir, path, rfl, hcontent, hs⟩ := h
  unfold Step.take Configuration.load
  dsimp only
  rw [Settings.load_of_given hcontent hs]

theorem Step.Fails.take (h : step.Fails) (c : Configuration) :
    ∃ e, step.take c = (some e, c) := by
  cases step with
  | load fs processDir path =>
    obtain ⟨e, he⟩ := h
    refine ⟨e, ?_⟩
    unfold Step.take Configuration.load
    dsimp only
    rw [he.load]
  | reset => exact h.elim

theorem Step.cases (step : Step) :
    (∃ content s, step.Gives content s) ∨ step.Fails ∨ step = .reset := by
  cases step with
  | load fs processDir path =>
    rcases Settings.load_cases fs processDir path with ⟨content, s, hcontent, hs⟩ | hrefused
    · exact .inl ⟨content, s, fs, processDir, path, rfl, hcontent, hs⟩
    · exact .inr (.inl hrefused)
  | reset => exact .inr (.inr rfl)

/-- What a sequence determines is determined by its last step, or by the steps before it if the last
one fails. -/
theorem lastGiven_concat_iff : LastGiven (steps ++ [step]) content s ↔
    step.Gives content s ∨ (step.Fails ∧ LastGiven steps content s) := by
  constructor
  · rintro ⟨before, giver, after, heq, hgives, hafter⟩
    rcases List.eq_nil_or_concat after with rfl | ⟨after, last, rfl⟩
    · obtain ⟨rfl, hlast⟩ := List.append_inj' heq rfl
      cases hlast
      exact .inl hgives
    · have hsplit : steps ++ [step] = (before ++ giver :: after) ++ [last] := by
        rw [heq]
        simp
      obtain ⟨rfl, hlast⟩ := List.append_inj' hsplit rfl
      cases hlast
      refine .inr ⟨hafter step (by simp), before, giver, after, rfl, hgives, ?_⟩
      intro later hlater
      exact hafter later (by simp [hlater])
  · rintro (hgives | ⟨hfails, before, giver, after, rfl, hgives, hafter⟩)
    · exact ⟨steps, step, [], rfl, hgives, by simp⟩
    · refine ⟨before, giver, after ++ [step], by simp, hgives, ?_⟩
      intro later hlater
      rcases List.mem_append.mp hlater with hlater | hlater
      · exact hafter later hlater
      · rw [List.mem_singleton.mp hlater]
        exact hfails

/-- One step keeps the configuration the one that the steps so far determine. -/
theorem Stands.next (h : Stands steps c) (step : Step) :
    Stands (steps ++ [step]) (step.take c).2 := by
  constructor
  · intro content s hlast
    rcases lastGiven_concat_iff.mp hlast with hgives | ⟨hfails, hbefore⟩
    · rw [hgives.take c]
    · obtain ⟨e, he⟩ := hfails.take c
      rw [he]
      exact h.given content s hbefore
  · intro hnone
    rcases step.cases with ⟨content, s, hgives⟩ | hfails | rfl
    · exact absurd (lastGiven_concat_iff.mpr (.inl hgives)) (hnone content s)
    · obtain ⟨e, he⟩ := hfails.take c
      rw [he]
      refine h.usual fun content s hbefore => ?_
      exact hnone content s (lastGiven_concat_iff.mpr (.inr ⟨hfails, hbefore⟩))
    · rfl

theorem Stands.run {done : List Step} (h : Stands done c) (steps : List Step) :
    Stands (done ++ steps) (c.run steps) := by
  induction steps generalizing done c with
  | nil => simpa [Configuration.run] using h
  | cons step steps ih =>
    have hnext := ih (h.next step)
    rw [List.append_assoc, List.singleton_append] at hnext
    exact hnext

theorem not_lastGiven_nil (content : ByteArray) (s : Settings) : ¬ LastGiven [] content s := by
  rintro ⟨before, step, after, heq, -, -⟩
  simp at heq

theorem stands_run (steps : List Step) : Stands steps (run {} steps) :=
  Stands.run ⟨fun content s h => absurd h (not_lastGiven_nil content s), fun _ => rfl⟩ steps

theorem load_refused_iff {fs : FileSystem} {processDir path : String} {e : Stop}
    {d : Configuration} : c.load fs processDir path = (some e, d) ↔
      Refused fs processDir path e ∧ d = c := by
  rw [← Settings.load_eq_error_iff]
  unfold Configuration.load
  cases Settings.load fs processDir path with
  | error f => simp [eq_comm]
  | ok s => simp

theorem load_taken_iff {fs : FileSystem} {processDir path : String} {d : Configuration} :
    c.load fs processDir path = (none, d) ↔
      ∃ content s, fs.readBytes processDir (Path.Posix.compact path) = .ok content ∧
        Given content s ∧ d = ⟨s, true⟩ := by
  unfold Configuration.load
  constructor
  · intro h
    cases hload : Settings.load fs processDir path with
    | error e =>
      rw [hload] at h
      cases h
    | ok s =>
      rw [hload] at h
      cases h
      obtain ⟨content, hcontent, hs⟩ := Settings.load_eq_ok_iff.mp hload
      exact ⟨content, s, hcontent, hs, rfl⟩
  · rintro ⟨content, s, hcontent, hs, rfl⟩
    rw [Settings.load_of_given hcontent hs]

/-- After any loads and resets the configuration is that of the last load since the last reset that
was not refused, and the usual one if there is none. A refused load changes nothing; one that is not
refused leaves the settings of the content that it read, whatever was in force before and wherever
the content was found. -/
theorem configuration_of_steps :
    (∀ steps content s, LastGiven steps content s → run {} steps = ⟨s, true⟩) ∧
    (∀ steps, (∀ content s, ¬ LastGiven steps content s) → run {} steps = {}) ∧
    (∀ steps, (run {} steps).loaded = true ↔ ∃ content s, LastGiven steps content s) ∧
    (∀ (c : Configuration) fs processDir path e d,
      c.load fs processDir path = (some e, d) ↔ Refused fs processDir path e ∧ d = c) ∧
    (∀ (c : Configuration) fs processDir path d, c.load fs processDir path = (none, d) ↔
      ∃ content s, fs.readBytes processDir (Path.Posix.compact path) = .ok content ∧
        Given content s ∧ d = ⟨s, true⟩) ∧
    (∀ content s t, Given content s → Given content t → s = t) := by
  refine ⟨fun steps => (stands_run steps).given, fun steps => (stands_run steps).usual, ?_,
    fun _ _ _ _ _ _ => load_refused_iff, fun _ _ _ _ _ => load_taken_iff,
    fun _ _ _ h k => h.unique k⟩
  intro steps
  constructor
  · intro hloaded
    apply Classical.byContradiction
    intro hnone
    have husual := (stands_run steps).usual fun content s h => hnone ⟨content, s, h⟩
    rw [husual] at hloaded
    exact absurd hloaded (by decide)
  · rintro ⟨content, s, hlast⟩
    rw [(stands_run steps).given content s hlast]

/-- A file with a section that is no object does not touch the settings of the file before it. -/
theorem refused_after_given :
    let good := "\x7b\"shell\":\x7b\"prompt\":\">\"\x7d\x7d"
    let bad := "\x7b\"logging\":1\x7d"
    let fs : FileSystem :=
      { nodes := [(["c"], .file {} good.toUTF8 none), (["d"], .file {} bad.toUTF8 none)] }
    let steps : List Step := [.load fs "/" "c", .load fs "/" "d"]
    LastGiven steps good.toUTF8 { prompt := .text ">" } ∧
      run {} steps = ⟨{ prompt := .text ">" }, true⟩ := by
  intro good bad fs steps
  have hread : Json.read good = .ok (.object [("shell", .object [("prompt", .text ">")])]) := by
    decide +kernel
  have hrefused : Json.read bad = .ok (.object [("logging", .integer 1)]) := by decide +kernel
  have hgood : Given good.toUTF8 { prompt := .text ">" } := by
    have hplain : String.ofList (plainLineEnds good.toList) = good :=
      FileSystem.ofList_plainLineEnds (by simp [good])
    exact .intro (Text.fromUTF8?_toUTF8 good) (hplain ▸ hread) (.object rfl) (.absent rfl)
  have hbad : (Step.load fs "/" "d").Fails := by
    have htext : fs.readText "/" (Path.Posix.compact "d") = .ok bad := by
      have hplain : String.ofList (plainLineEnds bad.toList) = bad :=
        FileSystem.ofList_plainLineEnds (by simp [bad])
      have hcontent : fs.readBytes "/" (Path.Posix.compact "d") = .ok bad.toUTF8 := rfl
      rw [Settings.readText_of_readBytes hcontent, Text.fromUTF8?_toUTF8]
      exact congrArg Except.ok hplain
    exact ⟨_, .logging htext hrefused (.absent rfl) ⟨_, rfl, by simp⟩⟩
  have hlast : LastGiven steps good.toUTF8 { prompt := .text ">" } :=
    ⟨[], _, _, rfl, ⟨fs, "/", "c", rfl, rfl, hgood⟩, by simpa using hbad⟩
  exact ⟨hlast, configuration_of_steps.1 steps _ _ hlast⟩

end Configuration

end CommandShell
