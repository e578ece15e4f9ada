import CommandShell.Proofs.Configuration
import CommandShell.Proofs.FileSystem.Compact
import CommandShell.Proofs.Json.Reading

/-! # Configuration files

A configuration file means the value that its text says, however it is written: the settings are the
members of its sections, with the usual settings for those that are not there. -/
namespace CommandShell.Settings

open FileSystem (plainLineEnds)
open Json (Document Denotes Blank)

/-- A readable file with a text, to which a path leads as it is, or without its dots and its empty
components. -/
inductive Holds (fs : FileSystem) (processDir path text : String) : Prop where
  | intro {l p program} :
      fs.locate processDir path = .ok l ∨ fs.locate processDir (Path.Posix.compact path) = .ok l →
      fs.node? l = some (.file p text.toUTF8 program) → p.read = true →
      Holds fs processDir path text

def HasSections (data : Members) : Prop :=
  ∀ name ∈ ["shell", "logging"], ∀ v, data.get? name = some v → ∃ members, v = .object members

def memberOf (data : Members) (part name : String) : Option Value :=
  match data.get? part with
  | some (.object members) => Table.get? members name
  | _ => none

/-- The settings that a configuration means. -/
def meant (data : Members) : Settings :=
  let usual : Settings := {}
  { prompt := (memberOf data "shell" "prompt").getD usual.prompt
    defaultHome := (memberOf data "shell" "default_home").getD usual.defaultHome
    logLevel := (memberOf data "logging" "level").getD usual.logLevel
    logFile := (memberOf data "logging" "log_file").getD usual.logFile
    consoleOutput := (memberOf data "logging" "console_output").getD usual.consoleOutput
    useColors := (memberOf data "logging" "use_colors").getD usual.useColors }

structure Same (s t : Settings) : Prop where
  prompt : s.prompt.Same t.prompt
  defaultHome : s.defaultHome.Same t.defaultHome
  logLevel : s.logLevel.Same t.logLevel
  logFile : s.logFile.Same t.logFile
  consoleOutput : s.consoleOutput.Same t.consoleOutput
  useColors : s.useColors.Same t.useColors

theorem Same.symm {s t : Settings} (h : s.Same t) : t.Same s :=
  ⟨h.prompt.symm, h.defaultHome.symm, h.logLevel.symm, h.logFile.symm, h.consoleOutput.symm,
    h.useColors.symm⟩

theorem Same.trans {s t u : Settings} (h : s.Same t) (k : t.Same u) : s.Same u :=
  ⟨h.prompt.trans k.prompt, h.defaultHome.trans k.defaultHome, h.logLevel.trans k.logLevel,
    h.logFile.trans k.logFile, h.consoleOutput.trans k.consoleOutput,
    h.useColors.trans k.useColors⟩

variable {fs : FileSystem} {processDir path text name : String} {data : Members}

theorem Holds.readBytes (h : Holds fs processDir path text) :
    fs.readBytes processDir (Path.Posix.compact path) = .ok text.toUTF8 := by
  obtain ⟨hl, hfile, hread⟩ := h
  have hl := hl.elim FileSystem.locate_compact id
  rw [FileSystem.readBytes, hl]
  dsimp only
  rw [hfile]
  dsimp only
  rw [if_pos hread]

theorem object_of_same {v : Value} (h : v.Same (.object data)) :
    ∃ members, v = .object members := by
  cases h with
  | refl => exact ⟨data, rfl⟩
  | object => exact ⟨_, rfl⟩

theorem member_of_same {members other : Members}
    (h : Value.Same (.object members) (.object other)) {v : Value}
    (hv : members.get? name = some v) : ∃ w, other.get? name = some w ∧ v.Same w := by
  cases h with
  | refl => exact ⟨v, hv, .refl v⟩
  | object hkeys hvalues =>
    have hkey := hkeys name
    rw [hv] at hkey
    obtain ⟨w, hw⟩ := Option.isSome_iff_exists.mp hkey.symm
    exact ⟨w, hw, hvalues name v w hv hw⟩

theorem section_of_same {members : Members} (h : Value.Same (.object members) (.object data))
    (hsection : ∀ v, data.get? name = some v → ∃ ms, v = .object ms) :
    ∃ ms, Section members name ms ∧ ∀ key usual,
      Value.Same ((ms.get? key).getD usual) ((memberOf data name key).getD usual) := by
  cases hv : members.get? name with
  | none =>
    have hw : data.get? name = none := by
      cases hw : data.get? name with
      | none => rfl
      | some w =>
        obtain ⟨v, hv', -⟩ := member_of_same h.symm hw
        rw [hv] at hv'
        cases hv'
    refine ⟨[], .absent hv, fun key usual => ?_⟩
    rw [memberOf, hw]
    exact .refl usual
  | some v =>
    obtain ⟨w, hw, hsame⟩ := member_of_same h hv
    obtain ⟨ms, rfl⟩ := hsection w hw
    obtain ⟨rs, rfl⟩ := object_of_same hsame
    refine ⟨rs, .object hv, fun key usual => ?_⟩
    rw [memberOf, hw]
    exact hsame.getD key usual

theorem given_of_document (h : Document text.toList (.object data)) (hsections : HasSections data) :
    ∃ s, Given text.toUTF8 s ∧ s.Same (meant data) := by
  have hplain : Document (String.ofList (plainLineEnds text.toList)).toList (.object data) := by
    rw [String.toList_ofList]
    exact h.plain
  obtain ⟨r, hread, hsame⟩ := Json.read_document hplain
  obtain ⟨members, rfl⟩ := object_of_same hsame
  obtain ⟨shell, hshell, hshellMembers⟩ :=
    section_of_same hsame (hsections "shell" (by simp))
  obtain ⟨logging, hlogging, hloggingMembers⟩ :=
    section_of_same hsame (hsections "logging" (by simp))
  exact ⟨_, .intro (Text.fromUTF8?_toUTF8 text) hread hshell hlogging,
    hshellMembers _ _, hshellMembers _ _, hloggingMembers _ _, hloggingMembers _ _,
    hloggingMembers _ _, hloggingMembers _ _⟩

theorem load_document (hfile : Holds fs processDir path text)
    (htext : Document text.toList (.object data)) (hsections : HasSections data) :
    ∃ s, load fs processDir path = .ok s ∧ s.Same (meant data) := by
  obtain ⟨s, hs, hsame⟩ := given_of_document htext hsections
  exact ⟨s, load_of_given hfile.readBytes hs, hsame⟩

/-- A file that says an object gives the settings that the object means. Two files that say the same
object give settings that say the same. Of the members that are written under one name, sections
among them, the last one counts alone. -/
theorem configuration_file_means_value :
    (∀ fs processDir path text data, Holds fs processDir path text →
      Document text.toList (.object data) → HasSections data →
      ∃ s, load fs processDir path = .ok s ∧ s.Same (meant data)) ∧
    (∀ fs processDir path text fs' processDir' path' text' data,
      Holds fs processDir path text → Document text.toList (.object data) →
      Holds fs' processDir' path' text' → Document text'.toList (.object data) →
      HasSections data → ∃ s t, load fs processDir path = .ok s ∧
        load fs' processDir' path' = .ok t ∧ s.Same t) ∧
    (∀ fs processDir path text b cs b' ms, Holds fs processDir path text →
      text.toList = b ++ ('\x7b' :: cs ++ ['\x7d']) ++ b' → Blank b → Blank b' →
      Denotes (Json.depthLimit - 1) cs (.members ms) → HasSections ms.reverse →
      ∃ s, load fs processDir path = .ok s ∧ s.Same (meant ms.reverse)) := by
  refine ⟨fun _ _ _ _ _ => load_document, ?_, ?_⟩
  · intro fs processDir path text fs' processDir' path' text' data hfile htext hfile' htext' hs
    obtain ⟨s, hload, hsame⟩ := load_document hfile htext hs
    obtain ⟨t, hload', hsame'⟩ := load_document hfile' htext' hs
    exact ⟨s, t, hload, hload', hsame.trans hsame'.symm⟩
  · intro fs processDir path text b cs b' ms hfile htext hb hb' hcs hs
    refine load_document hfile ?_ hs
    rw [htext]
    exact .intro hb (.object hcs fun _ => rfl) hb'

/-- A second section replaces the first one with everything that it holds. -/
theorem repeated_section_replaces :
    let text := "\x7b\"shell\":\x7b\"prompt\":1\x7d,\"shell\":\x7b\t\x7d \x7d\r\n"
    let fs : FileSystem := { nodes := [(["c"], .file {} text.toUTF8 none)] }
    Holds fs "/" "./c" text ∧ ∃ s, load fs "/" "./c" = .ok s ∧ s.prompt = .text "$ " := by
  intro text fs
  have hfile : Holds fs "/" "./c" text :=
    .intro (l := ["c"]) (p := {}) (.inl rfl) rfl rfl
  have hlabel (name : String) (h : Json.Spells name.toList name.toList) :
      Json.Label ('"' :: (name.toList ++ ['"', ':'])) name := by
    have hintro := Json.Label.intro .nil h .nil .nil
    simpa using hintro
  have hshell := hlabel "shell" (by
    repeat' constructor
    all_goals decide)
  have hprompt := hlabel "prompt" (by
    repeat' constructor
    all_goals decide)
  have hone : Denotes 985 ['1'] (.value (.integer 1)) := .integer (n := 1) false (by decide)
  have hfirst : Denotes 986 _ (.value (.object [("prompt", .integer 1)])) :=
    .object (.member hprompt hone .nil) fun _ => rfl
  have hsecond : Denotes 986 _ (.value (.object [])) := .emptyObject (b := ['\t']) (by simp [Blank])
  have hmembers := Denotes.members hshell hfirst .nil
    (.member hshell hsecond (b := [' ']) (by simp [Blank]))
  obtain ⟨-, -, hrepeated⟩ := configuration_file_means_value
  have hsections : HasSections ([("shell", .object [("prompt", .integer 1)]),
      ("shell", .object [])] : Members).reverse := by
    intro name hname v hv
    simp only [List.mem_cons, List.not_mem_nil, or_false] at hname
    rcases hname with rfl | rfl
    · cases hv
      exact ⟨_, rfl⟩
    · cases hv
  obtain ⟨s, hload, hsame⟩ := hrepeated fs "/" "./c" text [] _ ['\r', '\n'] _ hfile
    (by simp [text]) .nil (by simp [Blank]) hmembers hsections
  refine ⟨hfile, s, hload, ?_⟩
  have hprompt := hsame.prompt
  generalize s.prompt = prompt at hprompt
  cases hprompt
  rfl

end CommandShell.Settings
