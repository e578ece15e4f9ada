import CommandShell.Proofs.Shell.Line

/-! # What stops a script

A script runs its lines in order as long as each of them comes back. It stops early at a line that
asks to exit, and at one that a fault or an interrupt ends. On a file system whose directories and
links have usable names, the only source of faults is the character zero. -/
namespace CommandShell.Shell

open FileSystem (hasNul)
open Line (Command)

def scriptLines (script : String) : List String :=
  (Text.pieces '\n' script).filter fun line => !Text.isBlankText line

inductive Completes : World → List String → World → Prop where
  | nil (w) : Completes w [] w
  | cons {w w₁ w' line rest status} : executeLine line w = .ok status w₁ →
      Completes w₁ rest w' → Completes w (line :: rest) w'

inductive StopsAt (w : World) (lines : List String) (s : Stop) (w' : World) : Prop where
  | intro {before line after w₁} : lines = before ++ line :: after → Completes w before w₁ →
      executeLine line w₁ = .error s w' → StopsAt w lines s w'

variable {w w' : World} {lines : List String} {s : Stop}

theorem not_stopsAt_nil : ¬ StopsAt w [] s w' := by
  intro hx
  obtain ⟨h, -, -⟩ := hx
  simp at h

theorem stopsAt_cons_iff {line : String} {rest : List String} :
    StopsAt w (line :: rest) s w' ↔ executeLine line w = .error s w' ∨
      ∃ status w₁, executeLine line w = .ok status w₁ ∧ StopsAt w₁ rest s w' := by
  constructor
  · intro h
    obtain ⟨hl, hc, hs⟩ := h
    cases hc with
    | nil =>
      obtain ⟨rfl, rfl⟩ := List.cons.inj hl
      exact .inl hs
    | cons hrun hc =>
      obtain ⟨rfl, rfl⟩ := List.cons.inj hl
      exact .inr ⟨_, _, hrun, rfl, hc, hs⟩
  · intro h
    rcases h with hs | ⟨status, w₁, hrun, @⟨before, other, after, w₂, rfl, hc, hs⟩⟩
    · have hl : line :: rest = [] ++ line :: rest := rfl
      exact .intro hl (.nil w) hs
    · have hl : line :: (before ++ other :: after) = (line :: before) ++ other :: after := rfl
      exact .intro hl (.cons hrun hc) hs

theorem completes_cons_iff {line : String} {rest : List String} :
    Completes w (line :: rest) w' ↔
      ∃ status w₁, executeLine line w = .ok status w₁ ∧ Completes w₁ rest w' := by
  constructor
  · intro h
    cases h with
    | cons hrun hc => exact ⟨_, _, hrun, hc⟩
  · intro hx
    obtain ⟨status, w₁, hrun, hc⟩ := hx
    exact .cons hrun hc

theorem runLines_blank {line : String} (h : Text.isBlankText line = true) (rest : List String) :
    runLines (line :: rest) = runLines rest := by
  rw [runLines, if_pos h]

theorem runLines_cons {line : String} (h : Text.isBlankText line = false) (rest : List String)
    (w : World) : runLines (line :: rest) w = match executeLine line w with
      | .ok _ w₁ => runLines rest w₁
      | .error (.exit e) w₁ => .ok e.code w₁
      | .error s w₁ => .error s w₁ := by
  rw [runLines, if_neg (by simp [h])]
  simp only [bind, EStateM.bind, Action.outcome]
  cases executeLine line w with
  | ok status w₁ => rfl
  | error s w₁ => cases s <;> rfl

theorem ok_iff {status : Option Int} {w₁ : World} {P : World → Prop} :
    (∃ status' w₂, (EStateM.Result.ok status w₁ : EStateM.Result Stop World (Option Int)) =
      .ok status' w₂ ∧ P w₂) ↔ P w₁ := by
  constructor
  · intro hx
    obtain ⟨_, _, h, hp⟩ := hx
    cases h
    exact hp
  · intro hp
    exact ⟨status, w₁, rfl, hp⟩

theorem runLines_ok_iff {code : Int} : runLines lines w = .ok code w' ↔
    (Completes w (lines.filter fun line => !Text.isBlankText line) w' ∧ code = 0) ∨
      ∃ e, StopsAt w (lines.filter fun line => !Text.isBlankText line) (.exit e) w' ∧
        code = e.code := by
  induction lines generalizing w with
  | nil =>
    rw [List.filter_nil]
    constructor
    · intro h
      cases h
      exact .inl ⟨.nil _, rfl⟩
    · intro hx
      rcases hx with ⟨hc, rfl⟩ | ⟨e, hs, -⟩
      · cases hc
        rfl
      · exact absurd hs not_stopsAt_nil
  | cons line rest ih =>
    by_cases hb : Text.isBlankText line = true
    · rw [runLines_blank hb, List.filter_cons_of_neg (by simp [hb])]
      exact ih
    have hb : Text.isBlankText line = false := by simpa using hb
    rw [runLines_cons hb, List.filter_cons_of_pos (by simp [hb])]
    simp only [completes_cons_iff, stopsAt_cons_iff]
    cases hrun : executeLine line w with
    | ok status w₁ =>
      simp only [ok_iff, reduceCtorEq, false_or]
      exact ih
    | error s w₁ =>
      cases s with
      | exit e =>
        constructor
        · intro h
          cases h
          exact .inr ⟨e, .inl rfl, rfl⟩
        · intro hx
          rcases hx with ⟨⟨_, _, h, -⟩, -⟩ | ⟨_, h | ⟨_, _, h, -⟩, rfl⟩
          · simp at h
          · cases h
            rfl
          · simp at h
      | failure f => simp
      | interrupt => simp
      | fault f => simp

theorem runLines_error_iff : runLines lines w = .error s w' ↔
    (∀ e, s ≠ .exit e) ∧ StopsAt w (lines.filter fun line => !Text.isBlankText line) s w' := by
  induction lines generalizing w with
  | nil =>
    rw [List.filter_nil]
    constructor
    · intro h
      cases h
    · intro hx
      obtain ⟨-, hs⟩ := hx
      exact absurd hs not_stopsAt_nil
  | cons line rest ih =>
    by_cases hb : Text.isBlankText line = true
    · rw [runLines_blank hb, List.filter_cons_of_neg (by simp [hb])]
      exact ih
    have hb : Text.isBlankText line = false := by simpa using hb
    rw [runLines_cons hb, List.filter_cons_of_pos (by simp [hb]), stopsAt_cons_iff]
    cases hrun : executeLine line w with
    | ok status w₁ =>
      simp only [ok_iff, reduceCtorEq, false_or]
      exact ih
    | error t w₁ =>
      constructor
      · intro h
        cases t <;> cases h <;> exact ⟨by simp, .inl rfl⟩
      · intro hx
        rcases hx with ⟨hs, h | ⟨_, _, h, -⟩⟩
        · cases h
          cases s with
          | exit e => exact absurd rfl (hs e)
          | _ => rfl
        · simp at h

/-- A world in which no built-in command meets a fault: its directories and links have usable names,
the working directory is absolute, the home directory is a text, and no command was added that
raises a fault. -/
structure Ordinary (w : World) : Prop where
  nameable : w.fs.Nameable
  absolute : Path.startsAtRoot w.session.dir = true
  home : ∃ h, w.session.homeOrRoot = .text h
  builtins : ∀ name f, w.builtins.get? name ≠ some (.added (.raises (.fault f)))

theorem target_of_home {session : Session} (h : ∃ h, session.homeOrRoot = .text h)
    (argument : Option String) : ∃ p, session.target argument = .ok p := by
  obtain ⟨home, hh⟩ := h
  have ht (operation : String) : session.homeText operation = .ok home := by
    simp [Session.homeText, hh]
  unfold Session.target
  cases argument with
  | none => exact ⟨_, by simp [Session.expanded, ht, Except.map]; rfl⟩
  | some p =>
    cases ho : Session.homeOperation? p.toList with
    | none => exact ⟨_, by simp [Session.expanded, ho, Except.map]; rfl⟩
    | some operation => exact ⟨_, by simp [Session.expanded, ho, ht, Except.map]; rfl⟩

theorem Ordinary.changeDirectory (h : Ordinary w) (arguments : List String) :
    ∃ r, w.session.changeDirectory w.fs w.processDir arguments = .ok r := by
  obtain ⟨⟨shown, target⟩, ht⟩ := target_of_home h.home arguments.head?
  have hc := Session.cdFollows h.nameable w.processDir h.absolute ht
  by_cases hd : w.fs.isDirectory w.processDir target = true
  · obtain ⟨d, hl, hdir⟩ := FileSystem.isDirectory_iff.mp hd
    exact ⟨_, (hc.reached d hl hdir).1⟩
  · exact ⟨_, Session.changeDirectory_elsewhere ht (by simpa using hd)⟩

theorem Ordinary.stop?_ne_fault (h : Ordinary w) {name : String} {b : Builtin}
    (hb : w.builtins.get? name = some b) (arguments : List String) (f : Fault) :
    b.stop? w arguments ≠ some (.fault f) := by
  intro hs
  cases b with
  | cd =>
    obtain ⟨r, hr⟩ := h.changeDirectory arguments
    simp [Builtin.stop?, hr] at hs
  | added b =>
    cases b with
    | raises s =>
      have hs : s = .fault f := by simpa [Builtin.stop?] using hs
      exact h.builtins name f (hs ▸ hb)
    | _ => simp [Builtin.stop?] at hs
  | _ => simp [Builtin.stop?] at hs

/-- The character zero in the target of a redirection, in an argument of a program that is found, or
in the directory that it is started in. -/
inductive HoldsNul (w : World) (c : Command) : Prop where
  | target : (redirectionIn w c).NamesNul → HoldsNul w c
  | program {found} : Opens w c → w.builtins.get? c.name = none →
      w.fs.findProgram? w.processDir c.name w.session.searchDirectories = some found →
      (c.arguments.any hasNul = true ∨ hasNul w.session.dir = true) → HoldsNul w c

theorem Ordinary.blocked_iff (h : Ordinary w) (c : Command) : Blocked w c ↔ HoldsNul w c := by
  constructor
  · intro hb
    cases hb with
    | target hn => exact .target hn
    | builtin _ hb hs => exact absurd hs (h.stop?_ne_fault hb c.arguments _)
    | program ho hb hf hn => exact .program ho hb hf hn
  · intro hn
    cases hn with
    | target hn => exact .target hn
    | program ho hb hf hn => exact .program ho hb hf hn

theorem Ordinary.line (h : Ordinary w) {line : String} {r : Except Stop (Option Int)}
    (he : LineEnded w line r w') : Ordinary w' := by
  have hc := he.changes
  have hb : ∀ name f, w'.builtins.get? name ≠ some (.added (.raises (.fault f))) := by
    rw [hc.builtins]
    exact h.builtins
  rcases hc.session with hs | ⟨c, -, -, hg⟩
  · exact ⟨hc.fs.nameable h.nameable, hs ▸ h.absolute, hs ▸ h.home, hb⟩
  · obtain ⟨d, hd⟩ := hg.canonical h.nameable h.absolute
    refine ⟨hc.fs.nameable h.nameable, hd.startsAtRoot, ?_, hb⟩
    rw [hg.session_eq]
    exact h.home

theorem Ordinary.completes (h : Ordinary w) (hc : Completes w lines w') : Ordinary w' := by
  induction hc with
  | nil => exact h
  | cons hrun _ ih => exact ih (h.line ((executeLine_ends _ _).ok hrun))

/-- A fault leaves a line exactly if the line is blocked, and a failure never does. A script is run
to its end, or to the first of its lines that stops. In an ordinary world, which the lines of a
script leave ordinary, a line is blocked exactly if the system is to take a text with the character
zero. -/
theorem line_and_script_stops (w : World) :
    (∀ line,
      (∀ f w', executeLine line w ≠ .error (.failure f) w') ∧
      ((∃ f w', executeLine line w = .error (.fault f) w') ↔
        ∃ c, Command.ofLine line = .ok c ∧ Blocked w c) ∧
      (∀ e, (∃ w', executeLine line w = .error (.exit e) w') ↔
        ∃ c, Command.ofLine line = .ok c ∧ Exits w c e) ∧
      (∀ w', executeLine line w = .error .interrupt w' →
        ∃ c, Command.ofLine line = .ok c ∧ Interrupted w c)) ∧
    (∀ script code w', runScript script w = .ok code w' ↔
      (Completes w (scriptLines script) w' ∧ code = 0) ∨
        ∃ e, StopsAt w (scriptLines script) (.exit e) w' ∧ code = e.code) ∧
    (∀ script s w', runScript script w = .error s w' ↔
      (∀ e, s ≠ .exit e) ∧ StopsAt w (scriptLines script) s w') ∧
    (Ordinary w → (∀ c, Blocked w c ↔ HoldsNul w c) ∧
      ∀ lines w', Completes w lines w' → Ordinary w') := by
  refine ⟨?_, fun _ _ _ => runLines_ok_iff, fun _ _ _ => runLines_error_iff,
    fun h => ⟨h.blocked_iff, fun _ _ hc => h.completes hc⟩⟩
  intro line
  have hends := executeLine_ends line w
  refine ⟨?_, fault_leaves_line_iff line w, exit_leaves_line_iff line w, ?_⟩
  · intro f w' hrun
    exact (hends.error hrun).no_failure f rfl
  · intro w' hrun
    exact (hends.error hrun).interrupt rfl

/-- With an empty file system nothing but the character zero blocks a line, and a script stops at
its `exit`. -/
theorem script_in_empty_world :
    let w : World := { session := { dir := "/" } }
    Ordinary w ∧ (∀ c, Blocked w c ↔ HoldsNul w c) ∧
      ∃ w', runScript "echo a\n\nexit 3\necho b" w = .ok 3 w' := by
  intro w
  have hnode : ∀ l n, w.fs.node? l = some n → FileSystem.Addressable l := by
    intro l n hn
    cases l with
    | nil => exact ⟨by decide, by decide⟩
    | cons c l => simp [w, FileSystem.node?, Table.get?] at hn
  have hstandard : ∀ name f, w.builtins.get? name ≠ some (.added (.raises (.fault f))) := by
    intro name f hb
    simp only [w, Builtins.standard, Table.get?] at hb
    repeat' split at hb
    all_goals simp at hb
  have hworld : Ordinary w :=
    ⟨⟨fun l _ hn => hnode l _ hn, fun l _ hn => hnode l _ hn⟩, by decide, ⟨_, rfl⟩, hstandard⟩
  obtain ⟨-, hscript, -, hordinary⟩ := line_and_script_stops w
  have hlines : scriptLines "echo a\n\nexit 3\necho b" = ["echo a"] ++ "exit 3" :: ["echo b"] :=
    rfl
  have hstops : ∃ w', StopsAt w (scriptLines "echo a\n\nexit 3\necho b") (.exit ⟨3⟩) w' :=
    ⟨_, .intro hlines (.cons rfl (.nil _)) rfl⟩
  obtain ⟨w', hs⟩ := hstops
  exact ⟨hworld, (hordinary hworld).1, w', (hscript _ 3 w').mpr (.inr ⟨⟨3⟩, hs, rfl⟩)⟩

/-- The target of a redirection with the character zero: what leaves the line is neither a status
nor a request to exit. -/
theorem nul_in_target_leaves_line :
    ∃ w', executeLine "echo hi > a\x00b" { session := { dir := "/" } } =
      .error (.fault .nulCharacter) w' :=
  ⟨_, rfl⟩

end CommandShell.Shell
