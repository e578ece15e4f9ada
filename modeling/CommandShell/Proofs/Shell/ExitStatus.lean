import CommandShell.Proofs.Line.Operators
import CommandShell.Proofs.Number.Integer
import CommandShell.Proofs.Shell.ReadLoop

/-! # The status of an exit

`exit` does nothing but ask to leave, and the status that it asks for is the number in its first
argument. A script and the read loop hand this number on as it is, however large, and run no line
after the exit. -/
namespace CommandShell

/-- The statuses that arguments of `exit` ask for: the number that the first one says, and zero if
there is none or the number has too many digits. -/
inductive Exit.Asks : List String → Int → Prop where
  | nothing : Asks [] 0
  | number {a rest n} : Integer.Denotes a n →
      Integer.digitCount a.toList ≤ Integer.digitLimit → Asks (a :: rest) n
  | other {a rest} :
      (∀ n, Integer.Denotes a n → Integer.digitLimit < Integer.digitCount a.toList) →
      Asks (a :: rest) 0

variable {arguments : List String} {code n : Int} {line prompt : String} {w w' : World}

theorem Exit.asks_iff : Exit.Asks arguments code ↔ code = (Exit.ofArguments arguments).code := by
  constructor
  · intro h
    cases h with
    | nothing => rfl
    | number hn hfew => rw [ofArguments, Integer.ofText?_eq_some_iff.mpr ⟨hn, hfew⟩]; rfl
    | @other a rest hmany =>
      cases ha : Integer.ofText? a with
      | none => rw [ofArguments, ha]; rfl
      | some n =>
        obtain ⟨hn, hfew⟩ := Integer.ofText?_eq_some_iff.mp ha
        exact absurd hfew (Nat.not_le_of_gt (hmany n hn))
  · rintro rfl
    cases arguments with
    | nil => exact .nothing
    | cons a rest =>
      cases ha : Integer.ofText? a with
      | none =>
        rw [ofArguments, ha]
        refine .other fun n hn => Nat.lt_of_not_le fun hfew => ?_
        rw [Integer.ofText?_eq_some_iff.mpr ⟨hn, hfew⟩] at ha
        cases ha
      | some n =>
        obtain ⟨hn, hfew⟩ := Integer.ofText?_eq_some_iff.mp ha
        rw [ofArguments, ha]
        exact .number hn hfew

theorem Exit.ofArguments_toString (h : (Nat.toDigits 10 n.natAbs).length ≤ Integer.digitLimit) :
    Exit.ofArguments [toString n] = ⟨n⟩ := by
  rw [ofArguments, Integer.ofText?_toString h]
  rfl

theorem Builtin.exit_run (arguments : List String) (w : World) :
    Builtin.exit.run arguments w = .error (.exit (Exit.ofArguments arguments)) w :=
  rfl

namespace Line

theorem isPlain_of_digit {c : Char} {d : Nat} (h : Text.digitValue? c = some d) : IsPlain c := by
  have hother {e : Char} (he : Text.digitValue? e = none) : c ≠ e := by
    rintro rfl
    rw [he] at h
    cases h
  refine ⟨?_, hother (by decide), hother (by decide), hother (by decide)⟩
  by_contra hblank
  rw [Integer.digitValue?_of_isBlank (by simpa using hblank)] at h
  cases h

theorem minus_or_digit {c : Char} (h : c ∈ (toString n).toList) :
    c = '-' ∨ ∃ d, Text.digitValue? c = some d := by
  rw [Integer.toList_toString, Integer.signOf, List.mem_append] at h
  rcases h with h | h
  · left
    split at h
    · exact List.mem_singleton.mp h
    · exact absurd h List.not_mem_nil
  · have hdigit := Nat.isDigit_of_mem_toDigits (by decide) (by decide) h
    exact .inr ⟨_, Integer.digitValue?_of_isDigit hdigit⟩

theorem toString_not_mem_operatorTexts (n : Int) : toString n ∉ operatorTexts := by
  intro h
  have harrow : ∀ t ∈ operatorTexts, '>' ∈ t.toList := by decide
  rcases minus_or_digit (harrow _ h) with hc | ⟨d, hd⟩
  · exact absurd hc (by decide)
  · have hnone : Text.digitValue? '>' = none := by decide
    rw [hnone] at hd
    cases hd

theorem toString_ne_empty (n : Int) : toString n ≠ "" := by
  intro h
  obtain ⟨c, r, hcs, -⟩ := (Integer.signed_toString n).exists_head
  rw [h] at hcs
  cases hcs

theorem words_exit (n : Int) : words ("exit " ++ toString n) = ["exit", toString n] := by
  have hletters : ∀ c ∈ "exit".toList, IsPlain c := by simp [IsPlain]; decide
  have hname : Spells "exit".toList "exit".toList := spells_plain hletters
  have hnumber : Spells (toString n).toList (toString n).toList := by
    apply spells_plain
    intro c hc
    rcases minus_or_digit hc with rfl | ⟨d, hd⟩
    · decide
    · exact isPlain_of_digit hd
  have hend : PrintsWords [] [] := .done (by decide)
  have hline : PrintsLine "exit" [toString n] ("exit " ++ toString n) := by
    refine ⟨[], _, _, by decide, hname,
      .word (List.cons_ne_nil ' ' []) (by decide) hnumber (toString_ne_empty n) hend, ?_⟩
    simp
  exact Except.ok.inj (readWords_of_printed (by decide) hline false)

theorem not_isBlankText_of_words {name : String} {ws : List String}
    (h : words line = name :: ws) : Text.isBlankText line = false := by
  by_contra hblank
  have hb : AllBlank line.toList := by simpa [Text.isBlankText, AllBlank] using hblank
  have hnone : wordsOf (marks none line.toList) = [] := (PrintsWords.done hb).words
  rw [words, hnone] at h
  cases h

theorem ofLine_of_words {name : String} {ws : List String} (h : words line = name :: ws)
    (hws : ∀ w ∈ ws, w ∉ operatorTexts) : Command.ofLine line = .ok ⟨name, ws, {}⟩ := by
  have hread : readWords false line = .ok (name :: ws) := congrArg Except.ok h
  have hparses := parses_arguments_iff.mpr hws
  rw [ofLine_of_parses hread hparses]
  exact (commandOf_eq_words_iff hparses).mpr hws

end Line

namespace Shell

/-- A line that says `exit` and a number asks to leave with that number. -/
theorem exit_line (hn : (Nat.toDigits 10 n.natAbs).length ≤ Integer.digitLimit)
    (hline : Line.words line = ["exit", toString n]) (hexit : w.builtins.get? "exit" = some .exit) :
    ∃ w', executeLine line w = .error (.exit ⟨n⟩) w' := by
  have hcommand : Line.Command.ofLine line = .ok ⟨"exit", [toString n], {}⟩ := by
    refine Line.ofLine_of_words hline fun word hword => ?_
    rw [List.mem_singleton.mp hword]
    exact Line.toString_not_mem_operatorTexts n
  rw [exit_leaves_line_iff]
  have hstop : Builtin.exit.stop? w [toString n] = some (.exit ⟨n⟩) := by
    rw [← Exit.ofArguments_toString hn]
    rfl
  have hopens : Opens w ⟨"exit", [toString n], {}⟩ := by
    intro path hactive
    cases hactive
  exact ⟨_, hcommand, .builtin hopens hexit hstop⟩

theorem Completes.builtins {lines : List String} (h : Completes w lines w') :
    w'.builtins = w.builtins := by
  induction h with
  | nil => rfl
  | cons hrun _ ih => exact ih.trans ((executeLine_kept _ _).ok hrun).builtins

theorem Resumes.kept (h : Resumes (executeLine line w) w') :
    w'.settings = w.settings ∧ w'.builtins = w.builtins := by
  have hkept := executeLine_kept line w
  generalize hrun : executeLine line w = ended at h
  cases h with
  | returned =>
    have hk := hkept.ok hrun
    exact ⟨hk.settings, hk.builtins⟩
  | interrupted =>
    have hk := hkept.error hrun
    exact ⟨hk.settings, hk.builtins⟩
  | faulted =>
    have hk := hkept.error hrun
    exact ⟨hk.settings, hk.builtins⟩

theorem Turn.kept {read : Read} {text : String} (h : Turn prompt w read text w') :
    w'.settings = w.settings ∧ w'.builtins = w.builtins := by
  cases h with
  | interrupted => exact ⟨rfl, rfl⟩
  | line hres => exact hres.kept

theorem Turn.readLoop {read : Read} {text : String} (h : Turn prompt w read text w')
    (hp : w.settings.prompt = .text prompt) (rest : List Read) :
    readLoop (read :: rest) w = readLoop rest w' := by
  cases h with
  | interrupted =>
    rw [Shell.readLoop, Action.bind_of_ok (showPrompt_eq hp), Action.bind_of_ok (write_eq _ _),
      printing_printing]
  | line hres hrunning => rw [readLoop_line_of_resumes rest hp hres, if_pos hrunning]

theorem Turns.readLoop {before : List Read} {texts : List String}
    (h : Turns prompt w before texts w') (hp : w.settings.prompt = .text prompt)
    (rest : List Read) : readLoop (before ++ rest) w = readLoop rest w' := by
  induction h with
  | none => rfl
  | next hturn _ ih =>
    rw [List.cons_append, hturn.readLoop hp]
    exact ih (hturn.kept.1 ▸ hp)

theorem Turns.kept {before : List Read} {texts : List String}
    (h : Turns prompt w before texts w') :
    w'.settings = w.settings ∧ w'.builtins = w.builtins := by
  induction h with
  | none => exact ⟨rfl, rfl⟩
  | next hturn _ ih => exact ⟨ih.1.trans hturn.kept.1, ih.2.trans hturn.kept.2⟩

theorem readLoop_exit_line {s : String} {e : Exit} (hp : w.settings.prompt = .text prompt)
    (h : executeLine (Read.withoutEnd s) (w.printing prompt) = .error (.exit e) w')
    (rest : List Read) : readLoop (.line s :: rest) w = .ok e.code w' := by
  rw [Shell.readLoop, Action.bind_of_ok (showPrompt_eq hp),
    Action.bind_of_ok (answerLine_of_exit h)]
  rfl

theorem runScript_exit {script : String} {before after : List String} {e : Exit} {w₁ : World}
    (hscript : Text.pieces '\n' script = before ++ line :: after)
    (hline : Text.isBlankText line = false)
    (hbefore : Completes w (before.filter fun l => !Text.isBlankText l) w₁)
    (h : executeLine line w₁ = .error (.exit e) w') : runScript script w = .ok e.code w' := by
  rw [runScript, runLines_ok_iff, hscript, List.filter_append,
    List.filter_cons_of_pos (by simp [hline])]
  exact .inr ⟨e, .intro rfl hbefore h, rfl⟩

/-- `exit` does nothing but ask to leave: with zero if it has no argument, with the number that its
first argument says if that has few enough digits, and with zero for any other argument. When a
script or the read loop comes to a line that says `exit` and a number, it ends with this number and
in the world that the line has left; the lines after it do not count. -/
theorem exit_status_is_number :
    (∀ arguments w, ∃ code, Builtin.exit.run arguments w = .error (.exit ⟨code⟩) w ∧
      ∀ status, Exit.Asks arguments status ↔ status = code) ∧
    ∀ n : Int, (Nat.toDigits 10 n.natAbs).length ≤ Integer.digitLimit →
      Line.words ("exit " ++ toString n) = ["exit", toString n] ∧
      ∀ w : World, w.builtins.get? "exit" = some .exit →
        (∀ script before line after w₁, Text.pieces '\n' script = before ++ line :: after →
          Line.words line = ["exit", toString n] →
          Completes w (before.filter fun l => !Text.isBlankText l) w₁ →
          ∃ w', executeLine line w₁ = .error (.exit ⟨n⟩) w' ∧ runScript script w = .ok n w') ∧
        ∀ prompt before s after texts w₁, w.settings.prompt = .text prompt →
          Line.words (Read.withoutEnd s) = ["exit", toString n] →
          Turns prompt { w with running := true } before texts w₁ →
          ∃ w', executeLine (Read.withoutEnd s) (w₁.printing prompt) = .error (.exit ⟨n⟩) w' ∧
            run (before ++ .line s :: after) w = .ok n (closed { w' with running := false } n) := by
  refine ⟨fun arguments w => ⟨_, Builtin.exit_run arguments w, fun _ => Exit.asks_iff⟩, ?_⟩
  intro n hn
  refine ⟨Line.words_exit n, fun w hexit => ⟨?_, ?_⟩⟩
  · intro script before line after w₁ hscript hline hbefore
    obtain ⟨w', hrun⟩ := exit_line hn hline (hbefore.builtins ▸ hexit)
    exact ⟨w', hrun, runScript_exit hscript (Line.not_isBlankText_of_words hline) hbefore hrun⟩
  · intro prompt before s after texts w₁ hp hline hbefore
    obtain ⟨hsettings, hbuiltins⟩ := hbefore.kept
    have hprompt : w₁.settings.prompt = .text prompt := hsettings ▸ hp
    have hexit₁ : (w₁.printing prompt).builtins.get? "exit" = some .exit := hbuiltins ▸ hexit
    obtain ⟨w', hrun⟩ := exit_line hn hline hexit₁
    have hloop : readLoop (before ++ .line s :: after) { w with running := true } =
        Action.ended (.ok n) w' := by
      rw [hbefore.readLoop hp]
      exact readLoop_exit_line hprompt hrun after
    exact ⟨w', hrun, run_eq hloop⟩

/-- A negative number, with padding and an underscore in the argument; a line in quotes in a script,
and one with a carriage return behind an interrupt in the read loop. -/
theorem exit_behind_echo :
    let w : World := {}
    Exit.Asks [" -1_2\t", "x"] (-12) ∧
      Builtin.exit.run [" -1_2\t", "x"] w = .error (.exit ⟨-12⟩) w ∧
      (Nat.toDigits 10 (-12 : Int).natAbs).length ≤ Integer.digitLimit ∧
      w.builtins.get? "exit" = some .exit ∧
      (∃ w', runScript "echo a\n\n 'exit' -12\necho b" w = .ok (-12) w') ∧
      ∃ w', run [.interrupt, .line "echo a\n", .line "exit -12\r\n", .line "echo b\n"] w =
        .ok (-12) w' := by
  intro w
  obtain ⟨hcommand, hlines⟩ := exit_status_is_number
  obtain ⟨code, hrun, hcode⟩ := hcommand [" -1_2\t", "x"] w
  have hdigits : Integer.Digits ['1', '_', '2'] [1, 2] :=
    .underscore (by decide) (.last (by decide))
  have hblank : Integer.AllPadding [' '] := by decide
  have htab : Integer.AllPadding ['\t'] := by decide
  have hpadded : Integer.Denotes " -1_2\t" (-12) :=
    .intro hblank (.intro .minus hdigits rfl (by decide)) htab rfl
  have hasks : Exit.Asks [" -1_2\t", "x"] (-12) := .number hpadded (by decide)
  obtain rfl : -12 = code := (hcode (-12)).mp hasks
  have hfew : (Nat.toDigits 10 (-12 : Int).natAbs).length ≤ Integer.digitLimit := by decide
  have hexit : w.builtins.get? "exit" = some .exit := rfl
  obtain ⟨hscript, hloop⟩ := (hlines (-12) hfew).2 w hexit
  refine ⟨hasks, hrun, hfew, hexit, ?_, ?_⟩
  · obtain ⟨w', -, hw'⟩ := hscript "echo a\n\n 'exit' -12\necho b" ["echo a", ""] " 'exit' -12"
      ["echo b"] _ rfl rfl (.cons rfl (.nil _))
    exact ⟨w', hw'⟩
  · have hecho : Resumes (executeLine (Read.withoutEnd "echo a\n")
        ((({ w with running := true } : World).printing ("$ " ++ "\n")).printing "$ ")) _ :=
      .returned
    obtain ⟨w', -, hw'⟩ := hloop "$ " [.interrupt, .line "echo a\n"] "exit -12\r\n"
      [.line "echo b\n"] _ _ rfl rfl (.next .interrupted (.next (.line hecho rfl rfl) .none))
    exact ⟨_, hw'⟩

end Shell

end CommandShell
