import CommandShell.Proofs.Shell.Oblivious
import CommandShell.Proofs.Shell.Reliable

/-! # The read loop and scripts

The read loop shows its prompt before each line and runs the line as a script does. Both therefore
run the same lines, one after the other up to an exit, and end alike. -/
namespace CommandShell

open FileSystem (hasNul)

def closingRecord (code : Int) (time : Moment) : Log.Record :=
  ⟨.info, "Shell loop finished", some "shell", [("exit_code", .integer code)], time, none⟩

namespace Shell

structure Entered (line : String) : Prop where
  not_blank : Text.isBlankText line = false
  no_newline : '\n' ∉ line.toList
  no_return : line.toList.getLast? ≠ some '\r'
  no_nul : hasNul line = false

instance (line : String) : Decidable (Entered line) :=
  decidable_of_iff (Text.isBlankText line = false ∧ '\n' ∉ line.toList ∧
      line.toList.getLast? ≠ some '\r' ∧ hasNul line = false)
    ⟨fun ⟨hb, hn, hr, hz⟩ => ⟨hb, hn, hr, hz⟩,
      fun h => ⟨h.not_blank, h.no_newline, h.no_return, h.no_nul⟩⟩

/-- Input that gives lines, each of them with or without its end. -/
inductive Feeds : List String → List Read → Prop where
  | nil : Feeds [] []
  | cons {line lines given input} : given = line ∨ given = line ++ "\n" → Feeds lines input →
      Feeds (line :: lines) (.line given :: input)

/-- The lines that are run one after the other, up to one that asks to exit, each with the text that
it adds to the output. -/
inductive Executed : World → List String → List String → Option Exit → World → Prop where
  | done (w) : Executed w [] [] none w
  | line {w w₁ w' line lines status text texts e} : executeLine line w = .ok status w₁ →
      w₁.output = w.output ++ text → Executed w₁ lines texts e w' →
      Executed w (line :: lines) (text :: texts) e w'
  | exit {w w' line lines e text} : executeLine line w = .error (.exit e) w' →
      w'.output = w.output ++ text → Executed w (line :: lines) [text] (some e) w'

def statusOf (e : Option Exit) : Int :=
  (e.getD {}).code

/-- What the read loop adds to the output: the prompt and then the text of each line, and the prompt
once more at the end of the input. -/
def prompted (prompt : String) (texts : List String) (e : Option Exit) : String :=
  String.join (texts.map (prompt ++ ·)) ++ if e.isNone then prompt ++ "\n" else ""

variable {w w₁ w' : World} {line prompt : String} {lines texts : List String} {input : List Read}
  {e : Option Exit}

theorem dropEnd_of_getLast? {p : Char → Bool} {cs : List Char}
    (h : ∀ c, cs.getLast? = some c → p c = false) : Text.dropEnd p cs = cs := by
  unfold Text.dropEnd
  rw [← List.head?_reverse] at h
  cases hr : cs.reverse with
  | nil => simp_all
  | cons c r =>
    rw [hr] at h
    rw [List.dropWhile_cons_of_neg (by simp [h c rfl]), ← hr, List.reverse_reverse]

theorem Entered.last (h : Entered line) (c : Char) (hc : line.toList.getLast? = some c) :
    (c == '\r' || c == '\n') = false := by
  have hr : c ≠ '\r' := by
    rintro rfl
    exact h.no_return hc
  have hn : c ≠ '\n' := by
    rintro rfl
    exact h.no_newline (List.mem_of_getLast? hc)
  simp [hr, hn]

/-- What is read of a line is the line, whether or not its end is read with it. -/
theorem Entered.withoutEnd (h : Entered line) {given : String}
    (hg : given = line ∨ given = line ++ "\n") : Read.withoutEnd given = line := by
  have hline : Text.dropEnd (fun c => c == '\r' || c == '\n') line.toList = line.toList :=
    dropEnd_of_getLast? h.last
  unfold Read.withoutEnd
  rcases hg with rfl | rfl
  · rw [hline, String.ofList_toList]
  · have hend : Text.dropEnd (fun c => c == '\r' || c == '\n') (line ++ "\n").toList =
        Text.dropEnd (fun c => c == '\r' || c == '\n') line.toList := by
      simp [Text.dropEnd]
    rw [hend, hline, String.ofList_toList]

theorem pieces_of_entered (hl : ∀ line ∈ lines, Entered line) (hne : lines ≠ []) :
    Text.pieces '\n' (Text.joined "\n" lines) = lines := by
  cases lines with
  | nil => exact absurd rfl hne
  | cons line lines => exact Text.pieces_joined fun t ht => (hl t ht).no_newline

theorem linesOf_cons {c : Char} {cs l : List Char} {ls : List (List Char)} (hc : c ≠ '\n')
    (h : Read.linesOf cs = l :: ls) : Read.linesOf (c :: cs) = (c :: l) :: ls := by
  rw [Read.linesOf, h]
  exact hc

theorem linesOf_ended {cs : List Char} (h : '\n' ∉ cs) (rest : List Char) :
    Read.linesOf (cs ++ '\n' :: rest) = (cs ++ ['\n']) :: Read.linesOf rest := by
  induction cs with
  | nil => rfl
  | cons c cs ih =>
    have hc : c ≠ '\n' := Ne.symm (List.ne_of_not_mem_cons h)
    exact linesOf_cons hc (ih (List.not_mem_of_not_mem_cons h))

theorem linesOf_last {cs : List Char} (h : '\n' ∉ cs) (hne : cs ≠ []) :
    Read.linesOf cs = [cs] := by
  induction cs with
  | nil => exact absurd rfl hne
  | cons c cs ih =>
    have hc : c ≠ '\n' := Ne.symm (List.ne_of_not_mem_cons h)
    cases cs with
    | nil =>
      rw [Read.linesOf, Read.linesOf]
      exact hc
    | cons d cs => exact linesOf_cons hc (ih (List.not_mem_of_not_mem_cons h) (by simp))

theorem feeds_ended (hl : ∀ line ∈ lines, Entered line) :
    Feeds lines (Read.ofText (String.join (lines.map (· ++ "\n")))) := by
  induction lines with
  | nil => exact .nil
  | cons line lines ih =>
    have hline := hl line List.mem_cons_self
    have htext : (String.join ((line :: lines).map (· ++ "\n"))).toList =
        line.toList ++ '\n' :: (String.join (lines.map (· ++ "\n"))).toList := by
      simp
    unfold Read.ofText
    rw [htext, linesOf_ended hline.no_newline]
    refine .cons (.inr ?_) (ih fun l hm => hl l (List.mem_cons_of_mem line hm))
    rw [String.ofList_append, String.ofList_toList]

theorem feeds_joined (hl : ∀ line ∈ lines, Entered line) :
    Feeds lines (Read.ofText (Text.joined "\n" lines)) := by
  induction lines using Text.joined.induct with
  | case1 => exact .nil
  | case2 line =>
    have hline := hl line List.mem_cons_self
    have hne : line.toList ≠ [] := by
      intro he
      simpa [Text.isBlankText, he] using hline.not_blank
    unfold Read.ofText
    rw [Text.joined, linesOf_last hline.no_newline hne]
    exact .cons (.inl String.ofList_toList) .nil
  | case3 line next lines ih =>
    have hline := hl line List.mem_cons_self
    have htext : (Text.joined "\n" (line :: next :: lines)).toList =
        line.toList ++ '\n' :: (Text.joined "\n" (next :: lines)).toList := by
      simp [Text.joined]
    unfold Read.ofText
    rw [htext, linesOf_ended hline.no_newline]
    refine .cons (.inr ?_) (ih fun l hm => hl l (List.mem_cons_of_mem line hm))
    rw [String.ofList_append, String.ofList_toList]

theorem Reliable.not_ends (h : Reliable w) (name : String) :
    w.builtins.get? name ≠ some (.added .endsLoop) :=
  fun hb => h.harmless name _ hb

theorem Reliable.executed (h : Reliable w) (hs : Shallow w lines)
    (hl : ∀ line ∈ lines, Entered line) :
    ∃ texts e w', Executed w lines texts e w' ∧ w.Keeps w' := by
  induction lines generalizing w with
  | nil => exact ⟨[], none, w, .done w, .refl w⟩
  | cons line lines ih =>
    have hblind := oblivious_executeLine h.not_ends line
    rcases h.executeLine (hl line List.mem_cons_self).no_nul (fun _ => hs.head) with
      ⟨status, w₁, hrun, hw₁⟩ | ⟨e, w', hrun, -⟩
    · obtain ⟨text, hout, hprints⟩ := hblind.prints (r := .ok status) hrun
      obtain ⟨texts, e, w', hrest, hk⟩ :=
        ih hw₁ (hs.tail hrun) fun l hm => hl l (List.mem_cons_of_mem line hm)
      exact ⟨_, _, _, .line hrun hout hrest, hprints.keeps.trans hk⟩
    · obtain ⟨text, hout, hprints⟩ := hblind.prints (r := .error (.exit e)) hrun
      exact ⟨_, _, _, .exit hrun hout, hprints.keeps⟩

/-- What lines are run, what they add to the output and how they end is determined. -/
theorem Executed.unique {w'' : World} {more : List String} {e' : Option Exit}
    (h : Executed w lines texts e w') (k : Executed w lines more e' w'') :
    texts = more ∧ e = e' ∧ w' = w'' := by
  induction h generalizing more with
  | done w =>
    cases k
    exact ⟨rfl, rfl, rfl⟩
  | line hrun hout _ ih =>
    cases k with
    | line hrun' hout' hrest =>
      cases hrun.symm.trans hrun'
      obtain ⟨rfl, rfl, rfl⟩ := ih hrest
      obtain rfl := (String.append_right_inj _).mp (hout.symm.trans hout')
      exact ⟨rfl, rfl, rfl⟩
    | exit hrun' _ => cases hrun.symm.trans hrun'
  | exit hrun hout =>
    cases k with
    | line hrun' _ _ => cases hrun.symm.trans hrun'
    | exit hrun' hout' =>
      cases hrun.symm.trans hrun'
      obtain rfl := (String.append_right_inj _).mp (hout.symm.trans hout')
      exact ⟨rfl, rfl, rfl⟩

theorem Executed.output (h : Executed w lines texts e w') :
    w'.output = w.output ++ String.join texts := by
  induction h with
  | done w => simp
  | line _ hout _ ih => rw [ih, hout, String.join_cons, String.append_assoc]
  | exit _ hout => rw [hout, String.join_cons]; simp

theorem Executed.runLines (h : Executed w lines texts e w') (hl : ∀ line ∈ lines, Entered line) :
    runLines lines w = .ok (statusOf e) w' := by
  induction h with
  | done w => rfl
  | line hrun _ _ ih =>
    rw [runLines_cons (hl _ List.mem_cons_self).not_blank, hrun]
    exact ih fun l hm => hl l (List.mem_cons_of_mem _ hm)
  | exit hrun _ => rw [runLines_cons (hl _ List.mem_cons_self).not_blank, hrun]; rfl

theorem Executed.runScript (h : Executed w lines texts e w') (hl : ∀ line ∈ lines, Entered line) :
    runScript (Text.joined "\n" lines) w = .ok (statusOf e) w' := by
  unfold Shell.runScript
  by_cases hne : lines = []
  · subst hne
    cases h
    rfl
  · rw [pieces_of_entered hl hne]
    exact h.runLines hl

theorem showPrompt_shows (hp : w.settings.prompt = .text prompt) (output : String) :
    showPrompt (w.showing output true) = .ok () (w.showing (output ++ prompt) true) := by
  have hprompt : (w.showing output true).settings.prompt = .text prompt := hp
  rw [showPrompt, Action.get_bind, hprompt]
  rfl

theorem readLoop_end (hp : w.settings.prompt = .text prompt) (output : String) :
    readLoop [] (w.showing output true) =
      .ok 0 (w.showing (output ++ (prompt ++ "\n")) true) := by
  unfold readLoop
  rw [Action.bind_of_ok (showPrompt_shows hp output), ← String.append_assoc]
  rfl

theorem readLoop_answer {given output output' : String} (rest : List Read)
    (hp : w.settings.prompt = .text prompt)
    (hanswer : answerLine given (w.showing (output ++ prompt) true) =
      .ok none (w₁.showing output' true)) :
    readLoop (.line given :: rest) (w.showing output true) =
      readLoop rest (w₁.showing output' true) := by
  rw [Shell.readLoop, Action.bind_of_ok (showPrompt_shows hp output), Action.bind_of_ok hanswer]
  rfl

theorem readLoop_line {given output output' : String} {status : Option Int} (rest : List Read)
    (hp : w.settings.prompt = .text prompt)
    (hrun : executeLine (Read.withoutEnd given) (w.showing (output ++ prompt) true) =
      .ok status (w₁.showing output' true)) :
    readLoop (.line given :: rest) (w.showing output true) =
      readLoop rest (w₁.showing output' true) := by
  apply readLoop_answer rest hp
  rw [answerLine, Action.bind_of_ok (Action.outcome_of_ok hrun)]
  rfl

theorem readLoop_exit {given output output' : String} {e : Exit} (rest : List Read)
    (hp : w.settings.prompt = .text prompt)
    (hrun : executeLine (Read.withoutEnd given) (w.showing (output ++ prompt) true) =
      .error (.exit e) (w₁.showing output' true)) :
    readLoop (.line given :: rest) (w.showing output true) =
      .ok e.code (w₁.showing output' true) := by
  have hanswer : answerLine given (w.showing (output ++ prompt) true) =
      .ok (some e.code) (w₁.showing output' true) := by
    rw [answerLine, Action.bind_of_ok (Action.outcome_of_error hrun)]
    rfl
  rw [Shell.readLoop, Action.bind_of_ok (showPrompt_shows hp output), Action.bind_of_ok hanswer]
  rfl

/-- The read loop runs the lines that it is fed one after the other. -/
theorem Executed.readLoop (h : Executed w lines texts e w')
    (hbs : ∀ name, w.builtins.get? name ≠ some (.added .endsLoop))
    (hp : w.settings.prompt = .text prompt) (hl : ∀ line ∈ lines, Entered line)
    (hi : Feeds lines input) (output : String) :
    readLoop input (w.showing output true) =
      .ok (statusOf e) (w'.showing (output ++ prompted prompt texts e) true) := by
  induction h generalizing input output with
  | done w =>
    cases hi
    rw [readLoop_end hp]
    simp [prompted, statusOf]
  | @line w w₁ w' line lines status text texts e hrun hout _ ih =>
    cases hi with
    | cons hg hi =>
      -- The line ran without the prompts on the output; it runs alike with them.
      have hprints := (oblivious_executeLine hbs line).prints_text (r := .ok status) hrun hout
      have hgiven := (hl line List.mem_cons_self).withoutEnd hg
      rw [readLoop_line _ hp (hgiven ▸ hprints.runs (output ++ prompt) true),
        ih (hprints.keeps.builtins ▸ hbs) (hprints.keeps.settings ▸ hp)
          (fun l hm => hl l (List.mem_cons_of_mem line hm)) hi]
      simp [prompted, String.append_assoc]
  | @exit w w' line lines e text hrun hout =>
    cases hi with
    | cons hg hi =>
      have hprints :=
        (oblivious_executeLine hbs line).prints_text (r := .error (.exit e)) hrun hout
      have hgiven := (hl line List.mem_cons_self).withoutEnd hg
      rw [readLoop_exit _ hp (hgiven ▸ hprints.runs (output ++ prompt) true)]
      simp [prompted, statusOf, String.append_assoc]

def closed (w : World) (code : Int) : World :=
  let r := closingRecord code w.time
  { w with
    journal := w.journal.keep r
    notices := w.notices ++ (w.journal.consoleLines r).map .record
    fs := w.journal.write r w.fs }

/-- What the world `v` after the read loop has in common with the world `w'` after a script, from
the same world `w`. But for the prompts, only the record at the end of the loop can tell them
apart. -/
structure Closes (w w' v : World) (prompt : String) (texts : List String) (e : Option Exit) :
    Prop where
  output : v.output = w.output ++ prompted prompt texts e
  session : v.session = w'.session
  environment : v.environment = w'.environment
  launches : v.launches = w'.launches
  errors : v.errors = w'.errors ++
    String.join (w'.journal.consoleLines (closingRecord (statusOf e) w'.time))
  fs : v.fs = w'.journal.write (closingRecord (statusOf e) w'.time) w'.fs
  silent : w.journal.SilentAt Log.Level.info → v.errors = w'.errors ∧ v.fs = w'.fs

theorem run_of_readLoop {code : Int} {output : String}
    (h : readLoop input (w.showing w.output true) = .ok code (w'.showing output true)) :
    run input w = .ok code (closed (w'.showing output false) code) := by
  have hstart : (modify fun w => { w with running := true } : Action PUnit) w =
      .ok ⟨⟩ (w.showing w.output true) := rfl
  rw [run, Action.bind_of_ok hstart, Action.bind_of_ok h]
  rfl

theorem closed_errors (w : World) (code : Int) : (closed w code).errors =
    w.errors ++ String.join (w.journal.consoleLines (closingRecord code w.time)) := by
  simp [closed, World.errors, String.join_append, Function.comp_def, Notice.content]

/-- The read loop, fed with lines, and a script made of the same lines end with the same status and
alike: from a reliable world both run the lines one after the other up to an exit. To the texts of
these the read loop adds its prompts alone, and at its end one record. -/
theorem loop_and_script_agree (hw : Reliable w) (hs : Shallow w lines)
    (hp : w.settings.prompt = .text prompt) (hl : ∀ line ∈ lines, Entered line)
    (hi : Feeds lines input) :
    ∃ texts e w' v, Executed w lines texts e w' ∧
      runScript (Text.joined "\n" lines) w = .ok (statusOf e) w' ∧
      w'.output = w.output ++ String.join texts ∧
      run input w = .ok (statusOf e) v ∧ Closes w w' v prompt texts e := by
  obtain ⟨texts, e, w', hrun, hkeeps⟩ := hw.executed hs hl
  have hloop := hrun.readLoop hw.not_ends hp hl hi w.output
  have herrors := closed_errors
    (w'.showing (w.output ++ prompted prompt texts e) false) (statusOf e)
  refine ⟨texts, e, w', _, hrun, hrun.runScript hl, hrun.output, run_of_readLoop hloop, ?_⟩
  refine ⟨rfl, rfl, rfl, rfl, herrors, rfl, ?_⟩
  intro hsilent
  have hquiet : w'.journal.SilentAt (closingRecord (statusOf e) w'.time).level :=
    hkeeps.silent _ hsilent
  constructor
  · rw [herrors]
    simp [World.showing, hquiet.consoleLines, World.errors]
  · exact hquiet.write _

def singleDirectory (dir output : String) : World :=
  { fs := { nodes := [(["d"], .directory {})] }, session := { dir }, output }

/-- The lines up to `exit` are run, each after a prompt, with or without an end of the last line. -/
theorem loop_and_script_up_to_exit :
    let w := singleDirectory "/" ""
    let lines := ["cd d", "pwd", "exit 3", "echo a"]
    Reliable w ∧ Shallow w lines ∧ (∀ line ∈ lines, Entered line) ∧
      ∀ text ∈ [String.join (lines.map (· ++ "\n")), Text.joined "\n" lines],
        Feeds lines (Read.ofText text) ∧
        ∃ w' v, runScript (Text.joined "\n" lines) w = .ok 3 w' ∧ w'.output = "/d\n" ∧
          run (Read.ofText text) w = .ok 3 v ∧
          Closes w w' v "$ " ["", "/d\n", ""] (some ⟨3⟩) := by
  intro w lines
  have hnode : ∀ l n, w.fs.node? l = some n → n = .directory {} ∧ FileSystem.Addressable l := by
    intro l n h
    match l with
    | [] => exact ⟨(Option.some.inj h).symm, by decide, by decide⟩
    | c :: above =>
      simp only [w, singleDirectory, FileSystem.node?, Table.get?] at h
      split at h
      · next e => exact ⟨(Option.some.inj h).symm, by rw [← e]; decide, by rw [← e]; decide⟩
      · simp at h
  have hnameable : w.fs.Nameable := ⟨fun l _ h => (hnode l _ h).2, fun l _ h => (hnode l _ h).2⟩
  have hw : Reliable w := by
    refine ⟨?_, by decide, by decide, ⟨_, rfl⟩, ?_, ?_⟩
    · intro l target h
      exact absurd (hnode l _ h).1 (by simp)
    · rintro path ⟨d, p, content, program, -, -, h, -⟩
      exact absurd (hnode d _ h).1 (by simp)
    · intro name b hb
      exact absurd hb (standard_not_added name b)
  have hordinary : Ordinary w :=
    ⟨hnameable, by decide, ⟨_, rfl⟩, fun name _ => standard_not_added name _⟩
  have hs : Shallow w lines := hordinary.shallow lines
  have hl : ∀ line ∈ lines, Entered line := by decide
  have hcd : executeLine "cd d" (singleDirectory "/" "") =
      .ok none (singleDirectory "/d" "") := rfl
  have hpwd : executeLine "pwd" (singleDirectory "/d" "") =
      .ok none (singleDirectory "/d" "/d\n") := rfl
  have hexit : executeLine "exit 3" (singleDirectory "/d" "/d\n") =
      .error (.exit ⟨3⟩) (singleDirectory "/d" "/d\n") := rfl
  have hgoes : Executed w lines ["", "/d\n", ""] (some ⟨3⟩) _ :=
    .line hcd (by decide) (.line hpwd (by decide) (.exit hexit (by decide)))
  refine ⟨hw, hs, hl, ?_⟩
  intro text hm
  have hi : Feeds lines (Read.ofText text) := by
    simp only [List.mem_cons, List.not_mem_nil, or_false] at hm
    rcases hm with rfl | rfl
    · exact feeds_ended hl
    · exact feeds_joined hl
  obtain ⟨texts, e, w', v, hrun, hscript, -, hloop, hcloses⟩ :=
    loop_and_script_agree hw hs rfl hl hi
  obtain ⟨rfl, rfl, rfl⟩ := hrun.unique hgoes
  exact ⟨hi, _, v, hscript, rfl, hloop, hcloses⟩

/-- The record at the end of the read loop is on the console, where a script leaves nothing. A home
directory that is no text ends a script at `cd`, and not the read loop. -/
theorem loop_and_script_differ :
    (let w : World :=
        { session := { dir := "/" }
          journal := { threshold := Log.Level.info, sinks := [.console Log.Level.info {}] } }
      ∃ w' v, runScript "echo a" w = .ok 0 w' ∧ run [.line "echo a\n"] w = .ok 0 v ∧
        v.errors ≠ w'.errors) ∧
    (let w : World := { session := { dir := "/", home := some (.integer 5) } }
      ∃ f v, runScript "cd" w = .error (.fault f) w ∧ run [.line "cd\n"] w = .ok 0 v) := by
  constructor
  · intro w
    let w₁ : World := { w with output := "a\n" }
    have hrun : Executed w ["echo a"] ["a\n"] none w₁ := .line rfl rfl (.done w₁)
    have hl : ∀ line ∈ ["echo a"], Entered line := by decide
    have hbs : ∀ name, w.builtins.get? name ≠ some (.added .endsLoop) :=
      fun name => standard_not_added name _
    have hloop := hrun.readLoop hbs rfl hl (.cons (.inr rfl) .nil) ""
    refine ⟨w₁, _, hrun.runScript hl, run_of_readLoop hloop, ?_⟩
    rw [closed_errors]
    decide +kernel
  · intro w
    have hcd : executeLine "cd" w = .error (.fault (.missingOperation "int" "startswith")) w := rfl
    let w₁ : World := { w with
      notices := [.text "minish: error: 'int' object has no attribute 'startswith'\n"] }
    have hanswer : answerLine "cd\n" (w.showing ("" ++ "$ ") true) =
        .ok none (w₁.showing "$ " true) := rfl
    have hloop : readLoop [.line "cd\n"] (w.showing "" true) =
        .ok 0 (w₁.showing ("$ " ++ ("$ " ++ "\n")) true) :=
      (readLoop_answer [] rfl hanswer).trans (readLoop_end rfl "$ ")
    have hlines : Text.pieces '\n' "cd" = ["cd"] := by decide
    refine ⟨.missingOperation "int" "startswith", _, ?_, run_of_readLoop hloop⟩
    rw [runScript, hlines, runLines_cons (by decide), hcd]

end Shell

end CommandShell
