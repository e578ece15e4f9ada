import CommandShell.Proofs.Records
import CommandShell.Proofs.Shell.Loop
import CommandShell.Proofs.Shell.Outcome

/-! # What ends the read loop

The read loop takes one turn for each attempt to read: it shows the prompt, and an interrupt, a
fault or a failure on the line is answered, whereupon the next turn begins in the world as it is
then. The last turn is that of the end of the input, of a line that asks to exit, or of one with a
command that was added to end the loop. An interrupt leaves the loop only if it is a double one. -/
namespace CommandShell

open Line (Command Redirection)

def faultRecord (f : Fault) (time : Moment) : Log.Record :=
  ⟨.error, "Shell error: " ++ f.message, some "shell", [], time, some ⟨f.kind, f.message⟩⟩

def World.printing (w : World) (s : String) : World :=
  { w with output := w.output ++ s }

namespace Shell

/-- The world in which the read loop goes on after a line, by how the line ended. After a request to
exit it does not go on. -/
inductive Resumes : EStateM.Result Stop World (Option Int) → World → Prop where
  | returned {status w} : Resumes (.ok status w) w
  | interrupted {w} : Resumes (.error .interrupt w) (w.printing "\n")
  | faulted {f w} : Resumes (.error (.fault f) w)
      ((w.recording (faultRecord f w.time)).complaining ("minish: error: " ++ f.message))

/-- One turn of the read loop that is not the last one, with the text that it puts behind the
prompt. -/
inductive Turn (prompt : String) (w : World) : Read → String → World → Prop where
  | interrupted : Turn prompt w .interrupt "\n" (w.printing (prompt ++ "\n"))
  | line {s text w'} : Resumes (executeLine (Read.withoutEnd s) (w.printing prompt)) w' →
      w'.running = true → w'.output = w.output ++ (prompt ++ text) →
      Turn prompt w (.line s) text w'

inductive Turns (prompt : String) : World → List Read → List String → World → Prop where
  | none {w} : Turns prompt w [] [] w
  | next {w w₁ w' read reads text texts} : Turn prompt w read text w₁ →
      Turns prompt w₁ reads texts w' → Turns prompt w (read :: reads) (text :: texts) w'

inductive LastTurn (prompt : String) (w : World) :
    List Read → String → Except Stop Int → World → Prop where
  | ended : LastTurn prompt w [] "\n" (.ok 0) (w.printing (prompt ++ "\n"))
  | exits {s rest e text w'} :
      executeLine (Read.withoutEnd s) (w.printing prompt) = .error (.exit e) w' →
      w'.output = w.output ++ (prompt ++ text) →
      LastTurn prompt w (.line s :: rest) text (.ok e.code) w'
  | stops {s rest c status text w'} :
      executeLine (Read.withoutEnd s) (w.printing prompt) = .ok status w' →
      w'.running = false → Command.ofLine (Read.withoutEnd s) = .ok c →
      w.builtins.get? c.name = some (.added .endsLoop) →
      w'.output = w.output ++ (prompt ++ text) →
      LastTurn prompt w (.line s :: rest) text (.ok 0) w'
  | leaves {rest} : LastTurn prompt w (.doubleInterrupt :: rest) "" (.error .interrupt)
      (w.printing prompt)

structure LineKept (w : World) (line : String) (r : Except Stop (Option Int)) (w' : World) :
    Prop where
  settings : w'.settings = w.settings
  builtins : w'.builtins = w.builtins
  output : ∃ text, w'.output = w.output ++ text
  running : w'.running = w.running ∨ (r = .ok none ∧ w'.running = false ∧
    ∃ c, Command.ofLine line = .ok c ∧ w.builtins.get? c.name = some (.added .endsLoop))

variable {w w₁ w' : World} {line prompt text last : String} {input rest reads : List Read}
  {texts : List String} {result : Except Stop Int}

/-- Only a command that was added to end the read loop has a say in whether it goes on. -/
theorem running_ofCommand (w : World) (c : Command) (r : Redirection) :
    (Outcome.ofCommand w c r).world.running = w.running ∨
      (w.builtins.get? c.name = some (.added .endsLoop) ∧
        (Outcome.ofCommand w c r).result = .ok none ∧
        (Outcome.ofCommand w c r).world.running = false) := by
  unfold Outcome.ofCommand
  cases hb : w.builtins.get? c.name with
  | none =>
    left
    simp only [Outcome.ofName]
    cases w.fs.findProgram? w.processDir c.name w.session.searchDirectories <;> rfl
  | some b =>
    by_cases he : b = .added .endsLoop
    · subst he
      exact .inr ⟨rfl, rfl, rfl⟩
    · left
      have hleaves : (b.leaves w c.arguments).running = w.running := by
        unfold Builtin.leaves
        split
        · split <;> rfl
        · exact absurd rfl he
        · rfl
      simp only [Outcome.ofBuiltin]
      cases b.answer w c.arguments <;> exact hleaves

theorem running_outcome (w : World) (c : Command) (l : Option Location) :
    (outcome w c l).world.running = w.running ∨
      (w.builtins.get? c.name = some (.added .endsLoop) ∧ (outcome w c l).result = .ok none ∧
        (outcome w c l).world.running = false) := by
  unfold outcome
  rw [Outcome.reported_world]
  rcases running_ofCommand (w.prepared (redirectionIn w c) l) c (redirectionIn w c) with
    h | ⟨hb, hr, hs⟩
  · exact .inl h
  · rw [Outcome.reported_of_not_failure (by simp [hr])]
    exact .inr ⟨hb, hr, hs⟩

theorem executeLine_kept (line : String) (w : World) :
    (executeLine line).Ends w (LineKept w line) := by
  by_cases hopen : ∃ c, Command.ofLine line = .ok c ∧ Opens w c
  · obtain ⟨c, hc, ho⟩ := hopen
    obtain ⟨l, haims⟩ := ho.exists_aim
    have hgives : (executeLine line).Gives w.journal.files w _ _ := gives_executeLine hc haims
    apply (hgives w (.self w)).imp
    rintro r w' ⟨rfl, halike⟩
    have hworld := outcome_world w c l
    have hsettings := congrArg World.settings hworld
    have hbuiltins := congrArg World.builtins hworld
    have houtput := congrArg World.output hworld
    refine ⟨halike.settings.trans hsettings, halike.builtins.trans hbuiltins, ?_, ?_⟩
    · exact ⟨_, halike.output.trans (congrArg (· ++ _) houtput)⟩
    · rcases running_outcome w c l with h | ⟨hb, hr, hs⟩
      · exact .inl (halike.running.trans h)
      · exact .inr ⟨hr, halike.running.trans hs, c, hc, hb⟩
  · have hclosed : ∀ c, Command.ofLine line = .ok c → ¬ Opens w c :=
      fun c hc ho => hopen ⟨c, hc, ho⟩
    obtain ⟨res, error, -, hgives⟩ := gives_executeLine_abandoned w.journal.files hclosed
    apply (hgives w (.self w)).imp
    rintro r w' ⟨-, halike⟩
    refine ⟨halike.settings, halike.builtins, ⟨"", ?_⟩, .inl halike.running⟩
    rw [String.append_empty]
    exact halike.output

theorem write_eq (s : String) (w : World) : Action.write s w = .ok () (w.printing s) := rfl

theorem printing_printing (w : World) (s t : String) :
    (w.printing s).printing t = w.printing (s ++ t) := by
  simp only [World.printing, String.append_assoc]

theorem showPrompt_eq (hp : w.settings.prompt = .text prompt) :
    showPrompt w = .ok () (w.printing prompt) := by
  rw [showPrompt, Action.get_bind, hp]
  rfl

theorem answerLine_of_resumes {s : String}
    (h : Resumes (executeLine (Read.withoutEnd s) w) w') : answerLine s w = .ok none w' := by
  generalize hrun : executeLine (Read.withoutEnd s) w = ended at h
  rw [answerLine]
  cases h with
  | returned =>
    rw [Action.bind_of_ok (Action.outcome_of_ok hrun)]
    rfl
  | interrupted =>
    rw [Action.bind_of_ok (Action.outcome_of_error hrun)]
    rfl
  | faulted =>
    rw [Action.bind_of_ok (Action.outcome_of_error hrun)]
    rfl

theorem answerLine_of_exit {s : String} {e : Exit}
    (h : executeLine (Read.withoutEnd s) w = .error (.exit e) w') :
    answerLine s w = .ok (some e.code) w' := by
  rw [answerLine, Action.bind_of_ok (Action.outcome_of_error h)]
  rfl

theorem readLoop_line_of_resumes {s : String} (rest : List Read)
    (hp : w.settings.prompt = .text prompt)
    (h : Resumes (executeLine (Read.withoutEnd s) (w.printing prompt)) w') :
    readLoop (.line s :: rest) w = if w'.running then readLoop rest w' else .ok 0 w' := by
  rw [readLoop, Action.bind_of_ok (showPrompt_eq hp),
    Action.bind_of_ok (answerLine_of_resumes h)]
  dsimp only
  rw [Action.get_bind]
  cases w'.running <;> rfl

/-- A line that does not ask to exit is answered, and the loop resumes with its prompt and, unless a
command ends it, still running. -/
theorem exists_resumes (hr : w.running = true) (s : String)
    (hexit : ∀ e v, executeLine (Read.withoutEnd s) (w.printing prompt) ≠ .error (.exit e) v) :
    ∃ text w', Resumes (executeLine (Read.withoutEnd s) (w.printing prompt)) w' ∧
      w'.settings = w.settings ∧ w'.output = w.output ++ (prompt ++ text) ∧
      (w'.running = true ∨ w'.running = false ∧ ∃ status c,
        executeLine (Read.withoutEnd s) (w.printing prompt) = .ok status w' ∧
        Command.ofLine (Read.withoutEnd s) = .ok c ∧
        w.builtins.get? c.name = some (.added .endsLoop)) := by
  have hkept := executeLine_kept (Read.withoutEnd s) (w.printing prompt)
  have hends := executeLine_ends (Read.withoutEnd s) (w.printing prompt)
  cases hrun : executeLine (Read.withoutEnd s) (w.printing prompt) with
  | ok status v =>
    have hk := hkept.ok hrun
    obtain ⟨text, hout⟩ := hk.output
    refine ⟨text, v, .returned, hk.settings, ?_, ?_⟩
    · rw [hout, World.printing, String.append_assoc]
    · rcases hk.running with h | ⟨-, hs, c, hc, hb⟩
      · exact .inl (h.trans hr)
      · exact .inr ⟨hs, status, c, rfl, hc, hb⟩
  | error stop v =>
    have hk := hkept.error hrun
    obtain ⟨text, hout⟩ := hk.output
    have hrunning : v.running = true := by
      rcases hk.running with h | ⟨h, -⟩
      · exact h.trans hr
      · cases h
    cases stop with
    | failure f => exact absurd rfl ((hends.error hrun).no_failure f)
    | exit e => exact absurd hrun (hexit e v)
    | interrupt =>
      refine ⟨text ++ "\n", _, .interrupted, hk.settings, ?_, .inl hrunning⟩
      simp only [World.printing, hout, String.append_assoc]
    | fault f =>
      refine ⟨text, _, .faulted, hk.settings, ?_, .inl hrunning⟩
      simp only [World.complaining, World.recording, hout, World.printing, String.append_assoc]

theorem readLoop_turn (hp : w.settings.prompt = .text prompt) (hr : w.running = true)
    (read : Read) (rest : List Read) :
    (∃ text w', Turn prompt w read text w' ∧ w'.settings = w.settings ∧ w'.running = true ∧
      readLoop (read :: rest) w = readLoop rest w') ∨
    ∃ text result w', LastTurn prompt w (read :: rest) text result w' ∧
      readLoop (read :: rest) w = Action.ended result w' := by
  cases read with
  | interrupt =>
    refine .inl ⟨_, _, .interrupted, rfl, hr, ?_⟩
    rw [readLoop, Action.bind_of_ok (showPrompt_eq hp), Action.bind_of_ok (write_eq _ _),
      printing_printing]
  | doubleInterrupt =>
    refine .inr ⟨_, _, _, .leaves, ?_⟩
    rw [readLoop, Action.bind_of_ok (showPrompt_eq hp)]
    rfl
  | line s =>
    by_cases hexit : ∃ e v, executeLine (Read.withoutEnd s) (w.printing prompt) =
        .error (.exit e) v
    · obtain ⟨e, v, hrun⟩ := hexit
      obtain ⟨text, hout⟩ := ((executeLine_kept _ _).error hrun).output
      have houtput : v.output = w.output ++ (prompt ++ text) := by
        rw [hout, World.printing, String.append_assoc]
      refine .inr ⟨_, _, _, .exits hrun houtput, ?_⟩
      rw [readLoop, Action.bind_of_ok (showPrompt_eq hp),
        Action.bind_of_ok (answerLine_of_exit hrun)]
      rfl
    · obtain ⟨text, w', hres, hsettings, hout, hrunning | ⟨hstopped, status, c, hrun, hc, hb⟩⟩ :=
        exists_resumes hr s fun e v hrun => hexit ⟨e, v, hrun⟩
      · refine .inl ⟨text, w', .line hres hrunning hout, hsettings, hrunning, ?_⟩
        rw [readLoop_line_of_resumes rest hp hres, if_pos hrunning]
      · refine .inr ⟨_, _, _, .stops hrun hstopped hc hb hout, ?_⟩
        rw [readLoop_line_of_resumes rest hp hres, if_neg (by simp [hstopped])]
        rfl

theorem readLoop_turns (hp : w.settings.prompt = .text prompt) (hr : w.running = true)
    (input : List Read) :
    ∃ before rest texts v last result w', input = before ++ rest ∧
      Turns prompt w before texts v ∧ LastTurn prompt v rest last result w' ∧
      readLoop input w = Action.ended result w' := by
  induction input generalizing w with
  | nil =>
    refine ⟨[], [], [], w, _, _, _, rfl, .none, .ended, ?_⟩
    rw [readLoop, Action.bind_of_ok (showPrompt_eq hp), Action.bind_of_ok (write_eq _ _),
      printing_printing]
    rfl
  | cons read rest ih =>
    rcases readLoop_turn hp hr read rest with
      ⟨text, w₁, hturn, hsettings, hrunning, hgoes⟩ | ⟨text, result, w', hlast, hends⟩
    · obtain ⟨before, rest', texts, v, last, result, w', rfl, hturns, hlast, hends⟩ :=
        ih (hsettings ▸ hp) hrunning
      exact ⟨read :: before, rest', text :: texts, v, last, result, w', rfl, .next hturn hturns,
        hlast, hgoes.trans hends⟩
    · exact ⟨[], _, [], w, text, result, w', rfl, .none, hlast, hends⟩

theorem Turn.output {read : Read} (h : Turn prompt w read text w') :
    w'.output = w.output ++ (prompt ++ text) := by
  cases h with
  | interrupted => rfl
  | line _ _ hout => exact hout

theorem Turns.output (h : Turns prompt w reads texts w') :
    w'.output = w.output ++ String.join (texts.map (prompt ++ ·)) := by
  induction h with
  | none => simp
  | next hturn _ ih => rw [ih, hturn.output, List.map_cons, String.join_cons, String.append_assoc]

theorem Turns.length_eq (h : Turns prompt w reads texts w') : texts.length = reads.length := by
  induction h with
  | none => rfl
  | next _ _ ih => rw [List.length_cons, List.length_cons, ih]

theorem LastTurn.output (h : LastTurn prompt w rest last result w') :
    w'.output = w.output ++ (prompt ++ last) := by
  cases h with
  | ended => rfl
  | exits _ hout => exact hout
  | stops _ _ _ _ hout => exact hout
  | leaves => rw [String.append_empty, World.printing]

/-- The last turn leaves the loop exactly at a double interrupt. -/
theorem LastTurn.interrupted_iff (h : LastTurn prompt w rest last result w') :
    (∃ more, rest = .doubleInterrupt :: more) ↔ result = .error .interrupt := by
  cases h <;> simp

theorem LastTurn.ok_of_not_interrupted (h : LastTurn prompt w rest last result w')
    (hn : ∀ more, rest ≠ .doubleInterrupt :: more) : ∃ code, result = .ok code := by
  cases h with
  | ended => exact ⟨_, rfl⟩
  | exits => exact ⟨_, rfl⟩
  | stops => exact ⟨_, rfl⟩
  | leaves => exact absurd rfl (hn _)

def loopEnd (w : World) : Except Stop Int → EStateM.Result Stop World Int
  | .ok code => .ok code (closed { w with running := false } code)
  | .error s => .error s w

theorem run_eq (h : readLoop input { w with running := true } = Action.ended result w') :
    run input w = loopEnd w' result := by
  have hstart : (modify fun w => { w with running := true } : Action PUnit) w =
      .ok ⟨⟩ { w with running := true } := rfl
  rw [run, Action.bind_of_ok hstart]
  cases result with
  | ok code => exact Action.bind_of_ok h
  | error s => exact Action.bind_of_error h

/-- The read loop takes one turn for each attempt to read, in the order of the input, and shows the
prompt once at the beginning of each. It ends with the input, with the first line that asks to exit,
or with the first one whose command was added to end it; an interrupt leaves it exactly if it comes
to a double one. -/
theorem read_loop_ends (hp : w.settings.prompt = .text prompt) (input : List Read) :
    ∃ before rest texts v last result w', input = before ++ rest ∧
      Turns prompt { w with running := true } before texts v ∧
      LastTurn prompt v rest last result w' ∧
      run input w = loopEnd w' result ∧
      texts.length = before.length ∧
      w'.output = w.output ++ String.join ((texts ++ [last]).map (prompt ++ ·)) ∧
      ((∃ more, rest = .doubleInterrupt :: more) ↔ run input w = .error .interrupt w') ∧
      (.doubleInterrupt ∉ input → ∃ code u, run input w = .ok code u) := by
  obtain ⟨before, rest, texts, v, last, result, w', rfl, hturns, hlast, hends⟩ :=
    readLoop_turns (w := { w with running := true }) hp rfl input
  have hrun := run_eq hends
  refine ⟨before, rest, texts, v, last, result, w', rfl, hturns, hlast, hrun,
    hturns.length_eq, ?_, ?_, ?_⟩
  · rw [hlast.output, hturns.output]
    simp [String.join_append, String.append_assoc]
  · rw [hlast.interrupted_iff, hrun]
    cases result <;> simp [loopEnd]
  · intro hn
    obtain ⟨code, rfl⟩ := hlast.ok_of_not_interrupted fun more hr => hn (by simp [hr])
    exact ⟨code, _, hrun⟩

/-- After an interrupt and a line with both of its ends, the loop ends at the exit. -/
theorem read_loop_up_to_exit :
    let w : World := {}
    let input : List Read :=
      [.interrupt, .line "echo a\r\n", .line "exit 3\n", .line "echo b\n"]
    w.settings.prompt = .text "$ " ∧
      ∃ before s rest texts v last w' u, input = before ++ .line s :: rest ∧
        Turns "$ " { w with running := true } before texts v ∧
        executeLine (Read.withoutEnd s) (v.printing "$ ") = .error (.exit ⟨3⟩) w' ∧
        run input w = .ok 3 u ∧ u.output = "$ \n$ a\n$ " ∧ texts.length = before.length ∧
        u.output = String.join ((texts ++ [last]).map ("$ " ++ ·)) := by
  have hknown : ∃ u, run [.interrupt, .line "echo a\r\n", .line "exit 3\n", .line "echo b\n"] {} =
      .ok 3 u ∧ u.output = "$ \n$ a\n$ " := ⟨_, rfl, by decide +kernel⟩
  intro w input
  obtain ⟨u, hu, htext⟩ := hknown
  have hprompt : w.settings.prompt = .text "$ " := rfl
  obtain ⟨before, rest, texts, v, last, result, w', hinput, hturns, hlast, hrun, hlength, hout,
    -⟩ := read_loop_ends hprompt input
  rw [hu] at hrun
  cases hlast with
  | ended => cases hrun
  | stops => cases hrun
  | leaves => cases hrun
  | @exits s rest e _ _ hexit _ =>
    obtain ⟨code⟩ := e
    cases hrun
    exact ⟨hprompt, before, s, rest, texts, v, last, w', _, hinput, hturns, hexit, hu, htext, hlength,
      hout⟩

/-- A command that was added to end the loop does so after its line, although more lines follow and
none of them asks to exit. -/
theorem read_loop_ends_at_added_command :
    let w : World := { builtins := Builtins.standard.put "halt" (.added .endsLoop) }
    (∃ u, run [.line "halt\n", .line "echo a\n"] w = .ok 0 u ∧ u.output = "$ ") ∧
      ∀ line ∈ ["halt", "echo a"], ∃ status v, executeLine line w = .ok status v := by
  have hrun : ∃ u, run [.line "halt\n", .line "echo a\n"]
      { builtins := Builtins.standard.put "halt" (.added .endsLoop) } = .ok 0 u ∧
        u.output = "$ " := ⟨_, rfl, by decide +kernel⟩
  intro w
  constructor
  · exact hrun
  intro line hline
  simp only [List.mem_cons, List.not_mem_nil, or_false] at hline
  rcases hline with rfl | rfl
  · exact ⟨_, _, rfl⟩
  · exact ⟨_, _, rfl⟩

end Shell

end CommandShell
