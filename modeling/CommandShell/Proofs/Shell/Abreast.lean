import CommandShell.Proofs.FileSystem.SameChanges
import CommandShell.Proofs.Records
import CommandShell.Proofs.Shell.Oblivious
import CommandShell.Proofs.Shell.Outcome
import CommandShell.Proofs.Shell.Script
import CommandShell.Proofs.Shell.WorkingDirectory

/-! # Two runs abreast

Two runs of an action start in worlds that differ in their journals, in the records on the terminal
and in the bytes of files. Nothing of this is read, so at each step both are abreast: they end with
the same result, and what differs afterwards is of the same kind. -/
namespace CommandShell

open FileSystem (SameChanges)
open Line (Command Redirection)

/-- One of two runs, by the file system that it starts with. Only a run with the console may leave
records there. -/
structure Run where
  fs : FileSystem
  console : Bool

/-- What a run has recorded: its journal writes to no file, and to the console only if the run has
it. -/
structure Run.Logs (a : Run) (journal : Log.Journal) (notices : List Notice) : Prop where
  files : journal.files = []
  console : a.console = false → ¬ journal.HasConsole
  notices : a.console = false → ∀ n ∈ notices, ∃ s, n = .text s

structure World.Abreast (a b : Run) (w v : World) : Prop where
  first : a.Logs w.journal w.notices
  second : b.Logs v.journal v.notices
  fs : SameChanges a.fs b.fs w.fs v.fs
  processDir : v.processDir = w.processDir
  environment : v.environment = w.environment
  prompt : v.settings.prompt = w.settings.prompt
  defaultHome : v.settings.defaultHome = w.settings.defaultHome
  session : v.session = w.session
  builtins : v.builtins = w.builtins
  running : v.running = w.running
  output : v.output = w.output
  texts : v.texts = w.texts
  launches : v.launches = w.launches

namespace Run.Logs

variable {a : Run} {w : World}

theorem recording (h : a.Logs w.journal w.notices) (r : Log.Record) :
    a.Logs (w.recording r).journal (w.recording r).notices where
  files := (w.files_recording r).trans h.files
  console hq := Log.Journal.not_hasConsole_keep (h.console hq) r
  notices hq := by
    unfold World.recording
    rw [Log.Journal.consoleLines_eq_nil (h.console hq), List.map_nil, List.append_nil]
    exact h.notices hq

theorem writing {journal : Log.Journal} {notices : List Notice} (h : a.Logs journal notices)
    (s : String) : a.Logs journal (notices ++ [.text s]) where
  files := h.files
  console := h.console
  notices hq := by
    intro n hn
    rcases List.mem_append.mp hn with hn | hn
    · exact h.notices hq n hn
    · exact ⟨s, List.mem_singleton.mp hn⟩

theorem errors (h : a.Logs w.journal w.notices) (hq : a.console = false) :
    w.errors = w.texts := by
  have hn := h.notices hq
  unfold World.errors World.texts
  generalize w.notices = notices at hn
  congr 1
  induction notices with
  | nil => rfl
  | cons n ns ih =>
    obtain ⟨s, rfl⟩ := hn n List.mem_cons_self
    have hrest := ih fun m hm => hn m (List.mem_cons_of_mem _ hm)
    rw [List.map_cons, List.filterMap_cons_some (by rfl), hrest]
    rfl

end Run.Logs

namespace World

variable {a b : Run} {w v : World}

theorem Abreast.symm (h : w.Abreast a b v) : v.Abreast b a w where
  first := h.second
  second := h.first
  fs := h.fs.symm
  processDir := h.processDir.symm
  environment := h.environment.symm
  prompt := h.prompt.symm
  defaultHome := h.defaultHome.symm
  session := h.session.symm
  builtins := h.builtins.symm
  running := h.running.symm
  output := h.output.symm
  texts := h.texts.symm
  launches := h.launches.symm

theorem Abreast.recording (h : w.Abreast a b v) (r r' : Log.Record) :
    (w.recording r).Abreast a b (v.recording r') :=
  have hw : (w.recording r).fs = w.fs := Log.Journal.write_of_no_files h.first.files r w.fs
  have hv : (v.recording r').fs = v.fs := Log.Journal.write_of_no_files h.second.files r' v.fs
  { h with
    first := h.first.recording r
    second := h.second.recording r'
    fs := by rw [hw, hv]; exact h.fs
    texts := by rw [texts_recording, texts_recording, h.texts] }

/-- Without the console there is nothing on the error stream but the texts that both runs have. -/
theorem Abreast.errors (h : w.Abreast a b v) (hq : b.console = false) : v.errors = w.texts :=
  (h.second.errors hq).trans h.texts

end World

namespace Action

variable {α β : Type} {a b : Run} {action first second : Action α} {f : α → Action β}
  {w v : World}

def Together (a b : Run) (first second : Action α) (w v : World) : Prop :=
  ∃ r w' v', w'.Abreast a b v' ∧ first w = ended r w' ∧ second v = ended r v'

def InStep (a b : Run) (action : Action α) : Prop :=
  ∀ w v, w.Abreast a b v → Together a b action action w v

theorem Together.pure (h : w.Abreast a b v) (x : α) :
    Together a b (Pure.pure x : Action α) (Pure.pure x) w v :=
  ⟨.ok x, w, v, h, rfl, rfl⟩

theorem Together.throw (h : w.Abreast a b v) (s : Stop) :
    Together a b (MonadExcept.throw s : Action α) (MonadExcept.throw s) w v :=
  ⟨.error s, w, v, h, rfl, rfl⟩

theorem InStep.pure (x : α) : InStep a b (Pure.pure x) := fun _ _ h => .pure h x

theorem InStep.throw (s : Stop) : InStep a b (MonadExcept.throw s : Action α) :=
  fun _ _ h => .throw h s

theorem Together.bind {f g : α → Action β} (h : Together a b first second w v)
    (next : ∀ x w' v', w'.Abreast a b v' → Together a b (f x) (g x) w' v') :
    Together a b (first >>= f) (second >>= g) w v := by
  obtain ⟨r, w₁, v₁, h₁, hfirst, hsecond⟩ := h
  cases r with
  | ok x =>
    obtain ⟨r, w', v', h', hf, hg⟩ := next x w₁ v₁ h₁
    refine ⟨r, w', v', h', ?_, ?_⟩
    · rw [bind_of_ok hfirst, hf]
    · rw [bind_of_ok hsecond, hg]
  | error s => exact ⟨.error s, w₁, v₁, h₁, bind_of_error hfirst, bind_of_error hsecond⟩

theorem InStep.bind (h : action.InStep a b) (next : ∀ x, (f x).InStep a b) :
    (action >>= f).InStep a b :=
  fun w v hw => (h w v hw).bind fun x w' v' hw' => next x w' v' hw'

theorem InStep.outcome (h : action.InStep a b) : (outcome action).InStep a b := by
  intro w v hw
  obtain ⟨r, w', v', hw', hfirst, hsecond⟩ := h w v hw
  refine ⟨.ok r, w', v', hw', ?_, ?_⟩
  · rw [Action.outcome, hfirst]
    cases r <;> rfl
  · rw [Action.outcome, hsecond]
    cases r <;> rfl

theorem InStep.get_bind {f : World → Action β}
    (h : ∀ w v, w.Abreast a b v → Together a b (f w) (f v) w v) : (get >>= f).InStep a b :=
  fun w v hw => h w v hw

/-- To read the world makes no difference if what comes next is the same action in both. -/
theorem InStep.read_bind {f : World → Action β}
    (same : ∀ w v, w.Abreast a b v → f v = f w) (next : ∀ w, (f w).InStep a b) :
    (get >>= f).InStep a b := by
  apply InStep.get_bind
  intro w v hw
  rw [same w v hw]
  exact next w w v hw

theorem InStep.modify {g : World → World}
    (h : ∀ w v, w.Abreast a b v → (g w).Abreast a b (g v)) : InStep a b (modify g) :=
  fun w v hw => ⟨.ok ⟨⟩, g w, g v, h w v hw, rfl, rfl⟩

theorem Together.symm (h : Together a b first second w v) : Together b a second first v w := by
  obtain ⟨r, w', v', hw', hfirst, hsecond⟩ := h
  exact ⟨r, v', w', hw'.symm, hsecond, hfirst⟩

theorem Together.of_ok (h : Together a b first second w v) (x : α) (w' : World)
    (hrun : first w = .ok x w') : ∃ v', w'.Abreast a b v' ∧ second v = .ok x v' := by
  obtain ⟨r, w₁, v₁, h₁, hfirst, hsecond⟩ := h
  rw [hrun] at hfirst
  cases r with
  | ok y =>
    cases hfirst
    exact ⟨v₁, h₁, hsecond⟩
  | error s => cases hfirst

theorem inStep_write (s : String) : (write s).InStep a b :=
  .modify fun _ _ h => { h with output := congrArg (· ++ s) h.output }

theorem inStep_writeError (s : String) : (writeError s).InStep a b :=
  .modify fun _ _ h => { h with
    first := h.first.writing s
    second := h.second.writing s
    texts := by rw [World.texts_append, World.texts_append, h.texts] }

theorem inStep_log (level : Log.Level) (origin message : String) (details : Members)
    (cause : Option Log.Cause) : (log level origin message details cause).InStep a b :=
  .modify fun w v h => h.recording ⟨level, message, some origin, details, w.time, cause⟩
    ⟨level, message, some origin, details, v.time, cause⟩

theorem inStep_writeAt (place : Location) (s : String) : (Output.writeAt place s).InStep a b :=
  .modify fun _ _ h => { h with fs := h.fs.append place s.toUTF8 }

theorem inStep_openTarget (path : String) (append : Bool) :
    (Output.openTarget path append).InStep a b := by
  apply InStep.get_bind
  intro w v h
  rcases h.fs.openForWriting w.processDir path append with
    ⟨f, hw, hv⟩ | ⟨place, after, after', hw, hv, hafter⟩
  · rw [hw, h.processDir, hv]
    cases f with
    | system e p => exact .throw h _
    | _ => exact .throw h _
  · rw [← h.processDir] at hv
    rw [hw, hv]
    refine ⟨.ok place, { w with fs := after }, { v with fs := after' }, ?_, rfl, rfl⟩
    exact { h with fs := hafter }

theorem inStep_prepare (r : Redirection) : (Output.prepare r).InStep a b := by
  unfold Output.prepare
  split
  · exact .bind (inStep_openTarget _ _) fun _ => .pure ()
  · exact .pure ()

theorem inStep_showOn (r : Redirection) (s : String) : (Output.showOn r s).InStep a b := by
  unfold Output.showOn
  split
  · exact inStep_writeError _
  · exact inStep_write _

theorem inStep_route (result : Result) (r : Redirection) :
    (Output.route result r).InStep a b := by
  unfold Output.route
  split
  · exact .pure ()
  split
  · next path _ _ =>
    have hwrite : (Output.writeTarget path r.append result.output).InStep a b :=
      .bind (inStep_openTarget _ _) fun place => inStep_writeAt place _
    apply hwrite.outcome.bind
    intro ended
    match ended with
    | .ok () => exact .pure ()
    | .error (.failure f) =>
      apply (inStep_log _ _ _ _ _).bind
      intro _
      exact .bind (inStep_writeError _) fun _ => inStep_showOn r _
    | .error (.exit e) => exact .throw _
    | .error .interrupt => exact .throw _
    | .error (.fault f) => exact .throw _
  · exact inStep_showOn r _

theorem inStep_openWiring (wiring : Wiring) : (Launch.openWiring wiring).InStep a b := by
  unfold Launch.openWiring
  split
  · exact .pure none
  · exact .bind (inStep_openTarget _ _) fun place => .pure (some place)
  · exact .throw _

theorem inStep_emit (place : Option Location) {terminal : String → Action Unit}
    (h : ∀ s, (terminal s).InStep a b) (s : String) :
    (Launch.emit place terminal s).InStep a b := by
  cases place with
  | some l => exact inStep_writeAt l s
  | none => exact h s

theorem inStep_launch (request : Launch) : request.run.InStep a b := by
  unfold Launch.run
  have hrecorded : InStep a b (modify fun w : World =>
      { w with launches := w.launches ++ [request] }) :=
    .modify fun _ _ h => { h with launches := congrArg (· ++ [request]) h.launches }
  apply hrecorded.bind
  intro _
  apply (inStep_openWiring request.output).bind
  intro output
  apply (inStep_openWiring request.error).bind
  intro error
  apply InStep.read_bind
  · intro w v h
    rw [h.processDir, Launch.program_sameNodes h.fs.sameNodes]
  intro w
  split
  · exact .throw _
  · next program _ =>
    apply (inStep_emit output inStep_write _).bind
    intro _
    apply (inStep_emit error inStep_writeError _).bind
    intro _
    split
    · exact .throw _
    · exact .pure _

theorem inStep_runNamed (name : String) (arguments : List String) (r : Redirection) :
    (Launch.runNamed name arguments r).InStep a b := by
  unfold Launch.runNamed
  apply InStep.read_bind
  · intro w v h
    rw [h.processDir, h.session, h.fs.sameNodes.grows.findProgram?]
  intro w
  split
  · apply (inStep_log _ _ _ _ _).bind
    intro _
    exact .bind (inStep_write _) fun _ => .pure none
  · apply (inStep_log _ _ _ _ _).bind
    intro _
    apply (inStep_launch _).bind
    intro status
    exact .bind (inStep_log _ _ _ _ _) fun _ => .pure (some status)

theorem inStep_setSession {f : PUnit → Action β} (h : w.Abreast a b v) (session : Session)
    (next : (f ⟨⟩).InStep a b) :
    Together a b (set { w with session } >>= f) (set { v with session } >>= f) w v := by
  have hmoved : World.Abreast a b { w with session } { v with session } := { h with session := rfl }
  exact next _ _ hmoved

theorem inStep_cd (arguments : List String) : (Builtin.run arguments .cd).InStep a b := by
  apply InStep.get_bind
  intro w v h
  have hsame : v.session.changeDirectory v.fs v.processDir arguments =
      w.session.changeDirectory w.fs w.processDir arguments := by
    rw [h.processDir, h.session, h.fs.sameNodes.grows.changeDirectory]
  rw [hsame]
  rcases w.session.changeDirectory_cases w.fs w.processDir arguments with
    ⟨f, hf⟩ | ⟨dir, hdir⟩ | ⟨output, houtput⟩
  · rw [hf]
    exact .throw h _
  · have hlog : InStep a b (log .debug "builtins" "Changed directory"
        [("cwd", .text dir)] >>= fun _ => pure (⟨true, ""⟩ : Result)) :=
      .bind (inStep_log _ _ _ _ _) fun _ => .pure _
    rw [hdir]
    exact inStep_setSession (f := fun _ => _) h _ hlog
  · rw [houtput]
    exact .pure h _

theorem inStep_builtin (command : Builtin) (arguments : List String) :
    (command.run arguments).InStep a b := by
  cases command with
  | exit => exact .throw _
  | echo => exact .pure _
  | pwd => exact .read_bind (fun w v h => by rw [h.session]) fun w => .pure _
  | cd => exact inStep_cd arguments
  | type =>
    apply InStep.read_bind
    · intro w v h
      rw [h.processDir, h.session, h.builtins]
      unfold Builtins.describe
      simp only [h.fs.sameNodes.grows.findProgram?]
    · exact fun w => .pure _
  | added behavior =>
    cases behavior with
    | returns r => exact .pure r
    | listsArguments ok => exact .read_bind (fun w v h => by rw [h.session]) fun w => .pure _
    | raises s => exact .throw s
    | endsLoop =>
      have hstop : InStep a b (modify fun w : World => { w with running := false }) :=
        .modify fun _ _ h => { h with running := rfl }
      exact hstop.bind fun _ => .pure _

theorem inStep_named (name : String) (arguments : List String) :
    (Builtins.run name arguments).InStep a b := by
  unfold Builtins.run
  apply InStep.read_bind
  · intro w v h
    rw [h.builtins]
  intro w
  split
  · exact .pure _
  · next command _ =>
    exact .bind (inStep_log _ _ _ _ _) fun _ => inStep_builtin command arguments

end Action

namespace Shell

open CommandShell.Action (InStep)

variable {a b : Run} {start start' u v : World}

theorem inStep_runCommand (c : Command) : (runCommand c).InStep a b := by
  unfold runCommand
  apply InStep.read_bind
  · intro w v h
    rw [h.session]
  intro w
  apply (Action.inStep_prepare _).bind
  intro _
  apply InStep.read_bind
  · intro w v h
    rw [h.builtins]
  intro w
  split
  · apply (Action.inStep_named c.name c.arguments).bind
    intro result
    exact .bind (Action.inStep_route result _) fun _ => .pure none
  · exact Action.inStep_runNamed c.name c.arguments _

theorem inStep_executeLine (line : String) : (executeLine line).InStep a b := by
  have hline : (runLine line).InStep a b := by
    unfold runLine
    split
    · next c _ => exact inStep_runCommand c
    · exact .throw _
  apply (Action.inStep_log _ _ _ _ _).bind
  intro _
  apply hline.outcome.bind
  intro ended
  match ended with
  | .ok status => exact .pure status
  | .error (.failure f) =>
    apply (Action.inStep_log _ _ _ _ _).bind
    intro _
    exact .bind (Action.inStep_writeError _) fun _ => .pure none
  | .error (.exit e) => exact .throw _
  | .error .interrupt => exact .throw _
  | .error (.fault f) => exact .throw _

theorem inStep_runLines (lines : List String) : (runLines lines).InStep a b := by
  induction lines with
  | nil => exact .pure 0
  | cons line rest ih =>
    unfold runLines
    split
    · exact ih
    · apply (inStep_executeLine line).outcome.bind
      intro ended
      cases ended with
      | ok status => exact ih
      | error s =>
        cases s with
        | exit e => exact .pure _
        | failure f => exact .throw _
        | interrupt => exact .throw _
        | fault f => exact .throw _

theorem inStep_showPrompt : showPrompt.InStep a b := by
  unfold showPrompt
  apply InStep.read_bind
  · intro w v h
    rw [h.prompt]
  intro w
  split
  · exact Action.inStep_write _
  · exact .throw _

theorem inStep_report (kind message : String) : (afterStop.report kind message).InStep a b := by
  apply (Action.inStep_log _ _ _ _ _).bind
  intro _
  exact .bind (Action.inStep_writeError _) fun _ => .pure none

theorem inStep_answerLine (line : String) : (answerLine line).InStep a b := by
  apply (inStep_executeLine _).outcome.bind
  intro ended
  match ended with
  | .ok status => exact .pure none
  | .error (.exit e) => exact .pure _
  | .error .interrupt => exact .bind (Action.inStep_write _) fun _ => .pure none
  | .error (.failure f) => exact inStep_report _ _
  | .error (.fault f) => exact inStep_report _ _

theorem inStep_readLoop (input : List Read) : (readLoop input).InStep a b := by
  induction input with
  | nil =>
    apply inStep_showPrompt.bind
    intro _
    exact .bind (Action.inStep_write _) fun _ => .pure 0
  | cons read rest ih =>
    cases read with
    | interrupt =>
      apply inStep_showPrompt.bind
      intro _
      exact .bind (Action.inStep_write _) fun _ => ih
    | doubleInterrupt => exact inStep_showPrompt.bind fun _ => .throw _
    | line s =>
      apply inStep_showPrompt.bind
      intro _
      apply (inStep_answerLine s).bind
      intro status
      cases status with
      | some code => exact .pure code
      | none =>
        apply InStep.read_bind
        · intro w v h
          rw [h.running]
        intro w
        split
        · exact ih
        · exact .pure 0

theorem inStep_running (running : Bool) :
    InStep a b (modify fun w : World => { w with running }) :=
  .modify fun _ _ h => { h with running := rfl }

theorem inStep_run (input : List Read) : (run input).InStep a b := by
  apply (inStep_running true).bind
  intro _
  apply (inStep_readLoop input).bind
  intro code
  apply (inStep_running false).bind
  intro _
  exact .bind (Action.inStep_log _ _ _ _ _) fun _ => .pure code

/-- The prompts of two read loops come one by one, in worlds that are abreast. -/
theorem prompts_abreast {input rest : List Read} (h : start.Abreast a b start')
    (hu : Prompts start input u rest) :
    ∃ v, u.Abreast a b v ∧ Prompts start' input v rest := by
  induction hu with
  | first => exact ⟨start', h, .first⟩
  | interrupt _ hrun ih =>
    obtain ⟨v, hv, hprompts⟩ := ih
    have hturn : (do showPrompt; Action.write "\n" : Action Unit).InStep a b :=
      .bind inStep_showPrompt fun _ => Action.inStep_write _
    obtain ⟨v', hv', hrun'⟩ := (hturn _ _ hv).of_ok _ _ hrun
    exact ⟨v', hv', .interrupt hprompts hrun'⟩
  | line _ hrun hrunning ih =>
    obtain ⟨v, hv, hprompts⟩ := ih
    have hturn (s : String) : (do showPrompt; answerLine s : Action (Option Int)).InStep a b :=
      .bind inStep_showPrompt fun _ => inStep_answerLine s
    obtain ⟨v', hv', hrun'⟩ := (hturn _ _ _ hv).of_ok _ _ hrun
    exact ⟨v', hv', .line hprompts hrun' (hv'.running.trans hrunning)⟩

theorem completes_abreast {lines : List String} (h : start.Abreast a b start')
    (hu : Completes start lines u) : ∃ v, u.Abreast a b v ∧ Completes start' lines v := by
  induction hu generalizing start' with
  | nil => exact ⟨start', h, .nil start'⟩
  | cons hrun _ ih =>
    obtain ⟨v₁, hv₁, hrun'⟩ := (inStep_executeLine _ _ _ h).of_ok _ _ hrun
    obtain ⟨v, hv, hrest⟩ := ih hv₁
    exact ⟨v, hv, .cons hrun' hrest⟩

end Shell

end CommandShell
