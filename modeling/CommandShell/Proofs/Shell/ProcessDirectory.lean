import CommandShell.Proofs.FileSystem.Absolute
import CommandShell.Proofs.Shell.Dispatch
import CommandShell.Proofs.Shell.Oblivious

/-! # The directory of the process

Relative paths are taken from the directory of the process, but none of them comes that far: as long
as the working directory of the session is absolute, so are the targets of redirections, the places
where programs are looked for, the targets of `cd` and all that a request names. An action therefore
does the same wherever the process was started. -/
namespace CommandShell

open Line (Command Redirection)
open CommandShell.Path (startsAtRoot)

def World.startedIn (w : World) (dir : String) : World :=
  { w with processDir := dir }

def World.Rooted (w : World) : Prop :=
  startsAtRoot w.session.dir = true

def Line.Redirection.Rooted (r : Redirection) : Prop :=
  ∀ path, r.target = some path → startsAtRoot path = true

def Wiring.Rooted : Wiring → Prop
  | inherited => True
  | toFile path _ => ∀ p, path = some p → startsAtRoot p = true

structure Launch.Rooted (request : Launch) : Prop where
  executable : startsAtRoot request.executable = true
  dir : ∀ d, request.dir = some d → startsAtRoot d = true
  output : request.output.Rooted
  error : request.error.Rooted

/-- What an action keeps up: the working directory stays absolute, and what is launched is named by
absolute paths. -/
structure World.Continues (w w' : World) : Prop where
  rooted : w'.Rooted
  launches : ∃ requests, w'.launches = w.launches ++ requests ∧ ∀ q ∈ requests, q.Rooted

namespace World

variable {w w' w'' : World}

theorem Continues.of_eq (hw : w.Rooted) (hs : w'.session = w.session)
    (hl : w'.launches = w.launches) : w.Continues w' := by
  refine ⟨?_, [], by simp [hl], by simp⟩
  rw [Rooted, hs]
  exact hw

theorem Continues.refl (hw : w.Rooted) : w.Continues w := .of_eq hw rfl rfl

theorem Continues.trans (h : w.Continues w') (k : w'.Continues w'') : w.Continues w'' := by
  obtain ⟨first, hfirst, hrooted⟩ := h.launches
  obtain ⟨second, hsecond, hrooted'⟩ := k.launches
  refine ⟨k.rooted, first ++ second, by rw [hsecond, hfirst, List.append_assoc], ?_⟩
  intro q hq
  rcases List.mem_append.mp hq with hq | hq
  · exact hrooted q hq
  · exact hrooted' q hq

end World

namespace Action

/-- From `w` an action ends in the same way wherever the process was started. -/
def RunsAlike (a : Action α) (w : World) : Prop :=
  ∃ r w', w.Continues w' ∧ ∀ dir, a (w.startedIn dir) = ended r (w'.startedIn dir)

def Indifferent (a : Action α) : Prop :=
  ∀ w : World, w.Rooted → a.RunsAlike w

variable {α β : Type} {a : Action α} {f : α → Action β} {w w₁ : World} {path : String}

theorem RunsAlike.of_eq {b : Action α} (hw : w.Continues w₁)
    (h : ∀ dir, a (w.startedIn dir) = b (w₁.startedIn dir)) (hb : b.RunsAlike w₁) :
    a.RunsAlike w := by
  obtain ⟨r, w', hcontinues, hrun⟩ := hb
  exact ⟨r, w', hw.trans hcontinues, fun dir => (h dir).trans (hrun dir)⟩

theorem RunsAlike.of_ok {x : α} {v : World} {dir : String} (h : a.RunsAlike w)
    (hrun : a (w.startedIn dir) = .ok x v) : ∃ w', w.Continues w' ∧ v = w'.startedIn dir ∧
      ∀ other, a (w.startedIn other) = .ok x (w'.startedIn other) := by
  obtain ⟨r, w', hcontinues, hends⟩ := h
  have hdir := (hends dir).symm.trans hrun
  cases r with
  | ok y =>
    cases hdir
    exact ⟨w', hcontinues, rfl, hends⟩
  | error s => cases hdir

theorem Indifferent.pure (x : α) : Indifferent (Pure.pure x) :=
  fun w hw => ⟨.ok x, w, .refl hw, fun _ => rfl⟩

theorem Indifferent.throw (s : Stop) : Indifferent (MonadExcept.throw s : Action α) :=
  fun w hw => ⟨.error s, w, .refl hw, fun _ => rfl⟩

theorem RunsAlike.bind (ha : a.RunsAlike w) (hf : ∀ x, (f x).Indifferent) :
    (a >>= f).RunsAlike w := by
  obtain ⟨r, w₁, hcontinues, hrun⟩ := ha
  cases r with
  | ok x =>
    obtain ⟨r, w', hcontinues', hnext⟩ := hf x w₁ hcontinues.rooted
    refine ⟨r, w', hcontinues.trans hcontinues', fun dir => ?_⟩
    rw [bind_of_ok (hrun dir), hnext]
  | error s => exact ⟨.error s, w₁, hcontinues, fun dir => bind_of_error (hrun dir)⟩

theorem Indifferent.bind (ha : a.Indifferent) (hf : ∀ x, (f x).Indifferent) :
    (a >>= f).Indifferent :=
  fun w hw => (ha w hw).bind hf

theorem Indifferent.outcome (ha : a.Indifferent) : (outcome a).Indifferent := by
  intro w hw
  obtain ⟨r, w', hcontinues, hrun⟩ := ha w hw
  refine ⟨.ok r, w', hcontinues, fun dir => ?_⟩
  rw [Action.outcome, hrun dir]
  cases r <;> rfl

/-- To read the world makes no difference if what comes next is the same action everywhere. -/
theorem RunsAlike.get_bind {f : World → Action β} (hw : w.Rooted)
    (same : ∀ dir, f (w.startedIn dir) = f w) (h : (f w).RunsAlike w) :
    (get >>= f).RunsAlike w :=
  .of_eq (.refl hw) (fun dir => congrFun (same dir) _) h

theorem RunsAlike.modify {g : World → World} (hw : w.Continues (g w))
    (same : ∀ dir, g (w.startedIn dir) = (g w).startedIn dir) : RunsAlike (modify g) w :=
  ⟨.ok ⟨⟩, g w, hw, fun dir => congrArg (EStateM.Result.ok PUnit.unit) (same dir)⟩

theorem Indifferent.modify {g : World → World}
    (same : ∀ w dir, g (w.startedIn dir) = (g w).startedIn dir)
    (hs : ∀ w, (g w).session = w.session) (hl : ∀ w, (g w).launches = w.launches) :
    Indifferent (modify g) :=
  fun w hw => .modify (.of_eq hw (hs w) (hl w)) (same w)

theorem indifferent_write (s : String) : (write s).Indifferent :=
  .modify (fun _ _ => rfl) (fun _ => rfl) fun _ => rfl

theorem indifferent_writeError (s : String) : (writeError s).Indifferent :=
  .modify (fun _ _ => rfl) (fun _ => rfl) fun _ => rfl

theorem indifferent_log (level : Log.Level) (origin message : String) (details : Members)
    (cause : Option Log.Cause) : (log level origin message details cause).Indifferent :=
  .modify (fun _ _ => rfl) (fun _ => rfl) fun _ => rfl

theorem indifferent_writeAt (place : Location) (s : String) :
    (Output.writeAt place s).Indifferent :=
  .modify (fun _ _ => rfl) (fun _ => rfl) fun _ => rfl

theorem indifferent_openTarget (append : Bool) (h : startsAtRoot path = true) :
    (Output.openTarget path append).Indifferent := by
  intro w hw
  have hsame (dir : String) : (w.startedIn dir).fs.openForWriting (w.startedIn dir).processDir
      path append = w.fs.openForWriting w.processDir path append :=
    FileSystem.openForWriting_absolute dir w.processDir h
  cases ho : w.fs.openForWriting w.processDir path append with
  | ok p =>
    refine ⟨.ok p.1, { w with fs := p.2 }, .of_eq hw rfl rfl, fun dir => ?_⟩
    rw [Output.openTarget, get_bind, hsame, ho]
    rfl
  | error f =>
    obtain ⟨stop, hstop⟩ : ∃ stop, ∀ dir, Output.openTarget path append (w.startedIn dir) =
        .error stop (w.startedIn dir) := by
      simp only [Output.openTarget, get_bind, hsame, ho]
      cases f <;> exact ⟨_, fun _ => rfl⟩
    exact ⟨.error stop, w, .refl hw, hstop⟩

theorem indifferent_prepare {r : Redirection} (h : r.Rooted) : (Output.prepare r).Indifferent := by
  unfold Output.prepare
  split
  · next path _ ht => exact .bind (indifferent_openTarget _ (h path ht)) fun _ => .pure ()
  · exact .pure ()

theorem indifferent_showOn (r : Redirection) (s : String) :
    (Output.showOn r s).Indifferent := by
  unfold Output.showOn
  split
  · exact indifferent_writeError _
  · exact indifferent_write _

theorem indifferent_route (result : Result) {r : Redirection} (h : r.Rooted) :
    (Output.route result r).Indifferent := by
  unfold Output.route
  split
  · exact .pure ()
  split
  · next path _ ht =>
    have hwrite : (Output.writeTarget path r.append result.output).Indifferent :=
      .bind (indifferent_openTarget _ (h path ht)) fun place => indifferent_writeAt place _
    apply hwrite.outcome.bind
    intro ended
    match ended with
    | .ok () => exact .pure ()
    | .error (.failure f) =>
      apply (indifferent_log _ _ _ _ _).bind
      intro _
      exact .bind (indifferent_writeError _) fun _ => indifferent_showOn r _
    | .error (.exit e) => exact .throw _
    | .error .interrupt => exact .throw _
    | .error (.fault f) => exact .throw _
  · exact indifferent_showOn r _

theorem indifferent_openWiring {wiring : Wiring} (h : wiring.Rooted) :
    (Launch.openWiring wiring).Indifferent := by
  unfold Launch.openWiring
  split
  · exact .pure none
  · next path append =>
    exact .bind (indifferent_openTarget append (h path rfl)) fun place => .pure (some place)
  · exact .throw _

theorem indifferent_emit (place : Option Location) {terminal : String → Action Unit}
    (h : ∀ s, (terminal s).Indifferent) (s : String) :
    (Launch.emit place terminal s).Indifferent := by
  cases place with
  | some l => exact indifferent_writeAt l s
  | none => exact h s

end Action

namespace Launch

theorem Rooted.program {request : Launch} (h : request.Rooted) (fs : FileSystem)
    (dir other : String) : request.program fs dir = request.program fs other := by
  have hlocate {path : String} (hp : startsAtRoot path = true) :
      fs.locate dir path = fs.locate other path := FileSystem.locate_absolute dir other hp
  have hcheck : ∀ d, request.dir = some d →
      checkDirectory fs dir d = checkDirectory fs other d := by
    intro d hd
    rw [checkDirectory, checkDirectory, hlocate (h.dir d hd)]
  unfold Launch.program
  rw [hlocate h.executable]
  cases hd : request.dir with
  | none => rfl
  | some d => simp only [hcheck d hd]

theorem rooted_ofCommand {found : Found} {r : Redirection} {dir : String} (name : String)
    (arguments : List String) (hf : startsAtRoot found.path = true) (hr : r.Rooted)
    (hd : startsAtRoot dir = true) : (ofCommand found name arguments r (some dir)).Rooted := by
  have hdir : ∀ d, some dir = some d → startsAtRoot d = true := by
    rintro d hd'
    cases hd'
    exact hd
  unfold ofCommand
  dsimp only
  split
  · exact ⟨hf, hdir, trivial, trivial⟩
  split
  · exact ⟨hf, hdir, trivial, hr⟩
  · exact ⟨hf, hdir, hr, trivial⟩

end Launch

namespace Action

variable {w : World}

theorem indifferent_launch {request : Launch} (h : request.Rooted) : request.run.Indifferent := by
  intro w hw
  unfold Launch.run
  have hrecorded : RunsAlike (modify fun w : World =>
      { w with launches := w.launches ++ [request] }) w := by
    apply RunsAlike.modify
    · exact ⟨hw, [request], rfl, by simpa using h⟩
    · exact fun _ => rfl
  apply hrecorded.bind
  intro _
  apply (indifferent_openWiring h.output).bind
  intro output
  apply (indifferent_openWiring h.error).bind
  intro error w hw
  apply RunsAlike.get_bind hw
  · intro dir
    have hp : request.program (w.startedIn dir).fs (w.startedIn dir).processDir =
        request.program w.fs w.processDir := h.program w.fs dir w.processDir
    rw [hp]
  split
  · exact Indifferent.throw _ w hw
  · next program _ =>
    refine Indifferent.bind (indifferent_emit output indifferent_write _) (fun _ => ?_) w hw
    apply (indifferent_emit error indifferent_writeError _).bind
    intro _
    split
    · exact .throw _
    · exact .pure _

theorem found_rooted (hw : w.Rooted) {name : String} {found : Found}
    (h : w.fs.findProgram? w.processDir name w.session.searchDirectories = some found) :
    startsAtRoot found.path = true :=
  (Shell.firstProgram_of_found h).startsAtRoot hw

theorem indifferent_runNamed (name : String) (arguments : List String) {r : Redirection}
    (h : r.Rooted) : (Launch.runNamed name arguments r).Indifferent := by
  intro w hw
  unfold Launch.runNamed
  apply RunsAlike.get_bind hw
  · intro dir
    have hfind : (w.startedIn dir).fs.findProgram? (w.startedIn dir).processDir name
        (w.startedIn dir).session.searchDirectories =
        w.fs.findProgram? w.processDir name w.session.searchDirectories :=
      FileSystem.findProgram?_absolute dir w.processDir fun d hd =>
        Shell.startsAtRoot_of_searched hw hd
    rw [hfind]
    rfl
  cases hf : w.fs.findProgram? w.processDir name w.session.searchDirectories with
  | none =>
    refine Indifferent.bind (indifferent_log _ _ _ _ _) (fun _ => ?_) w hw
    exact .bind (indifferent_write _) fun _ => .pure none
  | some found =>
    have hrequest := Launch.rooted_ofCommand name arguments (found_rooted hw hf) h hw
    refine Indifferent.bind (indifferent_log _ _ _ _ _) (fun _ => ?_) w hw
    apply (indifferent_launch hrequest).bind
    intro status
    exact .bind (indifferent_log _ _ _ _ _) fun _ => .pure (some status)

end Action

namespace Session

variable {s : Session} {fs : FileSystem} {arguments : List String}

/-- From an absolute directory `cd` goes to the same absolute directory, wherever the process is. -/
theorem changeDirectory_absolute (here other : String) (hs : startsAtRoot s.dir = true) :
    s.changeDirectory fs here arguments = s.changeDirectory fs other arguments ∧
      ∀ result s', s.changeDirectory fs here arguments = .ok (result, s') →
        startsAtRoot s'.dir = true := by
  cases ht : s.target arguments.head? with
  | error f =>
    rw [changeDirectory_of_target_error ht, changeDirectory_of_target_error ht]
    exact ⟨rfl, fun _ _ h => by cases h⟩
  | ok p =>
    obtain ⟨shown, target⟩ := p
    have hroot := startsAtRoot_target hs ht
    have hsame : fs.isDirectory here target = fs.isDirectory other target :=
      FileSystem.isDirectory_absolute here other hroot
    have hreal : fs.realPath here target = fs.realPath other target ∧
        ∀ real, fs.realPath here target = .ok real → startsAtRoot real = true :=
      FileSystem.realPath_absolute here other hroot
    cases hd : fs.isDirectory here target with
    | false =>
      rw [changeDirectory_elsewhere ht hd, changeDirectory_elsewhere ht (hsame ▸ hd)]
      refine ⟨rfl, ?_⟩
      intro result s' h
      cases h
      exact hs
    | true =>
      rw [changeDirectory_of_directory ht hd, changeDirectory_of_directory ht (hsame ▸ hd),
        ← hreal.1]
      refine ⟨rfl, ?_⟩
      intro result s' h
      cases hr : fs.realPath here target with
      | error f =>
        rw [hr] at h
        cases h
      | ok real =>
        rw [hr] at h
        cases h
        exact hreal.2 real hr

end Session

namespace Action

variable {w : World}

theorem indifferent_cd (arguments : List String) :
    (Builtin.run arguments .cd).Indifferent := by
  intro w hw
  have hsame (dir : String) : (w.startedIn dir).session.changeDirectory (w.startedIn dir).fs
      (w.startedIn dir).processDir arguments =
        w.session.changeDirectory w.fs w.processDir arguments :=
    (Session.changeDirectory_absolute dir w.processDir hw).1
  have hrooted : ∀ result s', w.session.changeDirectory w.fs w.processDir arguments =
      .ok (result, s') → startsAtRoot s'.dir = true :=
    (Session.changeDirectory_absolute w.processDir w.processDir hw).2
  rcases w.session.changeDirectory_cases w.fs w.processDir arguments with
    ⟨f, h⟩ | ⟨dir, h⟩ | ⟨output, h⟩
  · refine ⟨.error (.fault f), w, .refl hw, fun dir => ?_⟩
    rw [Builtin.run, get_bind, hsame, h]
    rfl
  · -- The record is made in the world after the move, which has to be absolute for it.
    let session : Session := { w.session with dir }
    have hw' : ({ w with session } : World).Rooted := hrooted _ _ h
    have hlog : Indifferent (log .debug "builtins" "Changed directory"
        [("cwd", .text dir)] >>= fun _ => pure (⟨true, ""⟩ : Result)) :=
      .bind (indifferent_log _ _ _ _ _) fun _ => .pure _
    refine RunsAlike.of_eq ⟨hw', [], by simp, by simp⟩ (fun other => ?_) (hlog _ hw')
    rw [Builtin.run, get_bind, hsame, h]
    rfl
  · refine ⟨.ok ⟨false, output⟩, w, .refl hw, fun dir => ?_⟩
    rw [Builtin.run, get_bind, hsame, h]
    rfl

theorem indifferent_builtin (b : Builtin) (arguments : List String) :
    (b.run arguments).Indifferent := by
  cases b with
  | exit => exact .throw _
  | echo => exact .pure _
  | pwd => exact fun w hw => .get_bind hw (fun _ => rfl) (Indifferent.pure _ w hw)
  | cd => exact indifferent_cd arguments
  | type =>
    intro w hw
    apply RunsAlike.get_bind hw
    · intro dir
      have hfind (name : String) : (w.startedIn dir).fs.findProgram? (w.startedIn dir).processDir
          name (w.startedIn dir).session.searchDirectories =
          w.fs.findProgram? w.processDir name w.session.searchDirectories :=
        FileSystem.findProgram?_absolute dir w.processDir fun d hd =>
          Shell.startsAtRoot_of_searched hw hd
      unfold Builtins.describe
      simp only [hfind]
      rfl
    · exact Indifferent.pure _ w hw
  | added b =>
    cases b with
    | returns r => exact .pure r
    | listsArguments ok =>
      exact fun w hw => .get_bind hw (fun _ => rfl) (Indifferent.pure _ w hw)
    | raises s => exact .throw s
    | endsLoop =>
      have hstop : Indifferent (modify fun w : World => { w with running := false }) :=
        .modify (fun _ _ => rfl) (fun _ => rfl) fun _ => rfl
      exact hstop.bind fun _ => .pure _

theorem indifferent_named (name : String) (arguments : List String) :
    (Builtins.run name arguments).Indifferent := by
  intro w hw
  unfold Builtins.run
  apply RunsAlike.get_bind hw (fun _ => rfl)
  split
  · exact Indifferent.pure _ w hw
  · next b _ =>
    exact Indifferent.bind (indifferent_log _ _ _ _ _)
      (fun _ => indifferent_builtin b arguments) w hw

end Action

namespace Shell

variable {w start : World}

theorem redirectionIn_rooted (hw : w.Rooted) (c : Command) : (redirectionIn w c).Rooted := by
  intro path hp
  obtain ⟨target, -, rfl⟩ := Option.map_eq_some_iff.mp hp
  exact Path.Posix.startsAtRoot_absoluteFrom target hw

theorem indifferent_runCommand (c : Command) : (runCommand c).Indifferent := by
  intro w hw
  have hr := redirectionIn_rooted hw c
  unfold runCommand
  apply Action.RunsAlike.get_bind hw (fun _ => rfl)
  refine (Action.indifferent_prepare hr w hw).bind fun _ v hv => ?_
  apply Action.RunsAlike.get_bind hv (fun _ => rfl)
  split
  · refine (Action.indifferent_named c.name c.arguments v hv).bind fun result => ?_
    exact .bind (Action.indifferent_route result hr) fun _ => .pure none
  · exact Action.indifferent_runNamed c.name c.arguments hr v hv

theorem indifferent_executeLine (line : String) : (executeLine line).Indifferent := by
  have hline : (runLine line).Indifferent := by
    unfold runLine
    split
    · next c _ => exact indifferent_runCommand c
    · exact .throw _
  apply (Action.indifferent_log _ _ _ _ _).bind
  intro _
  apply hline.outcome.bind
  intro ended
  match ended with
  | .ok status => exact .pure status
  | .error (.failure f) =>
    apply (Action.indifferent_log _ _ _ _ _).bind
    intro _
    exact .bind (Action.indifferent_writeError _) fun _ => .pure none
  | .error (.exit e) => exact .throw _
  | .error .interrupt => exact .throw _
  | .error (.fault f) => exact .throw _

theorem indifferent_runLines (lines : List String) : (runLines lines).Indifferent := by
  induction lines with
  | nil => exact .pure 0
  | cons line rest ih =>
    unfold runLines
    split
    · exact ih
    · apply (indifferent_executeLine line).outcome.bind
      intro ended
      match ended with
      | .ok status => exact ih
      | .error (.exit e) => exact .pure _
      | .error (.failure f) => exact .throw _
      | .error .interrupt => exact .throw _
      | .error (.fault f) => exact .throw _

theorem indifferent_showPrompt : showPrompt.Indifferent := by
  intro w hw
  unfold showPrompt
  apply Action.RunsAlike.get_bind hw (fun _ => rfl)
  split
  · exact Action.indifferent_write _ w hw
  · exact Action.Indifferent.throw _ w hw

theorem indifferent_report (kind message : String) :
    (afterStop.report kind message).Indifferent := by
  apply (Action.indifferent_log _ _ _ _ _).bind
  intro _
  exact .bind (Action.indifferent_writeError _) fun _ => .pure none

theorem indifferent_answerLine (line : String) : (answerLine line).Indifferent := by
  apply (indifferent_executeLine _).outcome.bind
  intro ended
  match ended with
  | .ok status => exact .pure none
  | .error (.exit e) => exact .pure _
  | .error .interrupt => exact .bind (Action.indifferent_write _) fun _ => .pure none
  | .error (.failure f) => exact indifferent_report _ _
  | .error (.fault f) => exact indifferent_report _ _

theorem indifferent_readLoop (input : List Read) : (readLoop input).Indifferent := by
  induction input with
  | nil =>
    apply indifferent_showPrompt.bind
    intro _
    exact .bind (Action.indifferent_write _) fun _ => .pure 0
  | cons read rest ih =>
    cases read with
    | interrupt =>
      apply indifferent_showPrompt.bind
      intro _
      exact .bind (Action.indifferent_write _) fun _ => ih
    | doubleInterrupt => exact indifferent_showPrompt.bind fun _ => .throw _
    | line s =>
      apply indifferent_showPrompt.bind
      intro _
      apply (indifferent_answerLine s).bind
      intro status
      cases status with
      | some code => exact .pure code
      | none =>
        -- Whether the loop goes on is read from the world after the line, so the rest is
        -- compared from there.
        intro w hw
        apply Action.RunsAlike.get_bind hw (fun _ => rfl)
        split
        · exact ih w hw
        · exact Action.Indifferent.pure 0 w hw

theorem indifferent_run (input : List Read) : (run input).Indifferent := by
  have hrunning (running : Bool) :
      Action.Indifferent (modify fun w : World => { w with running }) :=
    .modify (fun _ _ => rfl) (fun _ => rfl) fun _ => rfl
  apply (hrunning true).bind
  intro _
  apply (indifferent_readLoop input).bind
  intro code
  apply (hrunning false).bind
  intro _
  exact .bind (Action.indifferent_log _ _ _ _ _) fun _ => .pure code

/-- The prompts of two sessions that differ in the directory of the process come one by one, in
worlds that differ in it alone. -/
theorem prompts_alike {input rest : List Read} {dir : String} {v : World} (hw : start.Rooted)
    (h : Prompts (start.startedIn dir) input v rest) :
    ∃ u, start.Continues u ∧ v = u.startedIn dir ∧
      ∀ other, Prompts (start.startedIn other) input (u.startedIn other) rest := by
  induction h with
  | first => exact ⟨start, .refl hw, rfl, fun _ => .first⟩
  | interrupt _ hrun ih =>
    obtain ⟨u, hu, rfl, hprompts⟩ := ih
    have hturn : (do showPrompt; Action.write "\n" : Action Unit).Indifferent :=
      .bind indifferent_showPrompt fun _ => Action.indifferent_write _
    obtain ⟨u', hu', rfl, hruns⟩ := (hturn u hu.rooted).of_ok hrun
    exact ⟨u', hu.trans hu', rfl, fun other => .interrupt (hprompts other) (hruns other)⟩
  | line _ hrun hrunning ih =>
    obtain ⟨u, hu, rfl, hprompts⟩ := ih
    have hturn (s : String) : (do showPrompt; answerLine s : Action (Option Int)).Indifferent :=
      .bind indifferent_showPrompt fun _ => indifferent_answerLine s
    obtain ⟨u', hu', rfl, hruns⟩ := (hturn _ u hu.rooted).of_ok hrun
    exact ⟨u', hu.trans hu', rfl, fun other => .line (hprompts other) (hruns other) hrunning⟩

/-- The paths that lines take from a world are absolute: the files of redirections, the places where
programs are looked for, the targets of `cd`, and all that a request names. -/
structure NamesAbsolutely (w : World) : Prop where
  redirections : ∀ c, (redirectionIn w c).Rooted
  places : ∀ d ∈ w.session.searchDirectories, ∀ name,
    startsAtRoot (Path.Posix.join d name) = true
  targets : ∀ argument shown target, w.session.target argument = .ok (shown, target) →
    startsAtRoot target = true
  requests : ∀ (c : Command) found,
    w.fs.findProgram? w.processDir c.name w.session.searchDirectories = some found →
      (Launch.ofCommand found c.name c.arguments (redirectionIn w c) (some w.session.dir)).Rooted

theorem namesAbsolutely (hw : w.Rooted) : NamesAbsolutely w where
  redirections c := redirectionIn_rooted hw c
  places _ hd name := Path.Posix.startsAtRoot_join name (startsAtRoot_of_searched hw hd)
  targets _ _ _ ht := Session.startsAtRoot_target hw ht
  requests c _ hf :=
    Launch.rooted_ofCommand _ _ (Action.found_rooted hw hf) (redirectionIn_rooted hw c) hw

/-- From an absolute working directory, a session and a script do the same wherever the process was
started: they end in the same way, in worlds that differ in the directory of the process alone, with
requests that name absolute paths, and come to the same prompts on the way. Every line does so
wherever the working directory is absolute, and the paths that it takes from there are. -/
theorem process_directory_never_matters (hw : w.Rooted) :
    (∀ input, (run input).RunsAlike w) ∧
    (∀ script, (runScript script).RunsAlike w) ∧
    (∀ input dir v rest, Prompts ({ w with running := true }.startedIn dir) input v rest →
      ∃ u, w.Continues u ∧ v = u.startedIn dir ∧
        ∀ other, Prompts ({ w with running := true }.startedIn other) input
          (u.startedIn other) rest) ∧
    ∀ u : World, u.Rooted → NamesAbsolutely u ∧ ∀ line, (executeLine line).RunsAlike u := by
  refine ⟨fun input => indifferent_run input w hw, ?_, ?_, ?_⟩
  · intro script
    exact indifferent_runLines (Text.pieces '\n' script) w hw
  · intro input dir v rest h
    have hstart : ({ w with running := true } : World).Rooted := hw
    obtain ⟨u, hu, hv, hprompts⟩ := prompts_alike hstart h
    exact ⟨u, ⟨hu.rooted, hu.launches⟩, hv, hprompts⟩
  · intro u hu
    exact ⟨namesAbsolutely hu, fun line => indifferent_executeLine line u hu⟩

def relativeWorld : World where
  fs := { nodes := [(["h"], .directory {}), (["bin", "h"], .directory {}),
    (["p", "bin", "h"], .file {} .empty (some { output := "a\n" }))] }
  session := { dir := "/", searchPath := some "bin", home := some (.text "h") }

/-- `cd` without an argument, a program with a relative target, and an exit: they reach the same
directory, program and file from anywhere. -/
theorem relative_names_from_anywhere :
    relativeWorld.Rooted ∧ ∃ w' : World, w'.session.dir = "/h" ∧
      w'.launches.map (·.executable) = ["/h/bin/p"] ∧
      w'.fs.contentAt ["f", "h"] = "a\n".toUTF8 ∧
      ∀ dir, run [.line "cd\n", .line "p > f\n", .line "exit 3\n"] (relativeWorld.startedIn dir) =
        .ok 3 (w'.startedIn dir) := by
  have hknown : (match run [.line "cd\n", .line "p > f\n", .line "exit 3\n"] relativeWorld with
      | .ok 3 u => decide (u.session.dir = "/h" ∧ u.launches.map (·.executable) = ["/h/bin/p"] ∧
          u.fs.contentAt ["f", "h"] = "a\n".toUTF8)
      | _ => false) = true := by decide +kernel
  have hw : relativeWorld.Rooted := by unfold World.Rooted; decide
  have hhere : relativeWorld.startedIn "/" = relativeWorld := rfl
  obtain ⟨hrun, -⟩ := process_directory_never_matters hw
  obtain ⟨result, w', -, hends⟩ := hrun [.line "cd\n", .line "p > f\n", .line "exit 3\n"]
  rw [← hhere, hends "/"] at hknown
  cases result with
  | error s => cases hknown
  | ok code =>
    dsimp only [Action.ended] at hknown
    split at hknown
    · next h =>
      cases h
      obtain ⟨hdir, hexecutable, hcontent⟩ := of_decide_eq_true hknown
      exact ⟨hw, w', hdir, hexecutable, hcontent, hends⟩
    · cases hknown

end Shell

end CommandShell
