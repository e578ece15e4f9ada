import CommandShell.Proofs.Action
import CommandShell.Proofs.ChangeDirectory
import CommandShell.Shell

/-! # Actions that do not look at the terminal

What stands on the output of the terminal is never read, nor whether the read loop goes on. An
action therefore ends in the same way whatever these are, and adds the same text to the output. -/
namespace CommandShell

def World.showing (w : World) (output : String) (running : Bool) : World :=
  { w with output, running }

def Log.Sink.SilentAt (level : Level) : Sink → Prop
  | buffer _ _ => True
  | console threshold _ | file threshold _ => ¬ threshold ≤ level

def Log.Journal.SilentAt (j : Journal) (level : Level) : Prop :=
  j.takes level = true → ∀ s ∈ j.sinks, s.SilentAt level

structure World.Keeps (w w' : World) : Prop where
  builtins : w'.builtins = w.builtins
  settings : w'.settings = w.settings
  silent : ∀ level, w.journal.SilentAt level → w'.journal.SilentAt level

namespace World

variable {w w' w'' : World}

theorem Keeps.refl (w : World) : w.Keeps w := ⟨rfl, rfl, fun _ => id⟩

theorem Keeps.trans (h : w.Keeps w') (k : w'.Keeps w'') : w.Keeps w'' :=
  ⟨k.builtins.trans h.builtins, k.settings.trans h.settings,
    fun level => k.silent level ∘ h.silent level⟩

end World

namespace Log.Journal

variable {j : Journal} {level : Level}

theorem SilentAt.keep (h : j.SilentAt level) (r : Record) : (j.keep r).SilentAt level := by
  unfold Journal.keep
  split
  · intro ht s hs
    obtain ⟨before, hbefore, rfl⟩ := List.mem_map.mp hs
    have hsilent := h ht before hbefore
    cases before <;> exact hsilent
  · exact h

theorem SilentAt.consoleLines {r : Record} (h : j.SilentAt r.level) : j.consoleLines r = [] := by
  unfold Journal.consoleLines
  split
  · next ht =>
    rw [List.filterMap_eq_nil_iff]
    intro s hs
    have hsilent := h ht s hs
    cases s with
    | console t layout => exact if_neg hsilent
    | _ => rfl
  · rfl

theorem SilentAt.write {r : Record} (h : j.SilentAt r.level) (fs : FileSystem) :
    j.write r fs = fs := by
  apply write_of_sinks
  intro ht s hs
  have hsilent := h ht s hs
  cases s with
  | file t place => exact if_neg hsilent
  | _ => rfl

end Log.Journal

namespace Action

def ended : Except Stop α → World → EStateM.Result Stop World α
  | .ok x, w => .ok x w
  | .error s, w => .error s w

/-- From `w` with any text on the output, an action ends with the result `r` in the world `w'`, and
adds a text to the output. -/
structure Prints (a : Action α) (w : World) (r : Except Stop α) (w' : World) (text : String) :
    Prop where
  runs : ∀ output running,
    a (w.showing output running) = ended r (w'.showing (output ++ text) running)
  keeps : w.Keeps w'

def Oblivious (bs : Builtins) (a : Action α) : Prop :=
  ∀ w, w.builtins = bs → ∃ r w' text, a.Prints w r w' text

variable {α β : Type} {bs : Builtins} {a b : Action α} {f : α → Action β} {w w₁ w' : World}
  {r : Except Stop α} {text : String}

theorem Prints.of_eq (h : ∀ output running, a (w.showing output running) =
    b (w₁.showing output running)) (hk : w.Keeps w₁) (hb : b.Prints w₁ r w' text) :
    a.Prints w r w' text :=
  ⟨fun output running => (h output running).trans (hb.runs output running), hk.trans hb.keeps⟩

theorem prints_pure (x : α) (w : World) : Prints (pure x) w (.ok x) w "" := by
  refine ⟨?_, .refl w⟩
  intro output running
  rw [String.append_empty]
  rfl

theorem prints_throw (s : Stop) (w : World) :
    Prints (throw s : Action α) w (.error s) w "" := by
  refine ⟨?_, .refl w⟩
  intro output running
  rw [String.append_empty]
  rfl

/-- The run of an action on one output tells what it does on every other. -/
theorem Oblivious.prints (h : a.Oblivious w.builtins) (hrun : a w = ended r w') :
    ∃ text, w'.output = w.output ++ text ∧ a.Prints w r w' text := by
  obtain ⟨r₁, w₁, text, hprints⟩ := h w rfl
  have hends : ended r w' = ended r₁ (w₁.showing (w.output ++ text) w.running) :=
    hrun.symm.trans (hprints.runs w.output w.running)
  obtain ⟨rfl, rfl⟩ : r = r₁ ∧ w' = w₁.showing (w.output ++ text) w.running := by
    cases r <;> cases r₁ <;> cases hends <;> exact ⟨rfl, rfl⟩
  refine ⟨text, rfl, hprints.runs, ?_⟩
  exact ⟨hprints.keeps.builtins, hprints.keeps.settings, hprints.keeps.silent⟩

theorem Oblivious.prints_text (h : a.Oblivious w.builtins) (hrun : a w = ended r w')
    (hout : w'.output = w.output ++ text) : a.Prints w r w' text := by
  obtain ⟨text', hout', hprints⟩ := h.prints hrun
  obtain rfl : text = text' := (String.append_right_inj _).mp (hout.symm.trans hout')
  exact hprints

theorem Oblivious.pure (x : α) : Oblivious bs (Pure.pure x) :=
  fun w _ => ⟨_, _, _, prints_pure x w⟩

theorem Oblivious.throw (s : Stop) : Oblivious bs (MonadExcept.throw s : Action α) :=
  fun w _ => ⟨_, _, _, prints_throw s w⟩

theorem Oblivious.bind (ha : a.Oblivious bs) (hf : ∀ x, (f x).Oblivious bs) :
    (a >>= f).Oblivious bs := by
  intro w hw
  obtain ⟨r, w₁, text, hrun⟩ := ha w hw
  cases r with
  | ok x =>
    obtain ⟨r, w', more, hnext⟩ := hf x w₁ (hrun.keeps.builtins.trans hw)
    refine ⟨r, w', text ++ more, ?_, hrun.keeps.trans hnext.keeps⟩
    intro output running
    rw [bind_of_ok (hrun.runs output running), hnext.runs, String.append_assoc]
  | error s =>
    refine ⟨.error s, w₁, text, ?_, hrun.keeps⟩
    intro output running
    exact bind_of_error (hrun.runs output running)

theorem Oblivious.outcome (ha : a.Oblivious bs) : (outcome a).Oblivious bs := by
  intro w hw
  obtain ⟨r, w', text, hrun⟩ := ha w hw
  refine ⟨.ok r, w', text, ?_, hrun.keeps⟩
  intro output running
  rw [Action.outcome, hrun.runs output running]
  cases r <;> rfl

theorem Prints.get_bind {f : World → Action β} {c : Action β} {last : Except Stop β}
    (h : ∀ output running, f (w.showing output running) (w.showing output running) =
      c (w₁.showing output running)) (hk : w.Keeps w₁) (hc : c.Prints w₁ last w' text) :
    (get >>= f).Prints w last w' text :=
  .of_eq h hk hc

theorem Oblivious.get_bind {f : World → Action β}
    (blind : ∀ w output running, f (w.showing output running) = f w)
    (h : ∀ w, w.builtins = bs → (f w).Oblivious bs) : (get >>= f).Oblivious bs := by
  intro w hw
  obtain ⟨r, w', text, hrun⟩ := h w hw w hw
  refine ⟨r, w', text, .get_bind ?_ (.refl w) hrun⟩
  intro output running
  exact congrFun (blind w output running) _

theorem Oblivious.modify {g : World → World}
    (blind : ∀ w output running, g (w.showing output running) = (g w).showing output running)
    (hk : ∀ w : World, w.Keeps (g w)) : Oblivious bs (modify g) := by
  intro w _
  refine ⟨.ok ⟨⟩, g w, "", .of_eq ?_ (hk w) (prints_pure PUnit.unit (g w))⟩
  intro output running
  exact congrArg (EStateM.Result.ok PUnit.unit) (blind w output running)

theorem oblivious_write (s : String) : (write s).Oblivious bs :=
  fun w _ => ⟨.ok (), w, s, fun _ _ => rfl, .refl w⟩

theorem oblivious_writeError (s : String) : (writeError s).Oblivious bs :=
  .modify (fun _ _ _ => rfl) fun _ => ⟨rfl, rfl, fun _ => id⟩

theorem oblivious_log (level : Log.Level) (origin message : String) (details : Members)
    (cause : Option Log.Cause) : (log level origin message details cause).Oblivious bs :=
  .modify (fun _ _ _ => rfl) fun _ => ⟨rfl, rfl, fun _ h => h.keep _⟩

theorem oblivious_writeAt (place : Location) (s : String) :
    (Output.writeAt place s).Oblivious bs :=
  .modify (fun _ _ _ => rfl) fun _ => ⟨rfl, rfl, fun _ => id⟩

theorem oblivious_openTarget (path : String) (append : Bool) :
    (Output.openTarget path append).Oblivious bs := by
  intro w _
  cases ho : w.fs.openForWriting w.processDir path append with
  | ok p =>
    have hkeeps : w.Keeps { w with fs := p.2 } := ⟨rfl, rfl, fun _ => id⟩
    refine ⟨_, _, _, .get_bind ?_ hkeeps (prints_pure p.1 _)⟩
    intro output running
    dsimp only [World.showing]
    rw [ho]
    rfl
  | error f =>
    by_cases hsystem : ∃ e p, f = .system e p
    · obtain ⟨e, p, rfl⟩ := hsystem
      let refusal : Stop := .failure { cause := .unwritableTarget path e.text }
      refine ⟨_, _, _, .get_bind ?_ (.refl w) (prints_throw refusal w)⟩
      intro output running
      dsimp only [World.showing]
      rw [ho]
    · refine ⟨_, _, _, .get_bind ?_ (.refl w) (prints_throw (.fault f) w)⟩
      intro output running
      dsimp only [World.showing]
      rw [ho]
      cases f with
      | system e p => exact absurd ⟨e, p, rfl⟩ hsystem
      | _ => rfl

theorem oblivious_prepare (r : Line.Redirection) : (Output.prepare r).Oblivious bs := by
  unfold Output.prepare
  split
  · exact .bind (oblivious_openTarget _ _) fun _ => .pure ()
  · exact .pure ()

theorem oblivious_showOn (r : Line.Redirection) (s : String) :
    (Output.showOn r s).Oblivious bs := by
  unfold Output.showOn
  split
  · exact oblivious_writeError _
  · exact oblivious_write _

theorem oblivious_route (result : Result) (r : Line.Redirection) :
    (Output.route result r).Oblivious bs := by
  unfold Output.route
  split
  · exact .pure ()
  split
  · next path _ _ =>
    have hwrite : (Output.writeTarget path r.append result.output).Oblivious bs :=
      .bind (oblivious_openTarget _ _) fun place => oblivious_writeAt place _
    apply hwrite.outcome.bind
    intro ended
    match ended with
    | .ok () => exact .pure ()
    | .error (.failure f) =>
      apply (oblivious_log _ _ _ _ _).bind
      intro _
      exact .bind (oblivious_writeError _) fun _ => oblivious_showOn r _
    | .error (.exit e) => exact .throw _
    | .error .interrupt => exact .throw _
    | .error (.fault f) => exact .throw _
  · exact oblivious_showOn r _

theorem oblivious_openWiring (wiring : Wiring) : (Launch.openWiring wiring).Oblivious bs := by
  unfold Launch.openWiring
  split
  · exact .pure none
  · exact .bind (oblivious_openTarget _ _) fun place => .pure (some place)
  · exact .throw _

theorem oblivious_emit (place : Option Location) {terminal : String → Action Unit}
    (h : ∀ s, (terminal s).Oblivious bs) (s : String) :
    (Launch.emit place terminal s).Oblivious bs := by
  cases place with
  | some l => exact oblivious_writeAt l s
  | none => exact h s

theorem oblivious_launch (request : Launch) : request.run.Oblivious bs := by
  unfold Launch.run
  have hrecorded : Oblivious bs (modify fun w : World =>
      { w with launches := w.launches ++ [request] }) :=
    .modify (fun _ _ _ => rfl) fun _ => ⟨rfl, rfl, fun _ => id⟩
  apply hrecorded.bind
  intro _
  apply (oblivious_openWiring request.output).bind
  intro output
  apply (oblivious_openWiring request.error).bind
  intro error
  apply Oblivious.get_bind (fun _ _ _ => rfl)
  intro w _
  split
  · exact .throw _
  · next program _ =>
    apply (oblivious_emit output oblivious_write _).bind
    intro _
    apply (oblivious_emit error oblivious_writeError _).bind
    intro _
    split
    · exact .throw _
    · exact .pure _

theorem oblivious_runNamed (name : String) (arguments : List String) (r : Line.Redirection) :
    (Launch.runNamed name arguments r).Oblivious bs := by
  unfold Launch.runNamed
  apply Oblivious.get_bind (fun _ _ _ => rfl)
  intro w _
  split
  · apply (oblivious_log _ _ _ _ _).bind
    intro _
    exact .bind (oblivious_write _) fun _ => .pure none
  · apply (oblivious_log _ _ _ _ _).bind
    intro _
    apply (oblivious_launch _).bind
    intro status
    exact .bind (oblivious_log _ _ _ _ _) fun _ => .pure (some status)

theorem oblivious_cd (arguments : List String) : (Builtin.run arguments .cd).Oblivious bs := by
  intro w hw
  -- The session is set in the world that was read, so the world of each case is given as a whole.
  rcases w.session.changeDirectory_cases w.fs w.processDir arguments with
    ⟨f, h⟩ | ⟨dir, h⟩ | ⟨output, h⟩
  · refine ⟨_, _, _, .get_bind ?_ (.refl w) (prints_throw (.fault f) w)⟩
    intro output running
    dsimp only [World.showing]
    rw [h]
    rfl
  · let session : Session := { w.session with dir }
    have hlog : Oblivious bs (log .debug "builtins" "Changed directory"
        [("cwd", .text dir)] >>= fun _ => pure (⟨true, ""⟩ : Result)) :=
      .bind (oblivious_log _ _ _ _ _) fun _ => .pure _
    obtain ⟨r, w', text, hprints⟩ := hlog { w with session } hw
    have hkeeps : w.Keeps { w with session } := ⟨rfl, rfl, fun _ => id⟩
    refine ⟨r, w', text, .get_bind ?_ hkeeps hprints⟩
    intro output running
    dsimp only [World.showing]
    rw [h]
    rfl
  · refine ⟨_, _, _, .get_bind ?_ (.refl w) (prints_pure ⟨false, output⟩ w)⟩
    intro output running
    dsimp only [World.showing]
    rw [h]
    rfl

/-- Built-in commands do not look at the terminal, and those that do not end the read loop leave it
running. -/
theorem oblivious_builtin {b : Builtin} (hb : b ≠ .added .endsLoop) (arguments : List String) :
    (b.run arguments).Oblivious bs := by
  cases b with
  | exit => exact .throw _
  | echo => exact .pure _
  | pwd => exact .get_bind (fun _ _ _ => rfl) fun w _ => .pure _
  | cd => exact oblivious_cd arguments
  | type => exact .get_bind (fun _ _ _ => rfl) fun w _ => .pure _
  | added b =>
    cases b with
    | returns r => exact .pure r
    | listsArguments ok => exact .get_bind (fun _ _ _ => rfl) fun w _ => .pure _
    | raises s => exact .throw s
    | endsLoop => exact absurd rfl hb

end Action

namespace Shell

variable {bs : Builtins}

theorem oblivious_named (hbs : ∀ name, bs.get? name ≠ some (.added .endsLoop)) (name : String)
    (arguments : List String) : (Builtins.run name arguments).Oblivious bs := by
  unfold Builtins.run
  apply Action.Oblivious.get_bind (fun _ _ _ => rfl)
  intro w hw
  rw [hw]
  split
  · exact .pure _
  · next b hb =>
    have hne : b ≠ .added .endsLoop := by
      rintro rfl
      exact hbs name hb
    exact .bind (Action.oblivious_log _ _ _ _ _) fun _ => Action.oblivious_builtin hne arguments

theorem oblivious_runCommand (hbs : ∀ name, bs.get? name ≠ some (.added .endsLoop))
    (c : Line.Command) : (runCommand c).Oblivious bs := by
  unfold runCommand
  apply Action.Oblivious.get_bind (fun _ _ _ => rfl)
  intro w _
  apply (Action.oblivious_prepare _).bind
  intro _
  apply Action.Oblivious.get_bind (fun _ _ _ => rfl)
  intro w _
  split
  · apply (oblivious_named hbs c.name c.arguments).bind
    intro result
    exact .bind (Action.oblivious_route result _) fun _ => .pure none
  · exact Action.oblivious_runNamed c.name c.arguments _

/-- A line ends in the same way whatever stands on the terminal, if no command ends the read
loop. -/
theorem oblivious_executeLine (hbs : ∀ name, bs.get? name ≠ some (.added .endsLoop))
    (line : String) : (executeLine line).Oblivious bs := by
  have hline : (runLine line).Oblivious bs := by
    unfold runLine
    split
    · next c _ => exact oblivious_runCommand hbs c
    · exact .throw _
  apply (Action.oblivious_log _ _ _ _ _).bind
  intro _
  apply hline.outcome.bind
  intro ended
  match ended with
  | .ok status => exact .pure status
  | .error (.failure f) =>
    apply (Action.oblivious_log _ _ _ _ _).bind
    intro _
    exact .bind (Action.oblivious_writeError _) fun _ => .pure none
  | .error (.exit e) => exact .throw _
  | .error .interrupt => exact .throw _
  | .error (.fault f) => exact .throw _

end Shell

end CommandShell
