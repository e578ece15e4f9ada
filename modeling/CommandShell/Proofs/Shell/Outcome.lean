import CommandShell.Proofs.Delivery
import CommandShell.Proofs.Shell.Line

/-! # What a line does

What a command comes to can be told from the world in which it starts, where its redirection is
open: how it ends, which text it has for which place, and what else becomes of the world. Running
the command gives just that, and so does running a line, which reports a failure besides. -/
namespace CommandShell

open FileSystem (SameNodes)
open Line (Command Redirection)

/-- What a command comes to; the text is yet to be delivered in the world. -/
structure Outcome where
  result : Except Stop (Option Int)
  text : Portions := {}
  world : World

namespace Builtin

def answer (b : Builtin) (w : World) (arguments : List String) : Except Stop Result :=
  match b with
  | exit => .error (.exit (.ofArguments arguments))
  | echo => .ok ⟨true, Text.joined " " arguments⟩
  | pwd => .ok ⟨true, w.session.dir⟩
  | cd =>
    match w.session.changeDirectory w.fs w.processDir arguments with
    | .ok (result, _) => .ok result
    | .error f => .error (.fault f)
  | type => .ok (w.builtins.describe w.fs w.processDir w.session arguments)
  | added (.returns result) => .ok result
  | added (.listsArguments ok) => .ok ⟨ok, w.session.dir ++ ":" ++ Text.joined "," arguments⟩
  | added (.raises s) => .error s
  | added .endsLoop => .ok ⟨true, ""⟩

def leaves (b : Builtin) (w : World) (arguments : List String) : World :=
  match b with
  | cd =>
    match w.session.changeDirectory w.fs w.processDir arguments with
    | .ok (_, session) => { w with session }
    | .error _ => w
  | added .endsLoop => { w with running := false }
  | _ => w

end Builtin

namespace Launch

def ending (request : Launch) (fs : FileSystem) (processDir : String) : Except Stop Int :=
  match request.program fs processDir with
  | .ok program => if program.interrupts then .error .interrupt else .ok program.status
  | .error f => .error (request.refusal f)

def written (request : Launch) (fs : FileSystem) (processDir : String) (r : Redirection) :
    Portions :=
  match request.program fs processDir with
  | .ok program => request.portions program r
  | .error _ => {}

end Launch

namespace Outcome

def ofBuiltin (w : World) (r : Redirection) (b : Builtin) (arguments : List String) : Outcome :=
  match b.answer w arguments with
  | .ok result => ⟨.ok none, result.portions r, b.leaves w arguments⟩
  | .error s => ⟨.error s, {}, b.leaves w arguments⟩

def ofLaunch (w : World) (r : Redirection) (request : Launch) : Outcome :=
  ⟨(request.ending w.fs w.processDir).map some, request.written w.fs w.processDir r,
    { w with launches := w.launches ++ [request] }⟩

def ofName (w : World) (r : Redirection) (name : String) (arguments : List String) : Outcome :=
  match w.fs.findProgram? w.processDir name w.session.searchDirectories with
  | some found => ofLaunch w r (.ofCommand found name arguments r (some w.session.dir))
  | none => ⟨.ok none, { output := name ++ ": command not found\n" }, w⟩

def ofCommand (w : World) (c : Command) (r : Redirection) : Outcome :=
  match w.builtins.get? c.name with
  | some b => ofBuiltin w r b c.arguments
  | none => ofName w r c.name c.arguments

def reported (o : Outcome) : Outcome :=
  match o.result with
  | .error (.failure f) =>
    { o with
      result := .ok none
      text := { o.text with error := o.text.error ++ (f.message ++ "\n") } }
  | _ => o

theorem reported_of_failure {o : Outcome} {f : Failure} (h : o.result = .error (.failure f)) :
    o.reported =
      ⟨.ok none, { o.text with error := o.text.error ++ (f.message ++ "\n") }, o.world⟩ := by
  unfold reported
  rw [h]

theorem reported_of_not_failure {o : Outcome} (h : ∀ f, o.result ≠ .error (.failure f)) :
    o.reported = o := by
  unfold reported
  split
  · next f hf => exact absurd hf (h f)
  · rfl

end Outcome

variable {away : List Location} {w w₁ : World} {r : Redirection} {l : Option Location}

namespace Builtin

theorem answer_steady {w' : World} (h : w.Steady w') (b : Builtin) (arguments : List String) :
    b.answer w' arguments = b.answer w arguments := by
  have hd : w'.builtins.describe w'.fs w'.processDir w'.session arguments =
      w.builtins.describe w.fs w.processDir w.session arguments := by
    rw [h.builtins, h.processDir, h.session]
    unfold Builtins.describe
    simp only [h.fs.findProgram?]
  unfold answer
  rw [h.changeDirectory, hd, h.session]

theorem gives_cd (arguments : List String) :
    (cd.run arguments).Gives away w (cd.answer w arguments) (cd.leaves w arguments) := by
  unfold run
  apply Action.Gives.get_bind
  intro v hv
  rw [hv.steady.changeDirectory]
  simp only [answer, leaves]
  rcases w.session.changeDirectory_cases w.fs w.processDir arguments with
    ⟨f, h⟩ | ⟨dir, h⟩ | ⟨output, h⟩
  · rw [h]
    exact Action.Gives.throw.bind_stop
  · rw [h]
    simp only [Action.ofExcept, pure_bind, if_true]
    have hset : World.Alike away { w with session := { w.session with dir } }
        { v with session := { w.session with dir } } := { hv with session := rfl }
    exact .set_bind hset ((Action.gives_log _ _ _ _ _).bind .pure)
  · rw [h]
    simp only [Action.ofExcept, pure_bind]
    exact .pure

theorem gives_run (b : Builtin) (arguments : List String) :
    (b.run arguments).Gives away w (b.answer w arguments) (b.leaves w arguments) := by
  cases b with
  | exit => exact .throw
  | echo => exact .pure
  | pwd =>
    apply Action.Gives.get_bind
    intro v hv
    rw [hv.session]
    exact .pure
  | cd => exact gives_cd arguments
  | type =>
    apply Action.Gives.get_bind
    intro v hv
    have ha := answer_steady hv.steady type arguments
    simp only [answer, Except.ok.injEq] at ha
    rw [ha]
    exact .pure
  | added b =>
    cases b with
    | returns result => exact .pure
    | listsArguments ok =>
      apply Action.Gives.get_bind
      intro v hv
      rw [hv.session]
      exact .pure
    | raises s => exact .throw
    | endsLoop =>
      have hs : (modify fun w => { w with running := false } : Action PUnit).Gives away w (.ok ⟨⟩)
          { w with running := false } :=
        .modify fun v hv => { hv with running := rfl }
      exact hs.bind .pure

theorem gives_run_named {name : String} {b : Builtin} (arguments : List String)
    (hb : w.builtins.get? name = some b) :
    (Builtins.run name arguments).Gives away w (b.answer w arguments) (b.leaves w arguments) := by
  unfold Builtins.run
  apply Action.Gives.get_bind
  intro v hv
  rw [hv.builtins, hb]
  exact (Action.gives_log _ _ _ _ _).bind (b.gives_run arguments)

/-- Of the world a built-in command changes at most the session and whether the loop goes on. -/
theorem leaves_eq (b : Builtin) (w : World) (arguments : List String) :
    b.leaves w arguments = { w with
      session := (b.leaves w arguments).session
      running := (b.leaves w arguments).running } := by
  unfold leaves
  split
  · split
    · rfl
    · rfl
  · rfl
  · rfl

end Builtin

/-- An action that writes nothing leaves a redirection as open as it was. -/
theorem Action.Gives.undelivered {a : Action α} {res : Except Stop α}
    (ha : a.Gives away w res w₁) (h : r.IsOpen w₁.fs w₁.processDir l) :
    a.Gives away w res (w₁.delivered r l {}) := by
  apply ha.to
  intro v hv
  exact hv.delivered (fun k => (h.opened k).symm) String.append_empty.symm
    String.append_empty.symm

theorem Outcome.gives_builtin {name : String} {b : Builtin} (arguments : List String)
    (hb : w.builtins.get? name = some b) (h : r.IsOpen w.fs w.processDir l) :
    (do let result ← Builtins.run name arguments
        Output.route result r
        return none : Action (Option Int)).Gives away w (ofBuiltin w r b arguments).result
      ((ofBuiltin w r b arguments).world.delivered r l (ofBuiltin w r b arguments).text) := by
  have hrun : (Builtins.run name arguments).Gives away w (b.answer w arguments)
      (b.leaves w arguments) := Builtin.gives_run_named arguments hb
  have hopen : r.IsOpen (b.leaves w arguments).fs (b.leaves w arguments).processDir l := by
    rw [b.leaves_eq w arguments]
    exact h
  unfold ofBuiltin
  cases hanswer : b.answer w arguments with
  | ok result =>
    rw [hanswer] at hrun
    exact hrun.bind ((Output.gives_route result hopen).bind .pure)
  | error s =>
    rw [hanswer] at hrun
    exact hrun.bind_stop.undelivered hopen

/-- What is added at the end of an open target is received by it. -/
theorem Line.Redirection.IsOpen.node?_append {fs : FileSystem} {processDir : String}
    {place : Location} (h : r.IsOpen fs processDir (some place)) (text : String) (k : Location) :
    (fs.append place text.toUTF8).node? k =
      (fs.receivingAt r.append (some place) text).node? k := by
  have hagree : FileSystem.AgreesOff [] (fs.receivingAt r.append (some place) "") fs :=
    .of_eq fun k => (h.opened k).symm
  rw [hagree.append place text.toUTF8 k List.not_mem_nil]
  simp only [FileSystem.receivingAt, FileSystem.receiving]
  rw [FileSystem.node?_append_holding _ h.aims.free_or_file]
  simp

namespace Launch

variable {request : Launch} {found : Found} {name : String} {arguments : List String}
  {dir : Option String} {place : Location} {program : Program}

theorem program_sameNodes {a b : FileSystem} (h : SameNodes a b) (processDir : String) :
    request.program b processDir = request.program a processDir := by
  unfold program checkDirectory
  simp only [h.locate, h.obstacle?]
  cases a.locate processDir request.executable with
  | error f => rfl
  | ok l =>
    simp only [bind, Except.bind]
    rcases h.node?_cases l with ⟨ha, hb⟩ | ⟨m, n, ha, hb, he⟩
    · rw [ha, hb]
    · rw [ha, hb]
      cases m <;> cases n <;> simp_all [Node.bare]

theorem ofCommand_wirings (found : Found) (name : String) (arguments : List String)
    (r : Redirection) (dir : Option String) :
    let request := ofCommand found name arguments r dir
    (r.isActive = false ∧ request.output = .inherited ∧ request.error = .inherited) ∨
      (r.isActive = true ∧ r.channel = .error ∧ request.output = .inherited ∧
        request.error = .toFile r.target r.append) ∨
      (r.isActive = true ∧ r.channel ≠ .error ∧ request.output = .toFile r.target r.append ∧
        request.error = .inherited) := by
  unfold ofCommand Redirection.namesError
  cases ha : r.isActive with
  | false => exact .inl ⟨rfl, rfl, rfl⟩
  | true =>
    by_cases hc : r.channel = .error
    · exact .inr (.inl ⟨rfl, hc, by simp [hc], by simp [hc]⟩)
    · exact .inr (.inr ⟨rfl, hc, by simp [hc], by simp [hc]⟩)

theorem gives_openWiring (h : r.IsOpen w.fs w.processDir (some place)) :
    (openWiring (.toFile r.target r.append)).Gives away w (.ok (some place)) w := by
  obtain ⟨haims, ho⟩ := h
  cases haims with
  | @file path _ _ ht hw =>
    have hopen : openWiring (.toFile r.target r.append) =
        Output.openTarget path r.append >>= fun place => pure (some place) := by
      rw [ht, openWiring, map_eq_pure_bind]
    rw [hopen]
    exact (Output.gives_reopen hw ho).bind .pure

variable (away) in
theorem gives_emit (hr : request = ofCommand found name arguments r dir)
    (h : r.IsOpen w.fs w.processDir l) : ∃ output error,
      (openWiring request.output).Gives away w (.ok output) w ∧
      (openWiring request.error).Gives away w (.ok error) w ∧
      ∀ program, ∃ w₁,
        (emit output Action.write (request.outputOf program)).Gives away w (.ok ()) w₁ ∧
        (emit error Action.writeError program.diagnostics).Gives away w₁ (.ok ())
          (w.delivered r l (request.portions program r)) := by
  rcases hr ▸ ofCommand_wirings found name arguments r dir with
    ⟨ha, ho, he⟩ | ⟨ha, hc, ho, he⟩ | ⟨ha, hc, ho, he⟩
  · rw [ho, he]
    refine ⟨none, none, .pure, .pure, fun program => ⟨_, Action.gives_write _, ?_⟩⟩
    apply (Action.gives_writeError _).to
    intro v hv
    simp only [portions, ha, if_true]
    exact World.Alike.delivered (w := w) hv (fun k => (h.opened k).symm) rfl
      (World.texts_append w _)
  · rw [ho, he]
    obtain ⟨place, rfl⟩ := h.aims.exists_place ha
    refine ⟨none, some place, .pure, gives_openWiring h,
      fun program => ⟨_, Action.gives_write _, ?_⟩⟩
    apply (Output.gives_writeAt place _).to
    intro v hv
    simp only [portions, ha, hc, Bool.true_eq_false, if_false, if_true]
    exact World.Alike.delivered (w := w) hv (h.node?_append program.diagnostics) rfl
      String.append_empty.symm
  · rw [ho, he]
    obtain ⟨place, rfl⟩ := h.aims.exists_place ha
    refine ⟨some place, none, gives_openWiring h, .pure,
      fun program => ⟨_, Output.gives_writeAt place _, ?_⟩⟩
    apply (Action.gives_writeError _).to
    intro v hv
    simp only [portions, ha, hc, Bool.true_eq_false, if_false]
    exact World.Alike.delivered (w := w) hv (h.node?_append (request.outputOf program))
      String.append_empty.symm (World.texts_append w _)

theorem gives_run (hr : request = ofCommand found name arguments r dir)
    (h : r.IsOpen w.fs w.processDir l) :
    request.run.Gives away w (request.ending w.fs w.processDir)
      (World.delivered { w with launches := w.launches ++ [request] } r l
        (request.written w.fs w.processDir r)) := by
  have hlaunch : (modify fun w => { w with launches := w.launches ++ [request] } :
      Action PUnit).Gives away w (.ok ⟨⟩) { w with launches := w.launches ++ [request] } :=
    .modify fun v hv => { hv with launches := by rw [hv.launches] }
  have hopen : r.IsOpen ({ w with launches := w.launches ++ [request] } : World).fs
      ({ w with launches := w.launches ++ [request] } : World).processDir l := h
  obtain ⟨output, error, houtput, herror, hemit⟩ := gives_emit away hr hopen
  unfold run
  refine hlaunch.bind (houtput.bind (herror.bind (.get_bind ?_)))
  intro v hv
  rw [hv.processDir, program_sameNodes hv.nodes]
  unfold ending written
  cases hp : request.program w.fs w.processDir with
  | error f => exact Action.Gives.throw.undelivered hopen
  | ok program =>
    obtain ⟨w₁, hout, herr⟩ := hemit program
    refine hout.bind (herr.bind ?_)
    dsimp only
    cases program.interrupts with
    | true => exact Action.Gives.throw.bind_stop
    | false => exact .pure

end Launch

theorem Outcome.gives_named {name : String} (arguments : List String)
    (h : r.IsOpen w.fs w.processDir l) :
    (Launch.runNamed name arguments r).Gives away w (ofName w r name arguments).result
      ((ofName w r name arguments).world.delivered r l (ofName w r name arguments).text) := by
  unfold Launch.runNamed ofName
  apply Action.Gives.get_bind
  intro v hv
  rw [Launch.findProgram?_steady hv.steady, hv.session]
  cases w.fs.findProgram? w.processDir name w.session.searchDirectories with
  | none =>
    have hsay : (Action.say (name ++ ": command not found")).Gives away w (.ok ())
        (w.delivered r l { output := name ++ ": command not found\n" }) := by
      apply (Action.gives_say _).to
      intro v hv
      refine World.Alike.delivered (w := w) hv (fun k => (h.opened k).symm) ?_
        String.append_empty.symm
      rw [String.append_assoc]
      rfl
    exact (Action.gives_log _ _ _ _ _).bind (hsay.bind .pure)
  | some found =>
    refine (Action.gives_log _ _ _ _ _).bind ?_
    obtain ⟨request, hr⟩ : ∃ request, request =
        Launch.ofCommand found name arguments r (some w.session.dir) := ⟨_, rfl⟩
    have hrun : request.run.Gives away w (request.ending w.fs w.processDir)
        (World.delivered { w with launches := w.launches ++ [request] } r l
          (request.written w.fs w.processDir r)) := Launch.gives_run hr h
    simp only [← hr, ofLaunch]
    cases hend : request.ending w.fs w.processDir with
    | ok status =>
      rw [hend] at hrun
      exact hrun.bind ((Action.gives_log _ _ _ _ _).bind .pure)
    | error s =>
      rw [hend] at hrun
      exact hrun.bind_stop

/-- What a command changes of the world besides the places of its text. -/
theorem Outcome.ofCommand_world (w : World) (c : Command) (r : Redirection) :
    (ofCommand w c r).world = { w with
      session := (ofCommand w c r).world.session
      running := (ofCommand w c r).world.running
      launches := (ofCommand w c r).world.launches } := by
  unfold ofCommand
  cases w.builtins.get? c.name with
  | some b =>
    have hleaves := b.leaves_eq w c.arguments
    simp only [ofBuiltin]
    cases b.answer w c.arguments with
    | ok result => rw [hleaves]
    | error s => rw [hleaves]
  | none =>
    simp only [ofName]
    cases w.fs.findProgram? w.processDir c.name w.session.searchDirectories with
    | some found => rfl
    | none => rfl

theorem Outcome.reported_world (o : Outcome) : o.reported.world = o.world := by
  unfold reported
  split
  · rfl
  · rfl

namespace Shell

theorem gives_runCommand {c : Command} (h : (redirectionIn w c).Aims w.fs w.processDir l) :
    let o := Outcome.ofCommand (w.prepared (redirectionIn w c) l) c (redirectionIn w c)
    (runCommand c).Gives away w o.result (o.world.delivered (redirectionIn w c) l o.text) := by
  intro o
  have hopen := h.isOpen
  have ho : o = Outcome.ofCommand (w.prepared (redirectionIn w c) l) c (redirectionIn w c) := rfl
  unfold runCommand
  apply Action.Gives.get_bind
  intro v hv
  rw [hv.session]
  refine (Output.gives_prepare h).bind (.get_bind ?_)
  intro v' hv'
  unfold Outcome.ofCommand at ho
  unfold Builtins.has
  rw [hv'.builtins]
  cases hb : (w.prepared (redirectionIn w c) l).builtins.get? c.name with
  | some b =>
    rw [hb] at ho
    rw [ho]
    exact Outcome.gives_builtin c.arguments hb hopen
  | none =>
    rw [hb] at ho
    rw [ho]
    exact Outcome.gives_named c.arguments hopen

/-- What a command of a line comes to if its redirection is opened at a location, or nowhere. -/
def outcome (w : World) (c : Command) (l : Option Location) : Outcome :=
  (Outcome.ofCommand (w.prepared (redirectionIn w c) l) c (redirectionIn w c)).reported

theorem outcome_world (w : World) (c : Command) (l : Option Location) :
    (outcome w c l).world = { w.prepared (redirectionIn w c) l with
      session := (outcome w c l).world.session
      running := (outcome w c l).world.running
      launches := (outcome w c l).world.launches } := by
  unfold outcome
  rw [Outcome.reported_world]
  exact Outcome.ofCommand_world _ c _

/-- Running a line gives the outcome of its command if the redirection can be opened. -/
theorem gives_executeLine {line : String} {c : Command} (hc : Command.ofLine line = .ok c)
    (h : (redirectionIn w c).Aims w.fs w.processDir l) :
    (executeLine line).Gives away w (outcome w c l).result
      ((outcome w c l).world.delivered (redirectionIn w c) l (outcome w c l).text) := by
  obtain ⟨o', ho'⟩ : ∃ o', o' =
      Outcome.ofCommand (w.prepared (redirectionIn w c) l) c (redirectionIn w c) := ⟨_, rfl⟩
  have hrun : (runCommand c).Gives away w o'.result
      (o'.world.delivered (redirectionIn w c) l o'.text) := ho' ▸ gives_runCommand h
  have ho : outcome w c l = o'.reported := by rw [outcome, ho']
  unfold executeLine
  rw [runLine_ok hc]
  refine (Action.gives_log _ _ _ _ _).bind (hrun.outcome_bind ?_)
  rw [ho]
  cases hres : o'.result with
  | ok status =>
    rw [Outcome.reported_of_not_failure (by simp [hres]), hres]
    exact .pure
  | error s =>
    cases s with
    | failure f =>
      rw [Outcome.reported_of_failure hres]
      exact (Action.gives_log _ _ _ _ _).bind
        ((Output.gives_complain_delivered o'.text f.message).bind .pure)
    | _ =>
      rw [Outcome.reported_of_not_failure (by simp [hres]), hres]
      exact .throw

theorem gives_runLine_stopped {line : String} {c : Command} {s : Stop}
    (hc : Command.ofLine line = .ok c)
    (h : (Output.prepare (redirectionIn w c)).Gives away w (.error s) w) :
    (runLine line).Gives away w (.error s) w := by
  rw [runLine_ok hc]
  unfold runCommand
  apply Action.Gives.get_bind
  intro v hv
  rw [hv.session]
  exact h.bind_stop

/-- A line that fails before anything is done has no effect but for one message. -/
theorem gives_executeLine_failed {line : String} {f : Failure}
    (h : (runLine line).Gives away w (.error (.failure f)) w) :
    (executeLine line).Gives away w (.ok none)
      { w with notices := w.notices ++ [.text (f.message ++ "\n")] } := by
  unfold executeLine
  exact (Action.gives_log _ _ _ _ _).bind (h.outcome_bind ((Action.gives_log _ _ _ _ _).bind
    ((Action.gives_complain f.message).bind .pure)))

variable (away) in
theorem gives_executeLine_abandoned {line : String}
    (h : ∀ c, Command.ofLine line = .ok c → ¬ Opens w c) :
    ∃ res error, (res = .ok none ∨ res = .error (.fault .nulCharacter)) ∧
      (executeLine line).Gives away w res { w with notices := w.notices ++ [.text error] } := by
  have hstop : ∃ s, ((∃ f, s = .failure f) ∨ s = .fault .nulCharacter) ∧
      (runLine line).Gives away w (.error s) w := by
    cases hc : Command.ofLine line with
    | error f =>
      rw [runLine_error hc]
      exact ⟨_, .inl ⟨f, rfl⟩, .throw⟩
    | ok c =>
      obtain ⟨s, hs, hprepare⟩ := Output.gives_prepare_stopped away (h c hc)
      exact ⟨s, hs, gives_runLine_stopped hc hprepare⟩
  obtain ⟨s, ⟨f, rfl⟩ | rfl, hrun⟩ := hstop
  · exact ⟨.ok none, f.message ++ "\n", .inl rfl, gives_executeLine_failed hrun⟩
  · unfold executeLine
    refine ⟨.error (.fault .nulCharacter), "", .inr rfl, (Action.gives_log _ _ _ _ _).bind
      (hrun.outcome_bind ?_)⟩
    apply Action.Gives.throw.to
    intro v hv
    refine { hv with texts := ?_ }
    rw [World.texts_append, String.append_empty]
    exact hv.texts

end Shell

end CommandShell
