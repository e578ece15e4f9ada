import CommandShell.Proofs.Shell.Outcome

/-! # Opening a target twice

A line opens the target of its redirection before its command runs, and opens it again for what the
command writes. The second time the whole lookup is made anew, in a file system that the first time
has changed and perhaps after a change of directory; still it cannot fail. So it makes no difference
to any line what is done where it fails, and a target is refused before the command runs or not at
all. -/
namespace CommandShell

open Line (Command Redirection)

/-- What is done where a target cannot be opened the second time, and where a result cannot be
written to it. -/
structure Recourse where
  opening : String → Bool → Stop → Action Location
  writing : Result → Redirection → Failure → Action Unit

namespace Recourse

def usual : Recourse where
  opening _ _ s := throw s
  writing result r f := do
    Action.log .error "output" f.message f.details
    Action.complain f.message
    Output.showOn r result.output

variable (h : Recourse)

def openTarget (path : String) (append : Bool) : Action Location := do
  match ← (Output.openTarget path append).outcome with
  | .ok place => return place
  | .error s => h.opening path append s

def writeTarget (path : String) (append : Bool) (text : String) : Action Unit := do
  let place ← h.openTarget path append
  Output.writeAt place (text ++ "\n")

def route (result : Result) (r : Redirection) : Action Unit := do
  if result.ok && result.output == "" then return ()
  match Output.captures r result, r.target with
  | true, some path =>
    match ← (h.writeTarget path r.append result.output).outcome with
    | .ok () => return ()
    | .error (.failure f) => h.writing result r f
    | .error s => throw s
  | _, _ => Output.showOn r result.output

def openWiring : Wiring → Action (Option Location)
  | .inherited => return none
  | .toFile (some path) append => some <$> h.openTarget path append
  | .toFile none _ => throw (.fault .wrongKind)

def launch (request : Launch) : Action Int := do
  modify fun w => { w with launches := w.launches ++ [request] }
  let output ← h.openWiring request.output
  let error ← h.openWiring request.error
  let w ← get
  match request.program w.fs w.processDir with
  | .error f => throw (request.refusal f)
  | .ok program =>
    Launch.emit output Action.write (request.outputOf program)
    Launch.emit error Action.writeError program.diagnostics
    if program.interrupts then throw .interrupt
    return program.status

def runNamed (name : String) (arguments : List String) (r : Redirection) :
    Action (Option Int) := do
  let w ← get
  match w.fs.findProgram? w.processDir name w.session.searchDirectories with
  | none =>
    Action.log .info "executor" "Command not found" [("command", .text name)]
    Action.say (name ++ ": command not found")
    return none
  | some found =>
    let request := Launch.ofCommand found name arguments r (some w.session.dir)
    Action.log .info "executor" ("Spawning " ++ found.path)
      [("argv", .list (request.arguments.map .text))]
    let status ← h.launch request
    Action.log .debug "executor" (name ++ " exited") [("status", .integer status)]
    return some status

def runCommand (c : Command) : Action (Option Int) := do
  let r := c.redirection.resolved (← get).session.dir
  Output.prepare r
  if (← get).builtins.has c.name then
    let result ← Builtins.run c.name c.arguments
    h.route result r
    return none
  else h.runNamed c.name c.arguments r

def runLine (line : String) : Action (Option Int) := do
  match Command.ofLine line with
  | .ok c => h.runCommand c
  | .error f => throw (.failure f)

def executeLine (line : String) : Action (Option Int) := do
  Action.log .debug "shell" "Executing line" [("line", .text line)]
  match ← (h.runLine line).outcome with
  | .ok status => return status
  | .error (.failure f) =>
    Action.log .warning "shell" f.message f.details
    Action.complain f.message
    return none
  | .error s => throw s

theorem usual_openTarget : usual.openTarget = Output.openTarget := by
  funext path append w
  unfold openTarget
  cases hopen : Output.openTarget path append w with
  | ok place w₁ => exact Action.bind_of_ok (Action.outcome_of_ok hopen)
  | error s w₁ => exact Action.bind_of_ok (Action.outcome_of_error hopen)

theorem usual_route : usual.route = Output.route := by
  unfold route writeTarget
  rw [usual_openTarget]
  rfl

theorem usual_launch : usual.launch = Launch.run := by
  have hwiring : usual.openWiring = Launch.openWiring := by
    funext wiring
    cases wiring with
    | inherited => rfl
    | toFile path append =>
      cases path with
      | none => rfl
      | some path => rw [openWiring, usual_openTarget, Launch.openWiring]
  unfold launch
  rw [hwiring]
  rfl

end Recourse

namespace Output

variable {w w₁ : World} {r : Redirection} {path : String}

theorem openTarget_ok (append : Bool) (hw : w.fs.Writable w.processDir path) :
    ∃ place w', openTarget path append w = .ok place w' := by
  have hends := openTarget_of_writable append hw
  cases hopen : openTarget path append w with
  | ok place w' => exact ⟨place, w', rfl⟩
  | error s w' =>
    obtain ⟨⟨_, he⟩, -⟩ := hends.error hopen
    cases he

theorem writeTarget_ok (append : Bool) (text : String) (hw : w.fs.Writable w.processDir path) :
    ∃ w', writeTarget path append text w = .ok () w' := by
  obtain ⟨place, w', hopen⟩ := openTarget_ok append hw
  exact ⟨_, Action.bind_of_ok hopen⟩

theorem ready_of_prepare (hp : prepare r w = .ok () w₁) :
    r.Ready w.fs w.processDir ∧ r.Ready w₁.fs w₁.processDir := by
  have hn : ¬ r.NamesNul := by
    intro hn
    obtain ⟨he, -⟩ := (prepare_of_nul hn).ok hp
    cases he
  have hready : r.Ready w.fs w.processDir := by
    apply Classical.byContradiction
    intro hrefused
    obtain ⟨⟨_, he⟩, -⟩ := (prepare_refused hn hrefused).ok hp
    cases he
  obtain ⟨-, -, hagain⟩ := (prepare_of_ready hready).ok hp
  exact ⟨hready, hagain⟩

end Output

/-- No built-in command opens or takes away a file. -/
theorem Builtins.run_ready {name : String} {arguments : List String} {result : Result}
    {r : Redirection} {w w' : World} (hr : r.Ready w.fs w.processDir)
    (hrun : Builtins.run name arguments w = .ok result w') : r.Ready w'.fs w'.processDir := by
  cases hb : w.builtins.get? name with
  | some b =>
    have hended := (b.run_named_ends arguments hb).ok hrun
    rw [hended.changes.processDir]
    exact hr.sameNodes hended.sameNodes
  | none =>
    rw [Builtins.run, Action.get_bind, hb] at hrun
    cases hrun
    exact hr

namespace Recourse

variable (h : Recourse) {w : World} {r : Redirection} {path : String}

theorem openTarget_eq (append : Bool) (hw : w.fs.Writable w.processDir path) :
    h.openTarget path append w = Output.openTarget path append w := by
  obtain ⟨place, w', hopen⟩ := Output.openTarget_ok append hw
  rw [hopen]
  exact Action.bind_of_ok (Action.outcome_of_ok hopen)

theorem route_eq (result : Result) (hr : r.Ready w.fs w.processDir) :
    h.route result r w = Output.route result r w := by
  unfold route Output.route
  by_cases hsilent : (result.ok && result.output == "") = true
  · rw [if_pos hsilent, if_pos hsilent]
  rw [if_neg hsilent, if_neg hsilent]
  cases hc : Output.captures r result with
  | false => rfl
  | true =>
    cases ht : r.target with
    | none => rfl
    | some path =>
      have ha : r.isActive = true := ((Output.captures_iff result r).mp hc).1
      have hwrite : h.writeTarget path r.append result.output w =
          Output.writeTarget path r.append result.output w :=
        Action.bind_congr (h.openTarget_eq r.append (hr path ha ht)) fun _ _ _ => rfl
      -- The text is written, so of the branches after it only the first is entered.
      obtain ⟨w', hok⟩ := Output.writeTarget_ok r.append result.output (hr path ha ht)
      refine Action.bind_congr (Action.outcome_congr hwrite) fun written w₁ hwritten => ?_
      rw [Action.outcome_of_ok hok] at hwritten
      cases hwritten
      rfl

theorem openWiring_eq {wiring : Wiring} (hw : Launch.wires w wiring) :
    h.openWiring wiring w = Launch.openWiring wiring w := by
  cases wiring with
  | inherited => rfl
  | toFile path append =>
    obtain ⟨p, rfl, hp⟩ := hw
    have hmine : h.openWiring (.toFile (some p) append) =
        h.openTarget p append >>= fun l => pure (some l) := rfl
    have husual : Launch.openWiring (.toFile (some p) append) =
        Output.openTarget p append >>= fun l => pure (some l) := rfl
    rw [hmine, husual]
    exact Action.bind_congr (h.openTarget_eq append hp) fun _ _ _ => rfl

theorem launch_eq {request : Launch} (hw : request.Wired w) :
    h.launch request w = request.run w := by
  unfold launch Launch.run
  refine Action.bind_congr rfl fun _ w₁ hstart => ?_
  have hw₁ : request.Wired w₁ := by
    cases hstart
    exact ⟨hw.output, hw.error, hw.one_file⟩
  refine Action.bind_congr (h.openWiring_eq hw₁.output) fun output w₂ hopen => ?_
  exact Action.bind_congr (h.openWiring_eq (hw₁.error_after hopen)) fun _ _ _ => rfl

theorem runNamed_eq (name : String) (arguments : List String) (hr : r.Ready w.fs w.processDir) :
    h.runNamed name arguments r w = Launch.runNamed name arguments r w := by
  unfold runNamed Launch.runNamed
  rw [Action.get_bind, Action.get_bind]
  cases w.fs.findProgram? w.processDir name w.session.searchDirectories with
  | none => rfl
  | some found =>
    refine Action.bind_congr rfl fun _ w₁ hlog => ?_
    obtain ⟨-, hq⟩ := (Action.reports_log _ _ _ _ _ w).ok hlog
    have hr₁ : r.Ready w₁.fs w₁.processDir := by
      rw [hq.processDir]
      exact hr.sameNodes hq.fs
    exact Action.bind_congr (h.launch_eq (Launch.ofCommand_wired hr₁)) fun _ _ _ => rfl

theorem runCommand_eq (c : Command) (w : World) : h.runCommand c w = Shell.runCommand c w := by
  unfold runCommand Shell.runCommand
  rw [Action.get_bind, Action.get_bind]
  -- Where the target is refused, both stop here; from now on it is ready.
  refine Action.bind_congr rfl fun _ w₁ hprepare => ?_
  obtain ⟨-, hr⟩ := Output.ready_of_prepare hprepare
  rw [Action.get_bind, Action.get_bind]
  split
  · refine Action.bind_congr rfl fun result w₂ hrun => ?_
    exact Action.bind_congr (h.route_eq result (Builtins.run_ready hr hrun)) fun _ _ _ => rfl
  · exact h.runNamed_eq c.name c.arguments hr

/-- No line comes to a place where its recourse matters. -/
theorem executeLine_eq (line : String) (w : World) :
    h.executeLine line w = Shell.executeLine line w := by
  unfold executeLine Shell.executeLine
  refine Action.bind_congr rfl fun _ w₁ _ => ?_
  have hline : h.runLine line w₁ = Shell.runLine line w₁ := by
    unfold runLine Shell.runLine
    cases Command.ofLine line with
    | ok c => exact h.runCommand_eq c w₁
    | error f => rfl
  exact Action.bind_congr (Action.outcome_congr hline) fun _ _ _ => rfl

end Recourse

/-- The only failures of a built-in command are those that an added one is told to raise. -/
theorem Builtin.answer_failure {b : Builtin} {w : World} {arguments : List String} {f : Failure}
    (h : b.answer w arguments = .error (.failure f)) : b = .added (.raises (.failure f)) := by
  cases b with
  | added behavior =>
    cases behavior with
    | raises s =>
      obtain rfl : s = .failure f := Except.error.inj h
      rfl
    | returns => cases h
    | listsArguments => cases h
    | endsLoop => cases h
  | cd =>
    simp only [answer] at h
    split at h
    · cases h
    · cases h
  | exit => cases h
  | echo => cases h
  | pwd => cases h
  | type => cases h

theorem Launch.ending_failure {request : Launch} {fs : FileSystem} {processDir : String}
    {f : Failure} (h : request.ending fs processDir = .error (.failure f)) :
    f.cause.kind = .launch := by
  unfold ending at h
  split at h
  · split at h
    · cases h
    · cases h
  · unfold refusal at h
    split at h
    · split at h
      · cases h
        rfl
      · cases h
    · cases h

theorem Outcome.ofCommand_failure {w : World} {c : Command} {r : Redirection} {f : Failure}
    (h : (ofCommand w c r).result = .error (.failure f)) (hf : f.cause.kind = .unwritableTarget) :
    w.builtins.get? c.name = some (.added (.raises (.failure f))) := by
  unfold ofCommand at h
  cases hb : w.builtins.get? c.name with
  | some b =>
    rw [hb] at h
    simp only [ofBuiltin] at h
    cases hanswer : b.answer w c.arguments with
    | ok result =>
      rw [hanswer] at h
      cases h
    | error s =>
      rw [hanswer] at h
      cases h
      rw [b.answer_failure hanswer]
  | none =>
    rw [hb] at h
    simp only [ofName] at h
    split at h
    · next found _ =>
      simp only [ofLaunch] at h
      cases hend : (Launch.ofCommand found c.name c.arguments r (some w.session.dir)).ending w.fs
          w.processDir with
      | ok status =>
        rw [hend] at h
        cases h
      | error s =>
        rw [hend] at h
        cases h
        rw [Launch.ending_failure hend] at hf
        cases hf
    · cases h

namespace Shell

variable {w w₁ w' : World} {c : Command} {f : Failure} {line : String}

theorem runCommand_of_refused {s : Stop}
    (hp : Output.prepare (redirectionIn w c) w = .error s w₁) :
    runCommand c w = .error s w₁ := by
  unfold runCommand
  rw [Action.get_bind]
  exact Action.bind_of_error hp

theorem executeLine_of_refused (hc : Command.ofLine line = .ok c)
    (hp : Output.prepare (redirectionIn w c) w = .error (.failure f) w₁) :
    ∃ w', executeLine line w = .ok none w' ∧ w'.texts = w.texts ++ (f.message ++ "\n") := by
  have hrefused : ¬ Opens w c := by
    intro ho
    obtain ⟨he, -⟩ := (Output.prepare_of_ready ho).error hp
    cases he
  obtain ⟨s, -, hprepare⟩ := Output.gives_prepare_stopped w.journal.files hrefused
  obtain ⟨he, -⟩ := (hprepare w (.self w)).error hp
  cases he
  have hends := gives_executeLine_failed (gives_runLine_stopped hc hprepare) w (.self w)
  cases hrun : executeLine line w with
  | ok status w' =>
    obtain ⟨he, halike⟩ := hends.ok hrun
    cases he
    exact ⟨w', rfl, halike.texts.trans (World.texts_append w _)⟩
  | error s w' =>
    obtain ⟨he, -⟩ := hends.error hrun
    cases he

theorem failure_of_prepared (hp : Output.prepare (redirectionIn w c) w = .ok () w₁)
    (hrun : runCommand c w = .error (.failure f) w') (hf : f.cause.kind = .unwritableTarget) :
    w.builtins.get? c.name = some (.added (.raises (.failure f))) := by
  obtain ⟨l, haims⟩ := (Output.ready_of_prepare hp).1.exists_aim
  obtain ⟨he, -⟩ := (gives_runCommand haims w (.self w)).error hrun
  have hraised : (w.prepared (redirectionIn w c) l).builtins.get? c.name =
      some (.added (.raises (.failure f))) := Outcome.ofCommand_failure he.symm hf
  exact hraised

/-- What a command finds whose redirection was opened before it, which left the world `w₁`. -/
structure Reopens (w w₁ : World) (c : Command) : Prop where
  writes : ∀ result w₂ path text, Builtins.run c.name c.arguments w₁ = .ok result w₂ →
    (redirectionIn w c).isActive = true → (redirectionIn w c).target = some path →
    ∃ w₃, Output.writeTarget path (redirectionIn w c).append text w₂ = .ok () w₃
  wires : ∀ found dir w₂, w₁.Quiet w₂ →
    let request := Launch.ofCommand found c.name c.arguments (redirectionIn w c) dir
    ∃ output error w₃ w₄, Launch.openWiring request.output w₂ = .ok output w₃ ∧
      Launch.openWiring request.error w₃ = .ok error w₄
  /-- A refused target is no failure of the command, unless it was added to raise just that. -/
  reports : ∀ f w', runCommand c w = .error (.failure f) w' → f.cause.kind = .unwritableTarget →
    w.builtins.get? c.name = some (.added (.raises (.failure f)))

theorem reopens_of_prepare (hp : Output.prepare (redirectionIn w c) w = .ok () w₁) :
    Reopens w w₁ c := by
  obtain ⟨-, hr⟩ := Output.ready_of_prepare hp
  refine ⟨?_, ?_, fun f w' hrun hf => failure_of_prepared hp hrun hf⟩
  · intro result w₂ path text hrun ha ht
    exact Output.writeTarget_ok _ text (Builtins.run_ready hr hrun path ha ht)
  · intro found dir w₂ hq request
    have hr₂ : (redirectionIn w c).Ready w₂.fs w₂.processDir := by
      rw [hq.processDir]
      exact hr.sameNodes hq.fs
    have hwired : request.Wired w₂ := Launch.ofCommand_wired hr₂
    obtain ⟨output, w₃, houtput⟩ := Launch.openWiring_ok hwired.output
    obtain ⟨error, w₄, herror⟩ := Launch.openWiring_ok (hwired.error_after houtput)
    exact ⟨output, error, w₃, w₄, houtput, herror⟩

/-- A target that could be opened before the command can be opened after it. So no line depends on
what is done where that fails; a target that cannot be opened before the command is reported, once
and instead of running it, and nothing of the kind is reported of any other. -/
theorem prepared_target_opens_again :
    (Recourse.usual.route = Output.route ∧ Recourse.usual.launch = Launch.run) ∧
      ∀ line w, (∀ h : Recourse, h.executeLine line w = executeLine line w) ∧
        ∀ c, Command.ofLine line = .ok c →
          (∀ f w₁, Output.prepare (redirectionIn w c) w = .error (.failure f) w₁ →
            runCommand c w = .error (.failure f) w₁ ∧
            ∃ w', executeLine line w = .ok none w' ∧ w'.texts = w.texts ++ (f.message ++ "\n")) ∧
          ∀ w₁, Output.prepare (redirectionIn w c) w = .ok () w₁ → Reopens w w₁ c := by
  refine ⟨⟨Recourse.usual_route, Recourse.usual_launch⟩, fun line w => ⟨?_, ?_⟩⟩
  · exact fun h => h.executeLine_eq line w
  intro c hc
  refine ⟨?_, fun w₁ hp => reopens_of_prepare hp⟩
  intro f w₁ hp
  exact ⟨runCommand_of_refused hp, executeLine_of_refused hc hp⟩

/-- Through a link to a file that is missing at first, and to a directory. -/
theorem prepared_target_opens_again_through_link :
    let raised : Failure := { cause := .unwritableTarget "/l" "raised" }
    let w : World := {
      fs := { nodes := [(["d"], .directory {}), (["l"], .link "d/f")] }
      builtins := Builtins.standard.put "x" (.added (.raises (.failure raised))) }
    let w₁ : World := { w with
      fs := { nodes := [(["d"], .directory {}), (["l"], .link "d/f"),
        (["f", "d"], .file .plain .empty none)] } }
    let r : Redirection := ⟨some "l", false, .output⟩
    let h : Recourse := ⟨fun _ _ _ => throw (.exit {}), fun _ _ _ => throw .interrupt⟩
    h.executeLine "echo hi > l" w = executeLine "echo hi > l" w ∧
      Output.prepare (redirectionIn w ⟨"echo", ["hi"], r⟩) w = .ok () w₁ ∧
      (∃ w₂, Output.writeTarget "/l" false "hi" w₁ = .ok () w₂) ∧
      (∃ output error w₂ w₃, Launch.openWiring (.toFile (some "/l") false) w₁ = .ok output w₂ ∧
        Launch.openWiring .inherited w₂ = .ok error w₃) ∧
      runCommand ⟨"x", [], r⟩ w = .error (.failure raised) w₁ ∧
      w.builtins.get? "x" = some (.added (.raises (.failure raised))) ∧
      ∃ w', executeLine "echo hi > d" w = .ok none w' ∧
        w'.texts = "Error writing to file /d: Is a directory\n" := by
  intro raised w w₁ r h
  have hline : Command.ofLine "echo hi > l" = .ok ⟨"echo", ["hi"], r⟩ := rfl
  have hr : redirectionIn w ⟨"echo", ["hi"], r⟩ = ⟨some "/l", false, .output⟩ := by decide
  have hprepare : Output.prepare (redirectionIn w ⟨"echo", ["hi"], r⟩) w = .ok () w₁ := by
    rw [hr]
    rfl
  have hraise : Command.ofLine "x > l" = .ok ⟨"x", [], r⟩ := rfl
  have hraised : runCommand ⟨"x", [], r⟩ w = .error (.failure raised) w₁ := by
    unfold runCommand
    rw [Action.get_bind]
    exact (Action.bind_of_ok hprepare).trans rfl
  have hd : Command.ofLine "echo hi > d" = .ok ⟨"echo", ["hi"], { r with target := "d" }⟩ := rfl
  have hdr : redirectionIn w ⟨"echo", ["hi"], { r with target := "d" }⟩ =
      ⟨some "/d", false, .output⟩ := by decide
  have hrefused : Output.prepare (redirectionIn w ⟨"echo", ["hi"], { r with target := "d" }⟩) w =
      .error (.failure { cause := .unwritableTarget "/d" "Is a directory" }) w := by
    rw [hdr]
    rfl
  obtain ⟨hsame, hopens⟩ := prepared_target_opens_again.2 "echo hi > l" w
  have hecho : Reopens w w₁ ⟨"echo", ["hi"], r⟩ := (hopens _ hline).2 w₁ hprepare
  have hx : Reopens w w₁ ⟨"x", [], r⟩ :=
    ((prepared_target_opens_again.2 "x > l" w).2 _ hraise).2 w₁ hprepare
  obtain ⟨-, hreported⟩ :=
    ((prepared_target_opens_again.2 "echo hi > d" w).2 _ hd).1 _ w hrefused
  refine ⟨hsame h, hprepare, ?_, ?_, hraised, hx.reports raised w₁ hraised rfl, hreported⟩
  · exact hecho.writes ⟨true, "hi"⟩ w₁ "/l" "hi" rfl rfl (by rw [hr])
  · have hwires := hecho.wires ⟨"/bin", "/bin/echo"⟩ none w₁ (.refl w₁)
    rw [hr] at hwires
    exact hwires

end Shell

end CommandShell
