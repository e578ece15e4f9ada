import CommandShell.Proofs.Action
import CommandShell.Proofs.ChangeDirectory

/-! # How the built-in commands end

Whether a built-in command stops can be read off the world it starts in: `exit` always does, `cd`
where changing the directory is an error, an added command where it is told to. Only `cd` changes
the session. -/
namespace CommandShell

structure World.Changes (goes : Session → Prop) (w w' : World) : Prop where
  fs : w.fs.Grows w'.fs
  processDir : w'.processDir = w.processDir
  builtins : w'.builtins = w.builtins
  session : w'.session = w.session ∨ goes w'.session

namespace World

variable {goes : Session → Prop} {w w' w'' : World}

theorem Steady.changes (h : w.Steady w') : w.Changes goes w' :=
  ⟨h.fs, h.processDir, h.builtins, .inl h.session⟩

theorem Steady.changes_after (h : w.Steady w') (k : w'.Changes goes w'') : w.Changes goes w'' :=
  ⟨h.fs.trans k.fs, k.processDir.trans h.processDir, k.builtins.trans h.builtins,
    k.session.imp_left fun e => e.trans h.session⟩

theorem Changes.steady_after (h : w.Changes goes w') (k : w'.Steady w'') : w.Changes goes w'' := by
  refine ⟨h.fs.trans k.fs, k.processDir.trans h.processDir, k.builtins.trans h.builtins, ?_⟩
  rw [k.session]
  exact h.session

theorem Changes.imp {goes' : Session → Prop} (h : w.Changes goes w')
    (k : ∀ s, goes s → goes' s) : w.Changes goes' w' :=
  ⟨h.fs, h.processDir, h.builtins, h.session.imp_right (k w'.session)⟩

/-- The sessions that a successful `cd` with some arguments leads to. -/
def Goes (w : World) (arguments : List String) (s : Session) : Prop :=
  w.session.changeDirectory w.fs w.processDir arguments = .ok (⟨true, ""⟩, s)

theorem Goes.session_eq {arguments : List String} {s : Session} (h : w.Goes arguments s) :
    s = { w.session with dir := s.dir } := by
  unfold Goes at h
  rcases w.session.changeDirectory_cases w.fs w.processDir arguments with
    ⟨f, hcd⟩ | ⟨dir, hcd⟩ | ⟨output, hcd⟩
  · simp [hcd] at h
  · rw [hcd] at h
    cases h
    rfl
  · simp [hcd] at h

theorem Goes.canonical {arguments : List String} {s : Session} (h : w.Goes arguments s)
    (hfs : w.fs.Nameable) (habs : Path.startsAtRoot w.session.dir = true) :
    ∃ d, w.fs.Canonical w.processDir s.dir d := by
  have hs := h.session_eq
  unfold Goes at h
  rw [hs] at h
  exact Session.changeDirectory_canonical hfs habs h

theorem Steady.changeDirectory (h : w.Steady w') (arguments : List String) :
    w'.session.changeDirectory w'.fs w'.processDir arguments =
      w.session.changeDirectory w.fs w.processDir arguments := by
  rw [h.session, h.processDir, h.fs.changeDirectory]

theorem Steady.goes_iff (h : w.Steady w') {arguments : List String} {s : Session} :
    w'.Goes arguments s ↔ w.Goes arguments s := by
  unfold Goes
  rw [h.changeDirectory]

end World

namespace Builtin

def stop? (b : Builtin) (w : World) (arguments : List String) : Option Stop :=
  match b with
  | exit => some (.exit (.ofArguments arguments))
  | cd =>
    match w.session.changeDirectory w.fs w.processDir arguments with
    | .error f => some (.fault f)
    | .ok _ => none
  | added (.raises s) => some s
  | _ => none

theorem stop?_steady {w w' : World} (h : w.Steady w') (b : Builtin) (arguments : List String) :
    b.stop? w' arguments = b.stop? w arguments := by
  unfold stop?
  rw [h.changeDirectory]

structure Ended (b : Builtin) (w : World) (arguments : List String) (r : Except Stop Result)
    (w' : World) : Prop where
  stops : ∀ s, b.stop? w arguments = some s → r = .error s
  returns : b.stop? w arguments = none → ∃ result, r = .ok result
  changes : w.Changes (fun s => b = .cd ∧ w.Goes arguments s) w'
  sameNodes : w.fs.SameNodes w'.fs

theorem Ended.of_quiet {b : Builtin} {w w' : World} {arguments : List String}
    {r : Except Stop Result} (stops : ∀ s, b.stop? w arguments = some s → r = .error s)
    (returns : b.stop? w arguments = none → ∃ result, r = .ok result) (h : w.Quiet w') :
    b.Ended w arguments r w' :=
  ⟨stops, returns, h.steady.changes, h.fs⟩

theorem Ended.of_stop {b : Builtin} {w w' : World} {arguments : List String} {s : Stop}
    (hs : b.stop? w arguments = some s) (h : w.Quiet w') :
    b.Ended w arguments (.error s) w' :=
  .of_quiet (fun t ht => by rw [hs] at ht; cases ht; rfl) (by simp [hs]) h

theorem Ended.of_result {b : Builtin} {w w' : World} {arguments : List String}
    {result : Result} (hs : b.stop? w arguments = none) (h : w.Quiet w') :
    b.Ended w arguments (.ok result) w' :=
  .of_quiet (by simp [hs]) (fun _ => ⟨result, rfl⟩) h

theorem cd_ends (arguments : List String) (w : World) :
    (cd.run arguments).Ends w (cd.Ended w arguments) := by
  unfold run
  apply Action.Ends.get_bind
  rcases w.session.changeDirectory_cases w.fs w.processDir arguments with
    ⟨f, h⟩ | ⟨dir, h⟩ | ⟨output, h⟩
  · rw [h]
    have hstop : (Action.ofExcept (.error f) : Action (Result × Session)).Ends w
        fun r w' => r = .error (.fault f) ∧ w' = w := .throw ⟨rfl, rfl⟩
    apply hstop.bind_of_stops (by simp)
    intro s w' hend
    obtain ⟨hs, rfl⟩ := hend
    cases hs
    exact .of_stop (by simp [stop?, h]) (.refl _)
  · rw [h]
    simp only [Action.ofExcept, pure_bind, if_true]
    apply Action.Ends.set_bind
    apply (Action.reports_log _ _ _ _ _).bind
    intro w' hq
    refine Action.Ends.pure ⟨by simp [stop?, h], fun _ => ⟨_, rfl⟩, ?_, hq.fs⟩
    exact ⟨hq.fs.grows, hq.processDir, hq.builtins, .inr ⟨rfl, hq.session ▸ h⟩⟩
  · rw [h]
    simp only [Action.ofExcept, pure_bind]
    exact Action.Ends.pure (.of_result (by simp [stop?, h]) (.refl w))

/-- The session after a `cd` that succeeds, in a file system that is as before but for logs. -/
theorem goes_of_cd {w w' : World} {arguments : List String} {output : String}
    (h : cd.run arguments w = .ok ⟨true, output⟩ w') :
    w.Goes arguments w'.session ∧ w.fs.Grows w'.fs ∧ w'.processDir = w.processDir := by
  have hchanges := ((cd_ends arguments w).ok h).changes
  refine ⟨?_, hchanges.fs, hchanges.processDir⟩
  rw [run, Action.get_bind] at h
  rcases w.session.changeDirectory_cases w.fs w.processDir arguments with
    ⟨f, hcd⟩ | ⟨dir, hcd⟩ | ⟨shown, hcd⟩
  · rw [hcd] at h
    cases h
  · rw [hcd] at h
    cases h
    exact hcd
  · rw [hcd] at h
    cases h

theorem cd_of_goes {w : World} {arguments : List String} {s : Session}
    (h : w.Goes arguments s) :
    ∃ w', cd.run arguments w = .ok ⟨true, ""⟩ w' ∧ w'.session = s := by
  unfold World.Goes at h
  rw [run, Action.get_bind, h]
  exact ⟨_, rfl, rfl⟩

theorem cd_of_fault {w : World} {arguments : List String} {f : Fault}
    (h : w.session.changeDirectory w.fs w.processDir arguments = .error f) :
    cd.run arguments w = .error (.fault f) w := by
  rw [run, Action.get_bind, h]
  rfl

theorem cd_of_missed {w : World} {arguments : List String} {shown : String}
    (h : w.session.changeDirectory w.fs w.processDir arguments =
      .ok (Session.notReached shown, w.session)) :
    cd.run arguments w = .ok (Session.notReached shown) w := by
  rw [run, Action.get_bind, h]
  rfl

theorem goes_iff_cd {w : World} {arguments : List String} {s : Session} :
    w.Goes arguments s ↔ ∃ w', cd.run arguments w = .ok ⟨true, ""⟩ w' ∧ w'.session = s := by
  constructor
  · exact cd_of_goes
  · rintro ⟨w', hrun, rfl⟩
    exact (goes_of_cd hrun).1

theorem run_ends (b : Builtin) (arguments : List String) (w : World) :
    (b.run arguments).Ends w (b.Ended w arguments) := by
  cases b with
  | exit => exact Action.Ends.throw (.of_stop rfl (.refl w))
  | echo => exact Action.Ends.pure (.of_result rfl (.refl w))
  | pwd => exact Action.Ends.get_bind (Action.Ends.pure (.of_result rfl (.refl w)))
  | cd => exact cd_ends arguments w
  | type => exact Action.Ends.get_bind (Action.Ends.pure (.of_result rfl (.refl w)))
  | added b =>
    cases b with
    | returns r => exact Action.Ends.pure (.of_result rfl (.refl w))
    | listsArguments ok =>
      exact Action.Ends.get_bind (Action.Ends.pure (.of_result rfl (.refl w)))
    | raises s => exact Action.Ends.throw (.of_stop rfl (.refl w))
    | endsLoop =>
      have hq : Action.Reports (modify fun w => { w with running := false }) :=
        Action.reports_modify fun w => ⟨.refl w.fs, rfl, rfl, rfl⟩
      apply hq.bind
      intro w' hq
      exact Action.Ends.pure (.of_result rfl hq)

theorem run_named_ends {w : World} {name : String} {b : Builtin} (arguments : List String)
    (hb : w.builtins.get? name = some b) :
    (Builtins.run name arguments).Ends w (b.Ended w arguments) := by
  unfold Builtins.run
  apply Action.Ends.get_bind
  rw [hb]
  apply (Action.reports_log _ _ _ _ _).bind
  intro w₁ hq
  apply (b.run_ends arguments w₁).imp
  intro r w' h
  have hs := hq.steady
  refine ⟨?_, ?_, ?_, hq.fs.trans h.sameNodes⟩
  · intro s hstop
    exact h.stops s ((stop?_steady hs b arguments).trans hstop)
  · intro hstop
    exact h.returns ((stop?_steady hs b arguments).trans hstop)
  · apply hs.changes_after
    exact h.changes.imp fun s hg => ⟨hg.1, hs.goes_iff.mp hg.2⟩

end Builtin

end CommandShell
