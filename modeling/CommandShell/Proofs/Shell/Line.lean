import CommandShell.Proofs.Builtin
import CommandShell.Proofs.Launch
import CommandShell.Shell

/-! # How a line ends

A failure of the shell's own never leaves a line. What leaves it otherwise can be told before the
line runs: a fault if the character zero comes to a place where the system takes texts, or if a
built-in command meets one; a request to exit from a built-in command; an interrupt from a program
or a command that was added. -/
namespace CommandShell.Shell

open FileSystem (hasNul)
open Line (Command Redirection)

def redirectionIn (w : World) (c : Command) : Redirection :=
  c.redirection.resolved w.session.dir

def Opens (w : World) (c : Command) : Prop :=
  (redirectionIn w c).Ready w.fs w.processDir

inductive Blocked (w : World) (c : Command) : Prop where
  | target : (redirectionIn w c).NamesNul → Blocked w c
  | builtin {b f} : Opens w c → w.builtins.get? c.name = some b →
      b.stop? w c.arguments = some (.fault f) → Blocked w c
  | program {found} : Opens w c → w.builtins.get? c.name = none →
      w.fs.findProgram? w.processDir c.name w.session.searchDirectories = some found →
      (c.arguments.any hasNul = true ∨ hasNul w.session.dir = true) → Blocked w c

inductive Exits (w : World) (c : Command) (e : Exit) : Prop where
  | builtin {b} : Opens w c → w.builtins.get? c.name = some b →
      b.stop? w c.arguments = some (.exit e) → Exits w c e

inductive Interrupted (w : World) (c : Command) : Prop where
  | builtin {b} : Opens w c → w.builtins.get? c.name = some b →
      b.stop? w c.arguments = some .interrupt → Interrupted w c
  | program {found} : Opens w c → w.builtins.get? c.name = none →
      w.fs.findProgram? w.processDir c.name w.session.searchDirectories = some found →
      w.fs.Interrupts w.processDir found.path → Interrupted w c

variable {w w' : World} {c : Command}

theorem redirectionIn_quiet (h : w.Quiet w') (c : Command) :
    redirectionIn w' c = redirectionIn w c := by
  rw [redirectionIn, h.session, redirectionIn]

theorem Opens.quiet (h : w.Quiet w') (ho : Opens w c) : Opens w' c := by
  rw [Opens, redirectionIn_quiet h, h.processDir]
  exact ho.sameNodes h.fs

theorem stop?_quiet (h : w.Quiet w') {b : Builtin} (hb : w.builtins.get? c.name = some b)
    {s : Stop} (hs : b.stop? w c.arguments = some s) :
    w'.builtins.get? c.name = some b ∧ b.stop? w' c.arguments = some s := by
  rw [h.builtins, Builtin.stop?_steady h.steady]
  exact ⟨hb, hs⟩

theorem found_quiet (h : w.Quiet w') {found : Found} (hb : w.builtins.get? c.name = none)
    (hf : w.fs.findProgram? w.processDir c.name w.session.searchDirectories = some found) :
    w'.builtins.get? c.name = none ∧
      w'.fs.findProgram? w'.processDir c.name w'.session.searchDirectories = some found := by
  rw [h.builtins, Launch.findProgram?_steady h.steady]
  exact ⟨hb, hf⟩

theorem Blocked.quiet (h : w.Quiet w') (hb : Blocked w c) : Blocked w' c := by
  cases hb with
  | target hn =>
    rw [← redirectionIn_quiet h] at hn
    exact .target hn
  | builtin ho hb hs =>
    obtain ⟨hb', hs'⟩ := stop?_quiet h hb hs
    exact .builtin (ho.quiet h) hb' hs'
  | program ho hb hf hn =>
    obtain ⟨hb', hf'⟩ := found_quiet h hb hf
    rw [← h.session] at hn
    exact .program (ho.quiet h) hb' hf' hn

theorem Exits.quiet {e : Exit} (h : w.Quiet w') (he : Exits w c e) : Exits w' c e := by
  cases he with
  | builtin ho hb hs =>
    obtain ⟨hb', hs'⟩ := stop?_quiet h hb hs
    exact .builtin (ho.quiet h) hb' hs'

theorem Interrupted.quiet (h : w.Quiet w') (hi : Interrupted w c) : Interrupted w' c := by
  cases hi with
  | builtin ho hb hs =>
    obtain ⟨hb', hs'⟩ := stop?_quiet h hb hs
    exact .builtin (ho.quiet h) hb' hs'
  | program ho hb hf hp =>
    obtain ⟨hb', hf'⟩ := found_quiet h hb hf
    rw [← h.processDir] at hp
    exact .program (ho.quiet h) hb' hf' (h.fs.symm.grows.interrupts hp)

theorem Opens.not_namesNul (h : Opens w c) : ¬ (redirectionIn w c).NamesNul :=
  Redirection.Ready.not_namesNul h

theorem blocked_iff_of_builtin {b : Builtin} (ho : Opens w c)
    (hb : w.builtins.get? c.name = some b) :
    Blocked w c ↔ ∃ f, b.stop? w c.arguments = some (.fault f) := by
  constructor
  · intro h
    rcases h with hn | ⟨-, hb', hs⟩ | ⟨-, hb', -, -⟩
    · exact absurd hn ho.not_namesNul
    · rw [hb] at hb'
      cases hb'
      exact ⟨_, hs⟩
    · simp [hb] at hb'
  · intro h
    obtain ⟨f, hs⟩ := h
    exact .builtin ho hb hs

theorem blocked_iff_of_program (ho : Opens w c) (hb : w.builtins.get? c.name = none) :
    Blocked w c ↔ ∃ found,
      w.fs.findProgram? w.processDir c.name w.session.searchDirectories = some found ∧
      (c.arguments.any hasNul = true ∨ hasNul w.session.dir = true) := by
  constructor
  · intro h
    rcases h with hn | ⟨-, hb', -⟩ | ⟨-, -, hf, hn⟩
    · exact absurd hn ho.not_namesNul
    · simp [hb] at hb'
    · exact ⟨_, hf, hn⟩
  · intro h
    obtain ⟨found, hf, hn⟩ := h
    exact .program ho hb hf hn

structure CommandEnded (w : World) (c : Command) (r : Except Stop (Option Int)) (w' : World) :
    Prop where
  fault_iff : (∃ f, r = .error (.fault f)) ↔ Blocked w c
  exit_iff : ∀ e, r = .error (.exit e) ↔ Exits w c e
  interrupt : r = .error .interrupt → Interrupted w c
  changes : w.Changes (fun s => w.builtins.get? c.name = some .cd ∧ w.Goes c.arguments s) w'

theorem CommandEnded.of_builtin {b : Builtin} {r : Except Stop (Option Int)} (ho : Opens w c)
    (hb : w.builtins.get? c.name = some b)
    (h : ∀ s, r = .error s ↔ b.stop? w c.arguments = some s)
    (hc : w.Changes (fun s => b = .cd ∧ w.Goes c.arguments s) w') : CommandEnded w c r w' := by
  refine ⟨?_, ?_, ?_, ?_⟩
  · rw [blocked_iff_of_builtin ho hb]
    simp only [h]
  · intro e
    rw [h]
    constructor
    · exact fun hs => .builtin ho hb hs
    · intro hx
      obtain ⟨-, hb', hs⟩ := hx
      rw [hb] at hb'
      cases hb'
      exact hs
  · exact fun hr => .builtin ho hb ((h _).mp hr)
  · apply hc.imp
    intro s hend
    obtain ⟨rfl, hg⟩ := hend
    exact ⟨hb, hg⟩

theorem CommandEnded.of_program {r : Except Stop (Option Int)} (ho : Opens w c)
    (hb : w.builtins.get? c.name = none) (h : Launch.NamedEnded w c.name c.arguments r)
    (hs : w.Steady w') : CommandEnded w c r w' := by
  have hexit (e : Exit) : ¬ Exits w c e := by
    intro hx
    obtain ⟨-, hb', -⟩ := hx
    simp [hb] at hb'
  cases hf : w.fs.findProgram? w.processDir c.name w.session.searchDirectories with
  | none =>
    obtain rfl := h.not_found hf
    refine ⟨?_, by simp [hexit], by simp, hs.changes⟩
    rw [blocked_iff_of_program ho hb]
    simp [hf]
  | some found =>
    by_cases hn : c.arguments.any hasNul = true ∨ hasNul w.session.dir = true
    · obtain rfl := h.found_nul found hf hn
      refine ⟨?_, by simp [hexit], by simp, hs.changes⟩
      exact ⟨fun _ => .program ho hb hf hn, fun _ => ⟨_, rfl⟩⟩
    · have hfault : ¬ Blocked w c := by
        rw [blocked_iff_of_program ho hb]
        intro hx
        obtain ⟨_, -, hbad⟩ := hx
        exact hn hbad
      rcases h.found_no_nul found hf hn with ⟨status, rfl⟩ | ⟨f, rfl⟩ | ⟨rfl, hi⟩
      · exact ⟨by simp [hfault], by simp [hexit], by simp, hs.changes⟩
      · exact ⟨by simp [hfault], by simp [hexit], by simp, hs.changes⟩
      · exact ⟨by simp [hfault], by simp [hexit], fun _ => .program ho hb hf hi, hs.changes⟩

theorem CommandEnded.of_nul (hn : (redirectionIn w c).NamesNul) :
    CommandEnded w c (.error (.fault .nulCharacter)) w := by
  refine ⟨⟨fun _ => .target hn, fun _ => ⟨_, rfl⟩⟩, ?_, by simp, (World.Steady.refl w).changes⟩
  intro e
  constructor
  · intro he
    simp at he
  · intro he
    obtain ⟨ho, -, -⟩ := he
    exact absurd hn ho.not_namesNul

theorem CommandEnded.of_refused {f : Failure} (hn : ¬ (redirectionIn w c).NamesNul)
    (ho : ¬ Opens w c) : CommandEnded w c (.error (.failure f)) w := by
  refine ⟨?_, ?_, by simp, (World.Steady.refl w).changes⟩
  · constructor
    · intro hf
      obtain ⟨_, hf⟩ := hf
      simp at hf
    · intro hb
      rcases hb with hn' | ⟨ho', -, -⟩ | ⟨ho', -, -, -⟩
      · exact absurd hn' hn
      · exact absurd ho' ho
      · exact absurd ho' ho
  · intro e
    constructor
    · intro he
      simp at he
    · intro he
      obtain ⟨ho', -, -⟩ := he
      exact absurd ho' ho

/-- A built-in command runs where its redirection has been prepared, and its result finds its place.
-/
theorem builtin_ends {w₁ : World} {b : Builtin} (ho : Opens w c)
    (hb : w.builtins.get? c.name = some b) (hs : w.Steady w₁) :
    (do let result ← Builtins.run c.name c.arguments
        Output.route result (redirectionIn w c)
        return none : Action (Option Int)).Ends w₁ (CommandEnded w c) := by
  have hb₁ : w₁.builtins.get? c.name = some b := hs.builtins ▸ hb
  have hstop : b.stop? w₁ c.arguments = b.stop? w c.arguments := b.stop?_steady hs c.arguments
  apply (b.run_named_ends c.arguments hb₁).bind
  · intro result w₂ h
    have hnone : b.stop? w c.arguments = none := by
      rw [← hstop]
      cases ht : b.stop? w₁ c.arguments with
      | none => rfl
      | some t => simpa using h.stops t ht
    apply (Output.route_ends result ho.not_namesNul).bind_of_returns (by simp)
    intro _ w₃ hend
    obtain ⟨-, hs₃⟩ := hend
    refine Action.Ends.pure (.of_builtin ho hb (by simp [hnone]) ?_)
    apply hs.changes_after
    apply (h.changes.imp ?_).steady_after hs₃
    intro s hg
    exact ⟨hg.1, hs.goes_iff.mp hg.2⟩
  · intro s w₂ h
    have hsome : b.stop? w c.arguments = some s := by
      rw [← hstop]
      cases ht : b.stop? w₁ c.arguments with
      | none =>
        obtain ⟨_, hr⟩ := h.returns ht
        simp at hr
      | some t =>
        have hr := h.stops t ht
        cases hr
        rfl
    refine .of_builtin ho hb (by simp [hsome]) ?_
    apply hs.changes_after
    apply h.changes.imp
    intro s hg
    exact ⟨hg.1, hs.goes_iff.mp hg.2⟩

theorem runCommand_ends (c : Command) (w : World) :
    (runCommand c).Ends w (CommandEnded w c) := by
  unfold runCommand
  apply Action.Ends.get_bind
  by_cases hn : (redirectionIn w c).NamesNul
  · apply (Output.prepare_of_nul hn).bind_of_stops (by simp)
    intro s w₁ hend
    obtain ⟨hs, rfl⟩ := hend
    cases hs
    exact .of_nul hn
  by_cases ho : Opens w c
  · apply (Output.prepare_of_ready ho).bind_of_returns (by simp)
    intro _ w₁ hend
    obtain ⟨-, hs₁, ho₁⟩ := hend
    apply Action.Ends.get_bind
    cases hb : w.builtins.get? c.name with
    | some b =>
      have hb₁ : w₁.builtins.get? c.name = some b := hs₁.builtins ▸ hb
      simp only [Builtins.has, hb₁, Option.isSome_some, if_true]
      exact builtin_ends ho hb hs₁
    | none =>
      have hb₁ : w₁.builtins.get? c.name = none := hs₁.builtins ▸ hb
      simp only [Builtins.has, hb₁, Option.isSome_none, Bool.false_eq_true, if_false]
      apply (Launch.runNamed_ends ho₁).imp
      intro r w₂ hend
      obtain ⟨h, hs₂⟩ := hend
      exact .of_program ho hb (h.of_steady hs₁) (hs₁.trans hs₂)
  · apply (Output.prepare_refused hn ho).bind_of_stops (by simp)
    intro s w₁ hend
    obtain ⟨⟨f, hs⟩, rfl⟩ := hend
    cases hs
    exact .of_refused hn ho

/-- The sessions that a line leads to if it is a `cd` that succeeds. -/
def CdLine (w : World) (line : String) (s : Session) : Prop :=
  ∃ c, Command.ofLine line = .ok c ∧ w.builtins.get? c.name = some .cd ∧ w.Goes c.arguments s

structure LineEnded (w : World) (line : String) (r : Except Stop (Option Int)) (w' : World) :
    Prop where
  no_failure : ∀ f, r ≠ .error (.failure f)
  fault_iff : (∃ f, r = .error (.fault f)) ↔ ∃ c, Command.ofLine line = .ok c ∧ Blocked w c
  exit_iff : ∀ e, r = .error (.exit e) ↔ ∃ c, Command.ofLine line = .ok c ∧ Exits w c e
  interrupt : r = .error .interrupt → ∃ c, Command.ofLine line = .ok c ∧ Interrupted w c
  changes : w.Changes (CdLine w line) w'

theorem runLine_error {line : String} {f : Failure} (h : Command.ofLine line = .error f) :
    runLine line = throw (.failure f) := by
  rw [runLine, h]

theorem runLine_ok {line : String} (h : Command.ofLine line = .ok c) :
    runLine line = runCommand c := by
  rw [runLine, h]

theorem exists_command_iff {line : String} (hc : Command.ofLine line = .ok c) (P : Command → Prop) :
    (∃ c, Command.ofLine line = .ok c ∧ P c) ↔ P c := by
  simp [hc]

theorem LineEnded.of_command {line : String} {r : Except Stop (Option Int)}
    (hc : Command.ofLine line = .ok c) (h : CommandEnded w c r w')
    (hf : ∀ f, r ≠ .error (.failure f)) : LineEnded w line r w' := by
  refine ⟨hf, ?_, ?_, ?_, h.changes.imp fun s hg => ⟨c, hc, hg⟩⟩
  · rw [exists_command_iff hc]
    exact h.fault_iff
  · intro e
    rw [exists_command_iff hc]
    exact h.exit_iff e
  · rw [exists_command_iff hc]
    exact h.interrupt

/-- A failure that is reported is no reason to stop. -/
theorem CommandEnded.report {f : Failure} {w'' : World}
    (h : CommandEnded w c (.error (.failure f)) w') (hs : w'.Steady w'') :
    CommandEnded w c (.ok none) w'' := by
  refine ⟨?_, ?_, by simp, h.changes.steady_after hs⟩
  · rw [← h.fault_iff]
    simp
  · intro e
    rw [← h.exit_iff]
    simp

theorem CommandEnded.of_quiet {r : Except Stop (Option Int)} {w₀ : World} (hq : w₀.Quiet w)
    (h : CommandEnded w c r w') : CommandEnded w₀ c r w' := by
  refine ⟨?_, ?_, ?_, ?_⟩
  · rw [h.fault_iff]
    exact ⟨fun hb => hb.quiet hq.symm, fun hb => hb.quiet hq⟩
  · intro e
    rw [h.exit_iff]
    exact ⟨fun he => he.quiet hq.symm, fun he => he.quiet hq⟩
  · exact fun hr => (h.interrupt hr).quiet hq.symm
  · apply hq.steady.changes_after
    refine h.changes.imp fun s hg => ⟨?_, hq.steady.goes_iff.mp hg.2⟩
    rw [← hq.builtins]
    exact hg.1

theorem executeLine_ends (line : String) (w : World) :
    (executeLine line).Ends w (LineEnded w line) := by
  unfold executeLine
  apply (Action.reports_log _ _ _ _ _).bind
  intro w₀ hq
  cases hc : Command.ofLine line with
  | error f =>
    rw [runLine_error hc]
    have hstop : (throw (.failure f) : Action (Option Int)).Ends w₀
        fun r w' => r = .error (.failure f) ∧ w' = w₀ := .throw ⟨rfl, rfl⟩
    apply hstop.outcome_bind
    intro _ _ hend
    obtain ⟨rfl, rfl⟩ := hend
    apply (Action.reports_log _ _ _ _ _).bind
    intro w₁ hq₁
    apply (Action.reports_complain _).bind
    intro w₂ hq₂
    refine Action.Ends.pure ⟨by simp, by simp [hc], by simp [hc], by simp, ?_⟩
    exact ((hq.trans hq₁).trans hq₂).steady.changes
  | ok c =>
    rw [runLine_ok hc]
    apply (runCommand_ends c w₀).outcome_bind
    intro r w₁ h
    replace h := h.of_quiet hq
    split
    · exact Action.Ends.pure (.of_command hc h (by simp))
    · next f =>
      apply (Action.reports_log _ _ _ _ _).bind
      intro w₂ hq₂
      apply (Action.reports_complain _).bind
      intro w₃ hq₃
      exact Action.Ends.pure (.of_command hc (h.report (hq₂.trans hq₃).steady) (by simp))
    · next s hs =>
      refine Action.Ends.throw (.of_command hc h ?_)
      intro f hf
      cases hf
      exact hs f rfl

theorem fault_leaves_line_iff (line : String) (w : World) :
    (∃ f w', executeLine line w = .error (.fault f) w') ↔
      ∃ c, Command.ofLine line = .ok c ∧ Blocked w c := by
  have hends := executeLine_ends line w
  constructor
  · intro h
    obtain ⟨f, w', hrun⟩ := h
    exact (hends.error hrun).fault_iff.mp ⟨f, rfl⟩
  · intro hb
    cases hrun : executeLine line w with
    | ok status w' =>
      obtain ⟨f, hf⟩ := (hends.ok hrun).fault_iff.mpr hb
      simp at hf
    | error s w' =>
      obtain ⟨f, hf⟩ := (hends.error hrun).fault_iff.mpr hb
      cases hf
      exact ⟨f, w', rfl⟩

theorem exit_leaves_line_iff (line : String) (w : World) (e : Exit) :
    (∃ w', executeLine line w = .error (.exit e) w') ↔
      ∃ c, Command.ofLine line = .ok c ∧ Exits w c e := by
  have hends := executeLine_ends line w
  constructor
  · intro h
    obtain ⟨w', hrun⟩ := h
    exact ((hends.error hrun).exit_iff e).mp rfl
  · intro he
    cases hrun : executeLine line w with
    | ok status w' =>
      have hf := ((hends.ok hrun).exit_iff e).mpr he
      simp at hf
    | error s w' =>
      have hf := ((hends.error hrun).exit_iff e).mpr he
      cases hf
      exact ⟨w', rfl⟩

end CommandShell.Shell
