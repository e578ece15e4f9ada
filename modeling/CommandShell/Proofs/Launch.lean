import CommandShell.Proofs.Output

/-! # How a program is started and ends

A program that was found is started, or the system refuses it, unless an argument or the working
directory holds the character zero. A program that was started ends with a status or by an
interrupt. -/
namespace CommandShell

open FileSystem (hasNul)

def FileSystem.Interrupts (fs : FileSystem) (processDir path : String) : Prop :=
  ∃ d p content program, fs.locate processDir path = .ok d ∧ p.execute = true ∧
    fs.node? d = some (.file p content (some program)) ∧ program.interrupts = true

theorem FileSystem.Grows.interrupts {a b : FileSystem} {processDir path : String} (h : a.Grows b)
    (hb : b.Interrupts processDir path) : a.Interrupts processDir path := by
  obtain ⟨d, p, content, program, hl, hp, hn, hi⟩ := hb
  obtain ⟨old, ho⟩ := (h.executable_iff hp).mpr ⟨content, hn⟩
  exact ⟨d, p, old, program, (h.locate_iff (by simp [ho])).mpr hl, hp, ho, hi⟩

theorem FileSystem.locate_error_of_no_nul {fs : FileSystem} {processDir path : String} {f : Fault}
    (hn : hasNul path = false) (h : fs.locate processDir path = .error f) :
    ∃ e, f = .system e path := by
  rcases locate_error h with ⟨-, hnul⟩ | ⟨e, -, rfl⟩
  · rw [hn] at hnul
    cases hnul
  · exact ⟨e, rfl⟩

theorem FileSystem.hasNul_join_of_right {dir s : String} (h : hasNul s = true) :
    hasNul (Path.Posix.join dir s) = true := by
  unfold Path.Posix.join
  simp only [hasNul, List.contains_iff_mem] at h ⊢
  split
  · exact h
  split
  · simp [h]
  · simp [h]

/-- What is found can be looked up, so it is named without the character zero. -/
theorem FileSystem.findProgram?_no_nul {fs : FileSystem} {processDir name : String}
    {directories : List String} {found : Found}
    (h : fs.findProgram? processDir name directories = some found) :
    hasNul found.path = false ∧ hasNul name = false := by
  unfold findProgram? at h
  split at h
  · simp at h
  obtain ⟨directory, -, hd⟩ := List.exists_of_findSome?_eq_some h
  dsimp only at hd
  split at hd
  · next hp =>
    cases hd
    obtain ⟨d, _, _, hl, -⟩ := isProgram_iff.mp hp
    have hj := (locate_eq_ok_iff.mp hl).1
    refine ⟨hj, ?_⟩
    by_cases hn : hasNul name = true
    · simp [hasNul_join_of_right hn] at hj
    · simpa using hn
  · simp at hd

namespace Launch

def NamesNul (request : Launch) : Prop :=
  request.arguments.any hasNul = true ∨ ∃ dir, request.dir = some dir ∧ hasNul dir = true

variable {request : Launch} {fs : FileSystem} {processDir : String} {w : World}

theorem program_of_nul (h : request.NamesNul) :
    request.program fs processDir = .error .nulCharacter := by
  unfold program
  by_cases ha : request.arguments.any hasNul = true
  · simp only [ha, if_true]
    rfl
  · obtain ⟨dir, hd, hn⟩ := h.resolve_left ha
    simp [ha, hd, checkDirectory, FileSystem.locate_of_nul hn, bind, Except.bind]

theorem checkDirectory_cases (fs : FileSystem) (processDir : String) {dir : String}
    (hn : hasNul dir = false) :
    checkDirectory fs processDir dir = .ok () ∨
      ∃ e path, checkDirectory fs processDir dir = .error (.system e path) := by
  unfold checkDirectory
  cases hl : fs.locate processDir dir with
  | error f =>
    obtain ⟨e, rfl⟩ := FileSystem.locate_error_of_no_nul hn hl
    exact .inr ⟨e, dir, rfl⟩
  | ok l =>
    cases ho : fs.obstacle? l with
    | some e => exact .inr ⟨e, dir, by simp [bind, Except.bind, ho]; rfl⟩
    | none => exact .inl (by simp [bind, Except.bind, ho]; rfl)

theorem program_of_directory (ha : request.arguments.any hasNul = false)
    (hd : ∀ dir, request.dir = some dir → checkDirectory fs processDir dir = .ok ()) :
    request.program fs processDir = match fs.locate processDir request.executable with
      | .error f => .error f
      | .ok l =>
        match fs.node? l with
        | some (.file p _ program) =>
          if !p.execute then .error (.system .permissionDenied request.executable)
          else
            match program with
            | some program => .ok program
            | none => .error (.system .badExecutable request.executable)
        | _ => .error (.system .permissionDenied request.executable) := by
  have hdir : request.dir = none ∨
      ∃ dir, request.dir = some dir ∧ checkDirectory fs processDir dir = .ok () := by
    cases hdir : request.dir with
    | none => exact .inl rfl
    | some dir => exact .inr ⟨dir, rfl, hd dir hdir⟩
  unfold program
  rcases hdir with hdir | ⟨dir, hdir, hcheck⟩
  all_goals
    simp only [*, Bool.false_eq_true, if_false, bind, Except.bind, pure, Except.pure]
    cases fs.locate processDir request.executable with
    | error f => rfl
    | ok l =>
      cases fs.node? l with
      | none => rfl
      | some n => cases n <;> rfl

theorem program_of_executable (ha : request.arguments.any hasNul = false)
    (hd : ∀ dir, request.dir = some dir → checkDirectory fs processDir dir = .ok ())
    (he : hasNul request.executable = false) :
    (∃ p content program d, request.program fs processDir = .ok program ∧
        fs.locate processDir request.executable = .ok d ∧ p.execute = true ∧
        fs.node? d = some (.file p content (some program))) ∨
      ∃ e path, request.program fs processDir = .error (.system e path) := by
  rw [program_of_directory ha hd]
  cases hl : fs.locate processDir request.executable with
  | error f =>
    obtain ⟨e, rfl⟩ := FileSystem.locate_error_of_no_nul he hl
    exact .inr ⟨e, request.executable, rfl⟩
  | ok d =>
    dsimp only
    split
    · next p content program hn =>
      by_cases hp : p.execute = true
      · cases program with
        | some program => exact .inl ⟨p, content, program, d, by simp [hp], rfl, hp, hn⟩
        | none => exact .inr ⟨.badExecutable, request.executable, by simp [hp]⟩
      · exact .inr ⟨.permissionDenied, request.executable, by simp [hp]⟩
    · exact .inr ⟨.permissionDenied, request.executable, rfl⟩

/-- Without the character zero there is a program to start, or the system refuses. -/
theorem program_cases (fs : FileSystem) (processDir : String) (h : ¬ request.NamesNul)
    (he : hasNul request.executable = false) :
    (∃ p content program d, request.program fs processDir = .ok program ∧
        fs.locate processDir request.executable = .ok d ∧ p.execute = true ∧
        fs.node? d = some (.file p content (some program))) ∨
      ∃ e path, request.program fs processDir = .error (.system e path) := by
  simp only [NamesNul, not_or, not_exists, not_and, Bool.not_eq_true] at h
  obtain ⟨ha, hd⟩ := h
  cases hdir : request.dir with
  | none => exact program_of_executable ha (by simp [hdir]) he
  | some dir =>
    rcases checkDirectory_cases fs processDir (hd dir hdir) with
      hok | ⟨e, path, herr⟩
    · refine program_of_executable ha ?_ he
      intro other ho
      rw [hdir] at ho
      cases ho
      exact hok
    · refine .inr ⟨e, path, ?_⟩
      simp [program, ha, hdir, herr, bind, Except.bind]

def wires (w : World) : Wiring → Prop
  | .inherited => True
  | .toFile path _ => ∃ p, path = some p ∧ w.fs.Writable w.processDir p

theorem openWiring_ends {wiring : Wiring} (h : wires w wiring) :
    (openWiring wiring).Ends w fun r w' =>
      (∃ place, r = .ok place) ∧ w.Steady w' ∧ (wiring = .inherited → w' = w) := by
  cases wiring with
  | inherited => exact Action.Ends.pure ⟨⟨none, rfl⟩, .refl w, fun _ => rfl⟩
  | toFile path append =>
    obtain ⟨p, rfl, hw⟩ := h
    have hb : openWiring (.toFile (some p) append) =
        Output.openTarget p append >>= fun l => pure (some l) := rfl
    rw [hb]
    apply (Output.openTarget_of_writable append hw).bind_of_returns (by simp)
    intro l w' hend
    obtain ⟨-, hs, -⟩ := hend
    exact Action.Ends.pure ⟨⟨some l, rfl⟩, hs, by simp⟩

theorem openWiring_ok {wiring : Wiring} (h : wires w wiring) :
    ∃ place w', openWiring wiring w = .ok place w' := by
  have hends := openWiring_ends h
  cases hopen : openWiring wiring w with
  | ok place w' => exact ⟨place, w', rfl⟩
  | error s w' =>
    obtain ⟨⟨_, he⟩, -⟩ := hends.error hopen
    cases he

structure Ended (request : Launch) (w : World) (r : Except Stop Int) : Prop where
  of_nul : request.NamesNul → r = .error (.fault .nulCharacter)
  of_no_nul : ¬ request.NamesNul → (∃ status, r = .ok status) ∨ (∃ f, r = .error (.failure f)) ∨
    (r = .error .interrupt ∧ w.fs.Interrupts w.processDir request.executable)

structure Wired (request : Launch) (w : World) : Prop where
  output : wires w request.output
  error : wires w request.error
  one_file : request.output = .inherited ∨ request.error = .inherited

theorem wires_inherited (w : World) : wires w .inherited := trivial

/-- Opening the output leaves the error stream as it was, since not both are files. -/
theorem Wired.error_after {output : Option Location} {w₁ : World} (h : request.Wired w)
    (ho : openWiring request.output w = .ok output w₁) : wires w₁ request.error := by
  obtain ⟨-, -, hsame⟩ := (openWiring_ends h.output).ok ho
  rcases h.one_file with hout | herr
  · rw [hsame hout]
    exact h.error
  · rw [herr]
    exact wires_inherited w₁

theorem run_ends (ha : request.arguments ≠ []) (he : hasNul request.executable = false)
    (h : request.Wired w) :
    request.run.Ends w fun r w' => request.Ended w r ∧ w.Steady w' := by
  obtain ⟨name, arguments, hargs⟩ := List.exists_cons_of_ne_nil ha
  obtain ⟨w₀, hw₀⟩ : ∃ w₀, w₀ = { w with launches := w.launches ++ [request] } := ⟨_, rfl⟩
  have hs₀ : w.Steady w₀ := hw₀ ▸ ⟨.refl w.fs, rfl, rfl, rfl⟩
  have hout : wires w₀ request.output := hw₀ ▸ h.output
  have herr : wires w₀ request.error := hw₀ ▸ h.error
  have hstart : Action.Ends (modify fun w => { w with launches := w.launches ++ [request] }) w
      fun r w' => r = .ok ⟨⟩ ∧ w' = w₀ := Action.Ends.modify ⟨rfl, hw₀.symm⟩
  unfold run
  apply hstart.bind_of_returns (by simp)
  intro _ w₁ hend
  obtain ⟨-, rfl⟩ := hend
  apply (openWiring_ends hout).bind_of_returns (by simp)
  intro output w₂ hend
  obtain ⟨-, hs₂, hsame⟩ := hend
  have herr : wires w₂ request.error := by
    rcases h.one_file with ho | ho
    · rw [hsame ho]
      exact herr
    · rw [ho]
      exact wires_inherited w₂
  apply (openWiring_ends herr).bind_of_returns (by simp)
  intro error w₃ hend
  obtain ⟨-, hs₃, -⟩ := hend
  have hs : w.Steady w₃ := (hs₀.trans hs₂).trans hs₃
  apply Action.Ends.get_bind
  by_cases hn : request.NamesNul
  · rw [program_of_nul hn]
    exact Action.Ends.throw ⟨⟨fun _ => rfl, fun hno => absurd hn hno⟩, hs⟩
  rcases program_cases w₃.fs w₃.processDir hn he with
    ⟨p, content, program, d, hrun, hl, hp, hnode⟩ | ⟨e, path, hrun⟩
  · rw [hrun]
    apply (Action.reports_emit output Action.reports_write _).bind
    intro w₄ hq₄
    apply (Action.reports_emit error Action.reports_writeError _).bind
    intro w₅ hq₅
    have hs₅ : w.Steady w₅ := (hs.trans hq₄.steady).trans hq₅.steady
    by_cases hi : program.interrupts = true
    · have hint : w.fs.Interrupts w.processDir request.executable := by
        apply hs.fs.interrupts
        rw [← hs.processDir]
        exact ⟨d, p, content, program, hl, hp, hnode, hi⟩
      simp only [hi, if_true]
      exact Action.Ends.throw ⟨⟨fun h => absurd h hn, fun _ => .inr (.inr ⟨rfl, hint⟩)⟩, hs₅⟩
    · simp only [hi]
      exact Action.Ends.pure ⟨⟨fun h => absurd h hn, fun _ => .inl ⟨_, rfl⟩⟩, hs₅⟩
  · rw [hrun]
    simp only [refusal, hargs]
    exact Action.Ends.throw ⟨⟨fun h => absurd h hn, fun _ => .inr (.inl ⟨_, rfl⟩)⟩, hs⟩

theorem ofCommand_wired {found : Found} {name : String} {arguments : List String}
    {r : Line.Redirection} {dir : Option String} (h : r.Ready w.fs w.processDir) :
    (ofCommand found name arguments r dir).Wired w := by
  unfold ofCommand
  by_cases ha : r.isActive = true
  · obtain ⟨path, ht⟩ := Line.Redirection.target_of_isActive ha
    have hw : wires w (.toFile r.target r.append) := ⟨path, ht, h path ha ht⟩
    by_cases hn : r.namesError = true
    · simp only [ha, hn]
      exact ⟨trivial, hw, .inl rfl⟩
    · simp only [ha, hn]
      exact ⟨hw, trivial, .inr rfl⟩
  · simp only [ha]
    exact ⟨trivial, trivial, .inl rfl⟩

theorem ofCommand_fields (found : Found) (name : String) (arguments : List String)
    (r : Line.Redirection) (dir : Option String) :
    (ofCommand found name arguments r dir).executable = found.path ∧
      (ofCommand found name arguments r dir).arguments = name :: arguments ∧
      (ofCommand found name arguments r dir).dir = dir := by
  unfold ofCommand
  split
  · exact ⟨rfl, rfl, rfl⟩
  split
  · exact ⟨rfl, rfl, rfl⟩
  · exact ⟨rfl, rfl, rfl⟩

theorem ofCommand_namesNul_iff {found : Found} {name : String} {arguments : List String}
    {r : Line.Redirection} {dir : String} (hn : hasNul name = false) :
    (ofCommand found name arguments r (some dir)).NamesNul ↔
      arguments.any hasNul = true ∨ hasNul dir = true := by
  obtain ⟨-, ha, hd⟩ := ofCommand_fields found name arguments r (some dir)
  simp [NamesNul, ha, hd, hn]

structure NamedEnded (w : World) (name : String) (arguments : List String)
    (r : Except Stop (Option Int)) : Prop where
  not_found : w.fs.findProgram? w.processDir name w.session.searchDirectories = none → r = .ok none
  found_nul : ∀ found,
    w.fs.findProgram? w.processDir name w.session.searchDirectories = some found →
    (arguments.any hasNul = true ∨ hasNul w.session.dir = true) → r = .error (.fault .nulCharacter)
  found_no_nul : ∀ found,
    w.fs.findProgram? w.processDir name w.session.searchDirectories = some found →
    ¬ (arguments.any hasNul = true ∨ hasNul w.session.dir = true) →
    (∃ status, r = .ok (some status)) ∨ (∃ f, r = .error (.failure f)) ∨
      (r = .error .interrupt ∧ w.fs.Interrupts w.processDir found.path)

theorem findProgram?_steady {w' : World} (h : w.Steady w') (name : String) :
    w'.fs.findProgram? w'.processDir name w'.session.searchDirectories =
      w.fs.findProgram? w.processDir name w.session.searchDirectories := by
  rw [h.processDir, h.session, h.fs.findProgram?]

theorem NamedEnded.of_steady {w' : World} {name : String} {arguments : List String}
    {r : Except Stop (Option Int)} (h : w.Steady w') (hr : NamedEnded w' name arguments r) :
    NamedEnded w name arguments r := by
  have hf := findProgram?_steady h name
  refine ⟨fun hn => hr.not_found (hf.trans hn), ?_, ?_⟩
  · intro found hfound hn
    rw [← h.session] at hn
    exact hr.found_nul found (hf.trans hfound) hn
  · intro found hfound hn
    rw [← h.session] at hn
    rcases hr.found_no_nul found (hf.trans hfound) hn with hok | hfail | ⟨hi, hp⟩
    · exact .inl hok
    · exact .inr (.inl hfail)
    · rw [h.processDir] at hp
      exact .inr (.inr ⟨hi, h.fs.interrupts hp⟩)

theorem NamedEnded.of_request {found : Found} {name : String} {arguments : List String}
    {r : Except Stop Int}
    (hf : w.fs.findProgram? w.processDir name w.session.searchDirectories = some found)
    (he : request.executable = found.path)
    (hn : request.NamesNul ↔ arguments.any hasNul = true ∨ hasNul w.session.dir = true)
    (h : request.Ended w r) : NamedEnded w name arguments (r.map some) := by
  refine ⟨?_, ?_, ?_⟩
  · intro hnone
    simp [hf] at hnone
  · intro _ _ hbad
    have hstop := h.of_nul (hn.mpr hbad)
    rw [hstop]
    rfl
  · intro other hother hgood
    rw [hf] at hother
    cases hother
    rcases h.of_no_nul (fun hbad => hgood (hn.mp hbad)) with
      ⟨status, rfl⟩ | ⟨f, rfl⟩ | ⟨rfl, hprogram⟩
    · exact .inl ⟨status, rfl⟩
    · exact .inr (.inl ⟨f, rfl⟩)
    · exact .inr (.inr ⟨rfl, he ▸ hprogram⟩)

theorem runNamed_ends {name : String} {arguments : List String} {r : Line.Redirection}
    (h : r.Ready w.fs w.processDir) :
    (runNamed name arguments r).Ends w fun res w' =>
      NamedEnded w name arguments res ∧ w.Steady w' := by
  unfold runNamed
  apply Action.Ends.get_bind
  cases hf : w.fs.findProgram? w.processDir name w.session.searchDirectories with
  | none =>
    apply (Action.reports_log _ _ _ _ _).bind
    intro w₁ hq₁
    apply (Action.reports_say _).bind
    intro w₂ hq₂
    refine Action.Ends.pure ⟨⟨fun _ => rfl, ?_, ?_⟩, (hq₁.trans hq₂).steady⟩
    · intro found hfound
      simp [hf] at hfound
    · intro found hfound
      simp [hf] at hfound
  | some found =>
    obtain ⟨he, hn⟩ := FileSystem.findProgram?_no_nul hf
    obtain ⟨request, hr⟩ : ∃ request, request =
        ofCommand found name arguments r (some w.session.dir) := ⟨_, rfl⟩
    obtain ⟨hexe, hargs, -⟩ := hr ▸ ofCommand_fields found name arguments r (some w.session.dir)
    have hnul : request.NamesNul ↔
        arguments.any hasNul = true ∨ hasNul w.session.dir = true := by
      rw [hr]
      exact ofCommand_namesNul_iff hn
    dsimp only
    rw [← hr]
    apply (Action.reports_log _ _ _ _ _).bind
    intro w₁ hq₁
    have hready := h.sameNodes hq₁.fs
    rw [← hq₁.processDir] at hready
    have hw : request.Wired w₁ := hr ▸ ofCommand_wired hready
    have hf₁ := (findProgram?_steady hq₁.steady name).trans hf
    have hnul₁ : request.NamesNul ↔
        arguments.any hasNul = true ∨ hasNul w₁.session.dir = true := by
      rw [hq₁.session]
      exact hnul
    apply (run_ends (by simp [hargs]) (hexe ▸ he) hw).bind
    · intro status w₂ hpost
      obtain ⟨hend, hs₂⟩ := hpost
      have hnamed := (NamedEnded.of_request hf₁ hexe hnul₁ hend).of_steady hq₁.steady
      apply (Action.reports_log _ _ _ _ _).bind
      intro w₃ hq₃
      exact Action.Ends.pure ⟨hnamed, (hq₁.steady.trans hs₂).trans hq₃.steady⟩
    · intro s w₂ hpost
      obtain ⟨hend, hs₂⟩ := hpost
      have hnamed := (NamedEnded.of_request hf₁ hexe hnul₁ hend).of_steady hq₁.steady
      exact ⟨hnamed, hq₁.steady.trans hs₂⟩

end Launch

end CommandShell
