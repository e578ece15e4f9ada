import CommandShell.Proofs.Shell.Outcome

/-! # The working directory of a session

A session that starts in a directory by its canonical path stays in such directories, whatever lines
it runs and wherever they stop. Only a `cd` that succeeds takes it from one to another, and nothing
else in the session changes. -/
namespace CommandShell

open FileSystem (AgreesOff Canonical SameNodes)
open Line (Command Redirection)

def World.movedTo (w : World) (dir : String) : World :=
  { w with session := { w.session with dir } }

/-- What running `cd` comes to, by what the lookup of its target says. -/
structure Builtin.CdFollows (w : World) (arguments : List String) (shown target : String) :
    Prop where
  reached : ∀ d, w.fs.locate w.processDir target = .ok d → w.fs.isDirectoryAt d = true →
    w.fs.Canonical w.processDir d.text d ∧
      ∃ w', cd.run arguments w = .ok ⟨true, ""⟩ w' ∧
        (w.movedTo d.text).Alike w.journal.files w'
  missed : (∀ d, w.fs.locate w.processDir target = .ok d → w.fs.isDirectoryAt d = false) →
    cd.run arguments w = .ok (Session.notReached shown) w

namespace Shell

/-- The same of a line that runs `cd` where its redirection has been opened, at a location or
nowhere. -/
structure CdLineFollows (w : World) (line : String) (r : Redirection) (l : Option Location)
    (shown target : String) : Prop where
  reached : ∀ d, w.fs.locate w.processDir target = .ok d → w.fs.isDirectoryAt d = true →
    ∃ w', executeLine line w = .ok none w' ∧
      ((w.prepared r l).movedTo d.text).Alike w.journal.files w'
  missed : (∀ d, w.fs.locate w.processDir target = .ok d → w.fs.isDirectoryAt d = false) →
    ∃ w', executeLine line w = .ok none w' ∧
      ((w.prepared r l).delivered r l ((Session.notReached shown).portions r)).Alike
        w.journal.files w'

def afterLine (w : World) (line : String) : World :=
  match executeLine line w with
  | .ok _ w' | .error _ w' => w'

def afterLines (w : World) (lines : List String) : World :=
  lines.foldl afterLine w

/-- The prompts of the read loop, by the worlds in which they are shown and the input that is left
then. -/
inductive Prompts (start : World) (input : List Read) : World → List Read → Prop where
  | first : Prompts start input start input
  | interrupt {w w' rest} : Prompts start input w (.interrupt :: rest) →
      (do showPrompt; Action.write "\n") w = .ok () w' → Prompts start input w' rest
  | line {w w' text rest} : Prompts start input w (.line text :: rest) →
      (do showPrompt; answerLine text) w = .ok none w' → w'.running = true →
      Prompts start input w' rest

structure Settled (start w : World) : Prop where
  nameable : w.fs.Nameable
  directory : ∃ d, w.fs.Canonical w.processDir w.session.dir d
  searchPath : w.session.searchPath = start.session.searchPath
  home : w.session.home = start.session.home

variable {start w w' : World}

theorem settled_start (hfs : start.fs.Nameable)
    (hd : ∃ d, start.fs.Canonical start.processDir start.session.dir d) : Settled start start :=
  ⟨hfs, hd, rfl, rfl⟩

theorem Settled.changes {line : String} (h : Settled start w)
    (hc : w.Changes (CdLine w line) w') : Settled start w' := by
  have hfs := hc.fs.nameable h.nameable
  obtain ⟨d, hd⟩ := h.directory
  rcases hc.session with hs | ⟨c, -, -, hg⟩
  · refine ⟨hfs, ⟨d, ?_⟩, ?_, ?_⟩
    · rw [hs, hc.processDir]
      exact hd.grows hc.fs
    · rw [hs]
      exact h.searchPath
    · rw [hs]
      exact h.home
  · obtain ⟨e, he⟩ := hg.canonical h.nameable hd.startsAtRoot
    refine ⟨hfs, ⟨e, ?_⟩, ?_, ?_⟩
    · rw [hc.processDir]
      exact he.grows hc.fs
    · rw [hg.session_eq]
      exact h.searchPath
    · rw [hg.session_eq]
      exact h.home

theorem Settled.steady (h : Settled start w) (hs : w.Steady w') : Settled start w' := by
  have hc : w.Changes (CdLine w "") w' := hs.changes
  exact h.changes hc

theorem afterLine_changes (w : World) (line : String) :
    w.Changes (CdLine w line) (afterLine w line) := by
  have hends := executeLine_ends line w
  unfold afterLine
  cases hrun : executeLine line w with
  | ok status w' => exact (hends.ok hrun).changes
  | error s w' => exact (hends.error hrun).changes

theorem cdLine_of_moved {line : String} (hc : w.Changes (CdLine w line) w')
    (hd : w'.session.dir ≠ w.session.dir) : CdLine w line w'.session := by
  rcases hc.session with hs | hg
  · rw [hs] at hd
    exact absurd rfl hd
  · exact hg

theorem Settled.lines (h : Settled start w) (lines : List String) :
    Settled start (afterLines w lines) := by
  induction lines generalizing w with
  | nil => exact h
  | cons line rest ih => exact ih (h.changes (afterLine_changes w line))

theorem cd_run_of_goes {arguments : List String} {dir : String}
    (h : w.Goes arguments { w.session with dir }) : ∃ w',
      Builtin.cd.run arguments w = .ok ⟨true, ""⟩ w' ∧
        (w.movedTo dir).Alike w.journal.files w' := by
  obtain ⟨w', hrun, -⟩ := Builtin.cd_of_goes h
  have hleaves : Builtin.cd.leaves w arguments = w.movedTo dir := by
    unfold World.Goes at h
    simp only [Builtin.leaves, h, World.movedTo]
  have hends := (Builtin.gives_cd arguments w (.self w)).ok hrun
  rw [hleaves] at hends
  exact ⟨w', hrun, hends.2⟩

theorem cd_follows {arguments : List String} {shown target : String} (hfs : w.fs.Nameable)
    (habs : Path.startsAtRoot w.session.dir = true)
    (ht : w.session.target arguments.head? = .ok (shown, target)) :
    Builtin.CdFollows w arguments shown target := by
  have hfollows := Session.cdFollows hfs w.processDir habs ht
  constructor
  · intro d hl hd
    obtain ⟨hcd, hcanonical⟩ := hfollows.reached d hl hd
    exact ⟨hcanonical, cd_run_of_goes hcd⟩
  · intro hno
    exact Builtin.cd_of_missed (hfollows.missed hno)

/-- The outcome of a command that runs `cd`, told from the world before its redirection. -/
theorem outcome_cd {c : Command} {l : Option Location} {result : Result} {s : Session}
    (hb : w.builtins.get? c.name = some .cd)
    (h : w.session.changeDirectory w.fs w.processDir c.arguments = .ok (result, s)) :
    outcome w c l = ⟨.ok none, result.portions (redirectionIn w c),
      { w.prepared (redirectionIn w c) l with session := s }⟩ := by
  obtain ⟨w₁, hw₁⟩ : ∃ w₁, w₁ = w.prepared (redirectionIn w c) l := ⟨_, rfl⟩
  have hcd := (w.prepared_steady (redirectionIn w c) l).changeDirectory c.arguments
  rw [← hw₁, h] at hcd
  have hb₁ : w₁.builtins.get? c.name = some .cd := by
    rw [hw₁]
    exact hb
  rw [outcome, ← hw₁]
  simp only [Outcome.ofCommand, hb₁, Outcome.ofBuiltin, Builtin.answer, Builtin.leaves, hcd]
  exact Outcome.reported_of_not_failure (by simp)

theorem cd_line_gives {line : String} {c : Command} {l : Option Location} {result : Result}
    {s : Session} (hc : Command.ofLine line = .ok c) (hb : w.builtins.get? c.name = some .cd)
    (hl : (redirectionIn w c).Aims w.fs w.processDir l)
    (h : w.session.changeDirectory w.fs w.processDir c.arguments = .ok (result, s)) :
    ∃ w', executeLine line w = .ok none w' ∧
      (World.delivered { w.prepared (redirectionIn w c) l with session := s } (redirectionIn w c) l
        (result.portions (redirectionIn w c))).Alike w.journal.files w' := by
  have hends := gives_executeLine hc hl w (.self w)
  rw [outcome_cd hb h] at hends
  cases hrun : executeLine line w with
  | ok status w' =>
    obtain ⟨hstatus, halike⟩ := hends.ok hrun
    cases hstatus
    exact ⟨w', rfl, halike⟩
  | error stop w' =>
    have hstop := (hends.error hrun).1
    cases hstop

theorem cd_line_of_goes {line : String} {c : Command} {l : Option Location} {dir : String}
    (hc : Command.ofLine line = .ok c) (hb : w.builtins.get? c.name = some .cd)
    (hl : (redirectionIn w c).Aims w.fs w.processDir l)
    (h : w.Goes c.arguments { w.session with dir }) :
    ∃ w', executeLine line w = .ok none w' ∧
      ((w.prepared (redirectionIn w c) l).movedTo dir).Alike w.journal.files w' := by
  obtain ⟨w', hrun, halike⟩ := cd_line_gives hc hb hl h
  have hopened := hl.isOpen.opened
  refine ⟨w', hrun, { halike with fs := ?_, nodes := ?_, output := ?_, texts := ?_ }⟩
  · exact AgreesOff.trans (.of_eq hopened) halike.fs
  · exact SameNodes.trans (.of_eq hopened) halike.nodes
  · exact halike.output.trans String.append_empty
  · exact halike.texts.trans ((World.texts_append _ "").trans String.append_empty)

theorem cd_line_follows {line : String} {c : Command} {l : Option Location}
    {shown target : String} (hfs : w.fs.Nameable) (habs : Path.startsAtRoot w.session.dir = true)
    (ht : w.session.target c.arguments.head? = .ok (shown, target))
    (hc : Command.ofLine line = .ok c) (hb : w.builtins.get? c.name = some .cd)
    (hl : (redirectionIn w c).Aims w.fs w.processDir l) :
    CdLineFollows w line (redirectionIn w c) l shown target := by
  have hfollows := Session.cdFollows hfs w.processDir habs ht
  constructor
  · intro d hd hdirectory
    exact cd_line_of_goes hc hb hl (hfollows.reached d hd hdirectory).1
  · intro hno
    exact cd_line_gives hc hb hl (hfollows.missed hno)

theorem cdLine_iff {line : String} {s : Session} : CdLine w line s ↔
    ∃ c, Command.ofLine line = .ok c ∧ w.builtins.get? c.name = some .cd ∧
      ∃ w', Builtin.cd.run c.arguments w = .ok ⟨true, ""⟩ w' ∧ w'.session = s := by
  simp only [CdLine, Builtin.goes_iff_cd]

theorem Settled.goes_here (h : Settled start w) : w.Goes [w.session.dir] w.session := by
  obtain ⟨d, hd⟩ := h.directory
  exact Session.changeDirectory_here h.nameable hd

theorem Settled.cd_here (h : Settled start w) : ∃ w',
    Builtin.cd.run [w.session.dir] w = .ok ⟨true, ""⟩ w' ∧ w.Alike w.journal.files w' :=
  cd_run_of_goes h.goes_here

/-- A line that is `cd` to the working directory writes nothing and leaves everything as it is. -/
theorem Settled.cd_line (h : Settled start w) {line name : String}
    (hl : Command.ofLine line = .ok ⟨name, [w.session.dir], {}⟩)
    (hb : w.builtins.get? name = some .cd) :
    ∃ w', executeLine line w = .ok none w' ∧ w.Alike w.journal.files w' :=
  cd_line_of_goes (l := none) hl hb (.nowhere rfl) h.goes_here

theorem showPrompt_ends (w : World) : showPrompt.Ends w fun _ w' => w.Quiet w' := by
  unfold showPrompt
  apply Action.Ends.get_bind
  split
  · exact (Action.reports_write _ w).imp fun _ _ h => h.2
  · exact Action.Ends.throw (.refl w)

theorem report_ends (kind message : String) (w : World) :
    (afterStop.report kind message).Ends w fun _ w' => w.Quiet w' := by
  unfold afterStop.report
  apply (Action.reports_log _ _ _ _ _).bind
  intro w₁ hq₁
  apply (Action.reports_complain _).bind
  intro w₂ hq₂
  exact Action.Ends.pure (hq₁.trans hq₂)

theorem afterStop_ends (s : Stop) (w : World) :
    (afterStop s).Ends w fun _ w' => w.Quiet w' := by
  cases s with
  | exit e => exact Action.Ends.pure (.refl w)
  | interrupt =>
    unfold afterStop
    apply (Action.reports_write _).bind
    intro w' hq
    exact Action.Ends.pure hq
  | failure f => exact report_ends _ _ w
  | fault f => exact report_ends _ _ w

theorem answerLine_ends (text : String) (w : World) :
    (answerLine text).Ends w fun _ w' => w.Changes (CdLine w (Read.withoutEnd text)) w' := by
  unfold answerLine
  apply (executeLine_ends (Read.withoutEnd text) w).outcome_bind
  intro r w₁ h
  cases r with
  | ok status => exact Action.Ends.pure h.changes
  | error s => exact (afterStop_ends s w₁).imp fun _ _ hq => h.changes.steady_after hq.steady

theorem CdLine.steady {line : String} {s : Session} (h : w.Steady w') (hc : CdLine w' line s) :
    CdLine w line s := by
  obtain ⟨c, hl, hb, hg⟩ := hc
  rw [h.builtins] at hb
  exact ⟨c, hl, hb, h.goes_iff.mp hg⟩

theorem prompted_line_ends (text : String) (w : World) :
    (do showPrompt; answerLine text : Action (Option Int)).Ends w fun _ w' =>
      w.Changes (CdLine w (Read.withoutEnd text)) w' := by
  apply (showPrompt_ends w).bind
  · intro _ w₁ hq
    apply (answerLine_ends text w₁).imp
    intro _ w₂ hc
    exact hq.steady.changes_after (hc.imp fun _ hl => hl.steady hq.steady)
  · intro _ w₁ hq
    exact hq.steady.changes

theorem prompted_interrupt_ends (w : World) :
    (do showPrompt; Action.write "\n" : Action Unit).Ends w fun _ w' => w.Quiet w' := by
  apply (showPrompt_ends w).bind
  · intro _ w₁ hq
    exact (Action.reports_write _ w₁).imp fun _ _ h => hq.trans h.2
  · intro _ w₁ hq
    exact hq

theorem Prompts.readLoop {input rest : List Read} (h : Prompts start input w rest) :
    readLoop input start = readLoop rest w := by
  induction h with
  | first => rfl
  | interrupt _ hrun ih =>
    obtain ⟨_, w₁, hp, hw⟩ := Action.ok_of_bind hrun
    rw [ih, Shell.readLoop, Action.bind_of_ok hp, Action.bind_of_ok hw]
  | line _ hrun hrunning ih =>
    obtain ⟨_, w₁, hp, ha⟩ := Action.ok_of_bind hrun
    rw [ih, Shell.readLoop, Action.bind_of_ok hp, Action.bind_of_ok ha]
    dsimp only
    rw [Action.get_bind, if_pos hrunning]

theorem Settled.prompts {input rest : List Read} (hs : Settled start start)
    (h : Prompts start input w rest) : Settled start w := by
  induction h with
  | first => exact hs
  | interrupt _ hrun ih => exact ih.steady ((prompted_interrupt_ends _).ok hrun).steady
  | line _ hrun _ ih => exact ih.changes ((prompted_line_ends _ _).ok hrun)

/-- `cd` goes where the lookup of its target goes and nowhere else, to the canonical path of a
directory, by itself and as the command of a line. A session that starts in such a directory is in
one after any lines and at every prompt, with the variables that it had at its start; a line that
moved it is a `cd` that succeeded, and `cd` to where it is succeeds and changes nothing. -/
theorem working_directory_stays_canonical :
    (∀ (w : World) (arguments : List String), w.fs.Nameable →
      Path.startsAtRoot w.session.dir = true →
      (∀ f, w.session.target arguments.head? = .error f →
        Builtin.cd.run arguments w = .error (.fault f) w) ∧
      ∀ shown target, w.session.target arguments.head? = .ok (shown, target) →
        Path.startsAtRoot target = true ∧ Builtin.CdFollows w arguments shown target ∧
        ∀ line c l, Command.ofLine line = .ok c → c.arguments = arguments →
          w.builtins.get? c.name = some .cd → (redirectionIn w c).Aims w.fs w.processDir l →
          CdLineFollows w line (redirectionIn w c) l shown target) ∧
    (∀ start : World, start.fs.Nameable →
      (∃ d, start.fs.Canonical start.processDir start.session.dir d) →
      (∀ lines, Settled start (afterLines start lines)) ∧
      (∀ input w rest, Prompts start input w rest →
        Settled start w ∧ readLoop input start = readLoop rest w)) ∧
    (∀ w line, (afterLine w line).session.dir ≠ w.session.dir →
      CdLine w line (afterLine w line).session) ∧
    (∀ w text w', (do showPrompt; answerLine text) w = .ok none w' →
      w'.session.dir ≠ w.session.dir → CdLine w (Read.withoutEnd text) w'.session) ∧
    (∀ w line s, CdLine w line s ↔
      ∃ c, Command.ofLine line = .ok c ∧ w.builtins.get? c.name = some .cd ∧
        ∃ w', Builtin.cd.run c.arguments w = .ok ⟨true, ""⟩ w' ∧ w'.session = s) ∧
    (∀ start w, Settled start w →
      Builtin.pwd.run [] w = .ok ⟨true, w.session.dir⟩ w ∧
      (∃ w', Builtin.cd.run [w.session.dir] w = .ok ⟨true, ""⟩ w' ∧
        w.Alike w.journal.files w') ∧
      ∀ line name, Command.ofLine line = .ok ⟨name, [w.session.dir], {}⟩ →
        w.builtins.get? name = some .cd →
        ∃ w', executeLine line w = .ok none w' ∧ w.Alike w.journal.files w') := by
  refine ⟨?_, ?_, ?_, ?_, fun _ _ _ => cdLine_iff, ?_⟩
  · intro w arguments hfs habs
    refine ⟨fun _ ht => Builtin.cd_of_fault (Session.changeDirectory_of_target_error ht), ?_⟩
    intro shown target ht
    refine ⟨Session.startsAtRoot_target habs ht, cd_follows hfs habs ht, ?_⟩
    rintro line c l hc rfl hb hl
    exact cd_line_follows hfs habs ht hc hb hl
  · intro start hfs hd
    have hs := settled_start hfs hd
    exact ⟨hs.lines, fun _ _ _ h => ⟨hs.prompts h, h.readLoop⟩⟩
  · intro w line
    exact cdLine_of_moved (afterLine_changes w line)
  · intro w text w' hrun
    exact cdLine_of_moved ((prompted_line_ends text w).ok hrun)
  · intro start w h
    exact ⟨rfl, h.cd_here, fun _ _ hl hb => h.cd_line hl hb⟩

/-- A directory and a link to it: `cd` to the link comes to the directory, which is where the shell
is then; `cd` to what is not there is answered and goes nowhere. -/
theorem working_directory_by_link :
    let fs : FileSystem := { nodes := [(["a"], .directory {}), (["b"], .link "a")] }
    let w : World := { fs }
    fs.Nameable ∧ fs.Canonical "/" "/" [] ∧
      (∃ w', Builtin.cd.run ["b/."] w = .ok ⟨true, ""⟩ w' ∧ w'.session = { dir := "/a" }) ∧
      Builtin.cd.run ["c"] w = .ok ⟨false, "cd: c: No such file or directory"⟩ w ∧
      (∃ w', executeLine "cd b" w = .ok none w' ∧ w'.session = { dir := "/a" } ∧
        w'.output = "") ∧
      (∃ w', executeLine "cd c" w = .ok none w' ∧ w'.session = { dir := "/" } ∧
        w'.output = "cd: c: No such file or directory\n") ∧
      ∀ lines, Settled w (afterLines w lines) := by
  intro fs w
  have hnode (l : Location) (n : Node) (h : fs.node? l = some n) :
      l = [] ∨ l = ["a"] ∨ l = ["b"] := by
    match l with
    | [] => exact .inl rfl
    | c :: above =>
      simp only [fs, FileSystem.node?, Table.get?] at h
      split at h
      · next e => exact .inr (.inl e.symm)
      · split at h
        · next e => exact .inr (.inr e.symm)
        · simp at h
  have haddr (l : Location) (n : Node) (h : fs.node? l = some n) : FileSystem.Addressable l := by
    rcases hnode l n h with rfl | rfl | rfl
    · exact ⟨by decide, by decide⟩
    · exact ⟨by decide, by decide⟩
    · exact ⟨by decide, by decide⟩
  have hfs : fs.Nameable := ⟨fun l p h => haddr l _ h, fun l t h => haddr l _ h⟩
  have hcanonical : fs.Canonical "/" "/" [] := by
    refine ⟨rfl, Location.proper_nil, ?_, rfl⟩
    intro k hk
    rw [List.suffix_nil.mp hk]
    rfl
  obtain ⟨hcd, hsession, -⟩ := working_directory_stays_canonical
  have hlocate : w.fs.locate w.processDir "/b" = .ok ["a"] := rfl
  have hnone (d : Location) (h : w.fs.locate w.processDir "/c" = .ok d) :
      w.fs.isDirectoryAt d = false := by
    cases h
  have htarget (p target : String) (hp : Session.homeOperation? p.toList = none)
      (hresolve : Path.resolve p "/" = target) : w.session.target [p].head? = .ok (p, target) :=
    hresolve ▸ Session.target_of_plain hp
  have hdots := htarget "b/." "/b" (by decide) (by decide)
  have hlink := htarget "b" "/b" (by decide) (by decide)
  have hother := htarget "c" "/c" (by decide) (by decide)
  obtain ⟨-, hreached, -⟩ := (hcd w ["b/."] hfs (by decide)).2 _ _ hdots
  obtain ⟨-, -, hline⟩ := (hcd w ["b"] hfs (by decide)).2 _ _ hlink
  obtain ⟨-, hmissed, hmissedLine⟩ := (hcd w ["c"] hfs (by decide)).2 _ _ hother
  obtain ⟨-, w₁, hrun₁, halike₁⟩ := hreached.reached ["a"] hlocate rfl
  obtain ⟨w₂, hrun₂, halike₂⟩ :=
    (hline "cd b" ⟨"cd", ["b"], {}⟩ none rfl rfl rfl (.nowhere rfl)).reached ["a"]
      hlocate rfl
  obtain ⟨w₃, hrun₃, halike₃⟩ :=
    (hmissedLine "cd c" ⟨"cd", ["c"], {}⟩ none rfl rfl rfl (.nowhere rfl)).missed
      hnone
  exact ⟨hfs, hcanonical, ⟨w₁, hrun₁, halike₁.session⟩, hmissed.missed hnone,
    ⟨w₂, hrun₂, halike₂.session, halike₂.output⟩, ⟨w₃, hrun₃, halike₃.session, halike₃.output⟩,
    (hsession w hfs ⟨[], hcanonical⟩).1⟩

end Shell

end CommandShell
