import CommandShell.Proofs.Paths
import CommandShell.Proofs.Shell.Targets

/-! # What a name stands for

What `type` says of a name is what the shell does with it: it runs a built-in command, or it starts
the first program that is found, or it finds nothing. The file that is made for a redirection in
between is never a program, so it makes no difference. -/
namespace CommandShell.Shell

open Line (Command Redirection)

def afterCommand (w : World) (c : Command) : World :=
  match runCommand c w with
  | .ok _ w' | .error _ w' => w'

def described (w : World) (name : String) : Result :=
  w.builtins.describe w.fs w.processDir w.session [name]

/-- Between the opening of its redirection and the delivery of its result, the command is run by the
built-in command with its name. -/
def RunsBuiltin (w : World) (c : Command) : Prop :=
  ∃ b, w.builtins.get? c.name = some b ∧ runCommand c w = (do
    Output.prepare (redirectionIn w c)
    Action.log .debug "builtins" ("Running builtin " ++ c.name)
      [("args", .list (c.arguments.map .text))]
    let result ← b.run c.arguments
    Output.route result (redirectionIn w c)
    return none : Action (Option Int)) w

/-- The path that names a program in the first of the directories that hold one with the name: a
regular file that the user may execute. -/
def FirstProgram (w : World) (name path : String) : Prop :=
  let names (p : String) := w.fs.isFile w.processDir p = true ∧
    w.fs.mayExecute w.processDir p = true
  ∃ before directory after, w.session.searchDirectories = before ++ directory :: after ∧
    path = Path.Posix.join directory name ∧ names path ∧
    ∀ other ∈ before, ¬ names (Path.Posix.join other name)

variable {w : World} {c : Command} {name path : String} {l : Option Location}

theorem firstProgram_of_found {found : Found}
    (h : w.fs.findProgram? w.processDir name w.session.searchDirectories = some found) :
    FirstProgram w name found.path := by
  unfold FileSystem.findProgram? at h
  split at h
  · simp at h
  obtain ⟨before, directory, after, hdirs, hfound, hbefore⟩ := List.findSome?_eq_some_iff.mp h
  dsimp only at hfound hbefore
  split at hfound
  · next hp =>
    cases hfound
    refine ⟨before, directory, after, hdirs, rfl, by simpa using hp, ?_⟩
    intro other hother hnames
    have hnone := hbefore other hother
    simp [hnames.1, hnames.2] at hnone
  · simp at hfound

theorem startsAtRoot_of_searched {directory : String}
    (habs : Path.startsAtRoot w.session.dir = true)
    (hd : directory ∈ w.session.searchDirectories) : Path.startsAtRoot directory = true := by
  obtain ⟨entry, -, rfl⟩ := List.mem_map.mp hd
  exact Path.Posix.startsAtRoot_absoluteFrom entry habs

theorem FirstProgram.startsAtRoot (habs : Path.startsAtRoot w.session.dir = true)
    (h : FirstProgram w name path) : Path.startsAtRoot path = true := by
  obtain ⟨before, directory, after, hdirs, rfl, -, -⟩ := h
  have hd : directory ∈ w.session.searchDirectories := by simp [hdirs]
  exact Path.Posix.startsAtRoot_join name (startsAtRoot_of_searched habs hd)

theorem afterCommand_alike (h : (redirectionIn w c).Aims w.fs w.processDir l) :
    let o := Outcome.ofCommand (w.prepared (redirectionIn w c) l) c (redirectionIn w c)
    (o.world.delivered (redirectionIn w c) l o.text).Alike w.journal.files (afterCommand w c) := by
  intro o
  have hends := gives_runCommand h w (.self w)
  unfold afterCommand
  cases hrun : runCommand c w with
  | ok status v => exact (hends.ok hrun).2
  | error s v => exact (hends.error hrun).2

theorem runsBuiltin (ho : Opens w c) {b : Builtin} (hb : w.builtins.get? c.name = some b) :
    RunsBuiltin w c := by
  refine ⟨b, hb, ?_⟩
  have hprepare := Output.prepare_of_ready ho
  unfold runCommand
  rw [Action.get_bind]
  unfold redirectionIn at hprepare ⊢
  cases hrun : Output.prepare (c.redirection.resolved w.session.dir) w with
  | error s v =>
    have hstop := (hprepare.error hrun).1
    simp at hstop
  | ok u v =>
    have hb' : v.builtins.get? c.name = some b := by
      rw [(hprepare.ok hrun).2.1.builtins]
      exact hb
    have hhas : v.builtins.has c.name = true := by simp [Builtins.has, hb']
    rw [Action.bind_of_ok hrun, Action.bind_of_ok hrun, Action.get_bind, if_pos hhas]
    unfold Builtins.run
    simp only [bind_assoc]
    rw [Action.get_bind, hb']
    simp only [bind_assoc]

theorem described_of_builtin {b : Builtin} (hn : name ≠ "")
    (hb : w.builtins.get? name = some b) :
    described w name = ⟨true, name ++ " is a shell builtin"⟩ := by
  simp [described, Builtins.describe, Builtins.has, hb]

theorem described_of_found {found : Found} (hn : name ≠ "")
    (hb : w.builtins.get? name = none)
    (hf : w.fs.findProgram? w.processDir name w.session.searchDirectories = some found) :
    described w name = ⟨true, name ++ " is " ++ found.path⟩ := by
  simp [described, Builtins.describe, Builtins.has, hb, hf]

theorem described_of_not_found (hn : name ≠ "") (hb : w.builtins.get? name = none)
    (hf : w.fs.findProgram? w.processDir name w.session.searchDirectories = none) :
    described w name = ⟨false, name ++ ": not found"⟩ := by
  simp [described, Builtins.describe, Builtins.has, hb, hf]

theorem not_runsBuiltin (hb : w.builtins.get? c.name = none) : ¬ RunsBuiltin w c := by
  intro hx
  obtain ⟨b, hb', -⟩ := hx
  simp [hb] at hb'

/-- What a command does that can open its redirection, by what there is under its name. -/
inductive Dispatched (w : World) (c : Command) : Prop where
  | builtin : described w c.name = ⟨true, c.name ++ " is a shell builtin"⟩ → RunsBuiltin w c →
      (afterCommand w c).launches = w.launches → Dispatched w c
  | program {path request} : described w c.name = ⟨true, c.name ++ " is " ++ path⟩ →
      FirstProgram w c.name path → ¬ RunsBuiltin w c →
      (afterCommand w c).launches = w.launches ++ [request] → request.executable = path →
      request.arguments = c.name :: c.arguments → request.dir = some w.session.dir →
      Dispatched w c
  | nothing : described w c.name = ⟨false, c.name ++ ": not found"⟩ → ¬ RunsBuiltin w c →
      (afterCommand w c).launches = w.launches →
      (afterCommand w c).output = w.output ++ (c.name ++ ": command not found\n") →
      Dispatched w c

theorem ofBuiltin_launches (w : World) (r : Redirection) (b : Builtin) (arguments : List String) :
    (Outcome.ofBuiltin w r b arguments).world.launches = w.launches := by
  have hleaves := b.leaves_eq w arguments
  unfold Outcome.ofBuiltin
  cases b.answer w arguments with
  | ok result =>
    dsimp only
    rw [hleaves]
  | error s =>
    dsimp only
    rw [hleaves]

theorem dispatched (hn : c.name ≠ "") (ho : Opens w c) : Dispatched w c := by
  obtain ⟨l, haim⟩ := ho.exists_aim
  have halike := afterCommand_alike haim
  have hsteady := w.prepared_steady (redirectionIn w c) l
  have hfound := Launch.findProgram?_steady hsteady c.name
  generalize redirectionIn w c = r at halike hsteady hfound
  dsimp only at halike
  unfold Outcome.ofCommand at halike
  rw [hsteady.builtins] at halike
  cases hb : w.builtins.get? c.name with
  | some b =>
    rw [hb] at halike
    have hlaunches := halike.launches.trans (ofBuiltin_launches (w.prepared r l) r b c.arguments)
    exact .builtin (described_of_builtin hn hb) (runsBuiltin ho hb) hlaunches
  | none =>
    unfold Outcome.ofName at halike
    rw [hb, hfound] at halike
    cases hf : w.fs.findProgram? w.processDir c.name w.session.searchDirectories with
    | some found =>
      rw [hf] at halike
      obtain ⟨hexe, hargs, hdir⟩ := Launch.ofCommand_fields found c.name c.arguments r
        (some w.session.dir)
      exact .program (described_of_found hn hb hf) (firstProgram_of_found hf) (not_runsBuiltin hb)
        halike.launches hexe hargs hdir
    | none =>
      rw [hf] at halike
      exact .nothing (described_of_not_found hn hb hf) (not_runsBuiltin hb) halike.launches
        halike.output

theorem builtin_ne_path (name : String) {path : String} (hp : Path.startsAtRoot path = true) :
    name ++ " is a shell builtin" ≠ name ++ " is " ++ path := by
  intro he
  have hwords : " is a shell builtin" = " is " ++ "a shell builtin" := rfl
  rw [hwords, ← String.append_assoc, String.append_right_inj] at he
  subst he
  simp [Path.startsAtRoot] at hp

theorem launches_append_ne (w : World) (request : Launch) :
    w.launches ++ [request] ≠ w.launches := by
  simp

theorem Dispatched.builtin_iff (h : Dispatched w c)
    (habs : Path.startsAtRoot w.session.dir = true) :
    described w c.name = ⟨true, c.name ++ " is a shell builtin"⟩ ↔
      RunsBuiltin w c ∧ (afterCommand w c).launches = w.launches := by
  cases h with
  | builtin hd hr hl => exact ⟨fun _ => ⟨hr, hl⟩, fun _ => hd⟩
  | @program found request hd hfirst hr hl hexe hargs hdir =>
    rw [hd]
    constructor
    · intro he
      exact absurd (Result.mk.inj he).2.symm (builtin_ne_path c.name (hfirst.startsAtRoot habs))
    · intro hx
      exact absurd hx.1 hr
  | nothing hd hr hl hout =>
    rw [hd]
    constructor
    · intro he
      simp at he
    · intro hx
      exact absurd hx.1 hr

theorem Dispatched.program_iff (h : Dispatched w c) {path : String}
    (hp : Path.startsAtRoot path = true) :
    described w c.name = ⟨true, c.name ++ " is " ++ path⟩ ↔
      FirstProgram w c.name path ∧ ∃ request,
        (afterCommand w c).launches = w.launches ++ [request] ∧ request.executable = path ∧
        request.arguments = c.name :: c.arguments ∧ request.dir = some w.session.dir := by
  cases h with
  | builtin hd hr hl =>
    rw [hd, hl]
    constructor
    · intro he
      exact absurd (Result.mk.inj he).2 (builtin_ne_path c.name hp)
    · intro hx
      obtain ⟨-, request, hrequest, -⟩ := hx
      exact absurd hrequest.symm (launches_append_ne w request)
  | @program found request hd hfirst hr hl hexe hargs hdir =>
    rw [hd, hl]
    constructor
    · intro he
      obtain rfl : found = path := by
        simpa only [Result.mk.injEq, true_and, String.append_right_inj] using he
      exact ⟨hfirst, request, rfl, hexe, hargs, hdir⟩
    · intro hx
      obtain ⟨-, other, hrequest, hother, -⟩ := hx
      simp only [List.append_cancel_left_eq, List.cons.injEq, and_true] at hrequest
      rw [← hother, ← hrequest, hexe]
  | nothing hd hr hl hout =>
    rw [hd, hl]
    constructor
    · intro he
      simp at he
    · intro hx
      obtain ⟨-, request, hrequest, -⟩ := hx
      exact absurd hrequest.symm (launches_append_ne w request)

theorem Dispatched.nothing_iff (h : Dispatched w c) :
    described w c.name = ⟨false, c.name ++ ": not found"⟩ ↔
      ¬ RunsBuiltin w c ∧ (afterCommand w c).launches = w.launches ∧
        (afterCommand w c).output = w.output ++ (c.name ++ ": command not found\n") := by
  cases h with
  | builtin hd hr hl =>
    rw [hd]
    constructor
    · intro he
      simp at he
    · intro hx
      exact absurd hr hx.1
  | program hd hfirst hr hl hexe hargs hdir =>
    rw [hd, hl]
    constructor
    · intro he
      simp at he
    · intro hx
      exact absurd hx.2.1 (launches_append_ne w _)
  | nothing hd hr hl hout => exact ⟨fun _ => ⟨hr, hl, hout⟩, fun _ => hd⟩

/-- What `type` answers for a name is what the shell does with a command of that name whose
redirection can be opened: it runs a built-in command; or it asks for one program, the first that is
found; or it runs nothing and writes that the command was not found. -/
theorem type_says_what_runs {w : World} {c : Command} (hn : c.name ≠ "")
    (habs : Path.startsAtRoot w.session.dir = true) (ho : Opens w c) :
    Builtin.type.run [c.name] w = .ok (described w c.name) w ∧
    (described w c.name = ⟨true, c.name ++ " is a shell builtin"⟩ ↔
      RunsBuiltin w c ∧ (afterCommand w c).launches = w.launches) ∧
    (∀ path, Path.startsAtRoot path = true →
      (described w c.name = ⟨true, c.name ++ " is " ++ path⟩ ↔
        FirstProgram w c.name path ∧ ∃ request,
          (afterCommand w c).launches = w.launches ++ [request] ∧ request.executable = path ∧
          request.arguments = c.name :: c.arguments ∧ request.dir = some w.session.dir)) ∧
    (described w c.name = ⟨false, c.name ++ ": not found"⟩ ↔
      ¬ RunsBuiltin w c ∧ (afterCommand w c).launches = w.launches ∧
        (afterCommand w c).output = w.output ++ (c.name ++ ": command not found\n")) := by
  have hdispatched := dispatched hn ho
  exact ⟨rfl, hdispatched.builtin_iff habs, fun _ hp => hdispatched.program_iff hp,
    hdispatched.nothing_iff⟩

/-- A program that is found behind a relative entry and an empty one, run with its output in a new
file. -/
theorem type_says_where_program_is :
    let program : FileSystem := { nodes := [(["bin"], .directory {}),
      (["p", "bin"], .file {} .empty (some {}))] }
    let w : World := { fs := program, session := { dir := "/", searchPath := some "usr::bin" } }
    let c : Command := ⟨"p", ["a"], ⟨some "f", false, .output⟩⟩
    c.name ≠ "" ∧ Path.startsAtRoot w.session.dir = true ∧ Opens w c ∧
      described w c.name = ⟨true, "p is /bin/p"⟩ ∧
      Builtin.type.run ["p"] w = .ok ⟨true, "p is /bin/p"⟩ w ∧ FirstProgram w "p" "/bin/p" ∧
      ∃ request, (afterCommand w c).launches = [request] ∧ request.executable = "/bin/p" := by
  intro program w c
  have hw : w.fs.WritableAt w.processDir "/f" ["f"] :=
    ⟨by decide, by decide, .free [] "f", rfl, .free rfl rfl, rfl⟩
  have htarget : (redirectionIn w c).target = some "/f" := by decide +kernel
  have ho : Opens w c := by
    intro path _ ht
    rw [htarget] at ht
    cases ht
    exact hw.writable
  have hsaid : described w c.name = ⟨true, c.name ++ " is " ++ "/bin/p"⟩ := by decide +kernel
  obtain ⟨htype, -, hprogram, -⟩ :=
    type_says_what_runs (w := w) (c := c) (by decide) (by decide) ho
  obtain ⟨hfirst, request, hl, hexe, -⟩ := (hprogram "/bin/p" (by decide)).mp hsaid
  rw [hsaid] at htype
  exact ⟨by decide, by decide, ho, hsaid, htype, hfirst, request, hl, hexe⟩

/-- A built-in command can write that it was not found. -/
theorem echo_writes_not_found :
    let w : World := {}
    let c : Command := ⟨"echo", ["echo: command not found"], {}⟩
    c.name ≠ "" ∧ Path.startsAtRoot w.session.dir = true ∧ Opens w c ∧
      (afterCommand w c).launches = w.launches ∧
      (afterCommand w c).output = w.output ++ (c.name ++ ": command not found\n") ∧
      described w c.name ≠ ⟨false, c.name ++ ": not found"⟩ := by
  intro w c
  have ho : Opens w c := by
    intro path ha
    simp [c, redirectionIn, Redirection.resolved, Redirection.isActive] at ha
  exact ⟨by decide, by decide, ho, by decide +kernel, by decide +kernel, by decide +kernel⟩

end CommandShell.Shell
