import CommandShell.Proofs.FileSystem.LinkTexts
import CommandShell.Proofs.Line.Letters
import CommandShell.Proofs.Shell.Script

/-! # Lines that only an exit ends

Where the character zero is in no link, no directory and no line, where the home directory is a text
and nothing interrupts, a line comes back or asks to exit, unless `cd` looks for a real path through
too many links. The lines of a session keep it so. -/
namespace CommandShell

open FileSystem (hasNul)

def Behavior.Harmless : Behavior → Prop
  | returns _ | listsArguments _ | raises (.exit _) | raises (.failure _) => True
  | raises .interrupt | raises (.fault _) | endsLoop => False

namespace Shell

open Line (Command)

/-- A world in which a line without the character zero meets no interrupt, and a fault at most in
`cd`. -/
structure Reliable (w : World) : Prop where
  links : w.fs.PlainLinks
  processDir : hasNul w.processDir = false
  dir : hasNul w.session.dir = false
  home : ∃ h, w.session.homeOrRoot = .text h
  uninterrupted : ∀ path, ¬ w.fs.Interrupts w.processDir path
  harmless : ∀ name b, w.builtins.get? name = some (.added b) → b.Harmless

variable {w w' : World} {c : Command} {b : Builtin} {line : String}

theorem standard_not_added (name : String) (b : Behavior) :
    Builtins.standard.get? name ≠ some (.added b) := by
  intro h
  simp only [Builtins.standard, Table.get?] at h
  repeat' split at h
  all_goals simp at h

/-- A `cd` that finds a directory whose real path leads through too many nested links. -/
def TooDeep (w : World) (c : Command) : Prop :=
  w.builtins.get? c.name = some .cd ∧
    w.session.changeDirectory w.fs w.processDir c.arguments = .error .tooDeep

theorem Reliable.changeDirectory (h : Reliable w) (arguments : List String) :
    w.session.changeDirectory w.fs w.processDir arguments = .error .tooDeep ∨
      (∃ dir, w.session.changeDirectory w.fs w.processDir arguments =
        .ok (⟨true, ""⟩, { w.session with dir }) ∧ hasNul dir = false) ∨
      ∃ output, w.session.changeDirectory w.fs w.processDir arguments =
        .ok (⟨false, output⟩, w.session) := by
  obtain ⟨⟨shown, target⟩, ht⟩ := target_of_home h.home arguments.head?
  by_cases hd : w.fs.isDirectory w.processDir target = true
  · obtain ⟨d, hl, -⟩ := FileSystem.isDirectory_iff.mp hd
    obtain ⟨hn, -⟩ := FileSystem.locate_eq_ok_iff.mp hl
    rw [Session.changeDirectory_of_directory ht hd]
    rcases FileSystem.realPath_plain h.links h.processDir hn with hdeep | ⟨dir, hreal, hplain⟩
    · rw [hdeep]
      exact .inl rfl
    · rw [hreal]
      exact .inr (.inl ⟨dir, rfl, hplain⟩)
  · exact .inr (.inr ⟨_, Session.changeDirectory_elsewhere ht (by simpa using hd)⟩)

/-- What a built-in command stops with is an exit or a failure, but for a `cd` that goes too
deep. -/
theorem Reliable.stop? (h : Reliable w) (hb : w.builtins.get? c.name = some b) :
    b.stop? w c.arguments ≠ some .interrupt ∧
      ∀ f, b.stop? w c.arguments = some (.fault f) → TooDeep w c := by
  cases b with
  | cd =>
    unfold Builtin.stop?
    rcases h.changeDirectory c.arguments with hdeep | ⟨dir, hcd, -⟩ | ⟨output, hcd⟩
    · exact ⟨by simp [hdeep], fun _ _ => ⟨hb, hdeep⟩⟩
    · simp [hcd]
    · simp [hcd]
  | added b =>
    have hharmless := h.harmless c.name b hb
    cases b with
    | raises s =>
      constructor
      · intro hs
        obtain rfl : s = .interrupt := by simpa [Builtin.stop?] using hs
        exact absurd hharmless id
      · intro f hs
        obtain rfl : s = .fault f := by simpa [Builtin.stop?] using hs
        exact absurd hharmless id
    | _ => simp [Builtin.stop?]
  | _ => simp [Builtin.stop?]

theorem Reliable.tooDeep_of_blocked (h : Reliable w) (hc : c.Plain) (hb : Blocked w c) :
    TooDeep w c := by
  cases hb with
  | target hn =>
    obtain ⟨path, -, ht, hnul⟩ := hn
    obtain ⟨t, hword, rfl⟩ := Option.map_eq_some_iff.mp ht
    simp [Path.Posix.hasNul_absoluteFrom h.dir (hc.target t hword)] at hnul
  | builtin _ hb hs => exact (h.stop? hb).2 _ hs
  | program _ _ _ hn =>
    rcases hn with ha | hd
    · obtain ⟨a, hmem, hnul⟩ := List.any_eq_true.mp ha
      simp [hc.arguments a hmem] at hnul
    · simp [h.dir] at hd

theorem Reliable.not_interrupted (h : Reliable w) : ¬ Interrupted w c := by
  intro hi
  cases hi with
  | builtin _ hb hs => exact (h.stop? hb).1 hs
  | program _ _ _ hp => exact h.uninterrupted _ hp

theorem Reliable.changes (h : Reliable w) (hc : w.Changes (CdLine w line) w') : Reliable w' := by
  have hlinks : w'.fs.PlainLinks := fun l target hl => h.links l target (hc.fs.link_iff.mpr hl)
  have hsession : hasNul w'.session.dir = false ∧ ∃ home, w'.session.homeOrRoot = .text home := by
    rcases hc.session with hs | ⟨c, -, -, hg⟩
    · rw [hs]
      exact ⟨h.dir, h.home⟩
    · unfold World.Goes at hg
      rcases h.changeDirectory c.arguments with hdeep | ⟨dir, hcd, hplain⟩ | ⟨output, hcd⟩
      · simp [hdeep] at hg
      · rw [hcd] at hg
        simp only [Except.ok.injEq, Prod.mk.injEq, true_and] at hg
        rw [← hg]
        exact ⟨hplain, h.home⟩
      · simp [hcd] at hg
  refine ⟨hlinks, hc.processDir ▸ h.processDir, hsession.1, hsession.2, ?_,
    hc.builtins ▸ h.harmless⟩
  rw [hc.processDir]
  exact fun path hi => h.uninterrupted path (hc.fs.interrupts hi)

/-- A line without the character zero comes back or asks to exit, unless its `cd` goes too deep. Its
world stays reliable. -/
theorem Reliable.executeLine (h : Reliable w) (hn : hasNul line = false)
    (hd : ∀ c, Command.ofLine line = .ok c → ¬ TooDeep w c) :
    (∃ status w', executeLine line w = .ok status w' ∧ Reliable w') ∨
      ∃ e w', executeLine line w = .error (.exit e) w' ∧ Reliable w' := by
  have hends := executeLine_ends line w
  cases hrun : Shell.executeLine line w with
  | ok status w' => exact .inl ⟨status, w', rfl, h.changes (hends.ok hrun).changes⟩
  | error s w' =>
    have he := hends.error hrun
    cases s with
    | exit e => exact .inr ⟨e, w', rfl, h.changes he.changes⟩
    | failure f => exact absurd rfl (he.no_failure f)
    | interrupt =>
      obtain ⟨c, -, hi⟩ := he.interrupt rfl
      exact absurd hi h.not_interrupted
    | fault f =>
      obtain ⟨c, hc, hb⟩ := he.fault_iff.mp ⟨f, rfl⟩
      exact absurd (h.tooDeep_of_blocked (Command.plain_of_line hc hn) hb) (hd c hc)

def Shallow (w : World) (lines : List String) : Prop :=
  ∀ before line after w₁ c, lines = before ++ line :: after → Completes w before w₁ →
    Command.ofLine line = .ok c → ¬ TooDeep w₁ c

theorem Shallow.head {lines : List String} (h : Shallow w (line :: lines))
    (hc : Command.ofLine line = .ok c) : ¬ TooDeep w c :=
  h [] line lines w c rfl (.nil w) hc

theorem Shallow.tail {status : Option Int} {lines : List String} (h : Shallow w (line :: lines))
    (hrun : Shell.executeLine line w = .ok status w') : Shallow w' lines := by
  rintro before next after w₁ c rfl hcompletes
  exact h (line :: before) next after w₁ c rfl (.cons hrun hcompletes)

theorem Ordinary.shallow (h : Ordinary w) (lines : List String) : Shallow w lines := by
  intro before line after w₁ c _ hcompletes _ hdeep
  obtain ⟨r, hr⟩ := (h.completes hcompletes).changeDirectory c.arguments
  rw [hdeep.2] at hr
  cases hr

end Shell

end CommandShell
