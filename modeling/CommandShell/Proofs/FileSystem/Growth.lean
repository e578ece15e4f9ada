import CommandShell.Execution
import CommandShell.Proofs.FileSystem.RealPath

/-! # What a line can do to a file system

Lines write into files and make files. A file that was just made may not be executed, so nothing
that depends on directories, links and programs alone can tell the difference: where a path leads
to, which programs are found and where `cd` goes. -/
namespace CommandShell

def Node.bare : Node → Node
  | .file p _ program => .file p .empty program
  | n => n

namespace FileSystem

def SameNodes (a b : FileSystem) : Prop :=
  ∀ l, (a.node? l).map Node.bare = (b.node? l).map Node.bare

/-- What can become of one location: its node keeps all but the content, or a file is made there. -/
inductive Grown : Option Node → Option Node → Prop where
  | same {a b} : a.map Node.bare = b.map Node.bare → Grown a b
  | made {content} : Grown none (some (.file .plain content none))

def Grows (a b : FileSystem) : Prop := ∀ l, Grown (a.node? l) (b.node? l)

theorem bare_eq_directory {n : Node} {p : Permissions} (h : n.bare = .directory p) :
    n = .directory p := by
  cases n <;> simp_all [Node.bare]

theorem bare_eq_link {n : Node} {target : String} (h : n.bare = .link target) :
    n = .link target := by
  cases n <;> simp_all [Node.bare]

theorem bare_eq_file {n : Node} {p : Permissions} {program : Option Program}
    (h : n.bare = .file p .empty program) : ∃ content, n = .file p content program := by
  cases n <;> simp_all [Node.bare]

theorem Grown.of_some {m : Node} {b : Option Node} (h : Grown (some m) b) :
    ∃ n, b = some n ∧ n.bare = m.bare := by
  cases h with
  | same h =>
    rw [Option.map_some, eq_comm, Option.map_eq_some_iff] at h
    exact h

theorem Grown.of_none {m : Node} (h : Grown none (some m)) :
    ∃ content, m = .file .plain content none := by
  cases h with
  | same h => simp at h
  | made => exact ⟨_, rfl⟩

theorem Grown.trans {a b c : Option Node} (h : Grown a b) (k : Grown b c) : Grown a c := by
  cases h with
  | same h =>
    cases k with
    | same k => exact .same (h.trans k)
    | made =>
      have ha : a = none := by simpa using h
      exact ha ▸ .made
  | made =>
    obtain ⟨n, rfl, hn⟩ := k.of_some
    obtain ⟨content, rfl⟩ := bare_eq_file hn
    exact .made

variable {a b c : FileSystem} {followLast : Bool} {processDir path : String}

theorem SameNodes.refl (a : FileSystem) : SameNodes a a := fun _ => rfl

theorem SameNodes.trans (h : SameNodes a b) (k : SameNodes b c) : SameNodes a c :=
  fun l => (h l).trans (k l)

theorem SameNodes.grows (h : SameNodes a b) : Grows a b := fun l => .same (h l)

theorem Grows.refl (a : FileSystem) : Grows a a := (SameNodes.refl a).grows

theorem Grows.trans (h : Grows a b) (k : Grows b c) : Grows a c := fun l => (h l).trans (k l)

theorem Grows.directory_iff (h : Grows a b) {l : Location} {p : Permissions} :
    a.node? l = some (.directory p) ↔ b.node? l = some (.directory p) := by
  have hl := h l
  constructor
  · intro ha
    rw [ha] at hl
    obtain ⟨n, hn, he⟩ := hl.of_some
    rw [hn, bare_eq_directory he]
  · intro hb
    rw [hb] at hl
    cases ha : a.node? l with
    | none =>
      rw [ha] at hl
      obtain ⟨_, he⟩ := hl.of_none
      simp at he
    | some m =>
      rw [ha] at hl
      obtain ⟨n, hn, he⟩ := hl.of_some
      cases hn
      rw [bare_eq_directory he.symm]

theorem Grows.link_iff (h : Grows a b) {l : Location} {target : String} :
    a.node? l = some (.link target) ↔ b.node? l = some (.link target) := by
  have hl := h l
  constructor
  · intro ha
    rw [ha] at hl
    obtain ⟨n, hn, he⟩ := hl.of_some
    rw [hn, bare_eq_link he]
  · intro hb
    rw [hb] at hl
    cases ha : a.node? l with
    | none =>
      rw [ha] at hl
      obtain ⟨_, he⟩ := hl.of_none
      simp at he
    | some m =>
      rw [ha] at hl
      obtain ⟨n, hn, he⟩ := hl.of_some
      cases hn
      rw [bare_eq_link he.symm]

theorem Grows.executable_iff (h : Grows a b) {l : Location} {p : Permissions}
    {program : Option Program} (hp : p.execute = true) :
    (∃ content, a.node? l = some (.file p content program)) ↔
      ∃ content, b.node? l = some (.file p content program) := by
  have hl := h l
  constructor
  · intro hx
    obtain ⟨content, ha⟩ := hx
    rw [ha] at hl
    obtain ⟨n, hn, he⟩ := hl.of_some
    obtain ⟨new, rfl⟩ := bare_eq_file he
    exact ⟨new, hn⟩
  · intro hx
    obtain ⟨content, hb⟩ := hx
    rw [hb] at hl
    cases ha : a.node? l with
    | none =>
      rw [ha] at hl
      obtain ⟨_, he⟩ := hl.of_none
      cases he
      simp [Permissions.plain] at hp
    | some m =>
      rw [ha] at hl
      obtain ⟨n, hn, he⟩ := hl.of_some
      cases hn
      obtain ⟨old, rfl⟩ := bare_eq_file he.symm
      exact ⟨old, rfl⟩

theorem Grows.isDirectoryAt (h : Grows a b) (l : Location) :
    b.isDirectoryAt l = a.isDirectoryAt l := by
  rw [Bool.eq_iff_iff, isDirectoryAt_iff, isDirectoryAt_iff]
  simp only [h.directory_iff]

theorem obstacle?_eq_none_iff {l : Location} :
    a.obstacle? l = none ↔ ∃ p, a.node? l = some (.directory p) ∧ p.execute = true := by
  unfold obstacle?
  split
  · next p hp => simp [hp]
  · next n hn hd =>
    constructor
    · intro h
      simp at h
    · intro hx
      obtain ⟨p, hp, -⟩ := hx
      rw [hd] at hp
      cases hp
      exact absurd rfl (hn p)
  · next hn => simp [hn]

theorem Grows.clear_iff (h : Grows a b) {l : Location} :
    a.obstacle? l = none ↔ b.obstacle? l = none := by
  simp only [obstacle?_eq_none_iff, h.directory_iff]

theorem Grows.takes_iff (h : Grows a b) {l : Location} {c : String} :
    a.Takes l c ↔ b.Takes l c :=
  ⟨fun ⟨ho, hd, hu, hs⟩ => ⟨h.clear_iff.mp ho, hd, hu, hs⟩,
    fun ⟨ho, hd, hu, hs⟩ => ⟨h.clear_iff.mpr ho, hd, hu, hs⟩⟩

theorem Grows.leads (h : Grows a b) {n : Nat} {l d : Location} {cs : List String}
    (walk : a.Leads followLast n l cs (.existing d)) :
    b.Leads followLast n l cs (.existing d) := by
  generalize he : Destination.existing d = e at walk ⊢
  induction walk with
  | here l => exact .here l
  | dot ho _ ih => exact .dot (h.clear_iff.mp ho) (ih he)
  | up ho _ ih => exact .up (h.clear_iff.mp ho) (ih he)
  | @enter n l c cs e node ht hc hnl _ ih =>
    obtain ⟨m, hm, hbare⟩ := (hc ▸ h (c :: l)).of_some
    refine .enter (h.takes_iff.mp ht) hm ?_ (ih he)
    intro target heq
    subst heq
    exact hnl target (bare_eq_link hbare.symm)
  | free => simp at he
  | last ht hc hf => exact .last (h.takes_iff.mp ht) (h.link_iff.mp hc) hf
  | link ht hc hlast _ ih => exact .link (h.takes_iff.mp ht) (h.link_iff.mp hc) hlast (ih he)

/-- A walk to a node that was there before is none of those that have come into being. -/
theorem Grows.leads_before (h : Grows a b) {n : Nat} {l d : Location} {cs : List String}
    (hd : (a.node? d).isSome) (walk : b.Leads followLast n l cs (.existing d)) :
    a.Leads followLast n l cs (.existing d) := by
  generalize he : Destination.existing d = e at walk ⊢
  induction walk with
  | here l => exact .here l
  | dot ho _ ih => exact .dot (h.clear_iff.mpr ho) (ih he)
  | up ho _ ih => exact .up (h.clear_iff.mpr ho) (ih he)
  | @enter n l c cs e node ht hc hnl rest ih =>
    cases ha : a.node? (c :: l) with
    | some m =>
      obtain ⟨m', hm, hbare⟩ := (ha ▸ h (c :: l)).of_some
      rw [hc] at hm
      cases hm
      refine .enter (h.takes_iff.mpr ht) ha ?_ (ih he)
      intro target heq
      subst heq
      exact hnl target (bare_eq_link hbare)
    | none =>
      -- Nothing is entered below a file that was made, so the walk would end there.
      obtain ⟨content, rfl⟩ := Grown.of_none (ha ▸ hc ▸ h (c :: l))
      have hobstacle : b.obstacle? (c :: l) ≠ none := by simp [obstacle?, hc]
      cases rest with
      | here => cases he; simp [ha] at hd
      | dot ho => exact absurd ho hobstacle
      | up ho => exact absurd ho hobstacle
      | enter hk => exact absurd hk.clear hobstacle
      | free hk => exact absurd hk.clear hobstacle
      | last hk => exact absurd hk.clear hobstacle
      | link hk => exact absurd hk.clear hobstacle
  | free => simp at he
  | last ht hc hf => exact .last (h.takes_iff.mpr ht) (h.link_iff.mpr hc) hf
  | link ht hc hlast _ ih => exact .link (h.takes_iff.mpr ht) (h.link_iff.mpr hc) hlast (ih he)

/-- A path leads to a node that was there before exactly if it did so before. -/
theorem Grows.locate_iff (h : Grows a b) {d : Location} (hd : (a.node? d).isSome) :
    a.locate processDir path followLast = .ok d ↔ b.locate processDir path followLast = .ok d := by
  have hw (n : Nat) : a.Leads (followLast || endsWithSlash path) n []
        (componentsFrom processDir path) (.existing d) ↔
      b.Leads (followLast || endsWithSlash path) n []
        (componentsFrom processDir path) (.existing d) :=
    ⟨h.leads, h.leads_before hd⟩
  simp only [locate_eq_ok_iff, find_eq_ok_iff, hw, h.isDirectoryAt]

theorem isDirectory_iff : a.isDirectory processDir path = true ↔
    ∃ d, a.locate processDir path = .ok d ∧ a.isDirectoryAt d = true := by
  unfold isDirectory reached?
  cases a.locate processDir path with
  | error f => simp
  | ok d =>
    simp only [Except.ok.injEq, exists_eq_left']
    exact Iff.rfl

theorem Grows.isDirectory (h : Grows a b) :
    b.isDirectory processDir path = a.isDirectory processDir path := by
  rw [Bool.eq_iff_iff, isDirectory_iff, isDirectory_iff]
  constructor
  · intro hx
    obtain ⟨d, hl, hd⟩ := hx
    rw [h.isDirectoryAt] at hd
    obtain ⟨p, hp⟩ := isDirectoryAt_iff.mp hd
    exact ⟨d, (h.locate_iff (by simp [hp])).mpr hl, hd⟩
  · intro hx
    obtain ⟨d, hl, hd⟩ := hx
    obtain ⟨p, hp⟩ := isDirectoryAt_iff.mp hd
    exact ⟨d, (h.locate_iff (by simp [hp])).mp hl, (h.isDirectoryAt d).trans hd⟩

theorem linkText?_eq_some_iff (a : FileSystem) (processDir path target : String) :
    a.linkText? processDir path = .ok (some target) ↔
      ∃ d, a.locate processDir path false = .ok d ∧ a.node? d = some (.link target) := by
  unfold linkText?
  cases a.locate processDir path false with
  | error f => cases f <;> simp
  | ok d =>
    simp only [Except.ok.injEq, exists_eq_left']
    split
    · next hn => simp [hn]
    · next hn =>
      constructor
      · intro h
        simp at h
      · intro h
        exact absurd h (hn target)

theorem linkText?_ok (a : FileSystem) (processDir : String) (h : hasNul path = false) :
    ∃ r, a.linkText? processDir path = .ok r := by
  rw [FileSystem.linkText?, locate_of_no_nul h]
  cases a.find processDir path false with
  | error e => exact ⟨none, rfl⟩
  | ok e =>
    cases e with
    | free directory name => exact ⟨none, rfl⟩
    | existing d =>
      dsimp only
      split
      · exact ⟨_, rfl⟩
      · exact ⟨_, rfl⟩

theorem Grows.linkText? (h : Grows a b) :
    b.linkText? processDir path = a.linkText? processDir path := by
  by_cases hn : hasNul path = true
  · rw [linkText?_of_nul hn, linkText?_of_nul hn]
  · have hn : hasNul path = false := by simpa using hn
    obtain ⟨r, hr⟩ := linkText?_ok a processDir hn
    obtain ⟨s, hs⟩ := linkText?_ok b processDir hn
    have hi (target : String) : r = some target ↔ s = some target := by
      have ha := linkText?_eq_some_iff a processDir path target
      have hb := linkText?_eq_some_iff b processDir path target
      rw [hr, Except.ok.injEq] at ha
      rw [hs, Except.ok.injEq] at hb
      rw [ha, hb]
      constructor
      · intro hx
        obtain ⟨d, hl, hd⟩ := hx
        exact ⟨d, (h.locate_iff (by simp [hd])).mp hl, h.link_iff.mp hd⟩
      · intro hx
        obtain ⟨d, hl, hd⟩ := hx
        have hd := h.link_iff.mpr hd
        exact ⟨d, (h.locate_iff (by simp [hd])).mpr hl, hd⟩
    rw [hr, hs, Option.ext hi]

theorem along_congr
    {resolveLink : LinksSeen → Trail → String → Except Fault (Resolution × LinksSeen)}
    (h : ∀ path, b.linkText? processDir path = a.linkText? processDir path) (seen : LinksSeen)
    (t : Trail) (ps : List String) :
    b.along processDir resolveLink seen t ps = a.along processDir resolveLink seen t ps := by
  induction ps generalizing seen t with
  | nil => rfl
  | cons p ps ih => simp only [along, h, ih]

theorem Grows.resolveFrom (h : Grows a b) (depth : Nat) :
    b.resolveFrom processDir depth = a.resolveFrom processDir depth := by
  induction depth with
  | zero => rfl
  | succ depth ih =>
    funext seen t path
    rw [FileSystem.resolveFrom, FileSystem.resolveFrom, ih,
      along_congr fun path => h.linkText?]

theorem Grows.realPath (h : Grows a b) :
    b.realPath processDir path = a.realPath processDir path := by
  rw [FileSystem.realPath, FileSystem.realPath, h.resolveFrom]

theorem isProgram_iff : (a.isFile processDir path && a.mayExecute processDir path) = true ↔
    ∃ d p program, a.locate processDir path = .ok d ∧ p.execute = true ∧
      ∃ content, a.node? d = some (.file p content program) := by
  unfold isFile mayExecute reached?
  cases a.locate processDir path with
  | error f => simp
  | ok d =>
    simp only [Except.ok.injEq, exists_and_left, exists_eq_left']
    cases a.node? d with
    | none => simp
    | some n =>
      cases n with
      | directory p => simp
      | link target => simp
      | file p content program => simp

theorem Grows.isProgram (h : Grows a b) :
    (b.isFile processDir path && b.mayExecute processDir path) =
      (a.isFile processDir path && a.mayExecute processDir path) := by
  rw [Bool.eq_iff_iff, isProgram_iff, isProgram_iff]
  constructor
  · intro hx
    obtain ⟨d, p, program, hl, hp, hn⟩ := hx
    have hn := (h.executable_iff hp).mpr hn
    obtain ⟨content, hc⟩ := hn
    exact ⟨d, p, program, (h.locate_iff (by simp [hc])).mpr hl, hp, content, hc⟩
  · intro hx
    obtain ⟨d, p, program, hl, hp, content, hn⟩ := hx
    exact ⟨d, p, program, (h.locate_iff (by simp [hn])).mp hl, hp,
      (h.executable_iff hp).mp ⟨content, hn⟩⟩

theorem Grows.findProgram? (h : Grows a b) (name : String) (directories : List String) :
    b.findProgram? processDir name directories = a.findProgram? processDir name directories := by
  unfold FileSystem.findProgram?
  simp only [h.isProgram]

theorem Grows.changeDirectory (h : Grows a b) (s : Session) (arguments : List String) :
    s.changeDirectory b processDir arguments = s.changeDirectory a processDir arguments := by
  unfold Session.changeDirectory
  simp only [h.isDirectory, h.realPath]

theorem Grows.nameable (h : Grows a b) (ha : a.Nameable) : b.Nameable :=
  ⟨fun l p hp => ha.directory l p (h.directory_iff.mpr hp),
    fun l target hl => ha.link l target (h.link_iff.mpr hl)⟩

end FileSystem

end CommandShell
