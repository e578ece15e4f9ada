import CommandShell.Proofs.Shell.Outcome
import CommandShell.Proofs.Shell.WorkingDirectory

/-! # What a line leaves alone

However a line ends, it has changed one file at most: the one that the target of its last
redirection leads to. All other nodes are what they were, and so is where every other path leads. -/
namespace CommandShell

def Line.Redirection.targets : List String → List String
  | w :: target :: rest =>
    if (ofOperator? w).isSome then target :: targets rest else targets (target :: rest)
  | _ => []

/-- The targets of the redirections on a line; the first word is the command. -/
def Line.targets (line : String) : List String :=
  Redirection.targets (words line).tail

namespace FileSystem

inductive Touched (a b : FileSystem) (l : Location) : Prop where
  | written {p old new program} : a.node? l = some (.file p old program) →
      b.node? l = some (.file p new program) → (∀ k, k ≠ l → b.node? k = a.node? k) → Touched a b l
  | made {directory name p new} : l = name :: directory →
      a.node? directory = some (.directory p) → p.write = true → a.node? l = none →
      b.node? l = some (.file .plain new none) → (∀ k, k ≠ l → b.node? k = a.node? k) →
      Touched a b l

variable {a b fs : FileSystem} {l : Location} {followLast : Bool} {processDir path : String}

theorem Touched.others (h : Touched a b l) {k : Location} (hk : k ≠ l) :
    b.node? k = a.node? k := by
  cases h with
  | written _ _ ho => exact ho k hk
  | made _ _ _ _ _ ho => exact ho k hk

theorem Touched.grows (h : Touched a b l) : Grows a b := by
  intro k
  by_cases hk : k = l
  · subst hk
    cases h with
    | written ha hb _ => exact .same (by rw [ha, hb]; rfl)
    | made _ _ _ ha hb _ =>
      rw [ha, hb]
      exact .made
  · exact .same (by rw [h.others hk])

theorem Grows.leads_elsewhere (h : Grows a b) {n : Nat} {k : Location} {cs : List String}
    {e : Destination} (walk : a.Leads followLast n k cs e)
    (he : b.node? e.place = a.node? e.place) : b.Leads followLast n k cs e := by
  cases e with
  | existing d => exact h.leads walk
  | free d name =>
    have hfree : b.node? (name :: d) = none := he.trans (free_of_leads walk)
    generalize hd : Destination.free d name = e at walk ⊢
    induction walk with
    | here => simp at hd
    | dot ho _ ih => exact .dot (h.clear_iff.mp ho) (ih hd)
    | up ho _ ih => exact .up (h.clear_iff.mp ho) (ih hd)
    | @enter n k c cs e node ht hc hnl _ ih =>
      obtain ⟨m, hm, hbare⟩ := (hc ▸ h (c :: k)).of_some
      refine .enter (h.takes_iff.mp ht) hm ?_ (ih hd)
      intro target heq
      subst heq
      exact hnl target (bare_eq_link hbare.symm)
    | free ht _ =>
      cases hd
      exact .free (h.takes_iff.mp ht) hfree
    | last => simp at hd
    | link ht hc hlast _ ih => exact .link (h.takes_iff.mp ht) (h.link_iff.mp hc) hlast (ih hd)

theorem Touched.find (h : Touched a b l) {e : Destination}
    (he : a.find processDir path followLast = .ok e) (hl : e.place ≠ l) :
    b.find processDir path followLast = .ok e := by
  obtain ⟨hne, hshort, ⟨n, hlinks, walk⟩, hslash⟩ := find_eq_ok_iff.mp he
  refine find_eq_ok_iff.mpr ⟨hne, hshort, ⟨n, hlinks, ?_⟩, ?_⟩
  · exact h.grows.leads_elsewhere walk (h.others hl)
  · intro hends d hd
    rw [h.grows.isDirectoryAt]
    exact hslash hends d hd

/-- A path that can be opened leads to a file if there is one at its place. -/
theorem WritableAt.locate (h : fs.WritableAt processDir path l) {n : Node}
    (hn : fs.node? l = some n) : fs.locate processDir path = .ok l := by
  obtain ⟨e, he, -, rfl⟩ := h.opens
  refine locate_eq_ok_iff.mpr ⟨h.no_nul, ?_⟩
  cases e with
  | existing d => exact he
  | free d name =>
    obtain ⟨-, -, ⟨_, -, walk⟩, -⟩ := find_eq_ok_iff.mp he
    simp [Destination.place, free_of_leads walk] at hn

/-- What is received at an open path touches its place, and the path leads there from then on. -/
theorem WritableAt.touched {append : Bool} {bytes : ByteArray}
    (h : a.WritableAt processDir path l)
    (hb : ∀ k, b.node? k = (a.receiving append l bytes).node? k) :
    Touched a b l ∧ b.locate processDir path = .ok l := by
  have hagain : b.WritableAt processDir path l := (h.holding _).sameNodes (.of_eq hb)
  have hplace : b.node? l = some (a.refilledAt l (a.opened append l ++ bytes)) := by
    rw [hb, receiving, node?_holding, if_pos rfl]
  have hothers (k : Location) (hk : k ≠ l) : b.node? k = a.node? k := by
    rw [hb, receiving, node?_holding_of_ne _ hk]
  refine ⟨?_, hagain.locate hplace⟩
  obtain ⟨e, he, ho, hp⟩ := h.opens
  cases ho with
  | @existing d p old program hn _ =>
    obtain rfl : d = l := hp
    simp only [refilledAt, hn, Option.map_some, Option.getD_some] at hplace
    exact .written hn hplace hothers
  | @free directory name p hd hw =>
    obtain rfl : name :: directory = l := hp
    obtain ⟨-, -, ⟨_, -, walk⟩, -⟩ := find_eq_ok_iff.mp he
    have hfree := free_of_leads walk
    simp only [refilledAt, hfree, Option.map_none, Option.getD_none] at hplace
    exact .made rfl hd hw hfree hplace hothers

end FileSystem

namespace Line.Redirection

theorem channel_ne_nothing {w : String} {channel : Channel} {append : Bool}
    (h : ofOperator? w = some (channel, append)) : channel ≠ .nothing := by
  rintro rfl
  unfold ofOperator? at h
  split at h <;> simp at h

theorem extract_targets {last r : Redirection} {ws rest : List String}
    (h : extract last ws = .ok (rest, r)) :
    (targets ws = [] ∧ r = last) ∨
      ∃ target, (targets ws).getLast? = some target ∧ r.target = some target ∧
        r.isActive = true := by
  induction last, ws using extract.induct generalizing rest r with
  | case1 last =>
    cases h
    exact .inl ⟨rfl, rfl⟩
  | case2 last w op hop => simp [extract, hop] at h
  | case3 last w hop =>
    simp only [extract, hop, Except.ok.injEq, Prod.mk.injEq] at h
    exact .inl ⟨rfl, h.2.symm⟩
  | case4 last w target ws channel append hop ih =>
    simp only [extract, hop] at h
    simp only [targets, hop, Option.isSome_some, if_true]
    have hactive : (⟨some target, append, channel⟩ : Redirection).isActive = true := by
      simp [isActive, channel_ne_nothing hop]
    rcases ih h with ⟨hnone, rfl⟩ | ⟨other, hlast, ht, ha⟩
    · exact .inr ⟨target, by simp [hnone], rfl, hactive⟩
    · exact .inr ⟨other, by simp [List.getLast?_cons, hlast], ht, ha⟩
  | case5 last w target ws hop ih =>
    simp only [extract, hop] at h
    simp only [targets, hop, Option.isSome_none, Bool.false_eq_true, if_false]
    cases hrest : extract last (target :: ws) with
    | error f => simp [hrest, Except.map] at h
    | ok p =>
      rw [hrest] at h
      cases h
      exact ih hrest

end Line.Redirection

theorem Line.Command.ofLine_targets {line : String} {c : Command} (h : ofLine line = .ok c) :
    (targets line = [] ∧ c.redirection = {}) ∨
      ∃ target, (targets line).getLast? = some target ∧ c.redirection.target = some target ∧
        c.redirection.isActive = true := by
  have hwords : readWords false line = .ok (words line) := rfl
  simp only [ofLine, hwords, bind, Except.bind] at h
  unfold targets
  cases hw : words line with
  | nil =>
    rw [hw] at h
    cases h
    exact .inl ⟨rfl, rfl⟩
  | cons name rest =>
    simp only [hw, Redirection.split] at h
    cases hx : Redirection.extract {} rest with
    | error f => simp [hx, Except.map] at h
    | ok p =>
      rw [hx] at h
      cases h
      exact Redirection.extract_targets hx

namespace Shell

open FileSystem (Touched)
open Line (Command Redirection)

variable {away : List Location} {w w' : World} {line : String} {l : Option Location}

/-- What running a line gives is what there is after it. -/
theorem afterLine_alike {res : Except Stop (Option Int)}
    (h : (executeLine line).Gives away w res w') (hlogs : ∀ k ∈ w.journal.files, k ∈ away) :
    w'.Alike away (afterLine w line) := by
  have hends := h w (.refl hlogs)
  unfold afterLine
  cases hrun : executeLine line w with
  | ok status v => exact (hends.ok hrun).2
  | error s v => exact (hends.error hrun).2

theorem afterLine_abandoned (h : ∀ c, Command.ofLine line = .ok c → ¬ Opens w c)
    (hlogs : ∀ k ∈ w.journal.files, k ∈ away) :
    FileSystem.AgreesOff away w.fs (afterLine w line).fs := by
  obtain ⟨res, error, -, hgives⟩ := gives_executeLine_abandoned away h
  exact (afterLine_alike hgives hlogs).fs

theorem afterLine_fs {c : Command} (hc : Command.ofLine line = .ok c)
    (h : (redirectionIn w c).Aims w.fs w.processDir l) (hlogs : ∀ k ∈ w.journal.files, k ∈ away) :
    FileSystem.AgreesOff away
      (w.fs.receivingAt (redirectionIn w c).append l (outcome w c l).text.file)
      (afterLine w line).fs := by
  have halike := (afterLine_alike (gives_executeLine hc h) hlogs).fs
  rw [outcome_world] at halike
  exact (FileSystem.AgreesOff.of_eq (h.node?_receivingAt_twice _ _)).trans halike

theorem afterLine_sameNodes {c : Command} (hc : Command.ofLine line = .ok c)
    (h : (redirectionIn w c).Aims w.fs w.processDir l) :
    (w.fs.receivingAt (redirectionIn w c).append l (outcome w c l).text.file).SameNodes
      (afterLine w line).fs := by
  have halike := (afterLine_alike (gives_executeLine hc h) (fun _ hk => hk)).nodes
  rw [outcome_world] at halike
  exact (FileSystem.SameNodes.of_eq (h.node?_receivingAt_twice _ _)).trans halike

/-- A line that has no redirection operator leaves every node as it is. Any other line does so too,
or it touches one file: the one that the target of its last operator leads to, before the line and
after it. A path that led elsewhere still leads there. -/
theorem line_touches_one_file (w : World) (line : String) (hlogs : w.journal.files = []) :
    (Line.targets line = [] → ∀ k, (afterLine w line).fs.node? k = w.fs.node? k) ∧
    ((∀ k, (afterLine w line).fs.node? k = w.fs.node? k) ∨
      ∃ target l, (Line.targets line).getLast? = some target ∧
        w.fs.WritableAt w.processDir (Path.Posix.absoluteFrom w.session.dir target) l ∧
        Touched w.fs (afterLine w line).fs l ∧
        (afterLine w line).fs.locate w.processDir
          (Path.Posix.absoluteFrom w.session.dir target) = .ok l ∧
        ∀ path e, w.fs.find w.processDir path = .ok e → e.place ≠ l →
          (afterLine w line).fs.find w.processDir path = .ok e) := by
  have hlogs : ∀ k ∈ w.journal.files, k ∈ [] := by simp [hlogs]
  by_cases hopen : ∃ c, Command.ofLine line = .ok c ∧ Opens w c
  · obtain ⟨c, hc, ho⟩ := hopen
    obtain ⟨l, haim⟩ := ho.exists_aim
    have hfs := afterLine_fs hc haim hlogs
    cases haim with
    | nowhere hinactive =>
      have hsame (k : Location) : (afterLine w line).fs.node? k = w.fs.node? k :=
        hfs k List.not_mem_nil
      exact ⟨fun _ => hsame, .inl hsame⟩
    | @file path l hactive htarget hw =>
      have hnode (k : Location) := hfs k List.not_mem_nil
      obtain ⟨htouched, hlocate⟩ := hw.touched hnode
      rcases Command.ofLine_targets hc with ⟨-, hnone⟩ | ⟨target, hlast, ht, -⟩
      · simp [redirectionIn, hnone, Redirection.resolved, Redirection.isActive] at hactive
      obtain rfl : Path.Posix.absoluteFrom w.session.dir target = path := by
        simpa [redirectionIn, Redirection.resolved, ht] using htarget
      refine ⟨?_, .inr ⟨target, l, hlast, hw, htouched, hlocate, fun _ _ he => htouched.find he⟩⟩
      intro hnone
      simp [hnone] at hlast
  · have hsame (k : Location) : (afterLine w line).fs.node? k = w.fs.node? k :=
      afterLine_abandoned (fun c hc ho => hopen ⟨c, hc, ho⟩) hlogs k List.not_mem_nil
    exact ⟨fun _ => hsame, .inl hsame⟩

/-- Of two targets only the last one is made, although the command is none. -/
theorem last_target_is_touched :
    let w : World := {}
    w.journal.files = [] ∧ Touched w.fs (afterLine w "nothing > a > b").fs ["b"] ∧
      (afterLine w "nothing > a > b").fs.node? ["a"] = none := by
  intro w
  obtain ⟨-, hline⟩ := line_touches_one_file w "nothing > a > b" rfl
  have hmade : ((afterLine w "nothing > a > b").fs.node? ["b"]).isSome = true := by decide +kernel
  rcases hline with hsame | ⟨target, l, -, -, htouched, -, -⟩
  · rw [hsame ["b"]] at hmade
    simp [w, FileSystem.node?, Table.get?] at hmade
  · obtain rfl : l = ["b"] := by
      refine Classical.byContradiction fun hl => ?_
      rw [htouched.others (Ne.symm hl)] at hmade
      simp [w, FileSystem.node?, Table.get?] at hmade
    exact ⟨rfl, htouched, htouched.others (by decide)⟩

end Shell

end CommandShell
