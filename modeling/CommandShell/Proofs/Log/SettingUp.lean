import Mathlib.Data.List.Induction
import CommandShell.Log.Journal
import CommandShell.Proofs.Log.Buffer

/-! # Setting a journal up, again and again

An attempt to set a journal up sets the threshold and adds its sinks one after another, the file at
the end. If the file cannot be opened, what was done before remains, and the next attempt does it
once more. From the first attempt that succeeds the journal stays as it is. -/
namespace CommandShell.Log

structure Attempt where
  level : Level
  console : Option Layout := none
  opening : Option Journal.Opening := none
  fs : FileSystem := {}

namespace Attempt

def place? (a : Attempt) : Option Location :=
  a.opening.bind fun action => (action a.fs).1.toOption

def succeeds (a : Attempt) : Bool :=
  a.opening.isNone || a.place?.isSome

/-- The sinks that the attempt adds, also where it fails. -/
def sinks (a : Attempt) : List Sink :=
  [.buffer a.level {}] ++ (a.console.map (Sink.console a.level)).toList ++
    (a.place?.map (Sink.file a.level)).toList

def effective : List Attempt → List Attempt
  | [] => []
  | a :: as => if a.succeeds then [a] else a :: effective as

end Attempt

inductive Event where
  | attempt (a : Attempt)
  | step (s : Step)

def Event.attempt? : Event → Option Attempt
  | attempt a => some a
  | step _ => none

def Sink.target? (r : Record) : Sink → Option Location
  | .file t place => if t ≤ r.level then some place else none
  | _ => none

namespace Journal

def answer (j : Journal) (a : Attempt) : Except Fault Unit :=
  (j.start a.level a.console a.opening a.fs).1

def attempted (j : Journal) (a : Attempt) : Journal :=
  (j.start a.level a.console a.opening a.fs).2.1

def afterEvent (j : Journal) : Event → Journal
  | .attempt a => j.attempted a
  | .step s => j.after s

def targets (j : Journal) (r : Record) : List Location :=
  if j.takes r.level then j.sinks.filterMap (Sink.target? r) else []

/-- A journal as some attempts leave it, but for the records that its buffers hold. -/
structure SetUpBy (j : Journal) (as : List Attempt) : Prop where
  ready : j.ready = as.any Attempt.succeeds
  threshold : j.threshold = (as.getLast?.map Attempt.level).getD 0
  sinks : j.sinks.map Sink.clear = as.flatMap Attempt.sinks

variable {j : Journal}

theorem attempted_of_ready (h : j.ready = true) (a : Attempt) :
    j.answer a = .ok () ∧ j.attempted a = j := by
  simp [answer, attempted, start, h]

theorem attempted_of_not_ready (h : j.ready = false) (a : Attempt) :
    (j.answer a).isOk = a.succeeds ∧ j.attempted a =
      { threshold := a.level, sinks := j.sinks ++ a.sinks, ready := a.succeeds } := by
  obtain ⟨level, console, opening, fs⟩ := a
  cases opening with
  | none =>
    simp [answer, attempted, start, h, addSinks, Attempt.sinks, Attempt.place?, Attempt.succeeds,
      Except.isOk, Except.toBool]
  | some action =>
    rcases hresult : action fs with ⟨place | f, fs'⟩
    · simp [answer, attempted, start, h, addSinks, Attempt.sinks, Attempt.place?, Attempt.succeeds,
        hresult, Except.toOption, Except.isOk, Except.toBool]
    · simp [answer, attempted, start, h, addSinks, Attempt.sinks, Attempt.place?, Attempt.succeeds,
        hresult, Except.toOption, Except.isOk, Except.toBool]

end Journal

namespace Attempt

theorem map_clear_sinks (a : Attempt) : a.sinks.map Sink.clear = a.sinks := by
  rw [sinks, List.map_append, List.map_append]
  congr 1
  · cases a.console <;> rfl
  · cases a.place? <;> rfl

theorem effective_of_failures {as : List Attempt} (h : as.any succeeds = false) :
    effective as = as := by
  induction as with
  | nil => rfl
  | cons a as ih =>
    simp only [List.any_cons, Bool.or_eq_false_iff] at h
    rw [effective, h.1, ih h.2]
    rfl

theorem any_effective (as : List Attempt) :
    (effective as).any succeeds = as.any succeeds := by
  induction as with
  | nil => rfl
  | cons a as ih =>
    cases ha : a.succeeds with
    | true => simp [effective, ha]
    | false => simp [effective, ha, ih]

theorem effective_concat (as : List Attempt) (a : Attempt) :
    effective (as ++ [a]) = if as.any succeeds then effective as else as ++ [a] := by
  induction as with
  | nil => cases h : a.succeeds <;> simp [effective, h]
  | cons b as ih =>
    rw [List.cons_append, effective, ih]
    cases hb : b.succeeds with
    | true => simp [effective, hb]
    | false =>
      cases hany : as.any succeeds <;> simp [effective, hb, hany]

end Attempt

namespace Journal

variable {j : Journal} {as : List Attempt}

theorem clear_keep (r : Record) (s : Sink) : (s.keep r).clear = s.clear := by
  cases s with
  | buffer t b =>
    simp only [Sink.keep]
    split <;> rfl
  | console => rfl
  | file => rfl

theorem clear_clear (s : Sink) : s.clear.clear = s.clear := by
  cases s <;> rfl

theorem SetUpBy.step (h : j.SetUpBy as) (s : Step) : (j.after s).SetUpBy as := by
  cases s with
  | log r =>
    rw [after, keep]
    split
    · refine ⟨h.ready, h.threshold, ?_⟩
      rw [List.map_map, ← h.sinks]
      exact List.map_congr_left fun s _ => clear_keep r s
    · exact h
  | clear =>
    refine ⟨h.ready, h.threshold, ?_⟩
    rw [after, clear, List.map_map, ← h.sinks]
    exact List.map_congr_left fun s _ => clear_clear s
  | query => exact h

theorem SetUpBy.attempt (h : j.SetUpBy (Attempt.effective as)) (a : Attempt) :
    (j.attempted a).SetUpBy (Attempt.effective (as ++ [a])) := by
  have hready := h.ready
  rw [Attempt.any_effective] at hready
  rw [Attempt.effective_concat, ← hready]
  cases hj : j.ready with
  | true => simpa [(attempted_of_ready hj a).2] using h
  | false =>
    rw [hj] at hready
    rw [Attempt.effective_of_failures hready.symm] at h
    rw [(attempted_of_not_ready hj a).2]
    refine ⟨?_, ?_, ?_⟩
    · simp [← hready]
    · simp
    · simp [h.sinks, a.map_clear_sinks]

/-- What counts for a journal are the attempts up to the first that succeeds. -/
theorem setUpBy_effective (events : List Event) :
    (events.foldl afterEvent {}).SetUpBy (Attempt.effective (events.filterMap Event.attempt?)) := by
  induction events using List.reverseRecOn with
  | nil => exact ⟨rfl, rfl, rfl⟩
  | append_singleton events e ih =>
    rw [List.foldl_append, List.filterMap_append]
    cases e with
    | attempt a => exact ih.attempt a
    | step s =>
      have hsame : [Event.step s].filterMap Event.attempt? = [] := rfl
      rw [hsame, List.append_nil]
      exact ih.step s

/-- Whatever does not look into buffers finds the sinks of the attempts. -/
theorem SetUpBy.filterMap_sinks (h : j.SetUpBy as) {f : Sink → Option α}
    (hf : ∀ s, f s.clear = f s) :
    j.sinks.filterMap f = (as.flatMap Attempt.sinks).filterMap f := by
  rw [← h.sinks, List.filterMap_map]
  congr 1
  funext s
  exact (hf s).symm

theorem consoleLine?_clear (r : Record) (s : Sink) :
    Sink.consoleLine? r s.clear = Sink.consoleLine? r s := by
  cases s <;> rfl

theorem length_consoleLine? (a : Attempt) (r : Record) :
    (a.sinks.filterMap (Sink.consoleLine? r)).length =
      if a.console.isSome ∧ a.level ≤ r.level then 1 else 0 := by
  have hfile : (a.place?.map (Sink.file a.level)).toList.filterMap (Sink.consoleLine? r) = [] := by
    cases a.place? <;> rfl
  rw [Attempt.sinks, List.filterMap_append, hfile, List.append_nil, List.filterMap_append]
  cases a.console with
  | none => simp [Sink.consoleLine?]
  | some layout =>
    by_cases hlevel : a.level ≤ r.level <;> simp [Sink.consoleLine?, hlevel]

theorem SetUpBy.length_consoleLines (h : j.SetUpBy as) (r : Record) :
    (j.consoleLines r).length = if j.takes r.level then
      as.countP fun a => a.console.isSome ∧ a.level ≤ r.level else 0 := by
  unfold consoleLines
  split
  · rw [h.filterMap_sinks (consoleLine?_clear r)]
    clear h
    induction as with
    | nil => rfl
    | cons a as ih =>
      rw [List.flatMap_cons, List.filterMap_append, List.length_append, ih, length_consoleLine?,
        List.countP_cons, Nat.add_comm]
      simp
  · rfl

theorem target?_clear (r : Record) (s : Sink) : s.clear.target? r = s.target? r := by
  cases s <;> rfl

theorem targets_of_attempt (a : Attempt) (r : Record) :
    a.sinks.filterMap (Sink.target? r) =
      if a.level ≤ r.level then a.place?.toList else [] := by
  have hconsole :
      (a.console.map (Sink.console a.level)).toList.filterMap (Sink.target? r) = [] := by
    cases a.console <;> rfl
  rw [Attempt.sinks, List.filterMap_append, List.filterMap_append, hconsole, List.append_nil]
  cases a.place? with
  | none => simp [Sink.target?]
  | some place => by_cases hlevel : a.level ≤ r.level <;> simp [Sink.target?, hlevel]

/-- No attempt opens a file but the one that succeeds. -/
theorem length_targets (as : List Attempt) (r : Record) :
    (((Attempt.effective as).flatMap Attempt.sinks).filterMap (Sink.target? r)).length ≤ 1 := by
  induction as with
  | nil => exact Nat.zero_le 1
  | cons a as ih =>
    rw [Attempt.effective]
    split
    · rw [List.flatMap_singleton, targets_of_attempt]
      split
      · cases a.place? <;> simp
      · exact Nat.zero_le 1
    · next hfails =>
      have hnone : a.place? = none := by
        simp only [Attempt.succeeds, Bool.or_eq_true, not_or, Bool.not_eq_true] at hfails
        simpa using hfails.2
      rw [List.flatMap_cons, List.filterMap_append, targets_of_attempt, hnone, Option.toList_none,
        ite_self, List.nil_append]
      exact ih

theorem foldl_write (r : Record) (fs : FileSystem) (sinks : List Sink) :
    sinks.foldl (Sink.write r) fs = (sinks.filterMap (Sink.target? r)).foldl
      (fun fs place => fs.append place (Layout.text {} r ++ "\n").toUTF8) fs := by
  induction sinks generalizing fs with
  | nil => rfl
  | cons s sinks ih =>
    rw [List.foldl_cons, ih]
    cases s with
    | buffer t b => rfl
    | console t layout => rfl
    | file t place => by_cases ht : t ≤ r.level <;> simp [Sink.write, Sink.target?, ht]

theorem write_eq (j : Journal) (r : Record) (fs : FileSystem) : j.write r fs =
    (j.targets r).foldl (fun fs place => fs.append place (Layout.text {} r ++ "\n").toUTF8) fs := by
  unfold write targets
  split
  · exact foldl_write r fs j.sinks
  · rfl

theorem SetUpBy.length_targets (h : j.SetUpBy (Attempt.effective as)) (r : Record) :
    (j.targets r).length ≤ 1 := by
  unfold targets
  split
  · rw [h.filterMap_sinks (target?_clear r)]
    exact Journal.length_targets as r
  · exact Nat.zero_le 1

theorem SetUpBy.write_cases (h : j.SetUpBy (Attempt.effective as)) (r : Record)
    (fs : FileSystem) : j.write r fs = fs ∨
      ∃ place, j.write r fs = fs.append place (Layout.text {} r ++ "\n").toUTF8 := by
  have hfew := h.length_targets r
  rw [write_eq]
  match htargets : j.targets r with
  | [] => exact .inl rfl
  | [place] => exact .inr ⟨place, rfl⟩
  | _ :: _ :: _ =>
    rw [htargets, List.length_cons, List.length_cons] at hfew
    omega

end Journal

/-- Setting up, however often it is tried and whatever is recorded in between: the attempts up to
the first that succeeds all count, those that fail included, and the later ones do not. A record
comes to the console once for every attempt that counts and asks for it, but to one file at
most. -/
theorem setting_up_adds_up (events : List Event) :
    let j := events.foldl Journal.afterEvent {}
    let as := Attempt.effective (events.filterMap Event.attempt?)
    j.SetUpBy as ∧
      (∀ a, (j.answer a).isOk = false → j.ready = false ∧ j.attempted a =
        { threshold := a.level, sinks := j.sinks ++ a.sinks, ready := false }) ∧
      (∀ a, j.ready = true → j.answer a = .ok () ∧ j.attempted a = j) ∧
      ∀ r, ((j.consoleLines r).length = if j.takes r.level then
          as.countP fun a => a.console.isSome ∧ a.level ≤ r.level else 0) ∧
        ∀ fs, j.write r fs = fs ∨
          ∃ place, j.write r fs = fs.append place (Layout.text {} r ++ "\n").toUTF8 := by
  intro j as
  have hset : j.SetUpBy as := Journal.setUpBy_effective events
  refine ⟨hset, ?_, fun a h => Journal.attempted_of_ready h a, ?_⟩
  · intro a hfails
    cases hready : j.ready with
    | true => simp [(Journal.attempted_of_ready hready a).1, Except.isOk, Except.toBool] at hfails
    | false =>
      obtain ⟨hanswer, hafter⟩ := Journal.attempted_of_not_ready hready a
      rw [hanswer] at hfails
      exact ⟨rfl, hfails ▸ hafter⟩
  · intro r
    exact ⟨hset.length_consoleLines r, hset.write_cases r⟩

/-- An attempt that cannot open its file leaves the threshold and two sinks, and after one more
attempt every record stands on the console twice. -/
theorem failed_attempt_doubles_console :
    let a : Attempt := {
      level := Level.debug
      console := some {}
      opening := some (openFile "/" none "/log")
      fs := { root := { write := false } } }
    let r : Record := { level := Level.info, message := "m" }
    let j := Journal.attempted {} a
    (Journal.answer {} a).isOk = false ∧ j.threshold = Level.debug ∧ j.sinks.length = 2 ∧
      j.answer { a with opening := none } = .ok () ∧
      (j.attempted { a with opening := none }).consoleLines r =
        ["[1970-01-01 00:00:00.000] INFO     m\n", "[1970-01-01 00:00:00.000] INFO     m\n"] := by
  intro a r j
  refine ⟨by decide, rfl, rfl, rfl, ?_⟩
  decide

end CommandShell.Log
