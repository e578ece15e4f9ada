import Mathlib.Data.List.DropRight
import CommandShell.Log.Journal

/-! # What log buffers hold

A buffer keeps the latest of the records that passed the thresholds since it was last emptied, and a
query finds the latest of those among them that it asks for. Both count from the end, and a count of
zero is no count: the place that is no record away from the end is taken for the front. -/
namespace CommandShell.Log

inductive Step where
  | log (r : Record)
  | clear
  | query (level origin : Option String) (limit : Int)

namespace Step

def isClear : Step → Bool
  | clear => true
  | _ => false

def record? : Step → Option Record
  | log r => some r
  | _ => none

def sinceClear (steps : List Step) : List Record :=
  (steps.rtakeWhile fun s => !s.isClear).filterMap record?

end Step

/-- A record that passes the threshold of a journal and that of a sink. A journal without a
threshold has that of warnings. -/
def Record.Passes (r : Record) (journal sink : Level) : Prop :=
  (if journal = 0 then Level.warning else journal) ≤ r.level ∧ sink ≤ r.level

structure Record.Matches (r : Record) (level origin : Option String) : Prop where
  level : ∀ name, level = some name → name ≠ "" → Level.name r.level = name
  origin : ∀ name, origin = some name → name ≠ "" → r.origin = some name

instance (r : Record) (journal sink : Level) : Decidable (r.Passes journal sink) :=
  inferInstanceAs (Decidable (_ ∧ _))

namespace Journal

def after (j : Journal) : Step → Journal
  | .log r => j.keep r
  | .clear => j.clear
  | .query .. => j

def run (j : Journal) (steps : List Step) : Journal :=
  steps.foldl after j

/-- A sink of the journal is a buffer that has been offered some records since it was emptied. -/
def Holds (j : Journal) (i : Nat) (t : Level) (n : Int) (offered : List Record) : Prop :=
  j.sinks[i]? = some (.buffer t
    { bound := n, records := lastPart n (offered.filter (·.Passes j.threshold t)) })

end Journal

variable {n limit : Int} {t : Level} {level origin : Option String} {r : Record}
  {j : Journal} {i : Nat}

theorem rtake_rtake_of_le {m k : Nat} (h : m ≤ k) (xs : List α) :
    (xs.rtake k).rtake m = xs.rtake m := by
  simp only [List.rtake_eq_reverse_take_reverse, List.reverse_reverse, List.take_take,
    Nat.min_eq_left h]

/-- What was cut off before an element came is not missed after it. -/
theorem rtake_rtake_concat (k : Nat) (xs : List α) (x : α) :
    (xs.rtake k ++ [x]).rtake k = (xs ++ [x]).rtake k := by
  cases k with
  | zero => simp
  | succ k => rw [List.rtake_concat_succ, List.rtake_concat_succ, rtake_rtake_of_le k.le_succ]

theorem rtake_of_length_le {k : Nat} {xs : List α} (h : xs.length ≤ k) : xs.rtake k = xs := by
  rw [List.rtake, Nat.sub_eq_zero_of_le h, List.drop_zero]

theorem length_rtake_le (k : Nat) (xs : List α) : (xs.rtake k).length ≤ k := by
  rw [List.rtake, List.length_drop]
  omega

theorem lastPart_of_pos (hn : 0 < n) (xs : List α) : lastPart n xs = xs.rtake n.toNat := by
  rw [lastPart, if_pos hn, List.rtake]

theorem lastPart_zero (xs : List α) : lastPart 0 xs = xs := rfl

/-- A part that is counted from the end is bounded by the count, unless the count is zero. -/
theorem length_lastPart_le_iff (hn : 0 ≤ n) (xs : List α) :
    ((lastPart n xs).length : Int) ≤ n ↔ 0 < n ∨ xs = [] := by
  obtain rfl | hpos : n = 0 ∨ 0 < n := by omega
  · rw [lastPart_zero]
    cases xs with
    | nil => simp
    | cons x xs =>
      simp only [List.length_cons, reduceCtorEq, or_false]
      omega
  · have hle := length_rtake_le n.toNat xs
    rw [lastPart_of_pos hpos]
    constructor
    · exact fun _ => .inl hpos
    · intro _
      omega

/-- Cutting after each element is cutting once, at the end. -/
theorem cut_lastPart_concat (hn : 0 ≤ n) (xs : List α) (x : α) :
    (if n < (lastPart n xs ++ [x]).length then lastPart n (lastPart n xs ++ [x])
      else lastPart n xs ++ [x]) = lastPart n (xs ++ [x]) := by
  obtain rfl | hpos : n = 0 ∨ 0 < n := by omega
  · split <;> rfl
  split
  · simp only [lastPart_of_pos hpos, rtake_rtake_concat]
  · next hfits =>
    rw [lastPart_of_pos hpos] at hfits ⊢
    have hle : (xs.rtake n.toNat ++ [x]).length ≤ n.toNat := by omega
    rw [lastPart_of_pos hpos, ← rtake_rtake_concat, rtake_of_length_le hle]

theorem push_lastPart (hn : 0 ≤ n) (xs : List Record) (r : Record) :
    Buffer.push { bound := n, records := lastPart n xs } r =
      { bound := n, records := lastPart n (xs ++ [r]) } :=
  congrArg (Buffer.mk n) (cut_lastPart_concat hn xs r)

theorem passes_iff (filter value : Option String) : Buffer.passes filter value = true ↔
    ∀ name, filter = some name → name ≠ "" → value = some name := by
  cases filter with
  | none => simp [Buffer.passes]
  | some f => by_cases hf : f = "" <;> simp [Buffer.passes, hf]

theorem matches_iff : r.Matches level origin ↔
    (Buffer.passes level (some (Level.name r.level)) && Buffer.passes origin r.origin) = true := by
  rw [Bool.and_eq_true, passes_iff, passes_iff]
  constructor
  · intro h
    exact ⟨fun name hn hne => congrArg some (h.level name hn hne), h.origin⟩
  · rintro ⟨hlevel, horigin⟩
    exact ⟨fun name hn hne => Option.some.inj (hlevel name hn hne), horigin⟩

instance (r : Record) (level origin : Option String) : Decidable (r.Matches level origin) :=
  decidable_of_iff _ matches_iff.symm

theorem get_eq (b : Buffer) (level origin : Option String) (limit : Int) :
    b.get level origin limit = lastPart limit (b.records.filter (·.Matches level origin)) := by
  rw [Buffer.get]
  congr 1
  apply List.filter_congr
  intro r _
  rw [Bool.eq_iff_iff, decide_eq_true_iff]
  exact matches_iff.symm

theorem sinceClear_log (steps : List Step) (r : Record) :
    Step.sinceClear (steps ++ [.log r]) = Step.sinceClear steps ++ [r] := by
  rw [Step.sinceClear, List.rtakeWhile_concat_pos _ _ _ (by rfl), List.filterMap_append]
  rfl

theorem sinceClear_clear (steps : List Step) : Step.sinceClear (steps ++ [.clear]) = [] := by
  rw [Step.sinceClear, List.rtakeWhile_concat_neg _ _ _ (by simp [Step.isClear])]
  rfl

theorem sinceClear_query (steps : List Step) (level origin : Option String) (limit : Int) :
    Step.sinceClear (steps ++ [.query level origin limit]) = Step.sinceClear steps := by
  rw [Step.sinceClear, List.rtakeWhile_concat_pos _ _ _ (by rfl), List.filterMap_append]
  exact List.append_nil _

namespace Journal

theorem run_concat (j : Journal) (steps : List Step) (step : Step) :
    j.run (steps ++ [step]) = (j.run steps).after step := by
  rw [run, List.foldl_append, run]
  rfl

theorem threshold_after (j : Journal) (step : Step) : (j.after step).threshold = j.threshold := by
  cases step with
  | log r =>
    unfold after keep
    dsimp only
    split <;> rfl
  | clear => rfl
  | query => rfl

theorem threshold_run (j : Journal) (steps : List Step) :
    (j.run steps).threshold = j.threshold := by
  induction steps using List.reverseRecOn with
  | nil => rfl
  | append_singleton steps step ih => rw [run_concat, threshold_after, ih]

theorem Holds.keep {offered : List Record} (h : j.Holds i t n offered) (hn : 0 ≤ n) (r : Record) :
    (j.keep r).Holds i t n (offered ++ [r]) := by
  have hthreshold : (j.keep r).threshold = j.threshold := threshold_after j (.log r)
  unfold Holds at h ⊢
  rw [hthreshold, List.filter_append]
  by_cases hj : j.takes r.level = true
  · have hpasses : r.Passes j.threshold t ↔ t ≤ r.level := by
      simp only [takes, decide_eq_true_eq] at hj
      simp [Record.Passes, hj]
    rw [Journal.keep, if_pos hj]
    simp only [List.getElem?_map, h, Option.map_some, Sink.keep]
    by_cases ht : t ≤ r.level
    · rw [if_pos ht, push_lastPart hn, List.filter_singleton, decide_eq_true (hpasses.mpr ht)]
      rfl
    · rw [if_neg ht, List.filter_singleton, decide_eq_false (mt hpasses.mp ht), cond_false,
        List.append_nil]
  · have hpasses : ¬ r.Passes j.threshold t := by
      simp only [takes, decide_eq_true_eq] at hj
      simp [Record.Passes, hj]
    rw [Journal.keep, if_neg hj, h, List.filter_singleton, decide_eq_false hpasses, cond_false,
      List.append_nil]

theorem holds_nil_iff : j.Holds i t n [] ↔
    j.sinks[i]? = some (.buffer t { bound := n, records := [] }) := by
  rw [Holds, List.filter_nil, lastPart, List.drop_nil, List.drop_nil, ite_self]

theorem Holds.clear {offered : List Record} (h : j.Holds i t n offered) :
    j.clear.Holds i t n [] := by
  rw [holds_nil_iff, Journal.clear, List.getElem?_map, h]
  rfl

theorem Holds.run (h : j.Holds i t n []) (hn : 0 ≤ n) (steps : List Step) :
    (j.run steps).Holds i t n (Step.sinceClear steps) := by
  induction steps using List.reverseRecOn with
  | nil => exact h
  | append_singleton steps step ih =>
    rw [run_concat]
    cases step with
    | log r =>
      rw [sinceClear_log]
      exact ih.keep hn r
    | clear =>
      rw [sinceClear_clear]
      exact ih.clear
    | query =>
      rw [sinceClear_query]
      exact ih

/-- What a buffer that was empty at first holds after a run. -/
theorem sinks_run (hi : j.sinks[i]? = some (.buffer t { bound := n, records := [] }))
    (hn : 0 ≤ n) (steps : List Step) : (j.run steps).sinks[i]? = some (.buffer t
      { bound := n
        records := lastPart n ((Step.sinceClear steps).filter (·.Passes j.threshold t)) }) := by
  have hholds := (holds_nil_iff.mpr hi).run hn steps
  rw [Holds, threshold_run] at hholds
  exact hholds

end Journal

/-- After any logging, emptying and asking a buffer with a positive bound holds the latest records
that passed the thresholds since it was last emptied, and a query with a positive limit finds the
latest of these that it asks for. -/
theorem buffer_holds_latest
    (hi : j.sinks[i]? = some (.buffer t { bound := n, records := [] })) (hn : 1 ≤ n)
    (steps : List Step) :
    let held := ((Step.sinceClear steps).filter (·.Passes j.threshold t)).rtake n.toNat
    (j.run steps).sinks[i]? = some (.buffer t { bound := n, records := held }) ∧
      ∀ level origin limit, 1 ≤ limit →
        Buffer.get { bound := n, records := held } level origin limit =
          (held.filter (·.Matches level origin)).rtake limit.toNat := by
  intro held
  have hheld := Journal.sinks_run hi (by omega) steps
  rw [lastPart_of_pos (by omega)] at hheld
  refine ⟨hheld, fun level origin limit hlimit => ?_⟩
  rw [get_eq, lastPart_of_pos (by omega)]

/-- Of three errors since the clearing a buffer for two has lost the first; what is below the
threshold never came to it. -/
theorem buffer_for_two_after_three_errors :
    let e (m : String) : Record := { level := .error, message := m, origin := some "shell" }
    let steps : List Step := [.log (e "a"), .clear, .log (e "b"), .log (e "c"),
      .log { level := .info, message := "i" }, .query none none 1, .log (e "d")]
    let j : Journal := { sinks := [.buffer .debug { bound := 2 }] }
    (j.run steps).sinks[0]? = some (.buffer .debug { bound := 2, records := [e "c", e "d"] }) ∧
      Buffer.get { bound := 2, records := [e "c", e "d"] } (some "ERROR") (some "shell") 1 =
        [e "d"] := by
  intro e steps j
  obtain ⟨hheld, hfound⟩ := buffer_holds_latest (j := j) (i := 0) rfl (by decide) steps
  exact ⟨hheld, hfound (some "ERROR") (some "shell") 1 (by decide)⟩

/-- What a bound and a limit are worth. A positive one is kept; a bound of zero lets a buffer grow
with every record that passes, and under a limit of zero a query finds all that it asks for. -/
theorem bounds_hold_above_zero
    (hi : j.sinks[i]? = some (.buffer t { bound := n, records := [] })) (hn : 0 ≤ n)
    (steps : List Step) :
    let passed := (Step.sinceClear steps).filter (·.Passes j.threshold t)
    ∃ b, (j.run steps).sinks[i]? = some (.buffer t b) ∧
      ((b.records.length : Int) ≤ n ↔ 0 < n ∨ passed = []) ∧
      (n = 0 → b.records = passed) ∧
      ∀ level origin limit, 0 ≤ limit →
        (((b.get level origin limit).length : Int) ≤ limit ↔
          0 < limit ∨ ∀ r ∈ b.records, ¬ r.Matches level origin) ∧
        (limit = 0 →
          b.get level origin limit = b.records.filter (·.Matches level origin)) := by
  intro passed
  refine ⟨_, Journal.sinks_run hi hn steps, length_lastPart_le_iff hn _, ?_, ?_⟩
  · rintro rfl
    exact lastPart_zero _
  · intro level origin limit hlimit
    rw [get_eq]
    refine ⟨(length_lastPart_le_iff hlimit _).trans ?_, ?_⟩
    · simp only [List.filter_eq_nil_iff, decide_eq_true_eq]
    · rintro rfl
      exact lastPart_zero _

/-- A buffer for one record keeps its bound under errors that go on, and a query with the limit zero
finds the one that is left. -/
theorem buffer_for_one_after_three_errors :
    let e (m : String) : Record := { level := .error, message := m }
    let steps : List Step := [.log (e "a"), .log (e "b"), .log (e "c")]
    let j : Journal := { sinks := [.buffer .debug { bound := 1 }] }
    ∃ b, (j.run steps).sinks[0]? = some (.buffer .debug b) ∧ (b.records.length : Int) ≤ 1 ∧
      b.get (some "ERROR") none 0 = b.records.filter (·.Matches (some "ERROR") none) := by
  intro e steps j
  obtain ⟨b, hb, hbound, -, hquery⟩ := bounds_hold_above_zero (j := j) (i := 0) rfl (by decide) steps
  refine ⟨b, hb, hbound.mpr (.inl (by decide)), ?_⟩
  exact (hquery (some "ERROR") none 0 (by decide)).2 rfl

/-- A buffer for no records holds one after one was logged, and a query for no records finds it. -/
theorem zero_bounds_nothing :
    let r : Record := { level := .error, message := "a" }
    let j : Journal := { sinks := [.buffer .debug { bound := 0 }] }
    ∃ b, (j.run [.log r]).sinks[0]? = some (.buffer .debug b) ∧ ¬ (b.records.length : Int) ≤ 0 ∧
      ¬ ((b.get none none 0).length : Int) ≤ 0 := by
  intro r j
  exact ⟨{ bound := 0, records := [r] }, rfl, by decide, by decide⟩

end CommandShell.Log
