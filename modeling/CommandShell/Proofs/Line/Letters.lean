import CommandShell.Line
import CommandShell.Proofs.Paths

/-! # Where the characters of a command come from

Every character of a word stands on its line, and every word of a command is a word of its line. So
a line without the character zero gives a command without it. -/
namespace CommandShell.Line

open FileSystem (hasNul)

/-- A command without the character zero in any of its words. -/
structure Command.Plain (c : Command) : Prop where
  name : hasNul c.name = false
  arguments : ∀ a ∈ c.arguments, hasNul a = false
  target : ∀ t, c.redirection.target = some t → hasNul t = false

theorem mem_of_letter {q : Option Quote} {cs : List Char} {c : Char}
    (h : .letter c ∈ marks q cs) : c ∈ cs := by
  induction q, cs using marks.induct with
  | case1 => simp [marks] at h
  | case2 q => simp [marks] at h
  -- The marks of a line are those of what is left, perhaps behind a letter from its front.
  | _ => simp_all [marks]; try grind

theorem letter_of_mem_runs {ms : List Mark} {w : List Char} {c : Char}
    (hw : w ∈ (runs ms).1 :: (runs ms).2) (hc : c ∈ w) : .letter c ∈ ms := by
  induction ms using runs.induct generalizing w with
  | case1 =>
    simp only [runs, List.mem_singleton] at hw
    simp [hw] at hc
  | case2 ms ih =>
    simp only [runs] at hw
    rcases List.mem_cons.mp hw with rfl | hw
    · simp at hc
    · exact List.mem_cons_of_mem _ (ih hw hc)
  | case3 d ms ih =>
    simp only [runs, List.mem_cons] at hw ih ⊢
    rcases hw with rfl | hw
    · rcases List.mem_cons.mp hc with rfl | hc
      · exact .inl rfl
      · exact .inr (ih (.inl rfl) hc)
    · exact .inr (ih (.inr hw) hc)
  | case4 q ms ih =>
    exact List.mem_cons_of_mem _ (ih hw hc)

theorem hasNul_of_mem_words {line w : String} (h : hasNul line = false) (hw : w ∈ words line) :
    hasNul w = false := by
  obtain ⟨cs, hcs, rfl⟩ := List.mem_map.mp hw
  rw [hasNul_ofList]
  intro hmem
  have hletter := letter_of_mem_runs (List.mem_filter.mp hcs).1 hmem
  exact hasNul_eq_false_iff.mp h (mem_of_letter hletter)

namespace Redirection

theorem mem_of_extract {last r : Redirection} {ws rest : List String}
    (h : extract last ws = .ok (rest, r)) :
    (∀ w ∈ rest, w ∈ ws) ∧ ∀ t, r.target = some t → last.target = some t ∨ t ∈ ws := by
  induction last, ws using extract.induct generalizing rest r with
  | case1 last =>
    cases h
    exact ⟨fun _ hw => hw, fun _ ht => .inl ht⟩
  | case2 last w op hop => simp [extract, hop] at h
  | case3 last w hop =>
    simp only [extract, hop, Except.ok.injEq, Prod.mk.injEq] at h
    obtain ⟨rfl, rfl⟩ := h
    exact ⟨fun _ hw => hw, fun _ ht => .inl ht⟩
  | case4 last w target ws channel append hop ih =>
    simp only [extract, hop] at h
    obtain ⟨hrest, htarget⟩ := ih h
    refine ⟨fun v hv => List.mem_cons_of_mem _ (List.mem_cons_of_mem _ (hrest v hv)), ?_⟩
    intro t ht
    rcases htarget t ht with hlast | hmem
    · simp_all
    · exact .inr (List.mem_cons_of_mem _ (List.mem_cons_of_mem _ hmem))
  | case5 last w target ws hop ih =>
    simp only [extract, hop] at h
    cases hx : extract last (target :: ws) with
    | error f => simp [hx, Except.map] at h
    | ok p =>
      rw [hx] at h
      cases h
      obtain ⟨hrest, htarget⟩ := ih hx
      refine ⟨?_, fun t ht => (htarget t ht).imp_right (List.mem_cons_of_mem w)⟩
      intro v hv
      rcases List.mem_cons.mp hv with rfl | hv
      · exact List.mem_cons_self
      · exact List.mem_cons_of_mem w (hrest v hv)

end Redirection

theorem Command.plain_of_line {line : String} {c : Command} (h : ofLine line = .ok c)
    (hn : hasNul line = false) : c.Plain := by
  have hplain : ∀ w ∈ words line, hasNul w = false := fun w hw => hasNul_of_mem_words hn hw
  have hwords : readWords false line = .ok (words line) := rfl
  simp only [ofLine, hwords, bind, Except.bind] at h
  generalize words line = ws at h hplain
  cases ws with
  | nil =>
    cases h
    exact ⟨rfl, fun _ ha => absurd ha List.not_mem_nil, fun _ ht => nomatch ht⟩
  | cons name rest =>
    simp only [Redirection.split] at h
    cases hx : Redirection.extract {} rest with
    | error f => simp [hx, Except.map] at h
    | ok p =>
      rw [hx] at h
      cases h
      obtain ⟨harguments, htarget⟩ := Redirection.mem_of_extract hx
      refine ⟨hplain name List.mem_cons_self, ?_, ?_⟩
      · exact fun a ha => hplain a (List.mem_cons_of_mem name (harguments a ha))
      · intro t ht
        rcases htarget t ht with hnone | hmem
        · simp at hnone
        · exact hplain t (List.mem_cons_of_mem name hmem)

end CommandShell.Line
