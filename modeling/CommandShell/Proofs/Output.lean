import CommandShell.Proofs.Action

/-! # How the text of a command is put in its place

The target of a redirection can be opened, or the system refuses it, or its path holds the character
zero. Only the last is no failure of the shell's own, and it shows before the command runs. -/
namespace CommandShell

open FileSystem (hasNul Writable)

namespace Line.Redirection

def NamesNul (r : Redirection) : Prop :=
  ∃ path, r.isActive = true ∧ r.target = some path ∧ hasNul path = true

def Ready (r : Redirection) (fs : FileSystem) (processDir : String) : Prop :=
  ∀ path, r.isActive = true → r.target = some path → fs.Writable processDir path

theorem Ready.not_namesNul {r : Redirection} {fs : FileSystem} {processDir : String}
    (h : r.Ready fs processDir) : ¬ r.NamesNul := by
  intro hx
  obtain ⟨path, ha, ht, hn⟩ := hx
  simp [(h path ha ht).no_nul] at hn

theorem no_nul_of_target {r : Redirection} {path : String} (h : ¬ r.NamesNul)
    (ha : r.isActive = true) (ht : r.target = some path) : hasNul path = false := by
  by_cases hn : hasNul path = true
  · exact absurd ⟨path, ha, ht, hn⟩ h
  · simpa using hn

theorem Ready.sameNodes {r : Redirection} {a b : FileSystem} {processDir : String}
    (h : r.Ready a processDir) (hs : a.SameNodes b) : r.Ready b processDir :=
  fun path ha ht => hs.writable (h path ha ht)

theorem target_of_isActive {r : Redirection} (h : r.isActive = true) :
    ∃ path, r.target = some path := by
  simp only [isActive, Bool.and_eq_true] at h
  exact Option.isSome_iff_exists.mp h.1

end Line.Redirection

namespace Output

open Line (Redirection)

variable {path : String} {w : World}

theorem openTarget_of_writable (append : Bool) (h : w.fs.Writable w.processDir path) :
    (openTarget path append).Ends w fun r w' =>
      (∃ place, r = .ok place) ∧ w.Steady w' ∧ w'.fs.Writable w'.processDir path := by
  obtain ⟨place, fs, hopen, hgrows, hagain⟩ := h.openForWriting append
  unfold openTarget
  apply Action.Ends.get_bind
  rw [hopen]
  apply Action.Ends.set_bind
  exact Action.Ends.pure ⟨⟨place, rfl⟩, ⟨hgrows, rfl, rfl, rfl⟩, hagain⟩

theorem openTarget_refused (append : Bool) (hn : hasNul path = false)
    (h : ¬ w.fs.Writable w.processDir path) :
    (openTarget path append).Ends w fun r w' => (∃ f, r = .error (.failure f)) ∧ w' = w := by
  obtain ⟨e, hopen⟩ := FileSystem.openForWriting_refused append hn h
  unfold openTarget
  apply Action.Ends.get_bind
  rw [hopen]
  exact Action.Ends.throw ⟨⟨_, rfl⟩, rfl⟩

theorem openTarget_of_nul (append : Bool) (hn : hasNul path = true) :
    (openTarget path append).Ends w fun r w' => r = .error (.fault .nulCharacter) ∧ w' = w := by
  unfold openTarget
  apply Action.Ends.get_bind
  rw [FileSystem.openForWriting_of_nul hn]
  exact Action.Ends.throw ⟨rfl, rfl⟩

theorem prepare_active {r : Redirection} (ha : r.isActive = true) (ht : r.target = some path) :
    prepare r = discard (openTarget path r.append) := by
  unfold prepare
  rw [ha, ht]

theorem prepare_inactive {r : Redirection} (ha : r.isActive = false) : prepare r = pure () := by
  unfold prepare
  rw [ha]

theorem ends_discard {a : Action α} {post : Except Stop α → World → Prop}
    {last : Except Stop Unit → World → Prop} (h : a.Ends w post)
    (ok : ∀ x w', post (.ok x) w' → last (.ok ()) w')
    (error : ∀ s w', post (.error s) w' → last (.error s) w') : (discard a).Ends w last := by
  have hd : discard a = a >>= fun _ => pure () := rfl
  rw [hd]
  exact h.bind (fun x w' hp => Action.Ends.pure (ok x w' hp)) error

theorem prepare_of_ready {r : Redirection} (h : r.Ready w.fs w.processDir) :
    (prepare r).Ends w fun res w' =>
      res = .ok () ∧ w.Steady w' ∧ r.Ready w'.fs w'.processDir := by
  by_cases ha : r.isActive = true
  · obtain ⟨path, ht⟩ := Redirection.target_of_isActive ha
    rw [prepare_active ha ht]
    apply ends_discard (openTarget_of_writable r.append (h path ha ht))
    · intro _ w' hend
      obtain ⟨-, hs, hw⟩ := hend
      refine ⟨rfl, hs, ?_⟩
      intro other _ hother
      rw [ht] at hother
      cases hother
      exact hw
    · intro s w' hend
      obtain ⟨⟨_, he⟩, -⟩ := hend
      simp at he
  · have ha : r.isActive = false := by simpa using ha
    rw [prepare_inactive ha]
    exact Action.Ends.pure ⟨rfl, .refl w, h⟩

theorem prepare_refused {r : Redirection} (hn : ¬ r.NamesNul) (h : ¬ r.Ready w.fs w.processDir) :
    (prepare r).Ends w fun res w' => (∃ f, res = .error (.failure f)) ∧ w' = w := by
  simp only [Redirection.Ready, Classical.not_forall] at h
  obtain ⟨path, ha, ht, hw⟩ := h
  have hn : hasNul path = false := Redirection.no_nul_of_target hn ha ht
  rw [prepare_active ha ht]
  apply ends_discard (openTarget_refused r.append hn hw)
  · intro _ w' hend
    obtain ⟨⟨_, he⟩, -⟩ := hend
    simp at he
  · intro s w' hend
    obtain ⟨⟨f, he⟩, hw'⟩ := hend
    cases he
    exact ⟨⟨f, rfl⟩, hw'⟩

theorem prepare_of_nul {r : Redirection} (hn : r.NamesNul) :
    (prepare r).Ends w fun res w' => res = .error (.fault .nulCharacter) ∧ w' = w := by
  obtain ⟨path, ha, ht, hp⟩ := hn
  rw [prepare_active ha ht]
  apply ends_discard (openTarget_of_nul r.append hp)
  · intro _ w' hend
    obtain ⟨he, -⟩ := hend
    simp at he
  · intro s w' hend
    obtain ⟨he, hw'⟩ := hend
    cases he
    exact ⟨rfl, hw'⟩

theorem writeTarget_ends (append : Bool) (text : String) (hn : hasNul path = false) :
    (writeTarget path append text).Ends w fun r w' =>
      (r = .ok () ∨ ∃ f, r = .error (.failure f)) ∧ w.Steady w' := by
  unfold writeTarget
  by_cases hw : w.fs.Writable w.processDir path
  · apply (openTarget_of_writable append hw).bind_of_returns (by simp)
    intro place w₁ hend
    obtain ⟨-, hs, -⟩ := hend
    apply (Action.reports_writeAt place _ w₁).imp
    intro r w₂ hend
    obtain ⟨hr, hq⟩ := hend
    exact ⟨.inl hr, hs.trans hq.steady⟩
  · apply (openTarget_refused append hn hw).bind_of_stops (by simp)
    intro s w₁ hend
    obtain ⟨⟨f, he⟩, rfl⟩ := hend
    cases he
    exact ⟨.inr ⟨f, rfl⟩, .refl _⟩

/-- Without the character zero in its target a result always finds its place. -/
theorem route_ends (result : Result) {r : Redirection} (hn : ¬ r.NamesNul) :
    (route result r).Ends w fun res w' => res = .ok () ∧ w.Steady w' := by
  have hshow (w : World) : (showOn r result.output).Ends w fun res w' =>
      res = .ok () ∧ w.Steady w' :=
    (Action.reports_showOn r result.output w).imp fun _ _ h => ⟨h.1, h.2.steady⟩
  unfold route
  split
  · exact Action.Ends.pure ⟨rfl, .refl w⟩
  split
  · next path hc ht =>
    have ha : r.isActive = true := by
      simp only [captures, Bool.and_eq_true] at hc
      exact hc.1
    have hp : hasNul path = false := Redirection.no_nul_of_target hn ha ht
    apply (writeTarget_ends r.append result.output hp).outcome_bind
    intro _ w₁ hend
    rcases hend with ⟨rfl | ⟨f, rfl⟩, hs⟩
    · exact Action.Ends.pure ⟨rfl, hs⟩
    · apply (Action.reports_log _ _ _ _ _).bind
      intro w₂ hq
      apply (Action.reports_complain _).bind
      intro w₃ hq'
      apply (hshow w₃).imp
      intro _ w₄ hend
      obtain ⟨hr, hs'⟩ := hend
      exact ⟨hr, ((hs.trans hq.steady).trans hq'.steady).trans hs'⟩
  · exact hshow w

end Output

end CommandShell
