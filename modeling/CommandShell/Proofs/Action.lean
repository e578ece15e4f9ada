import CommandShell.Execution
import CommandShell.Proofs.FileSystem.Opening

/-! # How actions end

An action is described by what holds of its result and of the world after it, whether it ends with a
value or stops. Two relations say what an action leaves alone: a quiet one changes no more than
texts and records, a steady one may also open files. -/
namespace CommandShell

/-- What running a line reads and does not write. -/
structure World.Quiet (w w' : World) : Prop where
  fs : w.fs.SameNodes w'.fs
  processDir : w'.processDir = w.processDir
  builtins : w'.builtins = w.builtins
  session : w'.session = w.session

structure World.Steady (w w' : World) : Prop where
  fs : w.fs.Grows w'.fs
  processDir : w'.processDir = w.processDir
  builtins : w'.builtins = w.builtins
  session : w'.session = w.session

namespace World

variable {w w' w'' : World}

theorem Quiet.refl (w : World) : w.Quiet w := ⟨.refl w.fs, rfl, rfl, rfl⟩

theorem Quiet.trans (h : w.Quiet w') (k : w'.Quiet w'') : w.Quiet w'' :=
  ⟨h.fs.trans k.fs, k.processDir.trans h.processDir, k.builtins.trans h.builtins,
    k.session.trans h.session⟩

theorem Quiet.symm (h : w.Quiet w') : w'.Quiet w :=
  ⟨h.fs.symm, h.processDir.symm, h.builtins.symm, h.session.symm⟩

theorem Quiet.steady (h : w.Quiet w') : w.Steady w' :=
  ⟨h.fs.grows, h.processDir, h.builtins, h.session⟩

theorem Steady.refl (w : World) : w.Steady w := (Quiet.refl w).steady

theorem Steady.trans (h : w.Steady w') (k : w'.Steady w'') : w.Steady w'' :=
  ⟨h.fs.trans k.fs, k.processDir.trans h.processDir, k.builtins.trans h.builtins,
    k.session.trans h.session⟩

end World

namespace Action

structure Ends (a : Action α) (w : World) (post : Except Stop α → World → Prop) : Prop where
  ok : ∀ {x w'}, a w = .ok x w' → post (.ok x) w'
  error : ∀ {s w'}, a w = .error s w' → post (.error s) w'

variable {α β : Type} {a : Action α} {f : α → Action β} {w : World}
  {post mid : Except Stop α → World → Prop} {last : Except Stop β → World → Prop}

theorem bind_of_ok {x : α} {w₁ : World} (h : a w = .ok x w₁) : (a >>= f) w = f x w₁ := by
  simp [bind, EStateM.bind, h]

theorem bind_of_error {s : Stop} {w₁ : World} (h : a w = .error s w₁) :
    (a >>= f) w = .error s w₁ := by
  simp [bind, EStateM.bind, h]

theorem bind_congr {b : Action α} {g : α → Action β} (h : a w = b w)
    (next : ∀ x w₁, b w = .ok x w₁ → f x w₁ = g x w₁) : (a >>= f) w = (b >>= g) w := by
  cases hb : b w with
  | ok x w₁ => rw [bind_of_ok (h.trans hb), bind_of_ok hb, next x w₁ hb]
  | error s w₁ => rw [bind_of_error (h.trans hb), bind_of_error hb]

theorem outcome_congr {b : Action α} (h : a w = b w) : outcome a w = outcome b w := by
  rw [outcome, h, outcome]

theorem get_bind (f : World → Action β) (w : World) : (get >>= f) w = f w w := rfl

theorem outcome_of_ok {x : α} {w₁ : World} (h : a w = .ok x w₁) :
    outcome a w = .ok (.ok x) w₁ := by
  rw [outcome, h]

theorem outcome_of_error {s : Stop} {w₁ : World} (h : a w = .error s w₁) :
    outcome a w = .ok (.error s) w₁ := by
  rw [outcome, h]

theorem ok_of_bind {y : β} {w' : World} (h : (a >>= f) w = .ok y w') :
    ∃ x w₁, a w = .ok x w₁ ∧ f x w₁ = .ok y w' := by
  cases ha : a w with
  | ok x w₁ =>
    rw [bind_of_ok ha] at h
    exact ⟨x, w₁, rfl, h⟩
  | error s w₁ =>
    rw [bind_of_error ha] at h
    cases h

theorem error_of_bind {s : Stop} {w' : World} (h : (a >>= f) w = .error s w') :
    a w = .error s w' ∨ ∃ x w₁, a w = .ok x w₁ ∧ f x w₁ = .error s w' := by
  cases ha : a w with
  | ok x w₁ =>
    rw [bind_of_ok ha] at h
    exact .inr ⟨x, w₁, rfl, h⟩
  | error t w₁ =>
    rw [bind_of_error ha] at h
    cases h
    exact .inl rfl

theorem Ends.of_eq {b : Action α} {w₁ : World} (h : a w = b w₁) (hb : b.Ends w₁ post) :
    a.Ends w post :=
  ⟨fun ha => hb.ok (h ▸ ha), fun ha => hb.error (h ▸ ha)⟩

theorem Ends.imp (h : a.Ends w mid) (k : ∀ r w', mid r w' → post r w') : a.Ends w post :=
  ⟨fun ha => k _ _ (h.ok ha), fun ha => k _ _ (h.error ha)⟩

theorem Ends.pure {x : α} (h : post (.ok x) w) : Ends (Pure.pure x) w post := by
  constructor
  · intro _ _ ha
    cases ha
    exact h
  · intro _ _ ha
    cases ha

theorem Ends.throw {s : Stop} (h : post (.error s) w) : Ends (throw s) w post := by
  constructor
  · intro _ _ ha
    cases ha
  · intro _ _ ha
    cases ha
    exact h

theorem Ends.bind (h : a.Ends w mid) (ok : ∀ x w', mid (.ok x) w' → (f x).Ends w' last)
    (error : ∀ s w', mid (.error s) w' → last (.error s) w') : (a >>= f).Ends w last := by
  cases ha : a w with
  | ok x w₁ => exact .of_eq (bind_of_ok ha) (ok x w₁ (h.ok ha))
  | error s w₁ =>
    have hs : (MonadExcept.throw s : Action β).Ends w₁ last := .throw (error s w₁ (h.error ha))
    exact .of_eq (bind_of_error ha) hs

theorem Ends.bind_of_returns (h : a.Ends w mid) (returns : ∀ s w', ¬ mid (.error s) w')
    (next : ∀ x w', mid (.ok x) w' → (f x).Ends w' last) : (a >>= f).Ends w last := by
  apply h.bind next
  intro s w' hs
  exact absurd hs (returns s w')

theorem Ends.bind_of_stops (h : a.Ends w mid) (stops : ∀ x w', ¬ mid (.ok x) w')
    (error : ∀ s w', mid (.error s) w' → last (.error s) w') : (a >>= f).Ends w last := by
  refine h.bind ?_ error
  intro x w' hx
  exact absurd hx (stops x w')

theorem Ends.get_bind {f : World → Action β} (h : (f w).Ends w last) :
    Ends (get >>= f) w last :=
  .of_eq (b := f w) rfl h

theorem Ends.set_bind {w' : World} {f : PUnit → Action β} (h : (f ⟨⟩).Ends w' last) :
    Ends (set w' >>= f) w last :=
  .of_eq (b := f ⟨⟩) rfl h

theorem Ends.modify {g : World → World} {post : Except Stop PUnit → World → Prop}
    (h : post (.ok ⟨⟩) (g w)) : Ends (modify g) w post :=
  .of_eq (b := Pure.pure ⟨⟩) rfl (.pure h)

theorem Ends.outcome_bind {f : Except Stop α → Action β} (h : a.Ends w mid)
    (next : ∀ r w', mid r w' → (f r).Ends w' last) : Ends (outcome a >>= f) w last := by
  cases ha : a w with
  | ok x w₁ => exact .of_eq (bind_of_ok (outcome_of_ok ha)) (next _ _ (h.ok ha))
  | error s w₁ => exact .of_eq (bind_of_ok (outcome_of_error ha)) (next _ _ (h.error ha))

/-- An action that does not stop and is quiet. -/
def Reports (a : Action Unit) : Prop :=
  ∀ w, a.Ends w fun r w' => r = .ok () ∧ w.Quiet w'

theorem reports_modify {g : World → World} (h : ∀ w : World, w.Quiet (g w)) : Reports (modify g) :=
  fun w => .modify ⟨rfl, h w⟩

theorem reports_write (s : String) : Reports (write s) :=
  reports_modify fun w => ⟨.refl w.fs, rfl, rfl, rfl⟩

theorem reports_writeError (s : String) : Reports (writeError s) :=
  reports_modify fun w => ⟨.refl w.fs, rfl, rfl, rfl⟩

theorem reports_say (s : String) : Reports (say s) := reports_write _

theorem reports_complain (s : String) : Reports (complain s) := reports_writeError _

theorem reports_log (level : Log.Level) (origin message : String) (details : Members)
    (cause : Option Log.Cause) : Reports (log level origin message details cause) :=
  reports_modify fun w => ⟨w.journal.write_sameNodes _ w.fs, rfl, rfl, rfl⟩

theorem reports_writeAt (place : Location) (text : String) : Reports (Output.writeAt place text) :=
  reports_modify fun w => ⟨w.fs.append_sameNodes place _, rfl, rfl, rfl⟩

theorem reports_showOn (r : Line.Redirection) (text : String) : Reports (Output.showOn r text) := by
  unfold Output.showOn
  split
  · exact reports_complain text
  · exact reports_say text

theorem reports_emit (place : Option Location) {terminal : String → Action Unit}
    (h : ∀ s, Reports (terminal s)) (text : String) :
    Reports (Launch.emit place terminal text) := by
  cases place with
  | some l => exact reports_writeAt l text
  | none => exact h text

theorem Reports.bind {a : Action Unit} {f : Unit → Action β} (h : Reports a)
    (next : ∀ w', w.Quiet w' → (f ()).Ends w' last) : (a >>= f).Ends w last := by
  apply (h w).bind_of_returns (by simp)
  intro _ w' hq
  exact next w' hq.2

end Action

end CommandShell
