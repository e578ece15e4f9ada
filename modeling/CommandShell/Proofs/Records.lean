import CommandShell.Proofs.FileSystem.Content
import CommandShell.Proofs.Output

/-! # What actions do besides making records

The journal only writes: nothing that an action does depends on it. Two worlds are alike if they
differ in their journals, in records on the terminal and in the log files alone, and an action gives
a result and a world if from every world that is like the first it ends with that result, in a world
that is like the second. To make a record and to print a message are changes of the world that
always happen; they concern the journal, the error stream and the log files, and nothing else. -/
namespace CommandShell

open FileSystem (AgreesOff SameNodes)

def Log.Journal.files (j : Log.Journal) : List Location :=
  j.sinks.filterMap fun
    | .file _ place => some place
    | _ => none

def Notice.text? : Notice → Option String
  | .text s => some s
  | .record _ => none

theorem Notice.text?_records (ls : List String) : (ls.map record).filterMap text? = [] := by
  simp [text?]

def World.texts (w : World) : String :=
  String.join (w.notices.filterMap Notice.text?)

/-- The same worlds but for their journals and what these wrote; log files are at some locations
only. -/
structure World.Alike (away : List Location) (w v : World) : Prop where
  logs : ∀ l ∈ v.journal.files, l ∈ away
  fs : AgreesOff away w.fs v.fs
  nodes : w.fs.SameNodes v.fs
  processDir : v.processDir = w.processDir
  settings : v.settings = w.settings
  session : v.session = w.session
  builtins : v.builtins = w.builtins
  running : v.running = w.running
  output : v.output = w.output
  texts : v.texts = w.texts
  launches : v.launches = w.launches

namespace Log

variable {away : List Location}

theorem Sink.write_agreesOff {s : Sink} (h : ∀ t l, s = .file t l → l ∈ away) (r : Record)
    (fs : FileSystem) : AgreesOff away fs (s.write r fs) := by
  cases s with
  | file t place =>
    simp only [Sink.write]
    split
    · exact FileSystem.agreesOff_append fs _ (h t place rfl)
    · exact .refl away fs
  | buffer => exact .refl away fs
  | console => exact .refl away fs

theorem Journal.mem_files {j : Journal} {l : Location} :
    l ∈ j.files ↔ ∃ t, .file t l ∈ j.sinks := by
  simp only [files, List.mem_filterMap]
  constructor
  · intro hx
    obtain ⟨s, hs, he⟩ := hx
    cases s with
    | file t place =>
      cases he
      exact ⟨t, hs⟩
    | buffer => simp at he
    | console => simp at he
  · intro hx
    obtain ⟨t, ht⟩ := hx
    exact ⟨_, ht, rfl⟩

theorem Journal.write_agreesOff {j : Journal} (h : ∀ l ∈ j.files, l ∈ away) (r : Record)
    (fs : FileSystem) : AgreesOff away fs (j.write r fs) := by
  have hs : ∀ s ∈ j.sinks, ∀ t l, s = .file t l → l ∈ away :=
    fun s hs t l he => h l (mem_files.mpr ⟨t, he ▸ hs⟩)
  unfold write
  split
  · generalize j.sinks = sinks at hs
    induction sinks generalizing fs with
    | nil => exact .refl away fs
    | cons s sinks ih =>
      have hhead := Sink.write_agreesOff (hs s List.mem_cons_self) r fs
      exact hhead.trans (ih (s.write r fs) fun s' h' => hs s' (List.mem_cons_of_mem s h'))
  · exact .refl away fs

theorem Journal.files_keep (j : Journal) (r : Record) : (j.keep r).files = j.files := by
  unfold keep files
  split
  · rw [List.filterMap_map]
    congr 1
    funext s
    cases s <;> rfl
  · rfl

end Log

namespace World

variable {away : List Location} {w v : World}

theorem texts_append (w : World) (s : String) :
    World.texts { w with notices := w.notices ++ [.text s] } = w.texts ++ s := by
  simp [texts, Notice.text?, String.join_append]

theorem Alike.refl (h : ∀ l ∈ w.journal.files, l ∈ away) : w.Alike away w :=
  ⟨h, .refl away w.fs, .refl w.fs, rfl, rfl, rfl, rfl, rfl, rfl, rfl, rfl⟩

theorem Alike.self (w : World) : w.Alike w.journal.files w :=
  .refl fun _ hl => hl

theorem Alike.steady (h : w.Alike away v) : w.Steady v :=
  ⟨h.nodes.grows, h.processDir, h.builtins, h.session⟩

end World

namespace Action

/-- From every world like `w` an action ends with the result `r`, in a world like `w'`. -/
def Gives (away : List Location) (a : Action α) (w : World) (r : Except Stop α) (w' : World) :
    Prop :=
  ∀ v, w.Alike away v → a.Ends v fun r' v' => r' = r ∧ w'.Alike away v'

variable {α β : Type} {away : List Location} {a : Action α} {f : α → Action β}
  {w w₁ w' : World} {x : α} {r : Except Stop α} {last : Except Stop β}

theorem Gives.pure : Gives away (Pure.pure x) w (.ok x) w :=
  fun _ hv => .pure ⟨rfl, hv⟩

theorem Gives.throw {s : Stop} : Gives away (MonadExcept.throw s : Action α) w (.error s) w :=
  fun _ hv => .throw ⟨rfl, hv⟩

theorem Gives.to {w₂ : World} (ha : a.Gives away w r w₁)
    (h : ∀ v, w₁.Alike away v → w₂.Alike away v) : a.Gives away w r w₂ := by
  intro v hv
  apply (ha v hv).imp
  intro r' v' hend
  exact ⟨hend.1, h v' hend.2⟩

theorem Gives.bind (ha : a.Gives away w (.ok x) w₁) (hf : (f x).Gives away w₁ last w') :
    (a >>= f).Gives away w last w' := by
  intro v hv
  apply (ha v hv).bind
  · intro y v₁ hend
    obtain ⟨hy, hv₁⟩ := hend
    cases hy
    exact hf v₁ hv₁
  · intro s v₁ hend
    cases hend.1

theorem Gives.bind_stop {s : Stop} (ha : a.Gives away w (.error s) w') :
    (a >>= f).Gives away w (.error s) w' := by
  intro v hv
  apply (ha v hv).bind_of_stops (by simp)
  intro t v₁ hend
  obtain ⟨ht, hv₁⟩ := hend
  cases ht
  exact ⟨rfl, hv₁⟩

theorem Gives.outcome_bind {f : Except Stop α → Action β} (ha : a.Gives away w r w₁)
    (hf : (f r).Gives away w₁ last w') : (outcome a >>= f).Gives away w last w' := by
  intro v hv
  apply (ha v hv).outcome_bind
  intro r' v₁ hend
  obtain ⟨rfl, hv₁⟩ := hend
  exact hf v₁ hv₁

theorem Gives.get_bind {f : World → Action β}
    (h : ∀ v, w.Alike away v → (f v).Gives away w last w') :
    (get >>= f).Gives away w last w' :=
  fun v hv => Ends.get_bind (h v hv v hv)

theorem Gives.set_bind {u : World} {f : PUnit → Action β} (hu : w₁.Alike away u)
    (hf : (f ⟨⟩).Gives away w₁ last w') : (set u >>= f).Gives away w last w' :=
  fun _ _ => Ends.set_bind (hf u hu)

theorem Gives.modify {g : World → World} (h : ∀ v, w.Alike away v → w'.Alike away (g v)) :
    Gives away (modify g) w (.ok ⟨⟩) w' :=
  fun v hv => .modify ⟨rfl, h v hv⟩

theorem gives_log (level : Log.Level) (origin message : String) (details : Members)
    (cause : Option Log.Cause) :
    (log level origin message details cause).Gives away w (.ok ()) w := by
  apply Gives.modify
  intro v hv
  refine { hv with logs := ?_, fs := ?_, nodes := ?_, texts := ?_ }
  · rw [Log.Journal.files_keep]
    exact hv.logs
  · exact hv.fs.trans (Log.Journal.write_agreesOff hv.logs _ _)
  · exact hv.nodes.trans (Log.Journal.write_sameNodes _ _ _)
  · rw [← hv.texts, World.texts, World.texts, List.filterMap_append, Notice.text?_records,
      List.append_nil]

theorem gives_write (s : String) :
    (write s).Gives away w (.ok ()) { w with output := w.output ++ s } := by
  apply Gives.modify
  intro v hv
  exact { hv with output := by rw [hv.output] }

theorem gives_writeError (s : String) :
    (writeError s).Gives away w (.ok ()) { w with notices := w.notices ++ [.text s] } := by
  apply Gives.modify
  intro v hv
  refine { hv with texts := ?_ }
  rw [World.texts_append, World.texts_append, hv.texts]

theorem gives_say (s : String) :
    (say s).Gives away w (.ok ()) { w with output := w.output ++ (s ++ "\n") } :=
  gives_write _

theorem gives_complain (s : String) :
    (complain s).Gives away w (.ok ()) { w with notices := w.notices ++ [.text (s ++ "\n")] } :=
  gives_writeError _

end Action

def Log.Journal.HasConsole (j : Log.Journal) : Prop :=
  ∃ threshold layout, .console threshold layout ∈ j.sinks

def World.recording (w : World) (r : Log.Record) : World :=
  { w with
    journal := w.journal.keep r
    notices := w.notices ++ (w.journal.consoleLines r).map .record
    fs := w.journal.write r w.fs }

def World.complaining (w : World) (s : String) : World :=
  { w with notices := w.notices ++ [.text (s ++ "\n")] }

namespace Log.Journal

variable {j : Journal} {r : Record}

theorem consoleLines_eq_nil (h : ¬ j.HasConsole) (r : Record) : j.consoleLines r = [] := by
  unfold consoleLines
  split
  · rw [List.filterMap_eq_nil_iff]
    intro s hs
    cases s with
    | console t layout => exact absurd ⟨t, layout, hs⟩ h
    | buffer => rfl
    | file => rfl
  · rfl

theorem write_of_no_files (h : j.files = []) (r : Record) (fs : FileSystem) :
    j.write r fs = fs := by
  apply write_of_sinks
  intro _ s hs
  cases s with
  | file t place =>
    have hm : place ∈ j.files := mem_files.mpr ⟨t, hs⟩
    rw [h] at hm
    exact absurd hm List.not_mem_nil
  | buffer => rfl
  | console => rfl

theorem not_hasConsole_keep (h : ¬ j.HasConsole) (r : Record) : ¬ (j.keep r).HasConsole := by
  rintro ⟨t, layout, hm⟩
  unfold keep at hm
  split at hm
  · obtain ⟨s, hs, he⟩ := List.mem_map.mp hm
    cases s with
    | console t' layout' => exact h ⟨t', layout', hs⟩
    | buffer => cases he
    | file => cases he
  · exact h ⟨t, layout, hm⟩

end Log.Journal

namespace World

variable (w : World) (r : Log.Record) (s : String)

theorem files_recording : (w.recording r).journal.files = w.journal.files :=
  w.journal.files_keep r

theorem recording_agreesOff {away : List Location} (h : ∀ l ∈ w.journal.files, l ∈ away) :
    AgreesOff away w.fs (w.recording r).fs :=
  Log.Journal.write_agreesOff h r w.fs

theorem recording_sameNodes : w.fs.SameNodes (w.recording r).fs :=
  w.journal.write_sameNodes r w.fs

theorem texts_recording : (w.recording r).texts = w.texts := by
  simp only [texts, recording, List.filterMap_append, Notice.text?_records, List.append_nil]

theorem texts_complaining : (w.complaining s).texts = w.texts ++ (s ++ "\n") :=
  texts_append w _

theorem errors_recording {w : World} (h : ¬ w.journal.HasConsole) (r : Log.Record) :
    (w.recording r).errors = w.errors := by
  simp [recording, errors, Log.Journal.consoleLines_eq_nil h]

theorem errors_complaining : (w.complaining s).errors = w.errors ++ (s ++ "\n") := by
  simp [complaining, errors, Notice.content, String.join_append]

end World

namespace Action

theorem log_eq (level : Log.Level) (origin message : String) (details : Members)
    (cause : Option Log.Cause) (w : World) :
    log level origin message details cause w =
      .ok () (w.recording ⟨level, message, some origin, details, w.time, cause⟩) := rfl

end Action

end CommandShell
