import CommandShell.Proofs.Records

/-! # Where the text of a command arrives

A command has text for three places: the target of its redirection and the two streams of the
terminal. What arrives at the target stands behind what the file holds once it has been opened, no
matter that it is opened once before the command runs and again to be written. -/
namespace CommandShell

open FileSystem (AgreesOff SameNodes WritableAt)
open Line (Redirection)

structure Portions where
  file : String := ""
  output : String := ""
  error : String := ""

/-- The text of a result is a line. The target captures that of a success if the output is
redirected, and that of a failure if the error stream is; a success without text has none. -/
def Result.portions (result : Result) (r : Redirection) : Portions :=
  let line := result.output ++ "\n"
  if result.ok = true ∧ result.output = "" then {}
  else if r.isActive = true ∧ r.channel = (if result.ok then .output else .error) then
    { file := line }
  else if r.channel = .error then { error := line }
  else { output := line }

def Launch.portions (request : Launch) (program : Program) (r : Redirection) : Portions :=
  let output := request.outputOf program
  if r.isActive = false then { output, error := program.diagnostics }
  else if r.channel = .error then { file := program.diagnostics, output }
  else { file := output, error := program.diagnostics }

/-- The location that the target of a redirection leads to, if it can be opened. Without an active
redirection there is none. -/
inductive Line.Redirection.Aims (r : Redirection) (fs : FileSystem) (processDir : String) :
    Option Location → Prop where
  | nowhere : r.isActive = false → Aims r fs processDir none
  | file {path l} : r.isActive = true → r.target = some path → fs.WritableAt processDir path l →
      Aims r fs processDir (some l)

def FileSystem.receivingAt (fs : FileSystem) (append : Bool) (l : Option Location)
    (text : String) : FileSystem :=
  match l with
  | some l => fs.receiving append l text.toUTF8
  | none => fs

/-- A target that has been opened: to open it again makes no difference. -/
structure Line.Redirection.IsOpen (r : Redirection) (fs : FileSystem) (processDir : String)
    (l : Option Location) : Prop where
  aims : r.Aims fs processDir l
  opened : ∀ k, (fs.receivingAt r.append l "").node? k = fs.node? k

def World.delivered (w : World) (r : Redirection) (l : Option Location) (p : Portions) : World :=
  { w with
    fs := w.fs.receivingAt r.append l p.file
    output := w.output ++ p.output
    notices := w.notices ++ [.text p.error] }

def World.prepared (w : World) (r : Redirection) (l : Option Location) : World :=
  { w with fs := w.fs.receivingAt r.append l "" }

namespace Line.Redirection

variable {r : Redirection} {a b fs : FileSystem} {processDir : String} {l : Option Location}

theorem Ready.exists_aim (h : r.Ready fs processDir) : ∃ l, r.Aims fs processDir l := by
  by_cases ha : r.isActive = true
  · obtain ⟨path, ht⟩ := target_of_isActive ha
    obtain ⟨l, hl⟩ := (h path ha ht).exists_at
    exact ⟨some l, .file ha ht hl⟩
  · exact ⟨none, .nowhere (by simpa using ha)⟩

theorem Aims.exists_place (h : r.Aims fs processDir l) (ha : r.isActive = true) :
    ∃ place, l = some place := by
  cases h with
  | nowhere hn => simp [hn] at ha
  | @file _ place _ _ _ => exact ⟨place, rfl⟩

theorem Aims.free_or_file {l : Location} (h : r.Aims fs processDir (some l)) :
    fs.node? l = none ∨ ∃ p old program, fs.node? l = some (.file p old program) := by
  cases h with
  | file _ _ hw => exact hw.free_or_file

theorem Aims.node?_receivingAt_twice (h : r.Aims fs processDir l) (append : Bool) (text : String)
    (k : Location) : ((fs.receivingAt append l "").receivingAt append l text).node? k =
      (fs.receivingAt append l text).node? k := by
  cases h with
  | nowhere _ => rfl
  | file _ _ hw => exact FileSystem.node?_receiving_twice _ hw.free_or_file k

theorem Aims.isOpen (h : r.Aims fs processDir l) :
    r.IsOpen (fs.receivingAt r.append l "") processDir l := by
  refine ⟨?_, h.node?_receivingAt_twice r.append ""⟩
  cases h with
  | nowhere hn => exact .nowhere hn
  | file ha ht hw => exact .file ha ht (hw.holding _)

end Line.Redirection

namespace World

variable {away : List Location} {w v : World} {r : Redirection} {l : Option Location}

theorem receivingAt_grows (fs : FileSystem) (append : Bool) (l : Option Location) (text : String) :
    fs.Grows (fs.receivingAt append l text) := by
  cases l with
  | none => exact .refl fs
  | some l => exact fs.holding_grows l _

theorem prepared_steady (w : World) (r : Redirection) (l : Option Location) :
    w.Steady (w.prepared r l) :=
  ⟨receivingAt_grows w.fs r.append l "", rfl, rfl, rfl⟩

theorem Alike.delivered {p : Portions} {fs : FileSystem} {output : String} {notices : List Notice}
    (h : World.Alike away { w with fs, output, notices } v)
    (hfs : ∀ k, fs.node? k = (w.fs.receivingAt r.append l p.file).node? k)
    (houtput : output = w.output ++ p.output)
    (htexts : World.texts { w with notices } = w.texts ++ p.error) :
    (w.delivered r l p).Alike away v := by
  refine { h with
    fs := AgreesOff.trans (.of_eq hfs) h.fs
    nodes := SameNodes.trans (.of_eq hfs) h.nodes
    output := h.output.trans houtput
    texts := ?_ }
  exact (h.texts.trans htexts).trans (texts_append w p.error).symm

end World

namespace Output

variable {away : List Location} {w : World} {r : Redirection} {l : Option Location}
  {path : String} {place : Location}

theorem gives_openTarget (append : Bool) (h : w.fs.WritableAt w.processDir path place) :
    (openTarget path append).Gives away w (.ok place)
      { w with fs := w.fs.receiving append place .empty } := by
  intro v hv
  have hw := h.sameNodes hv.nodes
  rw [← hv.processDir] at hw
  obtain ⟨after, hopen, hafter⟩ := hw.openForWriting append
  unfold openTarget
  apply Action.Ends.get_bind
  rw [hopen]
  apply Action.Ends.set_bind
  refine Action.Ends.pure ⟨rfl, { hv with fs := ?_, nodes := ?_ }⟩
  · exact (hv.fs.receiving append place .empty).trans (.of_eq hafter)
  · exact (FileSystem.receiving_sameNodes hv.nodes append place .empty).trans (.of_eq hafter)

theorem gives_openTarget_refused {append : Bool} {e : SystemError} {p : String}
    (h : w.fs.openForWriting w.processDir path append = .error (.system e p)) :
    (openTarget path append).Gives away w
      (.error (.failure { cause := .unwritableTarget path e.text })) w := by
  intro v hv
  have ho := hv.nodes.openForWriting_error h
  rw [← hv.processDir] at ho
  unfold openTarget
  apply Action.Ends.get_bind
  rw [ho]
  exact Action.Ends.throw ⟨rfl, hv⟩

theorem gives_prepare (h : r.Aims w.fs w.processDir l) :
    (prepare r).Gives away w (.ok ()) (w.prepared r l) := by
  cases h with
  | nowhere ha =>
    rw [prepare_inactive ha]
    exact .pure
  | file ha ht hw =>
    rw [prepare_active ha ht]
    exact (gives_openTarget r.append hw).bind .pure

theorem gives_openTarget_of_nul {append : Bool} (h : FileSystem.hasNul path = true) :
    (openTarget path append).Gives away w (.error (.fault .nulCharacter)) w := by
  intro v hv
  unfold openTarget
  apply Action.Ends.get_bind
  rw [FileSystem.openForWriting_of_nul h]
  exact Action.Ends.throw ⟨rfl, hv⟩

variable (away) in
/-- A redirection that cannot be opened stops the command before anything is done. -/
theorem gives_prepare_stopped (h : ¬ r.Ready w.fs w.processDir) : ∃ s,
    ((∃ f, s = .failure f) ∨ s = .fault .nulCharacter) ∧
      (prepare r).Gives away w (.error s) w := by
  simp only [Redirection.Ready, Classical.not_forall] at h
  obtain ⟨path, ha, ht, hw⟩ := h
  rw [prepare_active ha ht]
  by_cases hn : FileSystem.hasNul path = true
  · exact ⟨_, .inr rfl, (gives_openTarget_of_nul hn).bind_stop⟩
  · obtain ⟨e, he⟩ := FileSystem.openForWriting_refused r.append (by simpa using hn) hw
    exact ⟨_, .inl ⟨_, rfl⟩, (gives_openTarget_refused he).bind_stop⟩

theorem gives_writeAt (place : Location) (text : String) :
    (writeAt place text).Gives away w (.ok ())
      { w with fs := w.fs.append place text.toUTF8 } := by
  apply Action.Gives.modify
  intro v hv
  exact { hv with
    fs := hv.fs.append place _
    nodes := ((w.fs.append_sameNodes place _).symm.trans hv.nodes).trans
      (v.fs.append_sameNodes place _) }

theorem gives_writeAt_opened {append : Bool} {w₁ : World} (text : String)
    (h : w.fs.WritableAt w.processDir path place)
    (hw : w₁ = { w with fs := w.fs.receiving append place .empty }) :
    (writeAt place text).Gives away w₁ (.ok ())
      { w with fs := w.fs.receiving append place text.toUTF8 } := by
  subst hw
  intro v hv
  apply (gives_writeAt place text v hv).imp
  intro res v' hend
  obtain ⟨hres, hv'⟩ := hend
  have hnode (k : Location) : ((w.fs.receiving append place .empty).append place
      text.toUTF8).node? k = (w.fs.receiving append place text.toUTF8).node? k := by
    simp only [FileSystem.receiving, ByteArray.append_empty]
    exact FileSystem.node?_append_holding _ h.free_or_file k
  exact ⟨hres, { hv' with
    fs := AgreesOff.trans (.of_eq hnode) hv'.fs
    nodes := SameNodes.trans (.of_eq hnode) hv'.nodes }⟩

theorem gives_writeTarget (append : Bool) (text : String)
    (h : w.fs.WritableAt w.processDir path place) :
    (writeTarget path append text).Gives away w (.ok ())
      { w with fs := w.fs.receiving append place (text ++ "\n").toUTF8 } :=
  (gives_openTarget append h).bind (gives_writeAt_opened _ h rfl)

theorem gives_reopen (h : w.fs.WritableAt w.processDir path place)
    (ho : ∀ k, (w.fs.receivingAt r.append (some place) "").node? k = w.fs.node? k) :
    (openTarget path r.append).Gives away w (.ok place) w := by
  apply (gives_openTarget r.append h).to
  intro v hv
  exact { hv with
    fs := AgreesOff.trans (.of_eq ho) hv.fs
    nodes := SameNodes.trans (.of_eq ho) hv.nodes }

theorem gives_showOn (h : r.IsOpen w.fs w.processDir l) (text : String) :
    (showOn r text).Gives away w (.ok ()) (w.delivered r l
      (if r.channel = .error then { error := text ++ "\n" } else { output := text ++ "\n" })) := by
  have hfs (k : Location) := (h.opened k).symm
  unfold showOn Redirection.namesError
  by_cases hc : r.channel = .error
  · simp only [hc, beq_self_eq_true, if_true]
    apply (Action.gives_complain text).to
    intro v hv
    exact hv.delivered hfs String.append_empty.symm (World.texts_append w _)
  · simp only [beq_iff_eq, hc, if_false]
    apply (Action.gives_say text).to
    intro v hv
    exact hv.delivered hfs rfl String.append_empty.symm

theorem gives_complain_delivered (p : Portions) (s : String) :
    (Action.complain s).Gives away (w.delivered r l p) (.ok ())
      (w.delivered r l { p with error := p.error ++ (s ++ "\n") }) := by
  apply (Action.gives_complain s).to
  intro v hv
  refine World.Alike.delivered (w := w) hv (fun _ => rfl) rfl ?_
  have htexts : (w.delivered r l p).texts = w.texts ++ p.error := World.texts_append w p.error
  refine (World.texts_append (w.delivered r l p) (s ++ "\n")).trans ?_
  rw [htexts, String.append_assoc]

theorem captures_iff (result : Result) (r : Redirection) : captures r result = true ↔
    r.isActive = true ∧ r.channel = (if result.ok then .output else .error) := by
  unfold captures Redirection.namesError Redirection.isActive
  cases result.ok <;> cases r.channel <;> simp

/-- The text of a result arrives where it is for. -/
theorem gives_route (result : Result) (h : r.IsOpen w.fs w.processDir l) :
    (route result r).Gives away w (.ok ()) (w.delivered r l (result.portions r)) := by
  have hempty : (result.ok && result.output == "") = true ↔
      result.ok = true ∧ result.output = "" := by simp
  unfold route Result.portions
  by_cases he : result.ok = true ∧ result.output = ""
  · rw [if_pos (hempty.mpr he), if_pos he]
    apply Action.Gives.pure.to
    intro v hv
    exact hv.delivered (fun k => (h.opened k).symm) String.append_empty.symm
      String.append_empty.symm
  rw [if_neg (mt hempty.mp he), if_neg he]
  by_cases hc : captures r result = true
  · rw [if_pos ((captures_iff result r).mp hc)]
    obtain ⟨ha, -⟩ := (captures_iff result r).mp hc
    obtain ⟨haims, -⟩ := h
    cases haims with
    | nowhere hn => simp [hn] at ha
    | @file path place _ ht hw =>
      rw [hc, ht]
      apply (gives_writeTarget r.append result.output hw).outcome_bind
      apply Action.Gives.pure.to
      intro v hv
      exact hv.delivered (fun _ => rfl) String.append_empty.symm String.append_empty.symm
  · rw [if_neg (mt (captures_iff result r).mpr hc)]
    have hc : captures r result = false := by simpa using hc
    rw [hc]
    exact gives_showOn h result.output

end Output

end CommandShell
