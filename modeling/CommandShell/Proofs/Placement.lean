import CommandShell.Proofs.Delivery
import CommandShell.Proofs.Records

/-! # One place for each text

The text of a result goes to exactly one place: to the target that captures it, to one of the
streams of the terminal, or nowhere if there is none. What cannot be written to its target is not
lost and is not written twice: the refusal is reported, and then the text goes where it would have gone without
the target. -/
namespace CommandShell

open FileSystem (AgreesOff WritableAt hasNul)
open Line (Redirection)

def Result.Speaks (result : Result) : Prop :=
  ¬ (result.ok = true ∧ result.output = "")

def Result.CapturedBy (result : Result) (r : Redirection) : Prop :=
  r.isActive = true ∧ r.channel = if result.ok then .output else .error

namespace Output

inductive Place where
  | nowhere
  | file (l : Location)
  | output
  | error
  deriving DecidableEq

def Place.ofTerminal (r : Redirection) : Place :=
  if r.channel = .error then .error else .output

inductive Belongs (result : Result) (r : Redirection) (w : World) : Place → Prop where
  | nowhere : ¬ result.Speaks → Belongs result r w .nowhere
  | file {path l} : result.Speaks → result.CapturedBy r → r.target = some path →
      w.fs.WritableAt w.processDir path l → Belongs result r w (.file l)
  | terminal : result.Speaks →
      (result.CapturedBy r → ∀ path, r.target = some path → ¬ w.fs.Writable w.processDir path) →
      Belongs result r w (.ofTerminal r)

structure Refused (result : Result) (r : Redirection) (w : World) (path : String)
    (e : SystemError) : Prop where
  speaks : result.Speaks
  captured : result.CapturedBy r
  target : r.target = some path
  refusal : w.fs.openForWriting w.processDir path r.append = .error (.system e path)

end Output

namespace World

/-- A text has been put in a place and nothing else has changed. In a file it stands at the end,
behind what is there unless the file is emptied first; the file is made if there is none. -/
structure Puts (w : World) (append : Bool) (text : String) (place : Output.Place) (w' : World) :
    Prop where
  output : w'.output = w.output ++ if place = .output then text else ""
  notices : w'.notices = w.notices ++ if place = .error then [.text text] else []
  file : ∀ l, place = .file l → w'.fs.node? l =
    some (w.fs.refilledAt l ((if append then w.fs.contentAt l else .empty) ++ text.toUTF8))
  others : ∀ l, place ≠ .file l → w'.fs.node? l = w.fs.node? l
  rest : w' = { w with output := w'.output, notices := w'.notices, fs := w'.fs }

/-- A line has been written on the error stream, and beside it there may be a record. Without a
console the error stream has the line alone, and only log files take records. -/
structure Reports (w : World) (message : String) (w' : World) : Prop where
  texts : w'.texts = w.texts ++ (message ++ "\n")
  errors : ¬ w.journal.HasConsole → w'.errors = w.errors ++ (message ++ "\n")
  fs : AgreesOff w.journal.files w.fs w'.fs
  rest : w' = { w with journal := w'.journal, notices := w'.notices, fs := w'.fs }

variable {w : World}

theorem Puts.nowhere (w : World) (append : Bool) (text : String) :
    w.Puts append text .nowhere w where
  output := String.append_empty.symm
  notices := (List.append_nil _).symm
  file _ h := by cases h
  others _ _ := rfl
  rest := rfl

theorem Puts.onOutput (w : World) (append : Bool) (text : String) :
    w.Puts append text .output { w with output := w.output ++ text } where
  output := rfl
  notices := (List.append_nil _).symm
  file _ h := by cases h
  others _ _ := rfl
  rest := rfl

theorem Puts.onError (w : World) (append : Bool) (text : String) :
    w.Puts append text .error { w with notices := w.notices ++ [.text text] } where
  output := String.append_empty.symm
  notices := rfl
  file _ h := by cases h
  others _ _ := rfl
  rest := rfl

theorem Puts.inFile {append : Bool} {text : String} {l : Location} {fs : FileSystem}
    (h : ∀ k, fs.node? k = (w.fs.receiving append l text.toUTF8).node? k) :
    w.Puts append text (.file l) { w with fs } where
  output := String.append_empty.symm
  notices := (List.append_nil _).symm
  file k hk := by
    cases hk
    rw [h, FileSystem.receiving, FileSystem.node?_holding, if_pos rfl, FileSystem.opened]
  others k hk := by
    have hne : k ≠ l := fun he => hk (congrArg Output.Place.file he.symm)
    rw [h, FileSystem.receiving, FileSystem.node?_holding_of_ne _ hne]
  rest := rfl

theorem reports_recording (w : World) (r : Log.Record) (message : String) :
    w.Reports message ((w.recording r).complaining message) where
  texts := by rw [texts_complaining, texts_recording]
  errors h := by rw [errors_complaining, errors_recording h]
  fs := w.recording_agreesOff r fun _ hl => hl
  rest := rfl

theorem Reports.output {message : String} {w' : World} (h : w.Reports message w') :
    w'.output = w.output := by
  rw [h.rest]

theorem Puts.errors {append : Bool} {text : String} {place : Output.Place} {w' : World}
    (h : w.Puts append text place w') :
    w'.errors = w.errors ++ if place = .error then text else "" := by
  rw [World.errors, h.notices, List.map_append, String.join_append, World.errors]
  split <;> rfl

end World

namespace Output

variable {w : World} {result : Result} {r : Redirection} {path : String} {l : Location}

theorem Belongs.unique {place other : Place} (h : Belongs result r w place)
    (k : Belongs result r w other) : other = place := by
  cases h with
  | nowhere hn =>
    cases k with
    | nowhere => rfl
    | file hs => exact absurd hs hn
    | terminal hs => exact absurd hs hn
  | file hs hc ht hw =>
    cases k with
    | nowhere hn => exact absurd hs hn
    | file _ _ ht' hw' =>
      rw [ht] at ht'
      cases ht'
      exact congrArg Place.file (hw'.unique hw)
    | terminal _ hno => exact absurd hw.writable (hno hc _ ht)
  | terminal hs hno =>
    cases k with
    | nowhere hn => exact absurd hs hn
    | file _ hc ht hw => exact absurd hw.writable (hno hc _ ht)
    | terminal => rfl

theorem writeTarget_at (append : Bool) (text : String)
    (h : w.fs.WritableAt w.processDir path l) :
    ∃ w', writeTarget path append text w = .ok () w' ∧
      w.Puts append (text ++ "\n") (.file l) w' := by
  obtain ⟨after, hopen, hafter⟩ := h.openForWriting append
  have hrun : openTarget path append w = .ok l { w with fs := after } := by
    unfold openTarget
    rw [Action.get_bind, hopen]
    rfl
  refine ⟨_, Action.bind_of_ok hrun, World.Puts.inFile fun k => ?_⟩
  have hreceived : AgreesOff [] (w.fs.receiving append l .empty) after := .of_eq hafter
  rw [hreceived.append l _ k List.not_mem_nil, FileSystem.receiving, ByteArray.append_empty,
    FileSystem.node?_append_holding _ h.free_or_file, FileSystem.receiving]

theorem writeTarget_refused {append : Bool} {e : SystemError} (text : String)
    (h : w.fs.openForWriting w.processDir path append = .error (.system e path)) :
    writeTarget path append text w =
      .error (.failure { cause := .unwritableTarget path e.text }) w := by
  apply Action.bind_of_error
  unfold openTarget
  rw [Action.get_bind, h]
  rfl

theorem showOn_puts (r : Redirection) (text : String) (w : World) :
    ∃ w', showOn r text w = .ok () w' ∧
      w.Puts r.append (text ++ "\n") (.ofTerminal r) w' := by
  unfold showOn Redirection.namesError Place.ofTerminal
  by_cases hc : r.channel = .error
  · rw [if_pos (by simpa using hc), if_pos hc]
    exact ⟨_, rfl, .onError w _ _⟩
  · rw [if_neg (by simpa using hc), if_neg hc]
    exact ⟨_, rfl, .onOutput w _ _⟩

theorem route_silent (h : ¬ result.Speaks) : route result r w = .ok () w := by
  have hsilent : (result.ok && result.output == "") = true := by
    simpa [Result.Speaks] using h
  unfold route
  rw [if_pos hsilent]
  rfl

theorem route_uncaptured (hs : result.Speaks) (hc : ¬ result.CapturedBy r) :
    route result r w = showOn r result.output w := by
  have hspeaks : ¬ (result.ok && result.output == "") = true := by
    simpa [Result.Speaks] using hs
  have hcaptures : captures r result = false := by
    rw [← Bool.not_eq_true, captures_iff]
    exact hc
  unfold route
  rw [if_neg hspeaks, hcaptures]

theorem route_captured (hs : result.Speaks) (hc : result.CapturedBy r)
    (ht : r.target = some path) : route result r =
      (do match ← (writeTarget path r.append result.output).outcome with
        | .ok () => return ()
        | .error (.failure f) =>
          Action.log .error "output" f.message f.details
          Action.complain f.message
          showOn r result.output
        | .error s => throw s) := by
  have hspeaks : ¬ (result.ok && result.output == "") = true := by
    simpa [Result.Speaks] using hs
  have hcaptures : captures r result = true := (captures_iff result r).mpr hc
  unfold route
  rw [if_neg hspeaks]
  split
  · next p _ hp =>
    cases ht.symm.trans hp
    rfl
  · next hnone => exact (hnone path hcaptures ht).elim

theorem route_written (hs : result.Speaks) (hc : result.CapturedBy r)
    (ht : r.target = some path) (hl : w.fs.WritableAt w.processDir path l) :
    ∃ w', route result r w = .ok () w' ∧
      w.Puts r.append (result.output ++ "\n") (.file l) w' := by
  obtain ⟨w', hwrite, hputs⟩ := writeTarget_at r.append result.output hl
  refine ⟨w', ?_, hputs⟩
  rw [route_captured hs hc ht, Action.bind_of_ok (Action.outcome_of_ok hwrite)]
  rfl

/-- A refusal is reported, and the text goes on from there as if it were not captured. -/
theorem Refused.route {e : SystemError} (h : Refused result r w path e) :
    ∃ told, w.Reports ("Error writing to file " ++ path ++ ": " ++ e.text) told ∧
      route result r w = showOn r result.output told := by
  have hwrite := writeTarget_refused result.output h.refusal
  let f : Failure := { cause := .unwritableTarget path e.text }
  let record : Log.Record := ⟨.error, f.message, some "output", f.details, w.time, none⟩
  refine ⟨_, w.reports_recording record f.message, ?_⟩
  rw [route_captured h.speaks h.captured h.target,
    Action.bind_of_ok (Action.outcome_of_error hwrite)]
  rfl

theorem Refused.not_writable {e : SystemError} (h : Refused result r w path e) :
    ¬ w.fs.Writable w.processDir path := by
  intro hw
  obtain ⟨place, after, hopen, -⟩ := hw.openForWriting r.append
  rw [h.refusal] at hopen
  cases hopen

/-- A captured text is written or its target is refused. -/
theorem written_or_refused (hn : ¬ r.NamesNul) (hs : result.Speaks) (hc : result.CapturedBy r) :
    ∃ path, r.target = some path ∧
      ((∃ l, w.fs.WritableAt w.processDir path l) ∨ ∃ e, Refused result r w path e) := by
  obtain ⟨path, ht⟩ := Redirection.target_of_isActive hc.1
  refine ⟨path, ht, ?_⟩
  by_cases hw : w.fs.Writable w.processDir path
  · exact .inl hw.exists_at
  · obtain ⟨e, he⟩ := FileSystem.openForWriting_refused r.append
      (Redirection.no_nul_of_target hn hc.1 ht) hw
    exact .inr ⟨e, hs, hc, ht, he⟩

/-- The text of a result is put in the one place that it is for, and nothing else changes, but that
the refusal of a target is reported before. -/
theorem result_is_put_in_one_place (result : Result) (hn : ¬ r.NamesNul) (w : World) :
    ∃ place told w', route result r w = .ok () w' ∧
      told.Puts r.append (result.output ++ "\n") place w' ∧
      (∀ other, Belongs result r w other ↔ other = place) ∧
      ((told = w ∧ ∀ path e, ¬ Refused result r w path e) ∨
        ∃ path e, Refused result r w path e ∧
          w.Reports ("Error writing to file " ++ path ++ ": " ++ e.text) told) := by
  have hplace {place : Place} (h : Belongs result r w place) (other : Place) :
      Belongs result r w other ↔ other = place :=
    ⟨h.unique, fun he => he ▸ h⟩
  by_cases hs : result.Speaks
  · by_cases hc : result.CapturedBy r
    · obtain ⟨path, ht, ⟨l, hl⟩ | ⟨e, he⟩⟩ := written_or_refused (w := w) hn hs hc
      · obtain ⟨w', hroute, hputs⟩ := route_written hs hc ht hl
        refine ⟨_, w, w', hroute, hputs, hplace (.file hs hc ht hl), .inl ⟨rfl, ?_⟩⟩
        intro other e he
        have hpath := he.target
        rw [ht] at hpath
        cases hpath
        exact he.not_writable hl.writable
      · obtain ⟨told, hreports, hroute⟩ := he.route
        obtain ⟨w', hshow, hputs⟩ := showOn_puts r result.output told
        refine ⟨_, told, w', hroute.trans hshow, hputs, hplace (.terminal hs ?_),
          .inr ⟨path, e, he, hreports⟩⟩
        intro _ other hother
        rw [ht] at hother
        cases hother
        exact he.not_writable
    · obtain ⟨w', hshow, hputs⟩ := showOn_puts r result.output w
      refine ⟨_, w, w', (route_uncaptured hs hc).trans hshow, hputs,
        hplace (.terminal hs fun h => absurd h hc), .inl ⟨rfl, ?_⟩⟩
      intro path e he
      exact hc he.captured
  · refine ⟨_, w, w, route_silent hs, .nowhere w _ _, hplace (.nowhere hs), .inl ⟨rfl, ?_⟩⟩
    intro path e he
    exact hs he.speaks

/-- A success for a target that is a directory is on the output, behind one line on the error
stream. -/
theorem success_for_directory :
    let w : World := { fs := { nodes := [(["d"], .directory {})] } }
    let r : Redirection := { target := some "/d", channel := .output }
    ¬ r.NamesNul ∧ ∃ w', route ⟨true, "text"⟩ r w = .ok () w' ∧ w'.output = "text\n" ∧
      w'.errors = "Error writing to file /d: Is a directory\n" ∧
      ∀ l, w'.fs.node? l = w.fs.node? l := by
  intro w r
  have hn : ¬ r.NamesNul := by
    rintro ⟨path, -, ht, hnul⟩
    cases ht
    exact absurd hnul (by decide)
  have hs : Result.Speaks ⟨true, "text"⟩ := by
    rintro ⟨-, hempty⟩
    exact absurd hempty (by decide)
  have hrefused : Refused ⟨true, "text"⟩ r w "/d" .isDirectory :=
    ⟨hs, ⟨rfl, rfl⟩, rfl, by rfl⟩
  refine ⟨hn, ?_⟩
  obtain ⟨place, told, w', hroute, hputs, hbelongs, ⟨-, hnone⟩ | ⟨path, e, he, hreports⟩⟩ :=
    result_is_put_in_one_place ⟨true, "text"⟩ hn w
  · exact absurd hrefused (hnone _ _)
  have hpath := hrefused.target.symm.trans he.target
  cases hpath
  have hrefusal := hrefused.refusal.symm.trans he.refusal
  cases hrefusal
  have hterminal : Belongs ⟨true, "text"⟩ r w (.ofTerminal r) := by
    refine .terminal hs fun _ path ht => ?_
    cases ht
    exact he.not_writable
  have hplace : Place.output = place := (hbelongs _).mp hterminal
  subst hplace
  have hconsole : ¬ w.journal.HasConsole := by
    rintro ⟨threshold, layout, hm⟩
    exact absurd hm List.not_mem_nil
  refine ⟨w', hroute, ?_, ?_, fun l => ?_⟩
  · rw [hputs.output, hreports.output]
    rfl
  · rw [hputs.errors, hreports.errors hconsole]
    rfl
  · rw [hputs.others l (by simp), hreports.fs l List.not_mem_nil]

end Output

end CommandShell
