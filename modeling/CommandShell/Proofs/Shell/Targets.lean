import CommandShell.Proofs.Shell.Frame

/-! # What the target of a redirection holds

A target is opened before the command runs, which may empty it, and once more if there is anything
to write. In the end it holds what was there before, or nothing if it was emptied, and behind it the
text that the redirection captures. Over many lines its content is a fold of what each line
delivers. -/
namespace CommandShell.Shell

open FileSystem (WritableAt AgreesOff)
open Line (Command Redirection)

/-- The text that a command has for each place, by the world in which it starts. -/
inductive Puts (w : World) (c : Command) (r : Redirection) : Portions → Prop where
  | result {b result} : w.builtins.get? c.name = some b → b.answer w c.arguments = .ok result →
      Puts w c r (result.portions r)
  | reported {b f} : w.builtins.get? c.name = some b →
      b.answer w c.arguments = .error (.failure f) → Puts w c r { error := f.message ++ "\n" }
  | stopped {b s} : w.builtins.get? c.name = some b → b.answer w c.arguments = .error s →
      (∀ f, s ≠ .failure f) → Puts w c r {}
  | program {found request program} : w.builtins.get? c.name = none →
      w.fs.findProgram? w.processDir c.name w.session.searchDirectories = some found →
      request = Launch.ofCommand found c.name c.arguments r (some w.session.dir) →
      request.program w.fs w.processDir = .ok program → Puts w c r (request.portions program r)
  | refused {found request fault f} : w.builtins.get? c.name = none →
      w.fs.findProgram? w.processDir c.name w.session.searchDirectories = some found →
      request = Launch.ofCommand found c.name c.arguments r (some w.session.dir) →
      request.program w.fs w.processDir = .error fault → request.refusal fault = .failure f →
      Puts w c r { error := f.message ++ "\n" }
  | blocked {found request fault} : w.builtins.get? c.name = none →
      w.fs.findProgram? w.processDir c.name w.session.searchDirectories = some found →
      request = Launch.ofCommand found c.name c.arguments r (some w.session.dir) →
      request.program w.fs w.processDir = .error fault →
      (∀ f, request.refusal fault ≠ .failure f) → Puts w c r {}
  | notFound : w.builtins.get? c.name = none →
      w.fs.findProgram? w.processDir c.name w.session.searchDirectories = none →
      Puts w c r { output := c.name ++ ": command not found\n" }

/-- Text that is written to the end of a file, which is emptied before unless the text is to be
appended. -/
structure Delivery where
  place : Location
  append : Bool
  text : String

def Delivery.onto (d : Delivery) (content : ByteArray) : ByteArray :=
  (if d.append then content else .empty) ++ d.text.toUTF8

def delivery? (w : World) (line : String) : Option Delivery :=
  match Command.ofLine line with
  | .error _ => none
  | .ok c =>
    let r := redirectionIn w c
    match r.isActive, r.target with
    | true, some path =>
      match w.fs.openForWriting w.processDir path r.append with
      | .ok (l, _) => some ⟨l, r.append, (outcome w c (some l)).text.file⟩
      | .error _ => none
    | _, _ => none

def deliveries (w : World) : List String → List Delivery
  | [] => []
  | line :: rest => (delivery? w line).toList ++ deliveries (afterLine w line) rest

def receive (l : Location) (content : ByteArray) (d : Delivery) : ByteArray :=
  if d.place = l then d.onto content else content

variable {w : World} {line : String} {c : Command} {r : Redirection} {l : Option Location}

theorem ofBuiltin_puts {b : Builtin} (hb : w.builtins.get? c.name = some b) :
    Puts w c r (Outcome.ofBuiltin w r b c.arguments).reported.text := by
  unfold Outcome.ofBuiltin
  cases ha : b.answer w c.arguments with
  | ok result =>
    rw [Outcome.reported_of_not_failure (by simp)]
    exact .result hb ha
  | error s =>
    cases s with
    | failure f =>
      rw [Outcome.reported_of_failure rfl, String.empty_append]
      exact .reported hb ha
    | _ =>
      rw [Outcome.reported_of_not_failure (by simp)]
      exact .stopped hb ha (by simp)

theorem ofLaunch_puts {found : Found} {request : Launch} (hb : w.builtins.get? c.name = none)
    (hf : w.fs.findProgram? w.processDir c.name w.session.searchDirectories = some found)
    (hr : request = Launch.ofCommand found c.name c.arguments r (some w.session.dir)) :
    Puts w c r (Outcome.ofLaunch w r request).reported.text := by
  unfold Outcome.ofLaunch Launch.ending Launch.written
  cases hp : request.program w.fs w.processDir with
  | ok program =>
    have hend : (Outcome.reported ⟨(if program.interrupts then .error .interrupt
        else .ok program.status : Except Stop Int).map some, request.portions program r,
        { w with launches := w.launches ++ [request] }⟩).text = request.portions program r := by
      cases program.interrupts <;> rfl
    dsimp only
    rw [hend]
    exact .program hb hf hr hp
  | error fault =>
    dsimp only
    cases hs : request.refusal fault with
    | failure f =>
      rw [Outcome.reported_of_failure rfl, String.empty_append]
      exact .refused hb hf hr hp hs
    | _ =>
      rw [Outcome.reported_of_not_failure (by simp [Except.map])]
      exact .blocked hb hf hr hp (by simp [hs])

theorem outcome_puts (w : World) (c : Command) (l : Option Location) :
    Puts (w.prepared (redirectionIn w c) l) c (redirectionIn w c) (outcome w c l).text := by
  unfold outcome Outcome.ofCommand
  cases hb : (w.prepared (redirectionIn w c) l).builtins.get? c.name with
  | some b => exact ofBuiltin_puts hb
  | none =>
    unfold Outcome.ofName
    cases hf : (w.prepared (redirectionIn w c) l).fs.findProgram?
        (w.prepared (redirectionIn w c) l).processDir c.name
        (w.prepared (redirectionIn w c) l).session.searchDirectories with
    | some found => exact ofLaunch_puts hb hf rfl
    | none => exact .notFound hb hf

theorem delivery?_of_opens {path : String} {place : Location}
    (hc : Command.ofLine line = .ok c) (ha : (redirectionIn w c).isActive = true)
    (ht : (redirectionIn w c).target = some path)
    (hw : w.fs.WritableAt w.processDir path place) : delivery? w line =
      some ⟨place, (redirectionIn w c).append, (outcome w c (some place)).text.file⟩ := by
  obtain ⟨after, ho, -⟩ := hw.openForWriting (redirectionIn w c).append
  unfold delivery?
  rw [hc]
  dsimp only
  rw [ha, ht]
  dsimp only
  rw [ho]

theorem exists_opens_of_delivery? {d : Delivery} (h : delivery? w line = some d) :
    ∃ c path, Command.ofLine line = .ok c ∧ (redirectionIn w c).isActive = true ∧
      (redirectionIn w c).target = some path ∧
      w.fs.WritableAt w.processDir path d.place ∧ d.append = (redirectionIn w c).append ∧
      d.text = (outcome w c (some d.place)).text.file := by
  unfold delivery? at h
  cases hc : Command.ofLine line with
  | error f => simp [hc] at h
  | ok c =>
    rw [hc] at h
    dsimp only at h
    split at h
    · next path ha ht =>
      split at h
      · next place after ho =>
        cases h
        exact ⟨c, path, rfl, ha, ht, FileSystem.writableAt_of_openForWriting ho, rfl, rfl⟩
      · simp at h
    · simp at h

/-- A delivery is the only change to the content of files that take no records. -/
theorem afterLine_content {place : Location} (hl : place ∉ w.journal.files) :
    (afterLine w line).fs.contentAt place =
      (delivery? w line).toList.foldl (receive place) (w.fs.contentAt place) := by
  cases hd : delivery? w line with
  | some d =>
    obtain ⟨c, path, hc, ha, ht, hw, happend, htext⟩ := exists_opens_of_delivery? hd
    have hfs := afterLine_fs hc (.file ha ht hw) (fun _ hk => hk)
    rw [hfs.contentAt hl, ← happend, ← htext]
    simp only [Option.toList_some, List.foldl_cons, List.foldl_nil, receive]
    by_cases hp : d.place = place
    · subst hp
      rw [if_pos rfl]
      exact FileSystem.contentAt_holding _ hw.free_or_file
    · rw [if_neg hp]
      exact FileSystem.contentAt_congr (FileSystem.node?_holding_of_ne _ (Ne.symm hp))
  | none =>
    have hsame : AgreesOff w.journal.files w.fs (afterLine w line).fs := by
      by_cases hopen : ∃ c, Command.ofLine line = .ok c ∧ Opens w c
      · obtain ⟨c, hc, ho⟩ := hopen
        obtain ⟨l, haim⟩ := ho.exists_aim
        cases haim with
        | nowhere hn => exact afterLine_fs hc (.nowhere hn) (fun _ hk => hk)
        | file ha ht hw => simp [delivery?_of_opens hc ha ht hw] at hd
      · exact afterLine_abandoned (fun c hc ho => hopen ⟨c, hc, ho⟩) (fun _ hk => hk)
    exact hsame.contentAt hl

theorem afterLine_files (w : World) (line : String) :
    ∀ k ∈ (afterLine w line).journal.files, k ∈ w.journal.files := by
  by_cases hopen : ∃ c, Command.ofLine line = .ok c ∧ Opens w c
  · obtain ⟨c, hc, ho⟩ := hopen
    obtain ⟨l, haim⟩ := ho.exists_aim
    exact (afterLine_alike (gives_executeLine hc haim) (fun _ hk => hk)).logs
  · obtain ⟨res, error, -, hgives⟩ := gives_executeLine_abandoned w.journal.files
      (fun c hc ho => hopen ⟨c, hc, ho⟩)
    exact (afterLine_alike hgives (fun _ hk => hk)).logs

theorem afterLines_content {place : Location} (lines : List String)
    (hl : place ∉ w.journal.files) : (afterLines w lines).fs.contentAt place =
      (deliveries w lines).foldl (receive place) (w.fs.contentAt place) := by
  induction lines generalizing w with
  | nil => rfl
  | cons line rest ih =>
    have hrest := ih (w := afterLine w line) fun hk => hl (afterLine_files w line place hk)
    rw [deliveries, List.foldl_append, ← afterLine_content hl]
    exact hrest

/-- Every line whose redirection can be opened leaves in its target, which is no log file, what was
there or nothing and behind it the captured part of the text that its command has; the rest of it
appears on the terminal. Over any lines the content of a file is the fold of what they deliver. -/
theorem target_content :
    (∀ (w : World) (line : String) (c : Command) (path : String) (place : Location),
      Command.ofLine line = .ok c → (redirectionIn w c).isActive = true →
      (redirectionIn w c).target = some path → w.fs.WritableAt w.processDir path place →
      place ∉ w.journal.files →
      ∃ text, Puts (w.prepared (redirectionIn w c) (some place)) c (redirectionIn w c) text ∧
        delivery? w line = some ⟨place, (redirectionIn w c).append, text.file⟩ ∧
        (afterLine w line).fs.locate w.processDir path = .ok place ∧
        (∃ p program, (afterLine w line).fs.node? place = some (.file p
          ((if (redirectionIn w c).append then w.fs.contentAt place else .empty) ++
            text.file.toUTF8) program)) ∧
        (afterLine w line).output = w.output ++ text.output ∧
        (afterLine w line).texts = w.texts ++ text.error) ∧
    (∀ (w : World) (line : String) (d : Delivery), delivery? w line = some d →
      ∃ c path, Command.ofLine line = .ok c ∧ (redirectionIn w c).isActive = true ∧
        (redirectionIn w c).target = some path ∧
        w.fs.WritableAt w.processDir path d.place) ∧
    (∀ (w : World) (lines : List String) (place : Location), place ∉ w.journal.files →
      (afterLines w lines).fs.contentAt place =
        (deliveries w lines).foldl (receive place) (w.fs.contentAt place)) := by
  refine ⟨?_, ?_, fun w lines place => afterLines_content lines⟩
  · intro w line c path place hc ha ht hw hl
    have haim : (redirectionIn w c).Aims w.fs w.processDir (some place) := .file ha ht hw
    have halike := afterLine_alike (gives_executeLine hc haim) (fun _ hk => hk)
    obtain ⟨p, program, hp⟩ := FileSystem.exists_refilledAt hw.free_or_file
    have hnode := afterLine_fs hc haim (fun _ hk => hk) place hl
    simp only [FileSystem.receivingAt, FileSystem.receiving, FileSystem.opened,
      FileSystem.node?_holding, if_true, hp] at hnode
    refine ⟨_, outcome_puts w c (some place), delivery?_of_opens hc ha ht hw, ?_,
      ⟨p, program, hnode⟩, ?_, ?_⟩
    · exact ((hw.holding _).sameNodes (afterLine_sameNodes hc haim)).locate hnode
    · rw [halike.output, outcome_world]
      rfl
    · rw [halike.texts, outcome_world]
      exact World.texts_append _ _
  · intro w line d hd
    obtain ⟨c, path, hc, ha, ht, hw, -, -⟩ := exists_opens_of_delivery? hd
    exact ⟨c, path, hc, ha, ht, hw⟩

/-- A program that is run twice under a redirection, at first in a new file and then behind what it
has written there. -/
theorem target_of_program_run_twice :
    let program : Program := { output := "hi\n", diagnostics := "no\n" }
    let w : World := {
      fs := { nodes := [(["bin"], .directory {}), (["p", "bin"], .file {} .empty (some program))] }
      session := { dir := "/", searchPath := some "/bin" } }
    (∃ c text, Command.ofLine "p > f" = .ok c ∧
      Puts (w.prepared (redirectionIn w c) (some ["f"])) c (redirectionIn w c) text ∧
      (afterLine w "p > f").output = w.output ++ text.output) ∧
    (deliveries w ["p > f", "p >> f"]).map (·.text) = ["hi\n", "hi\n"] ∧
    (afterLines w ["p > f", "p >> f"]).fs.contentAt ["f"] =
      (deliveries w ["p > f", "p >> f"]).foldl (receive ["f"]) .empty := by
  intro program w
  obtain ⟨hline, -, hlines⟩ := target_content
  have hc : Command.ofLine "p > f" = .ok ⟨"p", [], ⟨some "f", false, .output⟩⟩ := rfl
  have hw : w.fs.WritableAt w.processDir "/f" ["f"] :=
    ⟨by decide, by decide, .free [] "f", rfl, .free rfl rfl, rfl⟩
  obtain ⟨text, hputs, -, -, -, houtput, -⟩ :=
    hline w "p > f" _ "/f" ["f"] hc rfl (by decide +kernel)
    hw (by simp [w, Log.Journal.files])
  exact ⟨⟨_, text, hc, hputs, houtput⟩, by decide +kernel,
    hlines w ["p > f", "p >> f"] ["f"] (by simp [w, Log.Journal.files])⟩

/-- The log file as the target of a redirection: it holds a record although the command is none and
writes nothing to it. -/
theorem log_file_holds_more_than_is_captured :
    let w : World := { journal := { threshold := 10, sinks := [.file 10 ["log"]], ready := true } }
    ∃ c text, Command.ofLine "nothing > /log" = .ok c ∧ (redirectionIn w c).isActive = true ∧
      (redirectionIn w c).target = some "/log" ∧ (redirectionIn w c).append = false ∧
      w.fs.WritableAt w.processDir "/log" ["log"] ∧
      Puts (w.prepared (redirectionIn w c) (some ["log"])) c (redirectionIn w c) text ∧
      text.file = "" ∧
      (afterLine w "nothing > /log").fs.contentAt ["log"] ≠ text.file.toUTF8 := by
  intro w
  have hc : Command.ofLine "nothing > /log" =
      .ok ⟨"nothing", [], ⟨some "/log", false, .output⟩⟩ := rfl
  have hw : w.fs.WritableAt w.processDir "/log" ["log"] :=
    ⟨by decide, by decide, .free [] "log", rfl, .free rfl rfl, rfl⟩
  have hrecord : ((afterLine w "nothing > /log").fs.contentAt ["log"]).size ≠ 0 := by
    decide +kernel
  refine ⟨_, _, hc, rfl, rfl, rfl, hw, .notFound rfl rfl, rfl, ?_⟩
  intro hcontent
  rw [hcontent] at hrecord
  exact hrecord rfl

end CommandShell.Shell
