import CommandShell.Proofs.FileSystem.Growth

/-! # Opening files

A path can be opened for writing or it cannot, whichever way it is opened. Opening it makes the file
system grow, and afterwards it can still be opened. Writing into a file changes nothing but its
content. -/
namespace CommandShell.FileSystem

inductive Opens (fs : FileSystem) : Destination → Prop where
  | existing {l p content program} : fs.node? l = some (.file p content program) →
      p.write = true → Opens fs (.existing l)
  | free {directory name p} : fs.node? directory = some (.directory p) → p.write = true →
      Opens fs (.free directory name)

structure Writable (fs : FileSystem) (processDir path : String) : Prop where
  no_nul : hasNul path = false
  no_end_slash : endsWithSlash path = false
  opens : ∃ e, fs.find processDir path = .ok e ∧ fs.Opens e

variable {a b fs : FileSystem} {followLast : Bool} {processDir path : String}

theorem append_sameNodes (fs : FileSystem) (l : Location) (bytes : ByteArray) :
    SameNodes fs (fs.append l bytes) := by
  intro other
  by_cases h : other = l
  · subst h
    unfold append
    split
    · next p content program hn =>
      have hl : other ≠ [] := by
        intro he
        subst he
        simp [node?_root] at hn
      rw [node?_set hl, if_pos rfl, hn]
      rfl
    · rfl
  · rw [node?_append fs bytes h]

theorem SameNodes.symm (h : SameNodes a b) : SameNodes b a := fun l => (h l).symm

theorem SameNodes.node?_cases (h : SameNodes a b) (l : Location) :
    (a.node? l = none ∧ b.node? l = none) ∨
      ∃ m n, a.node? l = some m ∧ b.node? l = some n ∧ n.bare = m.bare := by
  have hl := h l
  cases ha : a.node? l with
  | none =>
    rw [ha] at hl
    exact .inl ⟨rfl, Option.map_eq_none_iff.mp hl.symm⟩
  | some m =>
    rw [ha] at hl
    obtain ⟨n, hn, he⟩ := Option.map_eq_some_iff.mp hl.symm
    exact .inr ⟨m, n, rfl, hn, he⟩

theorem SameNodes.obstacle? (h : SameNodes a b) (l : Location) :
    b.obstacle? l = a.obstacle? l := by
  rw [FileSystem.obstacle?, FileSystem.obstacle?]
  rcases h.node?_cases l with ⟨ha, hb⟩ | ⟨m, n, ha, hb, he⟩
  · rw [ha, hb]
  · rw [ha, hb]
    cases m <;> cases n <;> simp_all [Node.bare]

/-- Lookups do not read files, so where they lead and what refuses them is the same. -/
theorem SameNodes.advance (h : SameNodes a b) (l : Location) (cs : List String) :
    b.advance followLast l cs = a.advance followLast l cs := by
  induction cs generalizing l with
  | nil => rfl
  | cons c cs ih =>
    rw [FileSystem.advance, FileSystem.advance, h.obstacle?, ih, ih, ih]
    rcases h.node?_cases (c :: l) with ⟨ha, hb⟩ | ⟨m, n, ha, hb, he⟩
    · rw [ha, hb]
    · rw [ha, hb]
      cases m <;> cases n <;> simp_all [Node.bare]

theorem SameNodes.walk (h : SameNodes a b) (links : Nat) (l : Location) (cs : List String) :
    b.walk followLast links l cs = a.walk followLast links l cs := by
  induction links generalizing l cs with
  | zero => rw [walk_eq, walk_eq, h.advance]
  | succ links ih =>
    rw [walk_eq, walk_eq, h.advance]
    simp only [ih]

theorem SameNodes.find (h : SameNodes a b) :
    b.find processDir path followLast = a.find processDir path followLast := by
  simp only [FileSystem.find, h.walk, h.grows.isDirectoryAt]

theorem SameNodes.locate (h : SameNodes a b) :
    b.locate processDir path followLast = a.locate processDir path followLast := by
  simp only [FileSystem.locate, FileSystem.lookup, h.find]

theorem SameNodes.opens (h : SameNodes a b) {e : Destination} (he : a.Opens e) : b.Opens e := by
  cases he with
  | @existing l p content program hn hp =>
    obtain ⟨m, hm, hbare⟩ := (hn ▸ h.grows l).of_some
    obtain ⟨new, rfl⟩ := bare_eq_file hbare
    exact .existing hm hp
  | free hn hp => exact .free (h.grows.directory_iff.mp hn) hp

theorem SameNodes.writable (h : SameNodes a b) (hw : a.Writable processDir path) :
    b.Writable processDir path := by
  obtain ⟨e, he, ho⟩ := hw.opens
  exact ⟨hw.no_nul, hw.no_end_slash, e, h.find.trans he, h.opens ho⟩

theorem Grows.leads_made (h : Grows a b) {n : Nat} {l d : Location} {cs : List String}
    {name : String} {content : ByteArray}
    (hn : b.node? (name :: d) = some (.file .plain content none))
    (walk : a.Leads followLast n l cs (.free d name)) :
    b.Leads followLast n l cs (.existing (name :: d)) := by
  generalize he : Destination.free d name = e at walk
  induction walk with
  | here => simp at he
  | dot ho _ ih => exact .dot (h.clear_iff.mp ho) (ih he)
  | up ho _ ih => exact .up (h.clear_iff.mp ho) (ih he)
  | @enter n l c cs e node ht hc hnl _ ih =>
    obtain ⟨m, hm, hbare⟩ := (hc ▸ h (c :: l)).of_some
    refine .enter (h.takes_iff.mp ht) hm ?_ (ih he)
    intro target heq
    subst heq
    exact hnl target (bare_eq_link hbare.symm)
  | free ht hc =>
    cases he
    exact .enter (h.takes_iff.mp ht) hn (by simp) (.here _)
  | last => simp at he
  | link ht hc hlast _ ih => exact .link (h.takes_iff.mp ht) (h.link_iff.mp hc) hlast (ih he)

theorem free_of_leads {n : Nat} {l d : Location} {cs : List String} {name : String}
    (walk : fs.Leads followLast n l cs (.free d name)) : fs.node? (name :: d) = none := by
  generalize he : Destination.free d name = e at walk
  induction walk with
  | here => simp at he
  | dot _ _ ih => exact ih he
  | up _ _ ih => exact ih he
  | enter _ _ _ _ ih => exact ih he
  | free _ hc => cases he; exact hc
  | last => simp at he
  | link _ _ _ _ ih => exact ih he

theorem make_grows {l : Location} (hl : l ≠ []) (hn : fs.node? l = none) :
    Grows fs (fs.set l (.file .plain .empty none)) := by
  intro other
  rw [node?_set hl]
  by_cases h : l = other
  · subst h
    rw [if_pos rfl, hn]
    exact .made
  · rw [if_neg h]
    exact .same rfl

theorem set_sameNodes {l : Location} {p : Permissions} {content new : ByteArray}
    {program : Option Program} (hn : fs.node? l = some (.file p content program)) :
    SameNodes fs (fs.set l (.file p new program)) := by
  have hl : l ≠ [] := by
    intro he
    subst he
    simp [node?_root] at hn
  intro other
  rw [node?_set hl]
  by_cases h : l = other
  · subst h
    rw [if_pos rfl, hn]
    rfl
  · rw [if_neg h]

theorem openForWriting_of_find {e : Destination} {append : Bool} (hn : hasNul path = false)
    (hs : endsWithSlash path = false) (he : fs.find processDir path = .ok e) :
    fs.openForWriting processDir path append = match fs.openAt append e with
      | .ok r => .ok r
      | .error e => .error (.system e path) := by
  simp only [openForWriting, hn, hs, he, Bool.false_eq_true, if_false]
  cases fs.openAt append e <;> rfl

theorem openForWriting_of_end_slash {append : Bool} (hn : hasNul path = false)
    (hs : endsWithSlash path = true) : fs.openForWriting processDir path append =
      .error (.system (fs.refusalAtEndSlash processDir path) path) := by
  simp [openForWriting, hn, hs]

theorem openForWriting_of_find_error {append : Bool} {e : SystemError} (hn : hasNul path = false)
    (hs : endsWithSlash path = false) (he : fs.find processDir path = .error e) :
    fs.openForWriting processDir path append = .error (.system e path) := by
  simp [openForWriting, hn, hs, he]

/-- What can be opened is opened; the file system grows, and the path can be opened again. -/
theorem Writable.openForWriting (h : fs.Writable processDir path) (append : Bool) :
    ∃ place after, fs.openForWriting processDir path append = .ok (place, after) ∧
      Grows fs after ∧ after.Writable processDir path := by
  obtain ⟨e, he, ho⟩ := h.opens
  rw [openForWriting_of_find h.no_nul h.no_end_slash he]
  cases ho with
  | @existing l p content program hn hp =>
    have hsame : SameNodes fs (if append then fs else fs.set l (.file p .empty program)) := by
      split
      · exact .refl fs
      · exact set_sameNodes hn
    refine ⟨l, _, ?_, hsame.grows, hsame.writable h⟩
    simp [openAt, hn, hp]
  | @free directory name p hn hp =>
    obtain ⟨hne, hshort, ⟨n, hlinks, hw⟩, -⟩ := find_eq_ok_iff.mp he
    have hgrows := make_grows (List.cons_ne_nil name directory) (free_of_leads hw)
    have hmade : (fs.set (name :: directory) (.file .plain .empty none)).node?
        (name :: directory) = some (.file .plain .empty none) := by
      rw [node?_set (List.cons_ne_nil name directory), if_pos rfl]
    refine ⟨name :: directory, _, by simp [openAt, hn, hp], hgrows, ?_⟩
    refine ⟨h.no_nul, h.no_end_slash, .existing (name :: directory), ?_, .existing hmade rfl⟩
    refine find_eq_ok_iff.mpr ⟨hne, hshort, ⟨n, hlinks, hgrows.leads_made hmade hw⟩, ?_⟩
    intro hslash
    simp [h.no_end_slash] at hslash

/-- What cannot be opened is refused by the system, unless the path holds the character zero. -/
theorem openForWriting_refused (append : Bool) (hn : hasNul path = false)
    (h : ¬ fs.Writable processDir path) :
    ∃ e, fs.openForWriting processDir path append = .error (.system e path) := by
  by_cases hs : endsWithSlash path = true
  · exact ⟨_, openForWriting_of_end_slash hn hs⟩
  have hs : endsWithSlash path = false := by simpa using hs
  cases he : fs.find processDir path with
  | error e => exact ⟨e, openForWriting_of_find_error hn hs he⟩
  | ok e =>
    rw [openForWriting_of_find hn hs he]
    cases hr : fs.openAt append e with
    | error r => exact ⟨r, rfl⟩
    | ok r =>
      refine absurd ⟨hn, hs, e, he, ?_⟩ h
      unfold openAt at hr
      split at hr
      · split at hr
        · next hd =>
          split at hr
          · next hp => exact .free hd hp
          · simp at hr
        · simp at hr
      · split at hr
        · next hf =>
          split at hr
          · next hp => exact .existing hf hp
          · simp at hr
        · simp at hr

theorem openForWriting_of_nul {append : Bool} (hn : hasNul path = true) :
    fs.openForWriting processDir path append = .error .nulCharacter := by
  simp [FileSystem.openForWriting, hn]

theorem SameNodes.openAt_error (h : SameNodes a b) {append : Bool} {d : Destination}
    {e : SystemError} (ho : a.openAt append d = .error e) : b.openAt append d = .error e := by
  cases d with
  | existing l =>
    simp only [openAt] at ho ⊢
    rcases h.node?_cases l with ⟨ha, hb⟩ | ⟨m, n, ha, hb, he⟩
    · rw [ha] at ho
      rwa [hb]
    · rw [ha] at ho
      rw [hb]
      cases m <;> cases n <;> simp_all [Node.bare]
      split at ho <;> simp_all
  | free directory name =>
    simp only [openAt] at ho ⊢
    rcases h.node?_cases directory with ⟨ha, hb⟩ | ⟨m, n, ha, hb, he⟩
    · rw [ha] at ho
      rwa [hb]
    · rw [ha] at ho
      rw [hb]
      cases m <;> cases n <;> simp_all [Node.bare]
      split at ho <;> simp_all

theorem SameNodes.refusalAtEndSlash (h : SameNodes a b) :
    b.refusalAtEndSlash processDir path = a.refusalAtEndSlash processDir path := by
  simp only [FileSystem.refusalAtEndSlash, h.find, h.obstacle?]

theorem SameNodes.openForWriting_error (h : SameNodes a b) {append : Bool} {f : Fault}
    (ho : a.openForWriting processDir path append = .error f) :
    b.openForWriting processDir path append = .error f := by
  by_cases hn : hasNul path = true
  · rw [openForWriting_of_nul hn] at ho ⊢
    exact ho
  have hn : hasNul path = false := by simpa using hn
  by_cases hs : endsWithSlash path = true
  · rw [openForWriting_of_end_slash hn hs] at ho
    rw [openForWriting_of_end_slash hn hs, h.refusalAtEndSlash]
    exact ho
  have hs : endsWithSlash path = false := by simpa using hs
  cases hf : a.find processDir path with
  | error e =>
    rw [openForWriting_of_find_error hn hs hf] at ho
    rw [openForWriting_of_find_error hn hs (h.find.trans hf)]
    exact ho
  | ok d =>
    rw [openForWriting_of_find hn hs hf] at ho
    rw [openForWriting_of_find hn hs (h.find.trans hf)]
    cases hd : a.openAt append d with
    | ok r => simp [hd] at ho
    | error e =>
      rw [hd] at ho
      rw [h.openAt_error hd]
      exact ho

end CommandShell.FileSystem

namespace CommandShell.Log

open FileSystem (SameNodes)

theorem Sink.write_sameNodes (r : Record) (fs : FileSystem) (s : Sink) :
    SameNodes fs (s.write r fs) := by
  cases s with
  | file t place =>
    simp only [Sink.write]
    split
    · exact FileSystem.append_sameNodes fs place _
    · exact .refl fs
  | buffer => exact .refl fs
  | console => exact .refl fs

theorem Journal.write_sameNodes (j : Journal) (r : Record) (fs : FileSystem) :
    SameNodes fs (j.write r fs) := by
  unfold Journal.write
  split
  · induction j.sinks generalizing fs with
    | nil => exact .refl fs
    | cons s sinks ih => exact (s.write_sameNodes r fs).trans (ih (s.write r fs))
  · exact .refl fs

theorem Journal.write_of_sinks {j : Journal} {r : Record} {fs : FileSystem}
    (h : j.takes r.level = true → ∀ s ∈ j.sinks, s.write r fs = fs) : j.write r fs = fs := by
  unfold Journal.write
  split
  · next ht =>
    replace h := h ht
    generalize j.sinks = sinks at h
    induction sinks with
    | nil => rfl
    | cons s sinks ih =>
      rw [List.foldl_cons, h s List.mem_cons_self]
      exact ih fun s' h' => h s' (List.mem_cons_of_mem s h')
  · rfl

end CommandShell.Log
