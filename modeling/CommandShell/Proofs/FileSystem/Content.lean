import CommandShell.Proofs.FileSystem.Opening

/-! # The content of one file

Opening a file for writing and writing into it change one location: the file there holds other
bytes, or there is a file where nothing was. Everything that is written under a redirection is one
content of one file, whichever way and however often the file is opened for it. -/
namespace CommandShell

def Node.refilled (content : ByteArray) : Node → Node
  | .file p _ program => .file p content program
  | n => n

theorem Node.bare_refilled (content : ByteArray) (n : Node) :
    (n.refilled content).bare = n.bare := by
  cases n <;> rfl

theorem Node.refilled_refilled (content new : ByteArray) (n : Node) :
    (n.refilled content).refilled new = n.refilled new := by
  cases n <;> rfl

namespace FileSystem

def contentAt (fs : FileSystem) (l : Location) : ByteArray :=
  match fs.node? l with
  | some (.file _ content _) => content
  | _ => .empty

def refilledAt (fs : FileSystem) (l : Location) (content : ByteArray) : Node :=
  ((fs.node? l).map (Node.refilled content)).getD (.file .plain content none)

def holding (fs : FileSystem) (l : Location) (content : ByteArray) : FileSystem :=
  fs.set l (fs.refilledAt l content)

/-- A path that can be opened for writing, and the location that is opened. -/
structure WritableAt (fs : FileSystem) (processDir path : String) (l : Location) : Prop where
  no_nul : hasNul path = false
  no_end_slash : endsWithSlash path = false
  opens : ∃ e, fs.find processDir path = .ok e ∧ fs.Opens e ∧ e.place = l

def AgreesOff (away : List Location) (a b : FileSystem) : Prop :=
  ∀ l, l ∉ away → b.node? l = a.node? l

variable {a b c fs : FileSystem} {l k : Location} {away : List Location}
  {processDir path : String}

theorem node?_holding (fs : FileSystem) (l : Location) (content : ByteArray) (k : Location) :
    (fs.holding l content).node? k =
      if l = k then some (fs.refilledAt l content) else fs.node? k := by
  by_cases hl : l = []
  · subst hl
    -- The root is a directory and stays the one that it is.
    have hs : fs.holding [] content = fs := rfl
    rw [hs]
    split
    · next h =>
      subst h
      rfl
    · rfl
  · exact node?_set hl fs _ k

theorem node?_holding_of_ne (content : ByteArray) (h : k ≠ l) :
    (fs.holding l content).node? k = fs.node? k := by
  rw [node?_holding, if_neg (Ne.symm h)]

theorem refilledAt_holding (content new : ByteArray) :
    (fs.holding l content).refilledAt l new = fs.refilledAt l new := by
  simp only [refilledAt, node?_holding, if_true]
  cases fs.node? l with
  | none => rfl
  | some n => exact n.refilled_refilled content new

theorem node?_holding_holding (content new : ByteArray) (k : Location) :
    ((fs.holding l content).holding l new).node? k = (fs.holding l new).node? k := by
  rw [node?_holding, node?_holding, node?_holding, refilledAt_holding]
  split <;> rfl

theorem contentAt_congr (h : b.node? l = a.node? l) : b.contentAt l = a.contentAt l := by
  rw [contentAt, h, contentAt]

theorem node?_holding_contentAt {n : Node} (h : fs.node? l = some n) (k : Location) :
    (fs.holding l (fs.contentAt l)).node? k = fs.node? k := by
  rw [node?_holding]
  split
  · next he =>
    subst he
    rw [refilledAt, contentAt, h]
    cases n <;> rfl
  · rfl

theorem AgreesOff.refl (away : List Location) (a : FileSystem) : AgreesOff away a a :=
  fun _ _ => rfl

theorem AgreesOff.of_eq (h : ∀ l, b.node? l = a.node? l) : AgreesOff away a b := fun l _ => h l

theorem AgreesOff.trans (h : AgreesOff away a b) (k : AgreesOff away b c) : AgreesOff away a c :=
  fun l hl => (k l hl).trans (h l hl)

theorem AgreesOff.contentAt (h : AgreesOff away a b) (hl : l ∉ away) :
    b.contentAt l = a.contentAt l :=
  contentAt_congr (h l hl)

theorem AgreesOff.holding {content new : ByteArray} (h : AgreesOff away a b)
    (hc : l ∉ away → new = content) : AgreesOff away (a.holding l content) (b.holding l new) := by
  intro k hk
  rw [node?_holding, node?_holding]
  split
  · next he =>
    subst he
    rw [refilledAt, h l hk, hc hk, refilledAt]
  · exact h k hk

theorem AgreesOff.append (h : AgreesOff away a b) (l : Location) (bytes : ByteArray) :
    AgreesOff away (a.append l bytes) (b.append l bytes) := by
  intro k hk
  by_cases he : k = l
  · subst he
    have hn := h k hk
    rw [FileSystem.append, FileSystem.append, hn]
    split
    · next hf =>
      have hroot : k ≠ [] := by
        rintro rfl
        simp [node?_root] at hf
      rw [node?_set hroot, node?_set hroot]
      simp
    · exact hn
  · rw [node?_append _ _ he, node?_append _ _ he]
    exact h k hk

theorem agreesOff_append (fs : FileSystem) (bytes : ByteArray) (h : l ∈ away) :
    AgreesOff away fs (fs.append l bytes) := by
  intro k hk
  apply node?_append
  intro he
  exact hk (he ▸ h)

theorem SameNodes.of_eq (h : ∀ l, b.node? l = a.node? l) : SameNodes a b := by
  intro l
  rw [h l]

theorem SameNodes.holding (h : SameNodes a b) (l : Location) (content new : ByteArray) :
    SameNodes (a.holding l content) (b.holding l new) := by
  intro k
  rw [node?_holding, node?_holding]
  split
  · rw [refilledAt, refilledAt]
    rcases h.node?_cases l with ⟨ha, hb⟩ | ⟨m, n, ha, hb, he⟩
    · rw [ha, hb]
      rfl
    · rw [ha, hb]
      simp [Node.bare_refilled, he]
  · exact h k

theorem exists_refilledAt
    (hf : fs.node? l = none ∨ ∃ p old program, fs.node? l = some (.file p old program)) :
    ∃ p program, ∀ content, fs.refilledAt l content = .file p content program := by
  rcases hf with hn | ⟨p, old, program, hn⟩
  · exact ⟨.plain, none, fun _ => by rw [refilledAt, hn]; rfl⟩
  · exact ⟨p, program, fun _ => by rw [refilledAt, hn]; rfl⟩

/-- Bytes at the end of a file are part of its content. -/
theorem node?_append_holding {content : ByteArray} (bytes : ByteArray)
    (hf : fs.node? l = none ∨ ∃ p old program, fs.node? l = some (.file p old program))
    (k : Location) :
    ((fs.holding l content).append l bytes).node? k =
      (fs.holding l (content ++ bytes)).node? k := by
  by_cases hk : k = l
  · subst hk
    obtain ⟨p, program, hc⟩ := exists_refilledAt hf
    have hroot : k ≠ [] := by
      rintro rfl
      rcases hf with hn | ⟨p, old, program, hn⟩ <;> simp [node?_root] at hn
    have hold : (fs.holding k content).node? k = some (.file p content program) := by
      rw [node?_holding, if_pos rfl, hc]
    rw [FileSystem.append, hold]
    simp only [node?_set hroot, node?_holding, hc, if_true]
  · rw [node?_append _ _ hk, node?_holding_of_ne _ hk, node?_holding_of_ne _ hk]

theorem holding_grows (fs : FileSystem) (l : Location) (content : ByteArray) :
    Grows fs (fs.holding l content) := by
  intro k
  rw [node?_holding]
  split
  · next he =>
    subst he
    rw [refilledAt]
    cases fs.node? l with
    | none => exact .made
    | some n => exact .same (congrArg some (n.bare_refilled content).symm)
  · exact .same rfl

theorem WritableAt.writable (h : fs.WritableAt processDir path l) :
    fs.Writable processDir path := by
  obtain ⟨e, he, ho, -⟩ := h.opens
  exact ⟨h.no_nul, h.no_end_slash, e, he, ho⟩

theorem Writable.exists_at (h : fs.Writable processDir path) :
    ∃ l, fs.WritableAt processDir path l := by
  obtain ⟨e, he, ho⟩ := h.opens
  exact ⟨e.place, h.no_nul, h.no_end_slash, e, he, ho, rfl⟩

theorem WritableAt.sameNodes (h : a.WritableAt processDir path l) (hs : SameNodes a b) :
    b.WritableAt processDir path l := by
  obtain ⟨e, he, ho, hp⟩ := h.opens
  exact ⟨h.no_nul, h.no_end_slash, e, hs.find.trans he, hs.opens ho, hp⟩

theorem WritableAt.unique (h : fs.WritableAt processDir path l)
    (g : fs.WritableAt processDir path k) : l = k := by
  obtain ⟨e, he, -, rfl⟩ := h.opens
  obtain ⟨f, hf, -, rfl⟩ := g.opens
  rw [he] at hf
  cases hf
  rfl

theorem WritableAt.free_or_file (h : fs.WritableAt processDir path l) :
    fs.node? l = none ∨ ∃ p old program, fs.node? l = some (.file p old program) := by
  obtain ⟨e, he, ho, rfl⟩ := h.opens
  cases ho with
  | existing hn _ => exact .inr ⟨_, _, _, hn⟩
  | free _ _ =>
    obtain ⟨-, -, ⟨n, -, hw⟩, -⟩ := find_eq_ok_iff.mp he
    exact .inl (free_of_leads hw)

theorem WritableAt.holding (h : fs.WritableAt processDir path l) (content : ByteArray) :
    (fs.holding l content).WritableAt processDir path l := by
  obtain ⟨e, he, ho, hp⟩ := h.opens
  cases ho with
  | @existing k p old program hn hw =>
    obtain rfl : k = l := hp
    have hs : SameNodes fs (fs.holding k content) := by
      intro other
      rw [node?_holding]
      split
      · next ho =>
        subst ho
        rw [refilledAt, hn]
        rfl
      · rfl
    exact h.sameNodes hs
  | @free directory name p hd hw =>
    obtain rfl : name :: directory = l := hp
    obtain ⟨hne, hshort, ⟨n, hlinks, hwalk⟩, -⟩ := find_eq_ok_iff.mp he
    have hmade : (fs.holding (name :: directory) content).node? (name :: directory) =
        some (.file .plain content none) := by
      rw [node?_holding, if_pos rfl, refilledAt, free_of_leads hwalk]
      rfl
    have hgrows := fs.holding_grows (name :: directory) content
    refine ⟨h.no_nul, h.no_end_slash, .existing (name :: directory), ?_, .existing hmade rfl, rfl⟩
    refine find_eq_ok_iff.mpr ⟨hne, hshort, ⟨n, hlinks, hgrows.leads_made hmade hwalk⟩, ?_⟩
    intro hslash
    simp [h.no_end_slash] at hslash

def opened (fs : FileSystem) (append : Bool) (l : Location) : ByteArray :=
  if append then fs.contentAt l else .empty

def receiving (fs : FileSystem) (append : Bool) (l : Location) (bytes : ByteArray) : FileSystem :=
  fs.holding l (fs.opened append l ++ bytes)

theorem contentAt_holding (content : ByteArray)
    (hf : fs.node? l = none ∨ ∃ p old program, fs.node? l = some (.file p old program)) :
    (fs.holding l content).contentAt l = content := by
  obtain ⟨p, program, hc⟩ := exists_refilledAt hf
  rw [contentAt, node?_holding, if_pos rfl, hc]

theorem opened_receiving {append : Bool} (bytes : ByteArray)
    (hf : fs.node? l = none ∨ ∃ p old program, fs.node? l = some (.file p old program)) :
    (fs.receiving append l bytes).opened append l =
      if append then fs.contentAt l ++ bytes else .empty := by
  rw [opened, receiving, contentAt_holding _ hf, opened]
  cases append <;> rfl

/-- To open a file a second time in the same way makes no difference. -/
theorem node?_receiving_twice {append : Bool} (bytes : ByteArray)
    (hf : fs.node? l = none ∨ ∃ p old program, fs.node? l = some (.file p old program))
    (k : Location) : ((fs.receiving append l .empty).receiving append l bytes).node? k =
      (fs.receiving append l bytes).node? k := by
  have ho : (fs.receiving append l .empty).opened append l = fs.opened append l := by
    rw [opened_receiving _ hf, opened, ByteArray.append_empty]
  rw [receiving, ho, receiving, node?_holding_holding, receiving]

theorem receiving_sameNodes (h : SameNodes a b) (append : Bool) (l : Location)
    (bytes : ByteArray) : SameNodes (a.receiving append l bytes) (b.receiving append l bytes) :=
  h.holding l _ _

theorem AgreesOff.receiving (h : AgreesOff away a b) (append : Bool) (l : Location)
    (bytes : ByteArray) :
    AgreesOff away (a.receiving append l bytes) (b.receiving append l bytes) := by
  apply h.holding
  intro hl
  rw [opened, h.contentAt hl, opened]

theorem WritableAt.openForWriting (h : fs.WritableAt processDir path l) (append : Bool) :
    ∃ after, fs.openForWriting processDir path append = .ok (l, after) ∧
      ∀ k, after.node? k = (fs.receiving append l .empty).node? k := by
  obtain ⟨e, he, ho, hp⟩ := h.opens
  rw [openForWriting_of_find h.no_nul h.no_end_slash he]
  simp only [receiving, ByteArray.append_empty]
  cases ho with
  | @existing k p content program hn hw =>
    obtain rfl : k = l := hp
    refine ⟨if append then fs else fs.set k (.file p .empty program), ?_, ?_⟩
    · simp [openAt, hn, hw]
    · intro other
      cases append with
      | true => exact (node?_holding_contentAt hn other).symm
      | false =>
        have hk : fs.refilledAt k .empty = .file p .empty program := by
          rw [refilledAt, hn]
          rfl
        simp [opened, FileSystem.holding, hk]
  | @free directory name p hd hw =>
    obtain rfl : name :: directory = l := hp
    obtain ⟨-, -, ⟨n, -, hwalk⟩, -⟩ := find_eq_ok_iff.mp he
    have hfree := free_of_leads hwalk
    have hempty : fs.opened append (name :: directory) = .empty := by
      rw [opened, FileSystem.contentAt, hfree]
      split <;> rfl
    refine ⟨fs.set (name :: directory) (.file .plain .empty none), by simp [openAt, hd, hw], ?_⟩
    intro other
    rw [hempty, FileSystem.holding, refilledAt, hfree]
    rfl

theorem writableAt_of_openForWriting {append : Bool}
    (h : fs.openForWriting processDir path append = .ok (l, a)) :
    fs.WritableAt processDir path l := by
  by_cases hn : hasNul path = true
  · simp [openForWriting_of_nul hn] at h
  have hn : hasNul path = false := by simpa using hn
  by_cases hw : fs.Writable processDir path
  · obtain ⟨k, hk⟩ := hw.exists_at
    obtain ⟨after, ho, -⟩ := hk.openForWriting append
    rw [ho] at h
    cases h
    exact hk
  · obtain ⟨e, he⟩ := openForWriting_refused append hn hw
    simp [he] at h

end FileSystem

end CommandShell
