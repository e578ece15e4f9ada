import CommandShell.Proofs.FileSystem.Walk

/-! # Canonical paths

A location that a walk reaches has proper names and only searchable directories above it. The text
of such a location is looked up without links, and it leads back to the location. -/
namespace CommandShell.FileSystem

/-- A location whose directories can all be searched and whose names the system takes. -/
inductive Way (fs : FileSystem) : Location → Prop where
  | root : Way fs []
  | entry {c l} : IsName c → c.utf8ByteSize ≤ nameLimit → fs.obstacle? l = none → Way fs l →
      Way fs (c :: l)

def AreComponents (cs : List String) : Prop :=
  ∀ c ∈ cs, c ≠ "" ∧ '/' ∉ c.toList

structure Addressable (l : Location) : Prop where
  short : l.text.utf8ByteSize ≤ pathLimit
  no_nul : hasNul l.text = false

variable {fs : FileSystem} {followLast : Bool}

theorem isDirectoryAt_of_clear {l : Location} (h : fs.obstacle? l = none) :
    fs.isDirectoryAt l = true := by
  unfold obstacle? at h
  unfold isDirectoryAt
  split at h <;> simp_all

theorem isDirectoryAt_iff {l : Location} :
    fs.isDirectoryAt l = true ↔ ∃ p, fs.node? l = some (.directory p) := by
  unfold isDirectoryAt
  split
  · next p hp => simp [hp]
  · next h =>
    constructor
    · intro e
      simp at e
    · intro hx
      obtain ⟨p, hp⟩ := hx
      exact absurd hp (h p)

theorem directory_of_leads {n : Nat} {l d : Location} {cs : List String}
    (h : fs.Leads followLast n l cs (.existing d)) (hd : fs.isDirectoryAt d = true) :
    fs.isDirectoryAt l = true := by
  cases h with
  | here => exact hd
  | dot ho _ => exact isDirectoryAt_of_clear ho
  | up ho _ => exact isDirectoryAt_of_clear ho
  | enter ht _ _ _ => exact isDirectoryAt_of_clear ht.clear
  | last ht _ _ => exact isDirectoryAt_of_clear ht.clear
  | link ht _ _ _ => exact isDirectoryAt_of_clear ht.clear

theorem areComponents_names (s : String) : AreComponents (Path.names s) := by
  intro c hc
  obtain ⟨hp, hne⟩ := List.mem_filter.mp hc
  exact ⟨by simpa using hne, Text.not_mem_pieces hp⟩

theorem AreComponents.append {cs ds : List String} (hc : AreComponents cs)
    (hd : AreComponents ds) : AreComponents (cs ++ ds) :=
  fun c h => (List.mem_append.mp h).elim (hc c) (hd c)

theorem AreComponents.tail {c : String} {cs : List String} (h : AreComponents (c :: cs)) :
    AreComponents cs :=
  fun d hd => h d (List.mem_cons_of_mem c hd)

theorem areComponents_componentsFrom (processDir path : String) :
    AreComponents (componentsFrom processDir path) := by
  unfold componentsFrom
  split
  · exact areComponents_names path
  · exact (areComponents_names processDir).append (areComponents_names path)

theorem Takes.isName {l : Location} {c : String} {cs : List String} (h : fs.Takes l c)
    (hc : AreComponents (c :: cs)) : IsName c := by
  obtain ⟨hne, hs⟩ := hc c List.mem_cons_self
  exact ⟨hne, hs, h.ne_dot, h.ne_dots⟩

theorem Way.proper {l : Location} (h : fs.Way l) : l.Proper := by
  induction h with
  | root => exact Location.proper_nil
  | entry hc _ _ _ ih => exact ih.cons hc

theorem Way.tail {l : Location} (h : fs.Way l) : fs.Way l.tail := by
  cases h with
  | root => exact .root
  | entry _ _ _ h => exact h

theorem Way.directory_of_suffix {l k : Location} (h : fs.Way l) (hl : fs.isDirectoryAt l = true)
    (hk : k <:+ l) : fs.isDirectoryAt k = true := by
  induction h with
  | root =>
    rw [List.suffix_nil] at hk
    exact hk ▸ hl
  | entry _ _ ho _ ih =>
    rcases List.suffix_cons_iff.mp hk with rfl | hk
    · exact hl
    · exact ih (isDirectoryAt_of_clear ho) hk

theorem Takes.way {l : Location} {c : String} {cs : List String} (h : fs.Takes l c)
    (hc : AreComponents (c :: cs)) (hl : fs.Way l) : fs.Way (c :: l) :=
  .entry (h.isName hc) h.short h.clear hl

theorem Way.linkStart {l : Location} (h : fs.Way l) (target : String) :
    fs.Way (linkStart l target) := by
  unfold FileSystem.linkStart
  split
  · exact .root
  · exact h

def Destination.place : Destination → Location
  | existing l => l
  | free directory name => name :: directory

theorem Way.of_leads {n : Nat} {l : Location} {e : Destination} {cs : List String} (hl : fs.Way l)
    (hc : AreComponents cs) (h : fs.Leads followLast n l cs e) : fs.Way e.place := by
  induction h with
  | here => exact hl
  | dot _ _ ih => exact ih hl hc.tail
  | up _ _ ih => exact ih hl.tail hc.tail
  | enter ht _ _ _ ih => exact ih (ht.way hc hl) hc.tail
  | free ht _ => exact ht.way hc hl
  | last ht _ _ => exact ht.way hc hl
  | link _ _ _ _ ih =>
    exact ih (hl.linkStart _) ((areComponents_names _).append hc.tail)

/-- The names of a directory on a way can be put before any walk that starts there. -/
theorem Way.leads_from_root {n : Nat} {l : Location} {e : Destination} {cs : List String}
    (hl : fs.Way l) (hd : fs.isDirectoryAt l = true) (h : fs.Leads followLast n l cs e) :
    fs.Leads followLast n [] (l.reverse ++ cs) e := by
  induction hl generalizing cs with
  | root => exact h
  | @entry c l hc hs ho _ ih =>
    obtain ⟨p, hp⟩ := isDirectoryAt_iff.mp hd
    have ht : fs.Takes l c := ⟨ho, hc.ne_dot, hc.ne_dots, hs⟩
    rw [List.reverse_cons, List.append_assoc]
    apply ih (isDirectoryAt_of_clear ho)
    exact .enter ht hp (by simp) h

/-- The names of a location on a way lead to it if something is there. A link must not be
followed. -/
theorem Way.leads_to {d : Location} {node : Node} (h : fs.Way d) (hn : fs.node? d = some node)
    (hf : ∀ target, node = .link target → followLast = false) :
    fs.Leads followLast 0 [] d.reverse (.existing d) := by
  cases h with
  | root => exact .here []
  | @entry c l hc hs ho hl =>
    have ht : fs.Takes l c := ⟨ho, hc.ne_dot, hc.ne_dots, hs⟩
    have hw : fs.Leads followLast 0 l [c] (.existing (c :: l)) := by
      cases node with
      | link target => exact .last ht hn (hf target rfl)
      | directory p => exact .enter ht hn (by simp) (.here _)
      | file p content program => exact .enter ht hn (by simp) (.here _)
    rw [List.reverse_cons]
    exact hl.leads_from_root (isDirectoryAt_of_clear ho) hw

theorem find_eq_ok_iff {processDir path : String} {e : Destination} :
    fs.find processDir path followLast = .ok e ↔
      path ≠ "" ∧ path.utf8ByteSize ≤ pathLimit ∧
      (∃ n ≤ linkLimit, fs.Leads (followLast || endsWithSlash path) n []
        (componentsFrom processDir path) e) ∧
      (endsWithSlash path = true → ∀ d, e = .existing d → fs.isDirectoryAt d = true) := by
  unfold find
  by_cases he : path = ""
  · simp [he]
  by_cases hs : pathLimit < path.utf8ByteSize
  · simp [he, hs, Nat.not_le.mpr hs]
  have hs := Nat.not_lt.mp hs
  rw [if_neg he, if_neg (Nat.not_lt.mpr hs), ← walk_eq_ok_iff]
  cases fs.walk (followLast || endsWithSlash path) linkLimit []
      (componentsFrom processDir path) with
  | error f => simp
  | ok r =>
    cases r with
    | free directory name =>
      constructor
      · intro h
        simp only [Except.ok.injEq] at h
        subst h
        exact ⟨he, hs, rfl, fun _ d hd => by simp at hd⟩
      · intro hx
        obtain ⟨-, -, h, -⟩ := hx
        exact h
    | existing l =>
      by_cases hd : endsWithSlash path = true ∧ fs.isDirectoryAt l = false
      · simp only [hd, Bool.not_false, Bool.and_true, if_true]
        constructor
        · intro h
          simp at h
        · intro hx
          obtain ⟨-, -, hl, hi⟩ := hx
          simp only [Except.ok.injEq] at hl
          simpa [hd.2] using hi trivial l hl.symm
      · have hc : (endsWithSlash path && !fs.isDirectoryAt l) = false := by
          simpa using hd
        simp only [hc, Bool.false_eq_true, if_false]
        constructor
        · intro h
          simp only [Except.ok.injEq] at h
          subst h
          refine ⟨he, hs, rfl, ?_⟩
          intro hslash d h
          cases h
          simpa [hslash] using hd
        · intro hx
          obtain ⟨-, -, h, -⟩ := hx
          exact h

theorem locate_of_nul {processDir path : String} (hn : hasNul path = true) :
    fs.locate processDir path followLast = .error .nulCharacter := by
  simp [locate, lookup, hn]

theorem locate_of_no_nul {processDir path : String} (hn : hasNul path = false) :
    fs.locate processDir path followLast = match fs.find processDir path followLast with
      | .ok (.existing l) => .ok l
      | .ok (.free _ _) => .error (.system .notFound path)
      | .error e => .error (.system e path) := by
  unfold locate lookup
  rw [hn]
  cases fs.find processDir path followLast with
  | error e => rfl
  | ok e => cases e <;> rfl

theorem locate_eq_ok_iff {processDir path : String} {d : Location} :
    fs.locate processDir path followLast = .ok d ↔
      hasNul path = false ∧ fs.find processDir path followLast = .ok (.existing d) := by
  by_cases hn : hasNul path = true
  · simp [locate_of_nul hn, hn]
  · have hn : hasNul path = false := by simpa using hn
    rw [locate_of_no_nul hn]
    cases fs.find processDir path followLast with
    | error e => simp
    | ok e => cases e <;> simp [hn]

theorem componentsFrom_text {l : Location} (h : l.Proper) (processDir : String) :
    componentsFrom processDir l.text = l.reverse := by
  rw [componentsFrom, if_pos (Location.startsAtRoot_text l), Location.names_text h]

theorem Way.locate_text {d : Location} {node : Node} (h : fs.Way d) (ha : Addressable d)
    (hn : fs.node? d = some node) (hf : ∀ target, node = .link target → followLast = false)
    (processDir : String) : fs.locate processDir d.text followLast = .ok d := by
  rw [locate_eq_ok_iff, find_eq_ok_iff, componentsFrom_text h.proper]
  refine ⟨ha.no_nul, Location.text_ne_empty d, ha.short, ?_⟩
  cases h with
  | root =>
    refine ⟨⟨0, Nat.zero_le _, .here []⟩, ?_⟩
    intro _ d h
    cases h
    rfl
  | @entry c l hc hs ho hl =>
    have he : endsWithSlash (Location.text (c :: l)) = false := by
      simpa [endsWithSlash] using Location.getLast?_text_ne_slash hc
    have hw := (Way.entry hc hs ho hl).leads_to hn hf
    rw [he, Bool.or_false]
    exact ⟨⟨0, Nat.zero_le _, hw⟩, by simp⟩

theorem leads_of_locate {processDir path : String} {d : Location}
    (h : fs.locate processDir path = .ok d) :
    ∃ n ≤ linkLimit, fs.Leads true n [] (componentsFrom processDir path) (.existing d) := by
  obtain ⟨-, hf⟩ := locate_eq_ok_iff.mp h
  obtain ⟨-, -, hw, -⟩ := find_eq_ok_iff.mp hf
  simpa using hw

theorem way_of_locate {processDir path : String} {d : Location}
    (h : fs.locate processDir path = .ok d) : fs.Way d := by
  obtain ⟨n, -, hw⟩ := leads_of_locate h
  exact Way.root.of_leads (areComponents_componentsFrom processDir path) hw

end CommandShell.FileSystem
