import CommandShell.FileSystem
import CommandShell.Proofs.FileSystem.Canonical

/-! # The real path of a directory

Resolving a path by its text takes the same way as looking it up, if the path leads to a directory.
Only a location whose text has the character zero ends it before: that text is not looked up.
The links seen so far carry the invariant: a link that is resolved has the trail of the location it
leads to, and one that is still being resolved needs at least as many links as the walk that is
left, so it is never met again. -/
namespace CommandShell.FileSystem

structure Nameable (fs : FileSystem) : Prop where
  directory : ∀ l p, fs.node? l = some (.directory p) → Addressable l
  link : ∀ l target, fs.node? l = some (.link target) → Addressable l

structure Short (fs : FileSystem) : Prop where
  directory : ∀ l p, fs.node? l = some (.directory p) → l.text.utf8ByteSize ≤ pathLimit
  link : ∀ l target, fs.node? l = some (.link target) → l.text.utf8ByteSize ≤ pathLimit

structure StopsAtNul (fs : FileSystem) (r : Except Fault α) : Prop where
  fault : r = .error .nulCharacter
  spelled : ∃ l, hasNul l.text = true ∧
    (fs.isDirectoryAt l = true ∨ ∃ target, fs.node? l = some (.link target))

/-- Following the link whose location has a text takes some links more and leads to a location. -/
inductive Resolves (fs : FileSystem) : String → Nat → Location → Prop where
  | intro {c l target n d} : fs.Way (c :: l) → fs.node? (c :: l) = some (.link target) →
      fs.Leads true n (linkStart l target) (Path.names target) (.existing d) →
      Resolves fs (Location.text (c :: l)) n d

/-- What the links seen so far say while a walk with a number of links is left. -/
structure Seen (fs : FileSystem) (left : Nat) (seen : LinksSeen) : Prop where
  known : ∀ key t, seen.get? key = some (some t) → ∃ n d, fs.Resolves key n d ∧ t = ⟨true, d⟩
  pending : ∀ key, seen.get? key = some none → ∃ n d, fs.Resolves key n d ∧ left ≤ n

def Finishes (before after : LinksSeen) : Prop :=
  ∀ key, after.get? key = some none → before.get? key = some none

/-- A way to resolve paths takes the walks to directories that follow fewer links than a bound. -/
def Follows (fs : FileSystem) (bound : Nat)
    (resolve : LinksSeen → Trail → String → Except Fault (Resolution × LinksSeen)) : Prop :=
  ∀ seen t path l n d, fs.Seen n seen → fs.Way l →
    (if Path.startsAtRoot path then ⟨true, []⟩ else t) = (⟨true, l⟩ : Trail) → n < bound →
    fs.Leads true n l (Path.names path) (.existing d) → fs.isDirectoryAt d = true →
    (∃ after, resolve seen t path = .ok (.resolved ⟨true, d⟩, after) ∧
      fs.Seen n after ∧ Finishes seen after) ∨ fs.StopsAtNul (resolve seen t path)

variable {fs : FileSystem} {processDir : String}

theorem Nameable.short (hfs : fs.Nameable) : fs.Short :=
  ⟨fun l p hp => (hfs.directory l p hp).short, fun l target hl => (hfs.link l target hl).short⟩

theorem Nameable.not_stopsAtNul {r : Except Fault α} (hfs : fs.Nameable) : ¬ fs.StopsAtNul r := by
  intro h
  obtain ⟨l, hnul, hdir | hlink⟩ := h.spelled
  · obtain ⟨p, hp⟩ := isDirectoryAt_iff.mp hdir
    simp [(hfs.directory l p hp).no_nul] at hnul
  · obtain ⟨target, htarget⟩ := hlink
    simp [(hfs.link l target htarget).no_nul] at hnul

theorem StopsAtNul.of_error {r : Except Fault α} {r' : Except Fault β} (h : fs.StopsAtNul r)
    (hr : ∀ f, r = .error f → r' = .error f) : fs.StopsAtNul r' :=
  ⟨hr _ h.fault, h.spelled⟩

theorem Resolves.unique {key : String} {n m : Nat} {d e : Location} (h : fs.Resolves key n d)
    (k : fs.Resolves key m e) : n = m ∧ d = e := by
  cases h with
  | @intro c l target _ _ hw hn hl =>
    generalize hkey : Location.text (c :: l) = text at k
    cases k with
    | @intro c' l' target' _ _ kw kn kl =>
      obtain ⟨rfl, rfl⟩ := List.cons.inj (Location.text_injective hw.proper kw.proper hkey)
      rw [hn] at kn
      cases kn
      obtain ⟨rfl, he⟩ := leads_unique hl kl
      exact ⟨rfl, Destination.existing.inj he⟩

theorem linkText?_of_nul {path : String} (h : hasNul path = true) :
    fs.linkText? processDir path = .error .nulCharacter := by
  simp [linkText?, locate_of_nul h]

theorem linkText?_link {d : Location} {target : String} (hfs : fs.Short) (h : fs.Way d)
    (hn : fs.node? d = some (.link target)) (processDir : String) :
    fs.linkText? processDir d.text = .ok (some target) ∨
      fs.StopsAtNul (fs.linkText? processDir d.text) := by
  by_cases hnul : hasNul d.text = true
  · exact .inr ⟨linkText?_of_nul hnul, d, hnul, .inr ⟨target, hn⟩⟩
  · have ha : Addressable d := ⟨hfs.link d target hn, by simpa using hnul⟩
    have hl := h.locate_text ha hn (fun _ _ => rfl) processDir
    exact .inl (by simp [linkText?, hl, hn])

theorem linkText?_directory {d : Location} (hfs : fs.Short) (h : fs.Way d)
    (hd : fs.isDirectoryAt d = true) (processDir : String) :
    fs.linkText? processDir d.text = .ok none ∨
      fs.StopsAtNul (fs.linkText? processDir d.text) := by
  by_cases hnul : hasNul d.text = true
  · exact .inr ⟨linkText?_of_nul hnul, d, hnul, .inl hd⟩
  · obtain ⟨p, hp⟩ := isDirectoryAt_iff.mp hd
    have ha : Addressable d := ⟨hfs.directory d p hp, by simpa using hnul⟩
    have hl : fs.locate processDir d.text false = .ok d :=
      h.locate_text ha hp (fun _ _ => rfl) processDir
    exact .inl (by simp [linkText?, hl, hp])

theorem Seen.empty (left : Nat) : fs.Seen left [] :=
  ⟨fun _ _ h => by simp [Table.get?] at h, fun _ h => by simp [Table.get?] at h⟩

theorem Seen.mono {n m : Nat} {seen : LinksSeen} (h : fs.Seen n seen) (hm : m ≤ n) :
    fs.Seen m seen := by
  refine ⟨h.known, ?_⟩
  intro key hk
  obtain ⟨k, d, hr, hn⟩ := h.pending key hk
  exact ⟨k, d, hr, Nat.le_trans hm hn⟩

theorem Seen.finish {n m : Nat} {seen after : LinksSeen} (h : fs.Seen n seen)
    (ha : fs.Seen m after) (hf : Finishes seen after) : fs.Seen n after :=
  ⟨ha.known, fun key hk => h.pending key (hf key hk)⟩

theorem Seen.begin {key : String} {n a : Nat} {d : Location} {seen : LinksSeen}
    (h : fs.Seen n seen) (hr : fs.Resolves key a d) (ha : a ≤ n) :
    fs.Seen a ((key, none) :: seen) := by
  constructor
  · intro k t hk
    by_cases he : key = k
    · simp [Table.get?, he] at hk
    · exact h.known k t (by simpa [Table.get?, he] using hk)
  · intro k hk
    by_cases he : key = k
    · exact ⟨a, d, he ▸ hr, Nat.le_refl a⟩
    · exact (h.mono ha).pending k (by simpa [Table.get?, he] using hk)

theorem Finishes.after_link {key : String} {t : Trail} {seen after : LinksSeen}
    (h : Finishes ((key, none) :: seen) after) : Finishes seen ((key, some t) :: after) := by
  intro k hk
  by_cases he : key = k
  · simp [Table.get?, he] at hk
  · have hs := h k (by simpa [Table.get?, he] using hk)
    simpa [Table.get?, he] using hs

theorem Seen.known_link {key : String} {n a : Nat} {d : Location} {seen : LinksSeen}
    (h : fs.Seen n seen) (hr : fs.Resolves key a d) :
    fs.Seen n ((key, some ⟨true, d⟩) :: seen) := by
  constructor
  · intro k t hk
    by_cases he : key = k
    · refine ⟨a, d, he ▸ hr, ?_⟩
      simpa [Table.get?, he, eq_comm] using hk
    · exact h.known k t (by simpa [Table.get?, he] using hk)
  · intro k hk
    by_cases he : key = k
    · simp [Table.get?, he] at hk
    · exact h.pending k (by simpa [Table.get?, he] using hk)

theorem Finishes.trans {a b c : LinksSeen} (h : Finishes a b) (k : Finishes b c) : Finishes a c :=
  fun key hk => h key (k key hk)

variable {resolveLink : LinksSeen → Trail → String → Except Fault (Resolution × LinksSeen)}

theorem along_skip {c : String} (h : c = "" ∨ c = ".") (seen : LinksSeen) (t : Trail)
    (rest : List String) : fs.along processDir resolveLink seen t (c :: rest) =
      fs.along processDir resolveLink seen t rest := by
  rw [along, if_pos h]

theorem along_up (seen : LinksSeen) {l : Location} (hl : l.Proper) (rest : List String) :
    fs.along processDir resolveLink seen ⟨true, l⟩ (".." :: rest) =
      fs.along processDir resolveLink seen ⟨true, l.tail⟩ rest := by
  have ht : Trail.leave ⟨true, l⟩ = ⟨true, l.tail⟩ := by
    cases l with
    | nil => rfl
    | cons c l =>
      have hc := (hl c List.mem_cons_self).ne_dots
      simp [Trail.leave, Path.step, hc]
  rw [along, if_neg (by decide), if_pos rfl, ht]

theorem along_name {c : String} (hc : IsName c) (seen : LinksSeen) (l : Location)
    (rest : List String) : fs.along processDir resolveLink seen ⟨true, l⟩ (c :: rest) =
      match fs.linkText? processDir (Location.text (c :: l)) with
      | .error f => .error f
      | .ok none => fs.along processDir resolveLink seen ⟨true, c :: l⟩ rest
      | .ok (some target) =>
        match seen.get? (Location.text (c :: l)) with
        | some (some known) => fs.along processDir resolveLink seen known rest
        | some none => .ok (.looping (Path.Posix.join (Location.text (c :: l))
            (Text.joined "/" rest)), seen)
        | none =>
          match resolveLink ((Location.text (c :: l), none) :: seen) ⟨true, l⟩ target with
          | .error f => .error f
          | .ok (.looping s, seen) =>
            .ok (.looping (Path.Posix.join s (Text.joined "/" rest)), seen)
          | .ok (.resolved known, seen) =>
            fs.along processDir resolveLink ((Location.text (c :: l), some known) :: seen) known
              rest := by
  have hd : ¬ (c = "" ∨ c = ".") := by simp [hc.ne_empty, hc.ne_dot]
  rw [along, if_neg hd, if_neg hc.ne_dots]
  rfl

theorem along_stops {c : String} (hc : IsName c) {seen : LinksSeen} {l : Location}
    (h : fs.StopsAtNul (fs.linkText? processDir (Location.text (c :: l)))) (rest : List String) :
    fs.StopsAtNul (fs.along processDir resolveLink seen ⟨true, l⟩ (c :: rest)) := by
  apply h.of_error
  intro f hf
  rw [along_name hc, hf]

/-- One link of a walk is resolved to the location that it leads to, from the links seen so far or
by following it. -/
theorem along_link {bound a n : Nat} {seen : LinksSeen} {l m : Location} {c target : String}
    (hfs : fs.Short) (hr : fs.Follows bound resolveLink) (hs : fs.Seen n seen)
    (hway : fs.Way (c :: l)) (hc : IsName c) (htarget : fs.node? (c :: l) = some (.link target))
    (ha : fs.Leads true a (linkStart l target) (Path.names target) (.existing m))
    (hm : fs.isDirectoryAt m = true) (han : a < n) (hn : n ≤ bound) (rest : List String) :
    (∃ after, fs.along processDir resolveLink seen ⟨true, l⟩ (c :: rest) =
        fs.along processDir resolveLink after ⟨true, m⟩ rest ∧
      fs.Seen n after ∧ Finishes seen after) ∨
    fs.StopsAtNul (fs.along processDir resolveLink seen ⟨true, l⟩ (c :: rest)) := by
  have hres : fs.Resolves (Location.text (c :: l)) a m := .intro hway htarget ha
  rcases (linkText?_link hfs hway htarget processDir).symm with hnul | htext
  · exact .inr (along_stops hc hnul rest)
  rw [along_name hc, htext]
  cases hk : seen.get? (Location.text (c :: l)) with
  | some known =>
    cases known with
    | some t =>
      -- The link was resolved before; its trail is that of the location after it.
      obtain ⟨a', m', hres', rfl⟩ := hs.known _ t hk
      obtain ⟨-, rfl⟩ := hres.unique hres'
      exact .inl ⟨seen, rfl, hs, fun _ hp => hp⟩
    | none =>
      -- A link that is being resolved needs more links than it took to come back to it.
      obtain ⟨a', m', hres', hle⟩ := hs.pending _ hk
      obtain ⟨rfl, -⟩ := hres.unique hres'
      omega
  | none =>
    have hl : fs.Way l := hway.tail
    have hstart : (if Path.startsAtRoot target then ⟨true, []⟩ else ⟨true, l⟩) =
        (⟨true, linkStart l target⟩ : Trail) := by
      unfold linkStart
      split
      · rfl
      · rfl
    rcases hr _ ⟨true, l⟩ target (linkStart l target) a m (hs.begin hres (by omega))
      (hl.linkStart target) hstart (by omega) ha hm with ⟨after, hrun, hafter, hfin⟩ | hnul
    · have hlink : Finishes seen ((Location.text (c :: l), some ⟨true, m⟩) :: after) :=
        hfin.after_link
      refine .inl ⟨_, ?_, hs.finish (hafter.known_link hres) hlink, hlink⟩
      simp only [hrun]
    · right
      apply hnul.of_error
      intro f hf
      simp only [hf]

/-- A walk to a directory is taken piece by piece; what is left of it after a link follows fewer
links. -/
theorem along_of_leads {bound n : Nat} {seen : LinksSeen} {l d : Location} {ps : List String}
    (hfs : fs.Short) (hr : fs.Follows bound resolveLink) (hp : ∀ p ∈ ps, '/' ∉ p.toList)
    (hs : fs.Seen n seen) (hl : fs.Way l) (hn : n ≤ bound) (hd : fs.isDirectoryAt d = true)
    (h : fs.Leads true n l (ps.filter (· ≠ "")) (.existing d)) :
    (∃ after, fs.along processDir resolveLink seen ⟨true, l⟩ ps =
        .ok (.resolved ⟨true, d⟩, after) ∧ fs.Seen n after ∧ Finishes seen after) ∨
    fs.StopsAtNul (fs.along processDir resolveLink seen ⟨true, l⟩ ps) := by
  induction ps generalizing n seen l with
  | nil =>
    cases h
    exact .inl ⟨seen, rfl, hs, fun _ hk => hk⟩
  | cons p ps ih =>
    have hps : ∀ q ∈ ps, '/' ∉ q.toList := fun q hq => hp q (List.mem_cons_of_mem p hq)
    by_cases he : p = ""
    · subst he
      rw [along_skip (.inl rfl)]
      exact ih hps hs hl hn (by simpa using h)
    rw [List.filter_cons_of_pos (by simpa using he)] at h
    have hc : AreComponents (p :: ps.filter (· ≠ "")) := by
      intro c hc
      rcases List.mem_cons.mp hc with rfl | hc
      · exact ⟨he, hp c List.mem_cons_self⟩
      · obtain ⟨hm, hne⟩ := List.mem_filter.mp hc
        exact ⟨by simpa using hne, hps c hm⟩
    generalize hcs : ps.filter (· ≠ "") = cs at h hc
    cases h with
    | dot _ hw =>
      rw [along_skip (.inr rfl)]
      exact ih hps hs hl hn (hcs ▸ hw)
    | up _ hw =>
      rw [along_up seen hl.proper]
      exact ih hps hs hl.tail hn (hcs ▸ hw)
    | enter ht _ _ hw =>
      have hway := ht.way hc hl
      rcases linkText?_directory hfs hway (directory_of_leads hw hd) processDir with htext | hnul
      · rw [along_name (ht.isName hc), htext]
        exact ih hps hs hway hn (hcs ▸ hw)
      · exact .inr (along_stops (ht.isName hc) hnul ps)
    | last _ _ hf => simp at hf
    | @link n _ _ _ _ target ht htarget _ hw =>
      obtain ⟨a, b, m, hab, ha, hb⟩ := leads_split hw
      have hm : fs.Way m := (hl.linkStart target).of_leads (areComponents_names target) ha
      rcases along_link hfs hr hs (ht.way hc hl) (ht.isName hc) htarget ha
        (directory_of_leads hb hd) (by omega) hn ps with ⟨after, hrun, hafter, hfin⟩ | hnul
      · rw [hrun]
        refine (ih hps (hafter.mono (by omega)) hm (by omega) (hcs ▸ hb)).imp_left ?_
        intro hx
        obtain ⟨last, hrest, hlast, hfin'⟩ := hx
        exact ⟨last, hrest, hafter.finish hlast hfin', hfin.trans hfin'⟩
      · exact .inr hnul

theorem resolveFrom_follows (hfs : fs.Short) (processDir : String) (depth : Nat) :
    fs.Follows depth (fs.resolveFrom processDir depth) := by
  induction depth with
  | zero =>
    intro seen t path l n d _ _ _ hn
    omega
  | succ depth ih =>
    intro seen t path l n d hs hl ht hn hw hd
    have hp : ∀ p ∈ Text.pieces '/' path, '/' ∉ p.toList := fun p hp => Text.not_mem_pieces hp
    rw [resolveFrom, ht]
    exact along_of_leads hfs ih hp hs hl (by omega) hd hw

/-- The real path of an absolute path that leads to a directory is the text of the directory's
location, if the search for links comes to an end. -/
theorem realPath_cases {path : String} {d : Location} (hfs : fs.Short)
    (hp : Path.startsAtRoot path = true) (h : fs.locate processDir path = .ok d)
    (hd : fs.isDirectoryAt d = true) :
    fs.realPath processDir path = .ok d.text ∨ fs.StopsAtNul (fs.realPath processDir path) := by
  obtain ⟨n, hn, hw⟩ := leads_of_locate h
  rw [componentsFrom, if_pos hp] at hw
  rcases resolveFrom_follows hfs processDir nestingLimit [] ⟨false, []⟩ path [] n d (.empty n)
    .root (by simp [hp]) (Nat.lt_of_le_of_lt hn (by decide)) hw hd with ⟨after, hrun, -, -⟩ | hnul
  · left
    have hj : Path.Posix.join processDir d.text = d.text := by
      rw [Path.Posix.join, if_pos (Location.startsAtRoot_text d)]
    have ht : Trail.text ⟨true, d⟩ = d.text := rfl
    simp [realPath, hrun, bind, Except.bind, pure, Except.pure, ht, hj,
      Location.normal_text (way_of_locate h).proper]
  · right
    apply hnul.of_error
    intro f hf
    simp [realPath, hf, bind, Except.bind]

/-- The real path of an absolute path that leads to a directory is the text of the directory's
location. -/
theorem realPath_of_locate {path : String} {d : Location} (hfs : fs.Nameable)
    (hp : Path.startsAtRoot path = true) (h : fs.locate processDir path = .ok d)
    (hd : fs.isDirectoryAt d = true) : fs.realPath processDir path = .ok d.text :=
  (realPath_cases hfs.short hp h hd).resolve_right hfs.not_stopsAtNul

end CommandShell.FileSystem
