import CommandShell.Proofs.FileSystem.LocationText
import CommandShell.Proofs.Paths

/-! # Where a path leads by its text alone

Taken from the root, a name goes one further, `..` takes the last name away, and everything else
says nothing. Both normal forms of an absolute path spell the location that this gives, and neither
is longer than the path. -/
namespace CommandShell

namespace Text

theorem cut_append_cons (sep : Char) (cs ds : List Char) :
    cut sep (cs ++ sep :: ds) =
      ((cut sep cs).1, (cut sep cs).2 ++ (cut sep ds).1 :: (cut sep ds).2) := by
  induction cs with
  | nil => simp [cut]
  | cons c cs ih =>
    by_cases hc : c = sep
    · simp [cut, ih, hc]
    · simp [cut, ih, hc]

theorem pieces_append (sep : Char) (s t : String) :
    pieces sep (s ++ String.singleton sep ++ t) = pieces sep s ++ pieces sep t := by
  have hlist : (s ++ String.singleton sep ++ t).toList = s.toList ++ sep :: t.toList := by simp
  simp only [pieces, hlist, cut_append_cons, List.map_append, List.map_cons, List.cons_append]

end Text

namespace Path

theorem names_append (s t : String) : names (s ++ "/" ++ t) = names s ++ names t := by
  have hslash : "/" = String.singleton '/' := rfl
  rw [names, hslash, Text.pieces_append, List.filter_append]
  rfl

theorem names_slash (t : String) : names ("/" ++ t) = names t := by
  have h := names_append "" t
  rw [String.empty_append] at h
  exact h

def slashes (n : Nat) : String :=
  String.ofList (List.replicate n '/')

theorem slashes_succ (n : Nat) : slashes (n + 1) = "/" ++ slashes n := by
  apply String.toList_injective
  simp [slashes, List.replicate_succ]

theorem names_slashes (n : Nat) (t : String) : names (slashes n ++ t) = names t := by
  induction n with
  | zero => rw [slashes, List.replicate_zero, String.ofList_nil, String.empty_append]
  | succ n ih => rw [slashes_succ, String.append_assoc, names_slash, ih]

theorem utf8ByteSize_slashes (n : Nat) : (slashes n).utf8ByteSize = n := by
  induction n with
  | zero => rfl
  | succ n ih =>
    have hslash : "/".utf8ByteSize = 1 := rfl
    rw [slashes_succ, String.utf8ByteSize_append, hslash, ih, Nat.add_comm]

theorem names_rooted (n : Nat) (t : String) : names (slashes n ++ ("/" ++ t)) = names t := by
  rw [names_slashes, names_slash]

theorem utf8ByteSize_rooted (n : Nat) (t : String) :
    (slashes n ++ ("/" ++ t)).utf8ByteSize = n + 1 + t.utf8ByteSize := by
  have hslash : "/".utf8ByteSize = 1 := rfl
  rw [String.utf8ByteSize_append, String.utf8ByteSize_append, utf8ByteSize_slashes, hslash,
    Nat.add_assoc]

/-- The slashes that the normal forms of a path keep stand at its front. -/
theorem exists_rooted {path : String} (h : startsAtRoot path = true) : ∃ n rest,
    Posix.rootSlashes path.toList = n + 1 ∧ path = slashes n ++ ("/" ++ rest) := by
  obtain ⟨n, hn⟩ := Posix.rootSlashes_of_root (by simpa [startsAtRoot] using h)
  have hsplit : ∃ rest, path.toList = List.replicate n '/' ++ '/' :: rest := by
    unfold Posix.rootSlashes at hn
    split at hn
    · next htext =>
      obtain rfl : n = 0 := by omega
      exact ⟨_, htext⟩
    · next htext =>
      obtain rfl : n = 1 := by omega
      exact ⟨_, htext⟩
    · next htext =>
      obtain rfl : n = 0 := by omega
      exact ⟨_, htext⟩
    · omega
  obtain ⟨rest, hrest⟩ := hsplit
  refine ⟨n, String.ofList rest, hn, ?_⟩
  apply String.toList_injective
  simp [slashes, hrest]

theorem exists_endSlashes (s : String) : ∃ n, s = withoutEndSlashes s ++ slashes n := by
  refine ⟨(s.toList.reverse.takeWhile (· == '/')).length, ?_⟩
  have hall : s.toList.reverse.takeWhile (· == '/') =
      List.replicate (s.toList.reverse.takeWhile (· == '/')).length '/' := by
    apply List.eq_replicate_of_mem
    intro c hc
    simpa using List.all_eq_true.mp List.all_takeWhile c hc
  have hsplit := List.takeWhile_append_dropWhile (p := (· == '/')) (l := s.toList.reverse)
  rw [hall, ← List.reverse_inj, List.reverse_append, List.reverse_reverse,
    List.reverse_replicate] at hsplit
  apply String.toList_injective
  rw [String.toList_append, withoutEndSlashes, slashes, String.toList_ofList, String.toList_ofList,
    Text.dropEnd]
  exact hsplit.symm

theorem names_empty : names "" = [] := by simp [names, Text.pieces, Text.cut]

theorem names_withoutEndSlashes (s : String) : names (withoutEndSlashes s) = names s := by
  obtain ⟨n, hn⟩ := exists_endSlashes s
  cases n with
  | zero =>
    rw [slashes, List.replicate_zero, String.ofList_nil, String.append_empty] at hn
    rw [← hn]
  | succ n =>
    have hs : s = withoutEndSlashes s ++ "/" ++ (slashes n ++ "") := by
      rw [String.append_empty, String.append_assoc, ← slashes_succ]
      exact hn
    have hnames := congrArg names hs
    rw [names_append, names_slashes, names_empty, List.append_nil] at hnames
    exact hnames.symm

theorem endsWithSlash_append (s : String) {t : String} (h : t ≠ "") :
    FileSystem.endsWithSlash (s ++ t) = FileSystem.endsWithSlash t := by
  have hne : t.toList ≠ [] := by simpa using h
  rw [FileSystem.endsWithSlash, FileSystem.endsWithSlash, String.toList_append,
    List.getLast?_append, List.getLast?_eq_some_getLast hne]
  rfl

theorem names_join {dir s : String} (hd : startsAtRoot dir = true) (hs : startsAtRoot s = false) :
    names (Posix.join dir s) = names dir ++ names s := by
  have hne : dir ≠ "" := by
    rintro rfl
    simp [startsAtRoot] at hd
  by_cases hend : dir.toList.getLast? = some '/'
  · obtain ⟨front, hfront⟩ := List.getLast?_eq_some_iff.mp hend
    have hdir : dir = String.ofList front ++ "/" ++ "" := by
      apply String.toList_injective
      simp [hfront]
    have hjoin : Posix.join dir s = String.ofList front ++ "/" ++ s := by
      rw [Posix.join, if_neg (by simp [hs]), if_pos (.inr hend)]
      apply String.toList_injective
      simp [hfront]
    rw [hjoin, names_append, hdir, names_append, names_empty, List.append_nil]
  · rw [Posix.join, if_neg (by simp [hs]), if_neg (by simp [hne, hend]), names_append]

end Path

namespace Location

def move (l : Location) (c : String) : Location :=
  if c = "" ∨ c = "." then l else if c = ".." then l.tail else c :: l

/-- Where a path leads by its text alone, taken from the root. -/
def spelled (path : String) : Location :=
  (Path.names path).foldl move []

variable {l : Location} {cs : List String} {path : String}

theorem move_of_name {c : String} (h : IsName c) : move l c = c :: l := by
  simp [move, h.ne_empty, h.ne_dot, h.ne_dots]

theorem Proper.move (h : l.Proper) {c : String} (hc : '/' ∉ c.toList) :
    (Location.move l c).Proper := by
  unfold Location.move
  split
  · exact h
  · next hdot =>
    rw [not_or] at hdot
    split
    · exact fun d hd => h d (List.mem_of_mem_tail hd)
    · next hdots => exact h.cons ⟨hdot.1, hc, hdot.2, hdots⟩

theorem Proper.foldl_move (h : l.Proper) (hcs : ∀ c ∈ cs, '/' ∉ c.toList) :
    (cs.foldl Location.move l).Proper := by
  induction cs generalizing l with
  | nil => exact h
  | cons c cs ih =>
    exact ih (h.move (hcs c List.mem_cons_self)) fun d hd => hcs d (List.mem_cons_of_mem c hd)

theorem mem_foldl_move {c : String} (h : c ∈ cs.foldl move l) : c ∈ l ∨ c ∈ cs := by
  induction cs generalizing l with
  | nil => exact .inl h
  | cons d cs ih =>
    rcases ih h with hmove | hrest
    · unfold move at hmove
      split at hmove
      · exact .inl hmove
      split at hmove
      · exact .inl (List.mem_of_mem_tail hmove)
      · rcases List.mem_cons.mp hmove with rfl | hl
        · exact .inr List.mem_cons_self
        · exact .inl hl
    · exact .inr (List.mem_cons_of_mem d hrest)

theorem mem_names_of_mem_spelled {c : String} (h : c ∈ spelled path) : c ∈ Path.names path :=
  (mem_foldl_move h).resolve_left List.not_mem_nil

theorem no_slash_of_names {c : String} (h : c ∈ Path.names path) : '/' ∉ c.toList :=
  Text.not_mem_pieces (List.mem_filter.mp h).1

theorem proper_spelled (path : String) : (spelled path).Proper :=
  proper_nil.foldl_move fun _ hc => no_slash_of_names hc

end Location

namespace Path

variable {absolute : Bool} {root : Nat} {before : List String}

theorem dots_not_mem_step (h : ".." ∉ before) (c : String) : ".." ∉ step true before c := by
  cases before with
  | nil => by_cases hc : c = ".." <;> simp [step, hc, Ne.symm]
  | cons top rest =>
    rw [List.mem_cons, not_or] at h
    by_cases hc : c = ".."
    · simp [step, hc, Ne.symm h.1, h.2]
    · simp [step, hc, Ne.symm hc, h]

namespace Posix

/-- In an absolute path no `..` is left in front of a step, and then the two normal forms take the
same one. -/
theorem step_eq (h : root ≠ 0 → ".." ∉ before) (c : String) :
    step (root != 0) before c = if keeps root before c then c :: before else before.tail := by
  by_cases hc : c = ".."
  · cases before with
    | nil => by_cases hroot : root = 0 <;> simp [step, keeps, hc, hroot]
    | cons top rest =>
      by_cases htop : top = ".."
      · have hroot : root = 0 := by
          by_cases hroot : root = 0
          · exact hroot
          · exact absurd (htop ▸ List.mem_cons_self) (h hroot)
        simp [step, keeps, hc, htop, hroot]
      · simp [step, keeps, hc, htop]
  · cases before <;> simp [step, keeps, hc]

theorem simplified_eq_foldl (h : root ≠ 0 → ".." ∉ before) (cs : List String) :
    simplified root before cs =
      ((cs.filter (· ≠ "")).filter (· ≠ ".")).foldl (step (root != 0)) before := by
  induction cs generalizing before with
  | nil => rfl
  | cons c cs ih =>
    by_cases he : c = ""
    · rw [simplified, if_pos (.inl he), ih h, List.filter_cons_of_neg (by simp [he])]
    rw [List.filter_cons_of_pos (by simp [he])]
    by_cases hd : c = "."
    · rw [simplified, if_pos (.inr hd), ih h, List.filter_cons_of_neg (by simp [hd])]
    have hnext : root ≠ 0 → ".." ∉ step (root != 0) before c := by
      intro hroot
      have habs : (root != 0) = true := by simpa using hroot
      rw [habs]
      exact dots_not_mem_step (h hroot) c
    rw [List.filter_cons_of_pos (by simp [hd]), List.foldl_cons, ← ih hnext, step_eq h, simplified,
      if_neg (by simp [he, hd])]
    split <;> rfl

end Posix

end Path

namespace Location

variable {l : Location} {cs : List String} {path : String}

theorem foldl_step_eq (h : l.Proper) (hcs : ∀ c ∈ cs, c ≠ "" ∧ '/' ∉ c.toList) :
    (cs.filter (· ≠ ".")).foldl (Path.step true) l = cs.foldl move l := by
  induction cs generalizing l with
  | nil => rfl
  | cons c cs ih =>
    obtain ⟨he, hslash⟩ := hcs c List.mem_cons_self
    have htail : ∀ d ∈ cs, d ≠ "" ∧ '/' ∉ d.toList := fun d hd => hcs d (List.mem_cons_of_mem c hd)
    rw [List.foldl_cons, ← ih (h.move hslash) htail]
    by_cases hd : c = "."
    · subst hd
      rw [List.filter_cons_of_neg (by simp)]
      rfl
    rw [List.filter_cons_of_pos (by simpa using hd), List.foldl_cons]
    congr 1
    by_cases hdd : c = ".."
    · subst hdd
      cases l with
      | nil => rfl
      | cons top rest =>
        have htop := (h top List.mem_cons_self).ne_dots
        simp [Path.step, move, htop]
    · cases l <;> simp [Path.step, move, he, hd, hdd]

/-- Both normal forms take the components of an absolute path one by one, the empty ones apart. -/
theorem simplified_eq {root : Nat} (hroot : root ≠ 0) (h : l.Proper)
    (hcs : ∀ c ∈ cs, '/' ∉ c.toList) :
    Path.Posix.simplified root l cs = (cs.filter (· ≠ "")).foldl move l := by
  have hdots : ".." ∉ l := fun hmem => (h ".." hmem).ne_dots rfl
  have habs : (root != 0) = true := by simpa using hroot
  rw [Path.Posix.simplified_eq_foldl fun _ => hdots, habs, foldl_step_eq h]
  intro c hc
  obtain ⟨hmem, hne⟩ := List.mem_filter.mp hc
  exact ⟨by simpa using hne, hcs c hmem⟩

theorem tidy_eq (h : Path.startsAtRoot path = true) : Path.tidy path = (spelled path).text := by
  have hfold : ((Path.names path).filter (· ≠ ".")).foldl (Path.step true) [] = spelled path := by
    apply foldl_step_eq proper_nil
    intro c hc
    obtain ⟨hpiece, hne⟩ := List.mem_filter.mp hc
    exact ⟨by simpa using hne, Text.not_mem_pieces hpiece⟩
  rw [Path.tidy, Path.ofText, h, Path.reduced, hfold]
  rfl

/-- The POSIX form of a path is its text, after one more slash if exactly two start the path. -/
theorem exists_normal (h : Path.startsAtRoot path = true) :
    ∃ n rest, path = Path.slashes n ++ ("/" ++ rest) ∧
      Path.Posix.normal path = Path.slashes n ++ (spelled path).text := by
  obtain ⟨n, rest, hn, hpath⟩ := Path.exists_rooted h
  have hkept : Path.Posix.simplified (n + 1) [] (Text.pieces '/' path) = spelled path :=
    simplified_eq (Nat.succ_ne_zero n) proper_nil fun _ hc => Text.not_mem_pieces hc
  have htext : String.ofList (List.replicate (n + 1) '/') ++
      Text.joined "/" (spelled path).reverse = Path.slashes n ++ (spelled path).text := by
    apply String.toList_injective
    simp [Path.slashes, toList_text, List.replicate_succ']
  have hne : Path.slashes n ++ (spelled path).text ≠ "" := by
    intro he
    exact text_ne_empty _ (String.append_eq_empty_iff.mp he).2
  refine ⟨n, rest, hpath, ?_⟩
  simp only [Path.Posix.normal, hn, hkept, htext, hne, if_false]

theorem names_normal (h : Path.startsAtRoot path = true) :
    Path.names (Path.Posix.normal path) = (spelled path).reverse := by
  obtain ⟨n, rest, -, hnormal⟩ := exists_normal h
  rw [hnormal, Path.names_slashes, names_text (proper_spelled path)]

def weight : List String → Nat
  | [] => 0
  | c :: cs => c.utf8ByteSize + 1 + weight cs

theorem weight_cons (c : String) (cs : List String) :
    weight (c :: cs) = c.utf8ByteSize + 1 + weight cs := rfl

theorem weight_filter_le (p : String → Bool) (cs : List String) :
    weight (cs.filter p) ≤ weight cs := by
  induction cs with
  | nil => exact Nat.le_refl _
  | cons c cs ih =>
    rw [List.filter_cons, weight_cons]
    split
    · rw [weight_cons]
      omega
    · omega

theorem weight_move_le (l : Location) (c : String) :
    weight (move l c) ≤ c.utf8ByteSize + 1 + weight l := by
  unfold move
  split
  · omega
  split
  · cases l with
    | nil => simp [weight]
    | cons d l =>
      rw [List.tail_cons, weight_cons]
      omega
  · have hcons := weight_cons c l
    omega

theorem weight_foldl_move_le (l : Location) (cs : List String) :
    weight (cs.foldl move l) ≤ weight l + weight cs := by
  induction cs generalizing l with
  | nil => simp [weight]
  | cons c cs ih =>
    have hmove := weight_move_le l c
    have hrest := ih (move l c)
    rw [List.foldl_cons, weight_cons]
    omega

theorem weight_append (cs ds : List String) : weight (cs ++ ds) = weight cs + weight ds := by
  induction cs with
  | nil => exact (Nat.zero_add _).symm
  | cons c cs ih =>
    rw [List.cons_append, weight_cons, weight_cons, ih]
    omega

theorem weight_reverse (cs : List String) : weight cs.reverse = weight cs := by
  induction cs with
  | nil => rfl
  | cons c cs ih =>
    have hsingle : weight [c] = c.utf8ByteSize + 1 := rfl
    rw [List.reverse_cons, weight_append, hsingle, ih, weight_cons]
    omega

theorem utf8ByteSize_joined (c : String) (cs : List String) :
    (Text.joined "/" (c :: cs)).utf8ByteSize + 1 = weight (c :: cs) := by
  induction cs generalizing c with
  | nil => simp [Text.joined, weight]
  | cons d cs ih =>
    have hslash : "/".utf8ByteSize = 1 := rfl
    have hrest := ih d
    rw [Text.joined, String.utf8ByteSize_append, String.utf8ByteSize_append, weight_cons]
    omega

theorem weight_names_le (path : String) : weight (Path.names path) ≤ path.utf8ByteSize + 1 := by
  have hpieces : ∃ c cs, Text.pieces '/' path = c :: cs := ⟨_, _, rfl⟩
  obtain ⟨c, cs, hc⟩ := hpieces
  have hsize := utf8ByteSize_joined c cs
  rw [← hc] at hsize
  have hpath : Text.joined "/" (Text.pieces '/' path) = path := Text.joined_pieces '/' path
  rw [hpath] at hsize
  have hnames := weight_filter_le (· ≠ "") (Text.pieces '/' path)
  rw [Path.names]
  omega

theorem utf8ByteSize_text_le (l : Location) : l.text.utf8ByteSize ≤ max 1 (weight l) := by
  have htext : l.text = "/" ++ Text.joined "/" l.reverse := rfl
  have hslash : "/".utf8ByteSize = 1 := rfl
  rw [htext, String.utf8ByteSize_append, hslash, ← weight_reverse]
  cases l.reverse with
  | nil => exact Nat.le_max_left 1 _
  | cons c cs =>
    have hsize := utf8ByteSize_joined c cs
    omega

theorem utf8ByteSize_slashes_text_le {n : Nat} {rest : String}
    (h : path = Path.slashes n ++ ("/" ++ rest)) :
    n + (spelled path).text.utf8ByteSize ≤ path.utf8ByteSize := by
  have hnames : Path.names path = Path.names rest := by rw [h, Path.names_rooted]
  have hpath : path.utf8ByteSize = n + 1 + rest.utf8ByteSize := by
    rw [h, Path.utf8ByteSize_rooted]
  have htext := utf8ByteSize_text_le (spelled path)
  have hweight : weight (spelled path) ≤ rest.utf8ByteSize + 1 := by
    have hfold := weight_foldl_move_le [] (Path.names path)
    have hrest := weight_names_le rest
    rw [hnames] at hfold
    have hempty : weight [] = 0 := rfl
    rw [spelled, hnames]
    omega
  omega

theorem utf8ByteSize_spelled_le (h : Path.startsAtRoot path = true) :
    (spelled path).text.utf8ByteSize ≤ path.utf8ByteSize := by
  obtain ⟨n, rest, hpath, -⟩ := exists_normal h
  have hsize := utf8ByteSize_slashes_text_le hpath
  omega

theorem utf8ByteSize_normal_le (h : Path.startsAtRoot path = true) :
    (Path.Posix.normal path).utf8ByteSize ≤ path.utf8ByteSize := by
  obtain ⟨n, rest, hpath, hnormal⟩ := exists_normal h
  have hsize := utf8ByteSize_slashes_text_le hpath
  rw [hnormal, String.utf8ByteSize_append, Path.utf8ByteSize_slashes]
  exact hsize

end Location

end CommandShell
