import CommandShell.Proofs.FileSystem.Canonical
import CommandShell.Proofs.FileSystem.Spelled

/-! # Paths without dots

A path leads to the same place without its empty components and its dots, and it is not longer
then. -/
namespace CommandShell

open FileSystem (hasNul endsWithSlash pathLimit AreComponents)
open Location (weight)

namespace Path.Posix

def plainNames (path : String) : List String :=
  (names path).filter (· ≠ ".")

variable {path : String}

theorem compact_eq (path : String) : compact path =
    if slashes (rootSlashes path.toList) ++ Text.joined "/" (plainNames path) = "" then "."
    else slashes (rootSlashes path.toList) ++ Text.joined "/" (plainNames path) := by
  have hkept : ((Text.pieces '/' path).filter fun c => c ≠ "" ∧ c ≠ ".") = plainNames path := by
    rw [plainNames, names, List.filter_filter]
    apply List.filter_congr
    intro c _
    rw [Bool.decide_and, Bool.and_comm]
  rw [compact, hkept]
  rfl

theorem compact_ne_empty (path : String) : compact path ≠ "" := by
  rw [compact_eq]
  split
  · decide
  · next hne => exact hne

theorem areComponents_plainNames (path : String) : AreComponents (plainNames path) :=
  fun c hc => FileSystem.areComponents_names path c (List.mem_filter.mp hc).1

theorem names_joined {cs : List String} (h : AreComponents cs) :
    names (Text.joined "/" cs) = cs :=
  Text.filter_pieces_joined h

theorem not_endsWithSlash_joined {cs : List String} (h : AreComponents cs) :
    endsWithSlash (Text.joined "/" cs) = false := by
  rcases List.eq_nil_or_concat cs with rfl | ⟨front, c, rfl⟩
  · rfl
  · obtain ⟨hne, hslash⟩ := h c (by simp)
    obtain ⟨x, hx⟩ := Location.joined_concat front c
    have hjoined : Text.joined "/" (front ++ [c]) = String.ofList x ++ c := by
      apply String.toList_injective
      simp [hx]
    rw [List.concat_eq_append, hjoined, endsWithSlash_append _ hne]
    apply Bool.eq_false_iff.mpr
    intro hend
    simp only [endsWithSlash, beq_iff_eq] at hend
    exact hslash (List.mem_of_getLast? hend)

theorem joined_ne_empty {c : String} {cs : List String} (h : AreComponents (c :: cs)) :
    Text.joined "/" (c :: cs) ≠ "" := by
  intro he
  have hnames := names_joined h
  rw [he, names_empty] at hnames
  cases hnames

theorem startsAtRoot_joined {c : String} {cs : List String} (h : AreComponents (c :: cs)) :
    startsAtRoot (Text.joined "/" (c :: cs)) = false := by
  obtain ⟨hne, hslash⟩ := h c List.mem_cons_self
  obtain ⟨x, xs, hx⟩ := List.exists_cons_of_ne_nil (show c.toList ≠ [] by simpa using hne)
  have hxs : x ≠ '/' := by
    rintro rfl
    exact hslash (hx ▸ List.mem_cons_self)
  rw [startsAtRoot, Text.toList_joined_cons, hx]
  simpa using hxs

theorem rootSlashes_eq_zero (h : startsAtRoot path = false) : rootSlashes path.toList = 0 := by
  unfold rootSlashes
  split
  · next hlist => simp [startsAtRoot, hlist] at h
  · next hlist => simp [startsAtRoot, hlist] at h
  · next hlist => simp [startsAtRoot, hlist] at h
  · rfl

theorem rootSlashes_ne_zero (path : String) :
    (rootSlashes path.toList != 0) = startsAtRoot path := by
  cases h : startsAtRoot path with
  | true =>
    obtain ⟨n, -, hn, -⟩ := exists_rooted h
    simp [hn]
  | false => simp [rootSlashes_eq_zero h]

theorem written_eq {cs : List String} (h : AreComponents cs) (root : Nat) :
    (if slashes root ++ Text.joined "/" cs = "" then "." else slashes root ++ Text.joined "/" cs) =
      slashes (root - 1) ++ text ⟨root != 0, cs⟩ := by
  cases root with
  | zero =>
    have hslashes : slashes 0 = "" := rfl
    rw [Nat.zero_sub, hslashes, String.empty_append, String.empty_append]
    cases cs with
    | nil => rfl
    | cons c cs =>
      rw [if_neg (joined_ne_empty h)]
      rfl
  | succ n =>
    have hslashes : slashes (n + 1) = slashes n ++ "/" := by
      apply String.toList_injective
      simp [slashes, List.replicate_succ']
    have hne : slashes n ++ ("/" ++ Text.joined "/" cs) ≠ "" := by
      intro he
      simp [String.append_eq_empty_iff] at he
    rw [hslashes, String.append_assoc, if_neg hne, Nat.add_sub_cancel]
    rfl

theorem compact_eq_text (path : String) :
    compact path = slashes (rootSlashes path.toList - 1) ++ (ofText path).text := by
  rw [compact_eq, written_eq (areComponents_plainNames path), rootSlashes_ne_zero]
  rfl

theorem compact_absolute (h : startsAtRoot path = true) :
    ∃ n rest, path = slashes n ++ ("/" ++ rest) ∧
      compact path = slashes n ++ ("/" ++ Text.joined "/" (plainNames path)) := by
  obtain ⟨n, rest, hn, hpath⟩ := exists_rooted h
  have htext : (ofText path).text = "/" ++ Text.joined "/" (plainNames path) := if_pos h
  exact ⟨n, rest, hpath, by rw [compact_eq_text, hn, Nat.add_sub_cancel, htext]⟩

theorem compact_relative (h : startsAtRoot path = false) : compact path =
    if plainNames path = [] then "." else Text.joined "/" (plainNames path) := by
  have hslashes : slashes 0 = "" := rfl
  have htext : (ofText path).text =
      if plainNames path = [] then "." else Text.joined "/" (plainNames path) := by
    simp [text, ofText, h, plainNames]
  rw [compact_eq_text, rootSlashes_eq_zero h, Nat.zero_sub, hslashes, String.empty_append, htext]

theorem names_compact (path : String) : names (compact path) = plainNames path ∨
    (startsAtRoot path = false ∧ plainNames path = [] ∧ names (compact path) = ["."]) := by
  cases hroot : startsAtRoot path with
  | true =>
    obtain ⟨n, rest, -, hcompact⟩ := compact_absolute hroot
    rw [hcompact, names_rooted, names_joined (areComponents_plainNames path)]
    exact .inl rfl
  | false =>
    rw [compact_relative hroot]
    by_cases hplain : plainNames path = []
    · rw [if_pos hplain]
      exact .inr ⟨rfl, hplain, by decide⟩
    · rw [if_neg hplain, names_joined (areComponents_plainNames path)]
      exact .inl rfl

theorem startsAtRoot_compact (path : String) : startsAtRoot (compact path) = startsAtRoot path := by
  cases hroot : startsAtRoot path with
  | true =>
    obtain ⟨n, rest, -, hcompact⟩ := compact_absolute hroot
    rw [hcompact]
    cases n with
    | zero => simp [startsAtRoot, slashes]
    | succ n => simp [startsAtRoot, slashes, List.replicate_succ]
  | false =>
    rw [compact_relative hroot]
    split
    · rfl
    · next hplain =>
      obtain ⟨c, cs, hcs⟩ := List.exists_cons_of_ne_nil hplain
      rw [hcs]
      exact startsAtRoot_joined (hcs ▸ areComponents_plainNames path)

theorem utf8ByteSize_joined_le (path : String) :
    (Text.joined "/" (plainNames path)).utf8ByteSize ≤ weight (names path) - 1 := by
  have hfilter := Location.weight_filter_le (· ≠ ".") (names path)
  cases hplain : plainNames path with
  | nil => exact Nat.zero_le _
  | cons c cs =>
    have hsize := Location.utf8ByteSize_joined c cs
    rw [← hplain] at hsize ⊢
    rw [plainNames] at hsize ⊢
    omega

theorem utf8ByteSize_compact_le (h : path ≠ "") :
    (compact path).utf8ByteSize ≤ path.utf8ByteSize := by
  have hjoined := utf8ByteSize_joined_le path
  cases hroot : startsAtRoot path with
  | true =>
    obtain ⟨n, rest, hpath, hcompact⟩ := compact_absolute hroot
    have hnames : names path = names rest := by rw [hpath, names_rooted]
    have hrest := Location.weight_names_le rest
    have hsize : path.utf8ByteSize = n + 1 + rest.utf8ByteSize := by
      rw [hpath, utf8ByteSize_rooted]
    rw [hcompact, utf8ByteSize_rooted]
    rw [hnames] at hjoined
    omega
  | false =>
    have hsize := Location.weight_names_le path
    rw [compact_relative hroot]
    split
    · have hdot : ".".utf8ByteSize = 1 := rfl
      have hpos : path.utf8ByteSize ≠ 0 := by simpa using h
      omega
    · omega

theorem hasNul_compact (h : hasNul path = false) : hasNul (compact path) = false := by
  rw [compact_eq]
  split
  · rfl
  · refine hasNul_append_iff.mpr ⟨?_, Text.hasNul_joined (by decide) fun c hc => ?_⟩
    · rw [slashes, hasNul_ofList]
      intro hmem
      exact absurd (List.eq_of_mem_replicate hmem) (by decide)
    · exact Text.hasNul_of_mem_pieces h (List.mem_filter.mp (List.mem_filter.mp hc).1).1

theorem eq_nil_of_compact_endsWithSlash (h : endsWithSlash (compact path) = true) :
    names (compact path) = [] ∧ startsAtRoot (compact path) = true := by
  have hjoined := not_endsWithSlash_joined (areComponents_plainNames path)
  cases hroot : startsAtRoot path with
  | true =>
    obtain ⟨n, rest, -, hcompact⟩ := compact_absolute hroot
    refine ⟨?_, (startsAtRoot_compact path).trans hroot⟩
    rw [hcompact, names_rooted, names_joined (areComponents_plainNames path)]
    cases hplain : plainNames path with
    | nil => rfl
    | cons c cs =>
      have hne := joined_ne_empty (hplain ▸ areComponents_plainNames path)
      rw [hcompact, ← String.append_assoc, hplain, endsWithSlash_append _ hne, ← hplain,
        hjoined] at h
      cases h
  | false =>
    rw [compact_relative hroot] at h
    split at h
    · exact absurd h (by decide)
    · simp [hjoined] at h

end Path.Posix

namespace FileSystem

/-- Components of which some dots have been left out. -/
inductive Undotted : List String → List String → Prop where
  | nil : Undotted [] []
  | keep {cs ds} (c) : Undotted cs ds → Undotted (c :: cs) (c :: ds)
  | drop {c cs ds} : c = "." → Undotted cs ds → Undotted (c :: cs) ds

variable {fs : FileSystem} {processDir path : String} {cs ds : List String}

theorem undotted_filter (cs : List String) : Undotted cs (cs.filter (· ≠ ".")) := by
  induction cs with
  | nil => exact .nil
  | cons c cs ih =>
    by_cases hc : c = "."
    · rw [List.filter_cons_of_neg (by simpa using hc)]
      exact .drop hc ih
    · rw [List.filter_cons_of_pos (by simpa using hc)]
      exact .keep c ih

theorem Undotted.append (h : Undotted cs ds) (front : List String) :
    Undotted (front ++ cs) (front ++ ds) := by
  induction front with
  | nil => exact h
  | cons c front ih => exact .keep c ih

/-- A walk to a node gets there without the dots on its way. -/
theorem leads_undotted {n : Nat} {l d : Location} (h : fs.Leads true n l cs (.existing d))
    (k : Undotted cs ds) : fs.Leads true n l ds (.existing d) := by
  generalize he : Destination.existing d = e at h
  induction h generalizing ds with
  | here l =>
    cases k
    exact .here l
  | dot ho _ ih =>
    cases k with
    | keep _ k => exact .dot ho (ih k he)
    | drop _ k => exact ih k he
  | up ho _ ih =>
    cases k with
    | keep _ k => exact .up ho (ih k he)
    | drop hc _ => exact absurd hc (by decide)
  | enter ht hnode hlink _ ih =>
    cases k with
    | keep _ k => exact .enter ht hnode hlink (ih k he)
    | drop hc _ => exact absurd hc ht.ne_dot
  | free => cases he
  | last _ _ hf => cases hf
  | link ht hlink _ _ ih =>
    cases k with
    | keep _ k => exact .link ht hlink (fun _ => rfl) (ih (k.append _) he)
    | drop hc _ => exact absurd hc ht.ne_dot

theorem undotted_dot (hne : cs ≠ []) (h : cs.filter (· ≠ ".") = []) : Undotted cs ["."] := by
  obtain ⟨c, cs, rfl⟩ := List.exists_cons_of_ne_nil hne
  have hall : ∀ d ∈ c :: cs, d = "." := by simpa using h
  have hc : c = "." := hall c List.mem_cons_self
  have hrest : cs.filter (· ≠ ".") = [] := by
    simpa using fun d hd => hall d (List.mem_cons_of_mem c hd)
  rw [hc]
  exact .keep "." (hrest ▸ undotted_filter cs)

theorem names_ne_nil (hroot : Path.startsAtRoot path = false) (hne : path ≠ "") :
    Path.names path ≠ [] := by
  obtain ⟨x, xs, hx⟩ := List.exists_cons_of_ne_nil (show path.toList ≠ [] by simpa using hne)
  have hslash : x ≠ '/' := by
    rintro rfl
    simp [Path.startsAtRoot, hx] at hroot
  simp [Path.names, Text.pieces, hx, Text.cut, hslash]

theorem undotted_compact (hne : path ≠ "") :
    Undotted (Path.names path) (Path.names (Path.Posix.compact path)) := by
  rcases Path.Posix.names_compact path with hnames | ⟨hroot, hplain, hnames⟩
  · rw [hnames]
    exact undotted_filter _
  · rw [hnames]
    exact undotted_dot (names_ne_nil hroot hne) hplain

/-- What a path leads to is found without its dots and empty components, too. -/
theorem locate_compact {l : Location} (h : fs.locate processDir path = .ok l) :
    fs.locate processDir (Path.Posix.compact path) = .ok l := by
  obtain ⟨hnul, hfind⟩ := locate_eq_ok_iff.mp h
  obtain ⟨hne, hshort, ⟨n, hn, walk⟩, -⟩ := find_eq_ok_iff.mp hfind
  have hsize := Path.Posix.utf8ByteSize_compact_le hne
  have hroot := Path.Posix.startsAtRoot_compact path
  have hundotted : Undotted (componentsFrom processDir path)
      (componentsFrom processDir (Path.Posix.compact path)) := by
    rw [componentsFrom, componentsFrom, hroot]
    split
    · exact undotted_compact hne
    · exact (undotted_compact hne).append _
  have hwalk := leads_undotted (by simpa using walk) hundotted
  rw [locate_eq_ok_iff, find_eq_ok_iff]
  refine ⟨Path.Posix.hasNul_compact hnul, ?_, by omega, ⟨n, hn, by simpa using hwalk⟩, ?_⟩
  · exact Path.Posix.compact_ne_empty path
  · intro hend d hd
    cases hd
    obtain ⟨hnames, hstart⟩ := Path.Posix.eq_nil_of_compact_endsWithSlash hend
    rw [componentsFrom, if_pos hstart, hnames] at hwalk
    cases hwalk
    exact isDirectoryAt_iff.mpr ⟨_, node?_root fs⟩

end FileSystem

end CommandShell
