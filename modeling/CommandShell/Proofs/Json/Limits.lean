import Mathlib.Data.List.TakeWhile
import CommandShell.Json.Reader

/-! # The limits of the reader

The reader gives up on a text for its size in two cases only: an integer has more digits than the
limit allows, or lists and objects are nested deeper than that. A text without so many digits in a
row and without so many opening brackets is read, or complained about at one of its places; the
number of calls that the reader is given never comes to an end. -/
namespace CommandShell.Json

def LongDigits (cs : List Char) : Prop :=
  ∃ ds, ds <:+: cs ∧ (∀ c ∈ ds, isDigit c = true) ∧ Integer.digitLimit < ds.length

/-- The brackets that may open a list or an object; within a string they open nothing, and count
too. -/
def openings (cs : List Char) : Nat :=
  cs.countP fun c => c == '[' || c == '\x7b'

/-- What a reader may do with a text: it leaves the end of it, and gives up for its size only where
the text has that size. -/
structure Halts (depth : Nat) (cs : List Char) (res : Except Halt (α × List Char)) : Prop where
  left : ∀ a rest, res = .ok (a, rest) → rest <:+ cs
  digits : res = .error .tooManyDigits → LongDigits cs
  depth : res = .error .tooDeep → depth < openings cs

variable {α β : Type} {depth : Nat} {cs ds rest : List Char}

theorem LongDigits.of_suffix (h : LongDigits cs) (hs : cs <:+ ds) : LongDigits ds := by
  obtain ⟨run, hrun, hdigits, hlong⟩ := h
  exact ⟨run, hrun.trans hs.isInfix, hdigits, hlong⟩

theorem openings_le_of_suffix (hs : cs <:+ ds) : openings cs ≤ openings ds :=
  hs.sublist.countP_le

theorem openings_bracket {c : Char} (hc : c = '[' ∨ c = '\x7b') (cs : List Char) :
    openings (c :: cs) = openings cs + 1 := by
  rw [openings, List.countP_cons_of_pos (by simpa using hc), openings]

namespace Halts

variable {res : Except Halt (α × List Char)}

theorem ok {a : α} (h : rest <:+ cs) : Halts depth cs (.ok (a, rest)) where
  left _ _ he := by
    cases he
    exact h
  digits he := by cases he
  depth he := by cases he

theorem complaint (what : Complaint) (at_ : List Char) :
    Halts depth cs (.error (.complaint what at_) : Except Halt (α × List Char)) where
  left _ _ he := by cases he
  digits he := by cases he
  depth he := by cases he

theorem tooManyDigits (h : LongDigits cs) :
    Halts depth cs (.error .tooManyDigits : Except Halt (α × List Char)) where
  left _ _ he := by cases he
  digits _ := h
  depth he := by cases he

theorem tooDeep (h : depth < openings cs) :
    Halts depth cs (.error .tooDeep : Except Halt (α × List Char)) where
  left _ _ he := by cases he
  digits he := by cases he
  depth _ := h

theorem of_suffix (h : Halts depth cs res) (hs : cs <:+ ds) : Halts depth ds res where
  left a rest he := (h.left a rest he).trans hs
  digits he := (h.digits he).of_suffix hs
  depth he := Nat.lt_of_lt_of_le (h.depth he) (openings_le_of_suffix hs)

theorem opened {c : Char} (hc : c = '[' ∨ c = '\x7b') (h : Halts depth cs res) :
    Halts (depth + 1) (c :: cs) res where
  left a rest he := (h.left a rest he).trans (List.suffix_cons c cs)
  digits he := (h.digits he).of_suffix (List.suffix_cons c cs)
  depth he := by
    rw [openings_bracket hc]
    exact Nat.add_lt_add_right (h.depth he) 1

theorem error {e : Halt} (h : Halts depth cs (.error e : Except Halt (α × List Char))) :
    Halts depth cs (.error e : Except Halt (β × List Char)) where
  left _ _ he := by cases he
  digits he := by
    cases he
    exact h.digits rfl
  depth he := by
    cases he
    exact h.depth rfl

theorem map (h : Halts depth cs res) (f : α → β) :
    Halts depth cs (res.map fun (a, rest) => (f a, rest)) := by
  cases res with
  | ok p => exact .ok (h.left p.1 p.2 rfl)
  | error e => exact h.error

theorem bind {f : α × List Char → Except Halt (β × List Char)} (h : Halts depth cs res)
    (next : ∀ a rest, rest <:+ cs → Halts depth cs (f (a, rest))) :
    Halts depth cs (res >>= f) := by
  cases res with
  | ok p => exact next p.1 p.2 (h.left p.1 p.2 rfl)
  | error e => exact h.error

end Halts

theorem stringUnits_halts (opening cs : List Char) :
    Halts depth cs (stringUnits opening cs) := by
  fun_induction stringUnits opening cs with
  | case1 => exact .complaint _ _
  | case2 r => exact .ok (List.suffix_cons _ r)
  | case3 => exact .complaint _ _
  | case4 => exact .complaint _ _
  | case5 a b c d e r n hn ih =>
    have hs : e :: r <:+ '\\' :: 'u' :: a :: b :: c :: d :: e :: r :=
      ⟨['\\', 'u', a, b, c, d], rfl⟩
    exact (ih.map _).of_suffix hs
  | case6 => exact .complaint _ _
  | case7 => exact .complaint _ _
  | case8 c r _ _ x _ ih =>
    have hs : r <:+ '\\' :: c :: r := ⟨['\\', c], rfl⟩
    exact (ih.map _).of_suffix hs
  | case9 => exact .complaint _ _
  | case10 c r _ _ _ _ _ _ ih => exact (ih.map _).of_suffix (List.suffix_cons c r)

theorem string_halts (opening cs : List Char) : Halts depth cs (string opening cs) :=
  (stringUnits_halts opening cs).map fun ns => String.ofList (characters ns)

theorem afterWord?_suffix {w : List Char} (h : afterWord? w cs = some rest) : rest <:+ cs := by
  fun_induction afterWord? w cs with
  | case1 r =>
    cases h
    exact List.suffix_refl _
  | case2 => cases h
  | case3 _ c r ih => exact (ih h).trans (List.suffix_cons c r)
  | case4 => cases h

theorem word?_suffix {v : Value} (h : word? cs = some (v, rest)) : rest <:+ cs := by
  obtain ⟨⟨w, u⟩, -, hw⟩ := List.exists_of_findSome?_eq_some h
  obtain ⟨r, hr, he⟩ := Option.map_eq_some_iff.mp hw
  cases he
  exact afterWord?_suffix hr

theorem digits_split (c : Char) (r : List Char) :
    c :: r = (c :: r.takeWhile isDigit) ++ r.dropWhile isDigit := by
  rw [List.cons_append, List.takeWhile_append_dropWhile]

theorem wholePart?_split {whole : List Char} (h : wholePart? cs = some (whole, rest)) :
    cs = whole ++ rest ∧ ∀ c ∈ whole, isDigit c = true := by
  unfold wholePart? at h
  split at h
  · cases h
    exact ⟨rfl, by simp; decide⟩
  · next c r _ =>
    split at h
    · next hc =>
      cases h
      refine ⟨digits_split c r, fun d hd => ?_⟩
      rcases List.mem_cons.mp hd with rfl | hd
      · exact hc
      · exact List.mem_takeWhile_imp hd
    · cases h
  · cases h

theorem fraction_suffix (cs : List Char) : (fraction cs).2 <:+ cs := by
  unfold fraction
  split
  · next c r =>
    split
    · exact ((List.dropWhile_suffix _).trans (List.suffix_cons c r)).trans (List.suffix_cons _ _)
    · exact List.suffix_refl _
  · exact List.suffix_refl _

theorem exponentDigits?_suffix {ds : List Char} (h : exponentDigits? cs = some (ds, rest)) :
    rest <:+ cs := by
  unfold exponentDigits? at h
  split at h
  · next c r =>
    split at h
    · cases h
      exact (List.dropWhile_suffix _).trans (List.suffix_cons c r)
    · cases h
  · cases h

theorem exponentAfterMark?_suffix {power : Bool × List Char}
    (h : exponentAfterMark? cs = some (power, rest)) : rest <:+ cs := by
  have hdigits {g : List Char × List Char → (Bool × List Char) × List Char} {r : List Char}
      (hg : ∀ p, (g p).2 = p.2) (hr : (exponentDigits? r).map g = some (power, rest)) :
      rest <:+ r := by
    obtain ⟨⟨ds, left⟩, hds, he⟩ := Option.map_eq_some_iff.mp hr
    have hleft := hg (ds, left)
    rw [he] at hleft
    cases hleft
    exact exponentDigits?_suffix hds
  unfold exponentAfterMark? at h
  split at h
  · exact (hdigits (fun _ => rfl) h).trans (List.suffix_cons _ _)
  · exact (hdigits (fun _ => rfl) h).trans (List.suffix_cons _ _)
  · exact hdigits (fun _ => rfl) h

theorem exponent?_suffix {power : Bool × List Char} (h : exponent? cs = some (power, rest)) :
    rest <:+ cs := by
  unfold exponent? at h
  split at h
  · next c r =>
    split at h
    · exact (exponentAfterMark?_suffix h).trans (List.suffix_cons c r)
    · cases h
  · cases h

theorem unsigned?_halts {negative : Bool} {res : Except Halt (Value × List Char)}
    (h : unsigned? negative cs = some res) : Halts depth cs res := by
  unfold unsigned? at h
  cases hwhole : wholePart? cs with
  | none => simp [hwhole] at h
  | some p =>
    obtain ⟨whole, r⟩ := p
    obtain ⟨hsplit, hdigits⟩ := wholePart?_split hwhole
    have hleft : (fraction r).2 <:+ cs := (fraction_suffix r).trans ⟨whole, hsplit.symm⟩
    rw [hwhole] at h
    dsimp only at h
    split at h
    · next he =>
      cases h
      exact .ok ((exponent?_suffix he).trans hleft)
    split at h
    · split at h
      · next hlong =>
        cases h
        have hrun : whole <:+: cs := ⟨[], r, hsplit.symm⟩
        exact .tooManyDigits ⟨whole, hrun, hdigits, hlong⟩
      · cases h
        exact .ok hleft
    · cases h
      exact .ok hleft

theorem number?_halts {res : Except Halt (Value × List Char)} (h : number? cs = some res) :
    Halts depth cs res := by
  unfold number? at h
  split at h
  · next r => exact (unsigned?_halts h).of_suffix (List.suffix_cons _ r)
  · exact unsigned?_halts h

theorem skipBlanks_suffix (cs : List Char) : skipBlanks cs <:+ cs :=
  List.dropWhile_suffix _

theorem suffix_of_skipBlanks {c : Char} (h : skipBlanks cs = c :: rest) : rest <:+ cs :=
  (List.suffix_cons c rest).trans (h ▸ skipBlanks_suffix cs)

theorem behind_mark {c : Char} (h : skipBlanks cs = c :: rest) :
    skipBlanks rest <:+ cs ∧ (skipBlanks rest).length < cs.length := by
  have hle := (skipBlanks_suffix cs).length_le
  have hrest := (skipBlanks_suffix rest).length_le
  rw [h, List.length_cons] at hle
  exact ⟨(skipBlanks_suffix rest).trans (suffix_of_skipBlanks h), by omega⟩

structure AllHalt (fuel : Nat) : Prop where
  value : ∀ depth cs, 2 * cs.length + 1 ≤ fuel → Halts depth cs (value fuel depth cs)
  items : ∀ depth cs, 2 * cs.length + 2 ≤ fuel → Halts depth cs (items fuel depth cs)
  members : ∀ depth cs, 2 * cs.length + 2 ≤ fuel → Halts depth cs (members fuel depth cs)

theorem AllHalt.value_succ {fuel : Nat} (h : AllHalt fuel) (depth : Nat) (cs : List Char)
    (hfuel : 2 * cs.length + 1 ≤ fuel + 1) : Halts depth cs (Json.value (fuel + 1) depth cs) := by
  unfold Json.value
  split
  · next r => exact ((string_halts _ r).map _).of_suffix (List.suffix_cons _ r)
  · next r =>
    refine .tooDeep ?_
    rw [openings_bracket (.inl rfl)]
    omega
  · next r depth =>
    apply Halts.opened (.inl rfl)
    split
    · next hr => exact .ok (suffix_of_skipBlanks hr)
    · have hle := (skipBlanks_suffix r).length_le
      rw [List.length_cons] at hfuel
      exact ((h.items depth _ (by omega)).map _).of_suffix (skipBlanks_suffix r)
  · next r =>
    refine .tooDeep ?_
    rw [openings_bracket (.inr rfl)]
    omega
  · next r depth =>
    apply Halts.opened (.inr rfl)
    split
    · next hr => exact .ok (suffix_of_skipBlanks hr)
    · have hle := (skipBlanks_suffix r).length_le
      rw [List.length_cons] at hfuel
      have hread := (h.members depth (skipBlanks r) (by omega)).map fun ms =>
        Value.object (Table.ofList ms)
      exact hread.of_suffix (skipBlanks_suffix r)
  · split
    · next hw => exact .ok (word?_suffix hw)
    · cases hn : number? cs with
      | none => exact .complaint _ _
      | some res => exact number?_halts hn

theorem AllHalt.items_succ {fuel : Nat} (h : AllHalt fuel) (depth : Nat) (cs : List Char)
    (hfuel : 2 * cs.length + 2 ≤ fuel + 1) : Halts depth cs (Json.items (fuel + 1) depth cs) := by
  unfold Json.items
  apply (h.value depth cs (by omega)).bind
  intro v r hr
  dsimp only
  split
  · next hend => exact .ok ((suffix_of_skipBlanks hend).trans hr)
  · next r' hcomma =>
    obtain ⟨hs, hlt⟩ := behind_mark hcomma
    have hle := hr.length_le
    have hread := (h.items depth (skipBlanks r') (by omega)).of_suffix (hs.trans hr)
    exact hread.bind fun vs rest hrest => .ok hrest
  · exact .complaint _ _

theorem AllHalt.members_succ {fuel : Nat} (h : AllHalt fuel) (depth : Nat) (cs : List Char)
    (hfuel : 2 * cs.length + 2 ≤ fuel + 1) :
    Halts depth cs (Json.members (fuel + 1) depth cs) := by
  unfold Json.members
  split
  · next r =>
    rw [List.length_cons] at hfuel
    refine Halts.of_suffix ((string_halts _ r).bind ?_) (List.suffix_cons _ r)
    intro name r₁ hname
    have hle₁ := hname.length_le
    dsimp only
    split
    · next r₂ hcolon =>
      obtain ⟨hs₂, hlt₂⟩ := behind_mark hcolon
      have hvalue := h.value depth (skipBlanks r₂) (by omega)
      refine (hvalue.bind ?_).of_suffix (hs₂.trans hname)
      intro v r₃ hleft
      have hle₃ := hleft.length_le
      dsimp only
      split
      · next hend => exact .ok ((suffix_of_skipBlanks hend).trans hleft)
      · next r₄ hcomma =>
        obtain ⟨hs₄, hlt₄⟩ := behind_mark hcomma
        have hread := (h.members depth (skipBlanks r₄) (by omega)).of_suffix (hs₄.trans hleft)
        exact hread.bind fun ms rest hrest => .ok hrest
      · exact .complaint _ _
    · exact .complaint _ _
  · exact .complaint _ _

theorem allHalt (fuel : Nat) : AllHalt fuel := by
  induction fuel with
  | zero => exact ⟨by omega, by omega, by omega⟩
  | succ fuel ih => exact ⟨ih.value_succ, ih.items_succ, ih.members_succ⟩

/-- A text for whose size the reader gives up has this size. -/
theorem document_halts {e : Halt} (h : document cs = .error e) :
    (e = .tooManyDigits → LongDigits cs) ∧ (e = .tooDeep → depthLimit < openings cs) := by
  unfold document at h
  split at h
  · cases h
    exact ⟨nofun, nofun⟩
  · have hle := (skipBlanks_suffix cs).length_le
    have hread := ((allHalt (2 * cs.length + 2)).value depthLimit (skipBlanks cs)
      (by omega)).of_suffix (skipBlanks_suffix cs)
    cases hv : value (2 * cs.length + 2) depthLimit (skipBlanks cs) with
    | error e' =>
      rw [hv] at h hread
      cases h
      exact ⟨fun he => hread.digits (he ▸ rfl), fun he => hread.depth (he ▸ rfl)⟩
    | ok p =>
      rw [hv] at h
      dsimp only [bind, Except.bind] at h
      split at h
      · cases h
      · cases h
        exact ⟨nofun, nofun⟩

theorem longDigits_of_read {text : String} (h : read text = .error .tooManyDigits) :
    LongDigits text.toList := by
  unfold read at h
  dsimp only at h
  split at h
  · cases h
  · cases h
  · next hd => exact (document_halts hd).1 rfl
  · cases h

theorem openings_of_read {text : String} (h : read text = .error .tooDeep) :
    depthLimit < openings text.toList := by
  unfold read at h
  dsimp only at h
  split at h
  · cases h
  · cases h
  · cases h
  · next hd => exact (document_halts hd).2 rfl

end CommandShell.Json
