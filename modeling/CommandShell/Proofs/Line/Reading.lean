import CommandShell.Line

/-! # Readings of a line

A line is a sequence of items: blanks, characters outside quotes and quotations. The rules of each
item are local, only a backslash between double quotes looks at the character after it. They leave
one way to read a line, and its words are what the items between two blanks stand for. Backslashes
and operators are told by the length of the run in which they stand, so runs at the end of a list
come first. -/
namespace CommandShell.Line

section Runs

variable {α : Type} {p : α → Bool} {a b : α} {l : List α}

def endRun (p : α → Bool) (l : List α) : Nat :=
  (l.reverse.takeWhile p).length

theorem endRun_le (p : α → Bool) (l : List α) : endRun p l ≤ l.length := by
  have h := (List.takeWhile_sublist p (l := l.reverse)).length_le
  rw [List.length_reverse] at h
  exact h

theorem endRun_cons (p : α → Bool) (a : α) (l : List α) : endRun p (a :: l) =
    if endRun p l = l.length ∧ p a = true then l.length + 1 else endRun p l := by
  have hrun : (l.reverse.takeWhile p).length = endRun p l := rfl
  rw [endRun, List.reverse_cons, List.takeWhile_append, List.length_reverse, hrun]
  by_cases hall : endRun p l = l.length
  · rw [if_pos hall]
    cases ha : p a <;> simp [ha, hall]
  · rw [if_neg hall, if_neg fun h => hall h.1, hrun]

theorem endRun_cons_of_neg (ha : p a = false) : endRun p (a :: l) = endRun p l := by
  rw [endRun_cons, if_neg (by simp [ha])]

theorem endRun_append_cons_of_neg (ha : p a = false) (front : List α) :
    endRun p (front ++ a :: l) = endRun p l := by
  induction front with
  | nil => exact endRun_cons_of_neg ha
  | cons b front ih =>
    have hle := endRun_le p l
    rw [List.cons_append, endRun_cons, ih, if_neg]
    simp only [List.length_append, List.length_cons]
    omega

theorem endRun_cons_cons_mod_two (ha : p a = true) :
    endRun p (a :: b :: l) % 2 = endRun p l % 2 := by
  have hle := endRun_le p l
  rw [endRun_cons p a, endRun_cons p b]
  by_cases hb : endRun p l = l.length ∧ p b = true
  · have hfirst : (l.length + 1 = (b :: l).length ∧ p a = true) := ⟨rfl, ha⟩
    rw [if_pos hb, if_pos hfirst, List.length_cons]
    omega
  · have hfirst : ¬ (endRun p l = (b :: l).length ∧ p a = true) := by
      rw [List.length_cons]
      omega
    rw [if_neg hb, if_neg hfirst]

theorem endRun_singleton (ha : p a = true) : endRun p [a] = 1 := by
  rw [endRun_cons, if_pos ⟨rfl, ha⟩]
  rfl

end Runs

inductive Piece where
  | literal (c : Char)
  | escaped (c : Char)
  deriving DecidableEq, Repr

def Piece.meaning : Piece → Char
  | literal c | escaped c => c

def Piece.text : Piece → List Char
  | literal c => [c]
  | escaped c => ['\\', c]

/-- The last three kinds stand only at the end of a line. -/
inductive Item where
  | blank (c : Char)
  | plain (c : Char)
  | escaped (c : Char)
  | single (inside : List Char)
  | double (inside : List Piece)
  | backslash
  | openSingle (inside : List Char)
  | openDouble (inside : List Piece)
  deriving DecidableEq, Repr

namespace Item

def isBlank : Item → Bool
  | blank _ => true
  | _ => false

def meaning : Item → List Char
  | blank _ | backslash => []
  | plain c | escaped c => [c]
  | single s | openSingle s => s
  | double ps | openDouble ps => ps.map Piece.meaning

def opened? : Item → Option Quote
  | openSingle _ => some .single
  | openDouble _ => some .double
  | _ => none

def text : Item → List Char
  | blank c | plain c => [c]
  | escaped c => ['\\', c]
  | single s => '\'' :: (s ++ ['\''])
  | double ps => '"' :: (ps.flatMap Piece.text ++ ['"'])
  | backslash => ['\\']
  | openSingle s => '\'' :: s
  | openDouble ps => '"' :: ps.flatMap Piece.text

def marks (i : Item) : List Mark :=
  if i.isBlank then [.gap] else i.meaning.map .letter ++ i.opened?.toList.map .unclosed

end Item

def IsPlain (c : Char) : Prop :=
  Text.isBlank c = false ∧ c ≠ '\\' ∧ c ≠ '\'' ∧ c ≠ '"'

instance (c : Char) : Decidable (IsPlain c) :=
  inferInstanceAs (Decidable (_ ∧ _ ∧ _ ∧ _))

/-- `Inside ps l r` says that the text `l` after an opening double quote begins with the pieces
`ps`, and that `r` follows them, which is nothing or begins with the closing quote. -/
inductive Inside : List Piece → List Char → List Char → Prop where
  | ended : Inside [] [] []
  | closed (r) : Inside [] ('"' :: r) ('"' :: r)
  | escaped {c ps l r} : isEscapable c → Inside ps l r →
      Inside (.escaped c :: ps) ('\\' :: c :: l) r
  | backslash {ps l r} : (∀ c ∈ l.head?, ¬ isEscapable c) → Inside ps l r →
      Inside (.literal '\\' :: ps) ('\\' :: l) r
  | literal {c ps l r} : c ≠ '\\' → c ≠ '"' → Inside ps l r → Inside (.literal c :: ps) (c :: l) r

/-- The rules by which a line is read as a sequence of items. -/
inductive Reads : List Item → List Char → Prop where
  | done : Reads [] []
  | blank {c is l} : Text.isBlank c → Reads is l → Reads (.blank c :: is) (c :: l)
  | plain {c is l} : IsPlain c → Reads is l → Reads (.plain c :: is) (c :: l)
  | escaped {c is l} : Reads is l → Reads (.escaped c :: is) ('\\' :: c :: l)
  | single {s is l r} : '\'' ∉ s → l = s ++ '\'' :: r → Reads is r →
      Reads (.single s :: is) ('\'' :: l)
  | double {ps is l r} : Inside ps l ('"' :: r) → Reads is r → Reads (.double ps :: is) ('"' :: l)
  | backslash : Reads [.backslash] ['\\']
  | openSingle {s} : '\'' ∉ s → Reads [.openSingle s] ('\'' :: s)
  | openDouble {ps l} : Inside ps l [] → Reads [.openDouble ps] ('"' :: l)

def spelled (is : List Item) : List (List Char) :=
  ((is.splitOnP Item.isBlank).map fun part => part.flatMap Item.meaning).filter (!·.isEmpty)

theorem exists_inside (l : List Char) : ∃ ps r, Inside ps l r ∧ (r = [] ∨ ∃ s, r = '"' :: s) ∧
    r.length ≤ l.length := by
  induction h : l.length using Nat.strongRecOn generalizing l with
  | ind n ih =>
    match l with
    | [] => exact ⟨[], [], .ended, .inl rfl, by simp⟩
    | c :: l =>
      simp only [List.length_cons] at h
      obtain ⟨ps, r, hi, hr, hl⟩ := ih l.length (by omega) l rfl
      by_cases hq : c = '"'
      · subst hq
        exact ⟨[], '"' :: l, .closed l, .inr ⟨l, rfl⟩, by simp [h]⟩
      by_cases hb : c = '\\'
      · subst hb
        match l with
        | [] => exact ⟨_, r, .backslash (by simp) hi, hr, by omega⟩
        | d :: l =>
          by_cases hd : isEscapable d
          · obtain ⟨ps, r, hi, hr, hl⟩ := ih l.length (by simp at h; omega) l rfl
            exact ⟨_, r, .escaped hd hi, hr, by simp at h; omega⟩
          · exact ⟨_, r, .backslash (by simpa using hd) hi, hr, by omega⟩
      · exact ⟨_, r, .literal hb hq hi, hr, by omega⟩

theorem exists_reading (l : List Char) : ∃ is, Reads is l := by
  induction h : l.length using Nat.strongRecOn generalizing l with
  | ind n ih =>
    match l with
    | [] => exact ⟨[], .done⟩
    | c :: l =>
      simp only [List.length_cons] at h
      by_cases hb : c = '\\'
      · subst hb
        match l with
        | [] => exact ⟨_, .backslash⟩
        | d :: l =>
          obtain ⟨is, hi⟩ := ih l.length (by simp at h; omega) l rfl
          exact ⟨_, .escaped hi⟩
      by_cases hs : c = '\''
      · subst hs
        by_cases hm : '\'' ∈ l
        · obtain ⟨s, r, rfl, hn⟩ := List.eq_append_cons_of_mem hm
          obtain ⟨is, hi⟩ := ih r.length (by simp at h; omega) r rfl
          exact ⟨_, .single hn rfl hi⟩
        · exact ⟨_, .openSingle hm⟩
      by_cases hq : c = '"'
      · subst hq
        obtain ⟨ps, r, hi, rfl | ⟨s, rfl⟩, hl⟩ := exists_inside l
        · exact ⟨_, .openDouble hi⟩
        · obtain ⟨is, hr⟩ := ih s.length (by simp at hl; omega) s rfl
          exact ⟨_, .double hi hr⟩
      obtain ⟨is, hi⟩ := ih l.length (by omega) l rfl
      cases hw : Text.isBlank c with
      | true => exact ⟨_, .blank hw hi⟩
      | false => exact ⟨_, .plain ⟨hw, hb, hs, hq⟩ hi⟩

theorem inside_unique {ps qs : List Piece} {l r s : List Char}
    (h : Inside ps l r) (k : Inside qs l s) : ps = qs ∧ r = s := by
  induction h generalizing qs with
  | ended => cases k; exact ⟨rfl, rfl⟩
  | closed => cases k with
    | closed => exact ⟨rfl, rfl⟩
    | literal _ hq => exact absurd rfl hq
  | escaped hc _ ih => cases k with
    | escaped _ k => obtain ⟨rfl, rfl⟩ := ih k; exact ⟨rfl, rfl⟩
    | backslash hn => exact absurd hc (hn _ rfl)
    | literal hb => exact absurd rfl hb
  | backslash hn _ ih => cases k with
    | escaped hc => exact absurd hc (hn _ rfl)
    | backslash _ k => obtain ⟨rfl, rfl⟩ := ih k; exact ⟨rfl, rfl⟩
    | literal hb => exact absurd rfl hb
  | literal hb hq _ ih => cases k with
    | closed => exact absurd rfl hq
    | escaped => exact absurd rfl hb
    | backslash => exact absurd rfl hb
    | literal _ _ k => obtain ⟨rfl, rfl⟩ := ih k; exact ⟨rfl, rfl⟩

theorem append_cons_unique {α : Type} {a : α} {s t r u : List α} (hs : a ∉ s) (ht : a ∉ t)
    (h : s ++ a :: r = t ++ a :: u) : s = t ∧ r = u := by
  induction s generalizing t with
  | nil =>
    cases t with
    | nil => exact ⟨rfl, (List.cons.inj h).2⟩
    | cons b t => exact absurd (List.cons.inj h).1 (List.ne_of_not_mem_cons ht)
  | cons b s ih =>
    cases t with
    | nil => exact absurd (List.cons.inj h).1.symm (List.ne_of_not_mem_cons hs)
    | cons c t =>
      obtain ⟨rfl, tails⟩ := List.cons.inj h
      obtain ⟨rfl, rfl⟩ :=
        ih (List.not_mem_of_not_mem_cons hs) (List.not_mem_of_not_mem_cons ht) tails
      exact ⟨rfl, rfl⟩

theorem reading_unique {is js : List Item} {l : List Char} (h : Reads is l) (k : Reads js l) :
    is = js := by
  induction h generalizing js with
  | done => cases k; rfl
  | blank hc _ ih =>
    cases k with
    | blank _ k => rw [ih k]
    | plain hp => simp [hp.1] at hc
    | _ => exact absurd hc (by decide)
  | plain hp _ ih =>
    cases k with
    | blank hc => simp [hp.1] at hc
    | plain _ k => rw [ih k]
    | _ => simp [IsPlain] at hp
  | escaped _ ih =>
    cases k with
    | blank hc => exact absurd hc (by decide)
    | plain hp => simp [IsPlain] at hp
    | escaped k => rw [ih k]
  | single hs hl _ ih =>
    cases k with
    | blank hc => exact absurd hc (by decide)
    | plain hp => simp [IsPlain] at hp
    | single ht hm k =>
      obtain ⟨rfl, rfl⟩ := append_cons_unique hs ht (hl.symm.trans hm)
      rw [ih k]
    | openSingle ht => simp [hl] at ht
  | double hi _ ih =>
    cases k with
    | blank hc => exact absurd hc (by decide)
    | plain hp => simp [IsPlain] at hp
    | double hj k =>
      obtain ⟨rfl, hr⟩ := inside_unique hi hj
      obtain ⟨-, rfl⟩ := List.cons.inj hr
      rw [ih k]
    | openDouble hj => exact absurd (inside_unique hi hj).2 (by simp)
  | backslash =>
    cases k with
    | blank hc => exact absurd hc (by decide)
    | plain hp => simp [IsPlain] at hp
    | backslash => rfl
  | openSingle hs =>
    cases k with
    | blank hc => exact absurd hc (by decide)
    | plain hp => simp [IsPlain] at hp
    | single _ hm => simp [hm] at hs
    | openSingle => rfl
  | openDouble hi =>
    cases k with
    | blank hc => exact absurd hc (by decide)
    | plain hp => simp [IsPlain] at hp
    | double hj => exact absurd (inside_unique hi hj).2 (by simp)
    | openDouble hj => rw [(inside_unique hi hj).1]

theorem text_of_inside {ps : List Piece} {l r : List Char} (h : Inside ps l r) :
    ps.flatMap Piece.text ++ r = l := by
  induction h <;> simp_all [Piece.text]

/-- The items of a line spell it out, so that nothing of it is passed over. -/
theorem text_of_reads {is : List Item} {l : List Char} (h : Reads is l) :
    is.flatMap Item.text = l := by
  induction h with
  | double hi _ ih => simp [Item.text, ← text_of_inside hi, ih]
  | openDouble hi => simp [Item.text, ← text_of_inside hi]
  | _ => simp_all [Item.text]

theorem marks_literal_backslash {l : List Char} (hn : ∀ c ∈ l.head?, ¬ isEscapable c) :
    marks (some .double) ('\\' :: l) = .letter '\\' :: marks (some .double) l := by
  cases l with
  | nil => simp [marks]
  | cons d l => simp [marks, hn d rfl]

theorem marks_of_inside {ps : List Piece} {l r : List Char} (h : Inside ps l r) :
    marks (some .double) l =
      (ps.map Piece.meaning).map .letter ++ marks (some .double) r := by
  induction h with
  | ended | closed => rfl
  | escaped hc _ ih => simp [marks, hc, ih, Piece.meaning]
  | backslash hn _ ih => simp [marks_literal_backslash hn, ih, Piece.meaning]
  | @literal c ps l r hb hq _ ih =>
    rw [marks.eq_def]
    simp [hb, hq, ih, Piece.meaning]

theorem marks_single {s : List Char} (hs : '\'' ∉ s) (r : List Char) :
    marks (some .single) (s ++ r) = s.map .letter ++ marks (some .single) r := by
  induction s with
  | nil => rfl
  | cons c s ih =>
    have hc : c ≠ '\'' := Ne.symm (List.ne_of_not_mem_cons hs)
    simp [marks, hc, ih (List.not_mem_of_not_mem_cons hs)]

theorem marks_plain {c : Char} (hc : IsPlain c) (l : List Char) :
    marks none (c :: l) = .letter c :: marks none l := by
  obtain ⟨hw, hb, hs, hq⟩ := hc
  rw [marks.eq_def]
  simp [hw, hb, hs, hq]

theorem marks_blank {c : Char} (hc : Text.isBlank c) (l : List Char) :
    marks none (c :: l) = .gap :: marks none l := by
  have hb : c ≠ '\\' := by intro h; subst h; exact absurd hc (by decide)
  have hs : c ≠ '\'' := by intro h; subst h; exact absurd hc (by decide)
  have hq : c ≠ '"' := by intro h; subst h; exact absurd hc (by decide)
  rw [marks.eq_def]
  simp [hc, hb, hs, hq]

theorem marks_of_reads {is : List Item} {l : List Char} (h : Reads is l) :
    marks none l = is.flatMap Item.marks := by
  induction h with
  | done => rfl
  | blank hc _ ih => rw [marks_blank hc, ih]; rfl
  | plain hc _ ih => rw [marks_plain hc, ih]; rfl
  | escaped _ ih => simp [marks, ih, Item.marks, Item.isBlank, Item.meaning, Item.opened?]
  | single hs hl _ ih =>
    simp [marks, hl, marks_single hs, ih, Item.marks, Item.isBlank, Item.meaning, Item.opened?]
  | double hi _ ih =>
    simp [marks, marks_of_inside hi, ih, Item.marks, Item.isBlank, Item.meaning, Item.opened?]
  | backslash => rfl
  | @openSingle s hs =>
    have hm := marks_single hs []
    simp only [List.append_nil] at hm
    simp [marks, hm, Item.marks, Item.isBlank, Item.meaning, Item.opened?]
  | openDouble hi =>
    simp [marks, marks_of_inside hi, Item.marks, Item.isBlank, Item.meaning, Item.opened?]

theorem runs_letters (cs : List Char) (ms : List Mark) :
    runs (cs.map .letter ++ ms) = (cs ++ (runs ms).1, (runs ms).2) := by
  induction cs with
  | nil => rfl
  | cons c cs ih => simp [runs, ih]

/-- The runs of letters between gaps are the meanings of the items between blanks. -/
theorem runs_of_items (is : List Item) :
    (runs (is.flatMap Item.marks)).1 :: (runs (is.flatMap Item.marks)).2 =
      (is.splitOnP Item.isBlank).map fun part => part.flatMap Item.meaning := by
  induction is with
  | nil => rfl
  | cons i is ih =>
    obtain ⟨part, parts, hp⟩ := List.exists_cons_of_ne_nil (List.splitOnP_ne_nil Item.isBlank is)
    rw [hp, List.map_cons] at ih
    obtain ⟨hf, ho⟩ := List.cons.inj ih
    rw [List.splitOnP_cons_eq_if_modifyHead, hp, List.flatMap_cons]
    by_cases hb : i.isBlank
    · simp [Item.marks, hb, runs, hf, ho]
    · have hu : ∀ o : Option Quote, runs (o.toList.map .unclosed ++ is.flatMap Item.marks) =
          runs (is.flatMap Item.marks) := by
        intro o
        cases o <;> rfl
      simp [Item.marks, hb, runs_letters, hu, hf, ho]

theorem openQuote?_letters (cs : List Char) (ms : List Mark) :
    openQuote? (cs.map .letter ++ ms) = openQuote? ms := by
  induction cs with
  | nil => rfl
  | cons c cs ih => simpa [openQuote?] using ih

theorem openQuote?_item (i : Item) (ms : List Mark) :
    openQuote? (i.marks ++ ms) = i.opened?.or (openQuote? ms) := by
  cases i with
  | blank => rfl
  | openSingle | openDouble =>
    simp only [Item.marks, Item.isBlank, Bool.false_eq_true, if_false, List.append_assoc,
      openQuote?_letters]
    rfl
  | _ => simp [Item.marks, Item.isBlank, Item.opened?, openQuote?_letters]

theorem openQuote?_of_items (is : List Item) :
    openQuote? (is.flatMap Item.marks) = is.findSome? Item.opened? := by
  induction is with
  | nil => rfl
  | cons i is ih =>
    rw [List.flatMap_cons, openQuote?_item, ih, List.findSome?_cons]
    cases i.opened? <;> rfl

/-- A line is read in exactly one way. Its words are what that reading stands for; read strictly it
has no words if the reading leaves a quote open. -/
theorem line_has_one_reading (line : String) :
    ∃ is, (Reads is line.toList ∧ ∀ js, Reads js line.toList → js = is) ∧
      is.flatMap Item.text = line.toList ∧
      readWords false line = .ok ((spelled is).map String.ofList) ∧
      readWords true line = match is.findSome? Item.opened? with
        | none => .ok ((spelled is).map String.ofList)
        | some q => .error {
            cause := .openQuote (String.singleton q.char), given := [("line", .text line)] } := by
  obtain ⟨is, hr⟩ := exists_reading line.toList
  have hw : words line = (spelled is).map String.ofList := by
    rw [words, marks_of_reads hr, wordsOf, runs_of_items, spelled]
  refine ⟨is, ⟨hr, fun js hj => reading_unique hj hr⟩, text_of_reads hr, ?_, ?_⟩
  · simp [readWords, hw]
  · rw [readWords, if_pos rfl, strictWords, marks_of_reads hr, openQuote?_of_items, ← hw]
    cases is.findSome? Item.opened? <;> rfl

end CommandShell.Line
