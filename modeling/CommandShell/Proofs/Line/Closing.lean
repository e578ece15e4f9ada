import CommandShell.Proofs.Line.Reading

/-! # Closing an open quote

A line that leaves a quote open has the words that it has with the quote closed at its end. The one
thing that a longer line could change is the meaning of a backslash at its end between double
quotes: on its own there it stands for itself, but it would escape the quote. So one more backslash
comes before the quote then. -/
namespace CommandShell.Line

def backslashRun (l : List Char) : Nat :=
  endRun (· == '\\') l

/-- What closes a quote at the end of a line. A backslash at the end escapes the quote if the one
before it does not escape the backslash, so that it ends an odd run of them. -/
def closing (q : Quote) (l : List Char) : List Char :=
  (if q = .double ∧ backslashRun l % 2 = 1 then ['\\'] else []) ++ [q.char]

def leftOpen (q : Quote) (line : String) : Failure :=
  { cause := .openQuote (String.singleton q.char), given := [("line", .text line)] }

/-- The last item of a reading leaves a quote open, and no other item does. -/
def LeavesOpen (q : Quote) (is : List Item) : Prop :=
  ∃ front i, is = front ++ [i] ∧ i.opened? = some q ∧ front.findSome? Item.opened? = none

variable {front is js : List Item} {ps : List Piece} {i : Item} {q : Quote} {l r : List Char}

theorem backslashRun_escaped (c : Char) (l : List Char) :
    backslashRun ('\\' :: c :: l) % 2 = backslashRun l % 2 :=
  endRun_cons_cons_mod_two rfl

theorem backslashRun_literal {c : Char} (hc : c ≠ '\\') (l : List Char) :
    backslashRun (c :: l) = backslashRun l :=
  endRun_cons_of_neg (by simpa using hc)

/-- A backslash that stands for itself is followed by none, so it ends a run only on its own. -/
theorem backslashRun_backslash {d : Char} (hd : ¬ isEscapable d) (l : List Char) :
    backslashRun ('\\' :: d :: l) % 2 = backslashRun (d :: l) % 2 := by
  have hne : d ≠ '\\' := by
    rintro rfl
    exact hd rfl
  rw [backslashRun_escaped, backslashRun_literal hne]

theorem backslashRun_inside (h : Inside ps l []) :
    backslashRun l % 2 = 1 ↔ ps.getLast? = some (.literal '\\') := by
  generalize hr : ([] : List Char) = r at h
  induction h with
  | ended => simp [backslashRun, endRun]
  | closed => cases hr
  | @escaped c ps l r _ h ih =>
    rw [backslashRun_escaped, ih hr]
    cases ps <;> simp [List.getLast?_cons_cons]
  | @backslash ps l r hn h ih =>
    cases l with
    | nil =>
      cases h
      simp [backslashRun, endRun]
    | cons d l =>
      rw [backslashRun_backslash (hn d rfl), ih hr]
      cases ps with
      | nil => cases h with
        | closed => cases hr
      | cons => rw [List.getLast?_cons_cons]
  | @literal c ps l r hb _ h ih =>
    rw [backslashRun_literal hb, ih hr]
    cases ps <;> simp [List.getLast?_cons_cons, hb]

/-- A quotation that was left open is closed by what the line asks for, with the same meaning. -/
theorem exists_closed_inside (h : Inside ps l []) : ∃ qs,
    Inside qs (l ++ closing .double l) ['"'] ∧ qs.map Piece.meaning = ps.map Piece.meaning := by
  generalize hr : ([] : List Char) = r at h
  induction h with
  | ended => exact ⟨[], .closed [], rfl⟩
  | closed => cases hr
  | @escaped c ps l r hc _ ih =>
    obtain ⟨qs, hqs, hmeaning⟩ := ih hr
    refine ⟨.escaped c :: qs, ?_, by simp [hmeaning]⟩
    rw [closing, backslashRun_escaped]
    exact .escaped hc hqs
  | @backslash ps l r hn h ih =>
    cases l with
    | nil =>
      cases h
      exact ⟨[.escaped '\\'], .escaped rfl (.closed []), rfl⟩
    | cons d l =>
      obtain ⟨qs, hqs, hmeaning⟩ := ih hr
      refine ⟨.literal '\\' :: qs, ?_, by simp [hmeaning]⟩
      rw [closing, backslashRun_backslash (hn d rfl)]
      exact .backslash hn hqs
  | @literal c ps l r hb hq _ ih =>
    obtain ⟨qs, hqs, hmeaning⟩ := ih hr
    refine ⟨.literal c :: qs, ?_, by simp [hmeaning]⟩
    rw [closing, backslashRun_literal hb]
    exact .literal hb hq hqs

theorem inside_before_quote (h : Inside ps l ('"' :: r)) (s : List Char) :
    Inside ps (ps.flatMap Piece.text ++ '"' :: s) ('"' :: s) := by
  generalize hr : '"' :: r = t at h
  induction h with
  | ended => cases hr
  | closed => exact .closed s
  | escaped hc _ ih => exact .escaped hc (ih hr)
  | @backslash ps l t hn h ih =>
    have hhead : l.head? = (ps.flatMap Piece.text ++ '"' :: s).head? := by
      rw [← text_of_inside h, ← hr]
      cases ps.flatMap Piece.text <;> rfl
    rw [hhead] at hn
    exact .backslash hn (ih hr)
  | literal hb hq _ ih => exact .literal hb hq (ih hr)

/-- The front of a reading is the reading of the front of its line, whatever comes after it. Only
the items that end a line need to come last. -/
theorem Reads.parts (h : Reads (front ++ is) l) (hne : is ≠ []) :
    ∃ k, l = front.flatMap Item.text ++ k ∧ Reads is k ∧
      ∀ js k, Reads js k → Reads (front ++ js) (front.flatMap Item.text ++ k) := by
  induction front generalizing l with
  | nil => exact ⟨l, rfl, h, fun _ _ k => k⟩
  | cons i front ih =>
    have htext : ∀ k, (i :: front).flatMap Item.text ++ k =
        i.text ++ (front.flatMap Item.text ++ k) := by simp
    generalize hi : i :: front ++ is = all at h
    cases h with
    | done => cases hi
    | blank hc h =>
      obtain ⟨rfl, rfl⟩ := List.cons.inj hi
      obtain ⟨k, rfl, hk, hall⟩ := ih h
      exact ⟨k, rfl, hk, fun js k h => .blank hc (hall js k h)⟩
    | plain hc h =>
      obtain ⟨rfl, rfl⟩ := List.cons.inj hi
      obtain ⟨k, rfl, hk, hall⟩ := ih h
      exact ⟨k, rfl, hk, fun js k h => .plain hc (hall js k h)⟩
    | escaped h =>
      obtain ⟨rfl, rfl⟩ := List.cons.inj hi
      obtain ⟨k, rfl, hk, hall⟩ := ih h
      exact ⟨k, rfl, hk, fun js k h => .escaped (hall js k h)⟩
    | @single s _ l r hs hl h =>
      obtain ⟨rfl, rfl⟩ := List.cons.inj hi
      obtain ⟨k, rfl, hk, hall⟩ := ih h
      refine ⟨k, by simp [hl, Item.text], hk, fun js k h => ?_⟩
      rw [htext]
      exact .single hs (by simp) (hall js k h)
    | @double ps _ l r hp h =>
      obtain ⟨rfl, rfl⟩ := List.cons.inj hi
      obtain ⟨k, rfl, hk, hall⟩ := ih h
      refine ⟨k, by simp [← text_of_inside hp, Item.text], hk, fun js k h => ?_⟩
      have hinside := inside_before_quote hp (front.flatMap Item.text ++ k)
      rw [htext]
      exact .double (by simpa [Item.text] using hinside) (hall js k h)
    | backslash | openSingle | openDouble =>
      obtain ⟨-, hnil⟩ := List.cons.inj hi
      exact absurd (List.append_eq_nil_iff.mp hnil).2 hne

theorem LeavesOpen.cons (h : LeavesOpen q is) (hi : i.opened? = none) :
    LeavesOpen q (i :: is) := by
  obtain ⟨front, last, rfl, hlast, hfront⟩ := h
  refine ⟨i :: front, last, rfl, hlast, ?_⟩
  rw [List.findSome?_cons, hi]
  exact hfront

theorem Reads.leavesOpen (h : Reads is l) (hq : is.findSome? Item.opened? = some q) :
    LeavesOpen q is := by
  induction h with
  | done => cases hq
  | blank _ _ ih => exact (ih hq).cons rfl
  | plain _ _ ih => exact (ih hq).cons rfl
  | escaped _ ih => exact (ih hq).cons rfl
  | single _ _ _ ih => exact (ih hq).cons rfl
  | double _ _ ih => exact (ih hq).cons rfl
  | backslash => cases hq
  | openSingle => exact ⟨[], _, rfl, by simpa using hq, rfl⟩
  | openDouble => exact ⟨[], _, rfl, by simpa using hq, rfl⟩

theorem exists_closed (h : Reads [i] l) (hq : i.opened? = some q) :
    ∃ j, Reads [j] (l ++ closing q l) ∧ j.opened? = none ∧ j.isBlank = false ∧
      j.meaning = i.meaning := by
  cases h with
  | blank => cases hq
  | plain => cases hq
  | escaped => cases hq
  | single => cases hq
  | double => cases hq
  | backslash => cases hq
  | @openSingle s hs =>
    cases hq
    exact ⟨.single s, .single hs rfl .done, rfl, rfl, rfl⟩
  | @openDouble ps l h =>
    cases hq
    obtain ⟨qs, hqs, hmeaning⟩ := exists_closed_inside h
    have hquote : '"' ≠ '\\' := by decide
    refine ⟨.double qs, ?_, rfl, rfl, hmeaning⟩
    have hrun : closing .double ('"' :: l) = closing .double l := by
      rw [closing, backslashRun_literal hquote, closing]
    rw [hrun]
    exact .double hqs .done

theorem closing_append_cons {c : Char} (hc : c ≠ '\\') (t : List Char) :
    closing q (t ++ c :: l) = closing q (c :: l) := by
  have hrun : backslashRun (t ++ c :: l) = backslashRun (c :: l) := by
    rw [backslashRun_literal hc]
    exact endRun_append_cons_of_neg (by simpa using hc) t
  rw [closing, hrun, closing]

theorem closing_of_open (h : Reads [i] l) (hq : i.opened? = some q) (t : List Char) :
    closing q (t ++ l) = closing q l := by
  cases h with
  | openSingle => exact closing_append_cons (by decide) t
  | openDouble => exact closing_append_cons (by decide) t
  | _ => cases hq

theorem spelled_eq (is : List Item) : spelled is = wordsOf (is.flatMap Item.marks) := by
  rw [wordsOf, runs_of_items, spelled]

theorem runs_unclosed (ms : List Mark) (q : Quote) : runs (ms ++ [.unclosed q]) = runs ms := by
  induction ms with
  | nil => rfl
  | cons m ms ih => cases m <;> simp [runs, ih]

/-- Leaving a quote open adds nothing to the words. -/
theorem spelled_append_open (front : List Item) {j : Item} (hi : i.opened? = some q)
    (hj : j.opened? = none) (hblank : j.isBlank = false) (hmeaning : j.meaning = i.meaning) :
    spelled (front ++ [j]) = spelled (front ++ [i]) := by
  have hopen : i.marks = j.marks ++ [.unclosed q] := by
    have hnot : i.isBlank = false := by
      cases i with
      | blank => cases hi
      | _ => rfl
    simp [Item.marks, hnot, hblank, hi, hj, hmeaning]
  have hruns := runs_unclosed (front.flatMap Item.marks ++ j.marks) q
  rw [spelled_eq, spelled_eq, List.flatMap_append, List.flatMap_append, List.flatMap_singleton,
    List.flatMap_singleton, hopen, ← List.append_assoc, wordsOf, wordsOf, hruns]

/-- A line that leaves a quote open is read with the quote closed as it is without. -/
theorem exists_closed_reading (h : Reads is l) (hq : is.findSome? Item.opened? = some q) : ∃ js,
    Reads js (l ++ closing q l) ∧ js.findSome? Item.opened? = none ∧ spelled js = spelled is := by
  obtain ⟨front, i, rfl, hi, hfront⟩ := h.leavesOpen hq
  obtain ⟨k, rfl, hk, hcontinue⟩ := h.parts (List.cons_ne_nil i [])
  obtain ⟨j, hj, hclosed, hblank, hmeaning⟩ := exists_closed hk hi
  refine ⟨front ++ [j], ?_, ?_, ?_⟩
  · rw [closing_of_open hk hi, List.append_assoc]
    exact hcontinue _ _ hj
  · simp [List.findSome?_append, hfront, hclosed]
  · exact spelled_append_open front hi hclosed hblank hmeaning

theorem words_eq_spelled {line : String} (h : Reads is line.toList) :
    words line = (spelled is).map String.ofList := by
  rw [words, marks_of_reads h, spelled_eq]

theorem strict_of_reads {line : String} (h : Reads is line.toList) :
    readWords true line = match is.findSome? Item.opened? with
      | some q => .error (leftOpen q line)
      | none => .ok (words line) := by
  rw [readWords, if_pos rfl, strictWords, marks_of_reads h, openQuote?_of_items]
  rfl

theorem leftOpen_injective {q' : Quote} {line : String} (h : leftOpen q line = leftOpen q' line) :
    q = q' := by
  have hcause := congrArg Failure.cause h
  simp only [leftOpen, Cause.openQuote.injEq] at hcause
  cases q <;> cases q' <;> first | rfl | exact absurd hcause (by decide)

/-- Reading that lets a quote stay open gives the words that strict reading gives, and on a line
that strict reading refuses those that it gives with the quote closed. A backslash is put before the
quote where the open quotation ends in a backslash that stands for itself. -/
theorem open_quote_is_read_as_closed (line : String) :
    readWords false line = .ok (words line) ∧
    (∀ ws, readWords true line = .ok ws → ws = words line) ∧
    (∀ f, readWords true line = .error f → ∃ q, f = leftOpen q line) ∧
    (∀ q, readWords true line = .error (leftOpen q line) →
      readWords true (line ++ String.ofList (closing q line.toList)) = .ok (words line)) ∧
    ∀ is ps, Reads (is ++ [.openDouble ps]) line.toList →
      (backslashRun line.toList % 2 = 1 ↔ ps.getLast? = some (.literal '\\')) := by
  obtain ⟨is, h⟩ := exists_reading line.toList
  have hstrict := strict_of_reads h
  refine ⟨rfl, ?_, ?_, ?_, ?_⟩
  · intro ws hws
    rw [hws] at hstrict
    cases hq : is.findSome? Item.opened? with
    | some q => simp [hq] at hstrict
    | none => simpa [hq] using hstrict
  · intro f hf
    rw [hf] at hstrict
    cases hq : is.findSome? Item.opened? with
    | none => simp [hq] at hstrict
    | some q => exact ⟨q, by simpa [hq] using hstrict⟩
  · intro q hf
    rw [hf] at hstrict
    cases hq : is.findSome? Item.opened? with
    | none => simp [hq] at hstrict
    | some q' =>
      obtain rfl : q = q' := leftOpen_injective (by simpa [hq] using hstrict)
      obtain ⟨js, hjs, hclosed, hspelled⟩ := exists_closed_reading h hq
      have hline : (line ++ String.ofList (closing q line.toList)).toList =
          line.toList ++ closing q line.toList := by simp
      rw [← hline] at hjs
      rw [strict_of_reads hjs, hclosed, words_eq_spelled h, words_eq_spelled hjs, hspelled]
  · intro is ps h
    obtain ⟨k, hk, hreads, -⟩ := h.parts (List.cons_ne_nil _ [])
    cases hreads with
    | @openDouble _ l hinside =>
      have hquote : backslashRun (is.flatMap Item.text ++ '"' :: l) = backslashRun l :=
        endRun_append_cons_of_neg (by decide) _
      rw [hk, hquote]
      exact backslashRun_inside hinside

/-- Two lines that leave a quote open and are closed to one: a backslash at the end that stands for
itself is doubled, and one that is escaped is not. -/
theorem open_quote_after_backslashes :
    readWords true "\"b\\" = .error (leftOpen .double "\"b\\") ∧
      readWords true "\"b\\\\" = .error (leftOpen .double "\"b\\\\") ∧
      readWords true "\"b\\\\\"" = .ok (words "\"b\\") ∧
      readWords true "\"b\\\\\"" = .ok (words "\"b\\\\") ∧ words "\"b\\" = ["b\\"] := by
  have hodd : readWords true "\"b\\" = .error (leftOpen .double "\"b\\") := rfl
  have heven : readWords true "\"b\\\\" = .error (leftOpen .double "\"b\\\\") := rfl
  obtain ⟨-, -, -, hclosed, -⟩ := open_quote_is_read_as_closed "\"b\\"
  obtain ⟨-, -, -, hclosed', -⟩ := open_quote_is_read_as_closed "\"b\\\\"
  exact ⟨hodd, heven, hclosed .double hodd, hclosed' .double heven, by decide⟩

end CommandShell.Line
