import CommandShell.Proofs.Line.Closing

/-! # Breaks between words

A blank outside quotes cuts a line into two lines that are read each on its own: their words are the
words of the line, and the line leaves a quote open if the second of them does. A blank after a text
is outside quotes just if the text leaves no quote open and no backslash without its character. -/
namespace CommandShell.Line

def Item.isCut : Item → Bool
  | backslash | openSingle _ | openDouble _ => true
  | _ => false

/-- A line is read to its end outside quotes, and no backslash there waits for a character. -/
def EndsOutside (line : String) : Prop :=
  ∃ is, Reads is line.toList ∧ ∀ i ∈ is, i.isCut = false

variable {is js front : List Item} {ps : List Piece} {i : Item} {q : Quote} {l r : List Char}

theorem Inside.append (h : Inside ps l ('"' :: r)) (s : List Char) :
    Inside ps (l ++ s) ('"' :: (r ++ s)) := by
  have hnext := inside_before_quote h (r ++ s)
  rwa [← List.cons_append, ← List.append_assoc, text_of_inside h] at hnext

theorem Reads.append (h : Reads is l) (hend : ∀ i ∈ is, i.isCut = false) (k : Reads js r) :
    Reads (is ++ js) (l ++ r) := by
  induction h with
  | done => exact k
  | blank hc _ ih => exact .blank hc (ih fun i hi => hend i (List.mem_cons_of_mem _ hi))
  | plain hc _ ih => exact .plain hc (ih fun i hi => hend i (List.mem_cons_of_mem _ hi))
  | escaped _ ih => exact .escaped (ih fun i hi => hend i (List.mem_cons_of_mem _ hi))
  | single hs hl _ ih =>
    subst hl
    exact .single hs (List.append_assoc _ _ _) (ih fun i hi => hend i (List.mem_cons_of_mem _ hi))
  | double hp _ ih =>
    exact .double (hp.append r) (ih fun i hi => hend i (List.mem_cons_of_mem _ hi))
  | backslash => exact absurd (hend _ List.mem_cons_self) (by simp [Item.isCut])
  | openSingle => exact absurd (hend _ List.mem_cons_self) (by simp [Item.isCut])
  | openDouble => exact absurd (hend _ List.mem_cons_self) (by simp [Item.isCut])

theorem spelled_append_blank (is js : List Item) (c : Char) :
    spelled (is ++ .blank c :: js) = spelled is ++ spelled js := by
  rw [spelled, List.splitOnP_append_cons is js rfl, List.map_append, List.filter_append]
  rfl

theorem opened?_of_not_cut (h : i.isCut = false) : i.opened? = none := by
  cases i with
  | openSingle | openDouble => simp [Item.isCut] at h
  | _ => rfl

/-- Of two texts with a blank between them only the second can leave a quote open. -/
theorem findSome?_append_blank (hend : ∀ i ∈ is, i.isCut = false) (c : Char) :
    (is ++ .blank c :: js).findSome? Item.opened? = js.findSome? Item.opened? := by
  have hclosed : is.findSome? Item.opened? = none :=
    List.findSome?_eq_none_iff.mpr fun i hi => opened?_of_not_cut (hend i hi)
  rw [List.findSome?_append, hclosed, Option.none_or, List.findSome?_cons]
  rfl

theorem Reads.cut_last (h : Reads is l) (hi : i ∈ is) (hcut : i.isCut = true) :
    ∃ front, is = front ++ [i] := by
  induction h with
  | done => cases hi
  | backslash | openSingle | openDouble => exact ⟨[], by rw [List.mem_singleton.mp hi]; rfl⟩
  | blank _ _ ih | plain _ _ ih | escaped _ ih | single _ _ _ ih | double _ _ ih =>
    rcases List.mem_cons.mp hi with rfl | hrest
    · cases hcut
    · obtain ⟨front, rfl⟩ := ih hrest
      exact ⟨_ :: front, rfl⟩

theorem Inside.append_blank (h : Inside ps l []) :
    Inside (ps ++ [.literal ' ']) (l ++ [' ']) [] := by
  generalize hr : ([] : List Char) = r at h ⊢
  induction h with
  | ended => exact .literal (by decide) (by decide) .ended
  | closed => cases hr
  | escaped hc _ ih => exact .escaped hc (ih hr)
  | @backslash ps l r hn _ ih =>
    refine .backslash ?_ (ih hr)
    cases l with
    | nil => simp [isEscapable]
    | cons d l => exact hn
  | literal hb hq _ ih => exact .literal hb hq (ih hr)

theorem exists_extended (h : Reads [i] l) (hcut : i.isCut = true) :
    ∃ j, Reads [j] (l ++ [' ']) ∧ j.meaning = i.meaning ++ [' '] := by
  cases h with
  | backslash => exact ⟨.escaped ' ', .escaped .done, rfl⟩
  | @openSingle s hs => exact ⟨.openSingle (s ++ [' ']), .openSingle (by simpa using hs), rfl⟩
  | @openDouble ps l hp =>
    exact ⟨.openDouble (ps ++ [.literal ' ']), .openDouble hp.append_blank,
      by simp [Item.meaning, Piece.meaning]⟩
  | _ => cases hcut

/-- The letters of the words are what the items of a line contribute. -/
theorem flatten_spelled (is : List Item) : (spelled is).flatten = is.flatMap Item.meaning := by
  rw [spelled, List.flatten_filter_not_isEmpty, ← List.flatMap_def]
  induction is with
  | nil => rfl
  | cons i is ih =>
    obtain ⟨part, parts, hparts⟩ :=
      List.exists_cons_of_ne_nil (List.splitOnP_ne_nil Item.isBlank is)
    rw [hparts] at ih
    rw [List.splitOnP_cons_eq_if_modifyHead, hparts, List.flatMap_cons, ← ih]
    cases hb : i.isBlank with
    | true =>
      have hnone : i.meaning = [] := by
        cases i with
        | blank => rfl
        | _ => cases hb
      simp [hnone]
    | false => simp

/-- A text that does not end outside quotes takes a blank after it into its last word. -/
theorem words_cut_short {a : String} (h : ¬ EndsOutside a) :
    words (a ++ " ") ≠ words a := by
  obtain ⟨is, hreads⟩ := exists_reading a.toList
  have hcut : ¬ ∀ i ∈ is, i.isCut = false := fun hend => h ⟨is, hreads, hend⟩
  simp only [Classical.not_forall, Bool.not_eq_false] at hcut
  obtain ⟨i, hi, hcut⟩ := hcut
  obtain ⟨front, rfl⟩ := hreads.cut_last hi hcut
  obtain ⟨k, hk, hlast, hcontinue⟩ := hreads.parts (List.cons_ne_nil i [])
  obtain ⟨j, hj, hmeaning⟩ := exists_extended hlast hcut
  have hnext : Reads (front ++ [j]) (a ++ " ").toList := by
    have hline : (a ++ " ").toList = front.flatMap Item.text ++ (k ++ [' ']) := by
      rw [String.toList_append, hk, List.append_assoc]
      rfl
    rw [hline]
    exact hcontinue _ _ hj
  intro heq
  rw [words_eq_spelled hnext, words_eq_spelled hreads] at heq
  have hspelled := (List.map_inj_right fun _ _ h => String.ofList_injective h).mp heq
  have hletters := congrArg (List.length ∘ List.flatten) hspelled
  simp [flatten_spelled, hmeaning] at hletters

theorem Reads.append_blank {a b : String} {c : Char} (h : Reads is a.toList)
    (hend : ∀ i ∈ is, i.isCut = false) (hc : Text.isBlank c) (k : Reads js b.toList) :
    Reads (is ++ .blank c :: js) (a ++ String.singleton c ++ b).toList := by
  have htext : (a ++ String.singleton c ++ b).toList = a.toList ++ c :: b.toList := by simp
  rw [htext]
  exact h.append hend (.blank hc k)

theorem words_append_blank {a b : String} {c : Char} (ha : EndsOutside a) (hc : Text.isBlank c) :
    words (a ++ String.singleton c ++ b) = words a ++ words b := by
  obtain ⟨is, hreads, hend⟩ := ha
  obtain ⟨js, hrest⟩ := exists_reading b.toList
  rw [words_eq_spelled (hreads.append_blank hend hc hrest), words_eq_spelled hreads,
    words_eq_spelled hrest, spelled_append_blank, List.map_append]

/-- The words of a text and what comes behind a blank stay apart just if the text ends outside
quotes. -/
theorem endsOutside_iff {a : String} :
    EndsOutside a ↔ ∀ b, words (a ++ " " ++ b) = words a ++ words b := by
  constructor
  · exact fun ha b => words_append_blank ha (c := ' ') rfl
  · intro h
    by_cases ha : EndsOutside a
    · exact ha
    · have hempty : words "" = [] := rfl
      have hnone := h ""
      rw [hempty, List.append_nil, String.append_empty] at hnone
      exact absurd hnone (words_cut_short ha)

/-- A blank outside quotes is a break of the line: the words before it and those after it are the
words of two lines, and read strictly the line is refused just if the second of these is, for the
same quote. -/
theorem line_breaks_at_blank {a : String} (ha : EndsOutside a) {c : Char} (hc : Text.isBlank c)
    (b : String) :
    let line := a ++ String.singleton c ++ b
    readWords false line = .ok (words a ++ words b) ∧
    ((∃ f, readWords true line = .error f) ↔ ∃ f, readWords true b = .error f) ∧
    (∀ q, readWords true line = .error (leftOpen q line) ↔
      readWords true b = .error (leftOpen q b)) ∧
    (∀ ws, readWords true b = .ok ws → readWords true line = .ok (words a ++ ws)) := by
  intro line
  have hwords : words line = words a ++ words b := words_append_blank ha hc
  obtain ⟨is, hreads, hend⟩ := ha
  obtain ⟨js, hrest⟩ := exists_reading b.toList
  have hstrict := strict_of_reads (hreads.append_blank hend hc hrest)
  rw [findSome?_append_blank hend, hwords] at hstrict
  rw [strict_of_reads hrest, hstrict]
  refine ⟨congrArg Except.ok hwords, ?_⟩
  cases js.findSome? Item.opened? with
  | none => simp
  | some q' =>
    refine ⟨by simp, fun q => ?_, by simp⟩
    simp only [Except.error.injEq]
    constructor
    · intro h
      rw [leftOpen_injective h]
    · intro h
      rw [leftOpen_injective h]

/-- A tab behind a word of three parts, where it is outside quotes, and before a quote that is left
open. The same tab behind the open quote is part of a word. -/
theorem line_breaks_behind_quotation :
    EndsOutside "a'b c'\\ " ∧
      readWords false "a'b c'\\ \t\"d" = .ok ["ab c ", "d"] ∧
      readWords true "a'b c'\\ \t\"d" = .error (leftOpen .double "a'b c'\\ \t\"d") ∧
      ¬ EndsOutside "\"d" := by
  have ha : EndsOutside "a'b c'\\ " :=
    ⟨[.plain 'a', .single ['b', ' ', 'c'], .escaped ' '],
      .plain (by decide) (.single (by decide) rfl (.escaped .done)), by decide⟩
  obtain ⟨hwords, -, hopen, -⟩ := line_breaks_at_blank ha (c := '\t') rfl "\"d"
  refine ⟨ha, hwords, (hopen .double).mpr rfl, ?_⟩
  rw [endsOutside_iff]
  exact fun h => absurd (h "") (by decide)

end CommandShell.Line
