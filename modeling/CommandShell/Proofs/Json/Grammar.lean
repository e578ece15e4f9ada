import CommandShell.FileSystem.Changes
import CommandShell.Json.Reader

/-! # JSON texts

Which texts say which values: any blanks between the tokens, any mix of characters and escapes in a
string, numbers with or without a fraction and an exponent. Of the members of an object the order
says nothing, and of those with one name the last one counts. A text with line ends of any kind says
the same as with plain ones, because no line end can stand inside a token. -/
namespace CommandShell.Json

def Blank (cs : List Char) : Prop :=
  ∀ c ∈ cs, c = ' ' ∨ c = '\t' ∨ c = '\n' ∨ c = '\r'

/-- What stands between the quotes of a string, and the characters that it spells. -/
inductive Spells : List Char → List Char → Prop where
  | nil : Spells [] []
  | raw {c cs s} : 0x20 ≤ c.toNat → c ≠ '"' → c ≠ '\\' → Spells cs s → Spells (c :: cs) (c :: s)
  | escape {c d cs s} : escapes.get? c = some d → Spells cs s → Spells ('\\' :: c :: cs) (d :: s)
  | unit {a b c d n cs s} : codeUnit? a b c d = some n → n < 0xD800 ∨ 0xE000 ≤ n → Spells cs s →
      Spells ('\\' :: 'u' :: a :: b :: c :: d :: cs) (Char.ofNat n :: s)
  | pair {a b c d high a' b' c' d' low cs s} : codeUnit? a b c d = some high →
      0xD800 ≤ high ∧ high < 0xDC00 → codeUnit? a' b' c' d' = some low →
      0xDC00 ≤ low ∧ low < 0xE000 → Spells cs s →
      Spells ('\\' :: 'u' :: a :: b :: c :: d :: '\\' :: 'u' :: a' :: b' :: c' :: d' :: cs)
        (Char.ofNat (0x10000 + (high - 0xD800) * 0x400 + (low - 0xDC00)) :: s)

def Digits (ds : List Char) : Prop :=
  ds ≠ [] ∧ ∀ c ∈ ds, c.isDigit = true

def sign (negative : Bool) : List Char :=
  if negative then ['-'] else []

inductive Fraction : List Char → List Char → Prop where
  | none : Fraction [] []
  | some {ds} : Digits ds → Fraction ('.' :: ds) ds

inductive Exponent : List Char → Int → Prop where
  | none : Exponent [] 0
  | plain {mark ds} : mark = 'e' ∨ mark = 'E' → Digits ds →
      Exponent (mark :: ds) (naturalOf ds)
  | plus {mark ds} : mark = 'e' ∨ mark = 'E' → Digits ds →
      Exponent (mark :: '+' :: ds) (naturalOf ds)
  | minus {mark ds} : mark = 'e' ∨ mark = 'E' → Digits ds →
      Exponent (mark :: '-' :: ds) (-naturalOf ds)

inductive Label : List Char → String → Prop where
  | intro {b key s b' b''} : Blank b → Spells key s → Blank b' → Blank b'' →
      Label (b ++ '"' :: key ++ '"' :: b' ++ ':' :: b'') (String.ofList s)

inductive Part where
  | value (v : Value)
  | items (vs : List Value)
  | members (ms : List (String × Value))

/-- The texts of values, of the items between the brackets of a list, and of the members between
the braces of an object. `depth` bounds how many lists and objects are open at once. -/
inductive Denotes : Nat → List Char → Part → Prop where
  | word {depth w v} : (w, v) ∈ words → Denotes depth w.toList (.value v)
  | integer {depth n} (negative : Bool) : (Nat.toDigits 10 n).length ≤ Integer.digitLimit →
      Denotes depth (sign negative ++ Nat.toDigits 10 n)
        (.value (.integer (if negative then -(n : Int) else n)))
  | real {depth n fraction places exponent power} (negative : Bool) : Fraction fraction places →
      Exponent exponent power → fraction ++ exponent ≠ [] →
      Denotes depth (sign negative ++ Nat.toDigits 10 n ++ fraction ++ exponent)
        (.value (.real (.ofDecimal negative (n * Nat.pow 10 places.length + naturalOf places)
          (power - places.length))))
  | text {depth cs s} : Spells cs s →
      Denotes depth ('"' :: cs ++ ['"']) (.value (.text (String.ofList s)))
  | emptyList {depth b} : Blank b → Denotes (depth + 1) ('[' :: b ++ [']']) (.value (.list []))
  | list {depth cs vs} : Denotes depth cs (.items vs) →
      Denotes (depth + 1) ('[' :: cs ++ [']']) (.value (.list vs))
  | emptyObject {depth b} : Blank b →
      Denotes (depth + 1) ('\x7b' :: b ++ ['\x7d']) (.value (.object []))
  | object {depth cs ms} {data : Members} : Denotes depth cs (.members ms) →
      (∀ key, data.get? key = Table.get? ms.reverse key) →
      Denotes (depth + 1) ('\x7b' :: cs ++ ['\x7d']) (.value (.object data))
  | item {depth b cs b' v} : Blank b → Denotes depth cs (.value v) → Blank b' →
      Denotes depth (b ++ cs ++ b') (.items [v])
  | items {depth b cs b' v ds vs} : Blank b → Denotes depth cs (.value v) → Blank b' →
      Denotes depth ds (.items vs) → Denotes depth (b ++ cs ++ b' ++ ',' :: ds) (.items (v :: vs))
  | member {depth label name cs b v} : Label label name → Denotes depth cs (.value v) →
      Blank b → Denotes depth (label ++ cs ++ b) (.members [(name, v)])
  | members {depth label name cs b v ds ms} : Label label name → Denotes depth cs (.value v) →
      Blank b → Denotes depth ds (.members ms) →
      Denotes depth (label ++ cs ++ b ++ ',' :: ds) (.members ((name, v) :: ms))

/-- A text that says a value, with blanks around it, within the limits of the reader. -/
inductive Document : List Char → Value → Prop where
  | intro {b cs b' v} : Blank b → Denotes depthLimit cs (.value v) → Blank b' →
      Document (b ++ cs ++ b') v

structure Starts (c : Char) : Prop where
  not_blank : isBlank c = false
  not_bracket : c ≠ ']'
  not_mark : c ≠ '\uFEFF'

theorem starts_of_isDigit {c : Char} (h : c.isDigit = true) : Starts c := by
  refine ⟨?_, ?_, ?_⟩
  · simp only [isBlank, Bool.or_eq_false_iff, beq_eq_false_iff_ne]
    refine ⟨⟨⟨?_, ?_⟩, ?_⟩, ?_⟩
    all_goals
      rintro rfl
      simp at h
  · rintro rfl
    simp at h
  · rintro rfl
    simp at h

theorem number_head (negative : Bool) (n : Nat) (tail : List Char) :
    ∃ c r, sign negative ++ Nat.toDigits 10 n ++ tail = c :: r ∧ (c = '-' ∨ c.isDigit = true) := by
  cases negative with
  | true => exact ⟨'-', _, rfl, .inl rfl⟩
  | false =>
    obtain ⟨c, ds, hds⟩ := List.exists_cons_of_ne_nil (Nat.toDigits_ne_nil (n := n) (b := 10))
    have hdigit : c.isDigit = true :=
      Nat.isDigit_of_mem_toDigits (by decide) (by decide) (hds ▸ List.mem_cons_self)
    exact ⟨c, ds ++ tail, by simp [sign, hds], .inr hdigit⟩

theorem starts_of_number {c : Char} (h : c = '-' ∨ c.isDigit = true) : Starts c := by
  rcases h with rfl | h
  · exact ⟨by decide, by decide, by decide⟩
  · exact starts_of_isDigit h

theorem Denotes.head {depth : Nat} {cs : List Char} {v : Value} (h : Denotes depth cs (.value v)) :
    ∃ c r, cs = c :: r ∧ Starts c := by
  cases h with
  | @word _ w _ hw =>
    simp only [words, List.mem_cons, Prod.mk.injEq, List.not_mem_nil, or_false] at hw
    rcases hw with ⟨rfl, -⟩ | ⟨rfl, -⟩ | ⟨rfl, -⟩ | ⟨rfl, -⟩ | ⟨rfl, -⟩ | ⟨rfl, -⟩
    all_goals exact ⟨_, _, rfl, by decide, by decide, by decide⟩
  | @integer _ n negative _ =>
    obtain ⟨c, r, heq, hc⟩ := number_head negative n []
    exact ⟨c, r, by simpa using heq, starts_of_number hc⟩
  | @real _ n fraction _ exponent _ negative _ _ _ =>
    obtain ⟨c, r, heq, hc⟩ := number_head negative n (fraction ++ exponent)
    exact ⟨c, r, by simpa using heq, starts_of_number hc⟩
  | text => exact ⟨_, _, rfl, by decide, by decide, by decide⟩
  | emptyList => exact ⟨_, _, rfl, by decide, by decide, by decide⟩
  | list => exact ⟨_, _, rfl, by decide, by decide, by decide⟩
  | emptyObject => exact ⟨_, _, rfl, by decide, by decide, by decide⟩
  | object => exact ⟨_, _, rfl, by decide, by decide, by decide⟩

open FileSystem (plainLineEnds plainLineEnds_append plainLineEnds_cons plainLineEnds_eq_self)

variable {b cs rest : List Char}

theorem Blank.nil : Blank [] := fun _ h => absurd h List.not_mem_nil

theorem Blank.cons {c : Char} (hc : c = ' ' ∨ c = '\t' ∨ c = '\n' ∨ c = '\r') (h : Blank b) :
    Blank (c :: b) := by
  intro d hd
  rcases List.mem_cons.mp hd with rfl | hd
  · exact hc
  · exact h d hd

theorem Blank.plain (h : Blank b) : Blank (plainLineEnds b) := by
  fun_induction plainLineEnds b with
  | case1 cs ih =>
    have hcs : Blank cs := fun c hc => h c (by simp [hc])
    exact (ih hcs).cons (by simp)
  | case2 cs _ ih =>
    have hcs : Blank cs := fun c hc => h c (by simp [hc])
    exact (ih hcs).cons (by simp)
  | case3 c cs _ _ ih =>
    have hcs : Blank cs := fun c hc => h c (by simp [hc])
    exact (ih hcs).cons (h c List.mem_cons_self)
  | case4 => exact .nil

theorem not_return_of_digits {ds : List Char} (h : ∀ c ∈ ds, c.isDigit = true) : '\r' ∉ ds := by
  intro hmem
  have hdigit := h _ hmem
  simp at hdigit

theorem hexValue?_return : hexValue? '\r' = none := by decide

theorem not_return_of_codeUnit? {a b c d : Char} {n : Nat} (h : codeUnit? a b c d = some n) :
    '\r' ∉ [a, b, c, d] := by
  intro hmem
  simp only [codeUnit?, Option.bind_eq_bind, Option.bind_eq_some_iff] at h
  obtain ⟨x, hx, y, hy, z, hz, w, hw, -⟩ := h
  simp only [List.mem_cons, List.not_mem_nil, or_false] at hmem
  rcases hmem with rfl | rfl | rfl | rfl
  · simp [hexValue?_return] at hx
  · simp [hexValue?_return] at hy
  · simp [hexValue?_return] at hz
  · simp [hexValue?_return] at hw

theorem Spells.not_return {s : List Char} (h : Spells cs s) : '\r' ∉ cs := by
  induction h with
  | nil => exact List.not_mem_nil
  | raw hc _ _ _ ih =>
    rintro (_ | ⟨_, hmem⟩)
    · exact absurd hc (by decide)
    · exact ih hmem
  | @escape c d cs s hc _ ih =>
    have hne : c ≠ '\r' := by
      rintro rfl
      have hnone : escapes.get? '\r' = none := by decide
      simp [hnone] at hc
    simp [hne.symm, ih]
  | unit hunit _ _ ih =>
    have hmem := not_return_of_codeUnit? hunit
    simp_all
  | pair hhigh _ hlow _ _ ih =>
    have hmem := not_return_of_codeUnit? hhigh
    have hmem' := not_return_of_codeUnit? hlow
    simp_all

theorem not_return_of_sign (negative : Bool) : '\r' ∉ sign negative := by
  cases negative <;> decide

theorem not_return_of_toDigits (n : Nat) : '\r' ∉ Nat.toDigits 10 n :=
  not_return_of_digits fun _ hc => Nat.isDigit_of_mem_toDigits (by decide) (by decide) hc

theorem Fraction.not_return {places : List Char} (h : Fraction cs places) : '\r' ∉ cs := by
  cases h with
  | none => exact List.not_mem_nil
  | some hds => simp [not_return_of_digits hds.2]

theorem Exponent.not_return {power : Int} (h : Exponent cs power) : '\r' ∉ cs := by
  have hmark {mark : Char} (hm : mark = 'e' ∨ mark = 'E') : '\r' ≠ mark := by
    rcases hm with rfl | rfl <;> decide
  cases h with
  | none => exact List.not_mem_nil
  | plain hm hds => simp [not_return_of_digits hds.2, hmark hm]
  | plus hm hds => simp [not_return_of_digits hds.2, hmark hm]
  | minus hm hds => simp [not_return_of_digits hds.2, hmark hm]

theorem not_return_of_word {w : String} {v : Value} (h : (w, v) ∈ words) : '\r' ∉ w.toList := by
  simp only [words, List.mem_cons, Prod.mk.injEq, List.not_mem_nil, or_false] at h
  rcases h with ⟨rfl, -⟩ | ⟨rfl, -⟩ | ⟨rfl, -⟩ | ⟨rfl, -⟩ | ⟨rfl, -⟩ | ⟨rfl, -⟩ <;> decide

theorem getLast?_ne_return (h : '\r' ∉ cs) : cs.getLast? ≠ some '\r' :=
  fun hlast => h (List.mem_of_getLast? hlast)

theorem getLast?_enclosed {first last : Char} (h : last ≠ '\r') :
    (first :: cs ++ [last]).getLast? ≠ some '\r' := by
  rw [List.getLast?_concat]
  simpa using h

theorem Denotes.last {depth : Nat} {v : Value} (h : Denotes depth cs (.value v)) :
    cs.getLast? ≠ some '\r' := by
  cases h with
  | word hw => exact getLast?_ne_return (not_return_of_word hw)
  | @integer _ n negative _ =>
    apply getLast?_ne_return
    simp [not_return_of_sign, not_return_of_toDigits]
  | @real _ n _ _ _ _ negative hfraction hexponent _ =>
    apply getLast?_ne_return
    simp [not_return_of_sign, not_return_of_toDigits, hfraction.not_return, hexponent.not_return]
  | text => exact getLast?_enclosed (by decide)
  | emptyList => exact getLast?_enclosed (by decide)
  | list => exact getLast?_enclosed (by decide)
  | emptyObject => exact getLast?_enclosed (by decide)
  | object => exact getLast?_enclosed (by decide)

theorem plainLineEnds_enclosed {first last : Char} (hfirst : first ≠ '\r') (hlast : last ≠ '\r')
    (hend : last ≠ '\n') :
    plainLineEnds (first :: cs ++ [last]) = first :: plainLineEnds cs ++ [last] := by
  rw [plainLineEnds_append (.inr (by simpa using hend)), plainLineEnds_cons hfirst,
    plainLineEnds_cons hlast]
  rfl

theorem plainLineEnds_append_cons {c : Char} (hc : c ≠ '\r') (hend : c ≠ '\n') :
    plainLineEnds (cs ++ c :: rest) = plainLineEnds cs ++ c :: plainLineEnds rest := by
  rw [plainLineEnds_append (.inr (by simpa using hend)), plainLineEnds_cons hc]

theorem Denotes.plain_padded {depth : Nat} {v : Value} (h : Denotes depth cs (.value v))
    (before after : List Char) : plainLineEnds (before ++ cs ++ after) =
      plainLineEnds before ++ plainLineEnds cs ++ plainLineEnds after := by
  obtain ⟨c, r, rfl, hc⟩ := h.head
  have hend : c ≠ '\n' := by
    rintro rfl
    exact absurd hc.not_blank (by decide)
  have hlast : (before ++ c :: r).getLast? ≠ some '\r' := by
    rw [List.getLast?_append, List.getLast?_eq_some_getLast (List.cons_ne_nil c r), Option.some_or,
      ← List.getLast?_eq_some_getLast]
    exact h.last
  rw [plainLineEnds_append (.inl hlast), plainLineEnds_append (.inr (by simpa using hend))]

theorem Label.plain {name : String} (h : Label cs name) : Label (plainLineEnds cs) name := by
  cases h with
  | @intro b key s b' b'' hb hkey hb' hb'' =>
    have hplain : plainLineEnds (b ++ '"' :: key ++ '"' :: b' ++ ':' :: b'') =
        plainLineEnds b ++ '"' :: key ++ '"' :: plainLineEnds b' ++ ':' :: plainLineEnds b'' := by
      rw [plainLineEnds_append_cons (by decide) (by decide),
        plainLineEnds_append_cons (by decide) (by decide),
        plainLineEnds_append_cons (by decide) (by decide), plainLineEnds_eq_self hkey.not_return]
    rw [hplain]
    exact .intro hb.plain hkey hb'.plain hb''.plain

/-- Line ends of every kind say the same. -/
theorem Denotes.plain {depth : Nat} {p : Part} (h : Denotes depth cs p) :
    Denotes depth (plainLineEnds cs) p := by
  induction h with
  | word hw =>
    rw [plainLineEnds_eq_self (not_return_of_word hw)]
    exact .word hw
  | @integer _ n negative hn =>
    rw [plainLineEnds_eq_self (by simp [not_return_of_sign, not_return_of_toDigits])]
    exact .integer negative hn
  | real negative hfraction hexponent hne =>
    rw [plainLineEnds_eq_self (by simp [not_return_of_sign, not_return_of_toDigits,
      hfraction.not_return, hexponent.not_return])]
    exact .real negative hfraction hexponent hne
  | text hs =>
    rw [plainLineEnds_enclosed (by decide) (by decide) (by decide),
      plainLineEnds_eq_self hs.not_return]
    exact .text hs
  | emptyList hb =>
    rw [plainLineEnds_enclosed (by decide) (by decide) (by decide)]
    exact .emptyList hb.plain
  | list _ ih =>
    rw [plainLineEnds_enclosed (by decide) (by decide) (by decide)]
    exact .list ih
  | emptyObject hb =>
    rw [plainLineEnds_enclosed (by decide) (by decide) (by decide)]
    exact .emptyObject hb.plain
  | object _ hdata ih =>
    rw [plainLineEnds_enclosed (by decide) (by decide) (by decide)]
    exact .object ih hdata
  | item hb hv hb' ih =>
    rw [hv.plain_padded]
    exact .item hb.plain ih hb'.plain
  | items hb hv hb' _ ih ihs =>
    rw [plainLineEnds_append_cons (by decide) (by decide), hv.plain_padded]
    exact .items hb.plain ih hb'.plain ihs
  | member hlabel hv hb ih =>
    rw [hv.plain_padded]
    exact .member hlabel.plain ih hb.plain
  | members hlabel hv hb _ ih ihs =>
    rw [plainLineEnds_append_cons (by decide) (by decide), hv.plain_padded]
    exact .members hlabel.plain ih hb.plain ihs

theorem Document.plain {v : Value} (h : Document cs v) : Document (plainLineEnds cs) v := by
  cases h with
  | intro hb hv hb' =>
    rw [hv.plain_padded]
    exact .intro hb.plain hv.plain hb'.plain

end CommandShell.Json
