import CommandShell.Proofs.Json.Scalar
import CommandShell.Proofs.Value

/-! # Reading values

Every text that says a value within the limits of the reader is read, and what is read says the
same. The reader needs two calls for a character at most: one for the value or the member that
starts there, and one for the list or the object around it. -/
namespace CommandShell.Json

open Value (Same)

def SameItems (rs vs : List Value) : Prop :=
  rs.length = vs.length ∧ ∀ (i : Nat) x y, rs[i]? = some x → vs[i]? = some y → Same x y

/-- What was read as members says the same under each name, of which the last one counts. -/
def SameMembers (rs ms : Members) : Prop :=
  ∀ key, (Table.get? rs.reverse key).isSome = (Table.get? ms.reverse key).isSome ∧
    ∀ x y, Table.get? rs.reverse key = some x → Table.get? ms.reverse key = some y → Same x y

/-- How a part of a text is read where something comes after it. -/
def Reads (depth : Nat) (cs : List Char) : Part → Prop
  | .value v => ∀ fuel rest, 2 * cs.length ≤ fuel → Ends rest →
      ∃ r, value fuel depth (cs ++ rest) = .ok (r, rest) ∧ Same r v
  | .items vs => ∀ fuel rest, 2 * cs.length + 1 ≤ fuel →
      ∃ rs, items fuel depth (skipBlanks (cs ++ ']' :: rest)) = .ok (rs, rest) ∧ SameItems rs vs
  | .members ms => ∀ fuel rest, 2 * cs.length + 1 ≤ fuel →
      ∃ rs, members fuel depth (skipBlanks (cs ++ '\x7d' :: rest)) = .ok (rs, rest) ∧
        SameMembers rs ms

variable {fuel depth : Nat} {b cs rest : List Char} {v : Value}

theorem SameItems.single {r : Value} (h : Same r v) : SameItems [r] [v] := by
  refine ⟨rfl, fun i x y hx hy => ?_⟩
  cases i with
  | zero =>
    cases hx
    cases hy
    exact h
  | succ i => simp at hx

theorem SameItems.cons {r : Value} {rs vs : List Value} (h : Same r v) (k : SameItems rs vs) :
    SameItems (r :: rs) (v :: vs) := by
  refine ⟨congrArg (· + 1) k.1, fun i x y hx hy => ?_⟩
  cases i with
  | zero =>
    cases hx
    cases hy
    exact h
  | succ i => exact k.2 i x y hx hy

theorem SameMembers.cons {r : Value} {rs ms : Members} (name : String) (h : Same r v)
    (k : SameMembers rs ms) : SameMembers ((name, r) :: rs) ((name, v) :: ms) := by
  intro key
  obtain ⟨hkeys, hvalues⟩ := k key
  simp only [List.reverse_cons, Table.get?_append]
  cases hr : Table.get? rs.reverse key with
  | some x =>
    rw [hr] at hkeys
    obtain ⟨y, hy⟩ := Option.isSome_iff_exists.mp hkeys.symm
    simpa [hy] using hvalues x y hr hy
  | none =>
    have hm : Table.get? ms.reverse key = none := by
      cases hm : Table.get? ms.reverse key with
      | none => rfl
      | some y => simp [hr, hm] at hkeys
    by_cases hname : name = key
    · simpa [hm, Table.get?, hname] using h
    · simp [hm, Table.get?, hname]

theorem SameMembers.nil : SameMembers [] [] :=
  fun _ => ⟨rfl, fun _ _ hx => by simp [Table.get?] at hx⟩

theorem SameMembers.object {rs ms data : Members} (h : SameMembers rs ms)
    (hdata : ∀ key, data.get? key = Table.get? ms.reverse key) :
    Same (.object (Table.ofList rs)) (.object data) := by
  refine .object (fun key => ?_) fun key x y hx hy => ?_
  · rw [Table.get?_ofList, hdata]
    exact (h key).1
  · rw [Table.get?_ofList] at hx
    rw [hdata] at hy
    exact (h key).2 x y hx hy

theorem skipBlanks_append (hb : Blank b) (rest : List Char) :
    skipBlanks (b ++ rest) = skipBlanks rest := by
  induction b with
  | nil => rfl
  | cons c b ih =>
    have hc : isBlank c = true := by
      rcases hb c List.mem_cons_self with rfl | rfl | rfl | rfl <;> rfl
    have hb' : Blank b := fun d hd => hb d (List.mem_cons_of_mem c hd)
    rw [List.cons_append, skipBlanks, List.dropWhile_cons_of_pos hc]
    exact ih hb'

theorem skipBlanks_cons {c : Char} (hc : isBlank c = false) :
    skipBlanks (c :: rest) = c :: rest := by
  rw [skipBlanks, List.dropWhile_cons_of_neg (by simp [hc])]

theorem skipBlanks_to {c : Char} (hb : Blank b) (hc : isBlank c = false) :
    skipBlanks (b ++ c :: rest) = c :: rest := by
  rw [skipBlanks_append hb, skipBlanks_cons hc]

theorem Ends.append (hb : Blank b) (h : Ends rest) : Ends (b ++ rest) := by
  cases b with
  | nil => exact h
  | cons c b =>
    intro d hd
    cases hd
    rcases hb c List.mem_cons_self with rfl | rfl | rfl | rfl <;> decide

theorem ends_of_mark {c : Char} (hc : c = ',' ∨ c = ']' ∨ c = '\x7d') : Ends (c :: rest) := by
  intro d hd
  cases hd
  rcases hc with rfl | rfl | rfl <;> decide

theorem value_scalar {c : Char} (hquote : c ≠ '"') (hbracket : c ≠ '[') (hbrace : c ≠ '\x7b') :
    value (fuel + 1) depth (c :: cs) = match word? (c :: cs) with
      | some found => .ok found
      | none => (number? (c :: cs)).getD (.error (.complaint .expectedValue (c :: cs))) := by
  unfold value
  dsimp only
  split <;> first | rfl | simp_all

theorem value_number (negative : Bool) {c : Char} (hc : c.isDigit = true) {r : List Char}
    {x : Except Halt (Value × List Char)} (hx : unsigned? negative (c :: r) = some x) :
    value (fuel + 1) depth (sign negative ++ c :: r) = x := by
  have hword := word?_number negative hc r
  have hnumber := number?_sign negative hc r
  have hhead : ∃ d ds, sign negative ++ c :: r = d :: ds ∧ d ≠ '"' ∧ d ≠ '[' ∧ d ≠ '\x7b' := by
    cases negative with
    | true => exact ⟨'-', c :: r, rfl, by decide, by decide, by decide⟩
    | false =>
      refine ⟨c, r, rfl, ?_, ?_, ?_⟩
      all_goals
        rintro rfl
        simp at hc
  obtain ⟨d, ds, hds, hquote, hbracket, hbrace⟩ := hhead
  rw [hds] at hword hnumber ⊢
  rw [value_scalar hquote hbracket hbrace, hword, hnumber, hx]
  rfl

theorem value_word {w : String} (h : (w, v) ∈ words) :
    value (fuel + 1) depth (w.toList ++ rest) = .ok (v, rest) := by
  have hword := word?_written h rest
  have hhead : ∃ d ds, w.toList ++ rest = d :: ds ∧ d ≠ '"' ∧ d ≠ '[' ∧ d ≠ '\x7b' := by
    simp only [words, List.mem_cons, Prod.mk.injEq, List.not_mem_nil, or_false] at h
    rcases h with ⟨rfl, -⟩ | ⟨rfl, -⟩ | ⟨rfl, -⟩ | ⟨rfl, -⟩ | ⟨rfl, -⟩ | ⟨rfl, -⟩
    all_goals exact ⟨_, _, rfl, by decide, by decide, by decide⟩
  obtain ⟨d, ds, hds, hquote, hbracket, hbrace⟩ := hhead
  rw [hds] at hword ⊢
  rw [value_scalar hquote hbracket hbrace, hword]

theorem value_text {s : List Char} (h : Spells cs s) :
    value (fuel + 1) depth ('"' :: cs ++ '"' :: rest) = .ok (.text (String.ofList s), rest) := by
  rw [List.cons_append, value, string_spelled h]
  rfl

theorem value_emptyList (hb : Blank b) :
    value (fuel + 1) (depth + 1) ('[' :: b ++ ']' :: rest) = .ok (.list [], rest) := by
  rw [List.cons_append, value, skipBlanks_to hb (by decide)]
  rfl

theorem value_list {r : List Char} (h : ∀ s, skipBlanks cs ≠ ']' :: s) {rs : List Value}
    (hitems : items fuel depth (skipBlanks cs) = .ok (rs, r)) :
    value (fuel + 1) (depth + 1) ('[' :: cs) = .ok (.list rs, r) := by
  rw [value]
  split
  · next s hs => exact absurd hs (h s)
  · rw [hitems]
    rfl

theorem value_emptyObject (hb : Blank b) :
    value (fuel + 1) (depth + 1) ('\x7b' :: b ++ '\x7d' :: rest) = .ok (.object [], rest) := by
  rw [List.cons_append, value, skipBlanks_to hb (by decide)]
  rfl

theorem value_object {r : List Char} (h : ∀ s, skipBlanks cs ≠ '\x7d' :: s)
    {rs : List (String × Value)} (hmembers : members fuel depth (skipBlanks cs) = .ok (rs, r)) :
    value (fuel + 1) (depth + 1) ('\x7b' :: cs) = .ok (.object (Table.ofList rs), r) := by
  rw [value]
  split
  · next s hs => exact absurd hs (h s)
  · rw [hmembers]
    rfl

theorem items_last {r : Value} (hb : Blank b)
    (h : value fuel depth cs = .ok (r, b ++ ']' :: rest)) :
    items (fuel + 1) depth cs = .ok ([r], rest) := by
  have hskip : skipBlanks (b ++ ']' :: rest) = ']' :: rest := skipBlanks_to hb (by decide)
  rw [items, h]
  simp [bind, Except.bind, hskip]

theorem items_more {r : Value} {rs : List Value} {ds : List Char} (hb : Blank b)
    (h : value fuel depth cs = .ok (r, b ++ ',' :: ds))
    (hitems : items fuel depth (skipBlanks ds) = .ok (rs, rest)) :
    items (fuel + 1) depth cs = .ok (r :: rs, rest) := by
  have hskip : skipBlanks (b ++ ',' :: ds) = ',' :: ds := skipBlanks_to hb (by decide)
  rw [items, h]
  simp [bind, Except.bind, hskip, hitems]

theorem skipBlanks_label {label : List Char} {name : String} (h : Label label name) {c : Char}
    (hc : isBlank c = false) (cs : List Char) : ∃ r s, skipBlanks (label ++ c :: cs) = '"' :: r ∧
      string ('"' :: r) r = .ok (name, s) ∧
      ∃ t, skipBlanks s = ':' :: t ∧ skipBlanks t = c :: cs := by
  cases h with
  | @intro b key s b' b'' hb hkey hb' hb'' =>
    refine ⟨key ++ '"' :: (b' ++ ':' :: (b'' ++ c :: cs)), b' ++ ':' :: (b'' ++ c :: cs), ?_,
      string_spelled hkey _ _, b'' ++ c :: cs, ?_, ?_⟩
    · simp only [List.append_assoc, List.cons_append]
      exact skipBlanks_to hb (by decide)
    · exact skipBlanks_to hb' (by decide)
    · exact skipBlanks_to hb'' hc

theorem members_last {label : List Char} {name : String} {c : Char} {x : Value}
    (hlabel : Label label name) (hc : isBlank c = false) (hb : Blank b)
    (h : value fuel depth (c :: cs) = .ok (x, b ++ '\x7d' :: rest)) :
    members (fuel + 1) depth (skipBlanks (label ++ c :: cs)) = .ok ([(name, x)], rest) := by
  obtain ⟨r, s, hopen, hname, t, hcolon, hvalue⟩ := skipBlanks_label hlabel hc cs
  have hskip : skipBlanks (b ++ '\x7d' :: rest) = '\x7d' :: rest := skipBlanks_to hb (by decide)
  rw [hopen, members, hname]
  simp [bind, Except.bind, hcolon, hvalue, h, hskip]

theorem members_more {label : List Char} {name : String} {c : Char} {x : Value}
    {rs : List (String × Value)} {ds : List Char} (hlabel : Label label name)
    (hc : isBlank c = false) (hb : Blank b)
    (h : value fuel depth (c :: cs) = .ok (x, b ++ ',' :: ds))
    (hmembers : members fuel depth (skipBlanks ds) = .ok (rs, rest)) :
    members (fuel + 1) depth (skipBlanks (label ++ c :: cs)) = .ok ((name, x) :: rs, rest) := by
  obtain ⟨r, s, hopen, hname, t, hcolon, hvalue⟩ := skipBlanks_label hlabel hc cs
  have hskip : skipBlanks (b ++ ',' :: ds) = ',' :: ds := skipBlanks_to hb (by decide)
  rw [hopen, members, hname]
  simp [bind, Except.bind, hcolon, hvalue, h, hskip, hmembers]

/-- The items of a list start with a value, so they are not taken for the end of the list. -/
theorem Denotes.skip_items {vs : List Value} (h : Denotes depth cs (.items vs)) (s : List Char) :
    skipBlanks (cs ++ rest) ≠ ']' :: s := by
  have hvalue {b cs ds : List Char} {v : Value} (hb : Blank b) (hv : Denotes depth cs (.value v)) :
      skipBlanks (b ++ (cs ++ ds)) ≠ ']' :: s := by
    obtain ⟨c, r, rfl, hc⟩ := hv.head
    rw [List.cons_append, skipBlanks_to hb hc.not_blank]
    simp [hc.not_bracket]
  cases h with
  | item hb hv _ =>
    simp only [List.append_assoc]
    exact hvalue hb hv
  | items hb hv _ _ =>
    simp only [List.append_assoc]
    exact hvalue hb hv

theorem Denotes.skip_members {ms : List (String × Value)} (h : Denotes depth cs (.members ms))
    (s : List Char) : skipBlanks (cs ++ rest) ≠ '\x7d' :: s := by
  have hlabel {label cs ds : List Char} {name : String} {v : Value} (hl : Label label name)
      (hv : Denotes depth cs (.value v)) : skipBlanks (label ++ (cs ++ ds)) ≠ '\x7d' :: s := by
    obtain ⟨c, r, rfl, hc⟩ := hv.head
    obtain ⟨t, -, hopen, -⟩ := skipBlanks_label hl hc.not_blank (r ++ ds)
    rw [List.cons_append, hopen]
    simp
  cases h with
  | member hl hv _ =>
    simp only [List.append_assoc]
    exact hlabel hl hv
  | members hl hv _ _ =>
    simp only [List.append_assoc]
    exact hlabel hl hv

theorem Denotes.exists_fuel (h : Denotes depth cs (.value v)) (hfuel : 2 * cs.length ≤ fuel) :
    ∃ f, fuel = f + 1 := by
  obtain ⟨c, r, rfl, -⟩ := h.head
  rw [List.length_cons] at hfuel
  exact ⟨fuel - 1, by omega⟩

/-- What starts with the digits of a number is read as the number. -/
theorem value_digits (negative : Bool) (n : Nat) {tail : List Char}
    (hx : unsigned? negative (Nat.toDigits 10 n ++ tail) = some (.ok (v, rest))) :
    value (fuel + 1) depth (sign negative ++ (Nat.toDigits 10 n ++ tail)) = .ok (v, rest) := by
  obtain ⟨c, ds, hds⟩ := List.exists_cons_of_ne_nil (Nat.toDigits_ne_nil (n := n) (b := 10))
  have hdigit : c.isDigit = true := isDigit_toDigits n c (hds ▸ List.mem_cons_self)
  rw [hds, List.cons_append] at hx ⊢
  exact value_number negative hdigit hx

/-- A part of a text is read, and what is read says what it says. -/
theorem Denotes.reads {p : Part} (h : Denotes depth cs p) : Reads depth cs p := by
  induction h with
  | @word depth w v hw =>
    intro fuel rest hfuel _
    have hword : Denotes depth _ (.value v) := .word hw
    obtain ⟨fuel, rfl⟩ := hword.exists_fuel hfuel
    exact ⟨v, value_word hw, .refl v⟩
  | @integer depth n negative hn =>
    intro fuel rest hfuel hrest
    have hnumber : Denotes depth _ (.value _) := .integer negative hn
    obtain ⟨fuel, rfl⟩ := hnumber.exists_fuel hfuel
    refine ⟨_, ?_, .refl _⟩
    rw [List.append_assoc]
    exact value_digits negative n (unsigned?_integer negative hn hrest)
  | @real depth n fraction places exponent power negative hfraction hexponent hne =>
    intro fuel rest hfuel hrest
    have hnumber : Denotes depth _ (.value _) := .real (n := n) negative hfraction hexponent hne
    obtain ⟨fuel, rfl⟩ := hnumber.exists_fuel hfuel
    have hx := unsigned?_real (n := n) negative hfraction hexponent hne hrest
    refine ⟨_, ?_, .refl _⟩
    simp only [List.append_assoc] at hx ⊢
    exact value_digits negative n hx
  | @text depth cs s hs =>
    intro fuel rest hfuel _
    have htext : Denotes depth _ (.value _) := .text hs
    obtain ⟨fuel, rfl⟩ := htext.exists_fuel hfuel
    refine ⟨_, ?_, .refl _⟩
    rw [List.append_assoc]
    exact value_text hs
  | @emptyList depth b hb =>
    intro fuel rest hfuel _
    have hlist : Denotes (depth + 1) _ (.value _) := .emptyList hb
    obtain ⟨fuel, rfl⟩ := hlist.exists_fuel hfuel
    refine ⟨_, ?_, .refl _⟩
    rw [List.append_assoc]
    exact value_emptyList hb
  | @list depth cs vs hitems ih =>
    intro fuel rest hfuel _
    obtain ⟨fuel, rfl⟩ := hitems.list.exists_fuel hfuel
    simp only [List.length_append, List.length_cons, List.length_nil] at hfuel
    obtain ⟨rs, hrs, hsame⟩ := ih fuel rest (by omega)
    refine ⟨.list rs, ?_, .list hsame.1 hsame.2⟩
    rw [List.append_assoc]
    exact value_list (hitems.skip_items) hrs
  | @emptyObject depth b hb =>
    intro fuel rest hfuel _
    have hobject : Denotes (depth + 1) _ (.value _) := .emptyObject hb
    obtain ⟨fuel, rfl⟩ := hobject.exists_fuel hfuel
    refine ⟨_, ?_, .refl _⟩
    rw [List.append_assoc]
    exact value_emptyObject hb
  | @object depth cs ms data hmembers hdata ih =>
    intro fuel rest hfuel _
    obtain ⟨fuel, rfl⟩ := (hmembers.object hdata).exists_fuel hfuel
    simp only [List.length_append, List.length_cons, List.length_nil] at hfuel
    obtain ⟨rs, hrs, hsame⟩ := ih fuel rest (by omega)
    refine ⟨.object (Table.ofList rs), ?_, hsame.object hdata⟩
    rw [List.append_assoc]
    exact value_object (hmembers.skip_members) hrs
  | @item depth b cs b' v hb hv hb' ih =>
    intro fuel rest hfuel
    simp only [List.length_append] at hfuel
    obtain ⟨fuel, rfl⟩ : ∃ f, fuel = f + 1 := ⟨fuel - 1, by omega⟩
    obtain ⟨r, hr, hsame⟩ := ih fuel (b' ++ ']' :: rest) (by omega)
      ((ends_of_mark (by decide)).append hb')
    obtain ⟨c, ds, rfl, hc⟩ := hv.head
    refine ⟨[r], ?_, .single hsame⟩
    simp only [List.append_assoc]
    rw [List.cons_append, skipBlanks_to hb hc.not_blank]
    exact items_last hb' hr
  | @items depth b cs b' v ds vs hb hv hb' hvs ih ihs =>
    intro fuel rest hfuel
    simp only [List.length_append, List.length_cons] at hfuel
    obtain ⟨fuel, rfl⟩ : ∃ f, fuel = f + 1 := ⟨fuel - 1, by omega⟩
    obtain ⟨r, hr, hsame⟩ := ih fuel (b' ++ ',' :: (ds ++ ']' :: rest)) (by omega)
      ((ends_of_mark (by decide)).append hb')
    obtain ⟨rs, hrs, hsames⟩ := ihs fuel rest (by omega)
    obtain ⟨c, es, rfl, hc⟩ := hv.head
    refine ⟨r :: rs, ?_, hsames.cons hsame⟩
    simp only [List.append_assoc, List.cons_append]
    rw [skipBlanks_to hb hc.not_blank]
    exact items_more hb' hr hrs
  | @member depth label name cs b v hlabel hv hb ih =>
    intro fuel rest hfuel
    simp only [List.length_append] at hfuel
    obtain ⟨fuel, rfl⟩ : ∃ f, fuel = f + 1 := ⟨fuel - 1, by omega⟩
    obtain ⟨r, hr, hsame⟩ := ih fuel (b ++ '\x7d' :: rest) (by omega)
      ((ends_of_mark (by decide)).append hb)
    obtain ⟨c, ds, rfl, hc⟩ := hv.head
    refine ⟨[(name, r)], ?_, SameMembers.nil.cons name hsame⟩
    simp only [List.append_assoc]
    exact members_last hlabel hc.not_blank hb hr
  | @members depth label name cs b v ds ms hlabel hv hb hms ih ihs =>
    intro fuel rest hfuel
    simp only [List.length_append, List.length_cons] at hfuel
    obtain ⟨fuel, rfl⟩ : ∃ f, fuel = f + 1 := ⟨fuel - 1, by omega⟩
    obtain ⟨r, hr, hsame⟩ := ih fuel (b ++ ',' :: (ds ++ '\x7d' :: rest)) (by omega)
      ((ends_of_mark (by decide)).append hb)
    obtain ⟨rs, hrs, hsames⟩ := ihs fuel rest (by omega)
    obtain ⟨c, es, rfl, hc⟩ := hv.head
    refine ⟨(name, r) :: rs, ?_, hsames.cons name hsame⟩
    simp only [List.append_assoc, List.cons_append]
    exact members_more hlabel hc.not_blank hb hr hrs

theorem Document.no_mark (h : Document cs v) (r : List Char) : cs ≠ '\uFEFF' :: r := by
  cases h with
  | @intro b cs b' v hb hv hb' =>
    obtain ⟨c, ds, rfl, hc⟩ := hv.head
    cases b with
    | nil => simp [hc.not_mark]
    | cons d b =>
      have hd : d ≠ '\uFEFF' := by
        rcases hb d List.mem_cons_self with rfl | rfl | rfl | rfl <;> decide
      simp [hd]

theorem document_written (h : Document cs v) : ∃ r, document cs = .ok r ∧ Same r v := by
  have hmark := h.no_mark
  cases h with
  | @intro b cs b' v hb hv hb' =>
    have hends : Ends b' := by
      have hnil : Ends [] := fun _ hc => by simp at hc
      simpa using hnil.append hb'
    have hfuel : 2 * cs.length ≤ 2 * (b ++ cs ++ b').length + 2 := by
      simp only [List.length_append]
      omega
    obtain ⟨r, hr, hsame⟩ := hv.reads _ b' hfuel hends
    obtain ⟨c, ds, rfl, hc⟩ := hv.head
    have hskip : skipBlanks (b ++ c :: ds ++ b') = c :: ds ++ b' := by
      rw [List.append_assoc, List.cons_append, skipBlanks_to hb hc.not_blank]
    have hrest : skipBlanks b' = [] := by
      have hnil := skipBlanks_append hb' []
      rwa [List.append_nil] at hnil
    refine ⟨r, ?_, hsame⟩
    rw [document, hskip, hr]
    · simp [hrest, bind, Except.bind]
    · exact fun rest heq => hmark rest heq

/-- A text that says a value is read, and what is read says the same. -/
theorem read_document {text : String} (h : Document text.toList v) :
    ∃ r, read text = .ok r ∧ Same r v := by
  obtain ⟨r, hr, hsame⟩ := document_written h
  refine ⟨r, ?_, hsame⟩
  simp only [read, hr]

end CommandShell.Json
