import CommandShell.Proofs.Json.Grammar
import CommandShell.Proofs.Number.Integer

/-! # Reading scalars

A string, a number or a word at the front of a text is read to its end and no further, provided that
what comes after a number does not continue it. -/
namespace CommandShell.Json

variable {cs rest : List Char}

/-- A code unit that is not half of a pair is a character of its own. -/
theorem characters_unit {n : Nat} (h : n < 0xD800 ∨ 0xE000 ≤ n) (ns : List Nat) :
    characters (n :: ns) = Char.ofNat n :: characters ns := by
  have hhigh : isHighSurrogate n = false := by
    simp only [isHighSurrogate, Bool.and_eq_false_iff, decide_eq_false_iff_not]
    omega
  have hlow : isLowSurrogate n = false := by
    simp only [isLowSurrogate, Bool.and_eq_false_iff, decide_eq_false_iff_not]
    omega
  cases ns with
  | nil => simp [characters, hhigh, hlow]
  | cons m ns => simp [characters, hhigh, hlow]

theorem characters_pair {high low : Nat} (hhigh : 0xD800 ≤ high ∧ high < 0xDC00)
    (hlow : 0xDC00 ≤ low ∧ low < 0xE000) (ns : List Nat) : characters (high :: low :: ns) =
      Char.ofNat (0x10000 + (high - 0xD800) * 0x400 + (low - 0xDC00)) :: characters ns := by
  have hh : isHighSurrogate high = true := by simp [isHighSurrogate, hhigh]
  have hl : isLowSurrogate low = true := by simp [isLowSurrogate, hlow]
  simp [characters, hh, hl]

theorem characters_char (c : Char) (ns : List Nat) :
    characters (c.toNat :: ns) = c :: characters ns := by
  have hc : c.toNat < 0xD800 ∨ 0xE000 ≤ c.toNat := by
    rcases c.valid with h | ⟨h, -⟩
    · exact .inl h
    · exact .inr h
  rw [characters_unit hc, Char.ofNat_toNat]

theorem stringUnits_raw (opening : List Char) {c : Char} (hc : 0x20 ≤ c.toNat) (hquote : c ≠ '"')
    (hslash : c ≠ '\\') : stringUnits opening (c :: cs) =
      (stringUnits opening cs).map fun (ns, rest) => (c.toNat :: ns, rest) := by
  rw [stringUnits, if_neg (by omega)]
  · exact hquote
  all_goals simp [hslash]

theorem stringUnits_escape (opening : List Char) {c d : Char} (h : escapes.get? c = some d) :
    stringUnits opening ('\\' :: c :: cs) =
      (stringUnits opening cs).map fun (ns, rest) => (d.toNat :: ns, rest) := by
  have hu : c ≠ 'u' := by
    rintro rfl
    have hnone : escapes.get? 'u' = none := by decide
    simp [hnone] at h
  rw [stringUnits, h]
  all_goals simp [hu]

theorem stringUnits_unit (opening : List Char) {a b c d e : Char} {n : Nat}
    (h : codeUnit? a b c d = some n) :
    stringUnits opening ('\\' :: 'u' :: a :: b :: c :: d :: e :: cs) =
      (stringUnits opening (e :: cs)).map fun (ns, rest) => (n :: ns, rest) := by
  simp [stringUnits, h]

theorem stringUnits_spelled {s : List Char} (h : Spells cs s) (opening rest : List Char) :
    ∃ ns, stringUnits opening (cs ++ '"' :: rest) = .ok (ns, rest) ∧ characters ns = s := by
  induction h with
  | nil => exact ⟨[], rfl, rfl⟩
  | @raw c cs s hc hquote hslash _ ih =>
    obtain ⟨ns, hns, hs⟩ := ih
    refine ⟨c.toNat :: ns, ?_, ?_⟩
    · rw [List.cons_append, stringUnits_raw opening hc hquote hslash, hns]
      rfl
    · rw [characters_char, hs]
  | @escape c d cs s hd _ ih =>
    obtain ⟨ns, hns, hs⟩ := ih
    refine ⟨d.toNat :: ns, ?_, ?_⟩
    · rw [List.cons_append, List.cons_append, stringUnits_escape opening hd, hns]
      rfl
    · rw [characters_char, hs]
  | @unit a b c d n cs s hn hsurrogate _ ih =>
    obtain ⟨ns, hns, hs⟩ := ih
    obtain ⟨e, r, hr⟩ := List.exists_cons_of_ne_nil
      (List.append_ne_nil_of_right_ne_nil cs (List.cons_ne_nil '"' rest))
    refine ⟨n :: ns, ?_, ?_⟩
    · simp only [List.cons_append, hr]
      rw [stringUnits_unit opening hn, ← hr, hns]
      rfl
    · rw [characters_unit hsurrogate, hs]
  | @pair a b c d high a' b' c' d' low cs s hhigh hinHigh hlow hinLow _ ih =>
    obtain ⟨ns, hns, hs⟩ := ih
    obtain ⟨e, r, hr⟩ := List.exists_cons_of_ne_nil
      (List.append_ne_nil_of_right_ne_nil cs (List.cons_ne_nil '"' rest))
    refine ⟨high :: low :: ns, ?_, ?_⟩
    · simp only [List.cons_append, hr]
      rw [stringUnits_unit opening hhigh, stringUnits_unit opening hlow, ← hr, hns]
      rfl
    · rw [characters_pair hinHigh hinLow, hs]

theorem string_spelled {s : List Char} (h : Spells cs s) (opening rest : List Char) :
    string opening (cs ++ '"' :: rest) = .ok (String.ofList s, rest) := by
  obtain ⟨ns, hns, hs⟩ := stringUnits_spelled h opening rest
  rw [string, hns, ← hs]
  rfl

def Ends (rest : List Char) : Prop :=
  ∀ c ∈ rest.head?, isDigit c = false ∧ c ≠ '.' ∧ c ≠ 'e' ∧ c ≠ 'E'

theorem takeWhile_digits {ds : List Char} (hds : ∀ c ∈ ds, c.isDigit = true)
    (hrest : ∀ c ∈ rest.head?, isDigit c = false) :
    (ds ++ rest).takeWhile isDigit = ds ∧ (ds ++ rest).dropWhile isDigit = rest := by
  induction ds with
  | nil =>
    cases rest with
    | nil => exact ⟨rfl, rfl⟩
    | cons c r =>
      have hc : isDigit c = false := hrest c rfl
      simp [hc]
  | cons c ds ih =>
    have hc : isDigit c = true := hds c List.mem_cons_self
    obtain ⟨htake, hdrop⟩ := ih fun d hd => hds d (List.mem_cons_of_mem c hd)
    simp [hc, htake, hdrop]

theorem foldl_digits (ds : List Nat) (n : Nat) :
    ds.foldl (fun n d => 10 * n + d) n = n * Nat.pow 10 ds.length + Integer.ofDigits ds := by
  induction ds generalizing n with
  | nil => exact (Nat.mul_one n).symm
  | cons d ds ih =>
    have hn := ih (10 * n + d)
    have hd := ih (10 * 0 + d)
    have hpow : Nat.pow 10 (ds.length + 1) = Nat.pow 10 ds.length * 10 := rfl
    rw [Integer.ofDigits, List.foldl_cons, List.foldl_cons, hn, hd, List.length_cons, hpow,
      Nat.add_mul, Nat.mul_zero, Nat.zero_add]
    have hassoc : 10 * n * Nat.pow 10 ds.length = n * (Nat.pow 10 ds.length * 10) := by
      rw [Nat.mul_comm 10 n, Nat.mul_assoc, Nat.mul_comm 10]
    omega

theorem naturalOf_append (ds es : List Char) :
    naturalOf (ds ++ es) = naturalOf ds * Nat.pow 10 es.length + naturalOf es := by
  have h := foldl_digits (es.map fun c => c.toNat - 48) (naturalOf ds)
  rw [List.length_map] at h
  rw [naturalOf, List.map_append, Integer.ofDigits, List.foldl_append]
  exact h

theorem naturalOf_toDigits (n : Nat) : naturalOf (Nat.toDigits 10 n) = n :=
  Integer.ofDigits_toDigits n

theorem isDigit_toDigits (n : Nat) : ∀ c ∈ Nat.toDigits 10 n, c.isDigit = true :=
  fun _ hc => Nat.isDigit_of_mem_toDigits (by decide) (by decide) hc

theorem toDigits_head {n : Nat} (hn : n ≠ 0) :
    ∃ c ds, Nat.toDigits 10 n = c :: ds ∧ c ≠ '0' := by
  have hdigit : ∀ d : Fin 10, d.val ≠ 0 → d.val.digitChar ≠ '0' := by decide
  induction n using Nat.strongRecOn with
  | ind n ih =>
    by_cases hsmall : n < 10
    · exact ⟨_, [], Nat.toDigits_of_lt_base hsmall, hdigit ⟨n, hsmall⟩ hn⟩
    · obtain ⟨c, ds, hds, hc⟩ := ih (n / 10) (by omega) (by omega)
      refine ⟨c, ds ++ [(n % 10).digitChar], ?_, hc⟩
      rw [Nat.toDigits_of_base_le (by decide) (by omega), hds, List.cons_append]

theorem wholePart?_toDigits (n : Nat) (hrest : ∀ c ∈ rest.head?, isDigit c = false) :
    wholePart? (Nat.toDigits 10 n ++ rest) = some (Nat.toDigits 10 n, rest) := by
  by_cases hn : n = 0
  · subst hn
    rfl
  · obtain ⟨c, ds, h, hc⟩ := toDigits_head hn
    have hdigits := isDigit_toDigits n
    rw [h] at hdigits ⊢
    have hdigit : isDigit c = true := hdigits c List.mem_cons_self
    obtain ⟨htake, hdrop⟩ :=
      takeWhile_digits (fun d hd => hdigits d (List.mem_cons_of_mem c hd)) hrest
    rw [List.cons_append, wholePart?, if_pos hdigit, htake, hdrop]
    simpa using hc

theorem fraction_written {places : List Char} (h : Fraction cs places)
    (hrest : ∀ c ∈ rest.head?, isDigit c = false ∧ c ≠ '.') :
    fraction (cs ++ rest) = (places, rest) := by
  cases h with
  | none =>
    cases rest with
    | nil => rfl
    | cons c r =>
      have hc : c ≠ '.' := (hrest c rfl).2
      rw [List.nil_append, fraction]
      simp [hc]
  | some hds =>
    obtain ⟨hne, hdigits⟩ := hds
    obtain ⟨c, ds, rfl⟩ := List.exists_cons_of_ne_nil hne
    have hdigit : isDigit c = true := hdigits c List.mem_cons_self
    obtain ⟨htake, hdrop⟩ := takeWhile_digits
      (fun d hd => hdigits d (List.mem_cons_of_mem c hd)) fun d hd => (hrest d hd).1
    rw [List.cons_append, List.cons_append, fraction, if_pos hdigit, htake, hdrop]

theorem exponentDigits?_written {ds : List Char} (h : Digits ds)
    (hrest : ∀ c ∈ rest.head?, isDigit c = false) :
    exponentDigits? (ds ++ rest) = some (ds, rest) := by
  obtain ⟨hne, hdigits⟩ := h
  obtain ⟨c, ds, rfl⟩ := List.exists_cons_of_ne_nil hne
  have hdigit : isDigit c = true := hdigits c List.mem_cons_self
  obtain ⟨htake, hdrop⟩ :=
    takeWhile_digits (fun d hd => hdigits d (List.mem_cons_of_mem c hd)) hrest
  rw [List.cons_append, exponentDigits?, if_pos hdigit, htake, hdrop]

theorem exponent?_none (hrest : ∀ c ∈ rest.head?, c ≠ 'e' ∧ c ≠ 'E') : exponent? rest = none := by
  cases rest with
  | nil => rfl
  | cons c r => simp [exponent?, hrest c rfl]

theorem exponent?_mark {mark : Char} (h : mark = 'e' ∨ mark = 'E') :
    exponent? (mark :: rest) = exponentAfterMark? rest := by
  rw [exponent?, if_pos h]

theorem exponent?_written {power : Int} (h : Exponent cs power) (hne : cs ≠ [])
    (hrest : ∀ c ∈ rest.head?, isDigit c = false) :
    ∃ down ds, exponent? (cs ++ rest) = some ((down, ds), rest) ∧
      power = if down then -(naturalOf ds : Int) else naturalOf ds := by
  cases h with
  | none => exact absurd rfl hne
  | @plain mark ds hmark hds =>
    obtain ⟨c, ds', rfl⟩ := List.exists_cons_of_ne_nil hds.1
    have hdigit : c.isDigit = true := hds.2 c List.mem_cons_self
    have hsigns : c ≠ '-' ∧ c ≠ '+' := by
      constructor
      all_goals
        rintro rfl
        simp at hdigit
    refine ⟨false, c :: ds', ?_, rfl⟩
    rw [List.cons_append, exponent?_mark hmark, List.cons_append, exponentAfterMark?,
      ← List.cons_append, exponentDigits?_written hds hrest]
    · rfl
    all_goals simp [hsigns]
  | @plus mark ds hmark hds =>
    refine ⟨false, ds, ?_, rfl⟩
    rw [List.cons_append, exponent?_mark hmark, List.cons_append, exponentAfterMark?,
      exponentDigits?_written hds hrest]
    rfl
  | @minus mark ds hmark hds =>
    refine ⟨true, ds, ?_, rfl⟩
    rw [List.cons_append, exponent?_mark hmark, List.cons_append, exponentAfterMark?,
      exponentDigits?_written hds hrest]
    rfl

theorem Exponent.head {power : Int} (h : Exponent cs power) (hrest : Ends rest) :
    ∀ c ∈ (cs ++ rest).head?, isDigit c = false ∧ c ≠ '.' := by
  have hmark {mark : Char} (hm : mark = 'e' ∨ mark = 'E') : isDigit mark = false ∧ mark ≠ '.' := by
    rcases hm with rfl | rfl <;> decide
  cases h with
  | none => exact fun c hc => ⟨(hrest c hc).1, (hrest c hc).2.1⟩
  | plain hm _ => simpa using hmark hm
  | plus hm _ => simpa using hmark hm
  | minus hm _ => simpa using hmark hm

theorem Fraction.head {places : List Char} (h : Fraction cs places)
    (hrest : ∀ c ∈ rest.head?, isDigit c = false ∧ c ≠ '.') :
    ∀ c ∈ (cs ++ rest).head?, isDigit c = false := by
  cases h with
  | none => exact fun c hc => (hrest c hc).1
  | some _ => simp [isDigit]

theorem unsigned?_integer {n : Nat} (negative : Bool)
    (hn : (Nat.toDigits 10 n).length ≤ Integer.digitLimit) (hrest : Ends rest) :
    unsigned? negative (Nat.toDigits 10 n ++ rest) =
      some (.ok (.integer (if negative then -(n : Int) else n), rest)) := by
  have hwhole := wholePart?_toDigits n fun c hc => (hrest c hc).1
  have hfraction := fraction_written .none fun c hc => ⟨(hrest c hc).1, (hrest c hc).2.1⟩
  have hexponent := exponent?_none fun c hc => (hrest c hc).2.2
  rw [List.nil_append] at hfraction
  simp [unsigned?, hwhole, hfraction, hexponent, naturalOf_toDigits, Nat.not_lt.mpr hn]

theorem unsigned?_real {n : Nat} {fraction places exponent : List Char} {power : Int}
    (negative : Bool) (hfraction : Fraction fraction places) (hexponent : Exponent exponent power)
    (hne : fraction ++ exponent ≠ []) (hrest : Ends rest) :
    unsigned? negative (Nat.toDigits 10 n ++ fraction ++ exponent ++ rest) =
      some (.ok (.real (.ofDecimal negative (n * Nat.pow 10 places.length + naturalOf places)
        (power - places.length)), rest)) := by
  have hhead := hexponent.head hrest
  have hwhole := wholePart?_toDigits n (hfraction.head hhead)
  have hplaces := fraction_written hfraction hhead
  have hdigits : naturalOf (Nat.toDigits 10 n ++ places) =
      n * Nat.pow 10 places.length + naturalOf places := by
    rw [naturalOf_append, naturalOf_toDigits]
  simp only [List.append_assoc] at hwhole ⊢
  rw [unsigned?, hwhole]
  dsimp only
  rw [hplaces]
  dsimp only
  by_cases he : exponent = []
  · -- Without an exponent there is a fraction, which tells the number from an integer.
    subst he
    cases hexponent
    have hplain := exponent?_none fun c hc => (hrest c hc).2.2
    have hsome : places.isEmpty = false := by
      cases hfraction with
      | none => exact absurd rfl hne
      | some hds => simpa using hds.1
    rw [List.nil_append, hplain]
    simp [hsome, hdigits]
  · obtain ⟨down, ds, hpower, rfl⟩ := exponent?_written hexponent he fun c hc => (hrest c hc).1
    rw [hpower]
    simp only [hdigits]

theorem number?_sign (negative : Bool) {c : Char} (hc : c.isDigit = true) (cs : List Char) :
    number? (sign negative ++ c :: cs) = unsigned? negative (c :: cs) := by
  cases negative with
  | true => rfl
  | false =>
    have hne : c ≠ '-' := by
      rintro rfl
      simp at hc
    rw [sign, if_neg (by simp), List.nil_append, number?]
    simpa using hne

theorem word?_number (negative : Bool) {c : Char} (hc : c.isDigit = true) (cs : List Char) :
    word? (sign negative ++ c :: cs) = none := by
  have hne {d : Char} (hd : d.isDigit = false) : d ≠ c := by
    rintro rfl
    simp [hd] at hc
  cases negative with
  | true => simp [sign, word?, words, afterWord?, hne]
  | false => simp [sign, word?, words, afterWord?, hne]

theorem word?_written {w : String} {v : Value} (h : (w, v) ∈ words) (rest : List Char) :
    word? (w.toList ++ rest) = some (v, rest) := by
  simp only [words, List.mem_cons, Prod.mk.injEq, List.not_mem_nil, or_false] at h
  rcases h with ⟨rfl, rfl⟩ | ⟨rfl, rfl⟩ | ⟨rfl, rfl⟩ | ⟨rfl, rfl⟩ | ⟨rfl, rfl⟩ | ⟨rfl, rfl⟩
  all_goals simp [word?, words, afterWord?]

end CommandShell.Json
