import Mathlib.Data.List.TakeWhile
import Mathlib.Data.Nat.Digits.Defs
import CommandShell.Number

/-! # Integers and their texts

An integer may stand between blanks and may have a sign; its digits are those of any script, and a
single underscore may stand between two of them. The texts that are read as an integer are exactly
those of this form that have few enough digits, and the decimal form of an integer is read back. -/
namespace CommandShell.Integer

open Text (digitValue?)

/-- Digits with their values. A single underscore may stand between two of them. -/
inductive Digits : List Char → List Nat → Prop where
  | last {c d} : digitValue? c = some d → Digits [c] [d]
  | next {c d cs ds} : digitValue? c = some d → Digits cs ds → Digits (c :: cs) (d :: ds)
  | underscore {c d cs ds} : digitValue? c = some d → Digits cs ds →
      Digits (c :: '_' :: cs) (d :: ds)

inductive Sign : List Char → Int → Prop where
  | none : Sign [] 1
  | plus : Sign ['+'] 1
  | minus : Sign ['-'] (-1)

inductive Signed (cs : List Char) (n : Int) : Prop where
  | intro {sign digits factor ds} : Sign sign factor → Digits digits ds → cs = sign ++ digits →
      n = factor * (Nat.ofDigits 10 ds.reverse : Nat) → Signed cs n

def AllPadding (cs : List Char) : Prop :=
  ∀ c ∈ cs, isPadding c = true

instance (cs : List Char) : Decidable (AllPadding cs) :=
  List.decidableBAll (fun c => isPadding c = true) cs

inductive Denotes (s : String) (n : Int) : Prop where
  | intro {before core after} : AllPadding before → Signed core n → AllPadding after →
      s.toList = before ++ core ++ after → Denotes s n

def digitCount (cs : List Char) : Nat :=
  cs.countP fun c => (digitValue? c).isSome

variable {c : Char} {cs : List Char} {d : Nat} {ds : List Nat} {n : Int} {s : String}

def blankRanges : List (Nat × Nat) :=
  [(0x09, 0x0D), (0x1C, 0x20), (0x85, 0x85), (0xA0, 0xA0), (0x1680, 0x1680), (0x2000, 0x200A),
   (0x2028, 0x2029), (0x202F, 0x202F), (0x205F, 0x205F), (0x3000, 0x3000)]

theorem exists_blankRange (h : Text.isBlank c = true) :
    ∃ r ∈ blankRanges, r.1 ≤ c.toNat ∧ c.toNat ≤ r.2 := by
  simp only [Text.isBlank, Bool.or_eq_true, Bool.and_eq_true, decide_eq_true_eq, beq_iff_eq] at h
  simp only [blankRanges, List.mem_cons, List.not_mem_nil, or_false, exists_eq_or_imp,
    exists_eq_left]
  omega

/-- No script has a digit among the blanks. -/
theorem digitValue?_of_isBlank (h : Text.isBlank c = true) : digitValue? c = none := by
  have hapart : ∀ r ∈ blankRanges, ∀ z ∈ Text.zeros, z + 10 ≤ r.1 ∨ r.2 < z := by decide
  obtain ⟨r, hr, hlow, hhigh⟩ := exists_blankRange h
  rw [digitValue?, Option.map_eq_none_iff, List.find?_eq_none]
  intro z hz hin
  simp only [Bool.and_eq_true, decide_eq_true_eq] at hin
  have hz := hapart r hr z hz
  omega

theorem isBlank_of_isPadding (h : isPadding c = true) : Text.isBlank c = true := by
  simp only [isPadding, Bool.or_eq_true, Bool.and_eq_true] at h
  rcases h with h | h
  · exact Text.isBlank_of_isAsciiSpace h
  · exact h.2

theorem not_isPadding_of_digit (h : digitValue? c = some d) : isPadding c = false := by
  by_contra hpad
  have hnone := digitValue?_of_isBlank (isBlank_of_isPadding (by simpa using hpad))
  rw [hnone] at h
  cases h

theorem digitValue?_of_isDigit (h : c.isDigit = true) : digitValue? c = some (c.toNat - 48) := by
  have hrange : 48 ≤ c.toNat ∧ c.toNat < 58 := by
    simp only [Char.isDigit, Bool.and_eq_true, decide_eq_true_eq, UInt32.le_iff_toNat_le] at h
    exact ⟨h.1, Nat.lt_succ_of_le h.2⟩
  obtain ⟨others, hzeros⟩ : ∃ others, Text.zeros = 48 :: others := ⟨_, rfl⟩
  rw [digitValue?, hzeros, List.find?_cons_of_pos (by simpa using hrange)]
  rfl

theorem Digits.exists_head (h : Digits cs ds) : ∃ c r d, cs = c :: r ∧ digitValue? c = some d := by
  cases h with
  | last hc => exact ⟨_, _, _, rfl, hc⟩
  | next hc => exact ⟨_, _, _, rfl, hc⟩
  | underscore hc => exact ⟨_, _, _, rfl, hc⟩

theorem digits?_next {e : Char} {r : List Char} (hc : digitValue? c = some d) (he : e ≠ '_') :
    digits? (c :: e :: r) = (digits? (e :: r)).map (d :: ·) := by
  rw [digits?.eq_def]
  simp [hc, he]

theorem digits?_of_digits (h : Digits cs ds) : digits? cs = some ds := by
  have hmark : digitValue? '_' = none := by decide
  induction h with
  | last hc => simp [digits?, hc]
  | @next c d cs ds hc hcs ih =>
    obtain ⟨e, r, de, rfl, he⟩ := hcs.exists_head
    have hne : e ≠ '_' := by
      rintro rfl
      rw [hmark] at he
      cases he
    rw [digits?_next hc hne, ih]
    rfl
  | underscore hc _ ih => simp [digits?, hc, ih]

theorem digits_of_digits? (h : digits? cs = some ds) : Digits cs ds := by
  fun_induction digits? cs generalizing ds with
  | case1 => cases h
  | case2 => cases h
  | case3 c d hc =>
    cases h
    exact .last hc
  | case4 c d r hc ih =>
    obtain ⟨es, hes, rfl⟩ := Option.map_eq_some_iff.mp h
    exact .underscore hc (ih hes)
  | case5 c r d _ _ hc ih =>
    obtain ⟨es, hes, rfl⟩ := Option.map_eq_some_iff.mp h
    exact .next hc (ih hes)

theorem digits?_eq_some_iff : digits? cs = some ds ↔ Digits cs ds :=
  ⟨digits_of_digits?, digits?_of_digits⟩

theorem ofDigits_eq (ds : List Nat) : ofDigits ds = Nat.ofDigits 10 ds.reverse := by
  rw [ofDigits, Nat.ofDigits_eq_foldr, List.foldr_reverse]
  congr 1
  funext n d
  exact Nat.add_comm _ _

theorem Digits.digitCount (h : Digits cs ds) : digitCount cs = ds.length := by
  have hmark : digitValue? '_' = none := by decide
  induction h with
  | last hc => simp [Integer.digitCount, hc]
  | next hc _ ih => simpa [Integer.digitCount, hc] using ih
  | underscore hc _ ih => simpa [Integer.digitCount, hc, hmark] using ih

theorem Digits.exists_last (h : Digits cs ds) :
    ∃ r c d, cs = r ++ [c] ∧ digitValue? c = some d := by
  induction h with
  | @last c d hc => exact ⟨[], c, d, rfl, hc⟩
  | @next c d cs ds _ _ ih =>
    obtain ⟨r, e, de, rfl, he⟩ := ih
    exact ⟨c :: r, e, de, rfl, he⟩
  | @underscore c d cs ds _ _ ih =>
    obtain ⟨r, e, de, rfl, he⟩ := ih
    exact ⟨c :: '_' :: r, e, de, rfl, he⟩

theorem natural?_eq_some_iff {m : Nat} : natural? cs = some m ↔
    ∃ ds, Digits cs ds ∧ digitCount cs ≤ digitLimit ∧ m = Nat.ofDigits 10 ds.reverse := by
  unfold natural?
  constructor
  · intro h
    split at h
    · next ds hds =>
      have hdigits := digits?_eq_some_iff.mp hds
      split at h
      · next hfew =>
        cases h
        exact ⟨ds, hdigits, hdigits.digitCount ▸ hfew, ofDigits_eq ds⟩
      · cases h
    · cases h
  · intro h
    obtain ⟨ds, hdigits, hfew, rfl⟩ := h
    rw [hdigits.digitCount] at hfew
    rw [digits?_eq_some_iff.mpr hdigits, ← ofDigits_eq]
    exact if_pos hfew

theorem Digits.not_sign {r : List Char} (h : Digits (c :: r) ds) : c ≠ '-' ∧ c ≠ '+' := by
  obtain ⟨_, _, d, hcs, hc⟩ := h.exists_head
  obtain ⟨rfl, rfl⟩ := List.cons.inj hcs
  constructor
  · rintro rfl
    have hnone : digitValue? '-' = none := by decide
    simp [hnone] at hc
  · rintro rfl
    have hnone : digitValue? '+' = none := by decide
    simp [hnone] at hc

theorem digitCount_append (as bs : List Char) :
    digitCount (as ++ bs) = digitCount as + digitCount bs :=
  List.countP_append

theorem Sign.digitCount {sign : List Char} {factor : Int} (h : Sign sign factor) :
    digitCount sign = 0 := by
  cases h <;> decide

/-- A sign at the front is read as one, and what is left is read as a natural number. -/
theorem exists_sign (cs : List Char) : ∃ sign factor r, Sign sign factor ∧ cs = sign ++ r ∧
    signed? cs = (natural? r).map fun m : Nat => factor * (m : Int) := by
  unfold signed?
  split
  · next r =>
    refine ⟨['-'], -1, r, .minus, rfl, ?_⟩
    cases natural? r <;> simp
  · next r =>
    refine ⟨['+'], 1, r, .plus, rfl, ?_⟩
    cases natural? r <;> simp
  · refine ⟨[], 1, cs, .none, rfl, ?_⟩
    cases natural? cs <;> simp

theorem Digits.signed? {sign : List Char} {factor : Int} (hds : Digits cs ds)
    (hsign : Sign sign factor) :
    signed? (sign ++ cs) = (natural? cs).map fun m : Nat => factor * (m : Int) := by
  cases hsign with
  | none =>
    obtain ⟨c, r, d, rfl, hc⟩ := hds.exists_head
    obtain ⟨hminus, hplus⟩ := hds.not_sign
    rw [List.nil_append, signed?.eq_def]
    cases h : natural? (c :: r) <;> simp [hminus, hplus, h]
  | plus => cases h : natural? cs <;> simp [Integer.signed?, h]
  | minus => cases h : natural? cs <;> simp [Integer.signed?, h]

theorem signed?_eq_some_iff : signed? cs = some n ↔ Signed cs n ∧ digitCount cs ≤ digitLimit := by
  constructor
  · intro h
    obtain ⟨sign, factor, r, hsign, rfl, heq⟩ := exists_sign cs
    rw [heq] at h
    obtain ⟨m, hm, rfl⟩ := Option.map_eq_some_iff.mp h
    obtain ⟨ds, hds, hfew, rfl⟩ := natural?_eq_some_iff.mp hm
    rw [digitCount_append, hsign.digitCount, Nat.zero_add]
    exact ⟨.intro hsign hds rfl rfl, hfew⟩
  · intro h
    obtain ⟨⟨hsign, hds, rfl, rfl⟩, hfew⟩ := h
    rw [digitCount_append, hsign.digitCount, Nat.zero_add] at hfew
    rw [hds.signed? hsign, natural?_eq_some_iff.mpr ⟨_, hds, hfew, rfl⟩]
    rfl

theorem dropEnd_append {p : Char → Bool} {after : List Char} (h : ∀ c ∈ after, p c = true)
    (cs : List Char) : Text.dropEnd p (cs ++ after) = Text.dropEnd p cs := by
  rw [Text.dropEnd, List.reverse_append, List.dropWhile_append_of_pos (by simpa using h),
    Text.dropEnd]

theorem dropEnd_concat {p : Char → Bool} (h : p c = false) (cs : List Char) :
    Text.dropEnd p (cs ++ [c]) = cs ++ [c] := by
  simp [Text.dropEnd, h]

theorem Signed.exists_head (h : Signed cs n) : ∃ c r, cs = c :: r ∧ isPadding c = false := by
  obtain ⟨hsign, hds, rfl, -⟩ := h
  obtain ⟨c, r, d, rfl, hc⟩ := hds.exists_head
  cases hsign with
  | none => exact ⟨c, r, rfl, not_isPadding_of_digit hc⟩
  | plus => exact ⟨'+', c :: r, rfl, by decide⟩
  | minus => exact ⟨'-', c :: r, rfl, by decide⟩

theorem Signed.exists_last (h : Signed cs n) : ∃ r c, cs = r ++ [c] ∧ isPadding c = false := by
  obtain @⟨sign, _, _, _, hsign, hds, rfl, -⟩ := h
  obtain ⟨r, c, d, rfl, hc⟩ := hds.exists_last
  exact ⟨sign ++ r, c, (List.append_assoc _ _ _).symm, not_isPadding_of_digit hc⟩

theorem Signed.trimmed {before after : List Char} (h : Signed cs n) (hbefore : AllPadding before)
    (hafter : AllPadding after) :
    Text.dropEnd isPadding ((before ++ cs ++ after).dropWhile isPadding) = cs := by
  obtain ⟨c, r, hcr, hc⟩ := h.exists_head
  obtain ⟨q, e, hqe, he⟩ := h.exists_last
  have hfront : (before ++ cs ++ after).dropWhile isPadding = cs ++ after := by
    rw [List.append_assoc, List.dropWhile_append_of_pos hbefore, hcr, List.cons_append,
      List.dropWhile_cons_of_neg (by simp [hc])]
  rw [hfront, dropEnd_append hafter, hqe, dropEnd_concat he]

theorem exists_padding (cs : List Char) : ∃ before after, AllPadding before ∧ AllPadding after ∧
    cs = before ++ Text.dropEnd isPadding (cs.dropWhile isPadding) ++ after := by
  generalize hrest : cs.dropWhile isPadding = rest
  refine ⟨cs.takeWhile isPadding, (rest.reverse.takeWhile isPadding).reverse, ?_, ?_, ?_⟩
  · exact fun c hc => List.mem_takeWhile_imp hc
  · exact fun c hc => List.mem_takeWhile_imp (List.mem_reverse.mp hc)
  · have hback :
        Text.dropEnd isPadding rest ++ (rest.reverse.takeWhile isPadding).reverse = rest := by
      rw [Text.dropEnd, ← List.reverse_append, List.takeWhile_append_dropWhile]
      exact List.reverse_reverse rest
    rw [List.append_assoc, hback, ← hrest, List.takeWhile_append_dropWhile]

theorem AllPadding.digitCount (h : AllPadding cs) : digitCount cs = 0 := by
  rw [Integer.digitCount, List.countP_eq_zero]
  intro c hc
  simp [digitValue?_of_isBlank (isBlank_of_isPadding (h c hc))]

/-- The texts that are read as an integer are those that say it and have few enough digits. -/
theorem ofText?_eq_some_iff :
    ofText? s = some n ↔ Denotes s n ∧ digitCount s.toList ≤ digitLimit := by
  rw [ofText?, signed?_eq_some_iff]
  constructor
  · intro h
    obtain ⟨hsigned, hfew⟩ := h
    obtain ⟨before, after, hbefore, hafter, heq⟩ := exists_padding s.toList
    refine ⟨.intro hbefore hsigned hafter heq, ?_⟩
    rwa [heq, digitCount_append, digitCount_append, hbefore.digitCount, hafter.digitCount,
      Nat.zero_add, Nat.add_zero]
  · intro h
    obtain ⟨⟨hbefore, hsigned, hafter, heq⟩, hfew⟩ := h
    rw [heq, digitCount_append, digitCount_append, hbefore.digitCount, hafter.digitCount,
      Nat.zero_add, Nat.add_zero] at hfew
    rw [heq, hsigned.trimmed hbefore hafter]
    exact ⟨hsigned, hfew⟩

theorem digits_plain (hne : cs ≠ []) (h : ∀ c ∈ cs, c.isDigit = true) :
    Digits cs (cs.map fun c => c.toNat - 48) := by
  induction cs with
  | nil => exact absurd rfl hne
  | cons c r ih =>
    have hc := digitValue?_of_isDigit (h c List.mem_cons_self)
    by_cases hr : r = []
    · subst hr
      exact .last hc
    · exact .next hc (ih hr fun e he => h e (List.mem_cons_of_mem c he))

theorem ofDigits_toDigits (m : Nat) :
    ofDigits ((Nat.toDigits 10 m).map fun c => c.toNat - 48) = m := by
  have h := Nat.ofDigitChars_ten_toDigits (n := m)
  rw [Nat.ofDigitChars] at h
  rw [ofDigits, List.foldl_map]
  exact h

theorem digits_toDigits (m : Nat) :
    ∃ ds, Digits (Nat.toDigits 10 m) ds ∧ Nat.ofDigits 10 ds.reverse = m := by
  have hdigit : ∀ c ∈ Nat.toDigits 10 m, c.isDigit = true :=
    fun _ hc => Nat.isDigit_of_mem_toDigits (by decide) (by decide) hc
  refine ⟨_, digits_plain Nat.toDigits_ne_nil hdigit, ?_⟩
  rw [← ofDigits_eq, ofDigits_toDigits]

def signOf (n : Int) : List Char :=
  if n < 0 then ['-'] else []

theorem toList_toString (n : Int) :
    (toString n).toList = signOf n ++ Nat.toDigits 10 n.natAbs := by
  cases n with
  | ofNat m =>
    have htext : toString (Int.ofNat m) = m.repr := rfl
    rw [htext, Nat.toList_repr, signOf, if_neg (by simp)]
    rfl
  | negSucc m =>
    have htext : toString (Int.negSucc m) = "-" ++ (m + 1).repr := rfl
    rw [htext, String.toList_append, Nat.toList_repr, signOf, if_pos (Int.negSucc_lt_zero m)]
    rfl

theorem exists_sign_of (n : Int) : ∃ factor, Sign (signOf n) factor ∧ n = factor * n.natAbs := by
  unfold signOf
  split
  · exact ⟨-1, .minus, by omega⟩
  · exact ⟨1, .none, by omega⟩

theorem signed_toString (n : Int) : Signed (toString n).toList n := by
  obtain ⟨factor, hsign, hn⟩ := exists_sign_of n
  obtain ⟨ds, hds, hvalue⟩ := digits_toDigits n.natAbs
  refine .intro hsign hds (toList_toString n) ?_
  rw [hvalue]
  exact hn

theorem digitCount_toString (n : Int) :
    digitCount (toString n).toList = (Nat.toDigits 10 n.natAbs).length := by
  obtain ⟨factor, hsign, -⟩ := exists_sign_of n
  obtain ⟨ds, hds, -⟩ := digits_toDigits n.natAbs
  have hplain : ∀ c ∈ Nat.toDigits 10 n.natAbs, (digitValue? c).isSome = true := by
    intro c hc
    rw [digitValue?_of_isDigit (Nat.isDigit_of_mem_toDigits (by decide) (by decide) hc)]
    rfl
  rw [toList_toString, digitCount_append, hsign.digitCount, Nat.zero_add]
  exact List.countP_eq_length.mpr hplain

theorem denotes_toString (n : Int) : Denotes (toString n) n := by
  have hnone : AllPadding [] := fun _ h => absurd h List.not_mem_nil
  exact .intro hnone (signed_toString n) hnone (by simp)

/-- Decimal printing and reading are inverse, up to the limit on digits. -/
theorem ofText?_toString (h : (Nat.toDigits 10 n.natAbs).length ≤ digitLimit) :
    ofText? (toString n) = some n :=
  ofText?_eq_some_iff.mpr ⟨denotes_toString n, digitCount_toString n ▸ h⟩

end CommandShell.Integer
