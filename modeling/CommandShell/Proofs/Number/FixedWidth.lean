import CommandShell.Calendar
import CommandShell.Proofs.Number.Integer

/-! # Numbers of fixed width

Written with zeros in front, numbers of one width stand in the order of their texts, also where
more text follows, and their digits give them back. -/
namespace CommandShell.Moment

def lastDigits : Nat → Nat → List Char
  | 0, _ => []
  | width + 1, n => lastDigits width (n / 10) ++ [Nat.digitChar (n % 10)]

variable {m n width : Nat}

@[simp]
theorem length_lastDigits (width n : Nat) : (lastDigits width n).length = width := by
  induction width generalizing n with
  | zero => rfl
  | succ width ih => simp [lastDigits, ih]

theorem lastDigits_zero (width : Nat) : lastDigits width 0 = List.replicate width '0' := by
  induction width with
  | zero => rfl
  | succ width ih =>
    rw [lastDigits, Nat.zero_div, ih, List.replicate_succ']
    rfl

theorem isDigit_of_mem_lastDigits {c : Char} (h : c ∈ lastDigits width n) : c.isDigit = true := by
  induction width generalizing n with
  | zero => cases h
  | succ width ih =>
    rcases List.mem_append.mp h with h | h
    · exact ih h
    · rw [List.mem_singleton.mp h]
      rw [Nat.isDigit_digitChar]
      exact decide_eq_true (Nat.mod_lt n (by decide))

theorem filled_digit (h : n < 10) (width : Nat) :
    List.replicate (width + 1 - (Nat.toDigits 10 n).length) '0' ++ Nat.toDigits 10 n =
      lastDigits (width + 1) n := by
  rw [Nat.toDigits_of_lt_base h, lastDigits, Nat.div_eq_of_lt h, Nat.mod_eq_of_lt h,
    lastDigits_zero, List.length_singleton, Nat.add_sub_cancel]

theorem div_lt_of_width (h : n < 10 ^ (width + 1)) : n / 10 < 10 ^ width := by
  apply Nat.div_lt_of_lt_mul
  rwa [← Nat.pow_succ']

/-- Zeros in front fill a number up to its width, if it is not too wide already. -/
theorem filled_toDigits (h : n < 10 ^ (width + 1)) :
    List.replicate (width + 1 - (Nat.toDigits 10 n).length) '0' ++ Nat.toDigits 10 n =
      lastDigits (width + 1) n := by
  induction width generalizing n with
  | zero => exact filled_digit (by omega) 0
  | succ width ih =>
    by_cases hlarge : 10 ≤ n
    · rw [Nat.toDigits_of_base_le (by decide) hlarge, List.length_append, List.length_singleton,
        Nat.add_sub_add_right, ← List.append_assoc, ih (div_lt_of_width h)]
      rfl
    · exact filled_digit (by omega) (width + 1)

theorem toList_padded (h : n < 10 ^ (width + 1)) :
    (padded (width + 1) n).toList = lastDigits (width + 1) n := by
  rw [padded, String.toList_ofList]
  exact filled_toDigits h

theorem toDigits_of_width (hlow : 10 ^ width ≤ n) (h : n < 10 ^ (width + 1)) :
    Nat.toDigits 10 n = lastDigits (width + 1) n := by
  have hlength : width + 1 ≤ (Nat.toDigits 10 n).length := by
    cases width with
    | zero => exact Nat.length_toDigits_pos
    | succ width =>
      have hiff := Nat.length_toDigits_le_iff (n := n) (by decide : 1 < 10) (Nat.succ_pos width)
      by_contra hshort
      have := hiff.mp (by omega)
      omega
  rw [← filled_toDigits h, Nat.sub_eq_zero_of_le hlength, List.replicate_zero, List.nil_append]

theorem ofDigits_lastDigits (h : n < 10 ^ width) :
    Integer.ofDigits ((lastDigits width n).map fun c => c.toNat - 48) = n := by
  rw [Integer.ofDigits, List.foldl_map]
  induction width generalizing n with
  | zero =>
    rw [lastDigits, List.foldl_nil]
    omega
  | succ width ih =>
    have hrest := div_lt_of_width h
    have hdigit := Nat.toNat_digitChar_of_lt_ten (Nat.mod_lt n (by decide : 0 < 10))
    rw [lastDigits, List.foldl_append, ih hrest, List.foldl_cons, List.foldl_nil, hdigit]
    omega

theorem lastDigits_inj (hm : m < 10 ^ width) (hn : n < 10 ^ width) :
    lastDigits width m = lastDigits width n ↔ m = n := by
  constructor
  · intro h
    rw [← ofDigits_lastDigits hm, h, ofDigits_lastDigits hn]
  · rintro rfl
    rfl

/-- In texts of one width the first difference decides, and behind equal ones what follows. -/
theorem append_lt_append_iff {a a' b b' : List Char} (h : a.length = a'.length) :
    a ++ b < a' ++ b' ↔ a < a' ∨ a = a' ∧ b < b' := by
  induction a generalizing a' with
  | nil =>
    obtain rfl : a' = [] := List.eq_nil_of_length_eq_zero h.symm
    simp
  | cons c a ih =>
    cases a' with
    | nil => cases h
    | cons c' a' =>
      simp only [List.cons_append, List.cons_lt_cons_iff, ih (Nat.succ.inj h), List.cons.injEq]
      grind

theorem digitChar_lt_iff (hm : m < 10) (hn : n < 10) : m.digitChar < n.digitChar ↔ m < n := by
  have hm' := Nat.toNat_digitChar_of_lt_ten hm
  have hn' := Nat.toNat_digitChar_of_lt_ten hn
  rw [Char.lt_def, UInt32.lt_iff_toNat_lt]
  unfold Char.toNat at hm' hn'
  omega

theorem lastDigits_lt_iff (hm : m < 10 ^ width) (hn : n < 10 ^ width) :
    lastDigits width m < lastDigits width n ↔ m < n := by
  induction width generalizing m n with
  | zero =>
    obtain rfl : m = n := by omega
    simp
  | succ width ih =>
    have hm' := div_lt_of_width hm
    have hn' := div_lt_of_width hn
    have hdigit := digitChar_lt_iff (Nat.mod_lt m (by decide)) (Nat.mod_lt n (by decide))
    rw [lastDigits, lastDigits, append_lt_append_iff (by simp), ih hm' hn',
      lastDigits_inj hm' hn', List.cons_lt_cons_iff, hdigit]
    simp
    omega

theorem field_lt_iff {sep : Char} {r r' : List Char} (hm : m < 10 ^ width) (hn : n < 10 ^ width) :
    lastDigits width m ++ sep :: r < lastDigits width n ++ sep :: r' ↔ m < n ∨ m = n ∧ r < r' := by
  rw [append_lt_append_iff (by simp), lastDigits_lt_iff hm hn, lastDigits_inj hm hn]
  simp

end CommandShell.Moment
