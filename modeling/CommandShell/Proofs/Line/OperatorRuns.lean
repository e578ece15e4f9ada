import CommandShell.Proofs.Line.Operators
import CommandShell.Proofs.Line.Reading

/-! # Operators in a row

An operator takes the word after it, even if that has the text of an operator. So among such words
in a row every second one is a target, and what a word is read as can be told from the length of the
run before it alone. Everything that taking the redirections out of a list of words gives is said
here by the places of the words that act as operators. -/
namespace CommandShell.Line

/-- How many words with the text of an operator stand in a row at the end of some words. -/
def operatorRun (ws : List String) : Nat :=
  endRun (fun w => decide (w ∈ operatorTexts)) ws

def actsAt (ws : List String) (i : Nat) : Bool :=
  (ws[i]?).any (fun w => decide (w ∈ operatorTexts)) && operatorRun (ws.take i) % 2 == 0

def takenAt (ws : List String) : Nat → Bool
  | 0 => false
  | i + 1 => actsAt ws i

def placesWhere (p : Nat → Bool) (ws : List String) : List Nat :=
  (List.range ws.length).filter p

def actingPlaces (ws : List String) : List Nat :=
  placesWhere (actsAt ws) ws

/-- The words that neither act as operators nor are taken by one. -/
def keptWords (ws : List String) : List String :=
  (placesWhere (fun i => !(actsAt ws i || takenAt ws i)) ws).filterMap (ws[·]?)

def redirectionAt (ws : List String) (i : Nat) : Option Redirection := do
  let (channel, append) ← Redirection.ofOperator? (← ws[i]?)
  return ⟨some (← ws[i + 1]?), append, channel⟩

def splitOf (name : String) (ps : List Part) :
    Option Operator → Except Failure (List String × Redirection)
  | none => .ok (name :: ps.filterMap Part.argument?, lastRedirection ps)
  | some op => .error { cause := .missingTarget op.text }

def lastActing (ws : List String) : Redirection :=
  ((actingPlaces ws).getLast?.bind (redirectionAt ws)).getD {}

variable {ps : List Part} {dangling : Option Operator} {before after ws cs : List String}
  {w name target : String} {op : Operator} {r : Redirection}

theorem operatorRun_word (hw : w ∉ operatorTexts) (ws : List String) :
    operatorRun (w :: ws) = operatorRun ws :=
  endRun_cons_of_neg (by simpa using hw)

theorem operatorRun_operator (op : Operator) (target : String) (ws : List String) :
    operatorRun (op.text :: target :: ws) % 2 = operatorRun ws % 2 :=
  endRun_cons_cons_mod_two (by simpa using text_mem_operatorTexts op)

theorem operatorRun_singleton (op : Operator) : operatorRun [op.text] = 1 :=
  endRun_singleton (by simpa using text_mem_operatorTexts op)

/-- An operator is left without a target exactly if the words end in an odd run of operators. -/
theorem Parses.operatorRun (h : Parses ps dangling ws) :
    operatorRun ws % 2 = if dangling.isSome then 1 else 0 := by
  induction h with
  | done => rfl
  | dangling op => rw [operatorRun_singleton]; rfl
  | argument hw _ ih => rw [operatorRun_word hw, ih]
  | redirection _ ih => rw [operatorRun_operator, ih]

theorem awaited_iff (before : List String) : Awaited before ↔ operatorRun before % 2 = 1 := by
  obtain ⟨ps, dangling, h⟩ := exists_parses before
  rw [h.operatorRun]
  cases dangling with
  | none => simp [h.not_awaited]
  | some op => simpa using ⟨ps, op, h⟩

theorem Parses.getLast?_of_dangling (h : Parses ps (some op) ws) : ws.getLast? = some op.text := by
  generalize hd : some op = d at h
  induction h with
  | done => cases hd
  | dangling op' => cases hd; rfl
  | argument _ _ ih => rw [List.getLast?_cons, ih hd]; rfl
  | redirection _ ih => rw [List.getLast?_cons, List.getLast?_cons, ih hd]; rfl

theorem actsAt_word_zero (hw : w ∉ operatorTexts) (ws : List String) :
    actsAt (w :: ws) 0 = false := by
  simp [actsAt, hw]

theorem actsAt_word_succ (hw : w ∉ operatorTexts) (ws : List String) (i : Nat) :
    actsAt (w :: ws) (i + 1) = actsAt ws i := by
  simp [actsAt, operatorRun_word hw]

theorem actsAt_operator_zero (op : Operator) (ws : List String) :
    actsAt (op.text :: ws) 0 = true := by
  have hrun : operatorRun [] = 0 := rfl
  simp [actsAt, text_mem_operatorTexts, hrun]

theorem actsAt_operator_one (op : Operator) (target : String) (ws : List String) :
    actsAt (op.text :: target :: ws) 1 = false := by
  simp [actsAt, operatorRun_singleton]

theorem actsAt_operator_add_two (op : Operator) (target : String) (ws : List String) (i : Nat) :
    actsAt (op.text :: target :: ws) (i + 2) = actsAt ws i := by
  simp [actsAt, operatorRun_operator]

theorem takenAt_zero (ws : List String) : takenAt ws 0 = false := rfl

theorem takenAt_one (ws : List String) : takenAt ws 1 = actsAt ws 0 := rfl

theorem takenAt_word_succ (hw : w ∉ operatorTexts) (ws : List String) (i : Nat) :
    takenAt (w :: ws) (i + 1) = takenAt ws i := by
  cases i with
  | zero => exact actsAt_word_zero hw ws
  | succ i => exact actsAt_word_succ hw ws i

theorem takenAt_operator_add_two (op : Operator) (target : String) (ws : List String) (i : Nat) :
    takenAt (op.text :: target :: ws) (i + 2) = takenAt ws i := by
  cases i with
  | zero => exact actsAt_operator_one op target ws
  | succ i => exact actsAt_operator_add_two op target ws i

theorem placesWhere_cons (p : Nat → Bool) (w : String) (ws : List String) :
    placesWhere p (w :: ws) =
      (if p 0 then [0] else []) ++ (placesWhere (fun i => p (i + 1)) ws).map (· + 1) := by
  rw [placesWhere, List.length_cons, List.range_succ_eq_map, List.filter_cons, List.filter_map]
  cases p 0 <;> rfl

theorem actingPlaces_word (hw : w ∉ operatorTexts) (ws : List String) :
    actingPlaces (w :: ws) = (actingPlaces ws).map (· + 1) := by
  simp [actingPlaces, placesWhere_cons, actsAt_word_zero hw, actsAt_word_succ hw]

theorem actingPlaces_operator (op : Operator) (target : String) (ws : List String) :
    actingPlaces (op.text :: target :: ws) = 0 :: (actingPlaces ws).map (· + 2) := by
  simp [actingPlaces, placesWhere_cons, actsAt_operator_zero, actsAt_operator_one,
    actsAt_operator_add_two, Function.comp_def]

theorem keptWords_word (hw : w ∉ operatorTexts) (ws : List String) :
    keptWords (w :: ws) = w :: keptWords ws := by
  have hlater : placesWhere (fun i => !(actsAt (w :: ws) (i + 1) || takenAt (w :: ws) (i + 1))) ws =
      placesWhere (fun i => !(actsAt ws i || takenAt ws i)) ws := by
    simp only [actsAt_word_succ hw, takenAt_word_succ hw]
  rw [keptWords, placesWhere_cons, hlater, actsAt_word_zero hw, takenAt_zero]
  exact congrArg (w :: ·) (List.filterMap_map ..)

theorem keptWords_operator (op : Operator) (target : String) (ws : List String) :
    keptWords (op.text :: target :: ws) = keptWords ws := by
  simp [keptWords, placesWhere_cons, takenAt_one, actsAt_operator_zero,
    actsAt_operator_one, actsAt_operator_add_two, takenAt_operator_add_two, List.filterMap_map,
    Function.comp_def]

theorem redirectionAt_word_succ (w : String) (ws : List String) (i : Nat) :
    redirectionAt (w :: ws) (i + 1) = redirectionAt ws i := by
  simp [redirectionAt]

theorem redirectionAt_operator_zero (op : Operator) (target : String) (ws : List String) :
    redirectionAt (op.text :: target :: ws) 0 = some ⟨some target, op.append, op.channel⟩ := by
  simp [redirectionAt, ofOperator?_text]

theorem Parses.keptWords_eq (h : Parses ps dangling ws) :
    keptWords ws = ps.filterMap Part.argument? := by
  induction h with
  | done => rfl
  | dangling op => simp [keptWords, placesWhere, actsAt_operator_zero]
  | argument hw _ ih => rw [keptWords_word hw, ih]; rfl
  | redirection _ ih => rw [keptWords_operator, ih]; rfl

theorem Parses.redirections (h : Parses ps none ws) :
    (actingPlaces ws).map (redirectionAt ws) = (ps.filterMap Part.redirection?).map some := by
  generalize hd : (none : Option Operator) = d at h
  induction h with
  | done => rfl
  | dangling op => cases hd
  | argument hw _ ih =>
    rw [actingPlaces_word hw, List.map_map, List.filterMap_cons_none rfl, ← ih hd]
    simp [Function.comp_def, redirectionAt_word_succ]
  | @redirection op target ps dangling ws _ ih =>
    have hhead : (Part.redirection op target).redirection? =
        some ⟨some target, op.append, op.channel⟩ := rfl
    rw [actingPlaces_operator, List.map_cons, List.map_map, redirectionAt_operator_zero,
      List.filterMap_cons_some hhead, List.map_cons, ← ih hd]
    simp [Function.comp_def, redirectionAt_word_succ]

theorem Parses.lastActing_eq (h : Parses ps none ws) : lastActing ws = lastRedirection ps := by
  have hlast := congrArg List.getLast? h.redirections
  rw [List.getLast?_map, List.getLast?_map] at hlast
  unfold lastActing lastRedirection
  cases hplace : (actingPlaces ws).getLast? with
  | none =>
    rw [hplace, Option.map_none, eq_comm, Option.map_eq_none_iff] at hlast
    rw [hlast]
    rfl
  | some i =>
    rw [hplace, Option.map_some, eq_comm, Option.map_eq_some_iff] at hlast
    obtain ⟨r, hr, hi⟩ := hlast
    rw [hr, Option.bind_some, ← hi]

/-- Each word that acts as an operator takes itself and one more away. -/
theorem Parses.length_eq (h : Parses ps none ws) :
    ws.length = (keptWords ws).length + 2 * (actingPlaces ws).length := by
  generalize hd : (none : Option Operator) = d at h
  induction h with
  | done => rfl
  | dangling op => cases hd
  | argument hw _ ih =>
    rw [keptWords_word hw, actingPlaces_word hw, List.length_map, List.length_cons,
      List.length_cons, ih hd]
    omega
  | redirection _ ih =>
    rw [keptWords_operator, actingPlaces_operator, List.length_cons, List.length_cons,
      List.length_cons, List.length_map, ih hd]
    omega

theorem split_of_parses (h : Parses ps dangling ws) :
    Redirection.split (name :: ws) = splitOf name ps dangling := by
  rw [Redirection.split, h.extract]
  cases dangling <;> rfl

theorem Parses.place_target_iff (h : Parses ps dangling (before ++ w :: after)) :
    Place ps dangling before w after .target ↔ Awaited before := by
  refine ⟨fun hp => hp.role_eq.1.mp rfl, fun ha => ?_⟩
  obtain ⟨role, hp⟩ := h.exists_place
  have hrole : role = .target := hp.role_eq.1.mpr ha
  exact hrole ▸ hp

theorem split_eq_error_iff {f : Failure} : Redirection.split (name :: ws) = .error f ↔
    operatorRun ws % 2 = 1 ∧ ∃ w, ws.getLast? = some w ∧ f = { cause := .missingTarget w } := by
  obtain ⟨ps, dangling, h⟩ := exists_parses ws
  rw [split_of_parses h, h.operatorRun]
  cases dangling with
  | none => simp [splitOf]
  | some op => simp [splitOf, h.getLast?_of_dangling, eq_comm]

theorem split_of_even_run (name : String) (heven : operatorRun ws % 2 = 0) :
    Redirection.split (name :: ws) = .ok (name :: keptWords ws, lastActing ws) ∧
      ws.length = (keptWords ws).length + 2 * (actingPlaces ws).length := by
  obtain ⟨ps, dangling, h⟩ := exists_parses ws
  cases dangling with
  | some op => simp [h.operatorRun] at heven
  | none => exact ⟨by rw [split_of_parses h, h.keptWords_eq, h.lastActing_eq]; rfl, h.length_eq⟩

/-- A word with the text of an operator is read as one if an even number of such words stands in a
row before it, and as a target if it is an odd number. Words that end in an odd run of operators are
refused with the last of them. Any others are left without the words that act as operators and those
right after them, and the redirection is that of the last word that acts as an operator. -/
theorem operators_in_a_row_alternate :
    Redirection.split [] = .ok ([], {}) ∧
    ∀ name ws,
      (∃ ps dangling, (Parses ps dangling ws ∧
          ∀ qs other, Parses qs other ws → qs = ps ∧ other = dangling) ∧
        Redirection.split (name :: ws) = splitOf name ps dangling ∧
        ∀ before w after, ws = before ++ w :: after → w ∈ operatorTexts →
          (Place ps dangling before w after .operator ↔ operatorRun before % 2 = 0) ∧
          (Place ps dangling before w after .target ↔ operatorRun before % 2 = 1)) ∧
      (∀ f, Redirection.split (name :: ws) = .error f ↔ operatorRun ws % 2 = 1 ∧
        ∃ w, ws.getLast? = some w ∧ f = { cause := .missingTarget w }) ∧
      (operatorRun ws % 2 = 0 →
        Redirection.split (name :: ws) = .ok (name :: keptWords ws, lastActing ws) ∧
        (name :: ws).length = (name :: keptWords ws).length + 2 * (actingPlaces ws).length) := by
  refine ⟨rfl, fun name ws => ⟨?_, fun f => split_eq_error_iff, ?_⟩⟩
  · obtain ⟨ps, dangling, h⟩ := exists_parses ws
    refine ⟨ps, dangling, ⟨h, fun qs other k => k.unique h⟩, split_of_parses h, ?_⟩
    rintro before w after rfl hw
    have hparity := Nat.mod_two_eq_zero_or_one (operatorRun before)
    rw [h.place_operator_iff, h.place_target_iff, awaited_iff]
    refine ⟨?_, Iff.rfl⟩
    constructor
    · rintro ⟨-, hodd⟩
      omega
    · intro heven
      exact ⟨hw, by omega⟩
  · intro heven
    obtain ⟨hsplit, hlength⟩ := split_of_even_run name heven
    refine ⟨hsplit, ?_⟩
    rw [List.length_cons, List.length_cons, hlength]
    omega

/-- Of four operators in a row two act, the name of the command aside; of three the last one lacks
its target. -/
theorem operators_in_a_row_taken :
    let ws := [">", ">>", "2>", "1>", "a"]
    operatorRun ws % 2 = 0 ∧ actingPlaces ws = [0, 2] ∧
      Redirection.split ("2>>" :: ws) = .ok (["2>>", "a"], ⟨some "1>", false, .error⟩) ∧
      (∃ ps dangling, Place ps dangling [">"] ">>" ["2>", "1>", "a"] .target ∧
        Place ps dangling [">", ">>"] "2>" ["1>", "a"] .operator) ∧
      Redirection.split ["echo", ">", ">>", "2>"] = .error { cause := .missingTarget "2>" } := by
  intro ws
  obtain ⟨-, h⟩ := operators_in_a_row_alternate
  obtain ⟨⟨ps, dangling, -, -, hplace⟩, -, hsplit⟩ := h "2>>" ws
  have heven : operatorRun ws % 2 = 0 := by decide
  obtain ⟨hresult, -⟩ := hsplit heven
  have hkept : keptWords ws = ["a"] := by decide
  have hlast : lastActing ws = ⟨some "1>", false, .error⟩ := by decide
  rw [hkept, hlast] at hresult
  have htarget := (hplace [">"] ">>" ["2>", "1>", "a"] rfl (by decide)).2.mpr (by decide)
  have hoperator := (hplace [">", ">>"] "2>" ["1>", "a"] rfl (by decide)).1.mpr (by decide)
  obtain ⟨-, herror, -⟩ := h "echo" [">", ">>", "2>"]
  exact ⟨heven, by decide, hresult, ⟨ps, dangling, htarget, hoperator⟩,
    (herror _).mpr ⟨by decide, "2>", rfl, rfl⟩⟩

theorem Parses.no_operator (h : Parses ps dangling ws) :
    ∀ w ∈ ps.filterMap Part.argument?, w ∉ operatorTexts := by
  induction h with
  | done => exact fun _ hw => absurd hw List.not_mem_nil
  | dangling op => exact fun _ hw => absurd hw List.not_mem_nil
  | argument hw _ ih => exact List.forall_mem_cons.mpr ⟨hw, ih⟩
  | redirection _ ih => exact ih

theorem split_without_operators (h : ∀ w ∈ ws, w ∉ operatorTexts) :
    Redirection.split (name :: ws) = .ok (name :: ws, {}) := by
  have hparses := parses_arguments_iff.mpr h
  rw [split_of_parses hparses, splitOf, arguments_map_argument, lastRedirection_map_argument]

/-- The words that are left after the redirections have been taken out hold none. -/
theorem left_words_split_unchanged (h : Redirection.split ws = .ok (cs, r)) :
    Redirection.split cs = .ok (cs, {}) := by
  cases ws with
  | nil =>
    cases h
    rfl
  | cons name ws =>
    obtain ⟨ps, dangling, hparses⟩ := exists_parses ws
    rw [split_of_parses hparses] at h
    cases dangling with
    | some op => cases h
    | none =>
      cases h
      exact split_without_operators hparses.no_operator

theorem left_words_of_two_redirections :
    Redirection.split [">", ">", ">>", "a", "1>", "b"] =
        .ok ([">", "a"], ⟨some "b", false, .output⟩) ∧
      Redirection.split [">", "a"] = .ok ([">", "a"], {}) := by
  have h : Redirection.split [">", ">", ">>", "a", "1>", "b"] =
      .ok ([">", "a"], ⟨some "b", false, .output⟩) := rfl
  exact ⟨h, left_words_split_unchanged h⟩

end CommandShell.Line
