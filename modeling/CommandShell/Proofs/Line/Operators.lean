import CommandShell.Proofs.Line.Printing

/-! # What words are read as

The words of a line are read as a command once the quotes are gone. Then only the text of a word
tells an operator from an argument, together with what stands before it: a word with the text of an
operator is one wherever no operator before it takes it as a target. Quotes protect the blanks of a
word, but not a word that is an operator. -/
namespace CommandShell.Line

inductive Role where
  | argument
  | operator
  | target
  deriving DecidableEq, Repr

def written (is : List Item) : List (List Item) :=
  (is.splitOnP Item.isBlank).filter fun part => !(part.flatMap Item.meaning).isEmpty

def wordOf (part : List Item) : String :=
  String.ofList (part.flatMap Item.meaning)

/-- A word is guarded if something of it is quoted or escaped. -/
def Guarded (part : List Item) : Prop :=
  ∃ i ∈ part, ∀ c, i ≠ .plain c

def quoted (w : String) : List Char :=
  '"' :: (w.toList.flatMap guarded ++ ['"'])

def quotedLine (name : String) (ws : List String) : String :=
  String.ofList (quoted name ++ ws.flatMap fun w => ' ' :: quoted w)

def commandOf (name : String) (ps : List Part) : Option Operator → Except Failure Command
  | none => .ok ⟨name, ps.filterMap Part.argument?, lastRedirection ps⟩
  | some op => .error { cause := .missingTarget op.text }

/-- What the word at a place is read as, where the words before and after it are read as parts of
their own. -/
inductive Place (ps : List Part) (dangling : Option Operator) (before : List String) (w : String)
    (after : List String) : Role → Prop where
  | argument {front back} : Parses front none before → Parses back dangling after →
      w ∉ operatorTexts → ps = front ++ .argument w :: back →
      Place ps dangling before w after .argument
  | target {front back op earlier} : Parses front none earlier → Parses back dangling after →
      before = earlier ++ [op.text] → ps = front ++ .redirection op w :: back →
      Place ps dangling before w after .target
  | operator {front back op target later} : Parses front none before → Parses back dangling later →
      w = op.text → after = target :: later → ps = front ++ .redirection op target :: back →
      Place ps dangling before w after .operator
  | dangling {op} : Parses ps none before → w = op.text → after = [] → dangling = some op →
      Place ps dangling before w after .operator

variable {ps qs : List Part} {dangling : Option Operator} {before after ws : List String}
  {w name line : String}

theorem mem_operatorTexts_iff : w ∈ operatorTexts ↔ ∃ op : Operator, w = op.text := by
  constructor
  · intro h
    simp only [operatorTexts, List.mem_cons, List.not_mem_nil, or_false] at h
    rcases h with rfl | rfl | rfl | rfl | rfl | rfl
    · exact ⟨.output false false, rfl⟩
    · exact ⟨.output true false, rfl⟩
    · exact ⟨.error false, rfl⟩
    · exact ⟨.output false true, rfl⟩
    · exact ⟨.output true true, rfl⟩
    · exact ⟨.error true, rfl⟩
  · rintro ⟨op, rfl⟩
    rcases op with ⟨_ | _, _ | _⟩ | ⟨_ | _⟩ <;> decide

theorem text_mem_operatorTexts (op : Operator) : op.text ∈ operatorTexts :=
  mem_operatorTexts_iff.mpr ⟨op, rfl⟩

theorem operator_text_injective {op op' : Operator} (h : op.text = op'.text) : op = op' := by
  rcases op with ⟨_ | _, _ | _⟩ | ⟨_ | _⟩ <;> rcases op' with ⟨_ | _, _ | _⟩ | ⟨_ | _⟩ <;>
    first | rfl | exact absurd h (by decide)

theorem exists_parses (ws : List String) : ∃ ps dangling, Parses ps dangling ws := by
  induction h : ws.length using Nat.strongRecOn generalizing ws with
  | ind n ih =>
    subst h
    match ws with
    | [] => exact ⟨[], none, .done⟩
    | w :: ws =>
      by_cases hw : w ∈ operatorTexts
      · obtain ⟨op, rfl⟩ := mem_operatorTexts_iff.mp hw
        match ws with
        | [] => exact ⟨[], some op, .dangling op⟩
        | target :: ws =>
          obtain ⟨ps, dangling, hp⟩ := ih ws.length (by simp only [List.length_cons]; omega) ws rfl
          exact ⟨_, _, .redirection hp⟩
      · obtain ⟨ps, dangling, hp⟩ := ih ws.length (by simp) ws rfl
        exact ⟨_, _, .argument hw hp⟩

theorem Parses.of_word (h : Parses ps dangling (w :: ws)) (hw : w ∉ operatorTexts) :
    ∃ qs, ps = .argument w :: qs ∧ Parses qs dangling ws := by
  generalize hws : w :: ws = us at h
  cases h with
  | done => cases hws
  | dangling op => exact absurd (text_mem_operatorTexts op) ((List.cons.inj hws).1 ▸ hw)
  | argument _ h =>
    obtain ⟨rfl, rfl⟩ := List.cons.inj hws
    exact ⟨_, rfl, h⟩
  | @redirection op => exact absurd (text_mem_operatorTexts op) ((List.cons.inj hws).1 ▸ hw)

theorem Parses.of_operator {op : Operator} (h : Parses ps dangling (op.text :: ws)) :
    (ws = [] ∧ ps = [] ∧ dangling = some op) ∨
      ∃ target rest qs, ws = target :: rest ∧ ps = .redirection op target :: qs ∧
        Parses qs dangling rest := by
  generalize hws : op.text :: ws = us at h
  cases h with
  | done => cases hws
  | dangling op' =>
    obtain ⟨htext, rfl⟩ := List.cons.inj hws
    exact .inl ⟨rfl, rfl, congrArg some (operator_text_injective htext).symm⟩
  | argument hw => exact absurd (text_mem_operatorTexts op) ((List.cons.inj hws).1 ▸ hw)
  | redirection h =>
    obtain ⟨htext, rfl⟩ := List.cons.inj hws
    exact .inr ⟨_, _, _, rfl, by rw [operator_text_injective htext], h⟩

theorem Parses.unique {dangling' : Option Operator} (h : Parses ps dangling ws)
    (k : Parses qs dangling' ws) : ps = qs ∧ dangling = dangling' := by
  induction h generalizing qs with
  | done =>
    cases k
    exact ⟨rfl, rfl⟩
  | dangling op =>
    obtain ⟨-, rfl, rfl⟩ | ⟨_, _, _, hws, -, -⟩ := k.of_operator
    · exact ⟨rfl, rfl⟩
    · cases hws
  | argument hw _ ih =>
    obtain ⟨rest, rfl, hrest⟩ := k.of_word hw
    obtain ⟨rfl, rfl⟩ := ih hrest
    exact ⟨rfl, rfl⟩
  | redirection _ ih =>
    obtain ⟨hws, -, -⟩ | ⟨_, _, rest, hws, rfl, hrest⟩ := k.of_operator
    · cases hws
    · obtain ⟨rfl, rfl⟩ := List.cons.inj hws
      obtain ⟨rfl, rfl⟩ := ih hrest
      exact ⟨rfl, rfl⟩

theorem Parses.append {front back : List Part} (h : Parses front none before)
    (k : Parses back dangling after) : Parses (front ++ back) dangling (before ++ after) := by
  generalize hd : (none : Option Operator) = d at h
  induction h with
  | done => exact k
  | dangling op => cases hd
  | argument hw _ ih => exact .argument hw (ih hd)
  | redirection _ ih => exact .redirection (ih hd)

theorem Place.behind {front : List Part} {first : List String} {role : Role}
    (hf : Parses front none first) (h : Place ps dangling before w after role) :
    Place (front ++ ps) dangling (first ++ before) w after role := by
  cases h with
  | argument hb ha hw he =>
    exact .argument (hf.append hb) ha hw (by rw [he, List.append_assoc])
  | target hb ha hop he =>
    exact .target (hf.append hb) ha (by rw [hop, List.append_assoc]) (by rw [he, List.append_assoc])
  | operator hb ha hop hafter he =>
    exact .operator (hf.append hb) ha hop hafter (by rw [he, List.append_assoc])
  | dangling hb hop hafter hd => exact .dangling (hf.append hb) hop hafter hd

theorem Parses.exists_place (h : Parses ps dangling (before ++ w :: after)) :
    ∃ role, Place ps dangling before w after role := by
  generalize hws : before ++ w :: after = ws at h
  induction h generalizing before with
  | done => simp at hws
  | dangling op =>
    cases before with
    | nil =>
      obtain ⟨rfl, rfl⟩ := List.cons.inj hws
      exact ⟨.operator, .dangling .done rfl rfl rfl⟩
    | cons x before => simp at hws
  | @argument v ps dangling ws hv k ih =>
    cases before with
    | nil =>
      obtain ⟨rfl, rfl⟩ := List.cons.inj hws
      exact ⟨.argument, .argument .done k hv rfl⟩
    | cons x before =>
      obtain ⟨rfl, hrest⟩ := List.cons.inj hws
      obtain ⟨role, hplace⟩ := ih hrest
      exact ⟨role, hplace.behind (.argument hv .done)⟩
  | @redirection op target ps dangling ws k ih =>
    cases before with
    | nil =>
      obtain ⟨rfl, rfl⟩ := List.cons.inj hws
      exact ⟨.operator, .operator .done k rfl rfl rfl⟩
    | cons x before =>
      obtain ⟨rfl, hrest⟩ := List.cons.inj hws
      cases before with
      | nil =>
        obtain ⟨rfl, rfl⟩ := List.cons.inj hrest
        have hb : [op.text] = [] ++ [op.text] := rfl
        exact ⟨.target, .target .done k hb rfl⟩
      | cons y before =>
        obtain ⟨rfl, hlater⟩ := List.cons.inj hrest
        obtain ⟨role, hplace⟩ := ih hlater
        exact ⟨role, hplace.behind (.redirection .done)⟩

/-- A word is taken as a target if the words before it end in an operator that needs one. -/
def Awaited (before : List String) : Prop :=
  ∃ front op, Parses front (some op) before

theorem awaited_of_operator {front : List Part} {earlier : List String} (op : Operator)
    (h : Parses front none earlier) : Awaited (earlier ++ [op.text]) :=
  ⟨_, op, h.append (.dangling op)⟩

theorem Parses.not_awaited {front : List Part} (h : Parses front none before) :
    ¬ Awaited before := by
  rintro ⟨_, _, k⟩
  exact absurd (h.unique k).2 (by simp)

/-- The role of a word is told by its text and by the words before it. -/
theorem Place.role_eq {role : Role} (h : Place ps dangling before w after role) :
    (role = .target ↔ Awaited before) ∧
      (role = .operator ↔ w ∈ operatorTexts ∧ ¬ Awaited before) ∧
      (role = .argument ↔ w ∉ operatorTexts ∧ ¬ Awaited before) := by
  cases h with
  | argument hb _ hw _ => simp [hb.not_awaited, hw]
  | @target _ _ op _ hb _ hop _ => simp [hop ▸ awaited_of_operator op hb]
  | @operator _ _ op _ _ hb _ hop _ _ => simp [hb.not_awaited, hop, text_mem_operatorTexts]
  | @dangling op hb hop _ _ => simp [hb.not_awaited, hop, text_mem_operatorTexts]

theorem Parses.place_operator_iff (h : Parses ps dangling (before ++ w :: after)) :
    Place ps dangling before w after .operator ↔ w ∈ operatorTexts ∧ ¬ Awaited before := by
  refine ⟨fun hp => hp.role_eq.2.1.mp rfl, fun hw => ?_⟩
  obtain ⟨role, hp⟩ := h.exists_place
  have hrole : role = .operator := hp.role_eq.2.1.mpr hw
  exact hrole ▸ hp

theorem Parses.place_of_kept (h : Parses ps dangling (before ++ w :: after))
    (hw : ¬ (w ∈ operatorTexts ∧ ¬ Awaited before)) :
    Place ps dangling before w after .argument ∨ Place ps dangling before w after .target := by
  obtain ⟨role, hp⟩ := h.exists_place
  cases role with
  | argument => exact .inl hp
  | operator => exact absurd (hp.role_eq.2.1.mp rfl) hw
  | target => exact .inr hp

theorem words_of_reads {is : List Item} (h : Reads is line.toList) :
    words line = (written is).map wordOf := by
  rw [words, marks_of_reads h, wordsOf, runs_of_items, List.filter_map, written, List.map_map]
  rfl

theorem readWords_of_reads {is : List Item} {strict : Bool} (h : Reads is line.toList)
    (hs : strict = true → is.findSome? Item.opened? = none) :
    readWords strict line = .ok ((written is).map wordOf) := by
  cases strict with
  | false => rw [readWords, if_neg (by decide), words_of_reads h]
  | true =>
    rw [readWords, if_pos rfl, strictWords, marks_of_reads h, openQuote?_of_items, hs rfl,
      words_of_reads h]

theorem ofLine_of_parses {strict : Bool} {rest : List String}
    (hw : readWords strict line = .ok (name :: rest)) (h : Parses ps dangling rest) :
    Command.ofLine line strict = commandOf name ps dangling := by
  have hsplit := h.extract {}
  rw [Command.ofLine, hw]
  change (Redirection.split _ >>= _) = _
  rw [Redirection.split, hsplit]
  cases dangling <;> rfl

theorem redirection_ne_nil {r : Redirection} (h : r ∈ ps.filterMap Part.redirection?) :
    r ≠ {} := by
  obtain ⟨p, -, hp⟩ := List.mem_filterMap.mp h
  cases p with
  | argument w => cases hp
  | redirection op target =>
    cases hp
    simp

theorem eq_arguments_of_no_redirection (h : lastRedirection ps = {}) :
    ps = (ps.filterMap Part.argument?).map .argument := by
  have hnone : ps.filterMap Part.redirection? = [] := by
    unfold lastRedirection at h
    cases hl : (ps.filterMap Part.redirection?).getLast? with
    | none => simpa using hl
    | some r =>
      rw [hl] at h
      exact absurd h (redirection_ne_nil (List.mem_of_getLast? hl))
  rw [List.filterMap_eq_nil_iff] at hnone
  clear h
  induction ps with
  | nil => rfl
  | cons p ps ih =>
    have hrest := ih fun q hq => hnone q (List.mem_cons_of_mem p hq)
    cases p with
    | argument w => simp [Part.argument?, ← hrest]
    | redirection op target =>
      have hp := hnone _ List.mem_cons_self
      simp [Part.redirection?] at hp

theorem arguments_map_argument (ws : List String) :
    (ws.map Part.argument).filterMap Part.argument? = ws := by
  simp [List.filterMap_map, Function.comp_def, Part.argument?]

theorem lastRedirection_map_argument (ws : List String) :
    lastRedirection (ws.map Part.argument) = {} := by
  have hnone : (ws.map Part.argument).filterMap Part.redirection? = [] := by
    simp [Part.redirection?]
  rw [lastRedirection, hnone]
  rfl

theorem parses_arguments_iff :
    Parses (ws.map .argument) none ws ↔ ∀ w ∈ ws, w ∉ operatorTexts := by
  induction ws with
  | nil => exact ⟨fun _ _ hw => absurd hw List.not_mem_nil, fun _ => .done⟩
  | cons w ws ih =>
    rw [List.forall_mem_cons, ← ih]
    constructor
    · intro h
      by_cases hw : w ∈ operatorTexts
      · obtain ⟨op, rfl⟩ := mem_operatorTexts_iff.mp hw
        obtain ⟨-, hps, -⟩ | ⟨_, _, _, -, hps, -⟩ := h.of_operator <;> cases hps
      · obtain ⟨qs, hps, h⟩ := h.of_word hw
        exact ⟨hw, (List.cons.inj hps).2 ▸ h⟩
    · rintro ⟨hw, h⟩
      exact .argument hw h

theorem commandOf_eq_words_iff (h : Parses ps dangling ws) :
    commandOf name ps dangling = .ok ⟨name, ws, {}⟩ ↔ ∀ w ∈ ws, w ∉ operatorTexts := by
  rw [← parses_arguments_iff]
  constructor
  · intro hc
    cases dangling with
    | some op => cases hc
    | none =>
      simp only [commandOf, Except.ok.injEq, Command.mk.injEq, true_and] at hc
      have hps := eq_arguments_of_no_redirection hc.2
      rw [hc.1] at hps
      exact hps ▸ h
  · intro k
    obtain ⟨rfl, rfl⟩ := h.unique k
    rw [commandOf, arguments_map_argument, lastRedirection_map_argument]

theorem reads_plain {t l : List Char} {is : List Item} (h : ∀ c ∈ t, IsPlain c) (k : Reads is l) :
    Reads (t.map .plain ++ is) (t ++ l) := by
  induction t with
  | nil => exact k
  | cons c t ih =>
    exact .plain (h c List.mem_cons_self) (ih fun d hd => h d (List.mem_cons_of_mem c hd))

theorem spells_quoted (w : String) : Spells (quoted w) w.toList := by
  simpa [quoted] using Spells.double (s := w.toList) .done

theorem printsWords_quoted (h : ∀ w ∈ ws, w ≠ "") :
    PrintsWords ws (ws.flatMap fun w => ' ' :: quoted w) := by
  induction ws with
  | nil => exact .done (by simp [AllBlank])
  | cons w ws ih =>
    rw [List.forall_mem_cons] at h
    have hb : AllBlank [' '] := by decide
    simpa using PrintsWords.word (List.cons_ne_nil _ _) hb (spells_quoted w) h.1 (ih h.2)

theorem printsLine_quoted (h : ∀ w ∈ ws, w ≠ "") : PrintsLine name ws (quotedLine name ws) :=
  ⟨[], quoted name, _, by simp [AllBlank], spells_quoted name, printsWords_quoted h,
    by simp [quotedLine]⟩

/-- A word after the first one, guarded or not, is read as an operator exactly if it has the text of
one and no operator before it awaits a target; else it is kept as an argument or as a target. So
words that are printed, in quotes or in any other spelling, are parsed back as the arguments exactly
if none of them has the text of an operator. -/
theorem operators_are_told_by_text (line : String) :
    (∀ is first rest, Reads is line.toList → written is = first :: rest →
      ∃ ps dangling, Parses ps dangling (rest.map wordOf) ∧
        (∀ strict, (strict = true → is.findSome? Item.opened? = none) →
          Command.ofLine line strict = commandOf (wordOf first) ps dangling) ∧
        ∀ before part after, rest = before ++ part :: after →
          let Here := Place ps dangling (before.map wordOf) (wordOf part) (after.map wordOf)
          (Here .operator ↔ wordOf part ∈ operatorTexts ∧ ¬ Awaited (before.map wordOf)) ∧
            (¬ Here .operator → Here .argument ∨ Here .target)) ∧
    (∀ name ws strict, name ≠ "" → PrintsLine name ws line →
      (Command.ofLine line strict = .ok ⟨name, ws, {}⟩ ↔ ∀ w ∈ ws, w ∉ operatorTexts)) ∧
    (∀ name ws, line = quotedLine name ws → (∀ w ∈ ws, w ≠ "") → PrintsLine name ws line) := by
  refine ⟨?_, ?_, ?_⟩
  · intro is first rest hreads hwritten
    obtain ⟨ps, dangling, hp⟩ := exists_parses (rest.map wordOf)
    refine ⟨ps, dangling, hp, fun strict hs => ?_, ?_⟩
    · have hw := readWords_of_reads hreads hs
      rw [hwritten, List.map_cons] at hw
      exact ofLine_of_parses hw hp
    · intro before part after hrest
      rw [hrest, List.map_append, List.map_cons] at hp
      have hop := hp.place_operator_iff
      exact ⟨hop, fun hn => hp.place_of_kept fun hw => hn (hop.mpr hw)⟩
  · intro name ws strict hn hl
    obtain ⟨ps, dangling, hp⟩ := exists_parses ws
    rw [ofLine_of_parses (readWords_of_printed hn hl strict) hp]
    exact commandOf_eq_words_iff hp
  · rintro name ws rfl h
    exact printsLine_quoted h

/-- An escaped operator takes a quoted one as its target; words between quotes that are no operators
are arguments. -/
theorem escaped_operator_quoted_target :
    let line := "echo \\> '2>'"
    let is : List Item := "echo".toList.map .plain ++
      [.blank ' ', .escaped '>', .blank ' ', .single ['2', '>']]
    Reads is line.toList ∧
      written is = ["echo".toList.map .plain, [.escaped '>'], [.single ['2', '>']]] ∧
      (∃ ps dangling, Command.ofLine line = commandOf "echo" ps dangling ∧
        Place ps dangling [] ">" ["2>"] .operator ∧ Place ps dangling [">"] "2>" [] .target) ∧
      (∀ w ∈ ["a b", ">a"], w ≠ "" ∧ w ∉ operatorTexts) ∧
      Command.ofLine (quotedLine "cat" ["a b", ">a"]) = .ok ⟨"cat", ["a b", ">a"], {}⟩ := by
  intro line is
  have text : line.toList = "echo".toList ++ [' ', '\\', '>', ' ', '\'', '2', '>', '\''] := by
    decide
  have echo : ∀ c ∈ "echo".toList, IsPlain c := by simp [IsPlain]; decide
  have reads : Reads is line.toList := text ▸
    (reads_plain echo <| .blank (by decide) <| .escaped <| .blank (c := ' ') (by decide) <|
      .single (s := ['2', '>']) (r := []) (by decide) rfl .done)
  have hwritten : written is =
      ["echo".toList.map .plain, [.escaped '>'], [.single ['2', '>']]] := by decide
  obtain ⟨ps, dangling, -, hcommand, hplace⟩ :=
    (operators_are_told_by_text line).1 is _ _ reads hwritten
  have hop : Place ps dangling [] ">" ["2>"] .operator := by
    refine (hplace [] _ _ rfl).1.mpr ⟨by decide, ?_⟩
    rintro ⟨_, _, h⟩
    cases h
  have hawaited : Awaited [">"] := ⟨_, .output false false, .dangling _⟩
  have htarget : Place ps dangling [">"] "2>" [] .target := by
    have hkept := hplace [[.escaped '>']] _ _ rfl
    have hnot : ¬ Place ps dangling [">"] "2>" [] .operator := fun h => (hkept.1.mp h).2 hawaited
    rcases hkept.2 hnot with h | h
    · exact absurd hawaited (h.role_eq.2.2.mp rfl).2
    · exact h
  obtain ⟨-, hargs, hprints⟩ := operators_are_told_by_text (quotedLine "cat" ["a b", ">a"])
  have hprinted := hprints "cat" ["a b", ">a"] rfl (by decide)
  exact ⟨reads, hwritten, ⟨ps, dangling, hcommand false (by decide), hop, htarget⟩, by decide,
    (hargs _ _ false (by decide) hprinted).mpr (by decide)⟩

/-- A quoted word with the text of an operator is one, and the argument after it is its target. -/
theorem quoted_operator_takes_target :
    let line := "echo '>' f"
    let is : List Item := "echo".toList.map .plain ++
      [.blank ' ', .single ['>'], .blank ' ', .plain 'f']
    Reads is line.toList ∧
      written is = ["echo".toList.map .plain, [.single ['>']], [.plain 'f']] ∧
      Guarded [.single ['>']] ∧ wordOf [.single ['>']] = ">" ∧
      PrintsLine "echo" [">", "f"] line ∧
      Command.ofLine line = .ok ⟨"echo", [], ⟨some "f", false, .output⟩⟩ := by
  intro line is
  have text : line.toList = "echo".toList ++ [' ', '\'', '>', '\'', ' ', 'f'] := by decide
  have echo : ∀ c ∈ "echo".toList, IsPlain c := by simp [IsPlain]; decide
  have reads : Reads is line.toList := text ▸
    (reads_plain echo <| .blank (by decide) <|
      .single (s := ['>']) (r := [' ', 'f']) (by decide) rfl <| .blank (c := ' ') (by decide) <|
      .plain (c := 'f') (by decide) .done)
  have words : PrintsWords [">", "f"] [' ', '\'', '>', '\'', ' ', 'f'] :=
    .word (b := [' ']) (w := ">") (by decide) (by decide) (.single (s := ['>']) (by decide) .done)
      (by decide) <|
    .word (b := [' ']) (w := "f") (by decide) (by decide) (.plain (c := 'f') (by decide) .done)
      (by decide) <|
    .done (b := []) (by decide)
  have prints : PrintsLine "echo" [">", "f"] line :=
    ⟨[], "echo".toList, _, by decide, spells_plain echo, words, text⟩
  have guarded : Guarded [.single ['>']] := ⟨_, List.mem_cons_self, fun c => Item.noConfusion⟩
  have parses : Parses [.redirection (.output false false) "f"] none [">", "f"] :=
    .redirection .done
  exact ⟨reads, by decide, guarded, rfl, prints,
    ofLine_of_parses (readWords_of_printed (by decide) prints false) parses⟩

end CommandShell.Line
