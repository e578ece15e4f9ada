import CommandShell.Line
import CommandShell.Proofs.Line.Reading

/-! # Printed lines

A word can be spelled in many ways: bare, escaped, between quotes, or in any mix of these. A command
with its arguments and redirections is printed as the spellings of its words with blanks between
them, where the operators stand bare. Every such line is parsed back to the command. -/
namespace CommandShell.Line

def guarded (c : Char) : List Char :=
  if isEscapable c then ['\\', c] else [c]

/-- `Spells t w` says that the text `t` is a spelling of the word `w`. -/
inductive Spells : List Char → List Char → Prop where
  | done : Spells [] []
  | plain {c t w} : IsPlain c → Spells t w → Spells (c :: t) (c :: w)
  | escaped {c t w} : Spells t w → Spells ('\\' :: c :: t) (c :: w)
  | single {s t w} : '\'' ∉ s → Spells t w → Spells ('\'' :: (s ++ '\'' :: t)) (s ++ w)
  | double {s t w} : Spells t w → Spells ('"' :: (s.flatMap guarded ++ '"' :: t)) (s ++ w)

/-- The six redirection operators. Those for the output may be written with its number. -/
inductive Operator where
  | output (numbered append : Bool)
  | error (append : Bool)
  deriving DecidableEq, Repr

namespace Operator

def text : Operator → String
  | output false false => ">"
  | output true false => "1>"
  | error false => "2>"
  | output false true => ">>"
  | output true true => "1>>"
  | error true => "2>>"

def channel : Operator → Channel
  | output _ _ => .output
  | error _ => .error

def append : Operator → Bool
  | output _ a | error a => a

end Operator

def operatorTexts : List String := [">", "1>", "2>", ">>", "1>>", "2>>"]

inductive Part where
  | argument (word : String)
  | redirection (op : Operator) (target : String)
  deriving DecidableEq, Repr

namespace Part

def argument? : Part → Option String
  | argument w => some w
  | redirection _ _ => none

def redirection? : Part → Option Redirection
  | argument _ => none
  | redirection op target => some ⟨some target, op.append, op.channel⟩

def words : Part → List String
  | argument w => [w]
  | redirection op target => [op.text, target]

end Part

def AllBlank (b : List Char) : Prop := ∀ c ∈ b, Text.isBlank c

instance (b : List Char) : Decidable (AllBlank b) :=
  List.decidableBAll (fun c => Text.isBlank c = true) b

/-- The ways to print the parts of a command, from the end of its name to the end of the line. -/
inductive Prints : List Part → List Char → Prop where
  | done {b} : AllBlank b → Prints [] b
  | argument {b t w ps l} : b ≠ [] → AllBlank b → Spells t w.toList → w ≠ "" →
      w ∉ operatorTexts → Prints ps l → Prints (.argument w :: ps) (b ++ (t ++ l))
  | redirection {b d t w op ps l} : b ≠ [] → AllBlank b → d ≠ [] → AllBlank d →
      Spells t w.toList → w ≠ "" → Prints ps l →
      Prints (.redirection op w :: ps) (b ++ (op.text.toList ++ (d ++ (t ++ l))))

inductive PrintsWords : List String → List Char → Prop where
  | done {b} : AllBlank b → PrintsWords [] b
  | word {b t w ws l} : b ≠ [] → AllBlank b → Spells t w.toList → w ≠ "" → PrintsWords ws l →
      PrintsWords (w :: ws) (b ++ (t ++ l))

def PrintsLine (name : String) (ws : List String) (line : String) : Prop :=
  ∃ b t l, AllBlank b ∧ Spells t name.toList ∧ PrintsWords ws l ∧ line.toList = b ++ (t ++ l)

def PrintsCommand (name : String) (ps : List Part) (line : String) : Prop :=
  ∃ b t l, AllBlank b ∧ Spells t name.toList ∧ Prints ps l ∧ line.toList = b ++ (t ++ l)

def lastRedirection (ps : List Part) : Redirection :=
  ((ps.filterMap Part.redirection?).getLast?).getD {}

/-- How the words after the name of a command are read: as its parts, and perhaps as an operator at
the end that has no target. Only the texts of the words count. -/
inductive Parses : List Part → Option Operator → List String → Prop where
  | done : Parses [] none []
  | dangling (op) : Parses [] (some op) [op.text]
  | argument {w ps dangling ws} : w ∉ operatorTexts → Parses ps dangling ws →
      Parses (.argument w :: ps) dangling (w :: ws)
  | redirection {op target ps dangling ws} : Parses ps dangling ws →
      Parses (.redirection op target :: ps) dangling (op.text :: target :: ws)

theorem marks_guarded (s r : List Char) :
    marks (some .double) (s.flatMap guarded ++ '"' :: r) = s.map .letter ++ marks none r := by
  induction s with
  | nil => simp [marks]
  | cons c s ih =>
    by_cases hc : isEscapable c
    · simp [guarded, hc, marks, ih]
    · have hb : c ≠ '\\' := by intro h; subst h; exact hc rfl
      have hq : c ≠ '"' := by intro h; subst h; exact hc rfl
      rw [List.flatMap_cons, guarded, if_neg hc, List.singleton_append, List.cons_append,
        marks.eq_def]
      simp [hb, hq, ih]

theorem marks_of_spelling {t w : List Char} (h : Spells t w) (l : List Char) :
    marks none (t ++ l) = w.map .letter ++ marks none l := by
  induction h with
  | done => rfl
  | plain hc _ ih => rw [List.cons_append, marks_plain hc, ih]; rfl
  | escaped _ ih => simp [marks, ih]
  | single hs _ ih => simp [marks, marks_single hs, ih]
  | double _ ih => simp [marks, marks_guarded, ih]

theorem marks_of_blanks {b : List Char} (hb : AllBlank b) (l : List Char) :
    marks none (b ++ l) = b.map (fun _ => .gap) ++ marks none l := by
  induction b with
  | nil => rfl
  | cons c b ih =>
    rw [List.cons_append, marks_blank (hb c List.mem_cons_self),
      ih fun d hd => hb d (List.mem_cons_of_mem c hd)]
    rfl

theorem spells_plain {t : List Char} (h : ∀ c ∈ t, IsPlain c) : Spells t t := by
  induction t with
  | nil => exact .done
  | cons c t ih =>
    exact .plain (h c List.mem_cons_self) (ih fun d hd => h d (List.mem_cons_of_mem c hd))

theorem spells_operator (op : Operator) : Spells op.text.toList op.text.toList := by
  apply spells_plain
  rcases op with ⟨_ | _, _ | _⟩ | ⟨_ | _⟩ <;> simp [Operator.text, IsPlain] <;> decide

def EndsWord (ms : List Mark) : Prop := ms = [] ∨ ∃ rest, ms = .gap :: rest

theorem wordsOf_gaps (b : List Char) (ms : List Mark) :
    wordsOf (b.map (fun _ => .gap) ++ ms) = wordsOf ms := by
  induction b with
  | nil => rfl
  | cons c b ih => rw [← ih]; simp [wordsOf, runs]

theorem wordsOf_letters {w : List Char} {ms : List Mark} (hw : w ≠ []) (hm : EndsWord ms) :
    wordsOf (w.map .letter ++ ms) = w :: wordsOf ms := by
  have hf : (runs ms).1 = [] := by
    obtain rfl | ⟨rest, rfl⟩ := hm <;> rfl
  simp [wordsOf, runs_letters, hf, hw]

theorem words_of_spelling {t l : List Char} {w : String} (h : Spells t w.toList) (hw : w ≠ "")
    (hl : EndsWord (marks none l)) :
    wordsOf (marks none (t ++ l)) = w.toList :: wordsOf (marks none l) := by
  rw [marks_of_spelling h, wordsOf_letters (by simpa using hw) hl]

theorem endsWord_blanks {b : List Char} (hne : b ≠ []) (hb : AllBlank b) (l : List Char) :
    EndsWord (marks none (b ++ l)) := by
  obtain ⟨c, b, rfl⟩ := List.exists_cons_of_ne_nil hne
  rw [marks_of_blanks hb]
  exact .inr ⟨_, rfl⟩

theorem PrintsWords.endsWord {ws : List String} {l : List Char} (h : PrintsWords ws l) :
    EndsWord (marks none l) := by
  cases h with
  | done hb =>
    by_cases hne : l = []
    · subst hne; exact .inl rfl
    · simpa using endsWord_blanks hne hb []
  | word hne hb => exact endsWord_blanks hne hb _

theorem operator_ne_empty (op : Operator) : op.text ≠ "" := by
  rcases op with ⟨_ | _, _ | _⟩ | ⟨_ | _⟩ <;> decide

theorem PrintsWords.words {ws : List String} {l : List Char} (h : PrintsWords ws l) :
    wordsOf (marks none l) = ws.map String.toList := by
  induction h with
  | @done b hb =>
    have hm := marks_of_blanks hb []
    rw [List.append_nil] at hm
    rw [hm, wordsOf_gaps]
    rfl
  | word _ hb ht hw hp ih =>
    rw [marks_of_blanks hb, wordsOf_gaps, words_of_spelling ht hw hp.endsWord, ih]
    rfl

theorem openQuote?_gaps (b : List Char) (ms : List Mark) :
    openQuote? (b.map (fun _ => .gap) ++ ms) = openQuote? ms := by
  induction b with
  | nil => rfl
  | cons c b ih => exact ih

theorem openQuote?_of_spelling {t w : List Char} (h : Spells t w) (l : List Char) :
    openQuote? (marks none (t ++ l)) = openQuote? (marks none l) := by
  rw [marks_of_spelling h, openQuote?_letters]

theorem openQuote?_of_blanks {b : List Char} (hb : AllBlank b) (l : List Char) :
    openQuote? (marks none (b ++ l)) = openQuote? (marks none l) := by
  rw [marks_of_blanks hb, openQuote?_gaps]

theorem PrintsWords.openQuote? {ws : List String} {l : List Char} (h : PrintsWords ws l) :
    openQuote? (marks none l) = none := by
  induction h with
  | done hb =>
    have ho := openQuote?_of_blanks hb []
    rw [List.append_nil] at ho
    exact ho
  | word _ hb ht _ _ ih => rw [openQuote?_of_blanks hb, openQuote?_of_spelling ht, ih]

theorem Prints.printsWords {ps : List Part} {l : List Char} (h : Prints ps l) :
    PrintsWords (ps.flatMap Part.words) l := by
  induction h with
  | done hb => exact .done hb
  | argument hne hb ht hw _ _ ih => exact .word hne hb ht hw ih
  | @redirection b d t w op ps l hne hb hne₂ hd ht hw _ ih =>
    exact .word hne hb (spells_operator op) (operator_ne_empty op) (.word hne₂ hd ht hw ih)

/-- What is read of a line that a word and others are printed on. -/
theorem readWords_of_printed {name line : String} {ws : List String} (hn : name ≠ "")
    (h : PrintsLine name ws line) (strict : Bool) :
    readWords strict line = .ok (name :: ws) := by
  obtain ⟨b, t, l, hb, ht, hp, hl⟩ := h
  have hw : words line = name :: ws := by
    rw [words, hl, marks_of_blanks hb, wordsOf_gaps, words_of_spelling ht hn hp.endsWord, hp.words]
    simp
  have ho : CommandShell.Line.openQuote? (marks none line.toList) = none := by
    rw [hl, openQuote?_of_blanks hb, openQuote?_of_spelling ht, hp.openQuote?]
  cases strict <;> simp [readWords, strictWords, ho, hw]

theorem ofOperator?_text (op : Operator) :
    Redirection.ofOperator? op.text = some (op.channel, op.append) := by
  rcases op with ⟨_ | _, _ | _⟩ | ⟨_ | _⟩ <;> rfl

theorem ofOperator?_eq_none {w : String} (h : w ∉ operatorTexts) :
    Redirection.ofOperator? w = none := by
  simp only [operatorTexts, List.mem_cons, List.not_mem_nil, or_false, not_or] at h
  unfold Redirection.ofOperator?
  split <;> simp_all

theorem extract_word {w : String} (hw : Redirection.ofOperator? w = none) (last : Redirection)
    (ws : List String) :
    Redirection.extract last (w :: ws) =
      (Redirection.extract last ws).map fun r => (w :: r.1, r.2) := by
  cases ws with
  | nil => simp [Redirection.extract, hw, Except.map]
  | cons v ws => simp [Redirection.extract, hw]

/-- Words that are read in one way as parts and an operator without a target give what these say. -/
theorem Parses.extract {ps : List Part} {dangling : Option Operator} {ws : List String}
    (h : Parses ps dangling ws) (last : Redirection) :
    Redirection.extract last ws = match dangling with
      | none => .ok (ps.filterMap Part.argument?,
          ((ps.filterMap Part.redirection?).getLast?).getD last)
      | some op => .error { cause := .missingTarget op.text } := by
  induction h generalizing last with
  | done => rfl
  | dangling op => simp [Redirection.extract, ofOperator?_text]
  | @argument w ps dangling ws hw _ ih =>
    rw [extract_word (ofOperator?_eq_none hw) last ws, ih last]
    cases dangling <;> rfl
  | @redirection op target ps dangling ws _ ih =>
    have hr : Redirection.extract last (op.text :: target :: ws) =
        Redirection.extract ⟨some target, op.append, op.channel⟩ ws := by
      simp [Redirection.extract, ofOperator?_text]
    rw [hr, ih]
    cases dangling with
    | none => simp [List.filterMap_cons, Part.argument?, Part.redirection?, List.getLast?_cons]
    | some op => rfl

theorem Prints.parses {ps : List Part} {l : List Char} (h : Prints ps l) :
    Parses ps none (ps.flatMap Part.words) := by
  induction h with
  | done => exact .done
  | argument _ _ _ _ hop _ ih => exact .argument hop ih
  | redirection _ _ _ _ _ _ _ ih => exact .redirection ih

/-- A printed line is parsed to the command that it prints, whatever its spelling and its blanks. -/
theorem parse_printed_line {name : String} {ps : List Part} {line : String} (hn : name ≠ "")
    (h : PrintsCommand name ps line) (strict : Bool) :
    Command.ofLine line strict =
      .ok ⟨name, ps.filterMap Part.argument?, lastRedirection ps⟩ := by
  obtain ⟨b, t, l, hb, ht, hp, hl⟩ := h
  have hs : readWords strict line = .ok (name :: ps.flatMap Part.words) :=
    readWords_of_printed hn ⟨b, t, l, hb, ht, hp.printsWords, hl⟩ strict
  have hr : Redirection.split (name :: ps.flatMap Part.words) =
      .ok (name :: ps.filterMap Part.argument?, lastRedirection ps) := by
    rw [Redirection.split, hp.parses.extract]
    rfl
  rw [Command.ofLine, hs]
  change (Redirection.split _ >>= _) = _
  rw [hr]
  rfl

/-- Quotes, escapes and an operator as a target in one line, of whose redirections the last
counts. -/
theorem parse_printed_echo :
    let ps : List Part := [.argument "a $", .redirection (.output false false) "2>",
      .argument ">a", .redirection (.error true) "log"]
    let line := " e'ch'o \"a \\$\"\t> '2>' \\>a 2>>  log "
    "echo" ≠ "" ∧ PrintsCommand "echo" ps line ∧
      Command.ofLine line = .ok ⟨"echo", ["a $", ">a"], ⟨some "log", true, .error⟩⟩ := by
  intro ps line
  have echo : Spells ['e', '\'', 'c', 'h', '\'', 'o'] "echo".toList :=
    .plain (by decide) (.single (s := ['c', 'h']) (by decide) (.plain (by decide) .done))
  have dollar : Spells ['"', 'a', ' ', '\\', '$', '"'] "a $".toList :=
    .double (s := ['a', ' ', '$']) .done
  have target : Spells ['\'', '2', '>', '\''] "2>".toList :=
    .single (s := ['2', '>']) (by decide) .done
  have arrow : Spells ['\\', '>', 'a'] ">a".toList := .escaped (.plain (by decide) .done)
  have log : Spells ['l', 'o', 'g'] "log".toList :=
    .plain (by decide) (.plain (by decide) (.plain (by decide) .done))
  have hp : Prints ps _ :=
    .argument (b := [' ']) (by decide) (by decide) dollar (by decide) (by decide) <|
    .redirection (b := ['\t']) (d := [' ']) (by decide) (by decide) (by decide) (by decide) target
      (by decide) <|
    .argument (b := [' ']) (by decide) (by decide) arrow (by decide) (by decide) <|
    .redirection (b := [' ']) (d := [' ', ' ']) (by decide) (by decide) (by decide) (by decide) log
      (by decide) <|
    .done (b := [' ']) (by decide)
  have hc : PrintsCommand "echo" ps line := ⟨[' '], _, _, by decide, echo, hp, by decide⟩
  exact ⟨by decide, hc, parse_printed_line (by decide) hc false⟩

end CommandShell.Line
