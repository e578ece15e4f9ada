import CommandShell.FileSystem
import CommandShell.Path

/-! # Locations as texts

The text of a location is an absolute path in its shortest form. Nothing is gained or lost by it:
its names are those of the location, and both normal forms of a path leave it as it is. -/
namespace CommandShell

structure IsName (c : String) : Prop where
  ne_empty : c ≠ ""
  no_slash : '/' ∉ c.toList
  ne_dot : c ≠ "."
  ne_dots : c ≠ ".."

namespace Location

def Proper (l : Location) : Prop := ∀ c ∈ l, IsName c

theorem proper_nil : Proper [] := fun _ h => absurd h List.not_mem_nil

theorem Proper.cons {c : String} {l : Location} (hc : IsName c) (h : Proper l) : Proper (c :: l) :=
  fun d hd => (List.mem_cons.mp hd).elim (fun e => e ▸ hc) (h d)

theorem Proper.reverse {l : Location} (h : Proper l) : ∀ c ∈ l.reverse, IsName c :=
  fun c hc => h c (List.mem_reverse.mp hc)

theorem pieces_text {l : Location} (hl : l ≠ []) (h : l.Proper) :
    Text.pieces '/' l.text = "" :: l.reverse := by
  obtain ⟨a, r, hr⟩ := List.exists_cons_of_ne_nil (List.reverse_ne_nil_iff.mpr hl)
  have hn := h.reverse
  rw [hr] at hn ⊢
  have ht : l.text = Text.joined (String.ofList ['/']) ("" :: a :: r) := by
    rw [text, hr]
    rfl
  rw [ht]
  apply Text.pieces_joined
  intro t ht
  rcases List.mem_cons.mp ht with rfl | ht
  · simp
  · exact (hn t ht).no_slash

theorem names_text {l : Location} (h : l.Proper) : Path.names l.text = l.reverse := by
  by_cases hl : l = []
  · subst hl; decide
  · rw [Path.names, pieces_text hl h, List.filter_cons_of_neg (by simp)]
    rw [List.filter_eq_self]
    intro c hc
    simpa using (h.reverse c hc).ne_empty

theorem text_injective {l k : Location} (hl : l.Proper) (hk : k.Proper) (h : l.text = k.text) :
    l = k := by
  have hn := names_text hl
  rw [h, names_text hk] at hn
  exact (List.reverse_inj.mp hn).symm

theorem toList_text (l : Location) :
    l.text.toList = '/' :: (Text.joined "/" l.reverse).toList := by
  simp [text, Path.text]

theorem startsAtRoot_text (l : Location) : Path.startsAtRoot l.text := by
  simp [Path.startsAtRoot, toList_text]

theorem text_ne_empty (l : Location) : l.text ≠ "" := by
  intro h
  have hl := toList_text l
  rw [h] at hl
  simp at hl

theorem joined_concat (ts : List String) (c : String) :
    ∃ x, (Text.joined "/" (ts ++ [c])).toList = x ++ c.toList := by
  induction ts with
  | nil => exact ⟨[], rfl⟩
  | cons t ts ih =>
    obtain ⟨x, hx⟩ := ih
    obtain ⟨u, us, hu⟩ := List.exists_cons_of_ne_nil (List.append_ne_nil_of_right_ne_nil ts
      (List.cons_ne_nil c []))
    refine ⟨t.toList ++ '/' :: x, ?_⟩
    rw [List.cons_append, hu, Text.joined, ← hu]
    simp [hx]

theorem getLast?_text {c : String} {l : Location} (hc : c ≠ "") :
    (text (c :: l)).toList.getLast? = c.toList.getLast? := by
  obtain ⟨x, hx⟩ := joined_concat l.reverse c
  have hne : c.toList ≠ [] := by simpa using hc
  rw [toList_text, List.reverse_cons, hx, ← List.cons_append, List.getLast?_append,
    List.getLast?_eq_some_getLast hne]
  rfl

theorem getLast?_text_ne_slash {c : String} {l : Location} (hc : IsName c) :
    (text (c :: l)).toList.getLast? ≠ some '/' := by
  rw [getLast?_text hc.ne_empty]
  intro h
  exact hc.no_slash (List.mem_of_getLast? h)

theorem foldl_step {cs : List String} (h : ∀ c ∈ cs, IsName c) (absolute : Bool)
    (before : List String) : cs.foldl (Path.step absolute) before = cs.reverse ++ before := by
  induction cs generalizing before with
  | nil => rfl
  | cons c cs ih =>
    have hd := (h c List.mem_cons_self).ne_dots
    have hs : Path.step absolute before c = c :: before := by
      cases before <;> simp [Path.step, hd]
    rw [List.foldl_cons, hs, ih fun d hd => h d (List.mem_cons_of_mem c hd)]
    simp

theorem tidy_text {l : Location} (h : l.Proper) : Path.tidy l.text = l.text := by
  have hf : (Path.names l.text).filter (· ≠ ".") = l.reverse := by
    rw [names_text h, List.filter_eq_self]
    intro c hc
    simpa using (h.reverse c hc).ne_dot
  rw [Path.tidy, Path.ofText, hf, startsAtRoot_text, Path.reduced, foldl_step h.reverse]
  simp [text]

/-- A location is where its text leads, from whichever directory the text is taken. -/
theorem resolve_text {l : Location} (h : l.Proper) (dir : String) :
    Path.resolve l.text dir = l.text := by
  rw [Path.resolve, if_pos (startsAtRoot_text l), tidy_text h]

theorem simplified_names {cs : List String} (h : ∀ c ∈ cs, IsName c) (root : Nat)
    (before : List String) : Path.Posix.simplified root before cs = cs.reverse ++ before := by
  induction cs generalizing before with
  | nil => rfl
  | cons c cs ih =>
    have hc := h c List.mem_cons_self
    have hk : Path.Posix.keeps root before c = true := by
      simp [Path.Posix.keeps, hc.ne_dots]
    have hd : ¬ (c = "" ∨ c = ".") := by simp [hc.ne_empty, hc.ne_dot]
    rw [Path.Posix.simplified, if_neg hd, if_pos hk, ih fun d hd => h d (List.mem_cons_of_mem c hd)]
    simp

theorem rootSlashes_text {l : Location} (h : l.Proper) :
    Path.Posix.rootSlashes l.text.toList = 1 := by
  rw [toList_text]
  match hr : l.reverse with
  | [] => rfl
  | a :: r =>
    have ha := h.reverse a (hr ▸ List.mem_cons_self)
    obtain ⟨x, xs, hx⟩ := List.exists_cons_of_ne_nil (show a.toList ≠ [] by simpa using ha.ne_empty)
    have hs : x ≠ '/' := by
      intro he
      subst he
      exact ha.no_slash (hx ▸ List.mem_cons_self)
    rw [Text.toList_joined_cons, hx]
    simp [Path.Posix.rootSlashes, hs]

theorem normal_text {l : Location} (h : l.Proper) : Path.Posix.normal l.text = l.text := by
  have hp : Path.Posix.simplified 1 [] (Text.pieces '/' l.text) = l := by
    by_cases hl : l = []
    · subst hl; decide
    · rw [pieces_text hl h, Path.Posix.simplified, if_pos (.inl rfl), simplified_names h.reverse]
      simp
  have ht : String.ofList (List.replicate 1 '/') ++ Text.joined "/" l.reverse = l.text := rfl
  simp only [Path.Posix.normal, rootSlashes_text h, hp, ht, text_ne_empty, if_false]

end Location

end CommandShell
