import CommandShell.FileSystem
import CommandShell.Path

/-! # Paths that are made from others

Joining and simplifying keep two things: a path from the root stays one, and the character zero does
not come in where no part has it. -/
namespace CommandShell

open FileSystem (hasNul)

namespace Path.Posix

theorem startsAtRoot_join {dir : String} (s : String) (h : startsAtRoot dir = true) :
    startsAtRoot (join dir s) = true := by
  obtain ⟨r, hr⟩ : ∃ r, dir.toList = '/' :: r := by
    simp only [startsAtRoot, beq_iff_eq] at h
    exact List.head?_eq_some_iff.mp h
  unfold join
  split
  · next hs => exact hs
  split
  · simp [startsAtRoot, hr]
  · simp [startsAtRoot, hr]

theorem rootSlashes_of_root {cs : List Char} (h : cs.head? = some '/') :
    ∃ n, rootSlashes cs = n + 1 := by
  obtain ⟨r, rfl⟩ := List.head?_eq_some_iff.mp h
  unfold rootSlashes
  split
  · exact ⟨0, rfl⟩
  · exact ⟨1, rfl⟩
  · exact ⟨0, rfl⟩
  · next hne => exact absurd rfl (hne r)

theorem startsAtRoot_normal {s : String} (h : startsAtRoot s = true) :
    startsAtRoot (normal s) = true := by
  obtain ⟨n, hn⟩ := rootSlashes_of_root (by simpa [startsAtRoot] using h)
  have hroot (t : String) :
      startsAtRoot (String.ofList (List.replicate (n + 1) '/') ++ t) = true := by
    simp [startsAtRoot, List.replicate_succ]
  unfold normal
  rw [hn]
  dsimp only
  split
  · next he =>
    have ht := hroot (Text.joined "/" (simplified (n + 1) [] (Text.pieces '/' s)).reverse)
    rw [he] at ht
    simp [startsAtRoot] at ht
  · exact hroot _

theorem startsAtRoot_absoluteFrom {dir : String} (s : String) (h : startsAtRoot dir = true) :
    startsAtRoot (absoluteFrom dir s) = true := by
  unfold absoluteFrom
  split
  · next hs => exact hs
  · exact startsAtRoot_normal (startsAtRoot_join s h)

end Path.Posix

theorem hasNul_eq_false_iff {s : String} : hasNul s = false ↔ '\x00' ∉ s.toList := by
  simp [hasNul]

theorem hasNul_append_iff {s t : String} :
    hasNul (s ++ t) = false ↔ hasNul s = false ∧ hasNul t = false := by
  simp [hasNul_eq_false_iff]

theorem hasNul_ofList {cs : List Char} : hasNul (String.ofList cs) = false ↔ '\x00' ∉ cs := by
  simp [hasNul_eq_false_iff]

theorem Text.hasNul_joined {sep : String} {ts : List String} (hsep : hasNul sep = false)
    (h : ∀ t ∈ ts, hasNul t = false) : hasNul (joined sep ts) = false := by
  induction ts using joined.induct with
  | case1 => rfl
  | case2 s => exact h s List.mem_cons_self
  | case3 s t r ih =>
    have hrest := ih fun u hu => h u (List.mem_cons_of_mem s hu)
    simp only [joined, hasNul_append_iff]
    exact ⟨⟨h s List.mem_cons_self, hsep⟩, hrest⟩

theorem Text.mem_of_mem_pieces {sep c : Char} {s p : String} (hp : p ∈ pieces sep s)
    (hc : c ∈ p.toList) : c ∈ s.toList := by
  rw [← cut_append_flatMap sep s.toList, List.mem_append, List.mem_flatMap]
  rcases List.mem_cons.mp hp with rfl | hp
  · exact .inl (by simpa using hc)
  · obtain ⟨cs, hcs, rfl⟩ := List.mem_map.mp hp
    exact .inr ⟨cs, hcs, List.mem_cons_of_mem sep (by simpa using hc)⟩

theorem Text.hasNul_of_mem_pieces {sep : Char} {s p : String} (h : hasNul s = false)
    (hp : p ∈ pieces sep s) : hasNul p = false := by
  rw [hasNul_eq_false_iff] at h ⊢
  exact fun hc => h (mem_of_mem_pieces hp hc)

namespace Path

theorem step_subset (absolute : Bool) (before : List String) (c : String) :
    step absolute before c ⊆ c :: before := by
  unfold step
  split
  · split
    · split
      · intro x hx
        simp [hx]
      · split
        · intro x hx
          simp only [List.mem_cons] at hx ⊢
          exact .inr hx
        · exact List.Subset.refl _
    · exact List.Subset.refl _
  · split
    · exact List.nil_subset _
    · exact List.Subset.refl _

theorem hasNul_text {p : Path} (h : ∀ c ∈ p.components, hasNul c = false) :
    hasNul p.text = false := by
  unfold text
  split
  · exact hasNul_append_iff.mpr ⟨by decide, Text.hasNul_joined (by decide) h⟩
  split
  · decide
  · exact Text.hasNul_joined (by decide) h

namespace Posix

theorem hasNul_join {dir s : String} (hd : hasNul dir = false) (hs : hasNul s = false) :
    hasNul (join dir s) = false := by
  unfold join
  split
  · exact hs
  split
  · exact hasNul_append_iff.mpr ⟨hd, hs⟩
  · exact hasNul_append_iff.mpr ⟨hasNul_append_iff.mpr ⟨hd, by decide⟩, hs⟩

theorem mem_simplified {root : Nat} {before cs : List String} {c : String}
    (h : c ∈ simplified root before cs) : c ∈ before ∨ c ∈ cs := by
  induction cs generalizing before with
  | nil => exact .inl h
  | cons d cs ih =>
    simp only [simplified] at h
    split at h
    · exact (ih h).imp_right (List.mem_cons_of_mem d)
    split at h
    · rcases ih h with hb | hc
      · rcases List.mem_cons.mp hb with rfl | hb
        · exact .inr List.mem_cons_self
        · exact .inl hb
      · exact .inr (List.mem_cons_of_mem d hc)
    · rcases ih h with hb | hc
      · exact .inl (List.mem_of_mem_tail hb)
      · exact .inr (List.mem_cons_of_mem d hc)

theorem hasNul_normal {s : String} (h : hasNul s = false) : hasNul (normal s) = false := by
  unfold normal
  dsimp only
  split
  · decide
  · refine hasNul_append_iff.mpr ⟨?_, Text.hasNul_joined (by decide) ?_⟩
    · rw [hasNul_ofList]
      intro hmem
      have he := List.eq_of_mem_replicate hmem
      simp at he
    · intro t ht
      rcases mem_simplified (List.mem_reverse.mp ht) with hb | hc
      · simp at hb
      · exact Text.hasNul_of_mem_pieces h hc

theorem hasNul_absoluteFrom {dir s : String} (hd : hasNul dir = false) (hs : hasNul s = false) :
    hasNul (absoluteFrom dir s) = false := by
  unfold absoluteFrom
  split
  · exact hs
  · exact hasNul_normal (hasNul_join hd hs)

end Posix

end Path

end CommandShell
