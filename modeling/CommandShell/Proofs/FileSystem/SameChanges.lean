import CommandShell.Proofs.FileSystem.Opening

/-! # The same changes in two file systems

Two file systems have the same nodes, but their files may hold other bytes. What is opened and
written in both changes them in the same way: in the end a location has the same node in both, or
two files that have taken the same bytes on top of what they held at first. -/
namespace CommandShell.FileSystem

inductive ChangedAlike (a b : Option Node) : Option Node → Option Node → Prop where
  | same (n) : ChangedAlike a b n n
  | grown {p program content other} (bytes : ByteArray) : a = some (.file p content program) →
      b = some (.file p other program) →
      ChangedAlike a b (some (.file p (content ++ bytes) program))
        (some (.file p (other ++ bytes) program))

/-- What made the first file system the third one has made the second one the fourth one. -/
def SameChanges (a b a' b' : FileSystem) : Prop :=
  ∀ l, ChangedAlike (a.node? l) (b.node? l) (a'.node? l) (b'.node? l)

variable {a b a' b' : FileSystem} {processDir path : String} {l : Location}

namespace ChangedAlike

variable {m n m' n' : Option Node}

theorem symm (h : ChangedAlike m n m' n') : ChangedAlike n m n' m' := by
  cases h with
  | same => exact .same _
  | grown bytes hm hn => exact .grown bytes hn hm

theorem bare (h : ChangedAlike m n m' n') : m'.map Node.bare = n'.map Node.bare := by
  cases h <;> rfl

theorem eq (h : ChangedAlike m m m' n') : n' = m' := by
  cases h with
  | same => rfl
  | grown bytes hm hn =>
    rw [hm] at hn
    cases hn
    rfl

end ChangedAlike

theorem SameNodes.sameChanges (h : SameNodes a b) : SameChanges a b a b := by
  intro l
  rcases h.node?_cases l with ⟨ha, hb⟩ | ⟨m, n, ha, hb, he⟩
  · rw [ha, hb]
    exact .same none
  · rw [ha, hb]
    cases m with
    | directory p =>
      rw [bare_eq_directory he]
      exact .same _
    | link target =>
      rw [bare_eq_link he]
      exact .same _
    | file p content program =>
      obtain ⟨other, rfl⟩ := bare_eq_file he
      have hgrown : ChangedAlike (some (.file p content program)) (some (.file p other program))
          (some (.file p (content ++ .empty) program)) (some (.file p (other ++ .empty) program)) :=
        .grown .empty rfl rfl
      simpa using hgrown

namespace SameChanges

theorem symm (h : SameChanges a b a' b') : SameChanges b a b' a' := fun l => (h l).symm

theorem sameNodes (h : SameChanges a b a' b') : SameNodes a' b' := fun l => (h l).bare

theorem node?_eq (h : SameChanges a a a' b') (l : Location) : b'.node? l = a'.node? l := (h l).eq

theorem set (h : SameChanges a b a' b') (hl : l ≠ []) (n : Node) :
    SameChanges a b (a'.set l n) (b'.set l n) := by
  intro k
  rw [node?_set hl, node?_set hl]
  split
  · exact .same _
  · exact h k

theorem append (h : SameChanges a b a' b') (l : Location) (bytes : ByteArray) :
    SameChanges a b (a'.append l bytes) (b'.append l bytes) := by
  have hl := h l
  unfold FileSystem.append
  generalize hm : a'.node? l = m, hn : b'.node? l = n at hl
  cases hl with
  | same =>
    split
    · next hf =>
      have hroot : l ≠ [] := by
        rintro rfl
        simp [node?_root] at hm
      exact h.set hroot _
    · exact h
  | grown more ha hb =>
    have hroot : l ≠ [] := by
      rintro rfl
      simp [node?_root] at hm
    intro k
    rw [node?_set hroot, node?_set hroot, ByteArray.append_assoc, ByteArray.append_assoc]
    split
    · next hk =>
      subst hk
      exact .grown (more ++ bytes) ha hb
    · exact h k

theorem openAt (h : SameChanges a b a' b') {append : Bool} {d : Destination} {place : Location}
    {after : FileSystem} (ho : a'.openAt append d = .ok (place, after)) :
    ∃ after', b'.openAt append d = .ok (place, after') ∧ SameChanges a b after after' := by
  have hnodes := h.sameNodes
  unfold FileSystem.openAt at ho ⊢
  cases d with
  | free directory name =>
    dsimp only at ho ⊢
    split at ho
    · next p hp =>
      rw [hnodes.grows.directory_iff.mp hp]
      dsimp only at ho ⊢
      split at ho
      · next hw =>
        cases ho
        exact ⟨_, if_pos hw, h.set (List.cons_ne_nil name directory) _⟩
      · cases ho
    · cases ho
  | existing k =>
    dsimp only at ho ⊢
    split at ho
    · next p content program hf =>
      obtain ⟨n, hn, he⟩ := (hf ▸ hnodes.grows k).of_some
      obtain ⟨other, rfl⟩ := bare_eq_file he
      have hroot : k ≠ [] := by
        rintro rfl
        simp [node?_root] at hf
      rw [hn]
      dsimp only
      split at ho
      · next hw =>
        cases ho
        refine ⟨_, if_pos hw, ?_⟩
        cases append
        · exact h.set hroot _
        · exact h
      · cases ho
    · cases ho

theorem openForWriting (h : SameChanges a b a' b') (processDir path : String) (append : Bool) :
    (∃ f, a'.openForWriting processDir path append = .error f ∧
      b'.openForWriting processDir path append = .error f) ∨
    ∃ place after after', a'.openForWriting processDir path append = .ok (place, after) ∧
      b'.openForWriting processDir path append = .ok (place, after') ∧
      SameChanges a b after after' := by
  cases ho : a'.openForWriting processDir path append with
  | error f => exact .inl ⟨f, rfl, h.sameNodes.openForWriting_error ho⟩
  | ok opened =>
    have hn : hasNul path = false := by
      apply Bool.eq_false_iff.mpr
      intro hn
      rw [openForWriting_of_nul hn] at ho
      cases ho
    have hs : endsWithSlash path = false := by
      apply Bool.eq_false_iff.mpr
      intro hs
      rw [openForWriting_of_end_slash hn hs] at ho
      cases ho
    cases hf : a'.find processDir path with
    | error e =>
      rw [openForWriting_of_find_error hn hs hf] at ho
      cases ho
    | ok d =>
      rw [openForWriting_of_find hn hs hf] at ho
      cases hd : a'.openAt append d with
      | error e =>
        rw [hd] at ho
        cases ho
      | ok place =>
        rw [hd] at ho
        cases ho
        obtain ⟨after', hd', hafter⟩ := h.openAt hd
        refine .inr ⟨_, _, after', rfl, ?_, hafter⟩
        rw [openForWriting_of_find hn hs (h.sameNodes.find.trans hf), hd']

end SameChanges

end CommandShell.FileSystem
