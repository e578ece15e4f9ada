import CommandShell.Proofs.FileSystem.Growth
import CommandShell.Proofs.Paths

/-! # Real paths without the character zero

If no link has the character zero in its text, then no real path of a path without it has it, and
all that can stop the search is its depth. The invariant is about everything that is put together on
the way: the trail, the trails of the links seen, and the text where a loop was met. -/
namespace CommandShell.FileSystem

def PlainLinks (fs : FileSystem) : Prop :=
  ∀ l target, fs.node? l = some (.link target) → hasNul target = false

def Trail.Plain (t : Trail) : Prop := ∀ name ∈ t.names, hasNul name = false

def Resolution.Plain : Resolution → Prop
  | resolved t => t.Plain
  | looping s => hasNul s = false

def LinksSeen.Plain (seen : LinksSeen) : Prop :=
  ∀ key t, seen.get? key = some (some t) → t.Plain

def PlainOrDeep : Except Fault (Resolution × LinksSeen) → Prop
  | .ok (r, seen) => r.Plain ∧ LinksSeen.Plain seen
  | .error f => f = .tooDeep

variable {fs : FileSystem} {processDir path : String} {t : Trail} {seen : LinksSeen}

theorem Trail.Plain.text (h : t.Plain) : hasNul t.text = false := by
  apply Path.hasNul_text
  intro c hc
  exact h c (List.mem_reverse.mp hc)

theorem Trail.Plain.enter {name : String} (h : t.Plain) (hn : hasNul name = false) :
    (t.enter name).Plain := by
  intro c hc
  rcases List.mem_cons.mp hc with rfl | hc
  · exact hn
  · exact h c hc

theorem Trail.Plain.leave (h : t.Plain) : t.leave.Plain := by
  intro c hc
  rcases List.mem_cons.mp (Path.step_subset _ _ _ hc) with rfl | hc
  · decide
  · exact h c hc

theorem LinksSeen.forall_cons {P : Trail → Prop} {key : String} {known : Option Trail}
    (h : ∀ k t, seen.get? k = some (some t) → P t) (hk : ∀ t, known = some t → P t) (k : String)
    (t : Trail) (ht : Table.get? ((key, known) :: seen) k = some (some t)) : P t := by
  simp only [Table.get?] at ht
  split at ht
  · exact hk t (by simpa using ht)
  · exact h k t ht

theorem PlainLinks.linkText? (hfs : fs.PlainLinks) (processDir : String)
    (h : hasNul path = false) :
    ∃ r, fs.linkText? processDir path = .ok r ∧
      ∀ target, r = some target → hasNul target = false := by
  obtain ⟨r, hr⟩ := linkText?_ok fs processDir h
  refine ⟨r, hr, ?_⟩
  rintro target rfl
  obtain ⟨d, -, hd⟩ := (linkText?_eq_some_iff fs processDir path target).mp hr
  exact hfs d target hd

theorem along_plain (hfs : fs.PlainLinks)
    {resolveLink : LinksSeen → Trail → String → Except Fault (Resolution × LinksSeen)}
    (hr : ∀ seen t path, LinksSeen.Plain seen → t.Plain → hasNul path = false →
      PlainOrDeep (resolveLink seen t path))
    (hseen : LinksSeen.Plain seen) (ht : t.Plain) {ps : List String}
    (hps : ∀ p ∈ ps, hasNul p = false) :
    PlainOrDeep (along fs processDir resolveLink seen t ps) := by
  induction ps generalizing seen t with
  | nil => exact ⟨ht, hseen⟩
  | cons c rest ih =>
    have hc := hps c List.mem_cons_self
    have hrest := fun p hp => hps p (List.mem_cons_of_mem c hp)
    have hjoined : hasNul (Text.joined "/" rest) = false := Text.hasNul_joined (by decide) hrest
    have hnext := ht.enter hc
    obtain ⟨r, hlink, htext⟩ := hfs.linkText? processDir hnext.text
    unfold along
    split
    · exact ih hseen ht hrest
    split
    · exact ih hseen ht.leave hrest
    dsimp only
    rw [hlink]
    cases r with
    | none => exact ih hseen hnext hrest
    | some target =>
      dsimp only
      split
      · next known hknown => exact ih hseen (hseen _ known hknown) hrest
      · exact ⟨Path.Posix.hasNul_join hnext.text hjoined, hseen⟩
      · have hresolved := hr (((t.enter c).text, none) :: seen) t target
          (LinksSeen.forall_cons hseen (by simp)) ht (htext target rfl)
        split
        · next f hf =>
          rw [hf] at hresolved
          exact hresolved
        · next s after hs =>
          rw [hs] at hresolved
          exact ⟨Path.Posix.hasNul_join hresolved.1 hjoined, hresolved.2⟩
        · next known after hk =>
          rw [hk] at hresolved
          exact ih (LinksSeen.forall_cons hresolved.2 fun u hu => Option.some.inj hu ▸ hresolved.1)
            hresolved.1 hrest

theorem resolveFrom_plain (hfs : fs.PlainLinks) (depth : Nat) (hseen : LinksSeen.Plain seen)
    (ht : t.Plain) (hp : hasNul path = false) :
    PlainOrDeep (resolveFrom fs processDir depth seen t path) := by
  induction depth generalizing seen t path with
  | zero => rfl
  | succ depth ih =>
    apply along_plain hfs (fun _ _ _ hseen ht hp => ih hseen ht hp) hseen
    · split
      · intro name hname
        simp at hname
      · exact ht
    · exact fun p hmem => Text.hasNul_of_mem_pieces hp hmem

/-- The real path is found without the character zero, unless the search goes too deep. -/
theorem realPath_plain (hfs : fs.PlainLinks) (hdir : hasNul processDir = false)
    (hp : hasNul path = false) : fs.realPath processDir path = .error .tooDeep ∨
      ∃ real, fs.realPath processDir path = .ok real ∧ hasNul real = false := by
  have hseen : LinksSeen.Plain [] := fun _ _ h => by simp [Table.get?] at h
  have hstart : (⟨false, []⟩ : Trail).Plain := fun _ h => by simp at h
  have hplain : PlainOrDeep (resolveFrom fs processDir nestingLimit [] ⟨false, []⟩ path) :=
    resolveFrom_plain hfs nestingLimit hseen hstart hp
  unfold realPath
  cases hr : resolveFrom fs processDir nestingLimit [] ⟨false, []⟩ path with
  | error f =>
    rw [hr] at hplain
    obtain rfl : f = .tooDeep := hplain
    exact .inl rfl
  | ok p =>
    obtain ⟨r, seen⟩ := p
    rw [hr] at hplain
    refine .inr ⟨_, rfl, Path.Posix.hasNul_normal (Path.Posix.hasNul_join hdir ?_)⟩
    cases r with
    | resolved t =>
      dsimp only
      split
      · rfl
      · exact hplain.1.text
    | looping s => exact hplain.1

end CommandShell.FileSystem
