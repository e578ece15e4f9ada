import CommandShell.FileSystem.Changes
import CommandShell.Proofs.FileSystem.LocationText

/-! # Walks through a file system

What a lookup does, as a relation that counts the links it follows. A lookup with a bound on the
links reaches a location exactly if a walk with no more links leads there. Walks are deterministic,
can be cut at every component, and pass through searchable directories only. -/
namespace CommandShell.FileSystem

def linkStart (l : Location) (target : String) : Location :=
  if Path.startsAtRoot target then [] else l

structure Takes (fs : FileSystem) (l : Location) (c : String) : Prop where
  clear : fs.obstacle? l = none
  ne_dot : c ≠ "."
  ne_dots : c ≠ ".."
  short : c.utf8ByteSize ≤ nameLimit

/-- `fs.Leads followLast n l cs e` says that the components `cs`, taken from `l`, lead to the
destination `e`, and that `n` links are followed on the way. -/
inductive Leads (fs : FileSystem) (followLast : Bool) :
    Nat → Location → List String → Destination → Prop where
  | here (l) : Leads fs followLast 0 l [] (.existing l)
  | dot {n l cs e} : fs.obstacle? l = none → Leads fs followLast n l cs e →
      Leads fs followLast n l ("." :: cs) e
  | up {n l cs e} : fs.obstacle? l = none → Leads fs followLast n l.tail cs e →
      Leads fs followLast n l (".." :: cs) e
  | enter {n l c cs e node} : fs.Takes l c → fs.node? (c :: l) = some node →
      (∀ target, node ≠ .link target) → Leads fs followLast n (c :: l) cs e →
      Leads fs followLast n l (c :: cs) e
  | free {l c} : fs.Takes l c → fs.node? (c :: l) = none →
      Leads fs followLast 0 l [c] (.free l c)
  | last {l c target} : fs.Takes l c → fs.node? (c :: l) = some (.link target) →
      followLast = false → Leads fs followLast 0 l [c] (.existing (c :: l))
  | link {n l c cs e target} : fs.Takes l c → fs.node? (c :: l) = some (.link target) →
      (cs = [] → followLast = true) →
      Leads fs followLast n (linkStart l target) (Path.names target ++ cs) e →
      Leads fs followLast (n + 1) l (c :: cs) e

variable {fs : FileSystem} {followLast : Bool}

theorem advance_dot {l : Location} (hl : fs.obstacle? l = none) (cs : List String) :
    fs.advance followLast l ("." :: cs) = fs.advance followLast l cs := by
  simp [advance, hl]

theorem advance_up {l : Location} (hl : fs.obstacle? l = none) (cs : List String) :
    fs.advance followLast l (".." :: cs) = fs.advance followLast l.tail cs := by
  simp [advance, hl]

theorem advance_name {l : Location} {c : String} (h : fs.Takes l c) (cs : List String) :
    fs.advance followLast l (c :: cs) = match fs.node? (c :: l) with
      | none => if cs.isEmpty then .ok (.done (.free l c)) else .error .notFound
      | some (.link target) =>
        if cs.isEmpty && !followLast then .ok (.done (.existing (c :: l)))
        else .ok (.atLink l target cs)
      | some _ => fs.advance followLast (c :: l) cs := by
  rw [advance, h.clear]
  cases fs.node? (c :: l) with
  | none => simp [h.ne_dot, h.ne_dots, Nat.not_lt.mpr h.short]
  | some node => cases node <;> simp [h.ne_dot, h.ne_dots, Nat.not_lt.mpr h.short]

def Progress.Sound (fs : FileSystem) (followLast : Bool) (l : Location) (cs : List String) :
    Progress → Prop
  | .done e => fs.Leads followLast 0 l cs e
  | .atLink dir target rest => ∀ n e,
      fs.Leads followLast n (linkStart dir target) (Path.names target ++ rest) e →
      fs.Leads followLast (n + 1) l cs e

theorem Progress.Sound.lift {p : Progress} {l k : Location} {cs ds : List String}
    (hs : p.Sound fs followLast k ds)
    (h : ∀ n e, fs.Leads followLast n k ds e → fs.Leads followLast n l cs e) :
    p.Sound fs followLast l cs := by
  match p with
  | .done e => exact h 0 e hs
  | .atLink _ _ _ => exact fun n e walk => h (n + 1) e (hs n e walk)

theorem advance_sound {l : Location} {cs : List String} {p : Progress}
    (h : fs.advance followLast l cs = .ok p) : p.Sound fs followLast l cs := by
  induction cs generalizing l p with
  | nil => simp only [advance, Except.ok.injEq] at h; subst h; exact .here l
  | cons c cs ih =>
    cases ho : fs.obstacle? l with
    | some e => simp [advance, ho] at h
    | none =>
      by_cases hd : c = "."
      · subst hd
        rw [advance_dot ho] at h
        exact (ih h).lift fun _ _ walk => .dot ho walk
      by_cases hu : c = ".."
      · subst hu
        rw [advance_up ho] at h
        exact (ih h).lift fun _ _ walk => .up ho walk
      by_cases hn : nameLimit < c.utf8ByteSize
      · simp [advance, ho, hd, hu, hn] at h
      have ht : fs.Takes l c := ⟨ho, hd, hu, Nat.not_lt.mp hn⟩
      rw [advance_name ht] at h
      split at h
      · next hc =>
        split at h
        · next he =>
          obtain rfl := List.isEmpty_iff.mp he
          simp only [Except.ok.injEq] at h; subst h
          exact .free ht hc
        · simp at h
      · next target hc =>
        split at h
        · next he =>
          simp only [Bool.and_eq_true, List.isEmpty_iff, Bool.not_eq_true'] at he
          obtain ⟨rfl, hf⟩ := he
          simp only [Except.ok.injEq] at h; subst h
          exact .last ht hc hf
        · next he =>
          simp only [Except.ok.injEq] at h; subst h
          intro n e walk
          refine .link ht hc ?_ walk
          intro heq
          subst heq
          simpa using he
      · next node hnl hc =>
        exact (ih h).lift fun _ _ walk => .enter ht hc (fun t e => hnl t e) walk

theorem advance_of_leads_zero {l : Location} {e : Destination} {cs : List String}
    (h : fs.Leads followLast 0 l cs e) : fs.advance followLast l cs = .ok (.done e) := by
  generalize hn : (0 : Nat) = n at h
  induction h with
  | here l => rfl
  | dot ho _ ih => rw [advance_dot ho, ih hn]
  | up ho _ ih => rw [advance_up ho, ih hn]
  | @enter n l c cs e node ht hc hnl _ ih =>
    rw [advance_name ht, hc, ← ih hn]
    cases node with
    | link target => exact absurd rfl (hnl target)
    | _ => rfl
  | free ht hc => rw [advance_name ht, hc]; rfl
  | last ht hc hf => rw [advance_name ht, hc]; simp [hf]
  | link => omega

theorem advance_of_leads_succ {n : Nat} {l : Location} {e : Destination} {cs : List String}
    (h : fs.Leads followLast (n + 1) l cs e) :
    ∃ dir target rest, fs.advance followLast l cs = .ok (.atLink dir target rest) ∧
      fs.Leads followLast n (linkStart dir target) (Path.names target ++ rest) e := by
  generalize hn : n + 1 = m at h
  induction h with
  | here => omega
  | dot ho _ ih => rw [advance_dot ho]; exact ih hn
  | up ho _ ih => rw [advance_up ho]; exact ih hn
  | @enter m l c cs e node ht hc hnl _ ih =>
    obtain ⟨dir, target, rest, ha, hw⟩ := ih hn
    refine ⟨dir, target, rest, ?_, hw⟩
    rw [advance_name ht, hc, ← ha]
    cases node with
    | link target => exact absurd rfl (hnl target)
    | _ => rfl
  | free => omega
  | last => omega
  | @link m l c cs e target ht hc hlast walk _ =>
    obtain rfl : n = m := by omega
    refine ⟨l, target, cs, ?_, walk⟩
    rw [advance_name ht, hc]
    have hf : (cs.isEmpty && !followLast) = false := by
      cases cs with
      | nil => simp [hlast rfl]
      | cons => rfl
    simp [hf]

theorem walk_eq (links : Nat) (l : Location) (cs : List String) :
    fs.walk followLast links l cs = match fs.advance followLast l cs with
      | .error e => .error e
      | .ok (.done e) => .ok e
      | .ok (.atLink directory target rest) =>
        match links with
        | 0 => .error .linkLoop
        | links + 1 =>
          fs.walk followLast links (linkStart directory target) (Path.names target ++ rest) := by
  rw [walk.eq_def]
  dsimp only
  cases fs.advance followLast l cs with
  | error e => rfl
  | ok p =>
    cases p with
    | done e => rfl
    | atLink directory target rest => cases links <;> rfl

theorem leads_of_walk {links : Nat} {l : Location} {e : Destination} {cs : List String}
    (h : fs.walk followLast links l cs = .ok e) : ∃ n ≤ links, fs.Leads followLast n l cs e := by
  induction links generalizing l cs with
  | zero =>
    rw [walk_eq] at h
    split at h
    · simp at h
    · next ha =>
      simp only [Except.ok.injEq] at h; subst h
      exact ⟨0, Nat.le_refl 0, advance_sound ha⟩
    · simp at h
  | succ links ih =>
    rw [walk_eq] at h
    split at h
    · simp at h
    · next ha =>
      simp only [Except.ok.injEq] at h; subst h
      exact ⟨0, Nat.zero_le _, advance_sound ha⟩
    · next ha =>
      obtain ⟨n, hn, walk⟩ := ih h
      exact ⟨n + 1, Nat.succ_le_succ hn, advance_sound ha n e walk⟩

theorem walk_of_leads {n links : Nat} {l : Location} {e : Destination} {cs : List String}
    (h : fs.Leads followLast n l cs e) (hn : n ≤ links) :
    fs.walk followLast links l cs = .ok e := by
  induction n generalizing links l cs with
  | zero =>
    rw [walk_eq, advance_of_leads_zero h]
  | succ n ih =>
    obtain ⟨links, rfl⟩ : ∃ m, links = m + 1 := ⟨links - 1, by omega⟩
    obtain ⟨dir, target, rest, ha, hw⟩ := advance_of_leads_succ h
    rw [walk_eq, ha]
    exact ih hw (by omega)

/-- A lookup with a bound on the links comes to a destination exactly if a walk within the bound
leads there. -/
theorem walk_eq_ok_iff {links : Nat} {l : Location} {e : Destination} {cs : List String} :
    fs.walk followLast links l cs = .ok e ↔ ∃ n ≤ links, fs.Leads followLast n l cs e :=
  ⟨leads_of_walk, fun ⟨_, hn, h⟩ => walk_of_leads h hn⟩

theorem leads_unique {n m : Nat} {l : Location} {e e' : Destination} {cs : List String}
    (h : fs.Leads followLast n l cs e) (k : fs.Leads followLast m l cs e') : n = m ∧ e = e' := by
  induction n generalizing m l cs with
  | zero =>
    have ha := advance_of_leads_zero h
    match m with
    | 0 =>
      rw [advance_of_leads_zero k] at ha
      simp only [Except.ok.injEq, Progress.done.injEq] at ha
      exact ⟨rfl, ha.symm⟩
    | m + 1 =>
      obtain ⟨_, _, _, hk, _⟩ := advance_of_leads_succ k
      simp [hk] at ha
  | succ n ih =>
    obtain ⟨dir, target, rest, ha, hw⟩ := advance_of_leads_succ h
    match m with
    | 0 => simp [advance_of_leads_zero k] at ha
    | m + 1 =>
      obtain ⟨dir', target', rest', hk, kw⟩ := advance_of_leads_succ k
      rw [hk] at ha
      simp only [Except.ok.injEq, Progress.atLink.injEq] at ha
      obtain ⟨rfl, rfl, rfl⟩ := ha
      obtain ⟨rfl, rfl⟩ := ih hw kw
      exact ⟨rfl, rfl⟩

/-- A walk to a node that follows every link can be cut between two components. -/
theorem leads_split {n : Nat} {l d : Location} {cs rest : List String}
    (h : fs.Leads true n l (cs ++ rest) (.existing d)) :
    ∃ a b m, a + b = n ∧ fs.Leads true a l cs (.existing m) ∧
      fs.Leads true b m rest (.existing d) := by
  generalize hx : cs ++ rest = xs at h
  generalize he : Destination.existing d = e at h
  induction h generalizing cs with
  | here l =>
    obtain ⟨rfl, rfl⟩ := List.append_eq_nil_iff.mp hx
    cases he
    exact ⟨0, 0, d, rfl, .here d, .here d⟩
  | @dot n l xs e ho hw ih =>
    match cs with
    | [] =>
      subst hx he
      exact ⟨0, n, l, by omega, .here l, .dot ho hw⟩
    | c :: cs =>
      obtain ⟨rfl, tails⟩ := List.cons.inj hx
      obtain ⟨a, b, m, hab, ha, hb⟩ := ih tails he
      exact ⟨a, b, m, hab, .dot ho ha, hb⟩
  | @up n l xs e ho hw ih =>
    match cs with
    | [] =>
      subst hx he
      exact ⟨0, n, l, by omega, .here l, .up ho hw⟩
    | c :: cs =>
      obtain ⟨rfl, tails⟩ := List.cons.inj hx
      obtain ⟨a, b, m, hab, ha, hb⟩ := ih tails he
      exact ⟨a, b, m, hab, .up ho ha, hb⟩
  | @enter n l x xs e node ht hc hnl hw ih =>
    match cs with
    | [] =>
      subst hx he
      exact ⟨0, n, l, by omega, .here l, .enter ht hc hnl hw⟩
    | c :: cs =>
      obtain ⟨rfl, tails⟩ := List.cons.inj hx
      obtain ⟨a, b, m, hab, ha, hb⟩ := ih tails he
      exact ⟨a, b, m, hab, .enter ht hc hnl ha, hb⟩
  | free => simp at he
  | last _ _ hf => simp at hf
  | @link n l x xs e target ht hc hlast hw ih =>
    match cs with
    | [] =>
      subst hx he
      exact ⟨0, n + 1, l, by omega, .here l, .link ht hc hlast hw⟩
    | c :: cs =>
      obtain ⟨rfl, rfl⟩ := List.cons.inj hx
      have hsplit := List.append_assoc (Path.names target) cs rest
      obtain ⟨a, b, m, hab, ha, hb⟩ := ih hsplit he
      exact ⟨a + 1, b, m, by omega, .link ht hc (fun _ => rfl) ha, hb⟩

def lookupErrors : List SystemError :=
  [.notFound, .permissionDenied, .notDirectory, .nameTooLong, .linkLoop]

theorem obstacle?_mem {l : Location} {e : SystemError} (h : fs.obstacle? l = some e) :
    e ∈ lookupErrors := by
  unfold obstacle? at h
  split at h
  · split at h
    · cases h
    · cases h
      decide
  · cases h
    decide
  · cases h
    decide

theorem advance_error_mem {l : Location} {cs : List String} {e : SystemError}
    (h : fs.advance followLast l cs = .error e) : e ∈ lookupErrors := by
  fun_induction advance fs followLast l cs with
  | case1 | case6 | case8 | case9 => cases h
  | case2 _ _ _ _ ho =>
    cases h
    exact obstacle?_mem ho
  | case3 _ _ _ ih | case4 _ _ _ _ ih => exact ih h
  | case5 | case7 =>
    cases h
    decide
  | case10 _ _ _ _ _ _ _ _ _ _ ih => exact ih h

theorem walk_error_mem {links : Nat} {l : Location} {cs : List String} {e : SystemError}
    (h : fs.walk followLast links l cs = .error e) : e ∈ lookupErrors := by
  fun_induction walk fs followLast links l cs with
  | case1 _ _ _ _ ha =>
    cases h
    exact advance_error_mem ha
  | case2 => cases h
  | case3 =>
    cases h
    decide
  | case4 _ _ _ _ _ _ _ ih => exact ih h

theorem find_error_mem {processDir path : String} {e : SystemError}
    (h : fs.find processDir path followLast = .error e) : e ∈ lookupErrors := by
  unfold find at h
  split at h
  · cases h
    decide
  split at h
  · cases h
    decide
  split at h
  · next hw =>
    cases h
    exact walk_error_mem hw
  · cases h
  · split at h
    · cases h
      decide
    · cases h

/-- A lookup ends with a fault because of the character zero or of an error of the system, which
names the path that is looked up. -/
theorem lookup_error {processDir path : String} {f : Fault}
    (h : fs.lookup processDir path followLast = .error f) :
    (f = .nulCharacter ∧ hasNul path = true) ∨ ∃ e ∈ lookupErrors, f = .system e path := by
  unfold lookup at h
  split at h
  · next hnul =>
    cases h
    exact .inl ⟨rfl, hnul⟩
  · cases hfind : fs.find processDir path followLast with
    | error e =>
      rw [hfind] at h
      cases h
      exact .inr ⟨e, find_error_mem hfind, rfl⟩
    | ok d =>
      rw [hfind] at h
      cases h

theorem locate_error {processDir path : String} {f : Fault}
    (h : fs.locate processDir path followLast = .error f) :
    (f = .nulCharacter ∧ hasNul path = true) ∨ ∃ e ∈ lookupErrors, f = .system e path := by
  unfold locate at h
  split at h
  · next hlookup =>
    cases h
    exact lookup_error hlookup
  · cases h
  · cases h
    exact .inr ⟨.notFound, by decide, rfl⟩

theorem locate_system {processDir path p : String} {e : SystemError}
    (h : fs.locate processDir path followLast = .error (.system e p)) :
    e ∈ lookupErrors ∧ p = path := by
  rcases locate_error h with ⟨hf, -⟩ | ⟨e', hmem, hf⟩
  · cases hf
  · cases hf
    exact ⟨hmem, rfl⟩

end CommandShell.FileSystem
