import CommandShell.Value

/-! # Values that say the same

Two values say the same if they differ in nothing but the order of the members of objects. A table
that was filled pair by pair holds under each key what came last. -/
namespace CommandShell

namespace Table

variable {κ ν : Type} [DecidableEq κ]

theorem get?_append (s t : Table κ ν) (key : κ) :
    get? (s ++ t) key = (get? s key).or (get? t key) := by
  induction s with
  | nil => rfl
  | cons p s ih =>
    obtain ⟨k, v⟩ := p
    by_cases hk : k = key
    · simp [get?, hk]
    · simpa [get?, hk] using ih

theorem get?_foldl_put (pairs : List (κ × ν)) (t : Table κ ν) (key : κ) :
    get? (pairs.foldl (fun t p => t.put p.1 p.2) t) key =
      (get? pairs.reverse key).or (get? t key) := by
  induction pairs generalizing t with
  | nil => rfl
  | cons p pairs ih =>
    obtain ⟨k, v⟩ := p
    rw [List.foldl_cons, ih, get?_put, List.reverse_cons, get?_append]
    by_cases hk : k = key
    · simp [get?, hk]
    · simp [get?, hk]

theorem get?_ofList (pairs : List (κ × ν)) (key : κ) :
    get? (ofList pairs) key = get? pairs.reverse key := by
  rw [ofList, get?_foldl_put]
  cases get? pairs.reverse key <;> rfl

end Table

namespace Value

mutual

/-- Values are compared member by member, in the order in which they stand. -/
def decideEq : (v w : Value) → Decidable (v = w)
  | null, w => match w with
    | null => isTrue rfl
    | bool _ | integer _ | real _ | text _ | list _ | object _ => isFalse nofun
  | bool b, w => match w with
    | bool c => decidable_of_iff (b = c) (by rw [bool.injEq])
    | null | integer _ | real _ | text _ | list _ | object _ => isFalse nofun
  | integer m, w => match w with
    | integer n => decidable_of_iff (m = n) (by rw [integer.injEq])
    | null | bool _ | real _ | text _ | list _ | object _ => isFalse nofun
  | real x, w => match w with
    | real y => decidable_of_iff (x = y) (by rw [real.injEq])
    | null | bool _ | integer _ | text _ | list _ | object _ => isFalse nofun
  | text s, w => match w with
    | text t => decidable_of_iff (s = t) (by rw [text.injEq])
    | null | bool _ | integer _ | real _ | list _ | object _ => isFalse nofun
  | list vs, w => match w with
    | list ws =>
      have := decideItems vs ws
      decidable_of_iff (vs = ws) (by rw [list.injEq])
    | null | bool _ | integer _ | real _ | text _ | object _ => isFalse nofun
  | object ms, w => match w with
    | object ns =>
      have := decideMembers ms ns
      decidable_of_iff (ms = ns) (by rw [object.injEq])
    | null | bool _ | integer _ | real _ | text _ | list _ => isFalse nofun

def decideItems : (vs ws : List Value) → Decidable (vs = ws)
  | [], [] => isTrue rfl
  | [], _ :: _ | _ :: _, [] => isFalse nofun
  | v :: vs, w :: ws =>
    have := decideEq v w
    have := decideItems vs ws
    decidable_of_iff (v = w ∧ vs = ws) (by rw [List.cons.injEq])

def decideMembers : (ms ns : List (String × Value)) → Decidable (ms = ns)
  | [], [] => isTrue rfl
  | [], _ :: _ | _ :: _, [] => isFalse nofun
  | (k, v) :: ms, (l, w) :: ns =>
    have := decideEq v w
    have := decideMembers ms ns
    decidable_of_iff ((k = l ∧ v = w) ∧ ms = ns) (by rw [List.cons.injEq, Prod.mk.injEq])

end

instance : DecidableEq Value := decideEq

instance decidableReads {ε : Type} (e : Except ε Value) (v : Value) : Decidable (e = .ok v) :=
  match e with
  | .error _ => isFalse nofun
  | .ok w => decidable_of_iff (w = v) (by rw [Except.ok.injEq])

inductive Same : Value → Value → Prop where
  | refl (v) : Same v v
  | list {xs ys} : xs.length = ys.length →
      (∀ (i : Nat) x y, xs[i]? = some x → ys[i]? = some y → Same x y) → Same (.list xs) (.list ys)
  | object {xs ys} : (∀ key, (Table.get? xs key).isSome = (Table.get? ys key).isSome) →
      (∀ key x y, Table.get? xs key = some x → Table.get? ys key = some y → Same x y) →
      Same (.object xs) (.object ys)

theorem Same.symm {v w : Value} (h : Same v w) : Same w v := by
  induction h with
  | refl v => exact .refl v
  | list hlength _ ih => exact .list hlength.symm fun i x y hx hy => ih i y x hy hx
  | object hkeys _ ih =>
    exact .object (fun key => (hkeys key).symm) fun key x y hx hy => ih key y x hy hx

theorem Same.trans {u v w : Value} (h : Same u v) (k : Same v w) : Same u w := by
  induction h generalizing w with
  | refl v => exact k
  | @list xs ys hlength hitems ih =>
    cases k with
    | refl => exact .list hlength hitems
    | @list _ zs klength kitems =>
      refine .list (hlength.trans klength) fun i x z hx hz => ?_
      have hi : i < ys.length := by
        have hbound := (List.getElem?_eq_some_iff.mp hx).1
        omega
      have hy := List.getElem?_eq_getElem hi
      exact ih i x ys[i] hx hy (kitems i ys[i] z hy hz)
  | @object xs ys hkeys hmembers ih =>
    cases k with
    | refl => exact .object hkeys hmembers
    | @object _ zs kkeys kmembers =>
      refine .object (fun key => (hkeys key).trans (kkeys key)) fun key x z hx hz => ?_
      have hkey : (Table.get? ys key).isSome := by
        rw [← hkeys key, hx]
        rfl
      obtain ⟨y, hy⟩ := Option.isSome_iff_exists.mp hkey
      exact ih key x y hx hy (kmembers key y z hy hz)

/-- The members of objects that say the same, with the same value for those that are not there. -/
theorem Same.getD {xs ys : Members} (h : Same (.object xs) (.object ys)) (key : String)
    (usual : Value) : Same ((xs.get? key).getD usual) ((ys.get? key).getD usual) := by
  cases h with
  | refl => exact .refl _
  | object hkeys hmembers =>
    have hkey := hkeys key
    cases hx : xs.get? key with
    | none =>
      cases hy : ys.get? key with
      | none => exact .refl usual
      | some y => simp [hx, hy] at hkey
    | some x =>
      cases hy : ys.get? key with
      | none => simp [hx, hy] at hkey
      | some y => exact hmembers key x y hx hy

end Value

end CommandShell
