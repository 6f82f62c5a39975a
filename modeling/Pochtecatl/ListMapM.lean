import Mathlib.Data.List.Forall2

namespace List

variable {α β : Type} {f : α → Option β} {l : List α}

/-- A traversal fails exactly where an element does. -/
theorem mapM_option_eq_none_iff : l.mapM f = none ↔ ∃ a ∈ l, f a = none := by
  induction l with
  | nil => simp
  | cons a l ih =>
    rw [List.mapM_cons]
    cases ha : f a with
    | none => simp [ha]
    | some b =>
      rw [List.exists_mem_cons_iff, ha, ← ih]
      cases l.mapM f with
      | none => simp
      | some bs => simp

theorem mem_of_mapM_option {l' : List β} (h : l.mapM f = some l') {b : β} :
    b ∈ l' ↔ ∃ a ∈ l, f a = some b := by
  induction l generalizing l' with
  | nil =>
    cases h
    simp
  | cons a l ih =>
    rw [List.mapM_cons] at h
    obtain ⟨c, hc, h⟩ := Option.bind_eq_some_iff.mp h
    obtain ⟨cs, hcs, h⟩ := Option.bind_eq_some_iff.mp h
    cases h
    rw [List.mem_cons, ih hcs, List.exists_mem_cons_iff, hc, Option.some.injEq, eq_comm]

/-- A traversal in another order fails as well, or has the same results. -/
theorem Perm.mapM_option {l l' : List α} (h : l.Perm l') (f : α → Option β) :
    Option.Rel Perm (l.mapM f) (l'.mapM f) := by
  induction h with
  | nil => exact .some (Perm.refl [])
  | @cons a l l' hperm ih =>
    rw [List.mapM_cons, List.mapM_cons]
    generalize l.mapM f = results, l'.mapM f = results' at ih
    cases f a with
    | none => exact .none
    | some b =>
      cases ih with
      | none => exact .none
      | some hrest => exact .some (hrest.cons b)
  | swap a a' l =>
    simp only [List.mapM_cons]
    generalize l.mapM f = results
    cases f a with
    | none =>
      cases f a' with
      | none => exact .none
      | some b' => exact .none
    | some b =>
      cases f a' with
      | none => exact .none
      | some b' =>
        cases results with
        | none => exact .none
        | some bs => exact .some (Perm.swap b b' bs)
  | @trans l l' l'' hperm hperm' ih ih' =>
    generalize l.mapM f = results, l'.mapM f = results', l''.mapM f = results'' at ih ih'
    cases ih with
    | none => exact ih'
    | some hrest =>
      cases ih' with
      | some hrest' => exact .some (hrest.trans hrest')

end List
