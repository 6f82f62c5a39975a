import Mathlib.Data.List.Dedup
import Pochtecatl.OrdMapEnds

namespace OrdMap

variable {κ α : Type} [LinearOrder κ] {m m' : OrdMap κ α} {c : Nat} {k : κ} {v : α}

/-- A map without its first entries, down to `c` of them. -/
def trim (m : OrdMap κ α) (c : Nat) : OrdMap κ α := popFirstUntil c m.size m

theorem get?_trim (m : OrdMap κ α) (c : Nat) (k : κ) :
    (m.trim c).get? k = if m.countFrom k ≤ c then m.get? k else none := by
  rw [trim, popFirstUntil_eq_filterKeys, get?_filterKeys]
  simp only [decide_eq_true_iff]

theorem size_trim_le (m : OrdMap κ α) (c : Nat) : (m.trim c).size ≤ c := size_popFirstUntil_le c m

theorem size_trim_of_le (h : c ≤ m.size) : (m.trim c).size = c := by
  have hlength : (m.trim c).size = m.size - (m.size - c) := by
    rw [size, trim, popFirstUntil_entries c m.size m (Nat.le_refl _), List.length_drop]
    rfl
  omega

/-- The count depends on the keys from the given one on. -/
theorem countFrom_congr_from (h : ∀ j, k ≤ j → m.get? j = m'.get? j) :
    m.countFrom k = m'.countFrom k := by
  rw [countFrom_eq_size, countFrom_eq_size]
  refine size_eq_of_isSome fun j => ?_
  rw [get?_filterKeys, get?_filterKeys]
  split
  next hj => rw [h j (of_decide_eq_true hj)]
  next => rfl

theorem countFrom_le_size (m : OrdMap κ α) (k : κ) : m.countFrom k ≤ m.size :=
  List.length_filter_le _ _

theorem countFrom_insert_first (h : ∀ j w, m.get? j = some w → k < j) :
    (m.insert k v).countFrom k = m.size + 1 := by
  have hmem : ∀ e ∈ m.entries, k < e.1 := fun e he => h e.1 e.2 (get?_eq_some_iff.mpr he)
  have hbefore : m.entries.filter (·.1 < k) = [] :=
    List.filter_eq_nil_iff.mpr fun e he => by simpa using (hmem e he).le
  have hafter : m.entries.filter (k < ·.1) = m.entries :=
    List.filter_eq_self.mpr fun e he => decide_eq_true (hmem e he)
  have hentries : (m.insert k v).entries = (k, v) :: m.entries := by
    show m.entries.filter (·.1 < k) ++ (k, v) :: m.entries.filter (k < ·.1) = _
    rw [hbefore, hafter, List.nil_append]
  have hall : (m.insert k v).entries.filter (k ≤ ·.1) = (m.insert k v).entries :=
    List.filter_eq_self.mpr fun e he => by
      rw [hentries] at he
      rcases List.mem_cons.mp he with rfl | he
      · exact decide_eq_true (le_refl _)
      · exact decide_eq_true (hmem e he).le
  rw [countFrom, hall, hentries, List.length_cons, size]

/-- Trimming after every insertion leaves what trimming once at the end does. -/
theorem trim_insert_trim (m : OrdMap κ α) (c : Nat) (k : κ) (v : α) :
    ((m.trim c).insert k v).trim c = (m.insert k v).trim c := by
  refine ext_get? fun j => ?_
  rw [get?_trim, get?_trim]
  by_cases hj : m.countFrom j ≤ c
  · -- from `j` on, nothing was trimmed
    have hsame : ∀ i, j ≤ i → ((m.trim c).insert k v).get? i = (m.insert k v).get? i := by
      intro i hi
      have hcount := Nat.le_trans (m.countFrom_antitone hi) hj
      rw [get?_insert, get?_insert, get?_trim, if_pos hcount]
    rw [countFrom_congr_from hsame, hsame j (le_refl _)]
  · have hright : ¬(m.insert k v).countFrom j ≤ c := fun h =>
      hj (Nat.le_trans (countFrom_le_insert m k j v) h)
    rw [if_neg hright]
    by_cases hk : j = k
    · -- what is left comes after `k`, so that `k` is trimmed again
      subst hk
      have hlater : ∀ i w, (m.trim c).get? i = some w → j < i := by
        intro i w hi
        rw [get?_trim] at hi
        split at hi
        next hcount =>
          refine not_le.mp fun hle => hj ?_
          exact Nat.le_trans (m.countFrom_antitone hle) hcount
        next => cases hi
      have hsize := size_trim_of_le (c := c) (Nat.le_trans (Nat.le_of_not_le hj) (m.countFrom_le_size j))
      have hcount := countFrom_insert_first (v := v) hlater
      exact if_neg (by omega)
    · rw [get?_insert, if_neg hk, get?_trim, if_neg hj, ite_self]

/-- What is iterated has a value. -/
theorem IterOrder.exists_value {order : List κ} (h : m.IterOrder order) (hk : k ∈ order) :
    ∃ w, m.get? k = some w := Option.isSome_iff_exists.mp ((h.2 k).mp hk)

section OfList

/-- The entries one after the other, the last one of a key in the end. -/
def ofList (l : List (κ × α)) : OrdMap κ α := l.foldl (fun m e => m.insert e.1 e.2) empty

theorem ofList_concat (l : List (κ × α)) (e : κ × α) :
    ofList (l ++ [e]) = (ofList l).insert e.1 e.2 := List.foldl_concat _ _ _ _

theorem get?_ofList (l : List (κ × α)) (k : κ) :
    (ofList l).get? k = ((l.filter (·.1 = k)).getLast?).map Prod.snd := by
  induction l using List.reverseRecOn with
  | nil => rfl
  | append_singleton l e ih =>
    rw [ofList_concat, get?_insert, List.filter_append]
    by_cases hk : k = e.1
    · have hlast : [e].filter (·.1 = k) = [e] := by simp [hk]
      rw [if_pos hk, hlast, List.getLast?_concat]
      rfl
    · have hother : [e].filter (·.1 = k) = [] := by simpa using fun h => hk h.symm
      rw [if_neg hk, hother, List.append_nil]
      exact ih

theorem isSome_get?_ofList {l : List (κ × α)} :
    ((ofList l).get? k).isSome ↔ k ∈ l.map Prod.fst := by
  rw [get?_ofList, Option.isSome_map, Option.isSome_iff_ne_none, ne_eq,
    List.getLast?_eq_none_iff, List.mem_map]
  constructor
  · intro hne
    obtain ⟨e, he⟩ := List.exists_mem_of_ne_nil _ hne
    obtain ⟨hm, hk⟩ := List.mem_filter.mp he
    exact ⟨e, hm, of_decide_eq_true hk⟩
  · rintro ⟨e, hm, hk⟩ hnil
    have hmem : e ∈ l.filter (·.1 = k) := List.mem_filter.mpr ⟨hm, decide_eq_true hk⟩
    rw [hnil] at hmem
    cases hmem

/-- The count is the number of different keys from the given one on. -/
theorem countFrom_ofList (l : List (κ × α)) (k : κ) :
    (ofList l).countFrom k = ((l.map Prod.fst).dedup.filter (k ≤ ·)).length := by
  have hkeys : ((ofList l).entries.map Prod.fst).Perm (l.map Prod.fst).dedup := by
    refine (List.perm_ext_iff_of_nodup ?_ (List.nodup_dedup _)).mpr fun j => ?_
    · exact List.pairwise_map.mpr ((ofList l).sorted.imp fun hlt => ne_of_lt hlt)
    · rw [List.mem_dedup, ← isSome_get?_ofList (l := l), Option.isSome_iff_exists]
      constructor
      · intro hm
        obtain ⟨⟨i, w⟩, he, rfl⟩ := List.mem_map.mp hm
        exact ⟨w, get?_eq_some_iff.mpr he⟩
      · intro hget
        obtain ⟨w, hw⟩ := hget
        exact mem_keys_of_get? hw
  have hfilter := (hkeys.filter (k ≤ ·)).length_eq
  rw [List.filter_map, List.length_map] at hfilter
  exact hfilter

end OfList

end OrdMap
