import Pochtecatl.OrdMap
import Mathlib.Data.List.DropRight
import Mathlib.Data.List.Perm.Subperm

namespace OrdMap

variable {κ α β : Type} [LinearOrder κ]

def firstEntry (m : OrdMap κ α) : Option (κ × α) := m.entries.head?

def lastEntry (m : OrdMap κ α) : Option (κ × α) := m.entries.getLast?

theorem size_eq_zero_iff {m : OrdMap κ α} : m.size = 0 ↔ ∀ k, m.get? k = none := by
  simp only [size, List.length_eq_zero_iff, get?_eq_none_iff]
  constructor
  · intro h k v
    simp [h]
  · intro h
    exact List.eq_nil_iff_forall_not_mem.mpr fun e => h e.1 e.2

theorem lastEntry_eq_some_iff {m : OrdMap κ α} {k : κ} {v : α} :
    m.lastEntry = some (k, v) ↔
      m.get? k = some v ∧ ∀ k' v', m.get? k' = some v' → k' ≤ k := by
  simp only [lastEntry, get?_eq_some_iff, List.getLast?_eq_some_iff]
  constructor
  · rintro ⟨l, hl⟩
    have hs := m.sorted
    rw [hl] at hs
    refine ⟨by simp [hl], fun k' v' h => ?_⟩
    rw [hl, List.mem_append] at h
    rcases h with h | h
    · exact ((List.pairwise_append.mp hs).2.2 _ h (k, v) (List.mem_singleton_self _)).le
    · exact le_of_eq (by simpa using congrArg Prod.fst (List.mem_singleton.mp h))
  · rintro ⟨hm, hmax⟩
    obtain ⟨l, e, hl⟩ : ∃ l e, m.entries = l ++ [e] := by
      rcases List.eq_nil_or_concat m.entries with h | ⟨l, e, h⟩
      · simp [h] at hm
      · exact ⟨l, e, by simpa using h⟩
    have hs := m.sorted
    rw [hl] at hs hm
    rcases List.mem_append.mp hm with h | h
    · have hlt := (List.pairwise_append.mp hs).2.2 _ h e (by simp)
      exact absurd (hmax e.1 e.2 (by simp [hl])) (not_le_of_gt hlt)
    · exact ⟨l, by rw [hl, List.mem_singleton.mp h]⟩

theorem get?_of_lastEntry_lt {m : OrdMap κ α} {k k' : κ} {v : α}
    (h : m.lastEntry = some (k, v)) (hlt : k < k') : m.get? k' = none :=
  Option.eq_none_iff_forall_ne_some.mpr fun v' hv' =>
    absurd hlt (not_lt_of_ge ((lastEntry_eq_some_iff.mp h).2 k' v' hv'))

theorem lastEntry_eq_none_iff {m : OrdMap κ α} :
    m.lastEntry = none ↔ ∀ k, m.get? k = none := by
  rw [← size_eq_zero_iff, lastEntry, List.getLast?_eq_none_iff, size, List.length_eq_zero_iff]

/-- The entry of a key at or past every key of the map ends up last. -/
theorem lastEntry_insert {m : OrdMap κ α} {k : κ} {v : α}
    (h : ∀ k' v', m.get? k' = some v' → k' ≤ k) : (m.insert k v).lastEntry = some (k, v) := by
  refine lastEntry_eq_some_iff.mpr ⟨get?_insert_self m k v, fun k' v' h' => ?_⟩
  by_cases hk : k' = k
  · exact hk.le
  · rw [get?_insert_ne hk] at h'
    exact h k' v' h'

theorem firstEntry_eq_some_iff {m : OrdMap κ α} {k : κ} {v : α} :
    m.firstEntry = some (k, v) ↔
      m.get? k = some v ∧ ∀ k' v', m.get? k' = some v' → k ≤ k' := by
  simp only [firstEntry, get?_eq_some_iff, List.head?_eq_some_iff]
  constructor
  · rintro ⟨l, hl⟩
    have hs := m.sorted
    rw [hl] at hs
    refine ⟨by simp [hl], fun k' v' h => ?_⟩
    rw [hl] at h
    rcases List.mem_cons.mp h with h | h
    · exact le_of_eq (by simpa using (congrArg Prod.fst h).symm)
    · exact ((List.pairwise_cons.mp hs).1 _ h).le
  · rintro ⟨hm, hmin⟩
    cases hl : m.entries with
    | nil => simp [hl] at hm
    | cons e l =>
      have hs := m.sorted
      rw [hl] at hs hm
      rcases List.mem_cons.mp hm with h | h
      · exact ⟨l, by rw [h]⟩
      · have hlt := (List.pairwise_cons.mp hs).1 _ h
        exact absurd (hmin e.1 e.2 (by simp [hl])) (not_le_of_gt hlt)

theorem firstEntry_eq_none_iff {m : OrdMap κ α} :
    m.firstEntry = none ↔ ∀ k, m.get? k = none := by
  rw [← size_eq_zero_iff, firstEntry, List.head?_eq_none_iff, size, List.length_eq_zero_iff]

/-- `BTreeMap::pop_first`, with the popped entry dropped. -/
def popFirst (m : OrdMap κ α) : OrdMap κ α := ⟨m.entries.tail, m.sorted.tail⟩

theorem get?_popFirst_of_ne {m : OrdMap κ α} {k k' : κ} {v : α}
    (h : m.firstEntry = some (k, v)) (hne : k' ≠ k) : m.popFirst.get? k' = m.get? k' := by
  obtain ⟨l, hl⟩ := List.head?_eq_some_iff.mp h
  ext w
  simp only [get?_eq_some_iff, popFirst, hl, List.tail_cons, List.mem_cons, Prod.mk.injEq]
  tauto

theorem get?_popFirst_self {m : OrdMap κ α} {k : κ} {v : α}
    (h : m.firstEntry = some (k, v)) : m.popFirst.get? k = none := by
  obtain ⟨l, hl⟩ := List.head?_eq_some_iff.mp h
  have hs := m.sorted
  rw [hl] at hs
  refine get?_eq_none_iff.mpr fun w hm => ?_
  simp only [popFirst, hl, List.tail_cons] at hm
  exact lt_irrefl k ((List.pairwise_cons.mp hs).1 _ hm)

/-- Popping while more than `c` entries are left; the first argument is the
loop's budget. -/
def popFirstUntil (c : Nat) : Nat → OrdMap κ α → OrdMap κ α
  | 0, m => m
  | fuel + 1, m => if c < m.size then popFirstUntil c fuel m.popFirst else m

theorem size_popFirst (m : OrdMap κ α) : m.popFirst.size = m.size - 1 := by
  simp [popFirst, size]

theorem popFirstUntil_entries (c : Nat) : ∀ (fuel : Nat) (m : OrdMap κ α), m.size ≤ fuel →
    (popFirstUntil c fuel m).entries = m.entries.drop (m.size - c) := by
  intro fuel
  induction fuel with
  | zero =>
    intro m h
    have : m.size = 0 := by omega
    simp [popFirstUntil, this]
  | succ fuel ih =>
    intro m h
    simp only [popFirstUntil]
    split
    next hc =>
      have hp := size_popFirst m
      rw [ih m.popFirst (by omega), hp]
      have : m.size - c = (m.size - 1 - c) + 1 := by omega
      simp [popFirst, this]
    next hc =>
      have : m.size - c = 0 := by omega
      simp [this]

theorem size_popFirstUntil_le (c : Nat) (m : OrdMap κ α) : (popFirstUntil c m.size m).size ≤ c := by
  have h : (popFirstUntil c m.size m).size = m.size - (m.size - c) := by
    rw [size, popFirstUntil_entries c m.size m le_rfl, List.length_drop]
    rfl
  omega

/-- The number of keys at or past `k`. -/
def countFrom (m : OrdMap κ α) (k : κ) : Nat := (m.entries.filter (k ≤ ·.1)).length

theorem countFrom_antitone (m : OrdMap κ α) {k k' : κ} (h : k' ≤ k) :
    m.countFrom k ≤ m.countFrom k' := by
  refine (List.monotone_filter_right m.entries fun e he => ?_).length_le
  exact decide_eq_true (h.trans (of_decide_eq_true he))

theorem countFrom_insert_self {m : OrdMap κ α} {k : κ} {v : α}
    (h : ∀ k' w, m.get? k' = some w → k' ≤ k) : (m.insert k v).countFrom k = 1 := by
  have hl : (m.entries.filter (·.1 < k)).filter (k ≤ ·.1) = [] :=
    List.filter_eq_nil_iff.mpr fun e he => by simpa using (List.mem_filter.mp he).2
  have hr : m.entries.filter (k < ·.1) = [] :=
    List.filter_eq_nil_iff.mpr fun e he => by simpa using h e.1 e.2 (get?_eq_some_iff.mpr he)
  simp [countFrom, insert, hl, hr]

theorem countFrom_insert_last {m : OrdMap κ α} {k k' : κ} {v : α}
    (h : ∀ j w, m.get? j = some w → j < k') (hk : k ≤ k') :
    (m.insert k' v).countFrom k = m.countFrom k + 1 := by
  have hmem : ∀ e ∈ m.entries, e.1 < k' := fun e he => h e.1 e.2 (get?_eq_some_iff.mpr he)
  simp [countFrom, insert_entries_of_last hmem, hk]

theorem countFrom_eq_size (m : OrdMap κ α) (k : κ) :
    m.countFrom k = (m.filterKeys fun j => k ≤ j).size := rfl

/-- The count depends on the keys only. -/
theorem countFrom_congr {m : OrdMap κ α} {m' : OrdMap κ β}
    (h : ∀ j, (m.get? j).isSome = (m'.get? j).isSome) (k : κ) : m.countFrom k = m'.countFrom k := by
  rw [countFrom_eq_size, countFrom_eq_size]
  refine size_eq_of_isSome fun j => ?_
  rw [get?_filterKeys, get?_filterKeys]
  split
  next => exact h j
  next => rfl

theorem countFrom_filterKeys {m : OrdMap κ α} {p : κ → Bool} {k : κ} (h : ∀ j, k ≤ j → p j) :
    (m.filterKeys p).countFrom k = m.countFrom k := by
  rw [countFrom_eq_size, countFrom_eq_size]
  refine size_eq_of_isSome fun j => ?_
  rw [get?_filterKeys, get?_filterKeys, get?_filterKeys]
  split
  next hj => rw [if_pos (h j (of_decide_eq_true hj))]
  next => rfl

theorem size_le_length {m : OrdMap κ α} {l : List κ} (h : ∀ k v, m.get? k = some v → k ∈ l) :
    m.size ≤ l.length := by
  have hnodup : (m.entries.map Prod.fst).Nodup :=
    List.pairwise_map.mpr (m.sorted.imp fun hlt => ne_of_lt hlt)
  have hsub : m.entries.map Prod.fst ⊆ l := by
    intro k hk
    obtain ⟨⟨k', v⟩, he, rfl⟩ := List.mem_map.mp hk
    exact h k' v (get?_eq_some_iff.mpr he)
  have hle := (List.subperm_of_subset hnodup hsub).length_le
  rwa [List.length_map] at hle

theorem mem_keys_of_get? {m : OrdMap κ α} {k : κ} {v : α} (h : m.get? k = some v) :
    k ∈ m.entries.map Prod.fst := List.mem_map.mpr ⟨(k, v), get?_eq_some_iff.mp h, rfl⟩

theorem countFrom_insert_le (m : OrdMap κ α) (k j : κ) (v : α) :
    (m.insert k v).countFrom j ≤ m.countFrom j + 1 := by
  rw [countFrom_eq_size, countFrom_eq_size]
  have hle : ((m.insert k v).filterKeys fun i => j ≤ i).size ≤
      (k :: (m.filterKeys fun i => j ≤ i).entries.map Prod.fst).length := by
    refine size_le_length fun i w hi => ?_
    rw [get?_filterKeys] at hi
    split at hi
    next hji =>
      rw [get?_insert] at hi
      split at hi
      next he => exact he ▸ List.mem_cons_self
      next =>
        refine List.mem_cons_of_mem _ (mem_keys_of_get? (v := w) ?_)
        rw [get?_filterKeys, if_pos hji, hi]
    next => cases hi
  rwa [List.length_cons, List.length_map] at hle

theorem countFrom_le_insert (m : OrdMap κ α) (k j : κ) (v : α) :
    m.countFrom j ≤ (m.insert k v).countFrom j := by
  rw [countFrom_eq_size, countFrom_eq_size]
  have hle : (m.filterKeys fun i => j ≤ i).size ≤
      (((m.insert k v).filterKeys fun i => j ≤ i).entries.map Prod.fst).length := by
    refine size_le_length fun i w hi => ?_
    rw [get?_filterKeys] at hi
    split at hi
    next hji =>
      refine mem_keys_of_get? (v := if i = k then v else w) ?_
      rw [get?_filterKeys, if_pos hji, get?_insert]
      split
      next => rfl
      next => exact hi
    next => cases hi
  rwa [List.length_map] at hle

/-- The entries from a last key on, if there are any, are that one. -/
theorem countFrom_le_one {m : OrdMap κ α} {k : κ} (h : ∀ j w, m.get? j = some w → j ≤ k) :
    m.countFrom k ≤ 1 := by
  rw [countFrom_eq_size]
  refine size_le_length (l := [k]) fun j w hj => ?_
  rw [get?_filterKeys] at hj
  split at hj
  next hkj => exact List.mem_singleton.mpr (le_antisymm (h j w hj) (of_decide_eq_true hkj))
  next => cases hj

theorem insert_filterKeys {m : OrdMap κ α} {p : κ → Bool} {k : κ} {v : α} (hk : p k) :
    (m.filterKeys p).insert k v = (m.insert k v).filterKeys p := by
  refine ext_get? fun j => ?_
  rw [get?_insert, get?_filterKeys, get?_filterKeys, get?_insert]
  split
  next he => rw [if_pos (he ▸ hk)]
  next => rfl

theorem drop_eq_filter_count {l : List (κ × α)} (hs : l.Pairwise (fun x y => x.1 < y.1))
    (c : Nat) : l.drop (l.length - c) =
      l.filter fun e => (l.filter (e.1 ≤ ·.1)).length ≤ c := by
  induction l with
  | nil => simp
  | cons e l ih =>
    obtain ⟨hlt, hs'⟩ := List.pairwise_cons.mp hs
    have hhead : (e :: l).filter (e.1 ≤ ·.1) = e :: l :=
      List.filter_eq_self.mpr fun x hx => by
        rcases List.mem_cons.mp hx with rfl | hx
        · simp
        · simpa using (hlt x hx).le
    have htail : ∀ x ∈ l, (e :: l).filter (x.1 ≤ ·.1) = l.filter (x.1 ≤ ·.1) := fun x hx => by
      simp [hlt x hx]
    have hrest : l.filter (fun x => ((e :: l).filter (x.1 ≤ ·.1)).length ≤ c) =
        l.filter (fun x => (l.filter (x.1 ≤ ·.1)).length ≤ c) :=
      List.filter_congr fun x hx => by rw [htail x hx]
    by_cases hc : l.length + 1 ≤ c
    · have hz : (e :: l).length - c = 0 := by simp; omega
      have hall : ∀ x ∈ l, (l.filter (x.1 ≤ ·.1)).length ≤ c := fun x _ =>
        (List.length_filter_le _ l).trans (by omega)
      rw [hz, List.drop_zero, List.filter_cons_of_pos (by simpa [hhead] using hc), hrest,
        List.filter_eq_self.mpr fun x hx => by simpa using hall x hx]
    · have hz : (e :: l).length - c = (l.length - c) + 1 := by simp; omega
      rw [hz, List.drop_succ_cons, ih hs', List.filter_cons_of_neg (by simpa [hhead] using hc),
        hrest]

/-- The loop keeps the entries that have at most `c` keys from them on. -/
theorem popFirstUntil_eq_filterKeys (c : Nat) (m : OrdMap κ α) :
    popFirstUntil c m.size m = m.filterKeys fun k => m.countFrom k ≤ c := by
  refine ext_entries ?_
  rw [popFirstUntil_entries c m.size m le_rfl]
  exact drop_eq_filter_count m.sorted c

/-- Popping last entries for as long as their key satisfies `p`. -/
def popLastWhile (m : OrdMap κ α) (p : κ → Bool) : OrdMap κ α where
  entries := m.entries.rdropWhile (fun e => p e.1)
  sorted := m.sorted.sublist (List.rdropWhile_prefix _ _).sublist

/-- When `p` holds from some key on, the loop removes all keys that satisfy it. -/
theorem popLastWhile_eq_filterKeys {m : OrdMap κ α} {p : κ → Bool}
    (hp : ∀ k k', k ≤ k' → p k → p k') : m.popLastWhile p = m.filterKeys (fun k => !p k) := by
  obtain ⟨l, hs⟩ := m
  refine ext_entries ?_
  simp only [popLastWhile, filterKeys]
  induction l using List.reverseRecOn with
  | nil => rfl
  | append_singleton l e ih =>
    have hs' := List.pairwise_append.mp hs
    by_cases he : p e.1
    · rw [List.rdropWhile_concat_pos (fun x : κ × α => p x.1) l e he, ih hs'.1]
      simp [he]
    · rw [List.rdropWhile_concat_neg (fun x : κ × α => p x.1) l e he]
      refine (List.filter_eq_self.mpr fun x hx => ?_).symm
      have hxe : x.1 ≤ e.1 := by
        rcases List.mem_append.mp hx with hx | hx
        · exact (hs'.2.2 x hx e (List.mem_singleton_self e)).le
        · exact le_of_eq (congrArg Prod.fst (List.mem_singleton.mp hx))
      have hpx : ¬p x.1 = true := fun h => he (hp _ _ hxe h)
      simpa using hpx

/-- The entries `BTreeMap::range(lo..=hi)` visits, in key order. -/
def rangeEntries (m : OrdMap κ α) (lo hi : κ) : List (κ × α) :=
  m.entries.filter (fun e => lo ≤ e.1 ∧ e.1 ≤ hi)

theorem mem_rangeEntries {m : OrdMap κ α} {lo hi k : κ} {v : α} :
    (k, v) ∈ m.rangeEntries lo hi ↔ m.get? k = some v ∧ lo ≤ k ∧ k ≤ hi := by
  simp [rangeEntries, get?_eq_some_iff]

/-- A range only depends on the entries whose keys it covers. -/
theorem rangeEntries_congr {m m' : OrdMap κ α} {lo hi : κ}
    (h : ∀ k, lo ≤ k → k ≤ hi → m.get? k = m'.get? k) :
    m.rangeEntries lo hi = m'.rangeEntries lo hi := by
  refine entries_eq_of_mem (m.sorted.filter _) (m'.sorted.filter _) fun e => ?_
  obtain ⟨k, v⟩ := e
  rw [mem_rangeEntries, mem_rangeEntries]
  constructor
  · rintro ⟨hg, hlo, hhi⟩
    exact ⟨by rw [← h k hlo hhi]; exact hg, hlo, hhi⟩
  · rintro ⟨hg, hlo, hhi⟩
    exact ⟨by rw [h k hlo hhi]; exact hg, hlo, hhi⟩

end OrdMap
