import Mathlib.Order.Lattice
import Mathlib.Data.List.Basic

/-- A finite map kept as its list of entries in strictly increasing key order. -/
structure OrdMap (κ α : Type) [LinearOrder κ] where
  entries : List (κ × α)
  sorted : entries.Pairwise (fun x y => x.1 < y.1)
  deriving DecidableEq

namespace OrdMap

variable {κ α β : Type} [LinearOrder κ]

def empty : OrdMap κ α := ⟨[], List.Pairwise.nil⟩

def size (m : OrdMap κ α) : Nat := m.entries.length

def isEmpty (m : OrdMap κ α) : Bool := m.entries.isEmpty

def values (m : OrdMap κ α) : List α := m.entries.map Prod.snd

def get? (m : OrdMap κ α) (k : κ) : Option α :=
  (m.entries.find? (fun e => e.1 = k)).map Prod.snd

theorem get?_eq_some_iff {m : OrdMap κ α} {k : κ} {v : α} :
    m.get? k = some v ↔ (k, v) ∈ m.entries := by
  obtain ⟨l, hs⟩ := m
  unfold get?
  induction l with
  | nil => simp
  | cons e l ih =>
    obtain ⟨k', v'⟩ := e
    have hs' := List.pairwise_cons.mp hs
    by_cases hk : k' = k
    · subst k'
      simp only [List.find?_cons_of_pos, decide_true, Option.map_some, Option.some.injEq,
        List.mem_cons, Prod.mk.injEq, true_and]
      refine ⟨fun h => Or.inl h.symm, fun h => h.elim Eq.symm fun hm => ?_⟩
      exact absurd (hs'.1 _ hm) (lt_irrefl _)
    · have hne : ¬(k = k' ∧ v = v') := fun h => hk h.1.symm
      simpa [List.find?_cons_of_neg, hk, hne] using ih hs'.2

theorem get?_eq_none_iff {m : OrdMap κ α} {k : κ} :
    m.get? k = none ↔ ∀ v, (k, v) ∉ m.entries := by
  rw [Option.eq_none_iff_forall_ne_some]
  exact forall_congr' fun v => not_congr get?_eq_some_iff

theorem mem_values_iff {m : OrdMap κ α} {v : α} :
    v ∈ m.values ↔ ∃ k, m.get? k = some v := by
  simp [values, get?_eq_some_iff]

/-- Entry lists sorted by key are equal as soon as they have the same members. -/
theorem entries_eq_of_mem {l l' : List (κ × α)}
    (hs : l.Pairwise (fun x y => x.1 < y.1)) (hs' : l'.Pairwise (fun x y => x.1 < y.1))
    (h : ∀ e, e ∈ l ↔ e ∈ l') : l = l' := by
  have hn : l.Nodup := hs.imp fun hlt heq => absurd (congrArg Prod.fst heq) (ne_of_lt hlt)
  have hn' : l'.Nodup := hs'.imp fun hlt heq => absurd (congrArg Prod.fst heq) (ne_of_lt hlt)
  have hp : l.Perm l' := (List.perm_ext_iff_of_nodup hn hn').mpr h
  exact hp.eq_of_pairwise (fun x y _ _ hxy hyx => absurd hxy (lt_asymm hyx)) hs hs'

theorem ext_entries {m m' : OrdMap κ α} (h : m.entries = m'.entries) : m = m' := by
  cases m; cases m'; simpa using h

/-- Two maps are equal when every lookup agrees. -/
theorem ext_get? {m m' : OrdMap κ α} (h : ∀ k, m.get? k = m'.get? k) : m = m' := by
  refine ext_entries (entries_eq_of_mem m.sorted m'.sorted fun e => ?_)
  obtain ⟨k, v⟩ := e
  rw [← get?_eq_some_iff, ← get?_eq_some_iff, h k]

@[simp] theorem get?_empty (k : κ) : (empty : OrdMap κ α).get? k = none := rfl

/-- `BTreeMap::insert`: the entry of `k` is replaced or added in its place. -/
def insert (m : OrdMap κ α) (k : κ) (v : α) : OrdMap κ α where
  entries := m.entries.filter (·.1 < k) ++ (k, v) :: m.entries.filter (k < ·.1)
  sorted := by
    refine List.pairwise_append.mpr ⟨m.sorted.filter _, List.pairwise_cons.mpr ⟨?_, m.sorted.filter _⟩, ?_⟩
    · intro e he
      simpa using (List.mem_filter.mp he).2
    · intro x hx y hy
      have hxk : x.1 < k := by simpa using (List.mem_filter.mp hx).2
      rcases List.mem_cons.mp hy with rfl | hy
      · exact hxk
      · exact hxk.trans (by simpa using (List.mem_filter.mp hy).2)

theorem mem_insert_entries {m : OrdMap κ α} {k k' : κ} {v v' : α} :
    (k', v') ∈ (m.insert k v).entries ↔
      (k' = k ∧ v' = v) ∨ (k' ≠ k ∧ (k', v') ∈ m.entries) := by
  have hne : k' ≠ k ↔ k' < k ∨ k < k' := ne_iff_lt_or_gt
  simp only [insert, List.mem_append, List.mem_filter, List.mem_cons, Prod.mk.injEq,
    decide_eq_true_eq, hne]
  tauto

theorem get?_insert (m : OrdMap κ α) (k k' : κ) (v : α) :
    (m.insert k v).get? k' = if k' = k then some v else m.get? k' := by
  ext w
  rw [get?_eq_some_iff, mem_insert_entries]
  split
  next h => simp [h, eq_comm]
  next h => simp [h, get?_eq_some_iff]

@[simp] theorem get?_insert_self (m : OrdMap κ α) (k : κ) (v : α) :
    (m.insert k v).get? k = some v := by simp [get?_insert]

theorem get?_insert_ne {m : OrdMap κ α} {k k' : κ} {v : α} (h : k' ≠ k) :
    (m.insert k v).get? k' = m.get? k' := by simp [get?_insert, h]

/-- Inserting past the last key appends. -/
theorem insert_entries_of_last {m : OrdMap κ α} {k : κ} {v : α}
    (h : ∀ e ∈ m.entries, e.1 < k) : (m.insert k v).entries = m.entries ++ [(k, v)] := by
  have hl : m.entries.filter (·.1 < k) = m.entries :=
    List.filter_eq_self.mpr fun e he => by simpa using h e he
  have hr : m.entries.filter (k < ·.1) = [] :=
    List.filter_eq_nil_iff.mpr fun e he => by simpa using (h e he).le
  simp [insert, hl, hr]

/-- Keep the entries whose key satisfies `p`. -/
def filterKeys (m : OrdMap κ α) (p : κ → Bool) : OrdMap κ α where
  entries := m.entries.filter (fun e => p e.1)
  sorted := m.sorted.filter _

theorem get?_filterKeys (m : OrdMap κ α) (p : κ → Bool) (k : κ) :
    (m.filterKeys p).get? k = if p k then m.get? k else none := by
  ext v
  rw [get?_eq_some_iff]
  simp only [filterKeys, List.mem_filter]
  split
  next h => simp [h, get?_eq_some_iff]
  next h => simp [h]

def erase (m : OrdMap κ α) (k : κ) : OrdMap κ α := m.filterKeys (· ≠ k)

theorem get?_erase (m : OrdMap κ α) (k k' : κ) :
    (m.erase k).get? k' = if k' = k then none else m.get? k' := by
  rw [erase, get?_filterKeys]
  by_cases h : k' = k <;> simp [h]

/-- Rewrite every value, looking at its key. -/
def mapVals (m : OrdMap κ α) (f : κ → α → β) : OrdMap κ β where
  entries := m.entries.map (fun e => (e.1, f e.1 e.2))
  sorted := List.pairwise_map.mpr m.sorted

theorem get?_mapVals (m : OrdMap κ α) (f : κ → α → β) (k : κ) :
    (m.mapVals f).get? k = (m.get? k).map (f k) := by
  ext w
  simp only [get?_eq_some_iff, mapVals, List.mem_map, Prod.mk.injEq, Option.map_eq_some_iff,
    Prod.exists]
  constructor
  · rintro ⟨k', v, hm, rfl, rfl⟩
    exact ⟨v, hm, rfl⟩
  · rintro ⟨v, hm, rfl⟩
    exact ⟨k, v, hm, rfl, rfl⟩

theorem size_mapVals (m : OrdMap κ α) (f : κ → α → β) : (m.mapVals f).size = m.size :=
  List.length_map _

/-- Maps with the same keys have the same size. -/
theorem size_eq_of_isSome {m : OrdMap κ α} {m' : OrdMap κ β}
    (h : ∀ k, (m.get? k).isSome = (m'.get? k).isSome) : m.size = m'.size := by
  have hkeys : m.mapVals (fun _ _ => ()) = m'.mapVals (fun _ _ => ()) := by
    refine ext_get? fun k => ?_
    have hk := h k
    rw [get?_mapVals, get?_mapVals]
    cases hm : m.get? k <;> cases hm' : m'.get? k <;> simp_all
  rw [← size_mapVals m fun _ _ => (), hkeys, size_mapVals]

/-- A map with one entry at most has one key at most. -/
theorem eq_of_size_le_one {m : OrdMap κ α} (h : m.size ≤ 1) {k k' : κ} {v v' : α}
    (hk : m.get? k = some v) (hk' : m.get? k' = some v') : k = k' := by
  rw [get?_eq_some_iff] at hk hk'
  obtain ⟨i, hi, he⟩ := List.getElem_of_mem hk
  obtain ⟨j, hj, he'⟩ := List.getElem_of_mem hk'
  have hij : i = j := by
    rw [size] at h
    omega
  subst hij
  exact congrArg Prod.fst (he.symm.trans he')

/-- An order in which a hash map with these entries may be iterated. -/
def IterOrder (m : OrdMap κ α) (order : List κ) : Prop :=
  order.Nodup ∧ ∀ k, k ∈ order ↔ (m.get? k).isSome

theorem iterOrder_iff {m : OrdMap κ α} {order : List κ} : m.IterOrder order ↔
    order.Nodup ∧ (∀ k ∈ order, (m.get? k).isSome) ∧ ∀ e ∈ m.entries, e.1 ∈ order := by
  refine and_congr_right fun _ => ⟨fun h => ⟨fun k hk => (h k).mp hk, fun e he => ?_⟩,
    fun h k => ⟨h.1 k, fun hk => ?_⟩⟩
  · have hget : m.get? e.1 = some e.2 := get?_eq_some_iff.mpr he
    exact (h e.1).mpr (by rw [hget]; rfl)
  · obtain ⟨v, hv⟩ := Option.isSome_iff_exists.mp hk
    exact h.2 (k, v) (get?_eq_some_iff.mp hv)

instance (m : OrdMap κ α) (order : List κ) : Decidable (m.IterOrder order) :=
  decidable_of_iff _ iterOrder_iff.symm

end OrdMap
