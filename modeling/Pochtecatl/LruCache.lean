import Mathlib.Data.List.Basic
import Mathlib.Data.List.Nodup

/-- A cache whose entries stand in order of use, the last used first. -/
structure LruCache (κ α : Type) where
  entries : List (κ × α)
  nodup : (entries.map Prod.fst).Nodup

namespace LruCache

variable {κ α : Type} [DecidableEq κ]

def empty : LruCache κ α := ⟨[], List.nodup_nil⟩

def size (c : LruCache κ α) : Nat := c.entries.length

def get? (c : LruCache κ α) (k : κ) : Option α :=
  (c.entries.find? fun e => e.1 = k).map Prod.snd

def erase (c : LruCache κ α) (k : κ) : LruCache κ α where
  entries := c.entries.filter fun e => e.1 ≠ k
  nodup := c.nodup.sublist (List.filter_sublist.map _)

def insertFront (c : LruCache κ α) (k : κ) (v : α) : LruCache κ α where
  entries := (k, v) :: (c.erase k).entries
  nodup := by
    rw [List.map_cons, List.nodup_cons]
    refine ⟨fun hm => ?_, (c.erase k).nodup⟩
    obtain ⟨e, he, hk⟩ := List.mem_map.mp hm
    simp [erase, hk] at he

def popLast (c : LruCache κ α) : LruCache κ α where
  entries := c.entries.dropLast
  nodup := c.nodup.sublist ((List.dropLast_sublist _).map _)

/-- A lookup makes its entry the last used one. -/
def touch (c : LruCache κ α) (k : κ) : LruCache κ α :=
  match c.get? k with
  | some v => c.insertFront k v
  | none => c

/-- An update through `get_mut`. -/
def modify (c : LruCache κ α) (k : κ) (f : α → α) : LruCache κ α :=
  match c.get? k with
  | some v => c.insertFront k (f v)
  | none => c

/-- Adds an entry, and gives the entry that is evicted for it. -/
def put (c : LruCache κ α) (capacity : Nat) (k : κ) (v : α) : LruCache κ α × Option (κ × α) :=
  if (c.erase k).size < capacity then (c.insertFront k v, none)
  else ((c.erase k).popLast.insertFront k v, c.entries.getLast?)

@[simp] theorem get?_empty (k : κ) : (empty : LruCache κ α).get? k = none := rfl

theorem get?_eq_none_iff {c : LruCache κ α} {k : κ} :
    c.get? k = none ↔ k ∉ c.entries.map Prod.fst := by
  simp only [get?, Option.map_eq_none_iff, List.find?_eq_none, decide_eq_true_eq, List.mem_map,
    not_exists, not_and]

theorem mem_of_get? {c : LruCache κ α} {k : κ} {v : α} (h : c.get? k = some v) :
    (k, v) ∈ c.entries := by
  obtain ⟨⟨k', v'⟩, hfind, rfl⟩ := Option.map_eq_some_iff.mp h
  have hk : k' = k := by simpa using List.find?_some hfind
  exact hk ▸ List.mem_of_find?_eq_some hfind

@[simp] theorem get?_insertFront_self (c : LruCache κ α) (k : κ) (v : α) :
    (c.insertFront k v).get? k = some v := by
  simp [get?, insertFront]

theorem get?_insertFront_ne {c : LruCache κ α} {k k' : κ} {v : α} (h : k' ≠ k) :
    (c.insertFront k v).get? k' = c.get? k' := by
  have hp : (fun e : κ × α => decide (decide (e.1 ≠ k) = true ∧ decide (e.1 = k') = true)) =
      fun e => decide (e.1 = k') := by
    funext e
    by_cases he : e.1 = k'
    · simp [he, h]
    · simp [he]
  unfold get? insertFront erase
  rw [List.find?_cons_of_neg (by simpa using Ne.symm h), List.find?_filter, hp]

theorem get?_insertFront (c : LruCache κ α) (k k' : κ) (v : α) :
    (c.insertFront k v).get? k' = if k' = k then some v else c.get? k' := by
  split
  next h => rw [h, get?_insertFront_self]
  next h => exact get?_insertFront_ne h

@[simp] theorem get?_touch (c : LruCache κ α) (k k' : κ) : (c.touch k).get? k' = c.get? k' := by
  unfold touch
  split
  next v hk =>
    rw [get?_insertFront]
    split
    next h => rw [h, hk]
    next => rfl
  next => rfl

theorem get?_modify (c : LruCache κ α) (k k' : κ) (f : α → α) :
    (c.modify k f).get? k' = if k' = k then (c.get? k).map f else c.get? k' := by
  unfold modify
  split
  next v hk => rw [get?_insertFront, hk, Option.map_some]
  next hk =>
    split
    next h => rw [h, hk, Option.map_none]
    next => rfl

theorem erase_of_absent {c : LruCache κ α} {k : κ} (h : c.get? k = none) : c.erase k = c := by
  obtain ⟨l, hl⟩ := c
  have hfilter : (l.filter fun e => e.1 ≠ k) = l := by
    refine List.filter_eq_self.mpr fun e he => ?_
    have hk : e.1 ≠ k := fun hk => get?_eq_none_iff.mp h (hk ▸ List.mem_map_of_mem he)
    simpa using hk
  simp only [erase, hfilter]

/-- Below the capacity, an entry is added and none is evicted. -/
theorem put_of_lt {c : LruCache κ α} {capacity : Nat} {k : κ} {v : α} (habsent : c.get? k = none)
    (hlt : c.size < capacity) : c.put capacity k v = (c.insertFront k v, none) := by
  rw [put, erase_of_absent habsent, if_pos hlt]

theorem get?_of_mem {c : LruCache κ α} {k : κ} {v : α} (h : (k, v) ∈ c.entries) :
    c.get? k = some v := by
  cases hget : c.get? k with
  | none => exact absurd (List.mem_map_of_mem h) (get?_eq_none_iff.mp hget)
  | some w =>
    have heq := List.inj_on_of_nodup_map c.nodup (mem_of_get? hget) h rfl
    exact congrArg some (congrArg Prod.snd heq)

theorem get?_popLast (c : LruCache κ α) (k : κ) :
    c.popLast.get? k = if c.entries.getLast?.map Prod.fst = some k then none else c.get? k := by
  rcases List.eq_nil_or_concat c.entries with hnil | ⟨l, e, hl⟩
  · simp [popLast, get?, hnil]
  · have hnodup := c.nodup
    rw [hl, List.concat_eq_append] at hnodup
    rw [List.concat_eq_append] at hl
    have hdrop : c.popLast.entries = l := by simp [popLast, hl]
    have hlast : c.entries.getLast?.map Prod.fst = some e.1 := by simp [hl]
    rw [hlast]
    split
    next hk =>
      cases hk
      rw [get?_eq_none_iff, hdrop]
      rw [List.map_append, List.nodup_append] at hnodup
      exact fun hm => hnodup.2.2 _ hm _ (by simp) rfl
    next hk =>
      have hne : e.1 ≠ k := fun he => hk (congrArg some he)
      rw [get?, get?, hdrop, hl, List.find?_append]
      simp [List.find?_cons_of_neg, hne]

/-- What is cached after an entry was added: the evicted entry is not. -/
theorem get?_put {c : LruCache κ α} {capacity : Nat} {k : κ} {v : α} (habsent : c.get? k = none)
    (k' : κ) :
    (c.put capacity k v).1.get? k' =
      if k' = k then some v
      else if (c.put capacity k v).2.map Prod.fst = some k' then none else c.get? k' := by
  unfold put
  rw [erase_of_absent habsent]
  split
  next => simp [get?_insertFront]
  next => simp only [get?_insertFront, get?_popLast]

theorem get?_of_evicted {c : LruCache κ α} {capacity : Nat} {k k₀ : κ} {v v₀ : α}
    (h : (c.put capacity k v).2 = some (k₀, v₀)) : c.get? k₀ = some v₀ := by
  unfold put at h
  split at h
  next => cases h
  next => exact get?_of_mem (List.mem_of_getLast? h)

theorem length_filter_ne {l : List (κ × α)} (hnodup : (l.map Prod.fst).Nodup) {k : κ} {v : α}
    (hmem : (k, v) ∈ l) : (l.filter fun e => e.1 ≠ k).length + 1 = l.length := by
  induction l with
  | nil => cases hmem
  | cons e l ih =>
    rw [List.map_cons, List.nodup_cons] at hnodup
    rcases List.mem_cons.mp hmem with rfl | hm
    · have hrest : (l.filter fun e => e.1 ≠ k) = l := by
        refine List.filter_eq_self.mpr fun e he => ?_
        have hk : e.1 ≠ k := fun hk => hnodup.1 (List.mem_map.mpr ⟨e, he, hk⟩)
        simpa using hk
      rw [List.filter_cons_of_neg (by simp), hrest, List.length_cons]
    · have hk : e.1 ≠ k := fun hk => hnodup.1 (hk ▸ List.mem_map_of_mem hm)
      rw [List.filter_cons_of_pos (by simpa using hk), List.length_cons, ih hnodup.2 hm,
        List.length_cons]

theorem size_insertFront {c : LruCache κ α} {k : κ} (v : α) {w : α} (h : c.get? k = some w) :
    (c.insertFront k v).size = c.size :=
  length_filter_ne c.nodup (mem_of_get? h)

@[simp] theorem size_touch (c : LruCache κ α) (k : κ) : (c.touch k).size = c.size := by
  unfold touch
  split
  next v hk => exact size_insertFront v hk
  next => rfl

theorem size_le_put {c : LruCache κ α} {capacity : Nat} {k : κ} {v : α}
    (habsent : c.get? k = none) : c.size ≤ (c.put capacity k v).1.size := by
  unfold put
  rw [erase_of_absent habsent]
  split
  next =>
    simp only [size, insertFront, erase_of_absent habsent, List.length_cons]
    omega
  next hle =>
    have hpop : c.popLast.get? k = none := by
      rw [get?_eq_none_iff] at habsent ⊢
      exact fun hm => habsent ((c.entries.dropLast_sublist.map Prod.fst).subset hm)
    have hsize : c.popLast.size = c.size - 1 := List.length_dropLast
    simp only [size, insertFront, erase_of_absent hpop, List.length_cons] at hle hsize ⊢
    omega

end LruCache
