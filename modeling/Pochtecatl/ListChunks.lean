import Mathlib.Data.List.Basic

namespace List

variable {α β : Type} {size : Nat}

/-- The list cut into pieces of a size, of which the last one may be shorter. -/
def chunks (size : Nat) (l : List α) : List (List α) :=
  (List.range ((l.length + (size - 1)) / size)).map fun i => (l.drop (size * i)).take size

@[simp] theorem length_chunks (size : Nat) (l : List α) :
    (l.chunks size).length = (l.length + (size - 1)) / size := by
  rw [chunks, length_map, length_range]

theorem getElem?_chunks {l : List α} {i : Nat} (h : i < (l.chunks size).length) :
    (l.chunks size)[i]? = some ((l.drop (size * i)).take size) := by
  rw [length_chunks] at h
  rw [chunks, getElem?_map, getElem?_range h, Option.map_some]

/-- Enough pieces give the list back. -/
theorem flatten_map_range_take_drop (n : Nat) (l : List α) (h : l.length ≤ size * n) :
    ((List.range n).map fun i => (l.drop (size * i)).take size).flatten = l := by
  induction n generalizing l with
  | zero =>
    have hnil : l = [] := length_eq_zero_iff.mp (by omega)
    rw [hnil]
    rfl
  | succ n ih =>
    have hrest : (l.drop size).length ≤ size * n := by
      rw [Nat.mul_succ] at h
      rw [length_drop]
      omega
    have hshift : ∀ i, (l.drop (size * (i + 1))).take size =
        ((l.drop size).drop (size * i)).take size := by
      intro i
      rw [drop_drop, Nat.mul_succ, Nat.add_comm]
    rw [range_succ_eq_map, map_cons, map_map, flatten_cons]
    simp only [Function.comp_def, Nat.succ_eq_add_one, hshift]
    rw [ih (l.drop size) hrest, Nat.mul_zero, drop_zero, take_append_drop]

theorem flatten_chunks (h : 0 < size) (l : List α) : (l.chunks size).flatten = l := by
  apply flatten_map_range_take_drop
  have hceil := Nat.div_add_mod (l.length + (size - 1)) size
  have hmod := Nat.mod_lt (l.length + (size - 1)) h
  omega

/-- Only a last piece is shorter. -/
theorem length_of_mem_chunks {l piece : List α} (h : size ∣ l.length)
    (hpiece : piece ∈ l.chunks size) : piece.length = size := by
  obtain ⟨i, hi, rfl⟩ := mem_map.mp hpiece
  have hcount := mem_range.mp hi
  obtain ⟨n, hn⟩ := h
  have hlt : i < n := by
    rw [hn] at hcount
    cases size with
    | zero => omega
    | succ k =>
      rw [Nat.add_sub_cancel, Nat.mul_add_div (by omega), Nat.div_eq_of_lt (by omega)] at hcount
      exact hcount
  have hplace : size * (i + 1) ≤ size * n := Nat.mul_le_mul_left size hlt
  rw [Nat.mul_succ] at hplace
  rw [length_take, length_drop, hn]
  omega

/-- A whole piece in front is the first piece. -/
theorem chunks_append {piece : List α} (hsize : 0 < size) (h : piece.length = size)
    (l : List α) : (piece ++ l).chunks size = piece :: l.chunks size := by
  have hcount : ((piece ++ l).length + (size - 1)) / size = (l.length + (size - 1)) / size + 1 := by
    rw [length_append, h, Nat.add_assoc, Nat.add_div_left _ hsize]
  have hrest : ∀ i, ((piece ++ l).drop (size * (i + 1))).take size =
      (l.drop (size * i)).take size := by
    intro i
    rw [Nat.mul_succ, Nat.add_comm, ← drop_drop, drop_left' h]
  rw [chunks, hcount, range_succ_eq_map, map_cons, map_map, chunks]
  simp only [Function.comp_def, Nat.succ_eq_add_one, hrest]
  rw [Nat.mul_zero, drop_zero, take_left' h]

theorem chunks_flatMap {f : β → List α} (hsize : 0 < size) (l : List β)
    (h : ∀ b ∈ l, (f b).length = size) : (l.flatMap f).chunks size = l.map f := by
  induction l with
  | nil =>
    rw [flatMap_nil, chunks, length_nil, Nat.zero_add, Nat.div_eq_of_lt (by omega)]
    rfl
  | cons b l ih =>
    rw [flatMap_cons, chunks_append hsize (h b mem_cons_self), map_cons,
      ih fun b hb => h b (mem_cons_of_mem _ hb)]

theorem take_drop_mapIdx (f : Nat → α → β) (l : List α) (k m : Nat) :
    ((l.mapIdx f).drop k).take m = ((l.drop k).take m).mapIdx fun j => f (k + j) := by
  apply ext_getElem?
  intro j
  by_cases hj : j < m
  · simp only [getElem?_take, getElem?_mapIdx, getElem?_drop, hj, if_true]
  · simp only [getElem?_take, getElem?_mapIdx, hj, if_false, Option.map_none]

/-- Mapping the pieces by the places in them maps the list by the places in it. -/
theorem chunks_mapIdx (f : Nat → Nat → α → β) (h : 0 < size) (l : List α) :
    (l.mapIdx fun i => f (i / size) (i % size)).chunks size =
      (l.chunks size).mapIdx fun i piece => piece.mapIdx (f i) := by
  apply ext_getElem?
  intro i
  rw [getElem?_mapIdx]
  by_cases hi : i < (l.chunks size).length
  · have hi' : i < ((l.mapIdx fun i => f (i / size) (i % size)).chunks size).length := by
      rw [length_chunks, length_mapIdx, ← length_chunks]
      exact hi
    rw [getElem?_chunks hi, getElem?_chunks hi', take_drop_mapIdx, Option.map_some]
    refine congrArg some (ext_getElem? fun j => ?_)
    rw [getElem?_mapIdx, getElem?_mapIdx]
    by_cases hj : j < size
    · rw [Nat.mul_add_div h, Nat.div_eq_of_lt hj, Nat.add_zero, Nat.mul_add_mod,
        Nat.mod_eq_of_lt hj]
    · rw [getElem?_eq_none (by rw [length_take]; omega)]
      rfl
  · have hi' : ¬i < ((l.mapIdx fun i => f (i / size) (i % size)).chunks size).length := by
      rw [length_chunks, length_mapIdx, ← length_chunks]
      exact hi
    rw [getElem?_eq_none (Nat.le_of_not_lt hi), getElem?_eq_none (Nat.le_of_not_lt hi'),
      Option.map_none]

/-- Writing values that depend on the place alone, in any order. -/
theorem getElem?_foldl_set (f : Nat → α) (order : List Nat) (l : List α) (i : Nat) :
    (order.foldl (fun l j => l.set j (f j)) l)[i]? =
      if i ∈ order ∧ i < l.length then some (f i) else l[i]? := by
  induction order generalizing l with
  | nil => simp
  | cons j order ih =>
    rw [foldl_cons, ih, length_set, getElem?_set]
    by_cases hij : j = i
    · subst hij
      by_cases hlt : j < l.length
      · simp [hlt]
      · simp [hlt]
    · simp [hij, Ne.symm hij]

/-- All places are written, whatever the order. -/
theorem foldl_set_of_perm (f : Nat → α) {order : List Nat} {l : List α}
    (h : order.Perm (List.range l.length)) :
    order.foldl (fun l j => l.set j (f j)) l = (List.range l.length).map f := by
  have hmem : ∀ i, i ∈ order ↔ i < l.length := fun i => h.mem_iff.trans mem_range
  apply ext_getElem?
  intro i
  rw [getElem?_foldl_set, getElem?_map]
  by_cases hi : i < l.length
  · rw [if_pos ⟨(hmem i).mpr hi, hi⟩, getElem?_range hi, Option.map_some]
  · rw [if_neg fun hc => hi hc.2, getElem?_eq_none (Nat.le_of_not_lt hi),
      getElem?_eq_none (by rw [length_range]; omega), Option.map_none]

end List
