import Mathlib
import Pochtecatl.OrdMapTrim

/-- A table whose rows are found by their rowid. -/
abbrev RowTable (α : Type) : Type := OrdMap Nat α

namespace RowTable

variable {α κ : Type} {t : RowTable α} {row : α} {id : Nat}

/-- The rowid of the next row is one above the greatest. -/
def nextRowid (t : RowTable α) : Nat := (t.lastEntry.map Prod.fst).getD 0 + 1

def append (t : RowTable α) (row : α) : RowTable α := OrdMap.insert t t.nextRowid row

def appendAll (t : RowTable α) (rows : List α) : RowTable α := rows.foldl append t

/-- The rows that satisfy `p`, in the order in which the table is scanned. -/
def select (t : RowTable α) (scan : List Nat) (p : α → Bool) : List (Nat × α) :=
  scan.filterMap fun id => ((t.get? id).filter p).map (id, ·)

theorem lt_nextRowid (h : t.get? id = some row) : id < t.nextRowid := by
  unfold nextRowid
  cases hlast : t.lastEntry with
  | none =>
    rw [OrdMap.lastEntry_eq_none_iff.mp hlast] at h
    cases h
  | some last =>
    have hle := (OrdMap.lastEntry_eq_some_iff.mp hlast).2 id row h
    exact Nat.lt_succ_of_le hle

theorem get?_append (t : RowTable α) (row : α) (id : Nat) :
    (t.append row).get? id = if id = t.nextRowid then some row else t.get? id :=
  OrdMap.get?_insert t t.nextRowid id row

theorem get?_append_of_some {other : α} (h : t.get? id = some row) :
    (t.append other).get? id = some row := by
  have hlt := lt_nextRowid h
  rw [get?_append, if_neg (by omega), h]

theorem append_entries (t : RowTable α) (row : α) :
    (t.append row).entries = t.entries ++ [(t.nextRowid, row)] :=
  OrdMap.insert_entries_of_last fun _ he => lt_nextRowid (OrdMap.get?_eq_some_iff.mpr he)

theorem values_appendAll (t : RowTable α) (rows : List α) :
    (t.appendAll rows).values = t.values ++ rows := by
  induction rows generalizing t with
  | nil => exact (List.append_nil _).symm
  | cons row rows ih =>
    have hvalues : (t.append row).values = t.values ++ [row] := by
      rw [OrdMap.values, append_entries, List.map_append]
      rfl
    calc ((t.append row).appendAll rows).values = (t.append row).values ++ rows := ih _
      _ = t.values ++ row :: rows := by rw [hvalues, List.append_assoc, List.singleton_append]

theorem select_keys {rows : List (Nat × α)} {p : α → Bool}
    (h : ∀ e ∈ rows, t.get? e.1 = some e.2) :
    t.select (rows.map Prod.fst) p = rows.filter fun e => p e.2 := by
  rw [select, List.filterMap_map, ← List.filterMap_eq_filter]
  refine List.filterMap_congr fun e he => ?_
  rw [Function.comp_apply, h e he, Option.guard]
  by_cases hp : p e.2 <;> simp [Option.filter, hp]

/-- A table can be scanned by its rowids. -/
theorem iterOrder_rowids (t : RowTable α) : t.IterOrder (t.entries.map Prod.fst) := by
  refine ⟨List.pairwise_map.mpr (t.sorted.imp fun hlt => ne_of_lt hlt), fun id => ?_⟩
  rw [Option.isSome_iff_exists, List.mem_map]
  constructor
  · rintro ⟨⟨_, row⟩, hrow, rfl⟩
    exact ⟨row, OrdMap.get?_eq_some_iff.mpr hrow⟩
  · rintro ⟨row, hrow⟩
    exact ⟨(id, row), OrdMap.get?_eq_some_iff.mp hrow, rfl⟩

/-- A select reads every row once, whatever the scan. -/
theorem select_perm {scan : List Nat} (h : t.IterOrder scan) (p : α → Bool) :
    ((t.select scan p).map Prod.snd).Perm (t.values.filter p) := by
  have hrowids := iterOrder_rowids t
  have hscan : scan.Perm (t.entries.map Prod.fst) :=
    (List.perm_ext_iff_of_nodup h.1 hrowids.1).mpr fun id => (h.2 id).trans (hrowids.2 id).symm
  have hentries : (t.select (t.entries.map Prod.fst) p).map Prod.snd = t.values.filter p := by
    rw [select_keys fun e he => OrdMap.get?_eq_some_iff.mpr he, OrdMap.values, List.filter_map]
    rfl
  rw [← hentries]
  exact (hscan.filterMap _).map Prod.snd

/-- A select of everything answers the rowids as they are scanned. -/
theorem select_rowids {scan : List Nat} (h : t.IterOrder scan) :
    (t.select scan fun _ => true).map Prod.fst = scan := by
  have hrow : ∀ id ∈ scan, (((t.get? id).filter fun _ => true).map (id, ·)).map Prod.fst =
      some id := by
    intro id hid
    obtain ⟨row, hrow⟩ := h.exists_value hid
    rw [hrow]
    rfl
  rw [select, List.map_filterMap, List.filterMap_congr hrow]
  exact List.filterMap_some

section Group

variable [DecidableEq κ]

/-- The groups of the rows by a key, with their sizes. -/
def groupCount (keys : List κ) : List (κ × Nat) := keys.dedup.map fun key => (key, keys.count key)

theorem mem_groupCount {keys : List κ} {key : κ} {n : Nat} :
    (key, n) ∈ groupCount keys ↔ key ∈ keys ∧ n = keys.count key := by
  simp only [groupCount, List.mem_map, List.mem_dedup, Prod.mk.injEq]
  constructor
  · rintro ⟨_, hmem, rfl, rfl⟩
    exact ⟨hmem, rfl⟩
  · rintro ⟨hmem, rfl⟩
    exact ⟨key, hmem, rfl, rfl⟩

theorem groupCount_nodup (keys : List κ) : ((groupCount keys).map Prod.fst).Nodup := by
  have hkeys : (groupCount keys).map Prod.fst = keys.dedup := by
    rw [groupCount, List.map_map]
    exact List.map_id _
  rw [hkeys]
  exact List.nodup_dedup keys

theorem sum_groupCount (keys : List κ) :
    ((groupCount keys).map Prod.snd).sum = keys.length := by
  rw [groupCount, List.map_map]
  exact List.sum_map_count_dedup_eq_length keys

/-- The groups do not depend on the order of the rows. -/
theorem groupCount_perm {keys keys' : List κ} (h : keys.Perm keys') :
    (groupCount keys).Perm (groupCount keys') := by
  have hcount : ∀ key, keys.count key = keys'.count key := fun key => h.count_eq key
  simp only [groupCount, hcount]
  exact h.dedup.map _

end Group

end RowTable
