import Pochtecatl.StoreLoops

namespace Pochtecatl

namespace TimePriceBarStore

variable {store s s' : TimePriceBarStore} {block : Block PairTicks} {header : Option Nat}
  {storeOrder storeOrder' blockOrder blockOrder' : List Address}

theorem SameFields.ext (h : SameFields store s) (h' : SameFields store s')
    (hbars : ∀ a, s.timePriceBars.get? a = s'.timePriceBars.get? a) : s = s' := by
  rw [SameFields] at h h'
  rw [h, h', OrdMap.ext_get? hbars]

/-- The reorg pruning of a store does not depend on the order of its map. -/
theorem pruneIfReorged_unique {n : Nat} (ho : store.timePriceBars.IterOrder storeOrder)
    (ho' : store.timePriceBars.IterOrder storeOrder')
    (h : pruneIfReorged n storeOrder store = .ok () s)
    (h' : pruneIfReorged n storeOrder' store = .ok () s') : s = s' := by
  obtain ⟨hfields, hkept, hpruned⟩ := pruneIfReorged_ok ho h
  obtain ⟨hfields', hkept', hpruned'⟩ := pruneIfReorged_ok ho' h'
  by_cases hreorg : store.IsReorg n
  · refine hfields.ext hfields' fun a => ?_
    obtain ⟨hsome, hnone⟩ := hpruned hreorg a
    obtain ⟨hsome', hnone'⟩ := hpruned' hreorg a
    cases hg : store.timePriceBars.get? a with
    | none => rw [hnone hg, hnone' hg]
    | some bars =>
      obtain ⟨pruned, hok, hget⟩ := hsome bars hg
      obtain ⟨pruned', hok', hget'⟩ := hsome' bars hg
      rw [hok] at hok'
      cases hok'
      rw [hget, hget']
  · rw [hkept hreorg, hkept' hreorg]

/-- The insertions into a store do not depend on the order of the map of the block. -/
theorem insertTicks_unique {f : Option Nat} (hb : block.pairTicks.IterOrder blockOrder)
    (hb' : block.pairTicks.IterOrder blockOrder')
    (h : insertTicks block f blockOrder store = .ok () s)
    (h' : insertTicks block f blockOrder' store = .ok () s') : s = s' := by
  have hmem : ∀ order, block.pairTicks.IterOrder order →
      ∀ a ∈ order, ∃ pair, block.pairTicks.get? a = some pair :=
    fun order ho a ha => Option.isSome_iff_exists.mp ((ho.2 a).mp ha)
  obtain ⟨hfields, hother, hvisited⟩ := insertTicks_ok hb.1 (hmem _ hb) h
  obtain ⟨hfields', hother', hvisited'⟩ := insertTicks_ok hb'.1 (hmem _ hb') h'
  refine hfields.ext hfields' fun a => ?_
  by_cases ha : a ∈ blockOrder
  · obtain ⟨pair, bars, hpair, hok, hget⟩ := hvisited a ha
    obtain ⟨pair', bars', hpair', hok', hget'⟩ := hvisited' a ((hb'.2 a).mpr ((hb.2 a).mp ha))
    rw [hpair] at hpair'
    cases hpair'
    rw [hok] at hok'
    cases hok'
    rw [hget, hget']
  · have ha' : a ∉ blockOrder' := fun hm => ha ((hb.2 a).mpr ((hb'.2 a).mp hm))
    rw [hother a ha, hother' a ha']

/-- A call leaves the same store, in whatever order the maps are iterated. -/
theorem insertBlock_unique (ho : store.timePriceBars.IterOrder storeOrder)
    (ho' : store.timePriceBars.IterOrder storeOrder')
    (hb : block.pairTicks.IterOrder blockOrder) (hb' : block.pairTicks.IterOrder blockOrder')
    (h : insertBlock block header storeOrder blockOrder store = .ok () s)
    (h' : insertBlock block header storeOrder' blockOrder' store = .ok () s') : s = s' := by
  obtain ⟨pruned, inserted, hprune, hinsert, hs⟩ := insertBlock_ok h
  obtain ⟨pruned', inserted', hprune', hinsert', hs'⟩ := insertBlock_ok h'
  have hsame : pruned = pruned' := pruneIfReorged_unique ho ho' hprune hprune'
  subst hsame
  have hsame : inserted = inserted' := insertTicks_unique hb hb' hinsert hinsert'
  rw [hs, hs', hsame]

end TimePriceBarStore

end Pochtecatl
