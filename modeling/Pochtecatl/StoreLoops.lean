import Pochtecatl.TimePriceBarStore

namespace Pochtecatl

namespace TimePriceBarStore

open ResolutionTimestamp

/-- The stores differ in their bars only. -/
def SameFields (store store' : TimePriceBarStore) : Prop :=
  store' = { store with timePriceBars := store'.timePriceBars }

theorem SameFields.refl (store : TimePriceBarStore) : SameFields store store := rfl

theorem SameFields.trans {a b c : TimePriceBarStore} (h : SameFields a b) (h' : SameFields b c) :
    SameFields a c := by
  rw [SameFields, h', h]

/-- A round of a loop changes the entry of its own pair only. -/
structure Local (visit : Address → StoreM Unit) : Prop where
  fields : ∀ a store, SameFields store (visit a store).state
  other : ∀ a store b, b ≠ a →
    (visit a store).state.timePriceBars.get? b = store.timePriceBars.get? b

theorem withBars_state (context : Option Address) (pairAddress : Address) (bars : TimePriceBars)
    (method : TimePriceBarsM Unit) (store : TimePriceBarStore) :
    (withBars context pairAddress bars method store).state =
      { store with timePriceBars := store.timePriceBars.insert pairAddress (method bars).state } := by
  unfold withBars
  cases method bars with
  | ok u bars' => rfl
  | error e bars' => rfl

theorem withBars_eq_ok {context : Option Address} {pairAddress : Address} {bars : TimePriceBars}
    {method : TimePriceBarsM Unit} {store store' : TimePriceBarStore}
    (h : withBars context pairAddress bars method store = .ok () store') :
    ∃ bars', method bars = .ok () bars' ∧
      store' = { store with timePriceBars := store.timePriceBars.insert pairAddress bars' } := by
  unfold withBars at h
  cases hm : method bars with
  | ok u bars' =>
    rw [hm] at h
    injection h with _ h
    exact ⟨bars', rfl, h.symm⟩
  | error e bars' =>
    rw [hm] at h
    cases h

theorem withBars_eq_error {context : Option Address} {pairAddress : Address}
    {bars : TimePriceBars} {method : TimePriceBarsM Unit} {store store' : TimePriceBarStore}
    {failure : StoreFailure} (h : withBars context pairAddress bars method store = .error failure store') :
    ∃ bars', method bars = .error failure.cause bars' ∧ failure.context = context ∧
      store' = { store with timePriceBars := store.timePriceBars.insert pairAddress bars' } := by
  unfold withBars at h
  cases hm : method bars with
  | ok u bars' =>
    rw [hm] at h
    cases h
  | error e bars' =>
    rw [hm] at h
    injection h with hf h
    subst hf
    exact ⟨bars', rfl, rfl, h.symm⟩

theorem pruneReorgedOne_local (n : Nat) : Local (pruneReorgedOne n) where
  fields := by
    intro a store
    unfold pruneReorgedOne
    split
    next => exact withBars_state _ _ _ _ _ ▸ rfl
    next => rfl
  other := by
    intro a store b hb
    unfold pruneReorgedOne
    split
    next =>
      rw [withBars_state]
      exact OrdMap.get?_insert_ne hb
    next => rfl

theorem insertTick_local (block : Block PairTicks) (f : Option Nat) :
    Local (insertTick block f) where
  fields := by
    intro a store
    unfold insertTick
    split
    next => exact withBars_state _ _ _ _ _ ▸ rfl
    next => rfl
  other := by
    intro a store b hb
    unfold insertTick
    split
    next =>
      rw [withBars_state]
      exact OrdMap.get?_insert_ne hb
    next => rfl

section Loop

variable {visit : Address → StoreM Unit} {order : List Address}
  {store store' : TimePriceBarStore}

/-- A completed loop visited each pair of its order once. -/
theorem Local.forM_ok (hv : Local visit) (hn : order.Nodup)
    (h : order.forM visit store = .ok () store') :
    SameFields store store' ∧
      (∀ b, b ∉ order → store'.timePriceBars.get? b = store.timePriceBars.get? b) ∧
      ∀ a ∈ order, ∃ s t, visit a s = .ok () t ∧ SameFields store s ∧
        s.timePriceBars.get? a = store.timePriceBars.get? a ∧
        store'.timePriceBars.get? a = t.timePriceBars.get? a := by
  induction order generalizing store with
  | nil =>
    cases h
    exact ⟨.refl _, fun b _ => rfl, fun a ha => by cases ha⟩
  | cons a rest ih =>
    obtain ⟨s, hs, hrest⟩ := EStateM.forM_cons_eq_ok.mp h
    obtain ⟨hnot, hn⟩ := List.nodup_cons.mp hn
    obtain ⟨hfields, hother, hvisited⟩ := ih hn hrest
    have hsf : SameFields store s := by
      have := hv.fields a store
      rwa [hs] at this
    have hso : ∀ b, b ≠ a → s.timePriceBars.get? b = store.timePriceBars.get? b := by
      intro b hb
      have := hv.other a store b hb
      rwa [hs] at this
    refine ⟨hsf.trans hfields, fun b hb => ?_, fun b hb => ?_⟩
    · rw [List.mem_cons, not_or] at hb
      rw [hother b hb.2, hso b hb.1]
    · rcases List.mem_cons.mp hb with rfl | hb
      · exact ⟨store, s, hs, .refl store, rfl, hother _ hnot⟩
      · obtain ⟨s', t, ht, hf, hget, hget'⟩ := hvisited b hb
        have hne : b ≠ a := fun he => hnot (he ▸ hb)
        exact ⟨s', t, ht, hsf.trans hf, hget.trans (hso b hne), hget'⟩

end Loop

/-- What a completed reorg pruning made of each pair. -/
theorem pruneReorged_ok {n : Nat} {order : List Address} {store store' : TimePriceBarStore}
    (ho : store.timePriceBars.IterOrder order) (h : pruneReorged n order store = .ok () store') :
    SameFields store store' ∧ ∀ a,
      (∀ bars, store.timePriceBars.get? a = some bars → ∃ bars',
        TimePriceBars.pruneToReorgedBlockNumber n bars = .ok () bars' ∧
          store'.timePriceBars.get? a = some bars') ∧
      (store.timePriceBars.get? a = none → store'.timePriceBars.get? a = none) := by
  obtain ⟨hfields, hother, hvisited⟩ := (pruneReorgedOne_local n).forM_ok ho.1 h
  refine ⟨hfields, fun a => ⟨fun bars hg => ?_, fun hg => ?_⟩⟩
  · obtain ⟨s, t, hvisit, -, hs, ht⟩ := hvisited a ((ho.2 a).mpr (by rw [hg]; rfl))
    rw [pruneReorgedOne, hs, hg] at hvisit
    obtain ⟨bars', hok, rfl⟩ := withBars_eq_ok hvisit
    exact ⟨bars', hok, ht.trans (OrdMap.get?_insert_self _ _ _)⟩
  · have hnot : a ∉ order := fun hm => by
      have := (ho.2 a).mp hm
      rw [hg] at this
      cases this
    rw [hother a hnot, hg]

/-- What a completed pass over the ticks of a block made of each pair. -/
theorem insertTicks_ok {block : Block PairTicks} {f : Option Nat} {order : List Address}
    {store store' : TimePriceBarStore} (hn : order.Nodup)
    (hmem : ∀ a ∈ order, ∃ pair, block.pairTicks.get? a = some pair)
    (h : insertTicks block f order store = .ok () store') :
    SameFields store store' ∧
      (∀ a, a ∉ order → store'.timePriceBars.get? a = store.timePriceBars.get? a) ∧
      ∀ a ∈ order, ∃ pair bars', block.pairTicks.get? a = some pair ∧
        TimePriceBars.insertData block.blockNumber pair.tick block.blockTimestamp f
          (store.barsOf a) = .ok () bars' ∧ store'.timePriceBars.get? a = some bars' := by
  obtain ⟨hfields, hother, hvisited⟩ := (insertTick_local block f).forM_ok hn h
  refine ⟨hfields, hother, fun a ha => ?_⟩
  obtain ⟨pair, hpair⟩ := hmem a ha
  obtain ⟨s, t, hvisit, hsf, hs, ht⟩ := hvisited a ha
  have hbars : s.barsOf a = store.barsOf a := by
    rw [barsOf, barsOf, hs, hsf]
  rw [insertTick, hpair] at hvisit
  obtain ⟨bars', hok, rfl⟩ := withBars_eq_ok hvisit
  rw [hbars] at hok
  exact ⟨pair, bars', hpair, hok, ht.trans (OrdMap.get?_insert_self _ _ _)⟩

theorem get?_removeEmptied (store : TimePriceBarStore) (a : Address) :
    store.removeEmptied.timePriceBars.get? a =
      (store.timePriceBars.get? a).filter fun bars => !bars.isEmpty := by
  rw [removeEmptied, OrdMap.get?_filterKeys]
  cases hg : store.timePriceBars.get? a with
  | none => simp
  | some bars => cases hb : bars.isEmpty <;> simp [Option.filter, hb]

/-- The store that the insertions of a call find. -/
theorem pruneIfReorged_ok {n : Nat} {order : List Address} {store store' : TimePriceBarStore}
    (ho : store.timePriceBars.IterOrder order) (h : pruneIfReorged n order store = .ok () store') :
    SameFields store store' ∧
      (¬store.IsReorg n → store' = store) ∧
      (store.IsReorg n → ∀ a,
        (∀ bars, store.timePriceBars.get? a = some bars → ∃ bars',
          TimePriceBars.pruneToReorgedBlockNumber n bars = .ok () bars' ∧
            store'.timePriceBars.get? a = if bars'.isEmpty then none else some bars') ∧
        (store.timePriceBars.get? a = none → store'.timePriceBars.get? a = none)) := by
  unfold pruneIfReorged at h
  split at h
  next hr =>
    obtain ⟨u, pruned, hp, hremove⟩ := EStateM.bind_eq_ok.mp h
    have hstore : pruned.removeEmptied = store' := by
      injection hremove
    obtain ⟨hfields, hentries⟩ := pruneReorged_ok ho hp
    refine ⟨?_, fun hn => absurd hr hn, fun _ a => ⟨fun bars hg => ?_, fun hg => ?_⟩⟩
    · rw [← hstore]
      exact hfields.trans rfl
    · obtain ⟨bars', hok, hg'⟩ := (hentries a).1 bars hg
      refine ⟨bars', hok, ?_⟩
      rw [← hstore, get?_removeEmptied, hg']
      cases hb : bars'.isEmpty <;> simp [Option.filter, hb]
    · rw [← hstore, get?_removeEmptied, (hentries a).2 hg]
      rfl
  next hn =>
    injection h with _ h
    subst h
    exact ⟨.refl store, fun _ => rfl, fun hr => absurd hr hn⟩

theorem insertBlock_eq_bind (block : Block PairTicks) (header : Option Nat)
    (storeOrder blockOrder : List Address) (store : TimePriceBarStore) :
    insertBlock block header storeOrder blockOrder store = (do
      pruneIfReorged block.blockNumber storeOrder
      insertTicks block (store.finalizedTimestamp block.blockTimestamp header) blockOrder
      modify (pruneStale block.blockNumber block.blockTimestamp)
      modify fun store =>
        { store with lastInsertedBlockNumber := some block.blockNumber } : StoreM Unit) store := rfl

/-- The stages of a completed call. -/
theorem insertBlock_ok {block : Block PairTicks} {header : Option Nat}
    {storeOrder blockOrder : List Address} {store store' : TimePriceBarStore}
    (h : insertBlock block header storeOrder blockOrder store = .ok () store') :
    ∃ pruned inserted, pruneIfReorged block.blockNumber storeOrder store = .ok () pruned ∧
      insertTicks block (store.finalizedTimestamp block.blockTimestamp header) blockOrder pruned =
        .ok () inserted ∧
      store' = { pruneStale block.blockNumber block.blockTimestamp inserted with
        lastInsertedBlockNumber := some block.blockNumber } := by
  rw [insertBlock_eq_bind] at h
  obtain ⟨u, pruned, hp, h⟩ := EStateM.bind_eq_ok.mp h
  obtain ⟨u', inserted, hi, h⟩ := EStateM.bind_eq_ok.mp h
  refine ⟨pruned, inserted, hp, hi, ?_⟩
  injection h with _ h
  exact h.symm

/-- A call fails in its reorg pruning or in its insertions. -/
theorem insertBlock_eq_error {block : Block PairTicks} {header : Option Nat}
    {storeOrder blockOrder : List Address} {store store' : TimePriceBarStore}
    {failure : StoreFailure}
    (h : insertBlock block header storeOrder blockOrder store = .error failure store') :
    pruneIfReorged block.blockNumber storeOrder store = .error failure store' ∨
      ∃ pruned, pruneIfReorged block.blockNumber storeOrder store = .ok () pruned ∧
        insertTicks block (store.finalizedTimestamp block.blockTimestamp header) blockOrder
          pruned = .error failure store' := by
  rw [insertBlock_eq_bind] at h
  rcases EStateM.bind_eq_error.mp h with h | ⟨u, pruned, hp, h⟩
  · exact Or.inl h
  · rcases EStateM.bind_eq_error.mp h with h | ⟨u', inserted, -, h⟩
    · exact Or.inr ⟨pruned, hp, h⟩
    · cases h

/-- The pair at which the reorg pruning stops. -/
theorem pruneIfReorged_eq_error {n : Nat} {order : List Address}
    {store store' : TimePriceBarStore} {failure : StoreFailure}
    (h : pruneIfReorged n order store = .error failure store') :
    store.IsReorg n ∧ ∃ done a rest mid bars bars', order = done ++ a :: rest ∧
      pruneReorged n done store = .ok () mid ∧ mid.timePriceBars.get? a = some bars ∧
      TimePriceBars.pruneToReorgedBlockNumber n bars = .error failure.cause bars' ∧
      store' = { mid with timePriceBars := mid.timePriceBars.insert a bars' } := by
  unfold pruneIfReorged at h
  split at h
  next hr =>
    refine ⟨hr, ?_⟩
    rcases EStateM.bind_eq_error.mp h with h | ⟨u, pruned, -, h⟩
    · obtain ⟨done, a, rest, mid, horder, hdone, hvisit⟩ := EStateM.forM_eq_error h
      unfold pruneReorgedOne at hvisit
      split at hvisit
      next bars hg =>
        obtain ⟨bars', herr, -, hstore⟩ := withBars_eq_error hvisit
        exact ⟨done, a, rest, mid, bars, bars', horder, hdone, hg, herr, hstore⟩
      next => cases hvisit
    · cases h
  next => cases h

/-- The pair at which the insertions stop. -/
theorem insertTicks_eq_error {block : Block PairTicks} {f : Option Nat} {order : List Address}
    {store store' : TimePriceBarStore} {failure : StoreFailure}
    (h : insertTicks block f order store = .error failure store') :
    ∃ done a rest mid pair bars', order = done ++ a :: rest ∧
      insertTicks block f done store = .ok () mid ∧ block.pairTicks.get? a = some pair ∧
      TimePriceBars.insertData block.blockNumber pair.tick block.blockTimestamp f (mid.barsOf a) =
        .error failure.cause bars' ∧
      store' = { mid with timePriceBars := mid.timePriceBars.insert a bars' } := by
  obtain ⟨done, a, rest, mid, horder, hdone, hvisit⟩ := EStateM.forM_eq_error h
  unfold insertTick at hvisit
  split at hvisit
  next pair hpair =>
    obtain ⟨bars', herr, -, hstore⟩ := withBars_eq_error hvisit
    exact ⟨done, a, rest, mid, pair, bars', horder, hdone, hpair, herr, hstore⟩
  next => cases hvisit

end TimePriceBarStore

end Pochtecatl
