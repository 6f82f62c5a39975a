import Pochtecatl.StoreLoops

namespace Pochtecatl

namespace TimePriceBarStore

open ResolutionTimestamp

/-- A loop over the pairs that stopped at one of them: the pairs before it hold what their
completed call made of them, it holds what the failed call left, the others are untouched. -/
structure StoppedAt (before after : TimePriceBarStore) (done : List Address) (failed : Address)
    (cause : Failure) (call : Address → EStateM.Result Failure TimePriceBars Unit → Prop) :
    Prop where
  completed : ∀ a ∈ done, ∃ bars, call a (.ok () bars) ∧ after.timePriceBars.get? a = some bars
  stopped : ∃ bars, call failed (.error cause bars) ∧ after.timePriceBars.get? failed = some bars
  others : ∀ a, a ∉ done → a ≠ failed →
    after.timePriceBars.get? a = before.timePriceBars.get? a

def ReorgCall (store : TimePriceBarStore) (n : Nat) (a : Address)
    (result : EStateM.Result Failure TimePriceBars Unit) : Prop :=
  ∃ bars, store.timePriceBars.get? a = some bars ∧
    TimePriceBars.pruneToReorgedBlockNumber n bars = result

def InsertCall (store : TimePriceBarStore) (block : Block PairTicks) (f : Option Nat)
    (a : Address) (result : EStateM.Result Failure TimePriceBars Unit) : Prop :=
  ∃ pair, block.pairTicks.get? a = some pair ∧
    TimePriceBars.insertData block.blockNumber pair.tick block.blockTimestamp f
      (store.barsOf a) = result

/-- A completed reorg pruning, where one is due: the pairs it emptied are gone. -/
structure Pruned (n : Nat) (before after : TimePriceBarStore) : Prop where
  fields : SameFields before after
  same : ¬before.IsReorg n → after = before
  reorged : before.IsReorg n → ∀ a,
    (∀ bars, before.timePriceBars.get? a = some bars → ∃ bars',
      TimePriceBars.pruneToReorgedBlockNumber n bars = .ok () bars' ∧
        after.timePriceBars.get? a = if bars'.isEmpty then none else some bars') ∧
    (before.timePriceBars.get? a = none → after.timePriceBars.get? a = none)

variable {store store' : TimePriceBarStore}

theorem pruneIfReorged_stoppedAt {n : Nat} {order : List Address} {failure : StoreFailure}
    (ho : store.timePriceBars.IterOrder order)
    (h : pruneIfReorged n order store = .error failure store') :
    SameFields store store' ∧ ∃ done a rest, order = done ++ a :: rest ∧
      StoppedAt store store' done a failure.cause (store.ReorgCall n) := by
  obtain ⟨-, done, a, rest, mid, bars, bars', rfl, hdone, hg, herr, rfl⟩ :=
    pruneIfReorged_eq_error h
  obtain ⟨hn, -, hnot⟩ := List.nodup_append.mp ho.1
  obtain ⟨hfields, hother, hvisited⟩ := (pruneReorgedOne_local n).forM_ok hn hdone
  have ha : a ∉ done := fun hm => hnot a hm a List.mem_cons_self rfl
  refine ⟨hfields.trans rfl, done, a, rest, rfl, fun b hb => ?_,
    ⟨bars', ⟨bars, (hother a ha) ▸ hg, herr⟩, OrdMap.get?_insert_self _ _ _⟩,
    fun b hb hba => (OrdMap.get?_insert_ne hba).trans (hother b hb)⟩
  obtain ⟨s, t, hvisit, -, hs, ht⟩ := hvisited b hb
  have hpresent := (ho.2 b).mp (List.mem_append_left _ hb)
  obtain ⟨bBars, hbg⟩ := Option.isSome_iff_exists.mp hpresent
  rw [pruneReorgedOne, hs, hbg] at hvisit
  obtain ⟨bBars', hok, rfl⟩ := withBars_eq_ok hvisit
  have hba : b ≠ a := fun he => ha (he ▸ hb)
  refine ⟨bBars', ⟨bBars, hbg, hok⟩, ?_⟩
  rw [OrdMap.get?_insert_ne hba, ht]
  exact OrdMap.get?_insert_self _ _ _

theorem insertTicks_stoppedAt {block : Block PairTicks} {f : Option Nat} {order : List Address}
    {failure : StoreFailure} (ho : block.pairTicks.IterOrder order)
    (h : insertTicks block f order store = .error failure store') :
    SameFields store store' ∧ ∃ done a rest, order = done ++ a :: rest ∧
      StoppedAt store store' done a failure.cause (store.InsertCall block f) := by
  obtain ⟨done, a, rest, mid, pair, bars', rfl, hdone, hpair, herr, rfl⟩ := insertTicks_eq_error h
  obtain ⟨hn, -, hnot⟩ := List.nodup_append.mp ho.1
  have hmem : ∀ b ∈ done, ∃ pair, block.pairTicks.get? b = some pair := fun b hb =>
    Option.isSome_iff_exists.mp ((ho.2 b).mp (List.mem_append_left _ hb))
  obtain ⟨hfields, hother, hvisited⟩ := insertTicks_ok hn hmem hdone
  have ha : a ∉ done := fun hm => hnot a hm a List.mem_cons_self rfl
  have hbars : mid.barsOf a = store.barsOf a := by
    rw [barsOf, barsOf, hother a ha, hfields]
  refine ⟨hfields.trans rfl, done, a, rest, rfl, fun b hb => ?_,
    ⟨bars', ⟨pair, hpair, hbars ▸ herr⟩, OrdMap.get?_insert_self _ _ _⟩,
    fun b hb hba => (OrdMap.get?_insert_ne hba).trans (hother b hb)⟩
  obtain ⟨bPair, bBars, hbPair, hok, hbg⟩ := hvisited b hb
  have hba : b ≠ a := fun he => ha (he ▸ hb)
  exact ⟨bBars, ⟨bPair, hbPair, hok⟩, (OrdMap.get?_insert_ne hba).trans hbg⟩

/-- A block with one pair. -/
def singleBlock (blockNumber blockTimestamp : Nat) (pairAddress : Address) : Block PairTicks :=
  ⟨none, blockNumber, blockTimestamp, OrdMap.empty.insert pairAddress (.uniswapV2
    ⟨⟨pairAddress, WETH_ADDRESS, 0⟩, [], ⟨.zero, .zero, .zero, .zero, 0⟩, 0, 0⟩)⟩

/-- Two blocks in different buckets. The second one finalizes the bucket of the first. -/
def twoBuckets : List InsertBlock :=
  [⟨singleBlock 0 5998 1, none, [], [1]⟩, ⟨singleBlock 1 6000 1, some 6000, [1], [1]⟩]

def deepReorg : InsertBlock := ⟨singleBlock 0 5998 1, some 6000, [1], [1]⟩

/-- A failed call keeps the block numbers of the store. Its bars are those of a reorg pruning
that stopped at a pair, or of insertions that did so after a completed reorg pruning. -/
theorem insertBlock_error {call : InsertBlock} {failure : StoreFailure}
    (hadmits : store.Admits call) (h : insert call store = .error failure store') :
    store'.lastInsertedBlockNumber = store.lastInsertedBlockNumber ∧
      store'.lastPrunedAtBlockNumber = store.lastPrunedAtBlockNumber ∧
      ((store.IsReorg call.block.blockNumber ∧ ∃ done a rest, call.storeOrder = done ++ a :: rest ∧
          StoppedAt store store' done a failure.cause (store.ReorgCall call.block.blockNumber)) ∨
        ∃ pruned, Pruned call.block.blockNumber store pruned ∧
          ∃ done a rest, call.blockOrder = done ++ a :: rest ∧
            StoppedAt pruned store' done a failure.cause (pruned.InsertCall call.block
              (store.finalizedTimestamp call.block.blockTimestamp call.finalizedBlockHeader))) := by
  rcases insertBlock_eq_error h with hprune | ⟨pruned, hprune, hinsert⟩
  · obtain ⟨hfields, hstopped⟩ := pruneIfReorged_stoppedAt hadmits.1 hprune
    rw [hfields]
    exact ⟨rfl, rfl, Or.inl ⟨(pruneIfReorged_eq_error hprune).1, hfields ▸ hstopped⟩⟩
  · obtain ⟨hfields, hsame, hreorged⟩ := pruneIfReorged_ok hadmits.1 hprune
    obtain ⟨hfields', hstopped⟩ := insertTicks_stoppedAt hadmits.2 hinsert
    have hall := hfields.trans hfields'
    rw [hall]
    exact ⟨rfl, rfl, Or.inr ⟨pruned, ⟨hfields, hsame, hreorged⟩, hall ▸ hstopped⟩⟩

theorem insertBlock_error_of_deepReorg :
    ∃ store store' : TimePriceBarStore,
      machine.run (new .fiveMinutes 60 false) twoBuckets = some store ∧
      store.lastInsertedBlockNumber = some 1 ∧
      insert deepReorg store = .error ⟨none, .err .pruneIntoFinalized⟩ store' ∧
      store'.lastInsertedBlockNumber = some 1 := by
  obtain ⟨store, hrun⟩ : ∃ store, machine.run (new .fiveMinutes 60 false) twoBuckets = some store :=
    ⟨_, rfl⟩
  obtain ⟨store', herr⟩ : ∃ store',
      insert deepReorg store = .error ⟨none, .err .pruneIntoFinalized⟩ store' := by
    cases hrun
    exact ⟨_, rfl⟩
  have hadmits : store.Admits deepReorg ∧ store.lastInsertedBlockNumber = some 1 := by
    cases hrun
    decide
  exact ⟨store, store', hrun, hadmits.2, herr,
    (insertBlock_error hadmits.1 herr).1.trans hadmits.2⟩

theorem insertBlock_not_allOrNothing :
    ¬∀ (retentionCount : Nat) (isBacktest : Bool) (calls : List InsertBlock)
      (store store' : TimePriceBarStore) (call : InsertBlock) (context : Option Address)
      (e : TimePriceBarsError), machine.run (new .fiveMinutes retentionCount isBacktest) calls =
        some store → store.Admits call → insert call store = .error ⟨context, .err e⟩ store' →
      store'.timePriceBars = store.timePriceBars ∧
        store'.lastInsertedBlockNumber = store.lastInsertedBlockNumber ∧
        store'.lastPrunedAtBlockNumber = store.lastPrunedAtBlockNumber := by
  intro h
  obtain ⟨store, hrun⟩ : ∃ store, machine.run (new .fiveMinutes 60 false) twoBuckets = some store :=
    ⟨_, rfl⟩
  have hadmits : store.Admits deepReorg := by
    cases hrun
    decide
  obtain ⟨store', herr, hsize⟩ : ∃ store',
      insert deepReorg store = .error ⟨none, .err .pruneIntoFinalized⟩ store' ∧
        store'.timePriceBars ≠ store.timePriceBars := by
    cases hrun
    exact ⟨_, rfl, by decide⟩
  exact hsize (h 60 false twoBuckets store store' deepReorg none _ hrun hadmits herr).1

end TimePriceBarStore

end Pochtecatl
