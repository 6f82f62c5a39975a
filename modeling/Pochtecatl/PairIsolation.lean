import Pochtecatl.BarsForStrategy

namespace Pochtecatl

namespace TimePriceBarStore

open ResolutionTimestamp

/-- The calls agree but for the ticks of pairs other than `a`, and for the orders in which
the maps are iterated. -/
structure AgreeOn (a : Address) (call call' : InsertBlock) : Prop where
  blockNumber : call'.block.blockNumber = call.block.blockNumber
  blockTimestamp : call'.block.blockTimestamp = call.block.blockTimestamp
  finalizedBlockHeader : call'.finalizedBlockHeader = call.finalizedBlockHeader
  tick : (call'.block.pairTicks.get? a).map PairBlockTick.tick =
    (call.block.pairTicks.get? a).map PairBlockTick.tick

/-- The stores agree but for the bars of pairs other than `a`. -/
structure SameFor (a : Address) (store store' : TimePriceBarStore) : Prop where
  fields : SameFields store store'
  bars : store'.timePriceBars.get? a = store.timePriceBars.get? a

variable {a : Address} {call call' : InsertBlock} {store store' s s' : TimePriceBarStore}
  {order order' : List Address} {n timestamp : Nat} {f : Option Nat}

theorem SameFields.isReorg_iff (h : SameFields store store') (n : Nat) :
    store'.IsReorg n ↔ store.IsReorg n := by
  rw [h]
  rfl

/-- What a pass over changed stores leaves is what it leaves of stores that agree. -/
theorem SameFields.transport (h : SameFields store store') (hs : SameFields store s)
    (hs' : SameFields store' s') : SameFields s s' := by
  rw [SameFields] at h hs hs' ⊢
  rw [hs', h, hs]

theorem SameFor.pruneIfReorged (h : SameFor a store store')
    (ho : store.timePriceBars.IterOrder order) (ho' : store'.timePriceBars.IterOrder order')
    (hok : TimePriceBarStore.pruneIfReorged n order store = .ok () s)
    (hok' : TimePriceBarStore.pruneIfReorged n order' store' = .ok () s') : SameFor a s s' := by
  obtain ⟨hfields, hkept, hpruned⟩ := pruneIfReorged_ok ho hok
  obtain ⟨hfields', hkept', hpruned'⟩ := pruneIfReorged_ok ho' hok'
  refine ⟨h.fields.transport hfields hfields', ?_⟩
  by_cases hreorg : store.IsReorg n
  · obtain ⟨hsome, hnone⟩ := hpruned hreorg a
    obtain ⟨hsome', hnone'⟩ := hpruned' ((h.fields.isReorg_iff n).mpr hreorg) a
    cases hg : store.timePriceBars.get? a with
    | none => rw [hnone hg, hnone' (h.bars.trans hg)]
    | some bars =>
      obtain ⟨pruned, hprune, hget⟩ := hsome bars hg
      obtain ⟨pruned', hprune', hget'⟩ := hsome' bars (h.bars.trans hg)
      rw [hprune] at hprune'
      cases hprune'
      rw [hget, hget']
  · rw [hkept hreorg, hkept' fun hr => hreorg ((h.fields.isReorg_iff n).mp hr)]
    exact h.bars

theorem SameFor.barsOf_eq (h : SameFor a store store') : store'.barsOf a = store.barsOf a := by
  rw [barsOf, barsOf, h.bars, h.fields]

theorem AgreeOn.mem_iff (h : AgreeOn a call call') (ho : call.block.pairTicks.IterOrder order)
    (ho' : call'.block.pairTicks.IterOrder order') : a ∈ order' ↔ a ∈ order := by
  have hsome := congrArg Option.isSome h.tick
  rw [Option.isSome_map, Option.isSome_map] at hsome
  rw [ho.2, ho'.2, hsome]

theorem SameFor.insertTicks (h : SameFor a store store') (hagree : AgreeOn a call call')
    (ho : call.block.pairTicks.IterOrder order) (ho' : call'.block.pairTicks.IterOrder order')
    (hok : TimePriceBarStore.insertTicks call.block f order store = .ok () s)
    (hok' : TimePriceBarStore.insertTicks call'.block f order' store' = .ok () s') :
    SameFor a s s' := by
  have hmem : ∀ (block : Block PairTicks) (order : List Address),
      block.pairTicks.IterOrder order →
        ∀ b ∈ order, ∃ pair, block.pairTicks.get? b = some pair :=
    fun block order ho b hb => Option.isSome_iff_exists.mp ((ho.2 b).mp hb)
  obtain ⟨hfields, hother, hvisited⟩ := insertTicks_ok ho.1 (hmem _ _ ho) hok
  obtain ⟨hfields', hother', hvisited'⟩ := insertTicks_ok ho'.1 (hmem _ _ ho') hok'
  refine ⟨h.fields.transport hfields hfields', ?_⟩
  by_cases ha : a ∈ order
  · obtain ⟨pair, bars, hpair, hinsert, hget⟩ := hvisited a ha
    obtain ⟨pair', bars', hpair', hinsert', hget'⟩ :=
      hvisited' a ((hagree.mem_iff ho ho').mpr ha)
    have htick := hagree.tick
    rw [hpair, hpair', Option.map_some, Option.map_some, Option.some.injEq] at htick
    rw [h.barsOf_eq, hagree.blockNumber, hagree.blockTimestamp, htick, hinsert] at hinsert'
    cases hinsert'
    rw [hget, hget']
  · rw [hother a ha, hother' a fun hm => ha ((hagree.mem_iff ho ho').mp hm)]
    exact h.bars

/-- A completed call of a run left the store that follows. -/
theorem Completes.eq_ok (h : Completes store call s) (hstep : machine.step store call = some s) :
    store.Admits call ∧ TimePriceBarStore.insert call store = .ok () s := by
  obtain ⟨done, hok⟩ := h
  obtain ⟨hadmits, hinsert | ⟨context, e, herr⟩⟩ := machine_step hstep
  · exact ⟨hadmits, hinsert⟩
  · rw [herr] at hok
    cases hok

/-- The sweep reads the counters and the bars of the pair itself. -/
theorem get?_pruneStale_eq (store : TimePriceBarStore) (n timestamp : Nat) (a : Address) :
    (store.pruneStale n timestamp).timePriceBars.get? a =
      if store.SweepDue n then (store.timePriceBars.get? a).filter fun bars =>
        !bars.isStale (fromTimestamp timestamp store.resolution)
      else store.timePriceBars.get? a := by
  by_cases hdue : store.SweepDue n
  · obtain ⟨last, hlast, hlt⟩ := (Option.any_eq_true _ _).mp hdue
    rw [if_pos hdue]
    simp only [pruneStale, hlast, of_decide_eq_true hlt, if_true, OrdMap.get?_filterKeys]
    cases hg : store.timePriceBars.get? a with
    | none => rw [ite_self, Option.filter_none]
    | some bars => rw [Option.any_some, Option.filter_some]
  · rw [if_neg hdue, pruneStale_of_not_due hdue]

theorem SameFields.pruneStale (h : SameFields store store') (n timestamp : Nat) :
    SameFields (store.pruneStale n timestamp) (store'.pruneStale n timestamp) := by
  rw [h]
  unfold TimePriceBarStore.pruneStale
  dsimp only
  split
  next =>
    split
    next => rfl
    next => rfl
  next => rfl

theorem SameFor.pruneStale (h : SameFor a store store') (n timestamp : Nat) :
    SameFor a (store.pruneStale n timestamp) (store'.pruneStale n timestamp) := by
  refine ⟨h.fields.pruneStale n timestamp, ?_⟩
  have hdue : store'.SweepDue n ↔ store.SweepDue n := by
    rw [h.fields]
    rfl
  have hresolution : store'.resolution = store.resolution := by
    rw [h.fields]
  rw [get?_pruneStale_eq, get?_pruneStale_eq, h.bars, hresolution]
  exact if_congr hdue rfl rfl

/-- A call treats the pair alike in stores that agree on it. -/
theorem SameFor.insert (h : SameFor a store store') (hagree : AgreeOn a call call')
    (hadmits : store.Admits call) (hadmits' : store'.Admits call')
    (hok : TimePriceBarStore.insert call store = .ok () s)
    (hok' : TimePriceBarStore.insert call' store' = .ok () s') : SameFor a s s' := by
  obtain ⟨pruned, inserted, hprune, hinsert, hs⟩ := insertBlock_ok hok
  obtain ⟨pruned', inserted', hprune', hinsert', hs'⟩ := insertBlock_ok hok'
  have hfinalized : store'.finalizedTimestamp call'.block.blockTimestamp
      call'.finalizedBlockHeader =
        store.finalizedTimestamp call.block.blockTimestamp call.finalizedBlockHeader := by
    rw [hagree.blockTimestamp, hagree.finalizedBlockHeader, h.fields]
    rfl
  rw [hagree.blockNumber] at hprune'
  rw [hfinalized] at hinsert'
  have hpruned := h.pruneIfReorged hadmits.1 hadmits'.1 hprune hprune'
  have hinserted := hpruned.insertTicks hagree hadmits.2 hadmits'.2 hinsert hinsert'
  have hswept := hinserted.pruneStale call.block.blockNumber call.block.blockTimestamp
  rw [hs, hs', hagree.blockNumber, hagree.blockTimestamp]
  refine ⟨?_, hswept.bars⟩
  have hfields := hswept.fields
  rw [SameFields] at hfields ⊢
  rw [hfields]

/-- After every call the pair is in both stores, with the same bars, or in neither. -/
theorem insertBlock_isolated {res : Resolution} {rc : Nat} {isBacktest : Bool}
    {calls calls' : List InsertBlock} (hagree : List.Forall₂ (AgreeOn a) calls calls')
    (hrun : (machine.run (new res rc isBacktest) calls).isSome)
    (hrun' : (machine.run (new res rc isBacktest) calls').isSome)
    (hok : machine.Along Completes (new res rc isBacktest) calls)
    (hok' : machine.Along Completes (new res rc isBacktest) calls') (n : Nat) :
    ∃ store store', machine.run (new res rc isBacktest) (calls.take n) = some store ∧
      machine.run (new res rc isBacktest) (calls'.take n) = some store' ∧
        store'.timePriceBars.get? a = store.timePriceBars.get? a := by
  obtain ⟨last, hrun⟩ := Option.isSome_iff_exists.mp hrun
  obtain ⟨last', hrun'⟩ := Option.isSome_iff_exists.mp hrun'
  rw [← List.take_append_drop n calls] at hrun hok
  rw [← List.take_append_drop n calls'] at hrun' hok'
  obtain ⟨store, hstore, -⟩ := Machine.run_append_eq_some.mp hrun
  obtain ⟨store', hstore', -⟩ := Machine.run_append_eq_some.mp hrun'
  have hsame : SameFor a store store' := by
    refine Machine.run_related (fun s t call call' s' t' h hcalls hs ht hdone hdone' => ?_)
      (List.forall₂_take n hagree) (Machine.along_of_append hok) (Machine.along_of_append hok')
      hstore hstore' ⟨.refl _, rfl⟩
    obtain ⟨hadmits, hinsert⟩ := hdone.eq_ok hs
    obtain ⟨hadmits', hinsert'⟩ := hdone'.eq_ok ht
    exact h.insert hcalls hadmits hadmits' hinsert hinsert'
  exact ⟨store, store', hstore, hstore', hsame.bars⟩

/-- Pair 1 trades in both blocks, beside pair 2 in one run and pair 3 in the other. -/
theorem insertBlock_isolated_twoRuns : ∃ store store',
    machine.run (new .fiveMinutes 60 true) [⟨singleBlock 0 5998 1, none, [], [1]⟩,
      ⟨pairBlock 1 6000 1 2, none, [1], [2, 1]⟩] = some store ∧
    machine.run (new .fiveMinutes 60 true) [⟨pairBlock 0 5998 1 3, none, [], [1, 3]⟩,
      ⟨singleBlock 1 6000 1, none, [3, 1], [1]⟩] = some store' ∧
    store'.timePriceBars.get? 1 = store.timePriceBars.get? 1 := by
  have hagree : List.Forall₂ (AgreeOn 1) [⟨singleBlock 0 5998 1, none, [], [1]⟩,
      ⟨pairBlock 1 6000 1 2, none, [1], [2, 1]⟩] [⟨pairBlock 0 5998 1 3, none, [], [1, 3]⟩,
        ⟨singleBlock 1 6000 1, none, [3, 1], [1]⟩] :=
    .cons ⟨rfl, rfl, rfl, rfl⟩ (.cons ⟨rfl, rfl, rfl, rfl⟩ .nil)
  have hcompletes : ∀ (first second : InsertBlock),
      (insert first (new .fiveMinutes 60 true)).okState.isSome →
      ((machine.step (new .fiveMinutes 60 true) first).all fun s =>
        (insert second s).okState.isSome) →
      machine.Along Completes (new .fiveMinutes 60 true) [first, second] := by
    intro first second hfirst hsecond s hs
    obtain ⟨s', hs'⟩ := Option.isSome_iff_exists.mp hfirst
    obtain ⟨t, ht⟩ := Option.isSome_iff_exists.mp ((Option.all_eq_true _ _).mp hsecond s hs)
    exact ⟨⟨s', EStateM.Result.okState_eq_some.mp hs'⟩,
      fun u _ => ⟨⟨t, EStateM.Result.okState_eq_some.mp ht⟩, trivial⟩⟩
  exact insertBlock_isolated hagree (by decide +kernel) (by decide +kernel)
    (hcompletes _ _ (by decide +kernel) (by decide +kernel))
    (hcompletes _ _ (by decide +kernel) (by decide +kernel)) 2

end TimePriceBarStore

end Pochtecatl
