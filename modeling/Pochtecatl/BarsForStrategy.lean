import Pochtecatl.FetchedPairs
import Pochtecatl.StoreInvariants
import Pochtecatl.StrategyExecutor

namespace Pochtecatl

namespace DexProvider

/-- A pair lies under its own address in what `get_pairs` returns. -/
theorem getPairs_keyed {ε : Type} {abi : PairAbi}
    {steps : List (DexStep Address PairInput MulticallResult ε)}
    {provider : DexProvider Address PairInput MulticallResult Pair ε}
    (h : (machine (uniswapPairInput abi)).run new steps = some provider) {id : Nat}
    {call : GetPairs Address PairInput MulticallResult Pair ε} {pairs : List (Address × Pair)}
    (hcall : provider.calls id = some call) (hresult : call.result = some (.ok pairs)) :
    PairsKeyed pairs := by
  have hholds : Holds (uniswapPairInput abi)
      (fun a pair => ∀ p, pair = some p → p.address = a) provider := by
    refine Machine.run_invariant (fun s step s' hs hstep => hs.step hstep ?_) h
      ⟨fun _ => none, new_holdsFor _⟩
    cases step with
    | publish id order =>
      intro call results hcall _ e he p hp
      rw [PairInput.address_of_decode hp]
      exact hs.address_of_mem (inFlight_eq_some.mp hcall).1 he
    | _ => trivial
  obtain ⟨owner, hholds⟩ := hholds
  exact fun e he => (hholds.calls id call hcall).result pairs hresult e.1 e.2 he e.2 rfl

end DexProvider

namespace TimePriceBarStore

open ResolutionTimestamp TimePriceBars

/-- `is_stale` can subtract the last bucket from the timestamp. -/
def EndsBy (timestamp : Nat) (bars : TimePriceBars) : Prop :=
  ∀ lastTs bar, bars.data.lastEntry = some (lastTs, bar) → lastTs ≤ timestamp

instance (timestamp : Nat) (bars : TimePriceBars) : Decidable (EndsBy timestamp bars) :=
  match h : bars.data.lastEntry with
  | none => isTrue fun _ _ hl => by rw [h] at hl; cases hl
  | some (ts, bar) => decidable_of_iff (ts ≤ timestamp) (by simp [EndsBy, h])

section Calls

variable {t₀ : Nat} {call : InsertBlock} {store store' : TimePriceBarStore}

theorem machine_step (h : machine.step store call = some store') :
    store.Admits call ∧ (insert call store = .ok () store' ∨
      ∃ context e, insert call store = .error ⟨context, .err e⟩ store') := by
  simp only [machine] at h
  split at h
  next hadmits =>
    refine ⟨hadmits, ?_⟩
    split at h
    next u s hs =>
      cases h
      exact Or.inl hs
    next context e s hs =>
      cases h
      exact Or.inr ⟨context, e, hs⟩
    next => cases h
  next => cases h

theorem Entries.sound {rc : Nat} {res : Resolution} (h : Entries rc res (Healthy t₀ rc res) store) :
    Sound t₀ store := by
  rw [Sound, h.retentionCount, h.resolution]
  exact h

theorem Entries.step {rc : Nat} {res : Resolution} (h : Entries rc res (Healthy t₀ rc res) store)
    (hstep : machine.step store call = some store') (ht : Timed t₀ call) :
    Entries rc res (Healthy t₀ rc res) store' := by
  have hkept := insert_keeps ht (new_healthy t₀ rc res)
    (fun bars n hb => hb.pruneToReorgedBlockNumber n)
    (fun bars d f hb => hb.insertData call.block.blockNumber d f) store h
  rcases (machine_step hstep).2 with hok | ⟨context, e, herr⟩
  · rwa [hok] at hkept
  · rwa [herr] at hkept

/-- The call returns `Ok`. -/
def Completes (store : TimePriceBarStore) (call : InsertBlock) (_ : TimePriceBarStore) : Prop :=
  ∃ store', insert call store = .ok () store'

theorem NoneAhead.step (hs : Sound t₀ store) (h : NoneAhead t₀ store)
    (hstep : machine.step store call = some store') (ht : Timed t₀ call)
    (hc : 2 ≤ store.retentionCount ∨ Completes store call store') : NoneAhead t₀ store' := by
  obtain ⟨hadmits, hok | ⟨context, e, herr⟩⟩ := machine_step hstep
  · exact h.insert_ok hs ht hadmits hok
  · rcases hc with hrc | ⟨s, hok⟩
    · exact h.insert_error hs ht hadmits hrc herr
    · rw [herr] at hok
      cases hok

/-- The bars of a pair of the block after a completed pass over its ticks. -/
theorem Sound.insertTicks_bars {pruned inserted : TimePriceBarStore} {f : Option Nat}
    (hs : Sound t₀ pruned) (ht : Timed t₀ call)
    (ho : call.block.pairTicks.IterOrder call.blockOrder)
    (hinsert : insertTicks call.block f call.blockOrder pruned = .ok () inserted)
    {a : Address} {tick : PairBlockTick} (ha : call.block.pairTicks.get? a = some tick) :
    ∃ bars bar, inserted.timePriceBars.get? a = some bars ∧
      bars.data.get? (blockBucket t₀ pruned.resolution call.block.blockNumber) = some bar ∧
      bar.data.isSome ∧ bar.indicators.isSome ∧ bars.retentionCount = some pruned.retentionCount ∧
      bars.data.size ≤ pruned.retentionCount := by
  have hmem : a ∈ call.blockOrder := (ho.2 a).mpr (by rw [ha]; rfl)
  obtain ⟨-, -, hvisited⟩ := insertTicks_ok ho.1
    (fun b hb => Option.isSome_iff_exists.mp ((ho.2 b).mp hb)) hinsert
  obtain ⟨pair, bars, -, hok, hg⟩ := hvisited a hmem
  rw [show call.block.blockTimestamp = _ from ht] at hok
  have hb : Healthy t₀ pruned.retentionCount pruned.resolution (pruned.barsOf a) :=
    hs.barsOf (new_healthy t₀ _ _) a
  have hb' := hb.insertData call.block.blockNumber pair.tick f
  rw [hok] at hb'
  obtain ⟨bar, hbar, hind⟩ := insertData_ok_indicators hb.indicatorsConfig hok
  rw [hb.resolution] at hbar
  exact ⟨bars, bar, hg, hbar, (hb'.sound _ bar hbar).data_isSome, hind, hb'.retentionCount,
    insertData_ok_size hb.retentionCount hok⟩

/-- A block that `build_many` makes with the pairs of a `get_pairs` call. -/
def Built (block : Block PairTicks) : Prop :=
  ∃ (ρ ε : Type) (abi : PairAbi) (fromLogs : List (RpcLog ρ) → List IndexedTrade)
    (steps : List (DexStep Address PairInput MulticallResult ε))
    (provider : DexProvider Address PairInput MulticallResult Pair ε) (id : Nat)
    (call : GetPairs Address PairInput MulticallResult Pair ε) (pairs : List (Address × Pair))
    (builders : List (BlockBuilder IndexedTrade)) (blocks : List (Block PairTicks)),
    (DexProvider.machine (uniswapPairInput abi)).run .new steps = some provider ∧
      provider.calls id = some call ∧ call.result = some (.ok pairs) ∧
      BlockBuilder.buildMany (ε := ε) (uniswapDex fromLogs) builders (.ok pairs) = .ok blocks ∧
      block ∈ blocks

theorem Built.keyed {block : Block PairTicks} (h : Built block) : block.pairTicks.Keyed := by
  obtain ⟨ρ, ε, abi, fromLogs, steps, provider, id, call, pairs, builders, blocks, hrun, hcall,
    hresult, hbuild, hmem⟩ := h
  exact (DexProvider.getPairs_keyed hrun hcall hresult).buildMany hbuild block hmem

/-- The sweep runs. -/
def SweepDue (store : TimePriceBarStore) (blockNumber : Nat) : Prop :=
  store.lastPrunedAtBlockNumber.any fun last =>
    last + store.resolution.offset / AVERAGE_BLOCK_TIME_SECONDS < blockNumber

instance (store : TimePriceBarStore) (blockNumber : Nat) : Decidable (store.SweepDue blockNumber) :=
  inferInstanceAs (Decidable (_ = true))

theorem pruneStale_of_not_due {n : Nat} (h : ¬store.SweepDue n) (timestamp : Nat) :
    (store.pruneStale n timestamp).timePriceBars = store.timePriceBars := by
  unfold pruneStale
  split
  next last hlast =>
    split
    next hlt =>
      refine absurd ?_ h
      rw [SweepDue, hlast, Option.any_some]
      exact decide_eq_true hlt
    next => rfl
  next => rfl

/-- What the sweep of the call finds, if there is one. -/
def swept (store : TimePriceBarStore) (call : InsertBlock) : Option TimePriceBarStore := do
  let pruned ← (pruneIfReorged call.block.blockNumber call.storeOrder store).okState
  let inserted ← (insertTicks call.block
    (store.finalizedTimestamp call.block.blockTimestamp call.finalizedBlockHeader)
    call.blockOrder pruned).okState
  if inserted.SweepDue call.block.blockNumber then some inserted else none

theorem swept_eq_some {inserted : TimePriceBarStore} (h : store.swept call = some inserted) :
    ∃ pruned, pruneIfReorged call.block.blockNumber call.storeOrder store = .ok () pruned ∧
      insertTicks call.block
        (store.finalizedTimestamp call.block.blockTimestamp call.finalizedBlockHeader)
        call.blockOrder pruned = .ok () inserted := by
  obtain ⟨pruned, hprune, h⟩ := Option.bind_eq_some_iff.mp h
  obtain ⟨inserted', hinsert, h⟩ := Option.bind_eq_some_iff.mp h
  split at h
  next =>
    cases h
    exact ⟨pruned, EStateM.Result.okState_eq_some.mp hprune,
      EStateM.Result.okState_eq_some.mp hinsert⟩
  next => cases h

/-- With one bar at most a pair of the block ends in its bucket, and so it does when it is not
ahead of the block. -/
theorem lastTs_eq {rc key lastTs : Nat} {bars : TimePriceBars} {bar lastBar : TimePriceBar}
    (hbar : bars.data.get? key = some bar) (hsize : bars.data.size ≤ rc)
    (hkeys : 2 ≤ rc → KeysUpTo key bars)
    (hlast : bars.data.lastEntry = some (lastTs, lastBar)) : lastTs = key := by
  obtain ⟨hget, hmax⟩ := OrdMap.lastEntry_eq_some_iff.mp hlast
  by_cases hrc : 2 ≤ rc
  · exact le_antisymm (hkeys hrc lastTs lastBar hget) (hmax key bar hbar)
  · exact OrdMap.eq_of_size_le_one (by omega) hget hbar

/-- Bars that end in the bucket of the block are not stale. -/
theorem not_isStale {bars : TimePriceBars} {rc key : Nat} (hrc : bars.retentionCount = some rc)
    {bar : TimePriceBar} (hbar : bars.data.get? key = some bar)
    (hlast : ∀ lastTs lastBar, bars.data.lastEntry = some (lastTs, lastBar) → lastTs = key) :
    bars.isStale key = false := by
  unfold isStale
  rw [hrc]
  dsimp only
  cases hl : bars.data.lastEntry with
  | none =>
    rw [OrdMap.lastEntry_eq_none_iff.mp hl key] at hbar
    cases hbar
  | some e =>
    have hkey : e.1 = key := hlast e.1 e.2 hl
    have hzero : wrappingSub key e.1 = 0 := by
      rw [hkey, wrappingSub_of_le le_rfl, Nat.sub_self]
    simp [hzero]

theorem get?_pruneStale {n timestamp : Nat} {a : Address} {bars : TimePriceBars}
    (hg : store.timePriceBars.get? a = some bars)
    (hstale : bars.isStale (fromTimestamp timestamp store.resolution) = false) :
    (store.pruneStale n timestamp).timePriceBars.get? a = some bars := by
  unfold pruneStale
  split
  next =>
    split
    next =>
      simp only [OrdMap.get?_filterKeys, hg]
      simp [hstale]
    next => exact hg
  next => exact hg

theorem Entries.inserted {rc : Nat} {res : Resolution} {pruned inserted : TimePriceBarStore}
    {f : Option Nat} (hs : Entries rc res (Healthy t₀ rc res) store) (ht : Timed t₀ call)
    (hprune : pruneIfReorged call.block.blockNumber call.storeOrder store = .ok () pruned)
    (hinsert : insertTicks call.block f call.blockOrder pruned = .ok () inserted) :
    Entries rc res (Healthy t₀ rc res) pruned ∧ Entries rc res (Healthy t₀ rc res) inserted := by
  have hpruned := @pruneIfReorged_keeps rc res _ call.block.blockNumber call.storeOrder
    (fun bars (hb : Healthy t₀ rc res bars) => hb.pruneToReorgedBlockNumber _) store hs
  rw [hprune] at hpruned
  have hinserted := @insertTicks_keeps _ _ _ call.blockOrder call.block f (new_healthy t₀ rc res)
    (fun bars d hb => by
      rw [show call.block.blockTimestamp = _ from ht]
      exact hb.insertData call.block.blockNumber d f) pruned hpruned
  rw [hinsert] at hinserted
  exact ⟨hpruned, hinserted⟩

/-- The bars that a call finds in its sweep for a pair of its block. -/
theorem Entries.block_bars {rc : Nat} {res : Resolution} {pruned inserted : TimePriceBarStore}
    {f : Option Nat} (hs : Entries rc res (Healthy t₀ rc res) store)
    (hahead : 2 ≤ rc → NoneAhead t₀ store) (ht : Timed t₀ call) (hadmits : store.Admits call)
    (hprune : pruneIfReorged call.block.blockNumber call.storeOrder store = .ok () pruned)
    (hinsert : insertTicks call.block f call.blockOrder pruned = .ok () inserted)
    {a : Address} {tick : PairBlockTick} (ha : call.block.pairTicks.get? a = some tick) :
    ∃ bars bar, inserted.timePriceBars.get? a = some bars ∧
      bars.data.get? (fromTimestamp call.block.blockTimestamp res) = some bar ∧
      bar.data.isSome ∧ bar.indicators.isSome ∧ bars.retentionCount = some rc ∧
      ∀ lastTs lastBar, bars.data.lastEntry = some (lastTs, lastBar) →
        lastTs = fromTimestamp call.block.blockTimestamp res := by
  obtain ⟨hkept, -⟩ := hs.inserted ht hprune hinsert
  obtain ⟨bars, bar, hg, hbar, hdata, hind, hrc, hsize⟩ :=
    hkept.sound.insertTicks_bars ht hadmits.2 hinsert ha
  have hbucket : blockBucket t₀ pruned.resolution call.block.blockNumber =
      fromTimestamp call.block.blockTimestamp res := by
    rw [blockBucket, hkept.resolution, show call.block.blockTimestamp = _ from ht]
  rw [hbucket] at hbar
  rw [hkept.retentionCount] at hrc hsize
  refine ⟨bars, bar, hg, hbar, hdata, hind, hrc, fun lastTs lastBar hlast =>
    lastTs_eq hbar hsize (fun h2 => ?_) hlast⟩
  have hinserted := (hahead h2).insertTicks hs.sound ht hadmits.1 hprune hinsert
  have hkeys := (hinserted.bars a bars hg).2
  rwa [hs.resolution, blockBucket, ← show call.block.blockTimestamp = _ from ht] at hkeys

end Calls

section Runs

variable {t₀ rc : Nat} {res : Resolution} {isBacktest : Bool} {calls : List InsertBlock}
  {store : TimePriceBarStore}

theorem run_healthy (hrun : machine.run (new res rc isBacktest) calls = some store)
    (ht : ∀ c ∈ calls, Timed t₀ c) : Entries rc res (Healthy t₀ rc res) store :=
  Machine.run_invariant_along (P := fun _ c _ => Timed t₀ c) (fun _ _ _ h hstep ht => h.step hstep ht)
    (Machine.along_of_forall fun c hc _ _ => ht c hc) hrun (new_sound t₀ res rc isBacktest)

/-- No pair is ahead while two bars are retained or every call completes. -/
theorem run_noneAhead (hrun : machine.run (new res rc isBacktest) calls = some store)
    (ht : ∀ c ∈ calls, Timed t₀ c)
    (hc : 2 ≤ rc ∨ machine.Along Completes (new res rc isBacktest) calls) :
    NoneAhead t₀ store := by
  have htimed : machine.Along (fun _ c _ => Timed t₀ c) (new res rc isBacktest) calls :=
    Machine.along_of_forall fun c hc _ _ => ht c hc
  have hcompletes : machine.Along (fun s c s' => 2 ≤ rc ∨ Completes s c s')
      (new res rc isBacktest) calls := by
    rcases hc with hrc | hc
    · exact Machine.along_of_forall fun _ _ _ _ => .inl hrc
    · exact Machine.along_imp (fun _ _ _ hc => .inr hc) hc
  have hinv : Entries rc res (Healthy t₀ rc res) store ∧ NoneAhead t₀ store := by
    refine Machine.run_invariant_along (I := fun s => Entries rc res (Healthy t₀ rc res) s ∧
      NoneAhead t₀ s) (fun s c s' h hstep hp => ?_) (Machine.along_and htimed hcompletes) hrun
      ⟨new_sound t₀ res rc isBacktest, new_noneAhead t₀ res rc isBacktest⟩
    obtain ⟨hs, hahead⟩ := h
    refine ⟨hs.step hstep hp.1, hahead.step hs.sound hstep hp.1 ?_⟩
    rw [hs.retentionCount]
    exact hp.2
  exact hinv.2

/-- A call that returns `Ok` leaves bars with data and indicators for every pair of its block,
so the strategy finds them. Its sweep subtracts from no larger bucket than its own in the bars
of these pairs, nor in those of other pairs when two bars are retained or no call failed. -/
theorem insertBlock_barsForStrategy {call : InsertBlock} {store' : TimePriceBarStore}
    (hrun : machine.run (new res rc isBacktest) calls = some store)
    (ht : ∀ c ∈ calls, Timed t₀ c) (htc : Timed t₀ call) (hadmits : store.Admits call)
    (hok : insert call store = .ok () store') :
    (∀ a tick, call.block.pairTicks.get? a = some tick → ∃ bars bar,
      store'.timePriceBars.get? a = some bars ∧
        bars.data.get? (fromTimestamp call.block.blockTimestamp res) = some bar ∧
        bar.data.isSome ∧ bar.indicators.isSome) ∧
      (∀ inserted, store.swept call = some inserted → ∀ a bars,
        inserted.timePriceBars.get? a = some bars →
        (call.block.pairTicks.get? a).isSome ∨ 2 ≤ rc ∨
          machine.Along Completes (new res rc isBacktest) calls →
        EndsBy (fromTimestamp call.block.blockTimestamp res) bars) ∧
      (Built call.block → call.block.pairTicks.Keyed ∧
        ∀ (executor : StrategyExecutor) trades order, call.block.pairTicks.IterOrder order →
          executor.tradeRequests (.ofBlock call.block order) store' trades ≠ none) := by
  have hs := run_healthy hrun ht
  have hahead : 2 ≤ rc → NoneAhead t₀ store := fun hrc => run_noneAhead hrun ht (.inl hrc)
  obtain ⟨pruned, inserted, hprune, hinsert, hstore'⟩ := insertBlock_ok hok
  have hbars : ∀ a tick, call.block.pairTicks.get? a = some tick → ∃ bars bar,
      store'.timePriceBars.get? a = some bars ∧
        bars.data.get? (fromTimestamp call.block.blockTimestamp res) = some bar ∧
        bar.data.isSome ∧ bar.indicators.isSome := by
    intro a tick ha
    obtain ⟨bars, bar, hg, hbar, hdata, hind, hrc, hlast⟩ :=
      hs.block_bars hahead htc hadmits hprune hinsert ha
    have hresolution : inserted.resolution = res :=
      (hs.inserted htc hprune hinsert).2.resolution
    refine ⟨bars, bar, ?_, hbar, hdata, hind⟩
    rw [hstore']
    refine get?_pruneStale hg ?_
    rw [hresolution]
    exact not_isStale hrc hbar hlast
  refine ⟨hbars, fun swept hsweep a bars hg hcases lastTs lastBar hlast => ?_, fun hbuilt =>
    ⟨hbuilt.keyed, fun executor trades order ho => ?_⟩⟩
  · obtain ⟨pruned', hprune', hinsert'⟩ := swept_eq_some hsweep
    rcases hcases with hblock | hc
    · obtain ⟨tick, ha⟩ := Option.isSome_iff_exists.mp hblock
      obtain ⟨bars', -, hg', -, -, -, -, hends⟩ :=
        hs.block_bars hahead htc hadmits hprune' hinsert' ha
      cases hg.symm.trans hg'
      exact (hends lastTs lastBar hlast).le
    · have hswept := (run_noneAhead hrun ht hc).insertTicks hs.sound htc hadmits.1 hprune' hinsert'
      have hkeys := (hswept.bars a bars hg).2
      rw [hs.resolution, blockBucket, ← show call.block.blockTimestamp = _ from htc] at hkeys
      exact hkeys lastTs lastBar (OrdMap.lastEntry_eq_some_iff.mp hlast).1
  · refine executor.tradeRequests_ne_none fun pair hm => ?_
    obtain ⟨a, -, hpair⟩ := List.mem_filterMap.mp hm
    obtain ⟨tick, ha, rfl⟩ := Option.map_eq_some_iff.mp hpair
    obtain ⟨bars, -, hg, -⟩ := hbars a tick ha
    rw [hbuilt.keyed a tick ha, hg]
    rfl

end Runs

theorem insertBlock_barsForStrategy_singleBlock :
    ∃ store store' bars bar,
      machine.run (new .fiveMinutes 60 true) [⟨singleBlock 0 5998 1, none, [], [1]⟩] = some store ∧
        insert ⟨singleBlock 1 6000 1, none, [1], [1]⟩ store = .ok () store' ∧
        store'.timePriceBars.get? 1 = some bars ∧ bars.data.get? 6000 = some bar ∧
        bar.data.isSome ∧ bar.indicators.isSome := by
  obtain ⟨store, hrun⟩ : ∃ store, machine.run (new .fiveMinutes 60 true)
      [⟨singleBlock 0 5998 1, none, [], [1]⟩] = some store := ⟨_, rfl⟩
  obtain ⟨store', hok⟩ : ∃ store',
      insert ⟨singleBlock 1 6000 1, none, [1], [1]⟩ store = .ok () store' := by
    cases hrun
    exact ⟨_, rfl⟩
  have hadmits : store.Admits ⟨singleBlock 1 6000 1, none, [1], [1]⟩ := by
    cases hrun
    decide
  have htimed : ∀ c ∈ [(⟨singleBlock 0 5998 1, none, [], [1]⟩ : InsertBlock)], Timed 5998 c := by
    decide
  have ht : Timed 5998 ⟨singleBlock 1 6000 1, none, [1], [1]⟩ := by decide
  obtain ⟨bars, bar, hg, hbar, hdata, hind⟩ :=
    (insertBlock_barsForStrategy hrun htimed ht hadmits hok).1 1 _ rfl
  exact ⟨store, store', bars, bar, hrun, hok, hg, hbar, hdata, hind⟩

/-- A block with two pairs. -/
def pairBlock (blockNumber blockTimestamp : Nat) (a b : Address) : Block PairTicks :=
  ⟨none, blockNumber, blockTimestamp, OrdMap.insert (singleBlock blockNumber blockTimestamp a).pairTicks
    b (.uniswapV2 ⟨⟨b, WETH_ADDRESS, 0⟩, [], ⟨.zero, .zero, .zero, .zero, 0⟩, 0, 0⟩)⟩

/-- The second call fails at pair 2, after it inserted the bar of pair 1. -/
def failedBlock : List InsertBlock :=
  [⟨singleBlock 0 5998 2, none, [], [2]⟩, ⟨pairBlock 301 6600 1 2, none, [2], [1, 2]⟩]

/-- A block with a lower number than the one that failed. -/
def lateBlock : InsertBlock := ⟨singleBlock 151 6300 3, none, [1, 2], [3]⟩

/-- With one retained bar the sweep of a later call finds pair 1 ahead of its block. -/
theorem insertBlock_not_barsForStrategy :
    ¬∀ (t₀ rc : Nat) (isBacktest : Bool) (calls : List InsertBlock) (call : InsertBlock)
      (store store' inserted : TimePriceBarStore), 5700 ≤ t₀ → 1 ≤ rc →
      machine.run (new .fiveMinutes rc isBacktest) calls = some store →
      (∀ c ∈ calls, Timed t₀ c) → Timed t₀ call → store.Admits call →
      insert call store = .ok () store' → store.swept call = some inserted →
      ∀ a bars, inserted.timePriceBars.get? a = some bars →
        EndsBy (fromTimestamp call.block.blockTimestamp .fiveMinutes) bars := by
  intro h
  have hcheck : (machine.run (new .fiveMinutes 1 true) failedBlock).any (fun store =>
      store.Admits lateBlock && (insert lateBlock store).okState.isSome &&
        (store.swept lateBlock).any fun inserted =>
          (inserted.timePriceBars.get? 1).any fun bars => !EndsBy 6300 bars) := by
    decide +kernel
  obtain ⟨store, hrun, hcheck⟩ := (Option.any_eq_true _ _).mp hcheck
  simp only [Bool.and_eq_true, decide_eq_true_eq, Option.any_eq_true, Bool.not_eq_true',
    decide_eq_false_iff_not] at hcheck
  obtain ⟨⟨hadmits, hok⟩, inserted, hswept, bars, hg, hends⟩ := hcheck
  obtain ⟨store', hok⟩ := Option.isSome_iff_exists.mp hok
  exact hends (h 5998 1 true failedBlock lateBlock store store' inserted (by decide) le_rfl hrun
    (by decide) (by decide) hadmits (EStateM.Result.okState_eq_some.mp hok) hswept 1 bars hg)

end TimePriceBarStore

end Pochtecatl
