import Pochtecatl.BacktestApi
import Pochtecatl.PriceChart

namespace Pochtecatl

namespace Backtest

open TimePriceBarStore

variable {ε : Type} {abi : SwapAbi ε} {rpcProvider : RpcProvider ε} {executor : StrategyExecutor}
  {s t : Backtest} {runs : List BlockRun} {t₀ : Nat} {a : Address} {blocks : List (Block PairTicks)}

/-- The bars of a pair are swept at a block of a run. -/
def SweptAt {ε : Type} (abi : SwapAbi ε) (rpcProvider : RpcProvider ε) (executor : StrategyExecutor)
    (t : Backtest) (before : List BlockRun) (run : BlockRun) (a : Address) : Prop :=
  ∃ u v, (machine abi rpcProvider executor).run t before = some u ∧
    (machine abi rpcProvider executor).step u run = some v ∧ Swept a run.call u.store v.store

/-- From a chart on, the bars of a pair are those of the chart that goes on with the blocks, or of
the chart of the blocks after the last sweep. -/
theorem run_charts_from (ht : 5700 ≤ t₀) (hR : 21 ≤ t.store.retentionCount)
    (hbacktest : t.store.isBacktest)
    (hclock : ∀ run ∈ runs, run.block.blockTimestamp = blockTime t₀ run.block.blockNumber)
    (hblocks : (runs.map fun run => run.block.blockNumber).Pairwise (· < ·))
    (hnext : ∀ run ∈ runs, t.store.nextBlock ≤ run.block.blockNumber)
    (hrun : (machine abi rpcProvider executor).run t runs = some s)
    (h : t.store.Charts t₀ a blocks) :
    s.store.Charts t₀ a (blocks ++ runs.map BlockRun.block) ∨
      ∃ before run after, runs = before ++ run :: after ∧
        SweptAt abi rpcProvider executor t before run a ∧
        s.store.Charts t₀ a (after.map BlockRun.block) := by
  induction runs generalizing t blocks with
  | nil =>
    cases hrun
    rw [List.map_nil, List.append_nil]
    exact Or.inl h
  | cons run runs ih =>
    obtain ⟨u, hstep, hrest⟩ := Machine.run_cons_eq_some.mp hrun
    obtain ⟨hadmits, hinsert, -⟩ := executeStrategyForBlock_eq_some.mp hstep
    obtain ⟨-, hretention, hisBacktest, hnextBlock⟩ := insert_settings hadmits hinsert
    rw [List.map_cons, List.pairwise_cons] at hblocks
    have hih := fun {blocks} => @ih u blocks (hretention ▸ hR) (hisBacktest ▸ hbacktest)
      (fun run' hm => hclock run' (List.mem_cons_of_mem _ hm)) hblocks.2
      (fun run' hm => hnextBlock ▸ hblocks.1 _ (List.mem_map_of_mem hm)) hrest
    have hlater : ∀ {before : List BlockRun} {run' : BlockRun},
        SweptAt abi rpcProvider executor u before run' a →
          SweptAt abi rpcProvider executor t (run :: before) run' a := by
      intro before run' hswept
      obtain ⟨v, w, hbefore, hstep', hsweep⟩ := hswept
      exact ⟨v, w, Machine.run_cons_eq_some.mpr ⟨u, hstep, hbefore⟩, hstep', hsweep⟩
    rcases h.insert ht hR hbacktest (hclock run List.mem_cons_self) hadmits
      (hnext run List.mem_cons_self) hinsert with hcharts | hswept
    · rcases hih hcharts with hlast | ⟨before, run', after, rfl, hsweptAt, hlast⟩
      · rw [List.append_assoc] at hlast
        exact Or.inl hlast
      · exact Or.inr ⟨run :: before, run', after, rfl, hlater hsweptAt, hlast⟩
    · have hnil : u.store.Charts t₀ a [] := charts_nil (hretention ▸ hR) hswept.2
      rcases hih hnil with hlast | ⟨before, run', after, rfl, hsweptAt, hlast⟩
      · exact Or.inr ⟨[], run, runs, rfl, ⟨t, u, rfl, hstep, hswept⟩, hlast⟩
      · exact Or.inr ⟨run :: before, run', after, rfl, hlater hsweptAt, hlast⟩

/-- At any time of a backtest, the bars of a pair are the last ones of the chart of the blocks since
their sweep, or of all blocks. -/
theorem run_charts (ht : 5700 ≤ t₀)
    (hclock : ∀ run ∈ runs, run.block.blockTimestamp = blockTime t₀ run.block.blockNumber)
    (hblocks : (runs.map fun run => run.block.blockNumber).Pairwise (· < ·))
    (hrun : (machine abi rpcProvider executor).run start runs = some s) (a : Address) :
    s.store.Charts t₀ a (runs.map BlockRun.block) ∨
      ∃ before run after, runs = before ++ run :: after ∧
        SweptAt abi rpcProvider executor start before run a ∧
        s.store.Charts t₀ a (after.map BlockRun.block) :=
  run_charts_from ht (by decide : 21 ≤ 60) rfl hclock hblocks (fun _ _ => Nat.zero_le _) hrun
    (charts_nil (by decide : 21 ≤ 60) rfl)

/-- A backtest keeps the settings of its store. -/
theorem run_settings (hrun : (machine abi rpcProvider executor).run t runs = some s) :
    s.store.resolution = t.store.resolution ∧ s.store.retentionCount = t.store.retentionCount := by
  refine Machine.run_invariant (I := fun s => s.store.resolution = t.store.resolution ∧
    s.store.retentionCount = t.store.retentionCount) (fun u run v hu hstep => ?_) hrun ⟨rfl, rfl⟩
  obtain ⟨hadmits, hinsert, -⟩ := executeStrategyForBlock_eq_some.mp hstep
  obtain ⟨hresolution, hretention, -, -⟩ := insert_settings hadmits hinsert
  exact ⟨hresolution.trans hu.1, hretention.trans hu.2⟩

end Backtest

theorem blockTime_le_iff {t₀ n m : Nat} : blockTime t₀ n ≤ blockTime t₀ m ↔ n ≤ m := by
  simp only [blockTime, AVERAGE_BLOCK_TIME_SECONDS]
  omega

theorem blockTime_lt_iff {t₀ n m : Nat} : blockTime t₀ n < blockTime t₀ m ↔ n < m := by
  simp only [blockTime, AVERAGE_BLOCK_TIME_SECONDS]
  omega

namespace Database

variable {db : Database} {lo hi n t₀ : Nat} {before after : List (Block PairTicks)}
  {block : Block PairTicks}

theorem mem_blocksIn (h : block ∈ db.blocksIn lo hi) : lo ≤ block.blockNumber ∧
    block.blockNumber ≤ hi ∧ ∃ row, db.blocks.get? block.blockNumber = some row ∧
      block.blockTimestamp = row.timestamp := by
  obtain ⟨n, hn, hblock⟩ := List.mem_filterMap.mp h
  obtain ⟨row, hrow, rfl⟩ := Option.map_eq_some_iff.mp hblock
  rw [List.mem_range'_1] at hn
  have hle : n ≤ hi := by omega
  exact ⟨hn.1, hle, row, hrow, rfl⟩

theorem blocksIn_cons (hle : lo ≤ hi) {row : BlockRow PairTicks}
    (hrow : db.blocks.get? lo = some row) :
    db.blocksIn lo hi = .ofModel ⟨lo, row.timestamp, row.pairTicks⟩ :: db.blocksIn (lo + 1) hi := by
  have hlength : hi + 1 - lo = (hi + 1 - (lo + 1)) + 1 := by omega
  have hblock : db.blocks.block? lo = some (.ofModel ⟨lo, row.timestamp, row.pairTicks⟩) := by
    rw [BlocksTable.block?, hrow]
    rfl
  rw [blocksIn, hlength, List.range'_succ, List.filterMap_cons, hblock]
  rfl

/-- What comes after a block of a range are the blocks of the rest of the range. -/
theorem blocksIn_after (hblocks : ∀ n, lo ≤ n → n ≤ hi → (db.blocks.get? n).isSome)
    (h : db.blocksIn lo hi = before ++ block :: after) :
    after = db.blocksIn (block.blockNumber + 1) hi := by
  induction before generalizing lo with
  | nil =>
    have hmem : block ∈ db.blocksIn lo hi := by
      rw [h]
      exact List.mem_cons_self
    obtain ⟨hlo, hhi, -⟩ := mem_blocksIn hmem
    obtain ⟨row, hrow⟩ := Option.isSome_iff_exists.mp (hblocks lo (Nat.le_refl _) (by omega))
    rw [blocksIn_cons (by omega) hrow, List.nil_append] at h
    injection h with hblock hafter
    rw [← hblock, ← hafter]
    rfl
  | cons first before ih =>
    have hmem : block ∈ db.blocksIn lo hi := by
      rw [h]
      exact List.mem_append_right _ List.mem_cons_self
    obtain ⟨hlo, hhi, -⟩ := mem_blocksIn hmem
    obtain ⟨row, hrow⟩ := Option.isSome_iff_exists.mp (hblocks lo (Nat.le_refl _) (by omega))
    rw [blocksIn_cons (by omega) hrow, List.cons_append] at h
    injection h with _ hrest
    exact ih (fun n hn hn' => hblocks n (by omega) hn') hrest

end Database

namespace StrategyMain

open Backtest

variable {ρ θ π δ ε : Type} {dex : Dex ρ θ π PairTicks} {abi : SwapAbi ε}
  {s : StrategyMain ρ π δ ε} {scan : List Nat} {id startAt endAt t₀ : Nat} {F : Type}

/-- The chart of a window is the one of its blocks, and the bars of the pair are its last ones. -/
theorem priceTicks_of_charts (lossyInto : LossyInto F) {store : TimePriceBarStore} {a : Address}
    {lo hi : Nat} {db : Database}
    (hresolution : store.resolution = .fiveMinutes) (hretention : store.retentionCount = 60)
    (hcharts : store.Charts t₀ a (db.blocksIn lo hi)) (hscan : db.TimestampOrder scan)
    (hclock : db.OnClock t₀) (hstart : ∀ n, startAt ≤ blockTime t₀ n ↔ lo ≤ n)
    (hend : ∀ n, blockTime t₀ n ≤ endAt ↔ n ≤ hi) (hstartMax : startAt ≤ i64Max)
    (hendMax : endAt ≤ i64Max) :
    ∃ ticks, getPriceTicks lossyInto .fiveMinutes a db scan startAt endAt = .ok ticks ∧
      (store.barsOf a).priceTicks lossyInto = ticks.drop (ticks.length - 60) := by
  obtain ⟨blocks, hquery, hblocks⟩ :=
    Database.queryBlocksByTimestampRange_eq hscan hclock hstart hend hstartMax hendMax
  obtain ⟨chart, passed, hchart, -, hr, -⟩ := hcharts
  rw [hresolution] at hchart
  refine ⟨chart.priceTicks lossyInto, ?_, ?_⟩
  · simp only [getPriceTicks, hquery, hblocks, hchart]
  · have hentries := hr.retains.entries
    simp only [hretention] at hentries
    rw [TimePriceBars.priceTicks, hentries, List.map_drop, TimePriceBars.priceTicks,
      List.length_map]
    rfl

/-- After a run over the blocks of a range the page shows, as its last ticks, the bars of the pair.
After a sweep it shows them from there on. -/
theorem priceTicks_of_run (lossyInto : LossyInto F) {rpcProvider : RpcProvider ε}
    {executor : StrategyExecutor} {runs : List BlockRun} {backtest : Backtest} {lo hi : Nat}
    {db : Database}
    (hblocks : ∀ n, lo ≤ n → n ≤ hi → (db.blocks.get? n).isSome) (hle : lo ≤ hi)
    (hruns : runs.map BlockRun.block = db.blocksIn lo hi) (ht : 5700 ≤ t₀)
    (hclock : db.OnClock t₀) (hscan : db.TimestampOrder scan)
    (hrun : (machine abi rpcProvider executor).run start runs = some backtest) (a : Address) :
    ∃ startAt ticks,
      (startAt = blockTime t₀ lo ∨ ∃ before run after, runs = before ++ run :: after ∧
        SweptAt abi rpcProvider executor start before run a ∧
        startAt = run.block.blockTimestamp + 1) ∧
      getPriceTicks lossyInto .fiveMinutes a db scan startAt (blockTime t₀ hi) = .ok ticks ∧
      (backtest.store.barsOf a).priceTicks lossyInto = ticks.drop (ticks.length - 60) := by
  have hmax : ∀ n, lo ≤ n → n ≤ hi → blockTime t₀ n < i64Max := by
    intro n hn hn'
    obtain ⟨row, hrow⟩ := Option.isSome_iff_exists.mp (hblocks n hn hn')
    obtain ⟨htime, hfits⟩ := hclock n row hrow
    rwa [htime] at hfits
  have htimes : ∀ run ∈ runs, run.block.blockTimestamp = blockTime t₀ run.block.blockNumber ∧
      run.block.blockTimestamp < i64Max := by
    intro run hm
    have hmem : run.block ∈ db.blocksIn lo hi := by
      rw [← hruns]
      exact List.mem_map_of_mem hm
    obtain ⟨-, -, row, hrow, hts⟩ := Database.mem_blocksIn hmem
    rw [hts]
    exact hclock _ row hrow
  have hascending := Database.blocksIn_ascending db lo hi
  rw [← hruns, List.map_map] at hascending
  obtain ⟨hresolution, hretention⟩ := run_settings hrun
  have hendMax := hmax hi hle le_rfl
  rcases run_charts ht (fun run hm => (htimes run hm).1) hascending hrun a with
    hcharts | ⟨before, run, after, hsplit, hswept, hcharts⟩
  · rw [hruns] at hcharts
    obtain ⟨ticks, hticks, hshown⟩ := priceTicks_of_charts lossyInto hresolution hretention hcharts
      hscan hclock (fun _ => blockTime_le_iff) (fun _ => blockTime_le_iff) (hmax lo le_rfl hle).le
      hendMax.le
    exact ⟨_, ticks, Or.inl rfl, hticks, hshown⟩
  · obtain ⟨hrunTime, hrunMax⟩ := htimes run (by simp [hsplit])
    have hafter : after.map BlockRun.block = db.blocksIn (run.block.blockNumber + 1) hi := by
      rw [hsplit, List.map_append, List.map_cons] at hruns
      exact Database.blocksIn_after hblocks hruns.symm
    rw [hafter] at hcharts
    obtain ⟨ticks, hticks, hshown⟩ := priceTicks_of_charts lossyInto hresolution hretention hcharts
      hscan hclock (fun _ => hrunTime ▸ blockTime_lt_iff) (fun _ => blockTime_le_iff) hrunMax
      hendMax.le
    exact ⟨_, ticks, Or.inr ⟨before, run, after, hsplit, hswept, rfl⟩, hticks, hshown⟩

/-- The range of a backtest is from the time of its first block to the one of its last. -/
theorem blockRange_of_replays {db : Database} {row : BacktestRow} {execution : Execution ε}
    {lo hi : Nat} (hreplays : db.Replays abi id row execution lo hi) (hclock : db.OnClock t₀)
    (hrow : db.backtests.get? id = some row) :
    db.queryBacktestBlockRange id = some (blockTime t₀ lo, blockTime t₀ hi) := by
  obtain ⟨startBlock, hstartBlock⟩ := Option.isSome_iff_exists.mp
    (hreplays.blocks lo (Nat.le_refl _) hreplays.lt.le)
  obtain ⟨endBlock, hendBlock⟩ := Option.isSome_iff_exists.mp
    (hreplays.blocks hi hreplays.lt.le (Nat.le_refl _))
  rw [← (hclock lo startBlock hstartBlock).1, ← (hclock hi endBlock hendBlock).1]
  simp [Database.queryBacktestBlockRange, hrow, hreplays.row.1, hreplays.row.2, hstartBlock,
    hendBlock]

/-- Over the range of a backtest the page shows, as its last ticks, the bars that the strategy ends
with. After a sweep it shows them from there on. -/
theorem priceTicks_show_bars (lossyInto : LossyInto F) (h : Reachable dex abi s) (ht : 5700 ≤ t₀)
    (hclock : s.db.OnClock t₀) (hscan : s.db.TimestampOrder scan) {row : BacktestRow}
    (hrow : s.db.backtests.get? id = some row) :
    ∃ execution lo hi backtest startTimestamp endTimestamp,
      s.executions id = some execution ∧ s.db.Replays abi id row execution lo hi ∧
      (machine abi execution.rpcProvider execution.executor).run start
        execution.withoutHash.runs = some backtest ∧
      s.db.queryBacktestBlockRange id = some (startTimestamp, endTimestamp) ∧
      ∀ pairAddress, ∃ startAt ticks,
        (startAt = startTimestamp ∨ ∃ before run after,
          execution.withoutHash.runs = before ++ run :: after ∧
          SweptAt abi execution.rpcProvider execution.executor start before run pairAddress ∧
          startAt = run.block.blockTimestamp + 1) ∧
        getPriceTicks lossyInto .fiveMinutes pairAddress s.db scan startAt endTimestamp =
          .ok ticks ∧
        (backtest.store.barsOf pairAddress).priceTicks lossyInto =
          ticks.drop (ticks.length - 60) := by
  obtain ⟨execution, lo, hi, hexecution, hreplays⟩ := (reachable_inv h).backtests id row hrow
  obtain ⟨backtest, hcompletes, -⟩ := hreplays.completes
  exact ⟨execution, lo, hi, backtest, _, _, hexecution, hreplays, hcompletes.run,
    blockRange_of_replays hreplays hclock hrow,
    priceTicks_of_run lossyInto hreplays.blocks hreplays.lt.le hcompletes.blocks ht hclock hscan
      hcompletes.run⟩

theorem reachable_onClock : ∃ (s : StrategyMain Unit Unit Unit Unit)
    (p : StrategyTrade × StrategyTrade), Reachable onePairDex reservesAbi s ∧
      s.db.OnClock 5998 ∧ s.db.TimestampOrder [1, 2] ∧
      s.db.backtests.get? 1 = some ⟨1, 2, 0⟩ ∧ s.db.closedTrades 1 = [p] ∧
      s.db.queryBacktestBlockRange 1 = some (6000, 6002) := by
  obtain ⟨s, p, hreachable, -, hblocks, hrow, hclosed, -⟩ := reachable_openThenClose
  have hrows : ∀ n row, s.db.blocks.get? n = some row →
      (n = 1 ∧ row.timestamp = 6000) ∨ (n = 2 ∧ row.timestamp = 6002) := by
    intro n row hn
    rw [hblocks] at hn
    have hmem := OrdMap.get?_eq_some_iff.mp hn
    rcases List.mem_cons.mp hmem with he | hmem
    · cases he
      exact Or.inl ⟨rfl, rfl⟩
    · cases List.mem_singleton.mp hmem
      exact Or.inr ⟨rfl, rfl⟩
  have hclock : s.db.OnClock 5998 := by
    intro n row hn
    rcases hrows n row hn with ⟨rfl, hts⟩ | ⟨rfl, hts⟩
    · rw [hts]
      decide
    · rw [hts]
      decide
  have hscan : s.db.TimestampOrder [1, 2] := by
    refine ⟨?_, List.pairwise_pair.mpr fun row row' hn hm => ?_⟩
    · rw [hblocks]
      exact RowTable.iterOrder_rowids openThenCloseBlocks
    · rcases hrows 1 row hn with ⟨-, hts⟩ | ⟨hne, -⟩
      · rcases hrows 2 row' hm with ⟨hne, -⟩ | ⟨-, hts'⟩
        · cases hne
        · rw [hts, hts']
          decide
      · cases hne
  refine ⟨s, p, hreachable, hclock, hscan, hrow, hclosed, ?_⟩
  rw [Database.queryBacktestBlockRange, hrow, hblocks]
  rfl

theorem priceTicks_show_bars_openThenClose : ∃ (s : StrategyMain Unit Unit Unit Unit)
    (backtest : Backtest) (startAt : Nat) (ticks : List (PriceTickResponse Int)),
    getPriceTicks .raw .fiveMinutes 1 s.db [1, 2] startAt 6002 = .ok ticks ∧
      (backtest.store.barsOf 1).priceTicks .raw = ticks.drop (ticks.length - 60) := by
  obtain ⟨s, p, hreachable, hclock, hscan, hrow, -, hrange'⟩ := reachable_onClock
  obtain ⟨execution, lo, hi, backtest, startTimestamp, endTimestamp, -, -, -, hrange, hshows⟩ :=
    priceTicks_show_bars .raw hreachable (by decide) hclock hscan hrow
  rw [hrange'] at hrange
  cases hrange
  obtain ⟨startAt, ticks, -, hticks, hshown⟩ := hshows 1
  exact ⟨s, backtest, startAt, ticks, hticks, hshown⟩

end StrategyMain

end Pochtecatl
