import Pochtecatl.StrategyChart

namespace Pochtecatl

namespace Database

variable {db : Database} {lo hi n : Nat} {before after : List (Block PairTicks)}
  {block : Block PairTicks}

theorem blocksIn_append (hlo : lo ≤ n + 1) (hhi : n ≤ hi) :
    db.blocksIn lo hi = db.blocksIn lo n ++ db.blocksIn (n + 1) hi := by
  have hlength : hi + 1 - lo = (n + 1 - lo) + (hi + 1 - (n + 1)) := by omega
  have hnext : lo + (n + 1 - lo) = n + 1 := by omega
  rw [blocksIn, blocksIn, blocksIn, ← List.filterMap_append, hlength, ← List.range'_append_1, hnext]

/-- The blocks up to one of a range are the blocks of the range up to its number. -/
theorem blocksIn_upto (hblocks : ∀ n, lo ≤ n → n ≤ hi → (db.blocks.get? n).isSome)
    (h : db.blocksIn lo hi = before ++ block :: after) :
    db.blocksIn lo block.blockNumber = before ++ [block] := by
  have hmem : block ∈ db.blocksIn lo hi := by
    rw [h]
    exact List.mem_append_right _ List.mem_cons_self
  obtain ⟨hlo, hhi, -⟩ := mem_blocksIn hmem
  have hafter := blocksIn_after hblocks h
  rw [blocksIn_append (Nat.le_succ_of_le hlo) hhi, ← hafter, List.append_cons] at h
  exact List.append_cancel_right h

end Database

namespace Backtest

variable {ε : Type} {abi : SwapAbi ε} {rpcProvider : RpcProvider ε} {executor : StrategyExecutor}
  {s start : Backtest}

/-- A pair that has bars after a block was swept before that block. -/
theorem SweptAt.split {before earlier later : List BlockRun} {run swept : BlockRun}
    {a : Address} {bars : TimePriceBars}
    (hswept : SweptAt abi rpcProvider executor start earlier swept a)
    (hsplit : before ++ [run] = earlier ++ swept :: later)
    (hrun : (machine abi rpcProvider executor).run start (before ++ [run]) = some s)
    (hbars : s.store.timePriceBars.get? a = some bars) :
    ∃ rest, before = earlier ++ swept :: rest := by
  rcases List.eq_nil_or_concat later with rfl | ⟨rest, last, rfl⟩
  · obtain ⟨u, v, hearlier, hstep, hsweep⟩ := hswept
    rw [hsplit, Machine.run_append_eq_some] at hrun
    obtain ⟨u', hearlier', hlast⟩ := hrun
    cases hearlier.symm.trans hearlier'
    obtain ⟨v', hstep', hnil⟩ := Machine.run_cons_eq_some.mp hlast
    cases hstep.symm.trans hstep'
    cases hnil
    rw [hsweep.2] at hbars
    cases hbars
  · rw [List.concat_eq_append, ← List.cons_append, ← List.append_assoc] at hsplit
    exact ⟨rest, (List.append_inj' hsplit rfl).1⟩

end Backtest

namespace StrategyMain

open Backtest

variable {ρ θ π δ ε : Type} {dex : Dex ρ θ π PairTicks} {abi : SwapAbi ε} {s : StrategyMain ρ π δ ε}
  {scan : List Nat} {id lo hi t₀ : Nat} {db : Database} {execution : Execution ε} {F : Type}

section Shown

variable (abi) (lossyInto : LossyInto F) (db : Database) (scan : List Nat)
  (execution : Execution ε) (startTimestamp : Nat)

/-- The page of the pair up to the block of a trade shows, as its last ticks, the bars on which the
strategy made the trade. It starts with the range, or after a block in which the pair was swept. -/
def ShownIn (openTrade : Option StrategyTrade) (m : StrategyTrade) : Prop :=
  ∃ before run after backtest pair bars startAt ticks,
    execution.runs = before ++ run :: after ∧
    (machine abi execution.rpcProvider execution.executor).run start (before ++ [run]) =
      some backtest ∧
    Made abi execution.rpcProvider execution.executor run backtest.store openTrade m pair bars ∧
    (startAt = startTimestamp ∨ ∃ earlier swept later, before = earlier ++ swept :: later ∧
      SweptAt abi execution.rpcProvider execution.executor start earlier swept pair.address ∧
      startAt = swept.block.blockTimestamp + 1) ∧
    getPriceTicks lossyInto .fiveMinutes m.indexedTrade.pairAddress db scan startAt
      m.blockTimestamp = .ok ticks ∧
    bars.priceTicks lossyInto = ticks.drop (ticks.length - 60)

end Shown

/-- A trade of the execution over the blocks of the database is shown. -/
theorem shownIn_of_madeIn (lossyInto : LossyInto F) {backtest : Backtest} {token : Address}
    {openTrade : Option StrategyTrade} {m : StrategyTrade}
    (hcompletes : execution.Completes abi (db.blocksIn lo hi) backtest)
    (hblocks : ∀ n, lo ≤ n → n ≤ hi → (db.blocks.get? n).isSome) (ht : 5700 ≤ t₀)
    (hclock : db.OnClock t₀) (hscan : db.TimestampOrder scan)
    (hmade : MadeIn abi execution.rpcProvider execution.executor start execution.runs token
      openTrade m) :
    ShownIn abi lossyInto db scan execution (blockTime t₀ lo) openTrade m := by
  obtain ⟨before, run, after, u, pair, bars, hruns, hu, hmade, -⟩ := hmade
  have hsplit := hcompletes.blocks
  rw [hruns, List.map_append, List.map_cons] at hsplit
  have hmem : run.block ∈ db.blocksIn lo hi := by
    rw [← hsplit]
    simp
  obtain ⟨hlo, hhi, row, hrow, hts⟩ := Database.mem_blocksIn hmem
  have hupto : (before ++ [run]).map BlockRun.block = db.blocksIn lo run.block.blockNumber := by
    rw [Database.blocksIn_upto hblocks hsplit.symm, List.map_append, List.map_singleton]
  obtain ⟨startAt, ticks, hstart, hticks, hshown⟩ :=
    priceTicks_of_run lossyInto (fun n hn hn' => hblocks n hn (hn'.trans hhi)) hlo hupto ht hclock
      hscan hu pair.address
  have hbars : u.store.barsOf pair.address = bars := by
    rw [TimePriceBarStore.barsOf, hmade.bars_eq, Option.getD_some]
  have hpair : m.indexedTrade.pairAddress = pair.address :=
    (Pair.traded_of_simulateTradeRequest hmade.simulated).1.symm
  have htime : m.blockTimestamp = blockTime t₀ run.block.blockNumber :=
    hmade.blockTimestamp_eq.trans (hts.trans (hclock _ row hrow).1)
  rw [← hpair, ← htime] at hticks
  rw [hbars] at hshown
  refine ⟨before, run, after, u, pair, bars, startAt, ticks, hruns, hu, hmade, ?_, hticks, hshown⟩
  rcases hstart with hstart | ⟨earlier, swept, later, hlater, hswept, hstartAt⟩
  · exact Or.inl hstart
  · obtain ⟨rest, hbefore⟩ := hswept.split hlater hu hmade.bars_eq
    exact Or.inr ⟨earlier, swept, rest, hbefore, hswept, hstartAt⟩

/-- The page shows on which bars each position of a persisted backtest was opened and closed. -/
theorem closedTrades_shown (lossyInto : LossyInto F) (h : Reachable dex abi s) (ht : 5700 ≤ t₀)
    (hclock : s.db.OnClock t₀) (hscan : s.db.TimestampOrder scan) {row : BacktestRow}
    (hrow : s.db.backtests.get? id = some row) {p : StrategyTrade × StrategyTrade}
    (hp : p ∈ s.db.closedTrades id) :
    ∃ execution startTimestamp endTimestamp, s.executions id = some execution ∧
      s.db.queryBacktestBlockRange id = some (startTimestamp, endTimestamp) ∧
      ShownIn abi lossyInto s.db scan execution.withoutHash startTimestamp none p.1 ∧
      ShownIn abi lossyInto s.db scan execution.withoutHash startTimestamp (some p.1) p.2 := by
  obtain ⟨execution, lo, hi, hexecution, hreplays⟩ := (reachable_inv h).backtests id row hrow
  obtain ⟨backtest, hcompletes, -⟩ := hreplays.completes
  obtain ⟨token, hroundTrip⟩ := hreplays.roundTrip hp
  exact ⟨execution, _, _, hexecution, blockRange_of_replays hreplays hclock hrow,
    shownIn_of_madeIn lossyInto hcompletes hreplays.blocks ht hclock hscan hroundTrip.opened,
    shownIn_of_madeIn lossyInto hcompletes hreplays.blocks ht hclock hscan hroundTrip.closed⟩

theorem closedTrades_shown_openThenClose : ∃ (s : StrategyMain Unit Unit Unit Unit)
    (p : StrategyTrade × StrategyTrade) (execution : Execution Unit),
    s.db.closedTrades 1 = [p] ∧ s.executions 1 = some execution ∧
      ShownIn reservesAbi .raw s.db [1, 2] execution.withoutHash 6000 none p.1 ∧
      ShownIn reservesAbi .raw s.db [1, 2] execution.withoutHash 6000 (some p.1) p.2 := by
  obtain ⟨s, p, hreachable, hclock, hscan, hrow, hclosed, hrange'⟩ := reachable_onClock
  obtain ⟨execution, startTimestamp, endTimestamp, hexecution, hrange, hopened, hclosedOn⟩ :=
    closedTrades_shown .raw hreachable (by decide) hclock hscan hrow (p := p) (by
      rw [hclosed]
      exact List.mem_singleton_self p)
  rw [hrange'] at hrange
  cases hrange
  exact ⟨s, p, execution, hclosed, hexecution, hopened, hclosedOn⟩

end StrategyMain

end Pochtecatl
