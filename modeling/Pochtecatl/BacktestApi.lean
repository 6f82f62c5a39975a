import Pochtecatl.BuildPanics
import Pochtecatl.ListMapM
import Pochtecatl.StrategyMain

namespace Pochtecatl

open ResolutionTimestamp

/-! The routes of the api, on the database of the strategy program. -/

structure ListBacktestPairsResponse where
  pairs : List (Address × Nat)
  backtestStartAt : Nat
  backtestEndAt : Nat
  deriving DecidableEq

/-- `none` is the error of a block range without a row. -/
def listBacktestPairs (db : Database) (scan : List Nat) (backtestId : Nat) :
    Option ListBacktestPairsResponse :=
  let pairs := db.queryBacktestPairs scan backtestId
  (db.queryBacktestBlockRange backtestId).map fun (startTimestamp, endTimestamp) =>
    ⟨pairs, startTimestamp, endTimestamp⟩

def WETH_DECIMALS_FACTOR : U256 := 1000000000000000000

structure TradeTickResponse (F : Type) where
  closesTxHash : Option Nat
  txHash : Nat
  resolutionTs : Nat
  ts : Nat
  executionPrice : F
  executionAmount : F
  gasFeeAmount : F
  deriving DecidableEq

section Ticks

variable {F : Type} (lossyInto : LossyInto F)

/-- `none` is a panic in the price. -/
def TradeTickResponse.ofTradeMetadata (value : StrategyTrade) (resolution : Resolution) :
    Option (TradeTickResponse F) := do
  let executionPrice ← value.indexedTrade.tokenPriceAfter value.tokenAddress
  let executionAmount ← u32f96FromU256Frac (value.indexedTrade.wethVolume value.tokenAddress)
    WETH_DECIMALS_FACTOR
  let gasFeeAmount ← u32f96FromU256Frac (.ofNat 256 value.gasFee) WETH_DECIMALS_FACTOR
  pure {
    closesTxHash := match value.op with
      | .close _ openTradeTxHash => some openTradeTxHash
      | .open_ => none
    txHash := value.txHash
    resolutionTs := fromTimestamp value.blockTimestamp resolution
    ts := value.blockTimestamp
    executionPrice := lossyInto.ofU32F96 executionPrice
    executionAmount := lossyInto.ofU32F96 executionAmount
    gasFeeAmount := lossyInto.ofU32F96 gasFeeAmount }

/-- The ticks of a row, the open trade first. -/
def getTrades (db : Database) (scan : List Nat) (backtestId : Nat) (pairAddress : Address)
    (startAt endAt : Nat) (resolution : Resolution) : Option (List (TradeTickResponse F)) :=
  (db.queryClosedTrades scan backtestId pairAddress startAt endAt).foldlM (fun acc trade => do
    let openTrade ← TradeTickResponse.ofTradeMetadata lossyInto trade.openTradeMetadata resolution
    let closeTrade ←
      TradeTickResponse.ofTradeMetadata lossyInto trade.closeTradeMetadata resolution
    pure (acc ++ [openTrade, closeTrade])) []

end Ticks

/-- A timestamp in a window, as the database compares them. -/
def InWindow (startAt endAt ts : Nat) : Prop :=
  U64.toSql startAt ≤ U64.toSql ts ∧ U64.toSql ts ≤ U64.toSql endAt

instance (startAt endAt ts : Nat) : Decidable (InWindow startAt endAt ts) :=
  inferInstanceAs (Decidable (_ ∧ _))

section Ticks

variable {F : Type} (lossyInto : LossyInto F)

/-- The ticks of an open and a close trade. -/
def tradeTicks (resolution : Resolution) (p : StrategyTrade × StrategyTrade) :
    Option (TradeTickResponse F × TradeTickResponse F) := do
  let openTrade ← TradeTickResponse.ofTradeMetadata lossyInto p.1 resolution
  let closeTrade ← TradeTickResponse.ofTradeMetadata lossyInto p.2 resolution
  pure (openTrade, closeTrade)

theorem getTrades_eq (db : Database) (scan : List Nat) (id : Nat) (pairAddress : Address)
    (startAt endAt : Nat) (resolution : Resolution) :
    getTrades lossyInto db scan id pairAddress startAt endAt resolution =
      (((db.queryClosedTrades scan id pairAddress startAt endAt).map ClosedTradeRow.trades).mapM
        (tradeTicks lossyInto resolution)).map (·.flatMap fun t => [t.1, t.2]) := by
  have hfold : ∀ (rows : List ClosedTradeRow) (acc : List (TradeTickResponse F)),
      rows.foldlM (fun acc trade => do
        let openTrade ←
          TradeTickResponse.ofTradeMetadata lossyInto trade.openTradeMetadata resolution
        let closeTrade ←
          TradeTickResponse.ofTradeMetadata lossyInto trade.closeTradeMetadata resolution
        pure (acc ++ [openTrade, closeTrade])) acc =
      ((rows.map ClosedTradeRow.trades).mapM (tradeTicks lossyInto resolution)).map
        fun ticks => acc ++ ticks.flatMap fun t => [t.1, t.2] := by
    intro rows
    induction rows with
    | nil => intro acc; simp
    | cons row rows ih =>
      intro acc
      rw [List.foldlM_cons, List.map_cons, List.mapM_cons, ClosedTradeRow.trades, tradeTicks]
      cases TradeTickResponse.ofTradeMetadata lossyInto row.openTradeMetadata resolution with
      | none => rfl
      | some openTick =>
        cases TradeTickResponse.ofTradeMetadata lossyInto row.closeTradeMetadata resolution with
        | none => rfl
        | some closeTick =>
          refine (ih (acc ++ [openTick, closeTick])).trans ?_
          cases (rows.map ClosedTradeRow.trades).mapM (tradeTicks lossyInto resolution) with
          | none => rfl
          | some ticks => simp
  rw [getTrades, hfold]
  simp

/-- A trade without a price is what the ticks panic on. -/
theorem TradeTickResponse.ofTradeMetadata_eq_none_iff (resolution : Resolution)
    {value : StrategyTrade} : ofTradeMetadata lossyInto value resolution = none ↔
      value.indexedTrade.NoPriceAfter value.tokenAddress := by
  have hfrac : ∀ numerator, ∃ fraction,
      u32f96FromU256Frac numerator WETH_DECIMALS_FACTOR = some fraction := by
    intro numerator
    refine Option.ne_none_iff_exists'.mp fun hnone => ?_
    exact absurd (u32f96FromU256Frac_eq_none_iff.mp hnone) (by decide)
  obtain ⟨amount, hamount⟩ := hfrac (value.indexedTrade.wethVolume value.tokenAddress)
  obtain ⟨fee, hfee⟩ := hfrac (.ofNat 256 value.gasFee)
  rw [← IndexedTrade.tokenPriceAfter_eq_none_iff, ofTradeMetadata, hamount, hfee]
  cases value.indexedTrade.tokenPriceAfter value.tokenAddress with
  | none => exact Iff.intro (fun _ => rfl) fun _ => rfl
  | some price => exact Iff.intro (fun h => by cases h) fun h => by cases h

theorem tradeTicks_eq_none_iff {resolution : Resolution} {p : StrategyTrade × StrategyTrade} :
    tradeTicks lossyInto resolution p = none ↔ p.1.indexedTrade.NoPriceAfter p.1.tokenAddress ∨
      p.2.indexedTrade.NoPriceAfter p.2.tokenAddress := by
  rw [← TradeTickResponse.ofTradeMetadata_eq_none_iff lossyInto resolution,
    ← TradeTickResponse.ofTradeMetadata_eq_none_iff lossyInto resolution, tradeTicks]
  cases TradeTickResponse.ofTradeMetadata lossyInto p.1 resolution with
  | none => simp
  | some openTick =>
    cases TradeTickResponse.ofTradeMetadata lossyInto p.2 resolution with
    | none => simp
    | some closeTick => simp

variable {lossyInto}

end Ticks

namespace Database

variable {db db' : Database} {scan : List Nat} {id : Nat} {pairAddress : Address}
  {startAt endAt : Nat}

/-- The trades that `getTrades` answers. -/
def tradesOfPair (db : Database) (id : Nat) (pairAddress : Address) (startAt endAt : Nat) :
    List (StrategyTrade × StrategyTrade) :=
  (db.closedTrades id).filter fun p =>
    p.2.indexedTrade.pairAddress = pairAddress ∧ InWindow startAt endAt p.2.blockTimestamp

theorem queryClosedTrades_perm (id : Nat) (pairAddress : Address) (startAt endAt : Nat)
    (hscan : db.backtestClosedTrades.IterOrder scan)
    (hrows : db.RowsNew) :
    ((db.queryClosedTrades scan id pairAddress startAt endAt).map ClosedTradeRow.trades).Perm
      (db.tradesOfPair id pairAddress startAt endAt) := by
  refine ((RowTable.select_perm hscan _).map ClosedTradeRow.trades).trans (.of_eq ?_)
  unfold tradesOfPair closedTrades
  rw [List.filter_map, List.filter_filter]
  congr 1
  refine List.filter_congr fun row hrow => ?_
  have hnew := hrows row hrow
  rw [hnew, Bool.eq_iff_iff]
  simp only [Function.comp_apply, Bool.and_eq_true, decide_eq_true_iff]
  unfold InWindow
  constructor
  · rintro ⟨⟨⟨hid, hpair⟩, hstart⟩, hend⟩
    exact ⟨⟨hpair, hstart, hend⟩, hid⟩
  · rintro ⟨⟨hpair, hstart, hend⟩, hid⟩
    exact ⟨⟨⟨hid, hpair⟩, hstart⟩, hend⟩

theorem queryBacktestPairs_perm (id : Nat) (hscan : db.backtestClosedTrades.IterOrder scan)
    (hrows : db.RowsNew) :
    (db.queryBacktestPairs scan id).Perm
      (RowTable.groupCount ((db.closedTrades id).map fun p => p.2.indexedTrade.pairAddress)) := by
  refine RowTable.groupCount_perm ?_
  have hperm := (RowTable.select_perm hscan fun row => decide (row.backtestId = id)).map
    ClosedTradeRow.pairAddress
  rw [List.map_map] at hperm
  refine hperm.trans (.of_eq ?_)
  rw [closedTrades, List.map_map]
  refine List.map_congr_left fun row hrow => ?_
  rw [hrows row (List.mem_filter.mp hrow).1]
  rfl

theorem blockNumber_of_block? {blocks : BlocksTable PairTicks} {n : Nat} {block : Block PairTicks}
    (h : blocks.block? n = some block) : block.blockNumber = n := by
  obtain ⟨row, -, rfl⟩ := Option.map_eq_some_iff.mp h
  rfl

theorem blocksIn_ascending (db : Database) (lo hi : Nat) :
    ((db.blocksIn lo hi).map (·.blockNumber)).Pairwise (· < ·) := by
  refine List.pairwise_map.mpr ((List.pairwise_lt_range' 1).filterMap _ ?_)
  intro n m hlt block hblock block' hblock'
  rw [blockNumber_of_block? hblock, blockNumber_of_block? hblock']
  exact hlt

section Replays

open Backtest

variable {ε : Type} {abi : SwapAbi ε} {row : BacktestRow} {execution : Execution ε}
  {startBlockNumber endBlockNumber : Nat} {p : StrategyTrade × StrategyTrade}

/-- A closed trade of the database is a position that the strategy opened and closed. -/
theorem Replays.roundTrip (h : db.Replays abi id row execution startBlockNumber endBlockNumber)
    (hp : p ∈ db.closedTrades id) : ∃ token,
      RoundTrip abi execution.rpcProvider execution.executor start execution.withoutHash.runs token
        p.1 p.2 := by
  obtain ⟨s, hcompletes, hclosed⟩ := h.completes
  rw [hclosed] at hp
  obtain ⟨token, -, hp⟩ := List.mem_flatMap.mp hp
  have hascending := blocksIn_ascending db startBlockNumber endBlockNumber
  rw [← hcompletes.blocks, List.map_map] at hascending
  exact ⟨token, (run_history (fun _ => rfl) hascending hcompletes.run token).closed p hp⟩

theorem Replays.op_eq (h : db.Replays abi id row execution startBlockNumber endBlockNumber)
    (hp : p ∈ db.closedTrades id) :
    p.1.op = .open_ ∧ p.2.op = .close p.1.indexedTrade p.1.txHash := by
  obtain ⟨token, ⟨_, _, _, _, _, _, -, -, hopened, -⟩, ⟨_, _, _, _, _, _, -, -, hclosed, -⟩, -⟩ :=
    h.roundTrip hp
  exact ⟨hopened.op_eq, hclosed.op_eq⟩

end Replays

end Database

namespace StrategyMain

variable {ρ θ π δ ε : Type} {dex : Dex ρ θ π PairTicks} {abi : SwapAbi ε}
  {s s' : StrategyMain ρ π δ ε} {scan scan' : List Nat} {id startAt endAt : Nat}
  {pairAddress : Address} {resolution : Resolution} {response : ListBacktestPairsResponse}
  {F : Type} {lossyInto : LossyInto F}

/-- The block range of a backtest is found once it is persisted. -/
theorem Inv.queryBacktestBlockRange_isSome (h : s.Inv abi) :
    (s.db.queryBacktestBlockRange id).isSome ↔ (s.db.backtests.get? id).isSome := by
  unfold Database.queryBacktestBlockRange
  cases hrow : s.db.backtests.get? id with
  | none => exact Iff.rfl
  | some row =>
    obtain ⟨execution, startBlockNumber, endBlockNumber, -, hreplays⟩ := h.backtests id row hrow
    obtain ⟨startBlock, hstart⟩ := Option.isSome_iff_exists.mp
      (hreplays.blocks startBlockNumber (Nat.le_refl _) hreplays.lt.le)
    obtain ⟨endBlock, hend⟩ := Option.isSome_iff_exists.mp
      (hreplays.blocks endBlockNumber hreplays.lt.le (Nat.le_refl _))
    simp [hreplays.row.1, hreplays.row.2, hstart, hend]

theorem mem_pairs_iff (h : s.Inv abi) (hscan : s.db.backtestClosedTrades.IterOrder scan)
    {n : Nat} : (pairAddress, n) ∈ s.db.queryBacktestPairs scan id ↔ 0 < n ∧
      n = ((s.db.closedTrades id).filter fun p =>
        p.2.indexedTrade.pairAddress = pairAddress).length := by
  have hcount : ((s.db.closedTrades id).map fun p => p.2.indexedTrade.pairAddress).count pairAddress =
      ((s.db.closedTrades id).filter fun p =>
        p.2.indexedTrade.pairAddress = pairAddress).length := by
    rw [List.count, List.countP_map, List.countP_eq_length_filter]
    rfl
  rw [(Database.queryBacktestPairs_perm id hscan h.rows).mem_iff, RowTable.mem_groupCount, hcount,
    ← List.count_pos_iff, hcount]
  constructor
  · rintro ⟨hpos, rfl⟩
    exact ⟨hpos, rfl⟩
  · rintro ⟨hpos, rfl⟩
    exact ⟨hpos, rfl⟩

/-- The pairs of a backtest are listed once it is persisted: each of them once, with the number of
its closed trades. -/
theorem listBacktestPairs_answers (h : Reachable dex abi s)
    (hscan : s.db.backtestClosedTrades.IterOrder scan) (id : Nat) :
    ((listBacktestPairs s.db scan id).isSome ↔ (s.db.backtests.get? id).isSome) ∧
      ∀ response, listBacktestPairs s.db scan id = some response →
        (response.pairs.map Prod.fst).Nodup ∧
        (response.pairs.map Prod.snd).sum = (s.db.closedTrades id).length ∧
        ∀ pairAddress n, (pairAddress, n) ∈ response.pairs ↔ 0 < n ∧
          n = ((s.db.closedTrades id).filter fun p =>
            p.2.indexedTrade.pairAddress = pairAddress).length := by
  have hinv := reachable_inv h
  refine ⟨?_, fun response hresponse => ?_⟩
  · rw [← hinv.queryBacktestBlockRange_isSome, listBacktestPairs, Option.isSome_map]
  · obtain ⟨range, -, rfl⟩ := Option.map_eq_some_iff.mp hresponse
    have hperm := Database.queryBacktestPairs_perm id hscan hinv.rows
    refine ⟨RowTable.groupCount_nodup _, ?_, fun pairAddress n => mem_pairs_iff hinv hscan⟩
    calc ((s.db.queryBacktestPairs scan id).map Prod.snd).sum
        = ((RowTable.groupCount ((s.db.closedTrades id).map fun p =>
            p.2.indexedTrade.pairAddress)).map Prod.snd).sum := (hperm.map Prod.snd).sum_eq
      _ = (s.db.closedTrades id).length := by rw [RowTable.sum_groupCount, List.length_map]

/-- Any closed trade of the database closes what its open trade opened. -/
theorem Inv.op_eq (h : s.Inv abi) {p : StrategyTrade × StrategyTrade}
    (hp : p ∈ s.db.closedTrades id) :
    p.1.op = .open_ ∧ p.2.op = .close p.1.indexedTrade p.1.txHash := by
  obtain ⟨row, hrow, -⟩ := List.mem_map.mp hp
  obtain ⟨hrow, hid⟩ := List.mem_filter.mp hrow
  obtain ⟨backtestRow, hbacktest⟩ := Option.isSome_iff_exists.mp (h.closedTrades row hrow)
  rw [of_decide_eq_true hid] at hbacktest
  obtain ⟨execution, startBlockNumber, endBlockNumber, -, hreplays⟩ :=
    h.backtests id backtestRow hbacktest
  exact hreplays.op_eq hp

/-- The route panics on a trade of the pair that left the pool without a price. -/
theorem getTrades_eq_none_iff (h : s.Inv abi)
    (hscan : s.db.backtestClosedTrades.IterOrder scan) :
    getTrades lossyInto s.db scan id pairAddress startAt endAt resolution = none ↔
      ∃ p ∈ s.db.tradesOfPair id pairAddress startAt endAt,
        p.1.indexedTrade.NoPriceAfter p.1.tokenAddress ∨
          p.2.indexedTrade.NoPriceAfter p.2.tokenAddress := by
  have hperm := Database.queryClosedTrades_perm id pairAddress
    startAt endAt hscan h.rows
  rw [getTrades_eq, Option.map_eq_none_iff, List.mapM_option_eq_none_iff]
  refine exists_congr fun p => ?_
  rw [hperm.mem_iff, tradeTicks_eq_none_iff]

/-- The routes answer the same of a persisted backtest, whatever invocations follow. -/
theorem answers_persist (h : Reachable dex abi s)
    (hsteps : Relation.ReflTransGen (Step dex abi) s s')
    (hscan : s.db.backtestClosedTrades.IterOrder scan)
    (hscan' : s'.db.backtestClosedTrades.IterOrder scan') (hid : (s.db.backtests.get? id).isSome)
    (lossyInto : LossyInto F) (pairAddress : Address) (startAt endAt : Nat)
    (resolution : Resolution) :
    Option.Rel (fun response response' : ListBacktestPairsResponse =>
        response.pairs.Perm response'.pairs ∧
          response.backtestStartAt = response'.backtestStartAt ∧
          response.backtestEndAt = response'.backtestEndAt)
      (listBacktestPairs s.db scan id) (listBacktestPairs s'.db scan' id) ∧
    Option.Rel List.Perm (getTrades lossyInto s.db scan id pairAddress startAt endAt resolution)
      (getTrades lossyInto s'.db scan' id pairAddress startAt endAt resolution) := by
  have hinv := reachable_inv h
  have hinv' := reachable_inv (h.trans hsteps)
  have hext := reachable_extends h hsteps
  have hclosed := hext.closedTrades id hid
  constructor
  · have hpairs := Database.queryBacktestPairs_perm id hscan hinv.rows
    have hpairs' := Database.queryBacktestPairs_perm id hscan' hinv'.rows
    rw [hclosed] at hpairs'
    obtain ⟨range, hrange⟩ :=
      Option.isSome_iff_exists.mp (hinv.queryBacktestBlockRange_isSome.mpr hid)
    have hrange' := hext.queryBacktestBlockRange hrange
    rw [listBacktestPairs, listBacktestPairs, hrange, hrange']
    exact .some ⟨hpairs.trans hpairs'.symm, rfl, rfl⟩
  · have htrades := Database.queryClosedTrades_perm id pairAddress
      startAt endAt hscan hinv.rows
    have htrades' := Database.queryClosedTrades_perm id pairAddress
      startAt endAt hscan' hinv'.rows
    have hsame : s'.db.tradesOfPair id pairAddress startAt endAt =
        s.db.tradesOfPair id pairAddress startAt endAt := by
      rw [Database.tradesOfPair, Database.tradesOfPair, hclosed]
    rw [hsame] at htrades'
    rw [getTrades_eq, getTrades_eq]
    have hrel := (htrades.trans htrades'.symm).mapM_option (tradeTicks lossyInto resolution)
    generalize List.mapM (tradeTicks lossyInto resolution) _ = linked at hrel
    generalize List.mapM (tradeTicks lossyInto resolution) _ = linked' at hrel
    cases hrel with
    | none => exact .none
    | some hperm => exact .some (hperm.flatMap_right _)

/-- Each persisted backtest is listed once, with the range it can be repeated for, and its pairs are
found. -/
theorem listBacktests_answers (h : Reachable dex abi s) (hscan : s.db.backtests.IterOrder scan)
    (tradesScan : List Nat) :
    ((s.db.queryBacktests scan).map BacktestModel.id).Nodup ∧
    (∀ id, id ∈ (s.db.queryBacktests scan).map BacktestModel.id ↔
      (s.db.backtests.get? id).isSome) ∧
    ∀ backtest ∈ s.db.queryBacktests scan, ∃ row execution,
      s.db.backtests.get? backtest.id = some row ∧
      s.executions backtest.id = some execution ∧
      s.db.Replays abi backtest.id row execution backtest.startBlockNumber
        backtest.endBlockNumber ∧
      (listBacktestPairs s.db tradesScan backtest.id).isSome := by
  have hinv := reachable_inv h
  have hids : (s.db.queryBacktests scan).map BacktestModel.id = scan := by
    rw [Database.queryBacktests, List.map_map]
    exact RowTable.select_rowids hscan
  refine ⟨hids.symm ▸ hscan.1, fun id => ?_, fun backtest hmem => ?_⟩
  · rw [hids]
    exact hscan.2 id
  · obtain ⟨⟨id, row⟩, hselected, rfl⟩ := List.mem_map.mp hmem
    obtain ⟨_, -, hsome⟩ := List.mem_filterMap.mp hselected
    obtain ⟨_, hrow, he⟩ := Option.map_eq_some_iff.mp hsome
    cases he
    replace hrow : s.db.backtests.get? id = some row := (Option.filter_eq_some_iff.mp hrow).1
    obtain ⟨execution, lo, hi, hexecution, hreplays⟩ := hinv.backtests id row hrow
    obtain ⟨hlo, hhi⟩ := hreplays.row
    refine ⟨row, execution, hrow, hexecution, ?_, ?_⟩
    · show s.db.Replays abi id row execution (U64.columnResult row.startBlockNumber)
        (U64.columnResult row.endBlockNumber)
      rw [hlo, hhi]
      exact hreplays
    · rw [listBacktestPairs, Option.isSome_map]
      exact hinv.queryBacktestBlockRange_isSome.mpr (Option.isSome_of_eq_some hrow)

section Example

open Backtest

theorem listBacktests_answers_openThenClose : ∃ (s : StrategyMain Unit Unit Unit Unit)
    (scan : List Nat), 1 ∈ (s.db.queryBacktests scan).map BacktestModel.id := by
  obtain ⟨s, p, hreachable, -, -, hrow, -⟩ := reachable_openThenClose
  obtain ⟨-, hlisted, -⟩ :=
    listBacktests_answers hreachable (RowTable.iterOrder_rowids s.db.backtests) []
  exact ⟨s, _, (hlisted 1).mpr (Option.isSome_of_eq_some hrow)⟩

theorem listBacktestPairs_answers_openThenClose : ∃ (s : StrategyMain Unit Unit Unit Unit)
    (scan : List Nat) (response : ListBacktestPairsResponse),
    listBacktestPairs s.db scan 1 = some response ∧ (response.pairs.map Prod.snd).sum = 1 := by
  obtain ⟨s, p, hreachable, -, -, hrow, hclosed, -⟩ := reachable_openThenClose
  obtain ⟨hsome, hanswer⟩ :=
    listBacktestPairs_answers hreachable (RowTable.iterOrder_rowids s.db.backtestClosedTrades) 1
  obtain ⟨response, hresponse⟩ :=
    Option.isSome_iff_exists.mp (hsome.mpr (Option.isSome_of_eq_some hrow))
  obtain ⟨-, hsum, -⟩ := hanswer response hresponse
  rw [hclosed] at hsum
  exact ⟨s, _, response, hresponse, hsum⟩

/-- The pair is listed, and its trades are shown. -/
theorem listed_openThenClose : ∃ (s : StrategyMain Unit Unit Unit Unit) (scan : List Nat)
    (response : ListBacktestPairsResponse) (ticks : List (TradeTickResponse Int)),
    Reachable onePairDex reservesAbi s ∧ s.indexer = none ∧
      s.db.backtestClosedTrades.IterOrder scan ∧ (s.db.backtests.get? 1).isSome ∧
      s.db.blocks = openThenCloseBlocks ∧ listBacktestPairs s.db scan 1 = some response ∧
      response.backtestEndAt = 6002 ∧ (1, 1) ∈ response.pairs ∧
      getTrades .raw s.db scan 1 1 response.backtestStartAt response.backtestEndAt .fiveMinutes =
        some ticks := by
  obtain ⟨s, p, hreachable, hindexer, hblocks, hrow, hclosed, hpair, hopen, hclose⟩ :=
    reachable_openThenClose
  have hinv := reachable_inv hreachable
  have hscan := RowTable.iterOrder_rowids s.db.backtestClosedTrades
  have hrange : s.db.queryBacktestBlockRange 1 = some (6000, 6002) := by
    rw [Database.queryBacktestBlockRange, hrow, hblocks]
    rfl
  have hlisted : (1, 1) ∈ s.db.queryBacktestPairs (s.db.backtestClosedTrades.entries.map Prod.fst) 1 := by
    rw [mem_pairs_iff hinv hscan, hclosed]
    simp [hpair]
  obtain ⟨ticks, hticks⟩ : ∃ ticks, getTrades .raw s.db
      (s.db.backtestClosedTrades.entries.map Prod.fst) 1 1 6000 6002 .fiveMinutes = some ticks := by
    refine Option.ne_none_iff_exists'.mp fun hnone => ?_
    obtain ⟨q, hq, hprice⟩ := (getTrades_eq_none_iff hinv hscan).mp hnone
    have hm := (List.mem_filter.mp hq).1
    rw [hclosed] at hm
    rw [List.mem_singleton.mp hm, ← IndexedTrade.tokenPriceAfter_eq_none_iff,
      ← IndexedTrade.tokenPriceAfter_eq_none_iff] at hprice
    rcases hprice with hprice | hprice
    · rw [hprice] at hopen
      cases hopen
    · rw [hprice] at hclose
      cases hclose
  refine ⟨s, _, ⟨_, 6000, 6002⟩, ticks, hreachable, hindexer, hscan,
    Option.isSome_of_eq_some hrow, hblocks, ?_, rfl, hlisted, hticks⟩
  rw [listBacktestPairs, hrange]
  rfl

theorem answers_persist_openThenClose : ∃ s s' : StrategyMain Unit Unit Unit Unit,
    Relation.ReflTransGen (Step onePairDex reservesAbi) s s' ∧ s'.indexer.isSome ∧
      ∃ scan scan', (listBacktestPairs s.db scan 1).isSome ∧
        Option.Rel List.Perm (getTrades .raw s.db scan 1 1 6000 6002 .fiveMinutes)
          (getTrades .raw s'.db scan' 1 1 6000 6002 .fiveMinutes) := by
  obtain ⟨s, scan, response, ticks, hreachable, hindexer, hscan, hid, -, hresponse, -⟩ :=
    listed_openThenClose
  have hsteps : Relation.ReflTransGen (Step onePairDex reservesAbi) s
      { s with indexer := some (.new s.db.blocks 2 3) } :=
    .single (.start (some "2") (some "3") hindexer rfl)
  have hsame := answers_persist hreachable hsteps hscan hscan hid .raw 1 6000 6002 .fiveMinutes
  refine ⟨s, _, hsteps, rfl, scan, scan, ?_, hsame.2⟩
  rw [hresponse]
  rfl

end Example

end StrategyMain

end Pochtecatl
