import Pochtecatl.Rerun
import Pochtecatl.RowTable
import Pochtecatl.StrategyExecutor

namespace Pochtecatl

/-! The database has no unsigned integers. A u64 wraps around in a BIGINT column. -/

namespace U64

def toSql (u : Nat) : Int := (BitVec.ofNat 64 u).toInt

def columnResult (v : Int) : Nat := (BitVec.ofInt 64 v).toNat

variable {u v : Nat}

theorem columnResult_toSql (h : u < 2 ^ 64) : columnResult (toSql u) = u := by
  rw [columnResult, toSql, BitVec.ofInt_toInt, BitVec.toNat_ofNat, Nat.mod_eq_of_lt h]

theorem toSql_of_le (h : u ≤ i64Max) : toSql u = u := by
  have hlt : u < 2 ^ 63 := Nat.lt_of_le_of_lt h (by decide)
  have hnat : (BitVec.ofNat 64 u).toNat = u := by
    rw [BitVec.toNat_ofNat, Nat.mod_eq_of_lt (by omega)]
  rw [toSql, BitVec.toInt_eq_toNat_of_lt (by omega), hnat]

end U64

/-- The columns of the backtests table next to its primary key. -/
structure BacktestRow where
  startBlockNumber : Int
  endBlockNumber : Int
  createdAt : Int
  deriving DecidableEq

structure BacktestModel where
  id : Nat
  createdAt : Nat
  startBlockNumber : Nat
  endBlockNumber : Nat
  deriving DecidableEq

structure NewBacktestModel where
  createdAt : Nat
  startBlockNumber : Nat
  endBlockNumber : Nat

/-- The columns of the closed trades next to their primary key. The metadata is what its JSON
was made from. -/
structure ClosedTradeRow where
  backtestId : Nat
  pairAddress : Address
  closeTradeBlockTimestamp : Int
  openTradeMetadata : StrategyTrade
  closeTradeMetadata : StrategyTrade

structure Database where
  blocks : BlocksTable PairTicks
  backtests : RowTable BacktestRow
  backtestClosedTrades : RowTable ClosedTradeRow

def NewBacktestModel.row (backtest : NewBacktestModel) : BacktestRow :=
  ⟨U64.toSql backtest.startBlockNumber, U64.toSql backtest.endBlockNumber,
    U64.toSql backtest.createdAt⟩

def BacktestModel.ofRow (id : Nat) (row : BacktestRow) : BacktestModel :=
  ⟨id, U64.columnResult row.createdAt, U64.columnResult row.startBlockNumber,
    U64.columnResult row.endBlockNumber⟩

/-- `NewBacktestClosedTradeModel::new`, for an open and a close trade. -/
def ClosedTradeRow.new (backtestId : Nat) (trades : StrategyTrade × StrategyTrade) :
    ClosedTradeRow where
  backtestId := backtestId
  pairAddress := trades.2.indexedTrade.pairAddress
  closeTradeBlockTimestamp := U64.toSql trades.2.blockTimestamp
  openTradeMetadata := trades.1
  closeTradeMetadata := trades.2

def ClosedTradeRow.trades (row : ClosedTradeRow) : StrategyTrade × StrategyTrade :=
  (row.openTradeMetadata, row.closeTradeMetadata)

/-- An order in which the values of the map may be iterated. A token without closed trades adds
nothing, whether it is in the map or not. -/
def Trades.IterOrder (trades : Trades Address StrategyTrade) (tokens : List Address) : Prop :=
  tokens.Nodup ∧ ∀ token, (trades.view token).closed ≠ [] → token ∈ tokens

/-- The closed trades of the tokens, in the order in which they are iterated. -/
def Trades.closedTrades (trades : Trades Address StrategyTrade) (tokens : List Address) :
    List (StrategyTrade × StrategyTrade) :=
  tokens.flatMap fun token => (trades.view token).closed

namespace Database

/-- The database after its migrations. -/
def empty : Database := ⟨.empty, .empty, .empty⟩

/-- `NewBacktestModel::insert`, with the rowid it returns. -/
def insertBacktest (db : Database) (backtest : NewBacktestModel) : Nat × Database :=
  (db.backtests.nextRowid, { db with backtests := db.backtests.append backtest.row })

def insertBacktestClosedTrades (db : Database) (backtestId : Nat)
    (trades : Trades Address StrategyTrade) (tokens : List Address) : Database :=
  { db with
    backtestClosedTrades := db.backtestClosedTrades.appendAll
      ((trades.closedTrades tokens).map (.new backtestId)) }

/-- The transaction that persists a backtest. -/
def persistBacktest (db : Database) (backtest : NewBacktestModel)
    (trades : Trades Address StrategyTrade) (tokens : List Address) : Database :=
  let (backtestId, db) := db.insertBacktest backtest
  db.insertBacktestClosedTrades backtestId trades tokens

/-- `BacktestModel::query_all`. A query without an order scans its table in any. -/
def queryBacktests (db : Database) (scan : List Nat) : List BacktestModel :=
  (db.backtests.select scan fun _ => true).map fun (id, row) => .ofRow id row

def queryClosedTrades (db : Database) (scan : List Nat) (backtestId : Nat) (pairAddress : Address)
    (startTimestamp endTimestamp : Nat) : List ClosedTradeRow :=
  (db.backtestClosedTrades.select scan fun row =>
    row.backtestId = backtestId && row.pairAddress = pairAddress &&
      U64.toSql startTimestamp ≤ row.closeTradeBlockTimestamp &&
      row.closeTradeBlockTimestamp ≤ U64.toSql endTimestamp).map Prod.snd

/-- `BacktestPairQuery::query_by_backtest_id`: the pairs with their numbers of trades. -/
def queryBacktestPairs (db : Database) (scan : List Nat) (backtestId : Nat) :
    List (Address × Nat) :=
  RowTable.groupCount ((db.backtestClosedTrades.select scan fun row =>
    row.backtestId = backtestId).map fun (_, row) => row.pairAddress)

/-- `BacktestBlockRangeQuery::query_by_backtest_id`: the timestamps of the first and the last
block, when the join has a row. -/
def queryBacktestBlockRange (db : Database) (backtestId : Nat) : Option (Nat × Nat) := do
  let row ← db.backtests.get? backtestId
  let startBlock ← db.blocks.get? (U64.columnResult row.startBlockNumber)
  let endBlock ← db.blocks.get? (U64.columnResult row.endBlockNumber)
  pure (startBlock.timestamp, endBlock.timestamp)

/-- The closed trades of a backtest in the order of their rowids. -/
def closedTrades (db : Database) (backtestId : Nat) : List (StrategyTrade × StrategyTrade) :=
  (db.backtestClosedTrades.values.filter (·.backtestId = backtestId)).map ClosedTradeRow.trades

/-- A row has the address and the timestamp of its close trade. -/
def RowsNew (db : Database) : Prop :=
  ∀ row ∈ db.backtestClosedTrades.values, row = .new row.backtestId row.trades

/-- The blocks of a range, as the database has them. -/
def blocksIn (db : Database) (lo hi : Nat) : List (Block PairTicks) :=
  (List.range' lo (hi + 1 - lo)).filterMap db.blocks.block?

/-- What is in the database stays there as it is. -/
structure Extends (db db' : Database) : Prop where
  blocks : ∀ n row, db.blocks.get? n = some row → db'.blocks.get? n = some row
  backtests : ∀ id row, db.backtests.get? id = some row → db'.backtests.get? id = some row
  closedTrades : ∀ id, (db.backtests.get? id).isSome → db'.closedTrades id = db.closedTrades id

variable {db db' db'' : Database} {backtest : NewBacktestModel}
  {trades : Trades Address StrategyTrade} {tokens : List Address} {id : Nat}

theorem Extends.refl (db : Database) : db.Extends db := ⟨fun _ _ h => h, fun _ _ h => h, fun _ _ => rfl⟩

theorem Extends.trans (h : db.Extends db') (h' : db'.Extends db'') : db.Extends db'' where
  blocks := fun n row hrow => h'.blocks n row (h.blocks n row hrow)
  backtests := fun id row hrow => h'.backtests id row (h.backtests id row hrow)
  closedTrades := fun id hid => by
    obtain ⟨row, hrow⟩ := Option.isSome_iff_exists.mp hid
    rw [h'.closedTrades id (Option.isSome_of_eq_some (h.backtests id row hrow)),
      h.closedTrades id hid]

/-- The new rows are those of the new backtest. -/
theorem closedTrades_persistBacktest (id : Nat) :
    (db.persistBacktest backtest trades tokens).closedTrades id =
      db.closedTrades id ++ if id = db.backtests.nextRowid then trades.closedTrades tokens else [] := by
  unfold closedTrades persistBacktest insertBacktest insertBacktestClosedTrades
  rw [RowTable.values_appendAll, List.filter_append, List.map_append]
  congr 1
  rw [List.filter_map, List.map_map]
  split
  next hid =>
    have hall : (trades.closedTrades tokens).filter
        ((fun row : ClosedTradeRow => decide (row.backtestId = id)) ∘
          ClosedTradeRow.new db.backtests.nextRowid) = trades.closedTrades tokens :=
      List.filter_eq_self.mpr fun _ _ => decide_eq_true hid.symm
    rw [hall]
    exact List.map_id _
  next hid =>
    have hnone : (trades.closedTrades tokens).filter
        ((fun row : ClosedTradeRow => decide (row.backtestId = id)) ∘
          ClosedTradeRow.new db.backtests.nextRowid) = [] :=
      List.filter_eq_nil_iff.mpr fun _ _ hm => hid (of_decide_eq_true hm).symm
    rw [hnone]
    rfl

theorem persistBacktest_extends : db.Extends (db.persistBacktest backtest trades tokens) where
  blocks := fun _ _ h => h
  backtests := fun _ _ h => RowTable.get?_append_of_some h
  closedTrades := fun id hid => by
    obtain ⟨row, hrow⟩ := Option.isSome_iff_exists.mp hid
    have hlt := RowTable.lt_nextRowid hrow
    rw [closedTrades_persistBacktest, if_neg (by omega), List.append_nil]

theorem Extends.blocksIn_eq (h : db.Extends db') {lo hi : Nat}
    (hblocks : ∀ n, lo ≤ n → n ≤ hi → (db.blocks.get? n).isSome) :
    db'.blocksIn lo hi = db.blocksIn lo hi := by
  refine List.filterMap_congr fun n hn => ?_
  rw [List.mem_range'_1] at hn
  obtain ⟨row, hrow⟩ := Option.isSome_iff_exists.mp (hblocks n hn.1 (by omega))
  rw [BlocksTable.block?, BlocksTable.block?, hrow, h.blocks n row hrow]

theorem Extends.queryBacktestBlockRange (h : db.Extends db') {range : Nat × Nat}
    (hrange : db.queryBacktestBlockRange id = some range) :
    db'.queryBacktestBlockRange id = some range := by
  unfold Database.queryBacktestBlockRange at hrange ⊢
  simp only [Option.bind_eq_bind, Option.bind_eq_some_iff] at hrange ⊢
  obtain ⟨row, hrow, startBlock, hstart, endBlock, hend, hpure⟩ := hrange
  exact ⟨row, h.backtests id row hrow, startBlock, h.blocks _ startBlock hstart, endBlock,
    h.blocks _ endBlock hend, hpure⟩

end Database

end Pochtecatl
