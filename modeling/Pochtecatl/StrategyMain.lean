import Mathlib.Logic.Relation
import Pochtecatl.BacktestHistory
import Pochtecatl.BlockId
import Pochtecatl.Database

namespace Pochtecatl

inductive MakeIndexerError where
  | invalidBlockNumbers (startBlockNumber endBlockNumber : Nat)
  | failed
  deriving DecidableEq

/-- `IS_BACKTEST` -/
def isBacktest : BlockId → BlockId → Bool
  | .latest, .latest => false
  | _, _ => true

section MakeIndexer

variable {ρ π δ : Type}

/-- `none` is the panic of a live execution, which is not implemented. -/
def makeIndexer (blocks : BlocksTable PairTicks) :
    BlockId → BlockId → Option (Except MakeIndexerError (BlockRangeIndexer ρ π PairTicks δ))
  | .blockNumber startBlockNumber, .blockNumber endBlockNumber =>
    some (if startBlockNumber < endBlockNumber then .ok (.new blocks startBlockNumber endBlockNumber)
      else .error (.invalidBlockNumbers startBlockNumber endBlockNumber))
  | .latest, .latest => none
  | _, _ => some (.error .failed)

/-- There is an indexer for a range of blocks only, and it is one of a backtest. -/
theorem makeIndexer_eq_ok {blocks : BlocksTable PairTicks} {startBlockId endBlockId : BlockId}
    {indexer : BlockRangeIndexer ρ π PairTicks δ}
    (h : makeIndexer blocks startBlockId endBlockId = some (.ok indexer)) :
    isBacktest startBlockId endBlockId ∧ ∃ startBlockNumber endBlockNumber,
      startBlockId = .blockNumber startBlockNumber ∧ endBlockId = .blockNumber endBlockNumber ∧
      startBlockNumber < endBlockNumber ∧ indexer = .new blocks startBlockNumber endBlockNumber := by
  cases startBlockId with
  | latest =>
    cases endBlockId with
    | latest => cases h
    | blockNumber endBlockNumber => cases h
  | blockNumber startBlockNumber =>
    cases endBlockId with
    | latest => cases h
    | blockNumber endBlockNumber =>
      simp only [makeIndexer, Option.some.injEq] at h
      split at h
      next hlt =>
        cases h
        exact ⟨rfl, startBlockNumber, endBlockNumber, rfl, rfl, hlt, rfl⟩
      next => cases h

end MakeIndexer

/-- A backtest of the strategy: what it draws from outside, and the order in which its trades are
persisted. -/
structure Execution (ε : Type) where
  rpcProvider : RpcProvider ε
  executor : StrategyExecutor
  runs : List BlockRun
  tokens : List Address

/-- The backtest executed the strategy for these blocks and has no pending trades left, so that
`pending_handle` is over. -/
structure Execution.Completes {ε : Type} (abi : SwapAbi ε) (execution : Execution ε)
    (blocks : List (Block PairTicks)) (s : Backtest) : Prop where
  blocks : execution.runs.map BlockRun.block = blocks
  run : (Backtest.machine abi execution.rpcProvider execution.executor).run Backtest.start
    execution.runs = some s
  settled : s.trades.NonePending
  tokens : s.trades.IterOrder execution.tokens

/-- The execution over the blocks as the database has them. -/
def Execution.withoutHash {ε : Type} (execution : Execution ε) : Execution ε :=
  { execution with runs := execution.runs.map BlockRun.withoutHash }

/-- The database, and the indexer of the invocation that runs. `executions` records which backtests
were persisted: the code does not keep them. -/
structure StrategyMain (ρ π δ ε : Type) where
  db : Database
  indexer : Option (BlockRangeIndexer ρ π PairTicks δ)
  executions : Nat → Option (Execution ε)

namespace StrategyMain

variable {ρ θ π δ ε : Type} (dex : Dex ρ θ π PairTicks) (abi : SwapAbi ε)

/-- A step of the program. It can end at any time, with an error or because it is killed. -/
inductive Step : StrategyMain ρ π δ ε → StrategyMain ρ π δ ε → Prop where
  | start {s : StrategyMain ρ π δ ε} (startBlockId endBlockId : Option String)
    {indexer : BlockRangeIndexer ρ π PairTicks δ} (hindexer : s.indexer = none)
    (hmake : makeIndexer s.db.blocks (.fromEnv startBlockId) (.fromEnv endBlockId) =
      some (.ok indexer)) : Step s { s with indexer := some indexer }
  | index {s : StrategyMain ρ π δ ε} {indexer indexer' : BlockRangeIndexer ρ π PairTicks δ}
    (a : IndexerStep ρ π δ) (hindexer : s.indexer = some indexer)
    (hstep : indexer.step dex a = some indexer') :
    Step s { s with
      db := { s.db with blocks := indexer'.blocks }
      indexer := some indexer' }
  | persist {s : StrategyMain ρ π δ ε} {indexer : BlockRangeIndexer ρ π PairTicks δ}
    {backtest : Backtest} (execution : Execution ε) (createdAt : Nat)
    (hindexer : s.indexer = some indexer) (hresult : indexer.result = some (.ok ()))
    (hcompletes : execution.Completes abi indexer.executed backtest) :
    Step s ⟨s.db.persistBacktest ⟨createdAt, indexer.startBlockNumber, indexer.endBlockNumber⟩
      backtest.trades execution.tokens, none,
      Function.update s.executions s.db.backtests.nextRowid (some execution)⟩
  | exit (s : StrategyMain ρ π δ ε) : Step s { s with indexer := none }

/-- The program before its first invocation. -/
def init : StrategyMain ρ π δ ε := ⟨.empty, none, fun _ => none⟩

def Reachable (s : StrategyMain ρ π δ ε) : Prop := Relation.ReflTransGen (Step dex abi) init s

/-- The indexer at work is one of a range, over the blocks of the database. -/
structure Indexing (db : Database) (indexer : BlockRangeIndexer ρ π PairTicks δ) : Prop where
  inv : indexer.Inv indexer.startBlockNumber indexer.endBlockNumber
  recorded : indexer.Recorded
  blocks : indexer.blocks = db.blocks
  lt : indexer.startBlockNumber < indexer.endBlockNumber
  fits : indexer.endBlockNumber < 2 ^ 64

end StrategyMain

/-- The closed trades of a persisted backtest are those of the execution over the blocks that the
database has for its range. -/
structure Database.Replays {ε : Type} (abi : SwapAbi ε) (db : Database) (id : Nat)
    (row : BacktestRow) (execution : Execution ε) (startBlockNumber endBlockNumber : Nat) :
    Prop where
  row : U64.columnResult row.startBlockNumber = startBlockNumber ∧
    U64.columnResult row.endBlockNumber = endBlockNumber
  lt : startBlockNumber < endBlockNumber
  blocks : ∀ n, startBlockNumber ≤ n → n ≤ endBlockNumber → (db.blocks.get? n).isSome
  completes : ∃ s : Backtest,
    execution.withoutHash.Completes abi (db.blocksIn startBlockNumber endBlockNumber) s ∧
      db.closedTrades id = s.trades.closedTrades execution.tokens

namespace StrategyMain

/-- What holds of the database at any time, and of the indexer that is at work. -/
structure Inv {ρ π δ ε : Type} (abi : SwapAbi ε) (s : StrategyMain ρ π δ ε) : Prop where
  indexer : ∀ indexer, s.indexer = some indexer → Indexing s.db indexer
  closedTrades : ∀ row ∈ s.db.backtestClosedTrades.values,
    (s.db.backtests.get? row.backtestId).isSome
  rows : s.db.RowsNew
  backtests : ∀ id row, s.db.backtests.get? id = some row →
    ∃ execution startBlockNumber endBlockNumber, s.executions id = some execution ∧
      s.db.Replays abi id row execution startBlockNumber endBlockNumber


end StrategyMain

namespace Backtest

variable {ε : Type} {abi : SwapAbi ε} {rpcProvider : RpcProvider ε} {executor : StrategyExecutor}

theorem run_withoutHash (s : Backtest) (runs : List BlockRun) :
    (machine abi rpcProvider executor).run s (runs.map BlockRun.withoutHash) =
      (machine abi rpcProvider executor).run s runs := by
  induction runs generalizing s with
  | nil => rfl
  | cons run runs ih =>
    have hstep : (machine abi rpcProvider executor).step s run.withoutHash =
        (machine abi rpcProvider executor).step s run := executeStrategyForBlock_withoutHash s run
    simp only [List.map_cons, Machine.run, hstep, ih]

end Backtest

namespace Database

variable {ρ θ π δ ε : Type} {dex : Dex ρ θ π PairTicks} {abi : SwapAbi ε} {db db' : Database}
  {id startBlockNumber endBlockNumber : Nat} {row : BacktestRow} {execution : Execution ε}

theorem Replays.extends (h : db.Replays abi id row execution startBlockNumber endBlockNumber)
    (hid : (db.backtests.get? id).isSome) (hext : db.Extends db') :
    db'.Replays abi id row execution startBlockNumber endBlockNumber := by
  obtain ⟨s, hcompletes, hclosed⟩ := h.completes
  refine ⟨h.row, h.lt, fun n hlo hhi => ?_, s, ?_, ?_⟩
  · obtain ⟨blockRow, hrow⟩ := Option.isSome_iff_exists.mp (h.blocks n hlo hhi)
    exact Option.isSome_of_eq_some (hext.blocks n blockRow hrow)
  · rw [hext.blocksIn_eq h.blocks]
    exact hcompletes
  · rw [hext.closedTrades id hid, hclosed]

/-- The blocks that a completed indexer executed are those that the database has. -/
theorem blocksIn_of_executed {indexer : BlockRangeIndexer ρ π PairTicks δ}
    (h : StrategyMain.Indexing db indexer) (hresult : indexer.result = some (.ok ())) :
    db.blocksIn indexer.startBlockNumber indexer.endBlockNumber =
      indexer.executed.map Block.withoutHash := by
  rw [BlocksTable.map_withoutHash h.recorded.executed,
    (h.inv.executesInOrder.complete hresult).2, h.blocks]
  rfl

end Database

namespace StrategyMain

variable {ρ θ π δ ε : Type} {dex : Dex ρ θ π PairTicks} {abi : SwapAbi ε}
  {s s' : StrategyMain ρ π δ ε}

theorem Indexing.step {db : Database} {indexer indexer' : BlockRangeIndexer ρ π PairTicks δ}
    {a : IndexerStep ρ π δ} (h : Indexing db indexer) (hstep : indexer.step dex a = some indexer') :
    Indexing { db with blocks := indexer'.blocks } indexer' := by
  have hinv := BlockRangeIndexer.step_inv h.inv hstep
  refine ⟨?_, BlockRangeIndexer.step_recorded h.recorded hstep, rfl, ?_, ?_⟩
  · rw [hinv.start_eq, hinv.end_eq]
    exact hinv
  · rw [hinv.start_eq, hinv.end_eq]
    exact h.lt
  · rw [hinv.end_eq]
    exact h.fits

theorem Indexing.extends {db : Database} {indexer indexer' : BlockRangeIndexer ρ π PairTicks δ}
    {a : IndexerStep ρ π δ} (h : Indexing db indexer) (hstep : indexer.step dex a = some indexer') :
    db.Extends { db with blocks := indexer'.blocks } where
  blocks := fun n row hrow =>
    BlockRangeIndexer.step_keepsRows hstep (by rw [h.blocks]; exact hrow)
  backtests := fun _ _ hrow => hrow
  closedTrades := fun _ _ => rfl

theorem step_extends (h : s.Inv abi) (hstep : Step dex abi s s') : s.db.Extends s'.db := by
  cases hstep with
  | start => exact .refl s.db
  | index a hindexer hstep => exact (h.indexer _ hindexer).extends hstep
  | persist => exact Database.persistBacktest_extends
  | exit => exact .refl s.db

/-- A backtest is persisted with the trades that the blocks of the database lead to. -/
theorem persist_replays {db : Database} {indexer : BlockRangeIndexer ρ π PairTicks δ}
    {execution : Execution ε} {backtest : Backtest} {createdAt : Nat} (h : Indexing db indexer)
    (hnew : db.closedTrades db.backtests.nextRowid = [])
    (hresult : indexer.result = some (.ok ()))
    (hcompletes : execution.Completes abi indexer.executed backtest) :
    (db.persistBacktest ⟨createdAt, indexer.startBlockNumber, indexer.endBlockNumber⟩
      backtest.trades execution.tokens).Replays abi db.backtests.nextRowid
      (NewBacktestModel.row ⟨createdAt, indexer.startBlockNumber, indexer.endBlockNumber⟩)
      execution indexer.startBlockNumber indexer.endBlockNumber := by
  have hblocks : ∀ n, indexer.startBlockNumber ≤ n → n ≤ indexer.endBlockNumber →
      (db.blocks.get? n).isSome := by
    intro n hlo hhi
    have hm : n ∈ indexer.executed.map (·.blockNumber) := by
      rw [(h.inv.executesInOrder.complete hresult).2, List.mem_range'_1]
      omega
    obtain ⟨block, hblock, rfl⟩ := List.mem_map.mp hm
    rw [← h.blocks]
    exact Option.isSome_of_eq_some (h.recorded.executed block hblock)
  refine ⟨⟨U64.columnResult_toSql (Nat.lt_trans h.lt h.fits),
      U64.columnResult_toSql h.fits⟩, h.lt, hblocks, backtest, ?_, ?_⟩
  · refine ⟨?_, ?_, hcompletes.settled, hcompletes.tokens⟩
    · calc (execution.runs.map BlockRun.withoutHash).map BlockRun.block
          = (execution.runs.map BlockRun.block).map Block.withoutHash := by
            rw [List.map_map, List.map_map]
            rfl
        _ = indexer.executed.map Block.withoutHash := by rw [hcompletes.blocks]
        _ = _ := (Database.blocksIn_of_executed h hresult).symm
    · exact (Backtest.run_withoutHash Backtest.start execution.runs).trans hcompletes.run
  · rw [Database.closedTrades_persistBacktest, if_pos rfl, hnew, List.nil_append]

/-- There are no closed trades of a backtest that is not there yet. -/
theorem Inv.closedTrades_nextRowid (h : s.Inv abi) :
    s.db.closedTrades s.db.backtests.nextRowid = [] := by
  unfold Database.closedTrades
  rw [List.map_eq_nil_iff, List.filter_eq_nil_iff]
  intro row hrow hid
  obtain ⟨backtestRow, hbacktest⟩ := Option.isSome_iff_exists.mp (h.closedTrades row hrow)
  have hlt := RowTable.lt_nextRowid hbacktest
  have heq := of_decide_eq_true hid
  omega

theorem init_inv : (init : StrategyMain ρ π δ ε).Inv abi where
  indexer := fun _ h => by cases h
  closedTrades := fun _ h => by cases h
  rows := fun _ h => by cases h
  backtests := fun _ _ h => by cases h

theorem step_inv (h : s.Inv abi) (hstep : Step dex abi s s') : s'.Inv abi := by
  have hext := step_extends h hstep
  have hold : ∀ id row, s.db.backtests.get? id = some row → s'.executions id = s.executions id →
      ∃ execution startBlockNumber endBlockNumber, s'.executions id = some execution ∧
        s'.db.Replays abi id row execution startBlockNumber endBlockNumber := by
    intro id row hrow hsame
    obtain ⟨execution, startBlockNumber, endBlockNumber, hexecution, hreplays⟩ :=
      h.backtests id row hrow
    exact ⟨execution, _, _, hsame.trans hexecution,
      hreplays.extends (Option.isSome_of_eq_some hrow) hext⟩
  cases hstep with
  | start startBlockId endBlockId hindexer hmake =>
    refine ⟨fun indexer heq => ?_, h.closedTrades, h.rows,
      fun id row hrow => hold id row hrow rfl⟩
    cases heq
    obtain ⟨-, startBlockNumber, endBlockNumber, hstart, hend, hlt, rfl⟩ := makeIndexer_eq_ok hmake
    obtain ⟨_, -, hparse⟩ := BlockId.fromEnv_eq_blockNumber hend
    exact ⟨BlockRangeIndexer.new_inv _ _ _, BlockRangeIndexer.new_recorded _ _ _, rfl, hlt,
      parseU64_lt hparse⟩
  | index a hindexer hstep =>
    refine ⟨fun indexer heq => ?_, h.closedTrades, h.rows,
      fun id row hrow => hold id row hrow rfl⟩
    cases heq
    exact (h.indexer _ hindexer).step hstep
  | @persist indexer backtest execution createdAt hindexer hresult hcompletes =>
    have hindexing := h.indexer indexer hindexer
    have hrows : ∀ row ∈ (s.db.persistBacktest
        ⟨createdAt, indexer.startBlockNumber, indexer.endBlockNumber⟩ backtest.trades
        execution.tokens).backtestClosedTrades.values, row ∈ s.db.backtestClosedTrades.values ∨
          ∃ p, row = .new s.db.backtests.nextRowid p := by
      intro row hrow
      simp only [Database.persistBacktest, Database.insertBacktest,
        Database.insertBacktestClosedTrades, RowTable.values_appendAll, List.mem_append,
        List.mem_map] at hrow
      rcases hrow with hrow | ⟨p, -, rfl⟩
      · exact Or.inl hrow
      · exact Or.inr ⟨p, rfl⟩
    refine ⟨fun _ heq => (by cases heq), fun row hrow => ?_, fun row hrow => ?_,
      fun id row hrow => ?_⟩
    · rcases hrows row hrow with hrow | ⟨p, rfl⟩
      · obtain ⟨backtestRow, hbacktest⟩ := Option.isSome_iff_exists.mp (h.closedTrades row hrow)
        exact Option.isSome_of_eq_some (hext.backtests _ _ hbacktest)
      · exact Option.isSome_of_eq_some ((RowTable.get?_append _ _ _).trans (if_pos rfl))
    · rcases hrows row hrow with hrow | ⟨p, rfl⟩
      · exact h.rows row hrow
      · rfl
    · by_cases hid : id = s.db.backtests.nextRowid
      · subst hid
        have hnew := (RowTable.get?_append s.db.backtests
          (NewBacktestModel.row ⟨createdAt, indexer.startBlockNumber, indexer.endBlockNumber⟩)
          s.db.backtests.nextRowid).trans (if_pos rfl)
        cases hnew.symm.trans hrow
        exact ⟨execution, _, _, Function.update_self ..,
          persist_replays hindexing h.closedTrades_nextRowid hresult hcompletes⟩
      · have hsame := (RowTable.get?_append s.db.backtests
          (NewBacktestModel.row ⟨createdAt, indexer.startBlockNumber, indexer.endBlockNumber⟩)
          id).trans (if_neg hid)
        exact hold id row (hsame.symm.trans hrow) (Function.update_of_ne hid ..)
  | exit => exact ⟨fun _ heq => (by cases heq), h.closedTrades, h.rows,
      fun id row hrow => hold id row hrow rfl⟩

theorem reachable_inv (h : Reachable dex abi s) : s.Inv abi := by
  induction h with
  | refl => exact init_inv
  | tail _ hstep ih => exact step_inv ih hstep

/-- The invocations of the program leave what is in the database as it is. -/
theorem reachable_extends (h : Reachable dex abi s) (hsteps : Relation.ReflTransGen (Step dex abi) s s') :
    s.db.Extends s'.db := by
  induction hsteps with
  | refl => exact .refl s.db
  | tail hsteps hstep ih =>
    exact ih.trans (step_extends (reachable_inv (h.trans hsteps)) hstep)

/-- Whatever invocations there were, and wherever they ended, a persisted backtest can be repeated
from the database: its trades are those that the blocks of its range lead to. -/
theorem persisted_replays (h : Reachable dex abi s) {id : Nat} {row : BacktestRow}
    (hrow : s.db.backtests.get? id = some row) :
    ∃ execution startBlockNumber endBlockNumber, s.executions id = some execution ∧
      s.db.Replays abi id row execution startBlockNumber endBlockNumber :=
  (reachable_inv h).backtests id row hrow

/-- A run of the indexer is one of the program. -/
theorem index_steps {db : Database} {indexer indexer' : BlockRangeIndexer ρ π PairTicks δ}
    {steps : List (IndexerStep ρ π δ)} {executions : Nat → Option (Execution ε)}
    (hblocks : db.blocks = indexer.blocks)
    (hrun : (BlockRangeIndexer.machine dex).run indexer steps = some indexer') :
    Relation.ReflTransGen (Step dex abi) ⟨db, some indexer, executions⟩
      ⟨{ db with blocks := indexer'.blocks }, some indexer', executions⟩ := by
  induction steps generalizing db indexer with
  | nil =>
    cases hrun
    rw [← hblocks]
  | cons a steps ih =>
    obtain ⟨next, hstep, hrest⟩ := Machine.run_cons_eq_some.mp hrun
    exact (ih rfl hrest).head (.index a rfl hstep)

/-- An invocation that ends with the record of its backtest. -/
theorem Reachable.persist (h : Reachable dex abi s) (hindexer : s.indexer = none)
    {startBlockId endBlockId : Option String}
    {indexer indexer' : BlockRangeIndexer ρ π PairTicks δ} {steps : List (IndexerStep ρ π δ)}
    {execution : Execution ε} {backtest : Backtest} (createdAt : Nat)
    (hmake : makeIndexer s.db.blocks (.fromEnv startBlockId) (.fromEnv endBlockId) =
      some (.ok indexer))
    (hrun : (BlockRangeIndexer.machine dex).run indexer steps = some indexer')
    (hresult : indexer'.result = some (.ok ()))
    (hcompletes : execution.Completes abi indexer'.executed backtest) :
    Reachable dex abi (⟨Database.persistBacktest { s.db with blocks := indexer'.blocks }
      ⟨createdAt, indexer'.startBlockNumber, indexer'.endBlockNumber⟩ backtest.trades
      execution.tokens, none, Function.update s.executions s.db.backtests.nextRowid
        (some execution)⟩ : StrategyMain ρ π δ ε) := by
  have hblocks : indexer.blocks = s.db.blocks := by
    obtain ⟨-, _, _, -, -, -, rfl⟩ := makeIndexer_eq_ok hmake
    rfl
  have hstart : Relation.ReflTransGen (Step dex abi) s { s with indexer := some indexer } :=
    .single (.start startBlockId endBlockId hindexer hmake)
  exact ((h.trans hstart).trans (index_steps hblocks.symm hrun)).tail
    (.persist execution createdAt rfl hresult hcompletes)

section Example

open Backtest StrategyExecutor

def openThenCloseExecution : Execution Unit := ⟨emptyPool, eager, openThenClose, [0]⟩

set_option maxRecDepth 10000 in
/-- The token of the only pair is the only one that is traded. -/
theorem openThenClose_completes : ∃ s p,
    openThenCloseExecution.Completes reservesAbi (openThenClose.map BlockRun.block) s ∧
      s.trades.closedTrades [0] = [p] ∧ p.2.indexedTrade.pairAddress = 1 ∧
      (p.1.indexedTrade.tokenPriceAfter p.1.tokenAddress).isSome ∧
      (p.2.indexedTrade.tokenPriceAfter p.2.tokenAddress).isSome := by
  obtain ⟨s, p, hrun, hactive, hclosed, hprices⟩ : ∃ s p,
      (Backtest.machine reservesAbi emptyPool eager).run Backtest.start openThenClose = some s ∧
        (s.trades.view 0).active = none ∧ s.trades.closedTrades [0] = [p] ∧
        p.2.indexedTrade.pairAddress = 1 ∧
        (p.1.indexedTrade.tokenPriceAfter p.1.tokenAddress).isSome ∧
        (p.2.indexedTrade.tokenPriceAfter p.2.tokenAddress).isSome := by
    refine ⟨_, (_, _), rfl, rfl, rfl, ?_⟩
    exact ⟨rfl, rfl, rfl⟩
  have hother : ∀ token : Address, token ≠ 0 → s.trades.view token = .empty := by
    intro token htoken
    refine run_view_eq (fun run hrun pair hpair => ?_) hrun
    have hpairs : ∀ run ∈ openThenClose, ∀ pair ∈ run.message.pairs, pair.tokenAddress = 0 := by
      decide
    rw [hpairs run hrun pair hpair]
    exact htoken.symm
  refine ⟨s, p, ⟨rfl, hrun, fun token => ?_, ?_⟩, hclosed, hprices⟩
  · by_cases htoken : token = 0
    · subst htoken
      exact Or.inl hactive
    · rw [hother token htoken]
      exact Or.inl rfl
  · refine ⟨List.nodup_singleton 0, fun token hne => ?_⟩
    by_cases htoken : token = 0
    · exact List.mem_singleton.mpr htoken
    · rw [hother token htoken] at hne
      exact absurd rfl hne

/-- The rows of the two blocks. -/
def openThenCloseBlocks : BlocksTable PairTicks :=
  OrdMap.insert (OrdMap.empty.insert 1 ⟨6000, (TimePriceBarStore.singleBlock 1 6000 1).pairTicks⟩) 2
    ⟨6002, (TimePriceBarStore.singleBlock 1 6000 1).pairTicks⟩

set_option maxRecDepth 10000 in
/-- One invocation with one closed trade. -/
theorem reachable_openThenClose : ∃ (s : StrategyMain Unit Unit Unit Unit)
    (p : StrategyTrade × StrategyTrade), Reachable onePairDex reservesAbi s ∧
      s.indexer = none ∧ s.db.blocks = openThenCloseBlocks ∧
      s.db.backtests.get? 1 = some ⟨1, 2, 0⟩ ∧ s.db.closedTrades 1 = [p] ∧
      p.2.indexedTrade.pairAddress = 1 ∧
      (p.1.indexedTrade.tokenPriceAfter p.1.tokenAddress).isSome ∧
      (p.2.indexedTrade.tokenPriceAfter p.2.tokenAddress).isSome := by
  obtain ⟨indexer, hrun, hresult, hexecuted, hblocks, hrange⟩ : ∃ indexer,
      (BlockRangeIndexer.machine onePairDex).run (.new .empty 1 2) wholeRun = some indexer ∧
        indexer.result = some (.ok ()) ∧ indexer.executed = openThenClose.map BlockRun.block ∧
        indexer.blocks = openThenCloseBlocks ∧ indexer.startBlockNumber = 1 ∧
        indexer.endBlockNumber = 2 := ⟨_, rfl, rfl, rfl, rfl, rfl, rfl⟩
  obtain ⟨backtest, p, hcompletes, hclosed, hprices⟩ := openThenClose_completes
  rw [← hexecuted] at hcompletes
  have hmake : makeIndexer .empty (.fromEnv (some "1")) (.fromEnv (some "2")) =
      some (.ok (.new .empty 1 2 : BlockRangeIndexer Unit Unit PairTicks Unit)) := rfl
  have hreachable := Reachable.persist .refl rfl 0 hmake hrun hresult hcompletes
  rw [hrange.1, hrange.2, hblocks] at hreachable
  refine ⟨_, p, hreachable, rfl, rfl, rfl, ?_, hprices⟩
  rw [Database.closedTrades_persistBacktest]
  exact hclosed

theorem persisted_replays_openThenClose : ∃ (s : StrategyMain Unit Unit Unit Unit)
    (execution : Execution Unit) (startBlockNumber endBlockNumber : Nat),
    (s.db.closedTrades 1).length = 1 ∧ s.executions 1 = some execution ∧
      s.db.Replays reservesAbi 1 ⟨1, 2, 0⟩ execution startBlockNumber endBlockNumber := by
  obtain ⟨s, p, hreachable, -, -, hrow, hclosed, -⟩ := reachable_openThenClose
  obtain ⟨execution, startBlockNumber, endBlockNumber, hreplays⟩ :=
    persisted_replays hreachable hrow
  exact ⟨s, execution, startBlockNumber, endBlockNumber, by rw [hclosed]; rfl, hreplays⟩

end Example

end StrategyMain

end Pochtecatl
