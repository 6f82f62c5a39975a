import Pochtecatl.StrategyMain

namespace List

variable {α κ : Type} {f : κ → List α} {l l' : List κ}

theorem flatMap_filter_isEmpty (f : κ → List α) (l : List κ) :
    (l.filter fun k => !(f k).isEmpty).flatMap f = l.flatMap f := by
  induction l with
  | nil => rfl
  | cons k l ih =>
    rw [flatMap_cons, ← ih]
    cases hk : f k with
    | nil => rw [filter_cons_of_neg (by simp [hk]), nil_append]
    | cons a as => rw [filter_cons_of_pos (by simp [hk]), flatMap_cons, hk]

/-- The lists of all keys that have some, in whatever order the keys come. -/
theorem flatMap_perm_of_nodup (hl : l.Nodup) (hl' : l'.Nodup) (h : ∀ k, f k ≠ [] → k ∈ l)
    (h' : ∀ k, f k ≠ [] → k ∈ l') : (l.flatMap f).Perm (l'.flatMap f) := by
  have hkeys : (l.filter fun k => !(f k).isEmpty).Perm (l'.filter fun k => !(f k).isEmpty) := by
    refine (perm_ext_iff_of_nodup (hl.filter _) (hl'.filter _)).mpr fun k => ?_
    simp only [mem_filter, Bool.not_eq_true', isEmpty_eq_false_iff]
    exact ⟨fun hk => ⟨h' k hk.2, hk.2⟩, fun hk => ⟨h k hk.2, hk.2⟩⟩
  rw [← flatMap_filter_isEmpty f l, ← flatMap_filter_isEmpty f l']
  exact hkeys.flatMap_right f

end List

namespace Pochtecatl

/-- Two trades without the hashes of their simulated transactions. -/
def withoutTxHashes (p : StrategyTrade × StrategyTrade) : StrategyTrade × StrategyTrade :=
  (withoutTxHash p.1, withoutTxHash p.2)

theorem Trades.closedTrades_withoutTxHashes {trades trades' : Trades Address StrategyTrade}
    {tokens tokens' : List Address} (hsame : SameTrades trades trades')
    (ho : trades.IterOrder tokens) (ho' : trades'.IterOrder tokens') :
    ((trades.closedTrades tokens).map withoutTxHashes).Perm
      ((trades'.closedTrades tokens').map withoutTxHashes) := by
  have hclosed : ∀ token, (trades.view token).closed.map withoutTxHashes =
      (trades'.view token).closed.map withoutTxHashes := fun token =>
    congrArg AddressTrades.closed (hsame token)
  have hmap : ∀ (trades : Trades Address StrategyTrade) (tokens : List Address),
      (trades.closedTrades tokens).map withoutTxHashes =
        tokens.flatMap fun token => (trades.view token).closed.map withoutTxHashes :=
    fun trades tokens => List.map_flatMap
  rw [hmap, hmap]
  simp only [hclosed]
  refine List.flatMap_perm_of_nodup ho.1 ho'.1 (fun token hne => ho.2 token fun hnil => ?_)
    fun token hne => ho'.2 token fun hnil => ?_
  · rw [← hclosed, hnil] at hne
    exact hne rfl
  · rw [hnil] at hne
    exact hne rfl

namespace StrategyMain

open Backtest

variable {ρ θ π δ ε : Type} {dex : Dex ρ θ π PairTicks} {abi : SwapAbi ε}
  {s : StrategyMain ρ π δ ε} {id id' : Nat} {row row' : BacktestRow}
  {execution execution' : Execution ε}

/-- Two backtests of one range were persisted with the same closed trades, up to the random hashes
and the order of the rows, when the strategy and the answers of the node are the same. -/
theorem backtests_agree (h : Reachable dex abi s) (hrow : s.db.backtests.get? id = some row)
    (hrow' : s.db.backtests.get? id' = some row')
    (hstart : row'.startBlockNumber = row.startBlockNumber)
    (hend : row'.endBlockNumber = row.endBlockNumber)
    (hexecution : s.executions id = some execution)
    (hexecution' : s.executions id' = some execution')
    (hexecutor : execution'.executor = execution.executor)
    (hprovider : execution'.rpcProvider = execution.rpcProvider)
    (hundisputed : (machine abi execution.rpcProvider execution.executor).Along
      (Undisputed abi execution.rpcProvider execution.executor) Backtest.start
        execution.withoutHash.runs) :
    ((s.db.closedTrades id).map withoutTxHashes).Perm
      ((s.db.closedTrades id').map withoutTxHashes) := by
  have hinv := reachable_inv h
  obtain ⟨_, lo, hi, he, hreplays⟩ := hinv.backtests id row hrow
  cases hexecution.symm.trans he
  obtain ⟨_, lo', hi', he', hreplays'⟩ := hinv.backtests id' row' hrow'
  cases hexecution'.symm.trans he'
  obtain ⟨hlo, hhi⟩ := hreplays.row
  obtain ⟨hlo', hhi'⟩ := hreplays'.row
  obtain ⟨t, hcompletes, hclosed⟩ := hreplays.completes
  obtain ⟨t', hcompletes', hclosed'⟩ := hreplays'.completes
  have hrange : lo' = lo ∧ hi' = hi := by
    rw [← hlo, ← hlo', ← hhi, ← hhi', hstart, hend]
    exact ⟨rfl, rfl⟩
  have hblocks : execution.withoutHash.runs.map BlockRun.block =
      execution'.withoutHash.runs.map BlockRun.block := by
    rw [hcompletes.blocks, hcompletes'.blocks, hrange.1, hrange.2]
  have hlabels : List.Forall₂ (fun run run' : BlockRun => run.block = run'.block)
      execution.withoutHash.runs execution'.withoutHash.runs := by
    have heq := List.forall₂_eq_eq_eq.symm ▸ hblocks
    rwa [List.forall₂_map_left_iff, List.forall₂_map_right_iff] at heq
  have hrun' := hcompletes'.run
  have hwithout : execution'.withoutHash.rpcProvider = execution.rpcProvider ∧
      execution'.withoutHash.executor = execution.executor := ⟨hprovider, hexecutor⟩
  rw [hwithout.1, hwithout.2] at hrun'
  have hsame := Machine.run_related_left
    (P := Undisputed abi execution.rpcProvider execution.executor)
    (R := fun s s' : Backtest => s.store = s'.store ∧ SameTrades s.trades s'.trades)
    (fun _ _ _ _ _ _ hsame hblock hstep hstep' hp =>
      step_sameTrades hblock hsame.1 hsame.2 hp hstep hstep') hlabels hundisputed hcompletes.run
    hrun' ⟨rfl, fun _ => rfl⟩
  rw [hclosed, hclosed']
  exact Trades.closedTrades_withoutTxHashes hsame.2 hcompletes.tokens hcompletes'.tokens

section Example

open StrategyExecutor

theorem sameOutcomes_singleton {ε : Type} {abi : SwapAbi ε} {rpcProvider : RpcProvider ε}
    (request : TradeRequest) : SameOutcomes abi rpcProvider [request] := by
  intro first hfirst second hsecond _
  rw [List.mem_singleton.mp hfirst, List.mem_singleton.mp hsecond]

/-- The two blocks as the indexer executes them again. -/
theorem rerun_openThenClose : ∃ indexer : BlockRangeIndexer Unit Unit PairTicks Unit,
    (BlockRangeIndexer.machine onePairDex).run (.new openThenCloseBlocks 1 2) wholeRun =
        some indexer ∧
      indexer.result = some (.ok ()) ∧ indexer.executed = openThenClose.map BlockRun.block ∧
      indexer.blocks = openThenCloseBlocks ∧ indexer.startBlockNumber = 1 ∧
      indexer.endBlockNumber = 2 := ⟨_, rfl, rfl, rfl, rfl, rfl, rfl⟩

set_option maxRecDepth 10000 in
theorem backtests_agree_openThenClose : ∃ s : StrategyMain Unit Unit Unit Unit,
    Reachable onePairDex reservesAbi s ∧ (s.db.closedTrades 1).length = 1 ∧
      ((s.db.closedTrades 1).map withoutTxHashes).Perm
        ((s.db.closedTrades 2).map withoutTxHashes) := by
  obtain ⟨indexer, hrun, hresult, hexecuted, hblocks, hrange⟩ : ∃ indexer,
      (BlockRangeIndexer.machine onePairDex).run (.new .empty 1 2) wholeRun = some indexer ∧
        indexer.result = some (.ok ()) ∧ indexer.executed = openThenClose.map BlockRun.block ∧
        indexer.blocks = openThenCloseBlocks ∧ indexer.startBlockNumber = 1 ∧
        indexer.endBlockNumber = 2 := ⟨_, rfl, rfl, rfl, rfl, rfl, rfl⟩
  obtain ⟨rerun, hrerun, hresult', hexecuted', hblocks', hrange'⟩ := rerun_openThenClose
  obtain ⟨backtest, p, hcompletes, hclosed, -⟩ := openThenClose_completes
  have hmake : ∀ blocks, makeIndexer blocks (.fromEnv (some "1")) (.fromEnv (some "2")) =
      some (.ok (.new blocks 1 2 : BlockRangeIndexer Unit Unit PairTicks Unit)) := fun _ => rfl
  have hfirst := Reachable.persist .refl rfl 0 (hmake _) hrun hresult
    (hexecuted.symm ▸ hcompletes)
  rw [hrange.1, hrange.2, hblocks] at hfirst
  have hsecond := hfirst.persist rfl 0 (hmake _) hrerun hresult' (hexecuted'.symm ▸ hcompletes)
  rw [hrange'.1, hrange'.2, hblocks'] at hsecond
  refine ⟨_, hsecond, ?_, backtests_agree hsecond rfl rfl rfl rfl rfl rfl rfl rfl ?_⟩
  · rw [Database.closedTrades_persistBacktest]
    refine congrArg List.length ((List.append_nil _).trans (Eq.trans ?_ hclosed))
    exact Database.closedTrades_persistBacktest 1
  · intro t hstep
    cases hstep
    refine ⟨fun requests hrequests => ?_, fun t hstep => ?_⟩
    · cases hrequests
      exact sameOutcomes_singleton _
    · cases hstep
      refine ⟨fun requests hrequests => ?_, trivial⟩
      cases hrequests
      exact sameOutcomes_singleton _

end Example

end StrategyMain

end Pochtecatl
