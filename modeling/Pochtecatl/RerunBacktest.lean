import Pochtecatl.Backtest
import Pochtecatl.IndexerProgress
import Pochtecatl.Rerun

namespace Pochtecatl

def BlockRun.withoutHash (run : BlockRun) : BlockRun := { run with block := run.block.withoutHash }

namespace Backtest

variable {ε : Type} {abi : SwapAbi ε} {rpcProvider : RpcProvider ε} {executor : StrategyExecutor}
  {s s' t t' : Backtest} {run run' : BlockRun}

/-- The strategy does not see the hash of a block. -/
theorem executeStrategyForBlock_withoutHash (s : Backtest) (run : BlockRun) :
    executeStrategyForBlock abi rpcProvider executor s run.withoutHash =
      executeStrategyForBlock abi rpcProvider executor s run := rfl

theorem step_sameTrades_withoutHash (hblock : run.block.withoutHash = run'.block.withoutHash)
    (hsame : s.store = s'.store ∧ SameTrades s.trades s'.trades)
    (hundisputed : Undisputed abi rpcProvider executor s run t)
    (hstep : (machine abi rpcProvider executor).step s run = some t)
    (hstep' : (machine abi rpcProvider executor).step s' run' = some t') :
    t.store = t'.store ∧ SameTrades t.trades t'.trades := by
  have hundisputed' : Undisputed abi rpcProvider executor s run.withoutHash t := hundisputed
  have hblock' : run.withoutHash.block = run'.withoutHash.block := hblock
  apply step_sameTrades hblock' hsame.1 hsame.2 hundisputed'
  · exact (executeStrategyForBlock_withoutHash s run).trans hstep
  · exact (executeStrategyForBlock_withoutHash s' run').trans hstep'

section Pipeline

open BlockRangeIndexer

variable {ρ θ π δ : Type} {dex dex' : Dex ρ θ π PairTicks} {initial : BlocksTable PairTicks}
  {startBlockNumber endBlockNumber : Nat} {steps steps' : List (IndexerStep ρ π δ)}
  {i j : BlockRangeIndexer ρ π PairTicks δ}

/-- A completed rerun executes the same blocks, up to their hashes. -/
theorem rerun_blocks
    (hrun : (BlockRangeIndexer.machine dex).run (new initial startBlockNumber endBlockNumber)
      steps = some i)
    (hresult : i.result = some (.ok ())) (hmax : endBlockNumber ≤ i64Max)
    (hrerun : (BlockRangeIndexer.machine dex').run (new i.blocks startBlockNumber endBlockNumber)
      steps' = some j)
    (hresult' : j.result = some (.ok ())) :
    i.executed.map Block.withoutHash = j.executed.map Block.withoutHash := by
  have hreads := run_readsBack hrun hresult hmax (Nat.le_refl _) (Nat.le_refl _) hrerun
  rw [BlocksTable.map_withoutHash (run_recorded hrun).executed,
    @BlocksTable.map_withoutHash _ i.blocks _ fun block hm => (hreads.executed block hm).1,
    ((run_inv hrun).executesInOrder.complete hresult).2,
    (hreads.executesInOrder.complete hresult').2]

/-- A backtest that is repeated ends with the same bars and the same trades, up to the random
hashes: the first indexes a range from the node, the second reads it from the database. -/
theorem rerun_sameTrades
    (hrun : (BlockRangeIndexer.machine dex).run (new initial startBlockNumber endBlockNumber)
      steps = some i)
    (hresult : i.result = some (.ok ())) (hmax : endBlockNumber ≤ i64Max)
    (hrerun : (BlockRangeIndexer.machine dex').run (new i.blocks startBlockNumber endBlockNumber)
      steps' = some j)
    (hresult' : j.result = some (.ok ())) {start : Backtest} {runs runs' : List BlockRun}
    (hruns : runs.map BlockRun.block = i.executed)
    (hruns' : runs'.map BlockRun.block = j.executed)
    (hundisputed : (machine abi rpcProvider executor).Along (Undisputed abi rpcProvider executor)
      start runs)
    (hs : (machine abi rpcProvider executor).run start runs = some s)
    (hs' : (machine abi rpcProvider executor).run start runs' = some s') :
    s.store = s'.store ∧ SameTrades s.trades s'.trades := by
  have hblocks := rerun_blocks hrun hresult hmax hrerun hresult'
  rw [← hruns, ← hruns', List.map_map, List.map_map] at hblocks
  have hlabels : List.Forall₂ (fun run run' : BlockRun =>
      run.block.withoutHash = run'.block.withoutHash) runs runs' := by
    have heq := List.forall₂_eq_eq_eq.symm ▸ hblocks
    rwa [List.forall₂_map_left_iff, List.forall₂_map_right_iff] at heq
  exact Machine.run_related_left (P := Undisputed abi rpcProvider executor)
    (R := fun s s' : Backtest => s.store = s'.store ∧ SameTrades s.trades s'.trades)
    (fun _ _ _ _ _ _ hsame hblock hstep hstep' hp =>
      step_sameTrades_withoutHash hblock hsame hp hstep hstep') hlabels hundisputed hs hs'
    ⟨rfl, fun _ => rfl⟩

end Pipeline

section Example

open StrategyExecutor

/-- Blocks with two tokens and no logs. -/
def twoTokensDex : Dex Unit Unit Unit PairTicks :=
  ⟨fun _ => [], twoTokens.pairTicks, fun _ ticks _ => some ticks⟩

def twoTokensTable : BlocksTable PairTicks := OrdMap.empty.insert 1 ⟨6000, twoTokens.pairTicks⟩

/-- One task fetches the only chunk, the others find none. -/
def wholeRun : List (IndexerStep Unit Unit Unit) :=
  [.next BlockRangeIndexer.firstTask,
    .fetch BlockRangeIndexer.firstTask ⟨⟨.ok [], .ok (some 6000), .ok ()⟩, true⟩,
    .send BlockRangeIndexer.firstTask, .handle fun _ => true] ++
    (List.finRange BLOCK_PARSER_CONCURRENCY).map .next ++ [.joinAll, .close]

set_option maxRecDepth 10000 in
theorem rerun_sameTrades_twoTokens : ∃ (i j : BlockRangeIndexer Unit Unit PairTicks Unit)
    (s s' : Backtest), i.executed = [twoTokens] ∧ j.executed = [twoTokens] ∧
      s.position 0 = some 1 ∧ s.store = s'.store ∧ SameTrades s.trades s'.trades := by
  obtain ⟨i, hrun, hresult, hexecuted, hblocks⟩ : ∃ i,
      (BlockRangeIndexer.machine twoTokensDex).run (.new .empty 1 1) wholeRun = some i ∧
        i.result = some (.ok ()) ∧ i.executed = [twoTokens] ∧ i.blocks = twoTokensTable :=
    ⟨_, rfl, rfl, rfl, rfl⟩
  obtain ⟨j, hrerun, hresult', hexecuted'⟩ : ∃ j,
      (BlockRangeIndexer.machine twoTokensDex).run (.new i.blocks 1 1) wholeRun = some j ∧
        j.result = some (.ok ()) ∧ j.executed = [twoTokens] := by
    rw [hblocks]
    exact ⟨_, rfl, rfl, rfl⟩
  obtain ⟨s, hs, hposition⟩ : ∃ s, (machine reservesAbi emptyPool eager).run start
      [⟨twoTokens, [], [1, 2], fun _ => 0, [0, 0, 0, 1, 1, 1]⟩] = some s ∧
        s.position 0 = some 1 := ⟨_, rfl, rfl⟩
  obtain ⟨s', hs'⟩ : ∃ s', (machine reservesAbi emptyPool eager).run start
      [⟨twoTokens, [], [2, 1], fun id => id + 5, [1, 0, 0, 1, 1, 0]⟩] = some s' := ⟨_, rfl⟩
  refine ⟨i, j, s, s', hexecuted, hexecuted', hposition, ?_⟩
  apply rerun_sameTrades hrun hresult (by decide) hrerun hresult' (by rw [hexecuted]; rfl)
    (by rw [hexecuted']; rfl) ?_ hs hs'
  intro t hstep
  refine ⟨fun requests hrequests => ?_, trivial⟩
  cases hstep
  cases hrequests
  intro request hm request' hm' htoken
  rcases List.mem_pair.mp hm with rfl | rfl <;> rcases List.mem_pair.mp hm' with rfl | rfl
  · rfl
  · exact absurd htoken (by decide)
  · exact absurd htoken (by decide)
  · rfl

end Example

end Backtest

end Pochtecatl
