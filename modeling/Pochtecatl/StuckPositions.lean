import Pochtecatl.BlockTasks

namespace Pochtecatl

namespace StrategyExecutor

/-- After a block of a backtest no token is pending, in whatever order its tasks ran, if and
only if none was before and no simulation of its requests panics. -/
theorem onIndexedBlockMessage_nonePending_iff {ε : Type} (abi : SwapAbi ε)
    (rpcProvider : RpcProvider ε) (executor : StrategyExecutor) (message : BlockMessage)
    (store : TimePriceBarStore) (trades : Trades Address StrategyTrade) :
    (∀ txHashes schedule trades', executor.onIndexedBlockMessage abi rpcProvider message store
        trades txHashes schedule = some trades' → trades'.NonePending) ↔
      ∀ requests, executor.tradeRequests message store trades = some requests →
        trades.NonePending ∧ ∀ request ∈ requests, ¬request.SimulationPanics abi rpcProvider := by
  have hpanics : ∀ requests txHashes,
      (∀ task ∈ tradeTasks abi rpcProvider requests txHashes, task.simulated ≠ none) ↔
        ∀ request ∈ requests, ¬request.SimulationPanics abi rpcProvider := by
    intro requests txHashes
    constructor
    · intro h request hrequest hpanic
      obtain ⟨id, hid⟩ := List.mem_iff_getElem?.mp hrequest
      refine h _ (mem_tradeTasks.mpr ⟨id, request, hid, rfl⟩) ?_
      exact TradeRequest.simulateTradeRequest_eq_none_iff.mpr hpanic
    · intro h task htask hnone
      obtain ⟨id, request, hid, rfl⟩ := mem_tradeTasks.mp htask
      exact h request (List.mem_of_getElem? hid)
        (TradeRequest.simulateTradeRequest_eq_none_iff.mp hnone)
  constructor
  · intro h requests hrequests
    rw [← hpanics requests fun _ => 0]
    exact (TradeTasks.joined_nonePending_iff (dispatched_tradeTasks hrequests _)).mp
      fun schedule s hrun hjoined => h _ schedule _
        (onIndexedBlockMessage_eq_some.mpr ⟨requests, s, hrequests, hrun, hjoined, rfl⟩)
  · intro h txHashes schedule trades' hreturns
    obtain ⟨requests, s, hrequests, hrun, hjoined, rfl⟩ := onIndexedBlockMessage_eq_some.mp hreturns
    have hnone := h requests hrequests
    rw [← hpanics requests txHashes] at hnone
    exact (TradeTasks.joined_nonePending_iff (dispatched_tradeTasks hrequests txHashes)).mpr hnone
      schedule s hrun hjoined

/-- A node that answers every call, with nothing in the reserves of a pair. -/
def emptyPool : RpcProvider Unit :=
  ⟨0, fun _ _ => .ok [], fun _ => .ok (some (.hashes [0])), fun _ => .ok (some 1)⟩

def zeroAbi : SwapAbi Unit := ⟨fun _ => .ok (0, 0), fun _ => .ok [], fun _ => .ok 0, fun _ => .ok (0, 0)⟩

/-- A strategy that opens and closes whenever it is asked. -/
def eager : StrategyExecutor := ⟨⟨fun _ _ => true, fun _ _ _ => true⟩, false⟩

def pairStore : TimePriceBarStore :=
  { TimePriceBarStore.new .fiveMinutes 60 true with
    timePriceBars := OrdMap.empty.insert 1 (.new (some 60) .fiveMinutes (some .all)) }

/-- The task that opens a position in an empty pool panics, and the token stays pending. -/
theorem onIndexedBlockMessage_not_nonePending :
    ¬∀ (abi : SwapAbi Unit) (rpcProvider : RpcProvider Unit) (executor : StrategyExecutor)
      (message : BlockMessage) (store : TimePriceBarStore) (trades trades' : Trades Address StrategyTrade)
      (txHashes : Nat → Nat) (schedule : List Nat), trades.NonePending →
      executor.onIndexedBlockMessage abi rpcProvider message store trades txHashes schedule =
        some trades' → trades'.NonePending := by
  intro h
  obtain ⟨trades', hreturns, hpending⟩ : ∃ trades',
      eager.onIndexedBlockMessage zeroAbi emptyPool ⟨1, 6000, [.uniswapV2 ⟨1, WETH_ADDRESS, 0⟩]⟩
        pairStore (fun _ => none) (fun _ => 0) [0, 0, 0] = some trades' ∧
      (trades'.view 0).active = some .pendingOpen := ⟨_, rfl, rfl⟩
  have hempty : Trades.NonePending (fun _ => none : Trades Address StrategyTrade) :=
    fun _ => .inl rfl
  rcases h _ _ _ _ _ _ _ _ _ hempty hreturns 0 with hnone | ⟨m, hm⟩
  · rw [hpending] at hnone
    cases hnone
  · rw [hpending] at hm
    cases hm

end StrategyExecutor

end Pochtecatl
