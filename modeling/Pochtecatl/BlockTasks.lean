import Pochtecatl.PendingPositions
import Pochtecatl.TradeSimulation

namespace Pochtecatl

def TradeRequestOp.closes : TradeRequestOp → Bool
  | open_ => false
  | close _ _ => true

section Tasks

variable {ε : Type} (abi : SwapAbi ε) (rpcProvider : RpcProvider ε)

/-- The task that is spawned for a request. -/
def TradeRequest.task (txHash : Nat) (request : TradeRequest) :
    TradeTask Address StrategyTrade (SimulateError ε) :=
  ⟨request.tokenAddress, request.op.closes,
    request.simulateTradeRequest abi rpcProvider true txHash⟩

/-- `txHashes` are the random hashes of the simulated transactions. -/
def tradeTasks (requests : List TradeRequest) (txHashes : Nat → Nat) :
    List (TradeTask Address StrategyTrade (SimulateError ε)) :=
  requests.mapIdx fun id request => request.task abi rpcProvider (txHashes id)

/-- The trades when the call returns. `schedule` is the order in which its tasks run their
steps. `none` is a panic, or an order that does not end all of them. -/
def StrategyExecutor.onIndexedBlockMessage (executor : StrategyExecutor) (message : BlockMessage)
    (store : TimePriceBarStore) (trades : Trades Address StrategyTrade) (txHashes : Nat → Nat)
    (schedule : List Nat) : Option (Trades Address StrategyTrade) :=
  (executor.tradeRequests message store trades).bind fun requests =>
    let tasks := tradeTasks abi rpcProvider requests txHashes
    ((TradeTasks.machine tasks).run (.spawn trades) schedule).bind fun s =>
      if s.Joined tasks then some s.controller.trades else none

variable {abi : SwapAbi ε} {rpcProvider : RpcProvider ε} {executor : StrategyExecutor}
  {message : BlockMessage} {store : TimePriceBarStore} {trades trades' : Trades Address StrategyTrade}
  {requests : List TradeRequest} {txHashes : Nat → Nat} {schedule : List Nat}

theorem mem_tradeTasks {task : TradeTask Address StrategyTrade (SimulateError ε)} :
    task ∈ tradeTasks abi rpcProvider requests txHashes ↔ ∃ (id : Nat) (request : TradeRequest),
      requests[id]? = some request ∧ request.task abi rpcProvider (txHashes id) = task := by
  rw [List.mem_iff_getElem?]
  simp only [tradeTasks, List.getElem?_mapIdx, Option.map_eq_some_iff]

theorem onIndexedBlockMessage_eq_some :
    executor.onIndexedBlockMessage abi rpcProvider message store trades txHashes schedule =
        some trades' ↔
      ∃ requests s, executor.tradeRequests message store trades = some requests ∧
        (TradeTasks.machine (tradeTasks abi rpcProvider requests txHashes)).run (.spawn trades)
          schedule = some s ∧
        s.Joined (tradeTasks abi rpcProvider requests txHashes) ∧ s.controller.trades = trades' := by
  simp only [StrategyExecutor.onIndexedBlockMessage, Option.bind_eq_some_iff,
    Option.ite_none_right_eq_some, Option.some.injEq, exists_and_left]

theorem active_view (trades : Trades Address StrategyTrade) (token : Address) :
    (trades token).bind (·.active) = (trades.view token).active := by
  unfold Trades.view
  cases trades token with
  | none => rfl
  | some t => rfl

/-- A request fits the trades it was made from. -/
theorem tradeRequest_eq_some {resolution : Resolution} {bars : TimePriceBars} {pair : Pair}
    {request : TradeRequest}
    (h : executor.tradeRequest resolution message trades bars pair = some request) :
    request.pair = pair ∧ ((request.op = .open_ ∧ (trades.view pair.tokenAddress).active = none) ∨
      ∃ m, request.op = .close m.indexedTrade m.txHash ∧
        (trades.view pair.tokenAddress).active = some (.opened m)) := by
  unfold StrategyExecutor.tradeRequest at h
  dsimp only at h
  rw [active_view] at h
  split at h
  next hactive =>
    split at h
    next =>
      cases h
      exact ⟨rfl, .inl ⟨rfl, hactive⟩⟩
    next => cases h
  next m hactive =>
    split at h
    next =>
      cases h
      exact ⟨rfl, .inr ⟨m, rfl, hactive⟩⟩
    next => cases h
  next => cases h

theorem dispatched_tradeTasks
    (h : executor.tradeRequests message store trades = some requests) (txHashes : Nat → Nat) :
    TradeTasks.Dispatched (tradeTasks abi rpcProvider requests txHashes) trades := by
  intro task htask
  obtain ⟨id, request, hrequest, rfl⟩ := mem_tradeTasks.mp htask
  obtain ⟨pair, -, -, bars, -, hmade⟩ :=
    (StrategyExecutor.mem_tradeRequests h).mp (List.mem_of_getElem? hrequest)
  obtain ⟨rfl, ⟨hop, hactive⟩ | ⟨m, hop, hactive⟩⟩ := tradeRequest_eq_some hmade
  · have hcloses : ¬(request.task abi rpcProvider (txHashes id)).closes := by
      rw [TradeRequest.task, hop]
      exact Bool.false_ne_true
    exact (TradeTask.admits_open hcloses).mpr hactive
  · have hcloses : (request.task abi rpcProvider (txHashes id)).closes := by
      rw [TradeRequest.task, hop]
      rfl
    exact (TradeTask.admits_close hcloses).mpr ⟨m, hactive⟩

end Tasks

end Pochtecatl
