import Pochtecatl.BlockTasks

namespace Pochtecatl

section Map

variable {μ ν : Type}

def Trade.map (f : μ → ν) : Trade μ → Trade ν
  | pendingOpen => .pendingOpen
  | opened m => .opened (f m)
  | pendingClose => .pendingClose

namespace AddressTrades

def map (f : μ → ν) (t : AddressTrades μ) : AddressTrades ν :=
  ⟨t.active.map (Trade.map f), t.closed.map (Prod.map f f)⟩

theorem map_settle (f : μ → ν) (t : AddressTrades μ) (outcome : Option (Option μ)) :
    (t.settle outcome).map f = (t.map f).settle (outcome.map (Option.map f)) := by
  obtain ⟨active, closed⟩ := t
  cases outcome with
  | none =>
    cases active with
    | none => rfl
    | some trade => cases trade <;> rfl
  | some outcome =>
    cases outcome with
    | none => rfl
    | some m =>
      cases active with
      | none => rfl
      | some trade =>
        cases trade with
        | pendingOpen => rfl
        | pendingClose => rfl
        | opened openTrade => simp [settle, map, close, Trade.map]

end AddressTrades

end Map

/-! ### Trades without their random hashes -/

def TradeRequestOp.withoutTxHash : TradeRequestOp → TradeRequestOp
  | open_ => open_
  | close openTrade _ => close openTrade 0

def TradeRequest.withoutTxHash (request : TradeRequest) : TradeRequest :=
  { request with op := request.op.withoutTxHash }

def withoutTxHash (m : StrategyTrade) : StrategyTrade :=
  { m with txHash := 0, op := m.op.withoutTxHash }

/-- The ledgers differ in the hashes of their simulated transactions only. -/
def SameTrades (trades trades' : Trades Address StrategyTrade) : Prop :=
  ∀ token, (trades.view token).map withoutTxHash = (trades'.view token).map withoutTxHash

section Outcome

variable {ε : Type} (abi : SwapAbi ε) (rpcProvider : RpcProvider ε)

/-- How the simulation of a request ends, apart from the hash that it draws. -/
def TradeRequest.outcome (request : TradeRequest) : Option (Option StrategyTrade) :=
  (request.task abi rpcProvider 0).outcome.map (Option.map Pochtecatl.withoutTxHash)

theorem UniswapV2Pair.toOption_simulateTradeRequest (pair : UniswapV2Pair) (op : TradeRequestOp)
    (blockNumber : Nat) :
    (pair.simulateTradeRequest abi rpcProvider op.withoutTxHash blockNumber).map Except.toOption =
      (pair.simulateTradeRequest abi rpcProvider op blockNumber).map Except.toOption := by
  cases op with
  | open_ => rfl
  | close openTrade hash =>
    cases openTrade with
    | uniswapV2 trade => rfl
    | uniswapV3 trade =>
      unfold simulateTradeRequest TradeRequestOp.withoutTxHash
      split
      next => rfl
      next => rfl

theorem UniswapV3Pair.toOption_simulateTradeRequest (pair : UniswapV3Pair) (op : TradeRequestOp)
    (blockNumber : Nat) :
    (pair.simulateTradeRequest abi rpcProvider op.withoutTxHash blockNumber).map Except.toOption =
      (pair.simulateTradeRequest abi rpcProvider op blockNumber).map Except.toOption := by
  cases op with
  | open_ => rfl
  | close openTrade hash =>
    cases openTrade with
    | uniswapV2 trade => rfl
    | uniswapV3 trade => rfl

theorem toOption_map {α β δ : Type} (f : α → β) (r : Except δ α) :
    (r.map f).toOption = r.toOption.map f := by
  cases r with
  | ok a => rfl
  | error e => rfl

theorem Pair.toOption_simulateTradeRequest (pair : Pair) (op : TradeRequestOp)
    (blockNumber : Nat) :
    (pair.simulateTradeRequest abi rpcProvider op.withoutTxHash blockNumber).map Except.toOption =
      (pair.simulateTradeRequest abi rpcProvider op blockNumber).map Except.toOption := by
  cases pair with
  | uniswapV2 pair =>
    have h := congrArg (Option.map (Option.map IndexedTrade.uniswapV2))
      (pair.toOption_simulateTradeRequest abi rpcProvider op blockNumber)
    simpa only [simulateTradeRequest, Option.map_map, Function.comp_def, toOption_map] using h
  | uniswapV3 pair =>
    have h := congrArg (Option.map (Option.map IndexedTrade.uniswapV3))
      (pair.toOption_simulateTradeRequest abi rpcProvider op blockNumber)
    simpa only [simulateTradeRequest, Option.map_map, Function.comp_def, toOption_map] using h

/-- What the outcome takes from the simulation of the pair. -/
def TradeRequest.committed (request : TradeRequest) (txHash : Nat) (trade : Option IndexedTrade) :
    Option StrategyTrade :=
  trade.bind fun indexedTrade => (request.estimatedGasFee rpcProvider).toOption.map fun gasFee =>
    ⟨txHash, request.blockNumber, request.blockTimestamp, request.op, request.tokenAddress, gasFee,
      indexedTrade⟩

variable {abi rpcProvider}

theorem TradeRequest.toOption_simulateTradeRequest (request : TradeRequest) (txHash : Nat) :
    (request.simulateTradeRequest abi rpcProvider true txHash).map Except.toOption =
      ((request.pair.simulateTradeRequest abi rpcProvider request.op request.blockNumber).map
        Except.toOption).map (request.committed rpcProvider txHash) := by
  unfold simulateTradeRequest
  rw [if_pos rfl, Option.map_map, Option.map_map]
  refine congrArg (Option.map · _) (funext fun result => ?_)
  cases result with
  | error e => rfl
  | ok indexedTrade =>
    cases hfee : request.estimatedGasFee rpcProvider with
    | error e => simp [committed, hfee, bind, Except.bind, Except.toOption]
    | ok gasFee => simp [committed, hfee, bind, Except.bind, Except.toOption, pure, Except.pure]

theorem TradeRequestOp.withoutTxHash_withoutTxHash (op : TradeRequestOp) :
    op.withoutTxHash.withoutTxHash = op.withoutTxHash := by
  cases op with
  | open_ => rfl
  | close openTrade hash => rfl

theorem TradeRequest.withoutTxHash_withoutTxHash (request : TradeRequest) :
    request.withoutTxHash.withoutTxHash = request.withoutTxHash := by
  simp only [withoutTxHash, TradeRequestOp.withoutTxHash_withoutTxHash]

theorem TradeRequest.map_committed (request : TradeRequest) (txHash : Nat)
    (trade : Option IndexedTrade) :
    (request.committed rpcProvider txHash trade).map Pochtecatl.withoutTxHash =
      (request.withoutTxHash.committed rpcProvider 0 trade).map
        Pochtecatl.withoutTxHash := by
  have hfee : request.withoutTxHash.estimatedGasFee rpcProvider =
      request.estimatedGasFee rpcProvider := rfl
  unfold committed
  rw [hfee]
  cases trade with
  | none => rfl
  | some indexedTrade =>
    cases (request.estimatedGasFee rpcProvider).toOption with
    | none => rfl
    | some gasFee =>
      simp only [Option.bind_some, Option.map_some, Pochtecatl.withoutTxHash,
        TradeRequest.withoutTxHash, TradeRequestOp.withoutTxHash_withoutTxHash]
      rfl

/-- The hashes decide nothing. -/
theorem TradeRequest.outcome_task (request : TradeRequest) (txHash : Nat) :
    (request.task abi rpcProvider txHash).outcome.map (Option.map Pochtecatl.withoutTxHash) =
      request.withoutTxHash.outcome abi rpcProvider := by
  have hsame : ∀ (request : TradeRequest) (txHash : Nat),
      (request.task abi rpcProvider txHash).outcome.map (Option.map Pochtecatl.withoutTxHash) =
        ((request.pair.simulateTradeRequest abi rpcProvider request.op request.blockNumber).map
          Except.toOption).map fun trade =>
            (request.committed rpcProvider txHash trade).map
              Pochtecatl.withoutTxHash := by
    intro request txHash
    have htask : (request.task abi rpcProvider txHash).outcome =
        (request.simulateTradeRequest abi rpcProvider true txHash).map Except.toOption := rfl
    rw [htask, toOption_simulateTradeRequest, Option.map_map]
    rfl
  have hpair :=
    request.pair.toOption_simulateTradeRequest abi rpcProvider request.op request.blockNumber
  rw [outcome, hsame, hsame, ← hpair]
  simp only [map_committed request txHash, map_committed request.withoutTxHash 0,
    withoutTxHash_withoutTxHash]
  rfl

theorem TradeRequest.outcome_withoutTxHash (request : TradeRequest) :
    request.withoutTxHash.outcome abi rpcProvider = request.outcome abi rpcProvider :=
  (request.outcome_task 0).symm

end Outcome

/-! ### The requests of a block -/

section Requests

variable {executor : StrategyExecutor} {trades trades' : Trades Address StrategyTrade}

theorem SameTrades.active (h : SameTrades trades trades') (token : Address) :
    (trades.view token).active.map (Trade.map withoutTxHash) =
      (trades'.view token).active.map (Trade.map withoutTxHash) :=
  congrArg AddressTrades.active (h token)

/-- The strategy sees no hash. -/
theorem tradeRequest_congr (h : SameTrades trades trades') {message message' : BlockMessage}
    (hnumber : message'.blockNumber = message.blockNumber)
    (htimestamp : message'.blockTimestamp = message.blockTimestamp) (resolution : Resolution)
    (bars : TimePriceBars) (pair : Pair) :
    (executor.tradeRequest resolution message' trades' bars pair).map TradeRequest.withoutTxHash =
      (executor.tradeRequest resolution message trades bars pair).map
        TradeRequest.withoutTxHash := by
  have hactive := h.active pair.tokenAddress
  unfold StrategyExecutor.tradeRequest
  rw [active_view, active_view, hnumber, htimestamp]
  cases hold : (trades.view pair.tokenAddress).active with
  | none =>
    rw [hold, Option.map_none, eq_comm, Option.map_eq_none_iff] at hactive
    rw [hactive]
  | some trade =>
    rw [hold, Option.map_some, eq_comm, Option.map_eq_some_iff] at hactive
    obtain ⟨trade', hnew, hmap⟩ := hactive
    rw [hnew]
    cases trade with
    | pendingOpen =>
      cases trade' with
      | pendingOpen => rfl
      | _ => cases hmap
    | pendingClose =>
      cases trade' with
      | pendingClose => rfl
      | _ => cases hmap
    | opened m =>
      cases trade' with
      | opened m' =>
        have hm : withoutTxHash m' = withoutTxHash m := Trade.opened.inj hmap
        have hopened := congrArg TradeMetadata.blockTimestamp hm
        have htrade := congrArg TradeMetadata.indexedTrade hm
        dsimp only [withoutTxHash] at hopened htrade ⊢
        rw [hopened, htrade]
        split
        next => rfl
        next => rfl
      | _ => cases hmap

theorem BlockMessage.mem_ofBlock {block : Block PairTicks} {order : List Address}
    (ho : block.pairTicks.IterOrder order) {pair : Pair} :
    pair ∈ (BlockMessage.ofBlock block order).pairs ↔
      ∃ a tick, block.pairTicks.get? a = some tick ∧ tick.pair = pair := by
  simp only [ofBlock, List.mem_filterMap, Option.map_eq_some_iff]
  constructor
  · rintro ⟨a, -, tick, hget, hpair⟩
    exact ⟨a, tick, hget, hpair⟩
  · rintro ⟨a, tick, hget, hpair⟩
    exact ⟨a, (ho.2 a).mpr (by rw [hget]; rfl), tick, hget, hpair⟩

/-- The order of the map of a block does not change which requests are made. -/
theorem tradeRequests_congr (h : SameTrades trades trades') {block : Block PairTicks}
    {order order' : List Address} (ho : block.pairTicks.IterOrder order)
    (ho' : block.pairTicks.IterOrder order') {store : TimePriceBarStore}
    {requests requests' : List TradeRequest}
    (hrequests : executor.tradeRequests (.ofBlock block order) store trades = some requests)
    (hrequests' : executor.tradeRequests (.ofBlock block order') store trades' = some requests')
    {request' : TradeRequest} (hm : request' ∈ requests') :
    ∃ request ∈ requests, request.withoutTxHash = request'.withoutTxHash := by
  obtain ⟨pair, hpair, hlocal, bars, hbars, hmade⟩ :=
    (StrategyExecutor.mem_tradeRequests hrequests').mp hm
  have hsame := @tradeRequest_congr executor _ _ h (.ofBlock block order) (.ofBlock block order')
    rfl rfl store.resolution bars pair
  rw [hmade, Option.map_some, eq_comm, Option.map_eq_some_iff] at hsame
  obtain ⟨request, hrequest, heq⟩ := hsame
  have hpair' := (BlockMessage.mem_ofBlock ho).mpr ((BlockMessage.mem_ofBlock ho').mp hpair)
  exact ⟨request, (StrategyExecutor.mem_tradeRequests hrequests).mpr
    ⟨pair, hpair', hlocal, bars, hbars, hrequest⟩, heq⟩

end Requests

end Pochtecatl
