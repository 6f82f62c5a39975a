import Mathlib.Data.List.ReduceOption
import Pochtecatl.ListMapM
import Pochtecatl.Pair
import Pochtecatl.TimePriceBarStore
import Pochtecatl.Trades
import Pochtecatl.Transaction

namespace Pochtecatl

inductive TradeRequestOp where
  | open_
  | close (openTrade : IndexedTrade) (openTradeTxHash : Nat)
  deriving DecidableEq

def TradeRequestOp.label : TradeRequestOp → String
  | open_ => "Open"
  | close _ _ => "Close"

/-- The metadata of the trades that the strategy requests. -/
abbrev StrategyTrade := TradeMetadata Address IndexedTrade TradeRequestOp

structure TradeRequest where
  blockNumber : Nat
  blockTimestamp : Nat
  op : TradeRequestOp
  pair : Pair
  deriving DecidableEq

def TradeRequest.tokenAddress (request : TradeRequest) : Address := request.pair.tokenAddress

structure BlockMessage where
  blockNumber : Nat
  blockTimestamp : Nat
  pairs : List Pair

/-- The order is that in which the map of the block is iterated. -/
def BlockMessage.ofBlock (block : Block PairTicks) (order : List Address) : BlockMessage :=
  ⟨block.blockNumber, block.blockTimestamp,
    order.filterMap fun pairAddress => (block.pairTicks.get? pairAddress).map PairBlockTick.pair⟩

/-- A strategy, by whether its answers are `Ok`. -/
structure Strategy where
  shouldOpenPosition : TimePriceBars → Nat → Bool
  shouldClosePosition : TimePriceBars → Nat → Nat → Bool

def TARGET_PAIR_ADDRESS : Address := 0xc9034c3E7F58003E6ae0C8438e7c8f4598d5ACAA

structure StrategyExecutor where
  strategy : Strategy
  /-- `cfg!(feature = "local")` -/
  isLocal : Bool

namespace StrategyExecutor

open ResolutionTimestamp

variable (executor : StrategyExecutor) (resolution : Resolution) (message : BlockMessage)

/-- The request that the strategy makes for a pair. Bars are by pair, trades are by token. -/
def tradeRequest (trades : Trades Address StrategyTrade) (pairTimePriceBars : TimePriceBars)
    (pair : Pair) : Option TradeRequest :=
  let timestamp := fromTimestamp message.blockTimestamp resolution
  match (trades pair.tokenAddress).bind (·.active) with
  | none =>
    if executor.strategy.shouldOpenPosition pairTimePriceBars timestamp then
      some ⟨message.blockNumber, message.blockTimestamp, .open_, pair⟩
    else none
  | some (.opened openTrade) =>
    if executor.strategy.shouldClosePosition pairTimePriceBars timestamp
        (fromTimestamp openTrade.blockTimestamp resolution) then
      some ⟨message.blockNumber, message.blockTimestamp,
        .close openTrade.indexedTrade openTrade.txHash, pair⟩
    else none
  -- a pending position is not acted on
  | some _ => none

/-- The requests of a block, in the order of its pairs. `none` is the panic on a pair
without bars. -/
def tradeRequests (store : TimePriceBarStore) (trades : Trades Address StrategyTrade) :
    Option (List TradeRequest) :=
  let pairs := message.pairs.filter fun pair =>
    !executor.isLocal || pair.address = TARGET_PAIR_ADDRESS
  (pairs.mapM fun pair => (store.timePriceBars.get? pair.address).map fun bars =>
    executor.tradeRequest store.resolution message trades bars pair).map List.reduceOption

/-- The requests are those the strategy makes for the pairs it looks at. -/
theorem mem_tradeRequests {executor : StrategyExecutor} {message : BlockMessage}
    {store : TimePriceBarStore} {trades : Trades Address StrategyTrade}
    {requests : List TradeRequest}
    (h : executor.tradeRequests message store trades = some requests) {request : TradeRequest} :
    request ∈ requests ↔ ∃ pair ∈ message.pairs,
      (!executor.isLocal || pair.address = TARGET_PAIR_ADDRESS) ∧
        ∃ bars, store.timePriceBars.get? pair.address = some bars ∧
          executor.tradeRequest store.resolution message trades bars pair = some request := by
  obtain ⟨made, hmade, rfl⟩ := Option.map_eq_some_iff.mp h
  rw [List.reduceOption_mem_iff, List.mem_of_mapM_option hmade]
  simp only [List.mem_filter, Option.map_eq_some_iff, and_assoc]

/-- The strategy finds the bars of every pair. -/
theorem tradeRequests_ne_none {executor : StrategyExecutor} {message : BlockMessage}
    {store : TimePriceBarStore} {trades : Trades Address StrategyTrade}
    (h : ∀ pair ∈ message.pairs, (store.timePriceBars.get? pair.address).isSome) :
    executor.tradeRequests message store trades ≠ none := by
  unfold tradeRequests
  dsimp only
  rw [ne_eq, Option.map_eq_none_iff, List.mapM_option_eq_none_iff]
  rintro ⟨pair, hpair, hnone⟩
  have hbars := h pair (List.mem_filter.mp hpair).1
  rw [Option.map_eq_none_iff.mp hnone] at hbars
  cases hbars

end StrategyExecutor

end Pochtecatl
