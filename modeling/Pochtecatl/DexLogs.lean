import Pochtecatl.PairBlockTick

namespace Pochtecatl

structure UniswapV2Swap where
  amount0In : U256
  amount1In : U256
  amount0Out : U256
  amount1Out : U256
  to_ : Address
  deriving DecidableEq

structure UniswapV2Sync where
  reserve0 : BitVec 112
  reserve1 : BitVec 112
  deriving DecidableEq

structure UniswapV3Swap where
  recipient : Address
  amount0 : U256
  amount1 : U256
  sqrtPriceX96 : BitVec 160
  liquidity : BitVec 128
  deriving DecidableEq

/-- What the generated decoder of its signature reads from a log. -/
inductive DexEvent where
  | uniswapV2Swap (swap : UniswapV2Swap)
  | uniswapV2Sync (sync : UniswapV2Sync)
  | uniswapV3Swap (swap : UniswapV3Swap)
  | undecodable
  deriving DecidableEq

structure DexLog where
  address : Address
  logIndex : Option Nat
  event : DexEvent
  deriving DecidableEq

structure IndexedTradeParseContext where
  idx : Nat
  logs : List (RpcLog DexLog)

/-- The log before the one that the context is at. -/
def IndexedTradeParseContext.prevLog (ctx : IndexedTradeParseContext) : Option (RpcLog DexLog) :=
  if ctx.idx = 0 then none else ctx.logs[ctx.idx - 1]?

/-- The log index of `log` is the one after that of `prevLog`. -/
def DexLog.follows (log prevLog : DexLog) : Bool :=
  prevLog.logIndex.any fun prevLogIndex =>
    log.logIndex.any fun logIndex => (prevLogIndex + 1) % 2 ^ 64 = logIndex

def tryParseSwapEvent (log : DexLog) : Option UniswapV2Swap :=
  match log.event with
  | .uniswapV2Swap swap => some swap
  | _ => none

def tryParseSyncEvent (log : DexLog) : Option UniswapV2Sync :=
  match log.event with
  | .uniswapV2Sync sync => some sync
  | _ => none

def tryParsePoolSwapEvent (log : DexLog) : Option UniswapV3Swap :=
  match log.event with
  | .uniswapV3Swap swap => some swap
  | _ => none

/-- The trade of a swap and of the sync that the pair logged before it. -/
def UniswapV2IndexedTrade.ofSwap (address : Address) (swap : UniswapV2Swap)
    (sync : UniswapV2Sync) : UniswapV2IndexedTrade :=
  ⟨address, swap.amount0In, swap.amount1In, swap.amount0Out, swap.amount1Out,
    sync.reserve0.setWidth 256, sync.reserve1.setWidth 256, swap.to_⟩

def UniswapV3IndexedTrade.ofSwap (address : Address) (swap : UniswapV3Swap) :
    UniswapV3IndexedTrade :=
  ⟨address, swap.recipient, swap.amount0, swap.amount1, swap.sqrtPriceX96.setWidth 256,
    swap.liquidity.setWidth 256⟩

/-- The previous log of the vector has to be the previous log of the block, of the same pair. -/
def UniswapV2IndexedTrade.tryFrom (ctx : IndexedTradeParseContext) :
    Option UniswapV2IndexedTrade := do
  let log ← ctx.logs[ctx.idx]?
  let prevLog ← ctx.prevLog
  if prevLog.blockHash = log.blockHash ∧ prevLog.event.address = log.event.address ∧
      log.event.follows prevLog.event then
    let swap ← tryParseSwapEvent log.event
    let sync ← tryParseSyncEvent prevLog.event
    pure (.ofSwap log.event.address swap sync)
  else none

def UniswapV3IndexedTrade.tryFrom (ctx : IndexedTradeParseContext) :
    Option UniswapV3IndexedTrade := do
  let log ← ctx.logs[ctx.idx]?
  let swap ← tryParsePoolSwapEvent log.event
  pure (.ofSwap log.event.address swap)

namespace IndexedTrade

def tryFrom (ctx : IndexedTradeParseContext) : Option IndexedTrade :=
  match UniswapV2IndexedTrade.tryFrom ctx with
  | some trade => some (uniswapV2 trade)
  | none => (UniswapV3IndexedTrade.tryFrom ctx).map uniswapV3

/-- The context visits every index of the logs. What does not parse is skipped. -/
def fromLogs (logs : List (RpcLog DexLog)) : List IndexedTrade :=
  (List.range logs.length).filterMap fun idx => tryFrom ⟨idx, logs⟩

end IndexedTrade

end Pochtecatl
