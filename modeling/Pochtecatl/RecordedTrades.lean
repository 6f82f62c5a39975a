import Pochtecatl.ClosedPools
import Pochtecatl.LogSplits
import Pochtecatl.PriceOrientation

namespace Pochtecatl

/-- The receipt that the node returns. An envelope of an unknown type holds no logs. -/
structure TransactionReceipt where
  transactionHash : Nat
  blockNumber : Option Nat
  gasUsed : Option Nat
  effectiveGasPrice : Nat
  logs : Option (List (RpcLog DexLog))

def IndexedTrade.fromReceipt (receipt : TransactionReceipt) : List IndexedTrade :=
  (receipt.logs.map fromLogs).getD []

/-- What `into_trade_metadata` reads of a receipt. -/
def TransactionReceipt.toReceipt (receipt : TransactionReceipt) : Receipt IndexedTrade :=
  ⟨receipt.transactionHash, receipt.blockNumber, receipt.gasUsed, receipt.effectiveGasPrice,
    IndexedTrade.fromReceipt receipt⟩

/-- The log at the place is a swap. -/
def SwapAt (logs : List (RpcLog DexLog)) (i : Nat) (trade : IndexedTrade) : Prop :=
  ∃ log, logs[i]? = some log ∧ ParsedFrom (IndexedTradeParseContext.prevLog ⟨i, logs⟩) log trade

/-- The logs hold one swap of the pair, among any others. -/
structure Pair.OnlySwapAt (pair : Pair) (logs : List (RpcLog DexLog)) (i : Nat)
    (trade : IndexedTrade) : Prop where
  swapAt : SwapAt logs i trade
  traded : pair.Traded trade
  only : ∀ j other, SwapAt logs j other → pair.Traded other → j = i

/-- The tokens that the trade paid out, if it did. A V3 pool counts what it pays out as negative. -/
def Pair.tokensReceived : Pair → IndexedTrade → Option U256
  | uniswapV2 pair, .uniswapV2 trade =>
    some (if pair.token0 = WETH_ADDRESS then trade.amount1Out else trade.amount0Out)
  | uniswapV3 pair, .uniswapV3 trade =>
    let amount := if pair.token0 = WETH_ADDRESS then trade.amount1 else trade.amount0
    if amount.toInt < 0 then some (-amount) else none
  | _, _ => none

/-- The tokens that the transaction sells. -/
def TransactionRequest.tokensSold (request : TransactionRequest) : Option U256 :=
  match request.input with
  | .swapExactETHForTokens _ _ _ _ => none
  | .swapExactTokensForETH amountIn _ _ _ _ => some amountIn
  | .exactInputSingle params => some params.amountIn

/-- The metadata carries the trade, and its position is closed by selling what the trade paid
out. -/
structure TradeMetadata.Records (m : StrategyTrade) (pair : Pair) (trade : IndexedTrade) :
    Prop where
  indexedTrade : m.indexedTrade = trade
  sold : ∀ (ε : Type) (abi : SwapAbi ε) (rpcProvider : QuotingRpcProvider ε)
    (blockNumber blockTimestamp : Nat) (tx : TransactionRequest) (received : U256),
    (TradeRequest.mk blockNumber blockTimestamp (.close m.indexedTrade m.txHash)
      pair).makeTradeTransactionRequest abi rpcProvider = some (.ok tx) →
    pair.tokensReceived trade = some received → tx.tokensSold = some received

/-! ### The first swap -/

section Logs

variable {logs : List (RpcLog DexLog)} {i : Nat} {trade : IndexedTrade}

theorem tryFrom_iff_swapAt : IndexedTrade.tryFrom ⟨i, logs⟩ = some trade ↔ SwapAt logs i trade :=
  IndexedTrade.tryFrom_eq_some

/-- The first swap of the logs is the first trade. -/
theorem SwapAt.head? (h : SwapAt logs i trade) (hfirst : ∀ j < i, ∀ other, ¬SwapAt logs j other) :
    (IndexedTrade.fromLogs logs).head? = some trade := by
  have hlt : i < logs.length := by
    obtain ⟨log, hlog, -⟩ := h
    exact (List.getElem?_eq_some_iff.mp hlog).1
  have hsplit : logs.length = i + ((logs.length - i - 1) + 1) := by omega
  rw [IndexedTrade.fromLogs, List.head?_filterMap, hsplit, List.range_add, List.range_succ_eq_map,
    List.map_cons]
  refine List.findSome?_eq_some_iff.mpr ⟨List.range i, i + 0, _, rfl, ?_, fun j hj => ?_⟩
  · exact tryFrom_iff_swapAt.mpr h
  · cases htry : IndexedTrade.tryFrom ⟨j, logs⟩ with
    | none => rfl
    | some other =>
      exact absurd (tryFrom_iff_swapAt.mp htry) (hfirst j (List.mem_range.mp hj) other)

/-- Logs with a swap have a first one. -/
theorem SwapAt.exists_first (h : SwapAt logs i trade) : ∃ j other, j ≤ i ∧ SwapAt logs j other ∧
    ∀ k < j, ∀ another, ¬SwapAt logs k another := by
  induction i using Nat.strong_induction_on generalizing trade with
  | _ i ih =>
    by_cases hfirst : ∀ k < i, ∀ another, ¬SwapAt logs k another
    · exact ⟨i, trade, Nat.le_refl i, h, hfirst⟩
    · push Not at hfirst
      obtain ⟨k, hk, another, hanother⟩ := hfirst
      obtain ⟨j, other, hj, hother⟩ := ih k hk hanother
      exact ⟨j, other, by omega, hother⟩

/-- The trade of the pair is the first one only when no other pair swaps before. -/
theorem Pair.OnlySwapAt.head?_iff {pair : Pair} (h : pair.OnlySwapAt logs i trade) :
    (IndexedTrade.fromLogs logs).head? = some trade ↔
      ∀ j < i, ∀ other, ¬SwapAt logs j other := by
  refine ⟨fun hhead j hj other hother => ?_, h.swapAt.head?⟩
  obtain ⟨k, first, hk, hswap, hfirst⟩ := hother.exists_first
  have heq : first = trade := Option.some.inj ((hswap.head? hfirst).symm.trans hhead)
  rw [heq] at hswap
  have hsame : k = i := h.only k trade hswap h.traded
  omega

end Logs

/-! ### The position -/

section Sold

variable {ε : Type} {abi : SwapAbi ε} {rpcProvider : QuotingRpcProvider ε} {pair : Pair}
  {trade : IndexedTrade} {blockNumber blockTimestamp txHash : Nat} {tx : TransactionRequest}
  {received : U256}

theorem UniswapV2Pair.tokensSold_of_makeTradeTransactionRequest {pair : UniswapV2Pair}
    {trade : UniswapV2IndexedTrade} (txHash : Nat)
    (h : pair.makeTradeTransactionRequest abi rpcProvider (.close (.uniswapV2 trade) txHash)
      blockNumber blockTimestamp = some (.ok tx)) :
    tx.tokensSold = some (pair.amountBought trade) := by
  unfold UniswapV2Pair.makeTradeTransactionRequest at h
  split at h
  next => cases h
  next =>
    obtain ⟨minEthAmountOut, -, hok⟩ := Option.map_eq_some_iff.mp h
    cases hok
    rfl

theorem UniswapV3Pair.tokensSold_of_makeTradeTransactionRequest {pair : UniswapV3Pair}
    {trade : UniswapV3IndexedTrade} (txHash : Nat)
    (h : pair.makeTradeTransactionRequest abi rpcProvider (.close (.uniswapV3 trade) txHash)
      blockNumber = .ok tx) : tx.tokensSold = some (pair.amountBought trade) := by
  simp only [UniswapV3Pair.makeTradeTransactionRequest, UniswapV3Pair.quoteParams] at h
  cases hquote : quoteExactInputSingleCall abi rpcProvider
      ⟨pair.tokenAddress, WETH_ADDRESS, pair.amountBought trade, pair.fee, 0⟩ blockNumber with
  | error e =>
    rw [hquote] at h
    cases h
  | ok amountOut =>
    rw [hquote] at h
    cases h
    rfl

theorem U256.unsignedAbs_of_neg {a : U256} (h : a.toInt < 0) : a.unsignedAbs = -a := by
  rw [U256.unsignedAbs, if_pos]
  rw [BitVec.msb_eq_toInt]
  exact decide_eq_true h

/-- The close of a trade of the pair sells what the trade paid out. -/
theorem Pair.tokensSold_eq_tokensReceived
    (h : pair.makeTradeTransactionRequest abi rpcProvider (.close trade txHash) blockNumber
      blockTimestamp = some (.ok tx)) (hreceived : pair.tokensReceived trade = some received) :
    tx.tokensSold = some received := by
  cases pair with
  | uniswapV2 pair =>
    cases trade with
    | uniswapV2 trade =>
      rw [← hreceived]
      exact UniswapV2Pair.tokensSold_of_makeTradeTransactionRequest txHash h
    | uniswapV3 trade => cases hreceived
  | uniswapV3 pair =>
    cases trade with
    | uniswapV2 trade => cases hreceived
    | uniswapV3 trade =>
      rw [UniswapV3Pair.tokensSold_of_makeTradeTransactionRequest txHash (Option.some.inj h)]
      obtain ⟨hneg, heq⟩ := Option.ite_none_right_eq_some.mp hreceived
      rw [← heq, ← U256.unsignedAbs_of_neg hneg, UniswapV3Pair.amountBought]
      split <;> rfl

end Sold

theorem TradeMetadata.records_iff {m : StrategyTrade} {pair : Pair} {trade : IndexedTrade} :
    m.Records pair trade ↔ m.indexedTrade = trade := by
  refine ⟨fun h => h.indexedTrade, fun h => ⟨h, ?_⟩⟩
  intro ε abi rpcProvider blockNumber blockTimestamp tx received htx hreceived
  rw [h] at htx
  exact Pair.tokensSold_eq_tokensReceived htx hreceived

/-- Only the places in the logs have to be checked for other swaps of the pair. -/
theorem Pair.onlySwapAt_of_fromLogs {pair : Pair} {logs : List (RpcLog DexLog)} {i : Nat}
    {trade : IndexedTrade} (htry : IndexedTrade.tryFrom ⟨i, logs⟩ = some trade)
    (htraded : pair.Traded trade) (honly : ∀ j < logs.length, j ≠ i →
      ∀ other, IndexedTrade.tryFrom ⟨j, logs⟩ = some other → pair.address ≠ other.pairAddress) :
    pair.OnlySwapAt logs i trade := by
  refine ⟨tryFrom_iff_swapAt.mp htry, htraded, fun j other hswap hother => ?_⟩
  by_contra hne
  have hlt : j < logs.length := by
    obtain ⟨log, hlog, -⟩ := hswap
    exact (List.getElem?_eq_some_iff.mp hlog).1
  exact honly j hlt hne other (tryFrom_iff_swapAt.mpr hswap) hother.1

/-- A confirmed receipt with one swap of the pair gives metadata, and this records the swap
exactly when no other swap of the receipt comes before it. -/
theorem intoTradeMetadata_records_iff {ε : Type} (receipt : TransactionReceipt)
    {logs : List (RpcLog DexLog)} {blockNumber gasUsed : Nat} {pair : Pair} {i : Nat}
    {trade : IndexedTrade} (hblock : receipt.blockNumber = some blockNumber)
    (hgas : receipt.gasUsed = some gasUsed) (hlogs : receipt.logs = some logs)
    (hswap : pair.OnlySwapAt logs i trade) (txHash blockTimestamp : Nat) (op : TradeRequestOp)
    (tokenAddress : Address) :
    ∃ m, intoTradeMetadata txHash op tokenAddress (.ok receipt.toReceipt : Except ε _)
        (.ok (some blockTimestamp)) = .ok m ∧
      (m.Records pair trade ↔ ∀ j < i, ∀ other, ¬SwapAt logs j other) := by
  obtain ⟨j, first, -, hfirst, hnone⟩ := hswap.swapAt.exists_first
  have hhead : receipt.toReceipt.trades.head? = some first := by
    rw [TransactionReceipt.toReceipt, IndexedTrade.fromReceipt, hlogs]
    exact hfirst.head? hnone
  refine ⟨⟨receipt.transactionHash, blockNumber, blockTimestamp, op, tokenAddress,
    gasUsed * receipt.effectiveGasPrice, first⟩, ?_, ?_⟩
  · have hblock' : receipt.toReceipt.blockNumber = some blockNumber := hblock
    have hgas' : receipt.toReceipt.gasUsed = some gasUsed := hgas
    simp only [intoTradeMetadata, Except.mapError, bind, Except.bind, hblock', hgas', hhead]
    rfl
  · rw [TradeMetadata.records_iff, ← hswap.head?_iff, hfirst.head? hnone, Option.some.injEq]

def confirmedLog (logIndex : Nat) (address : Address) (event : DexEvent) : RpcLog DexLog :=
  ⟨some 10, some 10, some 1000, ⟨address, some logIndex, event⟩⟩

def boughtPair : Pair := .uniswapV2 ⟨1, WETH_ADDRESS, WETH_ADDRESS + 1⟩

/-- The pair pays out 1000 tokens. -/
def boughtLogs (logIndex : Nat) : List (RpcLog DexLog) :=
  [confirmedLog logIndex 1 (.uniswapV2Sync ⟨10000, 99000⟩),
    confirmedLog (logIndex + 1) 1 (.uniswapV2Swap ⟨100, 0, 0, 1000, 9⟩)]

/-- The token sells 50 of its own in another pair, for 7 of something else. -/
def internalLogs (logIndex : Nat) : List (RpcLog DexLog) :=
  [confirmedLog logIndex 2 (.uniswapV2Sync ⟨5000, 700⟩),
    confirmedLog (logIndex + 1) 2 (.uniswapV2Swap ⟨50, 0, 0, 7, 8⟩)]

def boughtTrade : IndexedTrade := .uniswapV2 ⟨1, 100, 0, 0, 1000, 10000, 99000, 9⟩

def confirmedReceipt (logs : List (RpcLog DexLog)) : TransactionReceipt :=
  ⟨77, some 10, some 21000, 1, some logs⟩

theorem boughtFirst_onlySwapAt :
    boughtPair.OnlySwapAt (boughtLogs 0 ++ internalLogs 2) 1 boughtTrade := by
  refine Pair.onlySwapAt_of_fromLogs (by decide) ⟨rfl, rfl⟩ fun j hj hne other htry => ?_
  match j with
  | 0 => cases htry
  | 1 => exact absurd rfl hne
  | 2 => cases htry
  | 3 =>
    cases htry
    decide
  | n + 4 => exact absurd hj (by simp [boughtLogs, internalLogs])

theorem boughtLast_onlySwapAt :
    boughtPair.OnlySwapAt (internalLogs 0 ++ boughtLogs 2) 3 boughtTrade := by
  refine Pair.onlySwapAt_of_fromLogs (by decide) ⟨rfl, rfl⟩ fun j hj hne other htry => ?_
  match j with
  | 0 => cases htry
  | 1 =>
    cases htry
    decide
  | 2 => cases htry
  | 3 => exact absurd rfl hne
  | n + 4 => exact absurd hj (by simp [boughtLogs, internalLogs])

theorem intoTradeMetadata_records_iff_boughtFirst :
    ∃ m, intoTradeMetadata 77 .open_ boughtPair.tokenAddress
        (.ok (confirmedReceipt (boughtLogs 0 ++ internalLogs 2)).toReceipt : Except Unit _)
        (.ok (some 1000)) = .ok m ∧ m.Records boughtPair boughtTrade := by
  obtain ⟨m, hm, hiff⟩ := intoTradeMetadata_records_iff (ε := Unit)
    (confirmedReceipt (boughtLogs 0 ++ internalLogs 2)) rfl rfl rfl boughtFirst_onlySwapAt 77 1000
    .open_ boughtPair.tokenAddress
  refine ⟨m, hm, hiff.mpr fun j hj other hswap => ?_⟩
  have hzero : j = 0 := by omega
  subst hzero
  cases tryFrom_iff_swapAt.mpr hswap

/-- Behind a swap that the token makes in another pair, the trade of the pair is not recorded: of
the 1000 tokens that were bought, a close sells 7. -/
theorem internalSwap_recorded :
    boughtPair.OnlySwapAt (internalLogs 0 ++ boughtLogs 2) 3 boughtTrade ∧
    ∃ m, intoTradeMetadata 77 .open_ boughtPair.tokenAddress
        (.ok (confirmedReceipt (internalLogs 0 ++ boughtLogs 2)).toReceipt : Except Unit _)
        (.ok (some 1000)) = .ok m ∧ ¬m.Records boughtPair boughtTrade ∧
      boughtPair.tokensReceived boughtTrade = some 1000 ∧
      ∃ tx, (TradeRequest.mk 11 1002 (.close m.indexedTrade m.txHash)
          boughtPair).makeTradeTransactionRequest PairInput.evenAbi
            ⟨PairInput.evenNode, fun _ _ => .ok []⟩ = some (.ok tx) ∧ tx.tokensSold = some 7 := by
  refine ⟨boughtLast_onlySwapAt, _, rfl, fun h => ?_, rfl, _, rfl, rfl⟩
  exact absurd h.indexedTrade (by decide)

end Pochtecatl
