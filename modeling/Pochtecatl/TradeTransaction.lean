import Pochtecatl.TradeSimulation

namespace Pochtecatl

def UNISWAP_V2_ROUTER_02_ADDRESS : Address := 0x4752ba5dbc23f44d87826276bf6fd6b1c372ad24

def UNISWAP_V3_ROUTER_02_ADDRESS : Address := 0x2626664c2603336E57B271c5C0b26F421741e481

structure ExactInputSingleParams where
  tokenIn : Address
  tokenOut : Address
  fee : BitVec 32
  recipient : Address
  amountIn : U256
  amountOutMinimum : U256
  sqrtPriceLimitX96 : U256
  deriving DecidableEq

/-- The calls of the routers that a trade sends. -/
inductive RouterCall where
  | swapExactETHForTokens (amountOutMin : U256) (path : List Address) (to_ : Address)
    (deadline : U256)
  | swapExactTokensForETH (amountIn amountOutMin : U256) (path : List Address) (to_ : Address)
    (deadline : U256)
  | exactInputSingle (params : ExactInputSingleParams)
  deriving DecidableEq

structure TransactionRequest where
  from_ : Address
  to_ : Address
  value : Option U256
  input : RouterCall
  deriving DecidableEq

/-- A node whose quoter is also called alone. -/
structure QuotingRpcProvider (ε : Type) extends RpcProvider ε where
  quoteExactInputSingle : QuoteExactInputSingleParams → Nat → Except ε (List (BitVec 8))

inductive TransactionError (ε : Type) where
  | reserves (e : SimulateError ε)
  | quote (e : ε)
  | decodeQuote (e : ε)
  | invalidOp (dex : String) (op : TradeRequestOp)

def swapExactEthForTokensTxRequest (signerAddress : Address)
    (inputEthAmount outputTokenAmountMin : U256) (outputTokenAddress : Address) (deadline : U256) :
    TransactionRequest :=
  ⟨signerAddress, UNISWAP_V2_ROUTER_02_ADDRESS, some inputEthAmount,
    .swapExactETHForTokens outputTokenAmountMin [WETH_ADDRESS, outputTokenAddress] signerAddress
      deadline⟩

def swapExactTokensForEthTxRequest (signerAddress : Address)
    (inputTokenAmount outputEthAmountMin : U256) (inputTokenAddress : Address) (deadline : U256) :
    TransactionRequest :=
  ⟨signerAddress, UNISWAP_V2_ROUTER_02_ADDRESS, none,
    .swapExactTokensForETH inputTokenAmount outputEthAmountMin [inputTokenAddress, WETH_ADDRESS]
      signerAddress deadline⟩

/-- Two blocks after the one of the request, in 64 bits. -/
def tradeDeadline (blockTimestamp : Nat) : U256 :=
  .ofNat 256 ((blockTimestamp + AVERAGE_BLOCK_TIME_SECONDS * 2) % 2 ^ 64)

section Make

variable {ε : Type} (abi : SwapAbi ε) (rpcProvider : QuotingRpcProvider ε)

/-- `none` is a panic. -/
def UniswapV2Pair.makeTradeTransactionRequest (pair : UniswapV2Pair) (op : TradeRequestOp)
    (blockNumber blockTimestamp : Nat) : Option (Except (TransactionError ε) TransactionRequest) :=
  match pair.getReserves abi rpcProvider.toRpcProvider blockNumber with
  | .error e => some (.error (.reserves e))
  | .ok (tokenReserve, wethReserve) =>
    match op with
    | .open_ =>
      let ethAmountIn := getEthAmountIn wethReserve
      (getAmountOut ethAmountIn wethReserve tokenReserve).map fun outputTokenAmountMin =>
        .ok (swapExactEthForTokensTxRequest rpcProvider.signerAddress ethAmountIn
          outputTokenAmountMin pair.tokenAddress (tradeDeadline blockTimestamp))
    | .close (.uniswapV2 trade) _ =>
      let openTradeTokenAmountOut := pair.amountBought trade
      (getAmountOut openTradeTokenAmountOut tokenReserve wethReserve).map fun minEthAmountOut =>
        .ok (swapExactTokensForEthTxRequest rpcProvider.signerAddress openTradeTokenAmountOut
          minEthAmountOut pair.tokenAddress (tradeDeadline blockTimestamp))
    | .close (.uniswapV3 _) _ => some (.error (.invalidOp "uniswap v2" op))

/-- The amount out. -/
def quoteExactInputSingleCall (params : QuoteExactInputSingleParams) (blockNumber : Nat) :
    Except (TransactionError ε) U256 := do
  let result ← (rpcProvider.quoteExactInputSingle params blockNumber).mapError .quote
  let (amountOut, _) ← (abi.decodeQuote result).mapError .decodeQuote
  pure amountOut

def UniswapV3Pair.makeTradeTransactionRequest (pair : UniswapV3Pair) (op : TradeRequestOp)
    (blockNumber : Nat) : Except (TransactionError ε) TransactionRequest :=
  match pair.quoteParams op with
  | none => .error (.invalidOp "uniswap v3" op)
  | some params =>
    (quoteExactInputSingleCall abi rpcProvider params blockNumber).map fun amountOut =>
      ⟨rpcProvider.signerAddress, UNISWAP_V3_ROUTER_02_ADDRESS, none,
        .exactInputSingle ⟨params.tokenIn, params.tokenOut, pair.fee, rpcProvider.signerAddress,
          params.amountIn, amountOut, 0⟩⟩

/-- `none` is a panic. -/
def Pair.makeTradeTransactionRequest (pair : Pair) (op : TradeRequestOp)
    (blockNumber blockTimestamp : Nat) : Option (Except (TransactionError ε) TransactionRequest) :=
  match pair with
  | uniswapV2 pair =>
    pair.makeTradeTransactionRequest abi rpcProvider op blockNumber blockTimestamp
  | uniswapV3 pair => some (pair.makeTradeTransactionRequest abi rpcProvider op blockNumber)

def TradeRequest.makeTradeTransactionRequest (request : TradeRequest) :
    Option (Except (TransactionError ε) TransactionRequest) :=
  request.pair.makeTradeTransactionRequest abi rpcProvider request.op request.blockNumber
    request.blockTimestamp

end Make

/-! ### Trades of another exchange -/

inductive Exchange where
  | uniswapV2
  | uniswapV3
  deriving DecidableEq

def Pair.exchange : Pair → Exchange
  | uniswapV2 _ => .uniswapV2
  | uniswapV3 _ => .uniswapV3

def IndexedTrade.exchange : IndexedTrade → Exchange
  | uniswapV2 _ => .uniswapV2
  | uniswapV3 _ => .uniswapV3

/-- A position of another exchange is closed. -/
def TradeRequestOp.Mismatched (op : TradeRequestOp) (exchange : Exchange) : Prop :=
  ∃ openTrade txHash, op = .close openTrade txHash ∧ openTrade.exchange ≠ exchange

section Mismatched

variable {ε : Type} {abi : SwapAbi ε} {op op' : TradeRequestOp} {blockNumber blockTimestamp : Nat}
  {dex : String}

theorem UniswapV2Pair.getReserves_ne_invalidOp {rpcProvider : RpcProvider ε} {pair : UniswapV2Pair} :
    pair.getReserves abi rpcProvider blockNumber ≠ .error (.invalidOp dex op') := by
  unfold getReserves
  cases hcall : rpcProvider.call (.getReserves pair.address) blockNumber with
  | error e => exact fun h => by cases h
  | ok result =>
    cases hdecode : abi.decodeReserves result with
    | error e =>
      simp only [hdecode, Except.mapError, bind, Except.bind]
      exact fun h => by cases h
    | ok reserves =>
      simp only [hdecode, Except.mapError, bind, Except.bind]
      split
      next => exact fun h => by cases h
      next => exact fun h => by cases h

theorem UniswapV3Pair.quoteMulticall_ne_invalidOp {rpcProvider : RpcProvider ε}
    {pair : UniswapV3Pair} {params : QuoteExactInputSingleParams} :
    pair.quoteMulticall abi rpcProvider params blockNumber ≠ .error (.invalidOp dex op') := by
  unfold quoteMulticall
  cases hcall : rpcProvider.call (.multicall [(pair.address, .liquidity),
      (UNISWAP_V3_QUOTER_V2_ADDRESS, .quoteExactInputSingle params)]) blockNumber with
  | error e => exact fun h => by cases h
  | ok result =>
    cases hdecode : abi.decodeMulticall result with
    | error e =>
      simp only [hdecode, Except.mapError, bind, Except.bind]
      exact fun h => by cases h
    | ok results =>
      simp only [hdecode, Except.mapError, bind, Except.bind]
      exact fun h => by cases h

theorem UniswapV3Pair.quoteParams_eq_none_iff {pair : UniswapV3Pair} :
    pair.quoteParams op = none ↔ op.Mismatched .uniswapV3 := by
  cases op with
  | open_ => exact iff_of_false (fun h => by cases h) fun ⟨_, _, hop, _⟩ => by cases hop
  | close openTrade txHash =>
    cases openTrade with
    | uniswapV2 trade => exact iff_of_true rfl ⟨_, _, rfl, fun h => by cases h⟩
    | uniswapV3 trade =>
      refine iff_of_false (fun h => by cases h) ?_
      rintro ⟨_, _, hop, hne⟩
      cases hop
      exact hne rfl

/-- A simulation refuses its op only when it closes a position of the other exchange. -/
theorem Pair.mismatched_of_simulateTradeRequest {rpcProvider : RpcProvider ε} {pair : Pair}
    (h : pair.simulateTradeRequest abi rpcProvider op blockNumber =
      some (.error (.invalidOp dex op'))) : op.Mismatched pair.exchange := by
  cases pair with
  | uniswapV2 pair =>
    obtain ⟨result, hresult, herror⟩ := Option.map_eq_some_iff.mp h
    cases result with
    | ok trade => cases herror
    | error e =>
      cases herror
      unfold UniswapV2Pair.simulateTradeRequest at hresult
      split at hresult
      next e hreserves =>
        cases hresult
        exact absurd hreserves UniswapV2Pair.getReserves_ne_invalidOp
      next =>
        split at hresult
        next =>
          obtain ⟨_, -, hok⟩ := Option.map_eq_some_iff.mp hresult
          cases hok
        next =>
          obtain ⟨_, -, hok⟩ := Option.map_eq_some_iff.mp hresult
          cases hok
        next trade txHash => exact ⟨_, _, rfl, fun h => by cases h⟩
  | uniswapV3 pair =>
    obtain ⟨result, hresult, herror⟩ := Option.map_eq_some_iff.mp h
    cases result with
    | ok trade => cases herror
    | error e =>
      cases herror
      unfold UniswapV3Pair.simulateTradeRequest at hresult
      split at hresult
      next hparams => exact UniswapV3Pair.quoteParams_eq_none_iff.mp hparams
      next params hparams =>
        obtain ⟨quote, hquote, herror⟩ := Option.map_eq_some_iff.mp hresult
        cases quote with
        | ok amounts => cases herror
        | error e =>
          cases herror
          unfold UniswapV3Pair.quoteExactInputSinglePriceMulticall at hquote
          split at hquote
          next e hmulticall =>
            cases hquote
            exact absurd hmulticall UniswapV3Pair.quoteMulticall_ne_invalidOp
          next results hmulticall =>
            obtain ⟨first, -, hfirst⟩ := Option.bind_eq_some_iff.mp hquote
            split at hfirst
            next => cases hfirst
            next =>
              obtain ⟨second, -, hsecond⟩ := Option.map_eq_some_iff.mp hfirst
              split at hsecond
              next => cases hsecond
              next => cases hsecond

/-- The same of the request for its transaction. -/
theorem Pair.mismatched_of_makeTradeTransactionRequest {rpcProvider : QuotingRpcProvider ε}
    {pair : Pair} (h : pair.makeTradeTransactionRequest abi rpcProvider op blockNumber
      blockTimestamp = some (.error (.invalidOp dex op'))) : op.Mismatched pair.exchange := by
  cases pair with
  | uniswapV2 pair =>
    change pair.makeTradeTransactionRequest abi rpcProvider op blockNumber blockTimestamp = _ at h
    unfold UniswapV2Pair.makeTradeTransactionRequest at h
    split at h
    next => cases h
    next =>
      split at h
      next =>
        obtain ⟨_, -, hok⟩ := Option.map_eq_some_iff.mp h
        cases hok
      next =>
        obtain ⟨_, -, hok⟩ := Option.map_eq_some_iff.mp h
        cases hok
      next trade txHash => exact ⟨_, _, rfl, fun h => by cases h⟩
  | uniswapV3 pair =>
    have herror : pair.makeTradeTransactionRequest abi rpcProvider op blockNumber =
        .error (.invalidOp dex op') := Option.some.inj h
    unfold UniswapV3Pair.makeTradeTransactionRequest at herror
    split at herror
    next hparams => exact UniswapV3Pair.quoteParams_eq_none_iff.mp hparams
    next params hparams =>
      unfold quoteExactInputSingleCall at herror
      cases hquote : rpcProvider.quoteExactInputSingle params blockNumber with
      | error e =>
        rw [hquote] at herror
        cases herror
      | ok result =>
        cases hdecode : abi.decodeQuote result with
        | error e =>
          simp only [hquote, hdecode, Except.mapError, bind, Except.bind] at herror
          cases herror
        | ok amounts =>
          simp only [hquote, hdecode, Except.mapError, bind, Except.bind] at herror
          cases herror

end Mismatched

end Pochtecatl
