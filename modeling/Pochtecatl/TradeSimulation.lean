import Pochtecatl.StrategyExecutor

namespace Pochtecatl

def UNISWAP_V3_QUOTER_V2_ADDRESS : Address := 0x3d4e44Eb1374240CE5F1B871ab261CD16335B76a

def MAX_TRADE_SIZE_WEI : U256 := 1000000000000000000

def BP_FACTOR : U256 := 10000

def MAX_TRADE_SIZE_PRICE_IMPACT_BP : U256 := 50

structure QuoteExactInputSingleParams where
  tokenIn : Address
  tokenOut : Address
  amountIn : U256
  fee : BitVec 32
  sqrtPriceLimitX96 : U256
  deriving DecidableEq

/-- The calls in the multicall of a quote, none of which may fail. -/
inductive QuoteCall where
  | liquidity
  | quoteExactInputSingle (params : QuoteExactInputSingleParams)
  deriving DecidableEq

inductive EthCall where
  | getReserves (pairAddress : Address)
  | multicall (calls : List (Address × QuoteCall))
  deriving DecidableEq

inductive BlockTransactions where
  | hashes (hashes : List Nat)
  | full
  | uncle

/-- What the node answers at a block. A receipt is its effective gas price. -/
structure RpcProvider (ε : Type) where
  signerAddress : Address
  call : EthCall → Nat → Except ε (List (BitVec 8))
  getBlock : Nat → Except ε (Option BlockTransactions)
  getTransactionReceipt : Nat → Except ε (Option Nat)

/-- The generated decoders of the answers. -/
structure SwapAbi (ε : Type) where
  decodeReserves : List (BitVec 8) → Except ε (BitVec 112 × BitVec 112)
  decodeMulticall : List (BitVec 8) → Except ε (List MulticallResult)
  decodeLiquidity : List (BitVec 8) → Except ε (BitVec 128)
  decodeQuote : List (BitVec 8) → Except ε (U256 × U256)

inductive SimulateError (ε : Type) where
  | onlyBacktest
  | getReserves (pairAddress : Address) (e : ε)
  | decodeReserves (pairAddress : Address) (e : ε)
  | multicall (e : ε)
  | decodeMulticall (e : ε)
  | decodeReturns (e : ε)
  | invalidOp (dex : String) (op : TradeRequestOp)
  | medianTxHash
  | medianTxReceipt

/-- `none` is the panic on a division by zero. -/
def getAmountOut (amountIn reserveIn reserveOut : U256) : Option U256 :=
  let amountInWithFee := amountIn * 997
  let numerator := amountInWithFee * reserveOut
  let denominator := reserveIn * 1000 + amountInWithFee
  numerator.checkedDiv denominator

def getEthAmountIn (wethReserve : U256) : U256 :=
  let maxForPriceImpact := MAX_TRADE_SIZE_PRICE_IMPACT_BP * wethReserve / BP_FACTOR
  if maxForPriceImpact < MAX_TRADE_SIZE_WEI then maxForPriceImpact else MAX_TRADE_SIZE_WEI

section Simulate

variable {ε : Type} (abi : SwapAbi ε) (rpcProvider : RpcProvider ε)

namespace UniswapV2Pair

/-- The reserves of the token and of WETH. -/
def getReserves (pair : UniswapV2Pair) (blockNumber : Nat) :
    Except (SimulateError ε) (U256 × U256) := do
  let result ← (rpcProvider.call (.getReserves pair.address) blockNumber).mapError
    (.getReserves pair.address)
  let (reserve0, reserve1) ← (abi.decodeReserves result).mapError (.decodeReserves pair.address)
  if pair.token0 = WETH_ADDRESS then pure (reserve1.setWidth 256, reserve0.setWidth 256)
  else pure (reserve0.setWidth 256, reserve1.setWidth 256)

/-- The tokens that a trade bought. -/
def amountBought (pair : UniswapV2Pair) (trade : UniswapV2IndexedTrade) : U256 :=
  if pair.token0 = WETH_ADDRESS then trade.amount1Out else trade.amount0Out

/-- `none` is a panic. -/
def simulateTradeRequest (pair : UniswapV2Pair) (op : TradeRequestOp) (blockNumber : Nat) :
    Option (Except (SimulateError ε) UniswapV2IndexedTrade) :=
  match pair.getReserves abi rpcProvider blockNumber with
  | .error e => some (.error e)
  | .ok (tokenReserve, wethReserve) =>
    match op with
    | .open_ =>
      let ethAmountIn := getEthAmountIn wethReserve
      (getAmountOut ethAmountIn wethReserve tokenReserve).map fun outputTokenAmountMin =>
        .ok <| if pair.token0 = WETH_ADDRESS then
          ⟨pair.address, ethAmountIn, 0, 0, outputTokenAmountMin, wethReserve + ethAmountIn,
            tokenReserve - outputTokenAmountMin, rpcProvider.signerAddress⟩
        else
          ⟨pair.address, 0, ethAmountIn, outputTokenAmountMin, 0,
            tokenReserve - outputTokenAmountMin, wethReserve + ethAmountIn,
            rpcProvider.signerAddress⟩
    | .close (.uniswapV2 trade) _ =>
      let openTradeTokenAmountOut := pair.amountBought trade
      (getAmountOut openTradeTokenAmountOut tokenReserve wethReserve).map fun minEthAmountOut =>
        .ok <| if pair.token0 = WETH_ADDRESS then
          ⟨pair.address, 0, openTradeTokenAmountOut, minEthAmountOut, 0,
            wethReserve - minEthAmountOut, tokenReserve + openTradeTokenAmountOut,
            rpcProvider.signerAddress⟩
        else
          ⟨pair.address, openTradeTokenAmountOut, 0, 0, minEthAmountOut,
            tokenReserve + openTradeTokenAmountOut, wethReserve - minEthAmountOut,
            rpcProvider.signerAddress⟩
    | .close (.uniswapV3 _) _ => some (.error (.invalidOp "uniswap v2" op))

end UniswapV2Pair

namespace UniswapV3Pair

def openEthAmountIn (_ : UniswapV3Pair) : U256 := MAX_TRADE_SIZE_WEI

/-- The tokens that a trade bought. -/
def amountBought (pair : UniswapV3Pair) (trade : UniswapV3IndexedTrade) : U256 :=
  if pair.token0 = WETH_ADDRESS then trade.amount1.unsignedAbs else trade.amount0.unsignedAbs

/-- The results of the multicall. -/
def quoteMulticall (pair : UniswapV3Pair) (params : QuoteExactInputSingleParams)
    (blockNumber : Nat) : Except (SimulateError ε) (List MulticallResult) := do
  let result ← (rpcProvider.call (.multicall [(pair.address, .liquidity),
    (UNISWAP_V3_QUOTER_V2_ADDRESS, .quoteExactInputSingle params)]) blockNumber).mapError .multicall
  (abi.decodeMulticall result).mapError .decodeMulticall

/-- The liquidity, the amount out and the price after the trade. `none` is the panic on a
result that is missing. -/
def quoteExactInputSinglePriceMulticall (pair : UniswapV3Pair)
    (params : QuoteExactInputSingleParams) (blockNumber : Nat) :
    Option (Except (SimulateError ε) (U256 × U256 × U256)) :=
  match pair.quoteMulticall abi rpcProvider params blockNumber with
  | .error e => some (.error e)
  | .ok results => results[0]?.bind fun liquidityResult =>
    match abi.decodeLiquidity liquidityResult.returnData with
    | .error e => some (.error (.decodeReturns e))
    | .ok liquidity => results[1]?.map fun quoteResult =>
      match abi.decodeQuote quoteResult.returnData with
      | .error e => .error (.decodeReturns e)
      | .ok (amountOut, sqrtPriceX96After) =>
        .ok (liquidity.setWidth 256, amountOut, sqrtPriceX96After)

/-- What a request asks the quoter. -/
def quoteParams (pair : UniswapV3Pair) : TradeRequestOp → Option QuoteExactInputSingleParams
  | .open_ => some ⟨WETH_ADDRESS, pair.tokenAddress, pair.openEthAmountIn, pair.fee, 0⟩
  | .close (.uniswapV3 trade) _ =>
    some ⟨pair.tokenAddress, WETH_ADDRESS, pair.amountBought trade, pair.fee, 0⟩
  | .close (.uniswapV2 _) _ => none

/-- `none` is a panic. -/
def simulateTradeRequest (pair : UniswapV3Pair) (op : TradeRequestOp) (blockNumber : Nat) :
    Option (Except (SimulateError ε) UniswapV3IndexedTrade) :=
  match pair.quoteParams op with
  | none => some (.error (.invalidOp "uniswap v3" op))
  | some params =>
    (pair.quoteExactInputSinglePriceMulticall abi rpcProvider params blockNumber).map fun quote =>
      quote.map fun (liquidity, amountOut, sqrtPriceX96) =>
        let (wethAmount, tokenAmount) := match op with
          | .open_ => (params.amountIn, -amountOut)
          | .close _ _ => (-amountOut, params.amountIn)
        if pair.token0 = WETH_ADDRESS then
          ⟨pair.address, rpcProvider.signerAddress, wethAmount, tokenAmount, sqrtPriceX96, liquidity⟩
        else
          ⟨pair.address, rpcProvider.signerAddress, tokenAmount, wethAmount, sqrtPriceX96, liquidity⟩

end UniswapV3Pair

namespace Pair

def estimateTradeGas : Pair → Nat
  | uniswapV2 _ => 130000
  | uniswapV3 _ => 130000

/-- `none` is a panic. -/
def simulateTradeRequest (pair : Pair) (op : TradeRequestOp) (blockNumber : Nat) :
    Option (Except (SimulateError ε) IndexedTrade) :=
  match pair with
  | uniswapV2 pair =>
    (pair.simulateTradeRequest abi rpcProvider op blockNumber).map fun r => r.map .uniswapV2
  | uniswapV3 pair =>
    (pair.simulateTradeRequest abi rpcProvider op blockNumber).map fun r => r.map .uniswapV3

end Pair

namespace TradeRequest

def medianTxHash (blockNumber : Nat) : Except (SimulateError ε) Nat :=
  match rpcProvider.getBlock blockNumber with
  | .ok (some (.hashes hashes)) =>
    match hashes[hashes.length / 2]? with
    | some hash => .ok hash
    | none => .error .medianTxHash
  | _ => .error .medianTxHash

/-- The gas price of the transaction in the middle of the block, times the gas of a trade. -/
def estimatedGasFee (request : TradeRequest) : Except (SimulateError ε) Nat := do
  let medianTxHash ← medianTxHash rpcProvider request.blockNumber
  let medianTxEffectiveGasPrice ← match rpcProvider.getTransactionReceipt medianTxHash with
    | .ok (some effectiveGasPrice) => .ok effectiveGasPrice
    | _ => .error .medianTxReceipt
  pure (medianTxEffectiveGasPrice * request.pair.estimateTradeGas)

/-- `none` is a panic. The hash is random. -/
def simulateTradeRequest (isBacktest : Bool) (txHash : Nat) (request : TradeRequest) :
    Option (Except (SimulateError ε) StrategyTrade) :=
  if isBacktest then
    (request.pair.simulateTradeRequest abi rpcProvider request.op request.blockNumber).map
      fun result => do
        let indexedTrade ← result
        let gasFee ← request.estimatedGasFee rpcProvider
        pure ⟨txHash, request.blockNumber, request.blockTimestamp, request.op,
          request.tokenAddress, gasFee, indexedTrade⟩
  else some (.error .onlyBacktest)

end TradeRequest

/-! ### Panics -/

theorem getAmountOut_eq_none_iff {amountIn reserveIn reserveOut : U256} :
    getAmountOut amountIn reserveIn reserveOut = none ↔
      reserveIn * 1000 + amountIn * 997 = 0 := by
  unfold getAmountOut U256.checkedDiv
  dsimp only
  split
  next hzero => exact iff_of_true rfl hzero
  next hne => exact iff_of_false (Option.some_ne_none _) hne

theorem toNat_getEthAmountIn_le (wethReserve : U256) :
    (getEthAmountIn wethReserve).toNat ≤ 1000000000000000000 := by
  unfold getEthAmountIn
  dsimp only
  split
  next hlt =>
    rw [BitVec.lt_def] at hlt
    exact Nat.le_of_lt hlt
  next => exact Nat.le_refl _

/-- A reserve is too small for the denominator to wrap. -/
theorem getAmountOut_getEthAmountIn_eq_none_iff {reserve : BitVec 112} {reserveOut : U256} :
    getAmountOut (getEthAmountIn (reserve.setWidth 256)) (reserve.setWidth 256) reserveOut = none ↔
      reserve.setWidth 256 = (0 : U256) := by
  rw [getAmountOut_eq_none_iff]
  constructor
  · intro hzero
    have hreserve : reserve.toNat < 2 ^ 112 := reserve.isLt
    have hamount := toNat_getEthAmountIn_le (reserve.setWidth 256)
    have hwidth : (reserve.setWidth 256).toNat = reserve.toNat := by
      rw [BitVec.toNat_setWidth]
      exact Nat.mod_eq_of_lt (by omega)
    have hin : ((reserve.setWidth 256 : U256) * 1000).toNat = reserve.toNat * 1000 := by
      rw [BitVec.toNat_mul, hwidth]
      exact Nat.mod_eq_of_lt (show reserve.toNat * 1000 < 2 ^ 256 by omega)
    have hfee : (getEthAmountIn (reserve.setWidth 256) * 997).toNat =
        (getEthAmountIn (reserve.setWidth 256)).toNat * 997 := by
      rw [BitVec.toNat_mul]
      exact Nat.mod_eq_of_lt (show _ * 997 < 2 ^ 256 by omega)
    have hsum := congrArg BitVec.toNat hzero
    rw [BitVec.toNat_add, hin, hfee, Nat.mod_eq_of_lt (by omega)] at hsum
    refine BitVec.eq_of_toNat_eq ?_
    rw [hwidth]
    have hnone : reserve.toNat * 1000 = 0 := (Nat.add_eq_zero_iff.mp hsum).1
    exact (Nat.mul_eq_zero.mp hnone).resolve_right (by decide)
  · intro hzero
    rw [hzero]
    decide

/-- A division by zero in the pool arithmetic. A position of another exchange is refused. -/
def UniswapV2Pair.SimulationPanics (pair : UniswapV2Pair) (op : TradeRequestOp)
    (blockNumber : Nat) : Prop :=
  ∃ tokenReserve wethReserve,
    pair.getReserves abi rpcProvider blockNumber = .ok (tokenReserve, wethReserve) ∧
    match op with
    | .open_ => wethReserve = 0
    | .close (.uniswapV2 trade) _ => tokenReserve * 1000 + pair.amountBought trade * 997 = 0
    | .close (.uniswapV3 _) _ => False

/-- A multicall with fewer than two results, of which the first decodes if there is one. -/
def UniswapV3Pair.SimulationPanics (pair : UniswapV3Pair) (op : TradeRequestOp)
    (blockNumber : Nat) : Prop :=
  ∃ params results, pair.quoteParams op = some params ∧
    pair.quoteMulticall abi rpcProvider params blockNumber = .ok results ∧
    (results = [] ∨ ∃ result liquidity, results = [result] ∧
      abi.decodeLiquidity result.returnData = .ok liquidity)

def TradeRequest.SimulationPanics (request : TradeRequest) : Prop :=
  match request.pair with
  | .uniswapV2 pair => pair.SimulationPanics abi rpcProvider request.op request.blockNumber
  | .uniswapV3 pair => pair.SimulationPanics abi rpcProvider request.op request.blockNumber

variable {abi : SwapAbi ε} {rpcProvider : RpcProvider ε}

theorem UniswapV2Pair.getReserves_eq_ok {pair : UniswapV2Pair} {blockNumber : Nat}
    {tokenReserve wethReserve : U256}
    (h : pair.getReserves abi rpcProvider blockNumber = .ok (tokenReserve, wethReserve)) :
    ∃ reserve reserve' : BitVec 112,
      tokenReserve = reserve.setWidth 256 ∧ wethReserve = reserve'.setWidth 256 := by
  unfold getReserves at h
  cases hcall : rpcProvider.call (.getReserves pair.address) blockNumber with
  | error e =>
    rw [hcall] at h
    cases h
  | ok result =>
    cases hdecode : abi.decodeReserves result with
    | error e =>
      simp only [hcall, hdecode, Except.mapError, bind, Except.bind] at h
      cases h
    | ok reserves =>
      simp only [hcall, hdecode, Except.mapError, bind, Except.bind] at h
      split at h
      next =>
        cases h
        exact ⟨_, _, rfl, rfl⟩
      next =>
        cases h
        exact ⟨_, _, rfl, rfl⟩

theorem UniswapV2Pair.simulateTradeRequest_eq_none_iff {pair : UniswapV2Pair}
    {op : TradeRequestOp} {blockNumber : Nat} :
    pair.simulateTradeRequest abi rpcProvider op blockNumber = none ↔
      pair.SimulationPanics abi rpcProvider op blockNumber := by
  unfold simulateTradeRequest SimulationPanics
  cases hreserves : pair.getReserves abi rpcProvider blockNumber with
  | error e => simp
  | ok reserves =>
    obtain ⟨tokenReserve, wethReserve⟩ := reserves
    obtain ⟨_, reserve, -, rfl⟩ := getReserves_eq_ok hreserves
    cases op with
    | open_ =>
      simp only [Option.map_eq_none_iff, getAmountOut_getEthAmountIn_eq_none_iff, Except.ok.injEq,
        Prod.mk.injEq]
      constructor
      · intro hzero
        exact ⟨_, _, ⟨rfl, rfl⟩, hzero⟩
      · rintro ⟨_, _, ⟨rfl, rfl⟩, hzero⟩
        exact hzero
    | close openTrade hash =>
      cases openTrade with
      | uniswapV2 trade =>
        simp only [Option.map_eq_none_iff, getAmountOut_eq_none_iff, Except.ok.injEq,
          Prod.mk.injEq]
        constructor
        · intro hzero
          exact ⟨_, _, ⟨rfl, rfl⟩, hzero⟩
        · rintro ⟨_, _, ⟨rfl, rfl⟩, hzero⟩
          exact hzero
      | uniswapV3 trade => simp

theorem UniswapV3Pair.quoteExactInputSinglePriceMulticall_eq_none_iff {pair : UniswapV3Pair}
    {params : QuoteExactInputSingleParams} {blockNumber : Nat} :
    pair.quoteExactInputSinglePriceMulticall abi rpcProvider params blockNumber = none ↔
      ∃ results, pair.quoteMulticall abi rpcProvider params blockNumber = .ok results ∧
        (results = [] ∨ ∃ result liquidity, results = [result] ∧
          abi.decodeLiquidity result.returnData = .ok liquidity) := by
  unfold quoteExactInputSinglePriceMulticall
  cases hresults : pair.quoteMulticall abi rpcProvider params blockNumber with
  | error e => simp
  | ok results =>
    cases results with
    | nil => simp
    | cons result rest =>
      cases hliquidity : abi.decodeLiquidity result.returnData with
      | error e => simp [hliquidity]
      | ok liquidity =>
        cases rest with
        | nil => simp [hliquidity]
        | cons quoteResult rest => simp [hliquidity]

theorem UniswapV3Pair.simulateTradeRequest_eq_none_iff {pair : UniswapV3Pair}
    {op : TradeRequestOp} {blockNumber : Nat} :
    pair.simulateTradeRequest abi rpcProvider op blockNumber = none ↔
      pair.SimulationPanics abi rpcProvider op blockNumber := by
  unfold simulateTradeRequest SimulationPanics
  cases hparams : pair.quoteParams op with
  | none => simp
  | some params =>
    simp only [Option.map_eq_none_iff, quoteExactInputSinglePriceMulticall_eq_none_iff,
      Option.some.injEq, exists_and_left, exists_eq_left']

theorem TradeRequest.simulateTradeRequest_eq_none_iff {request : TradeRequest} {txHash : Nat} :
    request.simulateTradeRequest abi rpcProvider true txHash = none ↔
      request.SimulationPanics abi rpcProvider := by
  unfold simulateTradeRequest SimulationPanics Pair.simulateTradeRequest
  rw [if_pos rfl, Option.map_eq_none_iff]
  cases request.pair with
  | uniswapV2 pair =>
    dsimp only
    rw [Option.map_eq_none_iff, UniswapV2Pair.simulateTradeRequest_eq_none_iff]
  | uniswapV3 pair =>
    dsimp only
    rw [Option.map_eq_none_iff, UniswapV3Pair.simulateTradeRequest_eq_none_iff]

end Simulate

end Pochtecatl
