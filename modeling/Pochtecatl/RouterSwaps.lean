import Pochtecatl.RoundTrips
import Pochtecatl.TradeTransaction

namespace Pochtecatl

/-! ### What a router swaps -/

/-- An exact amount of a token, swapped for at least a minimum of another. -/
structure Swap where
  tokenIn : Address
  tokenOut : Address
  amountIn : U256
  amountOutMinimum : U256
  recipient : Address
  deriving DecidableEq

/-- A swap of ETH takes the value of the request, which the router wraps. -/
def TransactionRequest.swap (request : TransactionRequest) : Option Swap :=
  match request.input with
  | .swapExactETHForTokens amountOutMin [tokenIn, tokenOut] to_ _ =>
    request.value.map fun value => ⟨tokenIn, tokenOut, value, amountOutMin, to_⟩
  | .swapExactTokensForETH amountIn amountOutMin [tokenIn, tokenOut] to_ _ =>
    some ⟨tokenIn, tokenOut, amountIn, amountOutMin, to_⟩
  | .exactInputSingle params =>
    some ⟨params.tokenIn, params.tokenOut, params.amountIn, params.amountOutMinimum,
      params.recipient⟩
  | _ => none

/-- What a trade moved of WETH, with its sign as the pool counts it. -/
def UniswapV3Pair.wethAmount (pair : UniswapV3Pair) (trade : UniswapV3IndexedTrade) : U256 :=
  if pair.token0 = WETH_ADDRESS then trade.amount0 else trade.amount1

namespace Pair

/-- The tokens that a trade on the exchange of the pair bought. -/
def amountBought : Pair → IndexedTrade → Option U256
  | uniswapV2 pair, .uniswapV2 trade => some (pair.amountBought trade)
  | uniswapV3 pair, .uniswapV3 trade => some (pair.amountBought trade)
  | _, _ => none

/-- What a trade paid into the pair, and what it took out. -/
def amounts : Pair → TradeRequestOp → IndexedTrade → Option (U256 × U256)
  | uniswapV2 pair, .open_, .uniswapV2 trade => some (pair.wethPaid trade, pair.amountBought trade)
  | uniswapV2 pair, .close _ _, .uniswapV2 trade =>
    some (pair.amountSold trade, pair.wethReceived trade)
  | uniswapV3 pair, .open_, .uniswapV3 trade =>
    some (pair.wethAmount trade, -pair.tokenAmount trade)
  | uniswapV3 pair, .close _ _, .uniswapV3 trade =>
    some (pair.tokenAmount trade, -pair.wethAmount trade)
  | _, _, _ => none

end Pair

section Swap

variable {ε : Type} {abi : SwapAbi ε} {rpcProvider : QuotingRpcProvider ε} {op : TradeRequestOp}
  {blockNumber blockTimestamp : Nat} {request : TransactionRequest}

namespace UniswapV2Pair

variable {pair : UniswapV2Pair}

end UniswapV2Pair

/-! ### The requests of Uniswap V3 -/

namespace UniswapV3Pair

variable {pair : UniswapV3Pair} {params : QuoteExactInputSingleParams}

end UniswapV3Pair

end Swap

end Pochtecatl
