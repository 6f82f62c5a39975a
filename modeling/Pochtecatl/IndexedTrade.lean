import Mathlib.Algebra.Ring.Nat
import Mathlib.Order.Fin.Basic
import Pochtecatl.TickData

namespace Pochtecatl

/-- Addresses are compared as big-endian numbers. -/
abbrev Address := Fin (2 ^ 160)

instance Address.neZero : NeZero (2 ^ 160) := ⟨Nat.two_pow_pos 160 |>.ne'⟩

/-- Sums, differences and products of `U256` wrap, a division by zero panics. -/
abbrev U256 := BitVec 256

def WETH_ADDRESS : Address := 0x4200000000000000000000000000000000000006

def U256.checkedDiv (a b : U256) : Option U256 := if b = 0 then none else some (a / b)

/-- `Signed::into_sign_and_abs`, without the sign. -/
def U256.unsignedAbs (a : U256) : U256 := if a.msb then -a else a

/-- `none` is a panic. The quotient is cut to its low 128 bits. -/
def u32f96FromU256Frac (numerator denominator : U256) : Option U32F96 :=
  if denominator = 0 then none
  else some (.ofRaw (numerator.toNat * oneBits / denominator.toNat))

/-- `none` is a panic. -/
def u32f96FromSqrtX96 (sqrtPriceX96 : U256) (inverse : Bool) : Option U32F96 :=
  if inverse then
    if sqrtPriceX96 = 0 then none
    else some (.ofRaw (2 ^ 288 / sqrtPriceX96.toNat ^ 2))
  else
    let sqrtPrice := U32F96.ofRaw sqrtPriceX96.toNat
    some (sqrtPrice.mul sqrtPrice)

structure UniswapV2IndexedTrade where
  pairAddress : Address
  amount0In : U256
  amount1In : U256
  amount0Out : U256
  amount1Out : U256
  reserve0 : U256
  reserve1 : U256
  maker : Address
  deriving DecidableEq

namespace UniswapV2IndexedTrade

def wethVolume (trade : UniswapV2IndexedTrade) (tokenAddress : Address) : U256 :=
  if tokenAddress < WETH_ADDRESS then trade.amount1In + trade.amount1Out
  else trade.amount0In + trade.amount0Out

def tokenPriceBefore (trade : UniswapV2IndexedTrade) (tokenAddress : Address) : Option U32F96 :=
  let reserve0Before := trade.reserve0 - trade.amount0In + trade.amount0Out
  let reserve1Before := trade.reserve1 - trade.amount1In + trade.amount1Out
  if tokenAddress < WETH_ADDRESS then u32f96FromU256Frac reserve1Before reserve0Before
  else u32f96FromU256Frac reserve0Before reserve1Before

def tokenPriceAfter (trade : UniswapV2IndexedTrade) (tokenAddress : Address) : Option U32F96 :=
  if tokenAddress < WETH_ADDRESS then u32f96FromU256Frac trade.reserve1 trade.reserve0
  else u32f96FromU256Frac trade.reserve0 trade.reserve1

end UniswapV2IndexedTrade

/-- The signed amounts are kept as two's complement. -/
structure UniswapV3IndexedTrade where
  pairAddress : Address
  maker : Address
  amount0 : U256
  amount1 : U256
  sqrtPriceX96 : U256
  liquidity : U256
  deriving DecidableEq

namespace UniswapV3IndexedTrade

def tokenPriceAfter (trade : UniswapV3IndexedTrade) (tokenAddress : Address) : Option U32F96 :=
  u32f96FromSqrtX96 trade.sqrtPriceX96 (WETH_ADDRESS < tokenAddress)

/-- What the trade moved the square root of the price by. A quotient that does not fit
`U256` panics. -/
def adjustedValue (trade : UniswapV3IndexedTrade) : Option U256 :=
  let modValue := if 0 < trade.amount0.toInt then trade.amount0.unsignedAbs
    else trade.amount1.unsignedAbs
  let quotient := if trade.liquidity = 0 then 0
    else modValue.toNat * oneBits / trade.liquidity.toNat
  if quotient < 2 ^ 256 then some (.ofNat 256 quotient) else none

def tokenPriceBefore (trade : UniswapV3IndexedTrade) (tokenAddress : Address) : Option U32F96 := do
  let adjusted ← trade.adjustedValue
  u32f96FromSqrtX96
    (if 0 < trade.amount0.toInt then trade.sqrtPriceX96 + adjusted
      else trade.sqrtPriceX96 - adjusted)
    (WETH_ADDRESS < tokenAddress)

def wethVolume (trade : UniswapV3IndexedTrade) (tokenAddress : Address) : U256 :=
  if tokenAddress < WETH_ADDRESS then trade.amount1.unsignedAbs else trade.amount0.unsignedAbs

end UniswapV3IndexedTrade

inductive IndexedTrade where
  | uniswapV2 (trade : UniswapV2IndexedTrade)
  | uniswapV3 (trade : UniswapV3IndexedTrade)
  deriving DecidableEq

namespace IndexedTrade

def wethVolume : IndexedTrade → Address → U256
  | uniswapV2 trade => trade.wethVolume
  | uniswapV3 trade => trade.wethVolume

def tokenPriceBefore : IndexedTrade → Address → Option U32F96
  | uniswapV2 trade => trade.tokenPriceBefore
  | uniswapV3 trade => trade.tokenPriceBefore

def tokenPriceAfter : IndexedTrade → Address → Option U32F96
  | uniswapV2 trade => trade.tokenPriceAfter
  | uniswapV3 trade => trade.tokenPriceAfter

def pairAddress : IndexedTrade → Address
  | uniswapV2 trade => trade.pairAddress
  | uniswapV3 trade => trade.pairAddress

end IndexedTrade

namespace TickData

/-- `none` is a panic in a price. -/
def fromIndexedTrade (trade : IndexedTrade) (tokenAddress : Address) : Option TickData := do
  let priceBefore ← trade.tokenPriceBefore tokenAddress
  let priceAfter ← trade.tokenPriceAfter tokenAddress
  let (low, high) := if priceBefore < priceAfter then (priceBefore, priceAfter)
    else (priceAfter, priceBefore)
  pure ⟨priceBefore, high, low, priceAfter, (trade.wethVolume tokenAddress).toNat⟩

def addIndexedTrade (tick : TickData) (trade : IndexedTrade) (tokenAddress : Address) :
    Option TickData := do
  let price ← trade.tokenPriceAfter tokenAddress
  let tick :=
    if tick.high < price then { tick with high := price }
    else if price < tick.low then { tick with low := price }
    else tick
  pure { tick with
    close := price
    wethVolume := tick.wethVolume + (trade.wethVolume tokenAddress).toNat }

end TickData

end Pochtecatl
