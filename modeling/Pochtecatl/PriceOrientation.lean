import Pochtecatl.TradeSimulation

namespace Pochtecatl

/-- Of the values of the two sides, the one of the side whose token is WETH. -/
def wethSide {β : Type} (token0 : Address) (side0 side1 : β) : β :=
  if token0 = WETH_ADDRESS then side0 else side1

def tokenSide {β : Type} (token0 : Address) (side0 side1 : β) : β :=
  if token0 = WETH_ADDRESS then side1 else side0

section Sides

variable {β : Type} {token0 : Address} {p : Prop} [Decidable p]

theorem wethSide_eq_ite (h : p ↔ token0 ≠ WETH_ADDRESS) (side0 side1 : β) :
    wethSide token0 side0 side1 = if p then side1 else side0 := by
  unfold wethSide
  by_cases hfirst : token0 = WETH_ADDRESS
  · rw [if_pos hfirst, if_neg (mt h.mp (not_not.mpr hfirst))]
  · rw [if_neg hfirst, if_pos (h.mpr hfirst)]

theorem tokenSide_eq_ite (h : p ↔ token0 ≠ WETH_ADDRESS) (side0 side1 : β) :
    tokenSide token0 side0 side1 = if p then side0 else side1 :=
  wethSide_eq_ite h side1 side0

end Sides

/-! ### V2 -/

namespace UniswapV2Pair

/-- The prices and the volume of the trades of a pair take the side of WETH for the side of
WETH. -/
structure PricesAgree (pair : UniswapV2Pair) : Prop where
  priceAfter : ∀ trade : UniswapV2IndexedTrade, trade.pairAddress = pair.address →
    trade.tokenPriceAfter pair.tokenAddress =
      u32f96FromU256Frac (wethSide pair.token0 trade.reserve0 trade.reserve1)
        (tokenSide pair.token0 trade.reserve0 trade.reserve1)
  priceBefore : ∀ trade : UniswapV2IndexedTrade, trade.pairAddress = pair.address →
    trade.tokenPriceBefore pair.tokenAddress =
      u32f96FromU256Frac
        (wethSide pair.token0 (trade.reserve0 - trade.amount0In + trade.amount0Out)
          (trade.reserve1 - trade.amount1In + trade.amount1Out))
        (tokenSide pair.token0 (trade.reserve0 - trade.amount0In + trade.amount0Out)
          (trade.reserve1 - trade.amount1In + trade.amount1Out))
  volume : ∀ trade : UniswapV2IndexedTrade, trade.pairAddress = pair.address →
    trade.wethVolume pair.tokenAddress =
      wethSide pair.token0 (trade.amount0In + trade.amount0Out) (trade.amount1In + trade.amount1Out)

/-- What the reserves and the simulated trades of a pair say of the side of WETH. -/
structure FillsAgree {ε : Type} (abi : SwapAbi ε) (rpcProvider : RpcProvider ε)
    (pair : UniswapV2Pair) : Prop where
  reserves : ∀ blockNumber result reserve0 reserve1,
    rpcProvider.call (.getReserves pair.address) blockNumber = .ok result →
    abi.decodeReserves result = .ok (reserve0, reserve1) →
    pair.getReserves abi rpcProvider blockNumber =
      .ok ((tokenSide pair.token0 reserve0 reserve1).setWidth 256,
        (wethSide pair.token0 reserve0 reserve1).setWidth 256)
  bought : ∀ blockNumber tokenReserve wethReserve trade,
    pair.getReserves abi rpcProvider blockNumber = .ok (tokenReserve, wethReserve) →
    pair.simulateTradeRequest abi rpcProvider .open_ blockNumber = some (.ok trade) →
    ∃ paid out, paid = getEthAmountIn wethReserve ∧
      getAmountOut paid wethReserve tokenReserve = some out ∧
      wethSide pair.token0 (trade.amount0In, trade.amount0Out, trade.reserve0)
        (trade.amount1In, trade.amount1Out, trade.reserve1) = (paid, 0, wethReserve + paid) ∧
      tokenSide pair.token0 (trade.amount0In, trade.amount0Out, trade.reserve0)
        (trade.amount1In, trade.amount1Out, trade.reserve1) = (0, out, tokenReserve - out)
  sold : ∀ blockNumber tokenReserve wethReserve openTrade hash trade,
    pair.getReserves abi rpcProvider blockNumber = .ok (tokenReserve, wethReserve) →
    pair.simulateTradeRequest abi rpcProvider (.close (.uniswapV2 openTrade) hash) blockNumber =
      some (.ok trade) →
    ∃ paid out, paid = tokenSide pair.token0 openTrade.amount0Out openTrade.amount1Out ∧
      getAmountOut paid tokenReserve wethReserve = some out ∧
      wethSide pair.token0 (trade.amount0In, trade.amount0Out, trade.reserve0)
        (trade.amount1In, trade.amount1Out, trade.reserve1) = (0, out, wethReserve - out) ∧
      tokenSide pair.token0 (trade.amount0In, trade.amount0Out, trade.reserve0)
        (trade.amount1In, trade.amount1Out, trade.reserve1) = (paid, 0, tokenReserve + paid)

theorem tokenAddress_lt_iff {pair : UniswapV2Pair}
    (hweth : pair.token0 = WETH_ADDRESS ∨ pair.token1 = WETH_ADDRESS)
    (hsorted : pair.token0 ≤ pair.token1) :
    pair.tokenAddress < WETH_ADDRESS ↔ pair.token0 ≠ WETH_ADDRESS := by
  unfold tokenAddress
  by_cases hfirst : pair.token0 = WETH_ADDRESS
  · rw [if_pos hfirst]
    have hnot : ¬pair.token1 < WETH_ADDRESS := not_lt.mpr (hfirst ▸ hsorted)
    exact iff_of_false hnot fun hne => hne hfirst
  · rw [if_neg hfirst]
    have hsecond := hweth.resolve_left hfirst
    have hlt : pair.token0 < WETH_ADDRESS := lt_of_le_of_ne (hsecond ▸ hsorted) hfirst
    exact iff_of_true hlt hfirst

/-- A comparison of the address of the token decides where WETH is. -/
theorem pricesAgree_iff {pair : UniswapV2Pair}
    (hweth : pair.token0 = WETH_ADDRESS ∨ pair.token1 = WETH_ADDRESS) :
    pair.PricesAgree ↔ pair.token0 ≤ pair.token1 := by
  constructor
  · intro hagree
    by_contra hunsorted
    have hlt : pair.token1 < pair.token0 := not_le.mp hunsorted
    -- only the first side of this trade moved
    have hvolume := hagree.volume ⟨pair.address, 1, 0, 0, 0, 0, 0, 0⟩ rfl
    unfold UniswapV2IndexedTrade.wethVolume tokenAddress wethSide at hvolume
    by_cases hfirst : pair.token0 = WETH_ADDRESS
    · rw [if_pos hfirst, if_pos hfirst, if_pos (hfirst ▸ hlt)] at hvolume
      exact absurd hvolume (show (0 : U256) + 0 ≠ 1 + 0 by decide)
    · have hsecond := hweth.resolve_left hfirst
      have hnot : ¬pair.token0 < WETH_ADDRESS := not_lt.mpr (hsecond ▸ hlt.le)
      rw [if_neg hfirst, if_neg hfirst, if_neg hnot] at hvolume
      exact absurd hvolume (show (1 : U256) + 0 ≠ 0 + 0 by decide)
  · intro hsorted
    have hlt := tokenAddress_lt_iff hweth hsorted
    refine ⟨fun trade _ => ?_, fun trade _ => ?_, fun trade _ => ?_⟩
    · rw [UniswapV2IndexedTrade.tokenPriceAfter, wethSide_eq_ite hlt, tokenSide_eq_ite hlt]
      split
      next => rfl
      next => rfl
    · rw [UniswapV2IndexedTrade.tokenPriceBefore, wethSide_eq_ite hlt, tokenSide_eq_ite hlt]
      split
      next => rfl
      next => rfl
    · rw [UniswapV2IndexedTrade.wethVolume, wethSide_eq_ite hlt]

theorem fillsAgree {ε : Type} (abi : SwapAbi ε) (rpcProvider : RpcProvider ε)
    (pair : UniswapV2Pair) : pair.FillsAgree abi rpcProvider := by
  refine ⟨?_, ?_, ?_⟩
  · intro blockNumber result reserve0 reserve1 hcall hdecode
    unfold getReserves wethSide tokenSide
    simp only [hcall, hdecode, Except.mapError, bind, Except.bind]
    split
    next => rfl
    next => rfl
  · intro blockNumber tokenReserve wethReserve trade hreserves htrade
    unfold simulateTradeRequest at htrade
    rw [hreserves] at htrade
    obtain ⟨out, hout, htrade⟩ := Option.map_eq_some_iff.mp htrade
    refine ⟨_, out, rfl, hout, ?_⟩
    unfold wethSide tokenSide
    split at htrade
    next hfirst =>
      cases htrade
      rw [if_pos hfirst, if_pos hfirst]
      exact ⟨rfl, rfl⟩
    next hfirst =>
      cases htrade
      rw [if_neg hfirst, if_neg hfirst]
      exact ⟨rfl, rfl⟩
  · intro blockNumber tokenReserve wethReserve openTrade hash trade hreserves htrade
    unfold simulateTradeRequest at htrade
    rw [hreserves] at htrade
    obtain ⟨out, hout, htrade⟩ := Option.map_eq_some_iff.mp htrade
    refine ⟨_, out, rfl, hout, ?_⟩
    unfold wethSide tokenSide
    split at htrade
    next hfirst =>
      cases htrade
      unfold amountBought
      rw [if_pos hfirst, if_pos hfirst, if_pos hfirst]
      exact ⟨rfl, rfl⟩
    next hfirst =>
      cases htrade
      unfold amountBought
      rw [if_neg hfirst, if_neg hfirst, if_neg hfirst]
      exact ⟨rfl, rfl⟩

end UniswapV2Pair

/-! ### V3 -/

namespace UniswapV3Pair

structure PricesAgree (pair : UniswapV3Pair) : Prop where
  priceAfter : ∀ trade : UniswapV3IndexedTrade, trade.pairAddress = pair.address →
    trade.tokenPriceAfter pair.tokenAddress =
      u32f96FromSqrtX96 trade.sqrtPriceX96 (pair.token0 = WETH_ADDRESS)
  priceBefore : ∀ trade : UniswapV3IndexedTrade, trade.pairAddress = pair.address →
    trade.tokenPriceBefore pair.tokenAddress =
      trade.adjustedValue.bind fun adjusted =>
        u32f96FromSqrtX96
          (if 0 < trade.amount0.toInt then trade.sqrtPriceX96 + adjusted
            else trade.sqrtPriceX96 - adjusted)
          (pair.token0 = WETH_ADDRESS)
  volume : ∀ trade : UniswapV3IndexedTrade, trade.pairAddress = pair.address →
    trade.wethVolume pair.tokenAddress =
      (wethSide pair.token0 trade.amount0 trade.amount1).unsignedAbs

structure FillsAgree {ε : Type} (abi : SwapAbi ε) (rpcProvider : RpcProvider ε)
    (pair : UniswapV3Pair) : Prop where
  bought : ∀ blockNumber trade,
    pair.simulateTradeRequest abi rpcProvider .open_ blockNumber = some (.ok trade) →
    ∃ amountOut, pair.quoteExactInputSinglePriceMulticall abi rpcProvider
        ⟨WETH_ADDRESS, tokenSide pair.token0 pair.token0 pair.token1, MAX_TRADE_SIZE_WEI,
          pair.fee, 0⟩ blockNumber =
        some (.ok (trade.liquidity, amountOut, trade.sqrtPriceX96)) ∧
      wethSide pair.token0 trade.amount0 trade.amount1 = MAX_TRADE_SIZE_WEI ∧
      tokenSide pair.token0 trade.amount0 trade.amount1 = -amountOut
  sold : ∀ blockNumber openTrade hash trade,
    pair.simulateTradeRequest abi rpcProvider (.close (.uniswapV3 openTrade) hash) blockNumber =
      some (.ok trade) →
    ∃ paid amountOut, paid = (tokenSide pair.token0 openTrade.amount0 openTrade.amount1).unsignedAbs ∧
      pair.quoteExactInputSinglePriceMulticall abi rpcProvider
        ⟨tokenSide pair.token0 pair.token0 pair.token1, WETH_ADDRESS, paid, pair.fee, 0⟩
        blockNumber = some (.ok (trade.liquidity, amountOut, trade.sqrtPriceX96)) ∧
      wethSide pair.token0 trade.amount0 trade.amount1 = -amountOut ∧
      tokenSide pair.token0 trade.amount0 trade.amount1 = paid

theorem lt_tokenAddress_iff {pair : UniswapV3Pair}
    (hweth : pair.token0 = WETH_ADDRESS ∨ pair.token1 = WETH_ADDRESS)
    (hsorted : pair.token0 < pair.token1) :
    (WETH_ADDRESS < pair.tokenAddress ↔ pair.token0 = WETH_ADDRESS) ∧
      (pair.tokenAddress < WETH_ADDRESS ↔ pair.token0 ≠ WETH_ADDRESS) := by
  unfold tokenAddress
  by_cases hfirst : pair.token0 = WETH_ADDRESS
  · rw [if_pos hfirst]
    have hlt : WETH_ADDRESS < pair.token1 := hfirst ▸ hsorted
    exact ⟨iff_of_true hlt hfirst, iff_of_false (not_lt.mpr hlt.le) fun hne => hne hfirst⟩
  · rw [if_neg hfirst]
    have hlt : pair.token0 < WETH_ADDRESS := (hweth.resolve_left hfirst) ▸ hsorted
    exact ⟨iff_of_false (not_lt.mpr hlt.le) hfirst, iff_of_true hlt hfirst⟩

/-- The price and the volume compare the two addresses the other way round, so that they
differ on a pair of WETH with itself. -/
theorem pricesAgree_iff {pair : UniswapV3Pair}
    (hweth : pair.token0 = WETH_ADDRESS ∨ pair.token1 = WETH_ADDRESS) :
    pair.PricesAgree ↔ pair.token0 < pair.token1 := by
  constructor
  · intro hagree
    -- the price is 4 one way and 1/4 the other way round
    have hprice := hagree.priceAfter ⟨pair.address, 0, 0, 0, 158456325028528675187087900672, 0⟩ rfl
    unfold UniswapV3IndexedTrade.tokenPriceAfter at hprice
    have hways : ∀ inverse inverse', u32f96FromSqrtX96 158456325028528675187087900672 inverse =
        u32f96FromSqrtX96 158456325028528675187087900672 inverse' → inverse = inverse' := by decide +kernel
    have hiff : WETH_ADDRESS < pair.tokenAddress ↔ pair.token0 = WETH_ADDRESS :=
      decide_eq_decide.mp (hways _ _ hprice)
    unfold tokenAddress at hiff
    by_cases hfirst : pair.token0 = WETH_ADDRESS
    · rw [if_pos hfirst] at hiff
      rw [hfirst]
      exact hiff.mpr hfirst
    · rw [if_neg hfirst] at hiff
      rw [hweth.resolve_left hfirst]
      exact lt_of_le_of_ne (not_lt.mp (mt hiff.mp hfirst)) hfirst
  · intro hsorted
    obtain ⟨hinverse, hlt⟩ := lt_tokenAddress_iff hweth hsorted
    refine ⟨fun trade _ => ?_, fun trade _ => ?_, fun trade _ => ?_⟩
    · unfold UniswapV3IndexedTrade.tokenPriceAfter
      rw [decide_eq_decide.mpr hinverse]
    · unfold UniswapV3IndexedTrade.tokenPriceBefore
      rw [decide_eq_decide.mpr hinverse]
      rfl
    · rw [UniswapV3IndexedTrade.wethVolume, wethSide_eq_ite hlt]
      split
      next => rfl
      next => rfl

theorem fillsAgree {ε : Type} (abi : SwapAbi ε) (rpcProvider : RpcProvider ε)
    (pair : UniswapV3Pair) : pair.FillsAgree abi rpcProvider := by
  constructor
  · intro blockNumber trade htrade
    obtain ⟨quote, hquote, htrade⟩ := Option.map_eq_some_iff.mp htrade
    cases quote with
    | error e => cases htrade
    | ok quote =>
      obtain ⟨liquidity, amountOut, sqrtPriceX96⟩ := quote
      dsimp only [Except.map] at htrade
      split at htrade
      next hfirst =>
        cases htrade
        exact ⟨amountOut, hquote, if_pos hfirst, if_pos hfirst⟩
      next hfirst =>
        cases htrade
        exact ⟨amountOut, hquote, if_neg hfirst, if_neg hfirst⟩
  · intro blockNumber openTrade hash trade htrade
    obtain ⟨quote, hquote, htrade⟩ := Option.map_eq_some_iff.mp htrade
    cases quote with
    | error e => cases htrade
    | ok quote =>
      obtain ⟨liquidity, amountOut, sqrtPriceX96⟩ := quote
      have hpaid : pair.amountBought openTrade =
          (tokenSide pair.token0 openTrade.amount0 openTrade.amount1).unsignedAbs := by
        unfold amountBought tokenSide
        split
        next => rfl
        next => rfl
      dsimp only [Except.map] at htrade
      split at htrade
      next hfirst =>
        cases htrade
        exact ⟨_, amountOut, hpaid, hquote, if_pos hfirst, if_pos hfirst⟩
      next hfirst =>
        cases htrade
        exact ⟨_, amountOut, hpaid, hquote, if_neg hfirst, if_neg hfirst⟩

end UniswapV3Pair

/-! ### Decoded pairs -/

namespace Pair

def PricesAgree : Pair → Prop
  | uniswapV2 pair => pair.PricesAgree
  | uniswapV3 pair => pair.PricesAgree

def FillsAgree {ε : Type} (abi : SwapAbi ε) (rpcProvider : RpcProvider ε) : Pair → Prop
  | uniswapV2 pair => pair.FillsAgree abi rpcProvider
  | uniswapV3 pair => pair.FillsAgree abi rpcProvider

theorem fillsAgree {ε : Type} (abi : SwapAbi ε) (rpcProvider : RpcProvider ε) (pair : Pair) :
    pair.FillsAgree abi rpcProvider := by
  cases pair with
  | uniswapV2 pair => exact pair.fillsAgree abi rpcProvider
  | uniswapV3 pair => exact pair.fillsAgree abi rpcProvider

end Pair

namespace PairInput

variable {abi : PairAbi} {results : List MulticallResult} {token0 token1 : Address}

/-- The order in which a factory numbers the tokens of a pair. -/
def TokensSorted : PairInput → Address → Address → Prop
  | uniswapV2 _, token0, token1 => token0 ≤ token1
  | uniswapV3 _, token0, token1 => token0 < token1

theorem uniswapV2_of_decode {pairInput : UniswapV2PairInput} {pair : UniswapV2Pair}
    (h0 : MulticallResult.decodeAt abi.decodeAddress results 0 = some token0)
    (h1 : MulticallResult.decodeAt abi.decodeAddress results 1 = some token1)
    (h : pairInput.decode abi results = some pair) :
    pair.token0 = token0 ∧ pair.token1 = token1 ∧
      (pair.token0 = WETH_ADDRESS ∨ pair.token1 = WETH_ADDRESS) := by
  unfold UniswapV2PairInput.decode at h
  rw [h0, h1] at h
  dsimp only [bind, Option.bind_some] at h
  split at h
  next hweth =>
    cases h
    exact ⟨rfl, rfl, hweth⟩
  next => cases h

theorem uniswapV3_of_decode {pairInput : UniswapV3PairInput} {pair : UniswapV3Pair}
    (h0 : MulticallResult.decodeAt abi.decodeAddress results 0 = some token0)
    (h1 : MulticallResult.decodeAt abi.decodeAddress results 1 = some token1)
    (h : pairInput.decode abi results = some pair) :
    pair.token0 = token0 ∧ pair.token1 = token1 ∧
      (pair.token0 = WETH_ADDRESS ∨ pair.token1 = WETH_ADDRESS) := by
  unfold UniswapV3PairInput.decode at h
  rw [h0, h1] at h
  dsimp only [bind, Option.bind_some] at h
  obtain ⟨fee, -, h⟩ := Option.bind_eq_some_iff.mp h
  obtain ⟨factory, -, h⟩ := Option.bind_eq_some_iff.mp h
  split at h
  next => cases h
  next =>
    split at h
    next => cases h
    next hweth =>
      cases h
      exact ⟨rfl, rfl, Decidable.or_iff_not_not_and_not.mpr hweth⟩

/-- The two ways to find WETH agree on a decoded pair exactly when the contract answered the
tokens in the order of their addresses. -/
theorem decode_pricesAgree_iff {ε : Type} {swapAbi : SwapAbi ε} {rpcProvider : RpcProvider ε}
    {pairInput : PairInput} {pair : Pair}
    (h0 : MulticallResult.decodeAt abi.decodeAddress results 0 = some token0)
    (h1 : MulticallResult.decodeAt abi.decodeAddress results 1 = some token1)
    (h : pairInput.decode abi results = some pair) :
    pair.PricesAgree ∧ pair.FillsAgree swapAbi rpcProvider ↔
      pairInput.TokensSorted token0 token1 := by
  rw [and_iff_left (pair.fillsAgree swapAbi rpcProvider)]
  cases pairInput with
  | uniswapV2 pairInput =>
    obtain ⟨pair, hpair, rfl⟩ := Option.map_eq_some_iff.mp h
    obtain ⟨rfl, rfl, hweth⟩ := uniswapV2_of_decode h0 h1 hpair
    exact UniswapV2Pair.pricesAgree_iff hweth
  | uniswapV3 pairInput =>
    obtain ⟨pair, hpair, rfl⟩ := Option.map_eq_some_iff.mp h
    obtain ⟨rfl, rfl, hweth⟩ := uniswapV3_of_decode h0 h1 hpair
    exact UniswapV3Pair.pricesAgree_iff hweth

/-- The number in the first 32 bytes. -/
def numberOfWord (bytes : List (BitVec 8)) : Option Nat :=
  if bytes.length < 32 then none
  else some ((bytes.take 32).foldl (fun n byte => n * 256 + byte.toNat) 0)

def wordAbi : PairAbi where
  decodeAddress bytes := (numberOfWord bytes).map (Fin.ofNat (2 ^ 160))
  decodeFee bytes := (numberOfWord bytes).map fun n => BitVec.ofNat 32 (n % 2 ^ 24)

/-- A contract that answers with an address. -/
def answerWith (address : Address) : MulticallResult :=
  ⟨true, (List.range 32).map fun i => BitVec.ofNat 8 (address.val / 256 ^ (31 - i))⟩

/-- A node whose pairs hold 1000 of each token. -/
def evenNode : RpcProvider Unit :=
  ⟨0, fun _ _ => .ok [], fun _ => .ok none, fun _ => .ok none⟩

def evenAbi : SwapAbi Unit :=
  ⟨fun _ => .ok (1000, 1000), fun _ => .ok [], fun _ => .ok 0, fun _ => .ok (0, 0)⟩

theorem decode_pricesAgree_iff_bothOrders :
    ((Pair.uniswapV2 ⟨1, WETH_ADDRESS, WETH_ADDRESS + 1⟩).PricesAgree ∧
        (Pair.uniswapV2 ⟨1, WETH_ADDRESS, WETH_ADDRESS + 1⟩).FillsAgree evenAbi evenNode) ∧
      ¬((Pair.uniswapV2 ⟨1, WETH_ADDRESS, 1⟩).PricesAgree ∧
        (Pair.uniswapV2 ⟨1, WETH_ADDRESS, 1⟩).FillsAgree evenAbi evenNode) := by
  have habove : (PairInput.uniswapV2 ⟨1⟩).decode wordAbi
      [answerWith WETH_ADDRESS, answerWith (WETH_ADDRESS + 1)] =
        some (.uniswapV2 ⟨1, WETH_ADDRESS, WETH_ADDRESS + 1⟩) := by decide
  have hbelow : (PairInput.uniswapV2 ⟨1⟩).decode wordAbi
      [answerWith WETH_ADDRESS, answerWith 1] = some (.uniswapV2 ⟨1, WETH_ADDRESS, 1⟩) := by decide
  constructor
  · exact (decode_pricesAgree_iff (by decide) (by decide) habove).mpr
      (show WETH_ADDRESS ≤ WETH_ADDRESS + 1 by decide)
  · intro hagree
    have hsorted : WETH_ADDRESS ≤ 1 :=
      (decode_pricesAgree_iff (by decide) (by decide) hbelow).mp hagree
    exact absurd hsorted (by decide)

/-- A token below WETH that a contract names second. -/
theorem decode_not_pricesAgree :
    ¬∀ (pairInput : PairInput) (results : List MulticallResult) (pair : Pair),
      pairInput.decode wordAbi results = some pair →
      pair.PricesAgree ∧ ∀ (abi : SwapAbi Unit) (rpcProvider : RpcProvider Unit),
        pair.FillsAgree abi rpcProvider := by
  intro h
  have hagree := (h (.uniswapV2 ⟨1⟩) [answerWith WETH_ADDRESS, answerWith 1]
    (.uniswapV2 ⟨1, WETH_ADDRESS, 1⟩) (by decide)).1
  have hsorted := (UniswapV2Pair.pricesAgree_iff (Or.inl rfl)).mp hagree
  exact absurd hsorted (by decide)

end PairInput

end Pochtecatl
