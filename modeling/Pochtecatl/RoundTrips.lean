import Pochtecatl.BacktestHistory
import Pochtecatl.SwapArithmetic

namespace Pochtecatl

open ConstantProduct

variable {ε : Type} {abi : SwapAbi ε} {rpcProvider : RpcProvider ε}

namespace UniswapV2Pair

variable {pair : UniswapV2Pair} {blockNumber : Nat} {trade openTrade : UniswapV2IndexedTrade}
  {hash : Nat}

/-- The tokens that a trade sold. -/
def amountSold (pair : UniswapV2Pair) (trade : UniswapV2IndexedTrade) : U256 :=
  if pair.token0 = WETH_ADDRESS then trade.amount1In else trade.amount0In

def wethPaid (pair : UniswapV2Pair) (trade : UniswapV2IndexedTrade) : U256 :=
  if pair.token0 = WETH_ADDRESS then trade.amount0In else trade.amount1In

def wethReceived (pair : UniswapV2Pair) (trade : UniswapV2IndexedTrade) : U256 :=
  if pair.token0 = WETH_ADDRESS then trade.amount0Out else trade.amount1Out

/-- A position is opened with WETH only, at the reserves of the block. -/
theorem simulate_open
    (h : pair.simulateTradeRequest abi rpcProvider .open_ blockNumber = some (.ok trade)) :
    ∃ tokenReserve wethReserve,
      pair.getReserves abi rpcProvider blockNumber = .ok (tokenReserve, wethReserve) ∧
      getAmountOut (pair.wethPaid trade) wethReserve tokenReserve = some (pair.amountBought trade) ∧
      pair.wethPaid trade = getEthAmountIn wethReserve ∧
      pair.amountSold trade = 0 ∧ pair.wethReceived trade = 0 := by
  unfold simulateTradeRequest at h
  cases hreserves : pair.getReserves abi rpcProvider blockNumber with
  | error e =>
    rw [hreserves] at h
    cases h
  | ok reserves =>
    obtain ⟨tokenReserve, wethReserve⟩ := reserves
    rw [hreserves] at h
    obtain ⟨out, hout, htrade⟩ := Option.map_eq_some_iff.mp h
    refine ⟨tokenReserve, wethReserve, rfl, ?_⟩
    unfold wethPaid amountBought amountSold wethReceived
    by_cases htoken0 : pair.token0 = WETH_ADDRESS
    · simp only [htoken0, if_true] at htrade ⊢
      cases htrade
      exact ⟨hout, rfl, rfl, rfl⟩
    · simp only [htoken0, if_false] at htrade ⊢
      cases htrade
      exact ⟨hout, rfl, rfl, rfl⟩

/-- A position is closed by selling what the pair has as bought. -/
theorem simulate_close
    (h : pair.simulateTradeRequest abi rpcProvider (.close (.uniswapV2 openTrade) hash) blockNumber =
      some (.ok trade)) :
    ∃ tokenReserve wethReserve,
      pair.getReserves abi rpcProvider blockNumber = .ok (tokenReserve, wethReserve) ∧
      getAmountOut (pair.amountSold trade) tokenReserve wethReserve =
        some (pair.wethReceived trade) ∧
      pair.amountSold trade = pair.amountBought openTrade ∧
      pair.amountBought trade = 0 ∧ pair.wethPaid trade = 0 := by
  unfold simulateTradeRequest at h
  cases hreserves : pair.getReserves abi rpcProvider blockNumber with
  | error e =>
    rw [hreserves] at h
    cases h
  | ok reserves =>
    obtain ⟨tokenReserve, wethReserve⟩ := reserves
    rw [hreserves] at h
    obtain ⟨out, hout, htrade⟩ := Option.map_eq_some_iff.mp h
    refine ⟨tokenReserve, wethReserve, rfl, ?_⟩
    unfold wethPaid amountSold wethReceived
    by_cases htoken0 : pair.token0 = WETH_ADDRESS
    · simp only [htoken0, if_true] at htrade ⊢
      cases htrade
      exact ⟨hout, rfl, by simp [amountBought, htoken0], rfl⟩
    · simp only [htoken0, if_false] at htrade ⊢
      cases htrade
      exact ⟨hout, rfl, by simp [amountBought, htoken0], rfl⟩

/-- Both trades of a position take place at a pool with the same reserves: WETH is lost. -/
theorem wethReceived_le_wethPaid {openTrade closeTrade : UniswapV2IndexedTrade}
    {openBlock closeBlock : Nat}
    (hopen : pair.simulateTradeRequest abi rpcProvider .open_ openBlock = some (.ok openTrade))
    (hclose : pair.simulateTradeRequest abi rpcProvider (.close (.uniswapV2 openTrade) hash)
      closeBlock = some (.ok closeTrade))
    (hsame : pair.getReserves abi rpcProvider openBlock =
      pair.getReserves abi rpcProvider closeBlock) :
    (pair.wethReceived closeTrade).toNat ≤ (pair.wethPaid openTrade).toNat := by
  obtain ⟨tokenReserve, wethReserve, hreserves, hbought, hpaid, -, -⟩ := simulate_open hopen
  obtain ⟨_, _, hreserves', hreceived, hsold, -, -⟩ := simulate_close hclose
  cases hreserves'.symm.trans (hsame.symm.trans hreserves)
  obtain ⟨htoken, hweth⟩ := toNat_getReserves_lt hreserves
  have hcap := toNat_getEthAmountIn_le wethReserve
  rw [← hpaid] at hcap
  have hout := getAmountOut_exact (by omega) (by omega) (by omega) hbought
  have hle : (pair.amountBought openTrade).toNat ≤ tokenReserve.toNat := by
    rw [hout]
    exact amountOut_le_reserve
  rw [hsold] at hreceived
  rw [getAmountOut_exact (by omega) (by omega) (by omega) hreceived, hout]
  exact amountOut_amountOut_same_le (by decide)

end UniswapV2Pair

namespace UniswapV3Pair

variable {pair : UniswapV3Pair} {blockNumber : Nat} {trade openTrade : UniswapV3IndexedTrade}
  {hash : Nat}

/-- What a trade moved of the token, with its sign as the pool counts it. -/
def tokenAmount (pair : UniswapV3Pair) (trade : UniswapV3IndexedTrade) : U256 :=
  if pair.token0 = WETH_ADDRESS then trade.amount1 else trade.amount0

theorem simulate_close
    (h : pair.simulateTradeRequest abi rpcProvider (.close (.uniswapV3 openTrade) hash) blockNumber =
      some (.ok trade)) : pair.tokenAmount trade = pair.amountBought openTrade := by
  unfold simulateTradeRequest at h
  simp only [quoteParams] at h
  obtain ⟨quote, -, hquote⟩ := Option.map_eq_some_iff.mp h
  cases quote with
  | error e => cases hquote
  | ok amounts =>
    obtain ⟨liquidity, amountOut, sqrtPriceX96⟩ := amounts
    unfold tokenAmount
    by_cases htoken0 : pair.token0 = WETH_ADDRESS
    · simp only [Except.map, htoken0, if_true] at hquote ⊢
      cases hquote
      rfl
    · simp only [Except.map, htoken0, if_false] at hquote ⊢
      cases hquote
      rfl

end UniswapV3Pair

/-- A trade of a pair is one of its exchange. -/
theorem simulate_uniswapV2 {pair : UniswapV2Pair} {op : TradeRequestOp} {blockNumber : Nat}
    {trade : UniswapV2IndexedTrade}
    (h : (Pair.uniswapV2 pair).simulateTradeRequest abi rpcProvider op blockNumber =
      some (.ok (.uniswapV2 trade))) :
    pair.simulateTradeRequest abi rpcProvider op blockNumber = some (.ok trade) := by
  obtain ⟨result, hresult, hok⟩ := Option.map_eq_some_iff.mp h
  cases result with
  | error e => cases hok
  | ok made =>
    cases hok
    exact hresult

theorem simulate_uniswapV3 {pair : UniswapV3Pair} {op : TradeRequestOp} {blockNumber : Nat}
    {trade : UniswapV3IndexedTrade}
    (h : (Pair.uniswapV3 pair).simulateTradeRequest abi rpcProvider op blockNumber =
      some (.ok (.uniswapV3 trade))) :
    pair.simulateTradeRequest abi rpcProvider op blockNumber = some (.ok trade) := by
  obtain ⟨result, hresult, hok⟩ := Option.map_eq_some_iff.mp h
  cases result with
  | error e => cases hok
  | ok made =>
    cases hok
    exact hresult

/-- A closed position sold in the pool what it had bought there. Where the reserves did not
change in between, it received no more than it paid. -/
def Pair.Settles (abi : SwapAbi ε) (rpcProvider : RpcProvider ε) (pair : Pair)
    (openTrade closeTrade : StrategyTrade) : Prop :=
  match pair, openTrade.indexedTrade, closeTrade.indexedTrade with
  | .uniswapV2 pair, .uniswapV2 bought, .uniswapV2 sold =>
    pair.amountSold sold = pair.amountBought bought ∧
      (pair.getReserves abi rpcProvider openTrade.blockNumber =
          pair.getReserves abi rpcProvider closeTrade.blockNumber →
        (pair.wethReceived sold).toNat ≤ (pair.wethPaid bought).toNat)
  | .uniswapV3 pair, .uniswapV3 bought, .uniswapV3 sold =>
    pair.tokenAmount sold = pair.amountBought bought
  | _, _, _ => False

/-- Two simulated trades of one pair, the second of which closes the first. -/
theorem Pair.settles_of_simulateTradeRequest {pair : Pair} {openTrade closeTrade : StrategyTrade}
    (hopen : pair.simulateTradeRequest abi rpcProvider .open_ openTrade.blockNumber =
      some (.ok openTrade.indexedTrade))
    (hclose : pair.simulateTradeRequest abi rpcProvider
      (.close openTrade.indexedTrade openTrade.txHash) closeTrade.blockNumber =
        some (.ok closeTrade.indexedTrade)) :
    pair.Settles abi rpcProvider openTrade closeTrade := by
  have hbought := Pair.traded_of_simulateTradeRequest hopen
  have hsold := Pair.traded_of_simulateTradeRequest hclose
  unfold Pair.Settles
  generalize openTrade.indexedTrade = bought at hopen hclose hbought
  generalize closeTrade.indexedTrade = sold at hclose hsold
  cases pair with
  | uniswapV2 pair =>
    cases bought with
    | uniswapV3 bought => exact absurd hbought.2 fun he => by cases he
    | uniswapV2 bought =>
      cases sold with
      | uniswapV3 sold => exact absurd hsold.2 fun he => by cases he
      | uniswapV2 sold =>
        have hopen' := simulate_uniswapV2 hopen
        have hclose' := simulate_uniswapV2 hclose
        obtain ⟨_, _, -, -, hamount, -⟩ := UniswapV2Pair.simulate_close hclose'
        exact ⟨hamount, UniswapV2Pair.wethReceived_le_wethPaid hopen' hclose'⟩
  | uniswapV3 pair =>
    cases bought with
    | uniswapV2 bought => exact absurd hbought.2 fun he => by cases he
    | uniswapV3 bought =>
      cases sold with
      | uniswapV2 sold => exact absurd hsold.2 fun he => by cases he
      | uniswapV3 sold => exact UniswapV3Pair.simulate_close (simulate_uniswapV3 hclose)

namespace Backtest

section Ledger

variable {executor : StrategyExecutor} {start s : Backtest} {runs : List BlockRun} {token : Address}

/-- A trade was simulated on a pair of its block, to open a position or to close one. -/
def SimulatedOn (abi : SwapAbi ε) (rpcProvider : RpcProvider ε) (runs : List BlockRun)
    (openTrade : Option StrategyTrade) (m : StrategyTrade) (pair : Pair) : Prop :=
  ∃ run ∈ runs, run.block.blockNumber = m.blockNumber ∧ pair ∈ run.message.pairs ∧
    pair.simulateTradeRequest abi rpcProvider (.on openTrade) m.blockNumber =
      some (.ok m.indexedTrade)

theorem MadeIn.simulatedOn {openTrade : Option StrategyTrade} {m : StrategyTrade}
    (h : MadeIn abi rpcProvider executor start runs token openTrade m) :
    ∃ pair, pair.tokenAddress = token ∧ SimulatedOn abi rpcProvider runs openTrade m pair := by
  obtain ⟨before, run, after, t, pair, bars, rfl, -, hmade, htoken⟩ := h
  have hsimulated := hmade.simulated
  rw [hmade.op_eq] at hsimulated
  exact ⟨pair, htoken, run, by simp, hmade.blockNumber_eq.symm, hmade.pair_mem, hsimulated⟩

/-- In the ledger of a backtest, each trade was simulated on a pair of its block, and the positions
that were closed on the pair they were opened on sold there what they had bought. -/
theorem closed_settles (hstart : ∀ token, start.trades.view token = .empty)
    (hblocks : (runs.map fun run => run.block.blockNumber).Pairwise (· < ·))
    (hrun : (machine abi rpcProvider executor).run start runs = some s)
    {openTrade closeTrade : StrategyTrade}
    (hclosed : (openTrade, closeTrade) ∈ (s.trades.view token).closed) :
    (∃ pair, pair.tokenAddress = token ∧ SimulatedOn abi rpcProvider runs none openTrade pair) ∧
    (∃ pair, pair.tokenAddress = token ∧
      SimulatedOn abi rpcProvider runs (some openTrade) closeTrade pair) ∧
    ∀ pair, SimulatedOn abi rpcProvider runs none openTrade pair →
      SimulatedOn abi rpcProvider runs (some openTrade) closeTrade pair →
        pair.Settles abi rpcProvider openTrade closeTrade := by
  obtain ⟨hopened, hclosedIn, -⟩ := (run_history hstart hblocks hrun token).closed _ hclosed
  refine ⟨hopened.simulatedOn, hclosedIn.simulatedOn, ?_⟩
  rintro pair ⟨_, -, -, -, hopen⟩ ⟨_, -, -, -, hclose⟩
  exact Pair.settles_of_simulateTradeRequest hopen hclose

end Ledger

open StrategyExecutor

theorem closed_settles_openThenClose : ∃ s openTrade closeTrade,
    (machine reservesAbi emptyPool eager).run start openThenClose = some s ∧
      (openTrade, closeTrade) ∈ (s.trades.view 0).closed ∧
      (Pair.uniswapV2 ⟨1, WETH_ADDRESS, 0⟩).Settles reservesAbi emptyPool openTrade closeTrade := by
  obtain ⟨s, hrun, p, hclosed⟩ : ∃ s,
      (machine reservesAbi emptyPool eager).run start openThenClose = some s ∧
        ∃ p, (s.trades.view 0).closed = [p] := ⟨_, rfl, (_, _), rfl⟩
  have hmem : (p.1, p.2) ∈ (s.trades.view 0).closed := by
    rw [hclosed]
    exact List.mem_singleton_self _
  have hpairs : ∀ run ∈ openThenClose, ∀ pair ∈ run.message.pairs,
      pair = .uniswapV2 ⟨1, WETH_ADDRESS, 0⟩ := by decide
  obtain ⟨⟨opened, -, hopened⟩, ⟨closed, -, hclosed⟩, hsettles⟩ :=
    closed_settles (fun _ => rfl) (by decide) hrun hmem
  have hpair : opened = .uniswapV2 ⟨1, WETH_ADDRESS, 0⟩ := by
    obtain ⟨run, hm, -, hpair, -⟩ := hopened
    exact hpairs run hm opened hpair
  have hpair' : closed = .uniswapV2 ⟨1, WETH_ADDRESS, 0⟩ := by
    obtain ⟨run, hm, -, hpair, -⟩ := hclosed
    exact hpairs run hm closed hpair
  rw [hpair] at hopened
  rw [hpair'] at hclosed
  exact ⟨s, p.1, p.2, hrun, hmem, hsettles _ hopened hclosed⟩

end Backtest

end Pochtecatl
