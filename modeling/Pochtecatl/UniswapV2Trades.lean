import Pochtecatl.BacktestHistory
import Pochtecatl.Calldata

namespace Pochtecatl

/-! ### The reserves of a pair -/

/-- The provider sends the call for the reserves of a pair to a node as bytes. -/
def RpcProvider.SendsTo {ε : Type} (rpcProvider : RpcProvider ε) (encoding : Abi.BytesEncoding)
    (node : Calldata.TransactionRequest → Nat → Except ε (List Abi.Byte)) : Prop :=
  ∀ pairAddress blockNumber request,
    Calldata.getReservesTxRequest encoding rpcProvider.signerAddress pairAddress = some request →
    rpcProvider.call (.getReserves pairAddress) blockNumber = node request blockNumber

/-- The contract at the address has no function with the selector zero and refuses to be called
with it. -/
def RefusesZeroSelector {ε : Type}
    (node : Calldata.TransactionRequest → Nat → Except ε (List Abi.Byte)) (address : Address) :
    Prop :=
  ∀ request blockNumber, request.to_ = some address → request.input.take 4 = [0, 0, 0, 0] →
    ∃ e, node request blockNumber = .error e

section Reserves

variable {ε : Type} {abi : SwapAbi ε} {rpcProvider : QuotingRpcProvider ε}
  {encoding : Abi.BytesEncoding}
  {node : Calldata.TransactionRequest → Nat → Except ε (List Abi.Byte)} {pair : UniswapV2Pair}

/-- The reserves are asked for with the selector zero. -/
theorem UniswapV2Pair.getReserves_error {rpcProvider : RpcProvider ε} (abi : SwapAbi ε)
    (blockNumber : Nat) (hsends : rpcProvider.SendsTo encoding node)
    (hrefuses : RefusesZeroSelector node pair.address) :
    ∃ e, pair.getReserves abi rpcProvider blockNumber = .error (.getReserves pair.address e) := by
  have hrequest :=
    Calldata.getReservesTxRequest_eq encoding rpcProvider.signerAddress pair.address
  have hcall := hsends pair.address blockNumber _ hrequest
  obtain ⟨e, he⟩ := hrefuses
    { from_ := some rpcProvider.signerAddress, to_ := some pair.address,
      input := encoding.abiEncode (Calldata.getReserves.abiEncode ()) } blockNumber rfl
    (Abi.Codec.take_abiEncode_of_dynamic encoding.dynamic_eq _)
  refine ⟨e, ?_⟩
  rw [getReserves, hcall, he]
  rfl

/-- No trade of the pair is simulated and none is sent. -/
theorem TradeRequest.uniswapV2_never_trades {tradeRequest : TradeRequest}
    (hpair : tradeRequest.pair = .uniswapV2 pair)
    (hsends : rpcProvider.toRpcProvider.SendsTo encoding node)
    (hrefuses : RefusesZeroSelector node pair.address) :
    (∀ isBacktest txHash trade, tradeRequest.simulateTradeRequest abi rpcProvider.toRpcProvider
      isBacktest txHash ≠ some (.ok trade)) ∧
    ∀ request, tradeRequest.makeTradeTransactionRequest abi rpcProvider ≠ some (.ok request) := by
  obtain ⟨e, he⟩ := UniswapV2Pair.getReserves_error abi tradeRequest.blockNumber hsends hrefuses
  constructor
  · intro isBacktest txHash trade h
    unfold simulateTradeRequest at h
    split at h
    next =>
      rw [hpair, Pair.simulateTradeRequest, UniswapV2Pair.simulateTradeRequest, he] at h
      cases h
    next => cases h
  · intro request h
    rw [makeTradeTransactionRequest, hpair, Pair.makeTradeTransactionRequest,
      UniswapV2Pair.makeTradeTransactionRequest, he] at h
    cases h

end Reserves

/-- Contracts that know no function with the selector zero, and answer nothing to any other call. -/
def refusingNode (request : Calldata.TransactionRequest) (_ : Nat) : Except Unit (List Abi.Byte) :=
  if request.input.take 4 = [0, 0, 0, 0] then .error () else .ok []

/-- A provider of such a node, which sends a vector as bytes. -/
def refusingProvider : RpcProvider Unit where
  signerAddress := 1
  call
    | .getReserves pairAddress, blockNumber =>
      match Calldata.getReservesTxRequest .bytes 1 pairAddress with
      | some request => refusingNode request blockNumber
      | none => .error ()
    | .multicall _, _ => .ok []
  getBlock _ := .ok (some (.hashes [0]))
  getTransactionReceipt _ := .ok (some 1)

theorem refusingProvider_sendsTo : refusingProvider.SendsTo .bytes refusingNode := by
  intro pairAddress blockNumber request h
  have hrequest : Calldata.getReservesTxRequest .bytes 1 pairAddress = some request := h
  simp only [refusingProvider, hrequest]

theorem refusesZeroSelector_refusingNode (address : Address) :
    RefusesZeroSelector refusingNode address :=
  fun _ _ _ hselector => ⟨(), if_pos hselector⟩

def refusingQuotingProvider : QuotingRpcProvider Unit := ⟨refusingProvider, fun _ _ => .ok []⟩

/-- Reserves of which a trade could be made. -/
def fundedAbi : SwapAbi Unit :=
  ⟨fun _ => .ok (5000, 7000), fun _ => .ok [], fun _ => .ok 0, fun _ => .ok (0, 0)⟩

/-- A request of a pair that the node refuses. -/
def refusedRequest : TradeRequest := ⟨1, 6000, .open_, .uniswapV2 ⟨2, WETH_ADDRESS, 3⟩⟩

theorem TradeRequest.uniswapV2_never_trades_refused : ¬∃ request,
    refusedRequest.makeTradeTransactionRequest fundedAbi refusingQuotingProvider =
      some (.ok request) := by
  have hpair : refusedRequest.pair = .uniswapV2 ⟨2, WETH_ADDRESS, 3⟩ := rfl
  have hsends : refusingQuotingProvider.toRpcProvider.SendsTo .bytes refusingNode :=
    refusingProvider_sendsTo
  obtain ⟨-, hnever⟩ := @uniswapV2_never_trades _ fundedAbi _ _ _ _ _ hpair hsends
    (refusesZeroSelector_refusingNode 2)
  rintro ⟨request, hrequest⟩
  exact hnever request hrequest

/-! ### The trades of a backtest -/

/-- The trades of a token are all trades on Uniswap V3. -/
structure AddressTrades.OnUniswapV3 (t : AddressTrades StrategyTrade) : Prop where
  closed : ∀ p ∈ t.closed,
    p.1.indexedTrade.exchange = .uniswapV3 ∧ p.2.indexedTrade.exchange = .uniswapV3
  active : ∀ m, t.active = some (.opened m) → m.indexedTrade.exchange = .uniswapV3

namespace Backtest

variable {ε : Type} {abi : SwapAbi ε} {rpcProvider : RpcProvider ε} {executor : StrategyExecutor}
  {encoding : Abi.BytesEncoding}
  {node : Calldata.TransactionRequest → Nat → Except ε (List Abi.Byte)}
  {start s : Backtest} {runs : List BlockRun} {run : BlockRun} {store : TimePriceBarStore}
  {token : Address} {t t' : AddressTrades StrategyTrade}

/-- The Uniswap V2 pairs of a block refuse to be called with the selector zero. -/
def PairsRefuse (node : Calldata.TransactionRequest → Nat → Except ε (List Abi.Byte))
    (run : BlockRun) : Prop :=
  ∀ pair, Pair.uniswapV2 pair ∈ run.message.pairs → RefusesZeroSelector node pair.address

/-- A trade is made on Uniswap V3. -/
theorem Made.onUniswapV3 {openTrade : Option StrategyTrade} {m : StrategyTrade} {pair : Pair}
    {bars : TimePriceBars} (hsends : rpcProvider.SendsTo encoding node)
    (hrefuse : PairsRefuse node run)
    (h : Made abi rpcProvider executor run store openTrade m pair bars) :
    pair.exchange = .uniswapV3 ∧ m.indexedTrade.exchange = .uniswapV3 := by
  have hexchange := (Pair.traded_of_simulateTradeRequest h.simulated).2
  cases pair with
  | uniswapV3 pair => exact ⟨rfl, hexchange.symm⟩
  | uniswapV2 pair =>
    obtain ⟨e, he⟩ := UniswapV2Pair.getReserves_error abi m.blockNumber hsends
      (hrefuse pair h.pair_mem)
    have hsimulated := h.simulated
    rw [Pair.simulateTradeRequest, UniswapV2Pair.simulateTradeRequest, he] at hsimulated
    cases hsimulated

/-- A block keeps the trades on Uniswap V3. -/
theorem TokenStep.onUniswapV3 (hsends : rpcProvider.SendsTo encoding node)
    (hrefuse : PairsRefuse node run)
    (h : TokenStep abi rpcProvider executor run store token t t') (ht : t.OnUniswapV3) :
    t'.OnUniswapV3 := by
  cases h with
  | unchanged => exact ht
  | stuck => exact ⟨ht.closed, fun m hm => absurd (Option.some.inj hm) (pendingMark_ne_opened m)⟩
  | opened m hactive hmade =>
    refine ⟨ht.closed, fun m' hm => ?_⟩
    cases hm
    exact (hmade.onUniswapV3 hsends hrefuse).2
  | closed openTrade m hactive hmade =>
    refine ⟨fun p hp => ?_, fun m' hm => by cases hm⟩
    rcases List.mem_append.mp hp with hp | hp
    · exact ht.closed p hp
    · rw [List.mem_singleton.mp hp]
      exact ⟨ht.active openTrade hactive, (hmade.onUniswapV3 hsends hrefuse).2⟩

/-- A block leaves a token that has pairs on Uniswap V2 only. -/
theorem TokenStep.eq_of_uniswapV2 (hsends : rpcProvider.SendsTo encoding node)
    (hrefuse : PairsRefuse node run)
    (hpairs : ∀ pair ∈ run.message.pairs, pair.tokenAddress = token → pair.exchange = .uniswapV2)
    (h : TokenStep abi rpcProvider executor run store token t t') : t' = t := by
  have hnotMade : ∀ {openTrade : Option StrategyTrade} {m : StrategyTrade} {pair : Pair}
      {bars : TimePriceBars}, pair.tokenAddress = token →
      ¬Made abi rpcProvider executor run store openTrade m pair bars := by
    intro openTrade m pair bars htoken hmade
    have hexchange := (hmade.onUniswapV3 hsends hrefuse).1
    rw [hpairs pair hmade.pair_mem htoken] at hexchange
    cases hexchange
  cases h with
  | unchanged => rfl
  | @stuck openTrade pair hactive hpair htoken hpanics =>
    have hexchange := hpairs pair hpair htoken
    cases pair with
    | uniswapV3 pair => cases hexchange
    | uniswapV2 pair =>
      obtain ⟨e, he⟩ := UniswapV2Pair.getReserves_error abi run.block.blockNumber hsends
        (hrefuse pair hpair)
      obtain ⟨_, _, hreserves, -⟩ := hpanics
      rw [he] at hreserves
      cases hreserves
  | opened m hactive hmade htoken => exact absurd hmade (hnotMade htoken)
  | closed openTrade m hactive hmade htoken => exact absurd hmade (hnotMade htoken)

/-- A backtest only ever trades on Uniswap V3, and leaves the tokens that have pairs on Uniswap V2
only. -/
theorem run_onUniswapV3 (hsends : rpcProvider.SendsTo encoding node)
    (hrefuse : ∀ run ∈ runs, PairsRefuse node run)
    (hstart : ∀ token, start.trades.view token = .empty)
    (hrun : (machine abi rpcProvider executor).run start runs = some s) (token : Address) :
    (s.trades.view token).OnUniswapV3 ∧
      ((∀ run ∈ runs, ∀ pair ∈ run.message.pairs, pair.tokenAddress = token →
        pair.exchange = .uniswapV2) → s.trades.view token = .empty) := by
  have hmem : (machine abi rpcProvider executor).Along (fun _ run _ => run ∈ runs) start runs :=
    Machine.along_of_forall fun run hm _ _ => hm
  constructor
  · refine Machine.run_invariant_along (I := fun s => (s.trades.view token).OnUniswapV3)
      (fun u run v hu hstep hm => ?_) hmem hrun ?_
    · exact (step_token hstep token).onUniswapV3 hsends (hrefuse run hm) hu
    · rw [hstart token]
      exact ⟨fun p hp => (by cases hp), fun m hm => (by cases hm)⟩
  · intro hpairs
    refine Machine.run_invariant_along (I := fun s => s.trades.view token = .empty)
      (fun u run v hu hstep hm => ?_) hmem hrun (hstart token)
    exact ((step_token hstep token).eq_of_uniswapV2 hsends (hrefuse run hm) (hpairs run hm)).trans hu

set_option maxRecDepth 10000 in
/-- A strategy that would open a position in the only pair does not trade. -/
theorem run_onUniswapV3_refused : ∃ s,
    (machine reservesAbi refusingProvider StrategyExecutor.eager).run Backtest.start
      [⟨TimePriceBarStore.singleBlock 1 6000 1, [], [1], fun _ => 0, [0, 0, 0]⟩] = some s ∧
        s.trades.view 0 = .empty := by
  obtain ⟨s, hrun⟩ : ∃ s,
      (machine reservesAbi refusingProvider StrategyExecutor.eager).run Backtest.start
        [⟨TimePriceBarStore.singleBlock 1 6000 1, [], [1], fun _ => 0, [0, 0, 0]⟩] = some s :=
    ⟨_, rfl⟩
  have hrefuse : ∀ run ∈ [(⟨TimePriceBarStore.singleBlock 1 6000 1, [], [1], fun _ => 0,
      [0, 0, 0]⟩ : BlockRun)], PairsRefuse refusingNode run := fun _ _ pair _ =>
    refusesZeroSelector_refusingNode pair.address
  exact ⟨s, hrun, (run_onUniswapV3 refusingProvider_sendsTo hrefuse (fun _ => rfl) hrun 0).2
    (by decide)⟩

end Backtest

end Pochtecatl
