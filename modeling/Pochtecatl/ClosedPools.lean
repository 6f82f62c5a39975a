import Pochtecatl.Backtest
import Pochtecatl.TradeAtomicity
import Pochtecatl.TradeTransaction

namespace Pochtecatl

/-- The trade was made in the pool of the pair. -/
def Pair.Traded (pair : Pair) (trade : IndexedTrade) : Prop :=
  pair.address = trade.pairAddress ∧ pair.exchange = trade.exchange

/-- The request closes the position in its own pool, which does not refuse it. -/
structure TradeRequest.ClosesPosition (request : TradeRequest) (openTrade : IndexedTrade) :
    Prop where
  address : request.pair.address = openTrade.pairAddress
  exchange : request.pair.exchange = openTrade.exchange
  simulated : ∀ (ε : Type) (abi : SwapAbi ε) (rpcProvider : RpcProvider ε) (isBacktest : Bool)
    (txHash : Nat) (dex : String) (op : TradeRequestOp),
    request.simulateTradeRequest abi rpcProvider isBacktest txHash ≠
      some (.error (.invalidOp dex op))
  made : ∀ (ε : Type) (abi : SwapAbi ε) (rpcProvider : QuotingRpcProvider ε) (dex : String)
    (op : TradeRequestOp),
    request.makeTradeTransactionRequest abi rpcProvider ≠ some (.error (.invalidOp dex op))

/-- An open request closes nothing. -/
def TradeRequest.ClosesItsPosition (request : TradeRequest) : Prop :=
  ∀ openTrade txHash, request.op = .close openTrade txHash → request.ClosesPosition openTrade

/-- The ledger with the calls on it, and every request that the executor dispatched. The call of
a request goes by its place. -/
structure Dispatching where
  controller : TradeController Address StrategyTrade
  dispatched : List TradeRequest

inductive DispatchStep (ε : Type) where
  | onIndexedBlockMessage (message : BlockMessage) (store : TimePriceBarStore)
  | call (a : ControllerStep Address StrategyTrade ε)

namespace Dispatching

open ResolutionTimestamp

def new : Dispatching := ⟨.new, []⟩

variable {ε : Type}

/-- A call is started for a dispatched request. -/
def starts (s : Dispatching) : ControllerStep Address StrategyTrade ε → Bool
  | .openPosition id token =>
    s.dispatched[id]?.any fun request => !request.op.closes && request.tokenAddress = token
  | .closePosition id token =>
    s.dispatched[id]?.any fun request => request.op.closes && request.tokenAddress = token
  | _ => true

/-- The requests of a message are made under one read lock. -/
def step (mode : ControllerMode) (executor : StrategyExecutor) (s : Dispatching) :
    DispatchStep ε → Option Dispatching
  | .onIndexedBlockMessage message store =>
    (executor.tradeRequests message store s.controller.trades).map fun requests =>
      { s with dispatched := s.dispatched ++ requests }
  | .call a =>
    if s.starts a then
      (s.controller.step mode a).map fun controller => { s with controller := controller }
    else none

def machine (ε : Type) (mode : ControllerMode) (executor : StrategyExecutor) :
    Machine Dispatching (DispatchStep ε) := ⟨step mode executor⟩

/-- Every pair of a message that the executor looks at is the pool in which the open position of
its token was made. -/
def PoolsMatch (executor : StrategyExecutor) (s : Dispatching) : DispatchStep ε → Prop
  | .onIndexedBlockMessage message _ => ∀ pair ∈ message.pairs,
    (!executor.isLocal || pair.address = TARGET_PAIR_ADDRESS) → ∀ openTrade,
      (s.controller.trades.view pair.tokenAddress).active = some (.opened openTrade) →
      pair.Traded openTrade.indexedTrade
  | .call _ => True

end Dispatching

/-! ### The requests of a message -/

section Requests

variable {executor : StrategyExecutor} {message : BlockMessage} {store : TimePriceBarStore}
  {trades : Trades Address StrategyTrade} {requests : List TradeRequest} {request : TradeRequest}

open ResolutionTimestamp

/-- The signal of the bars of one pair, for the position of its token. -/
theorem tradeRequest_eq_close_iff {resolution : Resolution} {bars : TimePriceBars} {pair : Pair}
    {openTrade : IndexedTrade} {txHash : Nat} :
    executor.tradeRequest resolution message trades bars pair =
        some ⟨message.blockNumber, message.blockTimestamp, .close openTrade txHash, pair⟩ ↔
      ∃ m, (trades.view pair.tokenAddress).active = some (.opened m) ∧
        executor.strategy.shouldClosePosition bars (fromTimestamp message.blockTimestamp resolution)
          (fromTimestamp m.blockTimestamp resolution) ∧
        m.indexedTrade = openTrade ∧ m.txHash = txHash := by
  unfold StrategyExecutor.tradeRequest
  dsimp only
  rw [active_view]
  split
  next hactive =>
    refine iff_of_false ?_ fun ⟨m, hm, _⟩ => by cases hactive.symm.trans hm
    split
    next => exact fun h => by cases h
    next => exact fun h => by cases h
  next m hactive =>
    constructor
    · intro h
      split at h
      next hcloses =>
        cases h
        exact ⟨m, hactive, hcloses, rfl, rfl⟩
      next => cases h
    · rintro ⟨m', hm', hcloses, rfl, rfl⟩
      cases hactive.symm.trans hm'
      rw [if_pos hcloses]
  next _ hother hactive =>
    refine iff_of_false (fun h => by cases h) ?_
    rintro ⟨m, hm, -⟩
    cases hactive.symm.trans hm
    exact hother m rfl

theorem tradeRequest_fields {resolution : Resolution} {bars : TimePriceBars} {pair : Pair}
    (h : executor.tradeRequest resolution message trades bars pair = some request) :
    request = ⟨message.blockNumber, message.blockTimestamp, request.op, pair⟩ := by
  unfold StrategyExecutor.tradeRequest at h
  dsimp only at h
  split at h
  next =>
    split at h
    next =>
      cases h
      rfl
    next => cases h
  next =>
    split at h
    next =>
      cases h
      rfl
    next => cases h
  next => cases h

theorem estimatedGasFee_ne_invalidOp {ε : Type} {rpcProvider : RpcProvider ε} {dex : String}
    {op : TradeRequestOp} : request.estimatedGasFee rpcProvider ≠ .error (.invalidOp dex op) := by
  unfold TradeRequest.estimatedGasFee
  cases hhash : TradeRequest.medianTxHash rpcProvider request.blockNumber with
  | error e =>
    intro h
    cases h
    unfold TradeRequest.medianTxHash at hhash
    split at hhash
    next =>
      split at hhash
      next => cases hhash
      next => cases hhash
    next => cases hhash
  | ok hash =>
    intro h
    simp only [bind, Except.bind] at h
    split at h
    next => cases h
    next => cases h

/-- A trade in the pool of the request is not of another exchange. -/
theorem closesPosition_of_traded {openTrade : IndexedTrade} {txHash : Nat}
    (hop : request.op = .close openTrade txHash) (h : request.pair.Traded openTrade) :
    request.ClosesPosition openTrade := by
  obtain ⟨haddress, hexchange⟩ := h
  have hmatched : ¬request.op.Mismatched request.pair.exchange := by
    rintro ⟨trade, hash, hop', hne⟩
    cases hop.symm.trans hop'
    exact hne hexchange.symm
  refine ⟨haddress, hexchange, ?_, ?_⟩
  · intro ε abi rpcProvider isBacktest hash dex op hinvalid
    unfold TradeRequest.simulateTradeRequest at hinvalid
    split at hinvalid
    next =>
      obtain ⟨result, hresult, herror⟩ := Option.map_eq_some_iff.mp hinvalid
      cases result with
      | error e =>
        cases herror
        exact hmatched (Pair.mismatched_of_simulateTradeRequest hresult)
      | ok trade =>
        simp only [bind, Except.bind] at herror
        split at herror
        next e hgas =>
          cases herror
          exact estimatedGasFee_ne_invalidOp hgas
        next => cases herror
    next => cases hinvalid
  · intro ε abi rpcProvider dex op hinvalid
    exact hmatched (Pair.mismatched_of_makeTradeTransactionRequest hinvalid)

/-- A simulated trade is one in its pool. -/
theorem Pair.traded_of_simulateTradeRequest {ε : Type} {abi : SwapAbi ε}
    {rpcProvider : RpcProvider ε} {pair : Pair} {op : TradeRequestOp} {blockNumber : Nat}
    {trade : IndexedTrade}
    (h : pair.simulateTradeRequest abi rpcProvider op blockNumber = some (.ok trade)) :
    pair.Traded trade := by
  cases pair with
  | uniswapV2 pair =>
    obtain ⟨result, hresult, hok⟩ := Option.map_eq_some_iff.mp h
    cases result with
    | error e => cases hok
    | ok v2Trade =>
      cases hok
      refine ⟨?_, rfl⟩
      change pair.address = v2Trade.pairAddress
      unfold UniswapV2Pair.simulateTradeRequest at hresult
      split at hresult
      next => cases hresult
      next =>
        split at hresult
        next =>
          obtain ⟨_, -, hok⟩ := Option.map_eq_some_iff.mp hresult
          cases hok
          split
          next => rfl
          next => rfl
        next =>
          obtain ⟨_, -, hok⟩ := Option.map_eq_some_iff.mp hresult
          cases hok
          split
          next => rfl
          next => rfl
        next => cases hresult
  | uniswapV3 pair =>
    obtain ⟨result, hresult, hok⟩ := Option.map_eq_some_iff.mp h
    cases result with
    | error e => cases hok
    | ok v3Trade =>
      cases hok
      refine ⟨?_, rfl⟩
      change pair.address = v3Trade.pairAddress
      unfold UniswapV3Pair.simulateTradeRequest at hresult
      split at hresult
      next => cases hresult
      next =>
        obtain ⟨quote, -, hok⟩ := Option.map_eq_some_iff.mp hresult
        cases quote with
        | error e => cases hok
        | ok amounts =>
          obtain ⟨liquidity, amountOut, sqrtPriceX96⟩ := amounts
          cases hok
          by_cases htoken0 : pair.token0 = WETH_ADDRESS
          · simp only [htoken0, if_true]
          · simp only [htoken0, if_false]

/-- The requests of a message close their positions when its pairs match them, whatever the strategy
answers. -/
theorem tradeRequests_closesItsPosition {ε : Type} {s : Dispatching}
    (h : executor.tradeRequests message store s.controller.trades = some requests)
    (hpools : s.PoolsMatch executor (.onIndexedBlockMessage message store : DispatchStep ε)) :
    ∀ request ∈ requests, request.ClosesItsPosition := by
  intro request hrequest openTrade txHash hop
  obtain ⟨pair, hpair, hlocal, bars, -, hmade⟩ :=
    (StrategyExecutor.mem_tradeRequests h).mp hrequest
  have hfields := tradeRequest_fields hmade
  have hrequestPair : request.pair = pair := congrArg TradeRequest.pair hfields
  rw [hop] at hfields
  rw [hfields] at hmade
  obtain ⟨m, hactive, -, rfl, -⟩ := tradeRequest_eq_close_iff.mp hmade
  apply closesPosition_of_traded hop
  rw [hrequestPair]
  exact hpools pair hpair hlocal m hactive

/-- On a pair that does not match, a strategy that closes has the position closed there. -/
theorem poolsMatch_of_closesItsPosition {ε : Type} {s : Dispatching}
    (hbars : ∀ pair ∈ message.pairs, (store.timePriceBars.get? pair.address).isSome)
    (h : ∀ (strategy : Strategy) (requests : List TradeRequest),
      { executor with strategy := strategy }.tradeRequests message store s.controller.trades =
        some requests → ∀ request ∈ requests, request.ClosesItsPosition) :
    s.PoolsMatch executor (.onIndexedBlockMessage message store : DispatchStep ε) := by
  intro pair hpair hlocal openTrade hactive
  let strategy : Strategy := ⟨fun _ _ => false, fun _ _ _ => true⟩
  have hne : { executor with strategy := strategy }.tradeRequests message store
      s.controller.trades ≠ none := StrategyExecutor.tradeRequests_ne_none hbars
  obtain ⟨requests, hrequests⟩ := Option.ne_none_iff_exists'.mp hne
  obtain ⟨bars, hpairBars⟩ := Option.isSome_iff_exists.mp (hbars pair hpair)
  have hrequest := (StrategyExecutor.mem_tradeRequests hrequests).mpr ⟨pair, hpair, hlocal, bars,
    hpairBars, tradeRequest_eq_close_iff.mpr ⟨openTrade, hactive, rfl, rfl, rfl⟩⟩
  obtain ⟨haddress, hexchange, -, -⟩ := h strategy requests hrequests _ hrequest _ _ rfl
  exact ⟨haddress, hexchange⟩

end Requests

namespace Dispatching

section Runs

variable {ε : Type} {mode : ControllerMode} {executor : StrategyExecutor} {s t s' : Dispatching}
  {steps : List (DispatchStep ε)} {a : DispatchStep ε}

theorem step_closesItsPosition (ha : s.PoolsMatch executor a)
    (hstep : (machine ε mode executor).step s a = some s')
    (h : ∀ request ∈ s.dispatched, request.ClosesItsPosition) :
    ∀ request ∈ s'.dispatched, request.ClosesItsPosition := by
  cases a with
  | onIndexedBlockMessage message store =>
    obtain ⟨requests, hrequests, rfl⟩ := Option.map_eq_some_iff.mp hstep
    exact List.forall_mem_append.mpr ⟨h, tradeRequests_closesItsPosition hrequests ha⟩
  | call a =>
    change (if s.starts a then _ else none) = some s' at hstep
    split at hstep
    next =>
      obtain ⟨controller, -, rfl⟩ := Option.map_eq_some_iff.mp hstep
      exact h
    next => cases hstep

/-- A run whose messages match the open positions has dispatched only requests that close them in
their pools. -/
theorem run_closesItsPosition
    (hpools : (machine ε mode executor).Along (fun s a _ => s.PoolsMatch executor a) new steps)
    (hrun : (machine ε mode executor).run new steps = some s) :
    ∀ request ∈ s.dispatched, request.ClosesItsPosition :=
  Machine.run_invariant_along (I := fun s => ∀ request ∈ s.dispatched, request.ClosesItsPosition)
    (fun _ _ _ h hstep ha => step_closesItsPosition ha hstep h) hpools hrun
    fun _ hrequest => absurd hrequest List.not_mem_nil

/-- In a run whose messages match the open positions every request closes the position it carries
in its own pool. A further message does so with every strategy if and only if it matches them. -/
theorem dispatched_closesItsPosition_of_poolsMatch
    (hpools : (machine ε mode executor).Along (fun s a _ => s.PoolsMatch executor a) new steps)
    (hrun : (machine ε mode executor).run new steps = some s) :
    (∀ request ∈ s.dispatched, request.ClosesItsPosition) ∧
      ∀ (message : BlockMessage) (store : TimePriceBarStore),
        (∀ pair ∈ message.pairs, (store.timePriceBars.get? pair.address).isSome) →
        ((∀ (strategy : Strategy) (requests : List TradeRequest),
          { executor with strategy := strategy }.tradeRequests message store s.controller.trades =
            some requests → ∀ request ∈ requests, request.ClosesItsPosition) ↔
          s.PoolsMatch executor (.onIndexedBlockMessage message store : DispatchStep ε)) := by
  refine ⟨run_closesItsPosition hpools hrun, fun message store hbars => ?_⟩
  constructor
  · exact poolsMatch_of_closesItsPosition hbars
  · exact fun hmatch _ _ hrequests => tradeRequests_closesItsPosition (ε := ε) hrequests hmatch

/-- The pools of token 0 at address 1, and at address 2 in the other exchange. -/
def firstPool : Pair := .uniswapV2 ⟨1, WETH_ADDRESS, 0⟩

def secondPool : Pair := .uniswapV3 ⟨2, WETH_ADDRESS, 0, 500⟩

def twoPoolStore : TimePriceBarStore :=
  { StrategyExecutor.pairStore with
    timePriceBars := StrategyExecutor.pairStore.timePriceBars.insert 2
      (.new (some 60) .fiveMinutes (some .all)) }

/-- A position is opened in the first pool, with what its simulation gives. -/
def opening : List (DispatchStep (SimulateError Unit)) :=
  [.onIndexedBlockMessage ⟨1, 6000, [firstPool]⟩ twoPoolStore, .call (.openPosition 0 0),
    .call (.trace 0 (.ok ())), .call (.confirm 0
      ((TradeRequest.simulateTradeRequest Backtest.reservesAbi StrategyExecutor.emptyPool true 0
        ⟨1, 6000, .open_, firstPool⟩).getD (.error .onlyBacktest)))]

/-- The next block trades the first pool again, and the position is closed there. -/
def closing : List (DispatchStep (SimulateError Unit)) :=
  opening ++ [.onIndexedBlockMessage ⟨2, 6002, [firstPool]⟩ twoPoolStore]

theorem dispatched_closesItsPosition_of_poolsMatch_closing :
    ∃ s, (machine (SimulateError Unit) .backtest StrategyExecutor.eager).run new closing = some s ∧
      (∃ request ∈ s.dispatched, request.op.closes) ∧
      (∀ request ∈ s.dispatched, request.ClosesItsPosition) ∧
      ∀ (message : BlockMessage) (store : TimePriceBarStore),
        (∀ pair ∈ message.pairs, (store.timePriceBars.get? pair.address).isSome) →
        ((∀ (strategy : Strategy) (requests : List TradeRequest),
          { StrategyExecutor.eager with strategy := strategy }.tradeRequests message store
            s.controller.trades = some requests →
            ∀ request ∈ requests, request.ClosesItsPosition) ↔
          s.PoolsMatch StrategyExecutor.eager
            (.onIndexedBlockMessage message store : DispatchStep (SimulateError Unit))) := by
  obtain ⟨s, hrun, hcloses⟩ : ∃ s,
      (machine (SimulateError Unit) .backtest StrategyExecutor.eager).run new closing = some s ∧
        ∃ request ∈ s.dispatched, request.op.closes :=
    ⟨_, rfl, _, List.mem_cons_of_mem _ List.mem_cons_self, rfl⟩
  refine ⟨s, hrun, hcloses, dispatched_closesItsPosition_of_poolsMatch ?_ hrun⟩
  intro s₁ h₁
  cases h₁
  refine ⟨?_, fun s₂ h₂ => ⟨trivial, fun s₃ h₃ => ⟨trivial, fun s₄ h₄ => ⟨trivial, ?_⟩⟩⟩⟩
  · intro pair hpair _ openTrade hactive
    cases List.mem_singleton.mp hpair
    cases hactive
  · cases h₂
    cases h₃
    cases h₄
    refine fun s₅ h₅ => ⟨?_, trivial⟩
    intro pair hpair _ openTrade hactive
    cases List.mem_singleton.mp hpair
    cases hactive
    exact ⟨rfl, rfl⟩

/-- The next block trades only the second pool, and the position of the first one is to be
closed there. -/
theorem dispatched_not_closesItsPosition :
    ¬∀ (mode : ControllerMode) (executor : StrategyExecutor)
      (steps : List (DispatchStep (SimulateError Unit))) (s : Dispatching),
      (machine (SimulateError Unit) mode executor).run new steps = some s →
      ∀ request ∈ s.dispatched, request.ClosesItsPosition := by
  intro h
  obtain ⟨s, hrun, request, hrequest, hop⟩ : ∃ s,
      (machine (SimulateError Unit) .backtest StrategyExecutor.eager).run new
        (opening ++ [.onIndexedBlockMessage ⟨2, 6002, [secondPool]⟩ twoPoolStore]) = some s ∧
      ∃ request ∈ s.dispatched, request.pair = secondPool ∧ ∃ openTrade txHash,
        request.op = .close openTrade txHash ∧ openTrade.pairAddress = 1 := by
    refine ⟨_, rfl, _, List.mem_cons_of_mem _ List.mem_cons_self, rfl, _, _, rfl, rfl⟩
  obtain ⟨hpair, openTrade, txHash, hclose, haddress⟩ := hop
  have hcloses := (h _ _ _ s hrun request hrequest openTrade txHash hclose).address
  rw [hpair, haddress] at hcloses
  exact absurd hcloses (by decide)

/-! ### One pool for each token -/

/-- A message has no second pool of a token, and what is confirmed is a trade in the pool of its
request. -/
def InPools (pools : Address → Pair) (s : Dispatching) : DispatchStep ε → Prop
  | .onIndexedBlockMessage message _ => ∀ pair ∈ message.pairs, pair = pools pair.tokenAddress
  | .call (.confirm id (.ok m)) =>
    ∀ request, s.dispatched[id]? = some request → request.pair.Traded m.indexedTrade
  | .call _ => True

/-- A simulation trades in the pool of its request. -/
theorem traded_of_simulateTradeRequest {ε : Type} {abi : SwapAbi ε} {rpcProvider : RpcProvider ε}
    {isBacktest : Bool} {txHash : Nat} {request : TradeRequest} {m : StrategyTrade}
    (h : request.simulateTradeRequest abi rpcProvider isBacktest txHash = some (.ok m)) :
    request.pair.Traded m.indexedTrade := by
  unfold TradeRequest.simulateTradeRequest at h
  split at h
  next =>
    obtain ⟨result, hresult, hok⟩ := Option.map_eq_some_iff.mp h
    cases result with
    | error e => cases hok
    | ok trade =>
      have htrade : m.indexedTrade = trade := by
        simp only [bind, Except.bind] at hok
        split at hok
        next => cases hok
        next =>
          cases hok
          rfl
      rw [htrade]
      exact Pair.traded_of_simulateTradeRequest hresult
  next => cases h

/-- Calls belong to requests, and positions are in the pools of their tokens. -/
structure OnePool (pools : Address → Pair) (s : Dispatching) : Prop where
  agrees : ∀ token, s.controller.Agrees token
  requests : ∀ request ∈ s.dispatched, request.pair = pools request.tokenAddress
  calls : ∀ id call, s.controller.calls id = some call →
    ∃ request, s.dispatched[id]? = some request ∧ request.tokenAddress = call.token
  confirmed : ∀ token m, (token, .opened m) ∈ s.controller.confirmed →
    (pools token).Traded m.indexedTrade

variable {pools : Address → Pair}

theorem new_onePool (pools : Address → Pair) : OnePool pools new := by
  constructor
  · exact TradeController.new_agrees
  · exact fun request hrequest => absurd hrequest List.not_mem_nil
  · intro id call hcall
    cases hcall
  · exact fun token m hm => absurd hm List.not_mem_nil

/-- An open position was confirmed. -/
theorem OnePool.traded (h : OnePool pools s) {token : Address} {m : StrategyTrade}
    (hactive : (s.controller.trades.view token).active = some (.opened m)) :
    (pools token).Traded m.indexedTrade := by
  obtain ⟨held, closed, hreplay, -, ⟨-, hheld⟩ | ⟨id, request, -, -, -, -, hpending⟩⟩ :=
    h.agrees token
  · rw [hactive] at hheld
    obtain ⟨o, rfl, ho⟩ := Option.map_eq_some_iff.mp hheld.symm
    cases ho
    have hopened := (replay_opened hreplay).1
    have hm : m ∈ (s.controller.confirmedOf token).filterMap Confirmation.opened? := by
      rw [hopened]
      exact List.mem_append_right _ (List.mem_singleton_self m)
    obtain ⟨c, hc, hcm⟩ := List.mem_filterMap.mp hm
    obtain ⟨⟨token', c'⟩, hentry, hc'⟩ := List.mem_filterMap.mp hc
    split at hc'
    next htoken =>
      cases hc'
      cases htoken
      cases c' with
      | opened m' =>
        cases hcm
        exact h.confirmed _ _ hentry
      | closed m' => cases hcm
    next => cases hc'
  · rw [hactive] at hpending
    cases request with
    | open_ => cases hpending
    | close o => cases hpending

theorem OnePool.poolsMatch (h : OnePool pools s) (ha : s.InPools pools a) :
    s.PoolsMatch executor a := by
  cases a with
  | onIndexedBlockMessage message store =>
    intro pair hpair _ openTrade hactive
    rw [ha pair hpair]
    exact h.traded hactive
  | call a => trivial

/-- A started call belongs to the request of its place. -/
theorem starts_token {a : ControllerStep Address StrategyTrade ε} {token : Address}
    (h : s.starts a) (ha : a = .openPosition a.id token ∨ a = .closePosition a.id token) :
    ∃ request, s.dispatched[a.id]? = some request ∧ request.tokenAddress = token := by
  rcases ha with ha | ha
  · rw [ha] at h
    obtain ⟨request, hrequest, hop⟩ := (Option.any_eq_true _ _).mp h
    exact ⟨request, hrequest, of_decide_eq_true (Bool.and_eq_true_iff.mp hop).2⟩
  · rw [ha] at h
    obtain ⟨request, hrequest, hop⟩ := (Option.any_eq_true _ _).mp h
    exact ⟨request, hrequest, of_decide_eq_true (Bool.and_eq_true_iff.mp hop).2⟩

theorem OnePool.step (h : OnePool pools s) (ha : s.InPools pools a)
    (hstep : (machine ε mode executor).step s a = some s') : OnePool pools s' := by
  cases a with
  | onIndexedBlockMessage message store =>
    obtain ⟨requests, hrequests, rfl⟩ := Option.map_eq_some_iff.mp hstep
    constructor
    · exact h.agrees
    · intro request hrequest
      rcases List.mem_append.mp hrequest with hrequest | hrequest
      · exact h.requests request hrequest
      · obtain ⟨pair, hpair, -, bars, -, hmade⟩ :=
          (StrategyExecutor.mem_tradeRequests hrequests).mp hrequest
        have hrequestPair : request.pair = pair :=
          congrArg TradeRequest.pair (tradeRequest_fields hmade)
        rw [TradeRequest.tokenAddress, hrequestPair]
        exact ha pair hpair
    · intro id call hcall
      obtain ⟨request, hrequest, htoken⟩ := h.calls id call hcall
      have hlt := (List.getElem?_eq_some_iff.mp hrequest).1
      exact ⟨request, (List.getElem?_append_left hlt).trans hrequest, htoken⟩
    · exact h.confirmed
  | call a =>
    change (if s.starts a then _ else none) = some s' at hstep
    split at hstep
    next hstarts =>
      obtain ⟨controller, hcontroller, rfl⟩ := Option.map_eq_some_iff.mp hstep
      constructor
      · exact TradeController.step_agrees h.agrees hcontroller
      · exact h.requests
      · intro id call hcall
        rcases TradeController.step_token hcontroller hcall with
          ⟨old, hold, htoken⟩ | ⟨rfl, hregisters⟩
        · obtain ⟨request, hrequest, hrequestToken⟩ := h.calls id old hold
          exact ⟨request, hrequest, hrequestToken.trans htoken⟩
        · exact starts_token hstarts hregisters
      · intro token m hm
        rcases TradeController.step_confirmed hcontroller with
          hsame | ⟨id, call, m', rfl, hcall, hnew⟩
        · exact h.confirmed token m (hsame ▸ hm)
        · dsimp only at hm
          rw [hnew] at hm
          rcases List.mem_append.mp hm with hm | hm
          · exact h.confirmed token m hm
          · have hentry := List.mem_singleton.mp hm
            obtain ⟨request, hrequest, htoken⟩ := h.calls id call hcall
            have htraded := ha request hrequest
            rw [h.requests request (List.mem_of_getElem? hrequest), htoken] at htraded
            cases hop : call.request with
            | open_ =>
              rw [hop] at hentry
              cases hentry
              exact htraded
            | close o =>
              rw [hop] at hentry
              cases hentry
    next => cases hstep

/-- While no token has a second pool, every position is closed in its own. -/
theorem dispatched_closesItsPosition_of_inPools
    (hpools : (machine ε mode executor).Along (fun s a _ => s.InPools pools a) new steps)
    (hrun : (machine ε mode executor).run new steps = some s) :
    ∀ request ∈ s.dispatched, request.ClosesItsPosition :=
  run_closesItsPosition (Machine.along_of_invariant
    (fun _ _ _ h hstep ha => ⟨h.step ha hstep, h.poolsMatch ha⟩) hpools (new_onePool pools)) hrun

end Runs

end Dispatching

end Pochtecatl
