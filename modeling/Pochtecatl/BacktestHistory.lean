import Pochtecatl.ClosedPools
import Pochtecatl.RerunBacktest

namespace Pochtecatl

open ResolutionTimestamp

/-- What a request does on a token: it closes the position there is, or opens one. -/
def TradeRequestOp.on : Option StrategyTrade → TradeRequestOp
  | none => .open_
  | some openTrade => .close openTrade.indexedTrade openTrade.txHash

/-- The answer of the strategy for a pair, when the token of the pair has this position. -/
def StrategyExecutor.signal (executor : StrategyExecutor) (store : TimePriceBarStore)
    (blockTimestamp : Nat) (bars : TimePriceBars) : Option StrategyTrade → Bool
  | none => executor.strategy.shouldOpenPosition bars (fromTimestamp blockTimestamp store.resolution)
  | some openTrade => executor.strategy.shouldClosePosition bars
      (fromTimestamp blockTimestamp store.resolution)
      (fromTimestamp openTrade.blockTimestamp store.resolution)

/-- The metadata of a simulated request. -/
theorem TradeRequest.simulateTradeRequest_eq_ok {ε : Type} {abi : SwapAbi ε}
    {rpcProvider : RpcProvider ε} {isBacktest : Bool} {txHash : Nat} {request : TradeRequest}
    {m : StrategyTrade}
    (h : request.simulateTradeRequest abi rpcProvider isBacktest txHash = some (.ok m)) :
    m = ⟨txHash, request.blockNumber, request.blockTimestamp, request.op, request.tokenAddress,
        m.gasFee, m.indexedTrade⟩ ∧
      request.pair.simulateTradeRequest abi rpcProvider request.op request.blockNumber =
        some (.ok m.indexedTrade) := by
  unfold TradeRequest.simulateTradeRequest at h
  split at h
  next =>
    obtain ⟨result, hresult, hok⟩ := Option.map_eq_some_iff.mp h
    cases result with
    | error e => cases hok
    | ok trade =>
      simp only [bind, Except.bind] at hok
      split at hok
      next => cases hok
      next =>
        cases hok
        exact ⟨rfl, hresult⟩
  next => cases h

namespace Backtest

section History

variable {ε : Type} (abi : SwapAbi ε) (rpcProvider : RpcProvider ε) (executor : StrategyExecutor)

/-- The trade is what the request for the pair in this block was simulated to, on the signal of
its bars. -/
structure Made (run : BlockRun) (store : TimePriceBarStore) (openTrade : Option StrategyTrade)
    (m : StrategyTrade) (pair : Pair) (bars : TimePriceBars) : Prop where
  pair_mem : pair ∈ run.message.pairs
  bars_eq : store.timePriceBars.get? pair.address = some bars
  signal : executor.signal store run.block.blockTimestamp bars openTrade
  op_eq : m.op = .on openTrade
  blockNumber_eq : m.blockNumber = run.block.blockNumber
  blockTimestamp_eq : m.blockTimestamp = run.block.blockTimestamp
  tokenAddress_eq : m.tokenAddress = pair.tokenAddress
  simulated : pair.simulateTradeRequest abi rpcProvider m.op m.blockNumber =
    some (.ok m.indexedTrade)

/-- What a block leaves of the trades of a token. A simulation that panics leaves it pending. -/
inductive TokenStep (run : BlockRun) (store : TimePriceBarStore) (token : Address)
    (t : AddressTrades StrategyTrade) : AddressTrades StrategyTrade → Prop where
  | unchanged : TokenStep run store token t t
  | stuck {openTrade : Option StrategyTrade} {pair : Pair}
    (hactive : t.active = openTrade.map .opened) (hpair : pair ∈ run.message.pairs)
    (htoken : pair.tokenAddress = token)
    (hpanics : TradeRequest.SimulationPanics abi rpcProvider
      ⟨run.block.blockNumber, run.block.blockTimestamp, .on openTrade, pair⟩) :
    TokenStep run store token t { t with active := some t.pendingMark }
  | opened (m : StrategyTrade) {pair : Pair} {bars : TimePriceBars} (hactive : t.active = none)
    (hmade : Made abi rpcProvider executor run store none m pair bars)
    (htoken : pair.tokenAddress = token) :
    TokenStep run store token t { t with active := some (.opened m) }
  | closed (openTrade m : StrategyTrade) {pair : Pair} {bars : TimePriceBars}
    (hactive : t.active = some (.opened openTrade))
    (hmade : Made abi rpcProvider executor run store (some openTrade) m pair bars)
    (htoken : pair.tokenAddress = token) :
    TokenStep run store token t (t.close openTrade m)

variable {abi rpcProvider executor} {s s' start : Backtest} {run : BlockRun}
  {runs before : List BlockRun} {token : Address} {m : StrategyTrade}

/-- The request of a task fits the position of its token. -/
theorem request_on {resolution : Resolution} {message : BlockMessage} {bars : TimePriceBars}
    {pair : Pair} {trades : Trades Address StrategyTrade} {request : TradeRequest}
    {store : TimePriceBarStore} (hresolution : store.resolution = resolution)
    (h : executor.tradeRequest resolution message trades bars pair = some request) :
    ∃ openTrade, request = ⟨message.blockNumber, message.blockTimestamp, .on openTrade, pair⟩ ∧
      (trades.view pair.tokenAddress).active = openTrade.map .opened ∧
      executor.signal store message.blockTimestamp bars openTrade := by
  subst hresolution
  have hfields := tradeRequest_fields h
  obtain ⟨-, ⟨hop, hactive⟩ | ⟨openTrade, hop, hactive⟩⟩ := tradeRequest_eq_some h
  · refine ⟨none, by rw [hfields, hop]; rfl, hactive, ?_⟩
    unfold StrategyExecutor.tradeRequest at h
    dsimp only at h
    rw [active_view, hactive] at h
    exact (Option.ite_none_right_eq_some.mp h).1
  · refine ⟨some openTrade, by rw [hfields, hop]; rfl, hactive, ?_⟩
    unfold StrategyExecutor.tradeRequest at h
    dsimp only at h
    rw [active_view, hactive] at h
    exact (Option.ite_none_right_eq_some.mp h).1

theorem step_token (hstep : (machine abi rpcProvider executor).step s run = some s')
    (token : Address) : TokenStep abi rpcProvider executor run s'.store token
      (s.trades.view token) (s'.trades.view token) := by
  obtain ⟨-, -, hreturns⟩ := executeStrategyForBlock_eq_some.mp hstep
  obtain ⟨requests, tasks, hrequests, hrun, hjoined, htrades⟩ :=
    onIndexedBlockMessage_eq_some.mp hreturns
  rw [← htrades]
  rcases TradeTasks.joined_view (dispatched_tradeTasks hrequests _) hrun hjoined token with
    ⟨-, hview⟩ | ⟨task, htask, htoken, hview⟩
  · rw [hview]
    exact .unchanged
  · obtain ⟨id, request, hid, rfl⟩ := mem_tradeTasks.mp htask
    obtain ⟨pair, hpair, -, bars, hbars, hmade⟩ :=
      (StrategyExecutor.mem_tradeRequests hrequests).mp (List.mem_of_getElem? hid)
    obtain ⟨openTrade, rfl, hactive, hsignal⟩ := request_on rfl hmade
    replace htoken : pair.tokenAddress = token := htoken
    rw [htoken] at hactive
    rw [hview, TradeTask.outcome]
    cases hsimulated : TradeRequest.simulateTradeRequest abi rpcProvider true (run.txHashes id)
      ⟨run.message.blockNumber, run.message.blockTimestamp, .on openTrade, pair⟩ with
    | none =>
      simp only [TradeRequest.task, hsimulated]
      exact .stuck hactive hpair htoken
        (TradeRequest.simulateTradeRequest_eq_none_iff.mp hsimulated)
    | some result =>
      simp only [TradeRequest.task, hsimulated, Option.map_some]
      cases result with
      | error e => exact .unchanged
      | ok m =>
        obtain ⟨hm, htrade⟩ := TradeRequest.simulateTradeRequest_eq_ok hsimulated
        have hmade : Made abi rpcProvider executor run s'.store openTrade m pair bars := by
          refine ⟨hpair, hbars, hsignal, ?_, ?_, ?_, ?_, ?_⟩
          · exact congrArg TradeMetadata.op hm
          · exact congrArg TradeMetadata.blockNumber hm
          · exact congrArg TradeMetadata.blockTimestamp hm
          · exact congrArg TradeMetadata.tokenAddress hm
          · rw [show m.op = .on openTrade from congrArg TradeMetadata.op hm,
              show m.blockNumber = run.message.blockNumber from congrArg TradeMetadata.blockNumber hm]
            exact htrade
        cases openTrade with
        | none =>
          have hnone : (s.trades.view token).active = none := hactive
          simp only [Except.toOption, AddressTrades.settle, hnone]
          exact .opened m hnone hmade htoken
        | some openTrade =>
          have hopened : (s.trades.view token).active = some (.opened openTrade) := hactive
          simp only [Except.toOption, AddressTrades.settle, hopened]
          exact .closed openTrade m hopened hmade htoken

variable (abi rpcProvider executor start)

/-- The trade was made in a block of the run, on the bars that the run had then. -/
def MadeIn (runs : List BlockRun) (token : Address) (openTrade : Option StrategyTrade)
    (m : StrategyTrade) : Prop :=
  ∃ before run after s pair bars, runs = before ++ run :: after ∧
    (machine abi rpcProvider executor).run start (before ++ [run]) = some s ∧
    Made abi rpcProvider executor run s.store openTrade m pair bars ∧ pair.tokenAddress = token

/-- A position that was opened and closed. -/
structure RoundTrip (runs : List BlockRun) (token : Address) (openTrade closeTrade : StrategyTrade) :
    Prop where
  opened : MadeIn abi rpcProvider executor start runs token none openTrade
  closed : MadeIn abi rpcProvider executor start runs token (some openTrade) closeTrade
  lt : openTrade.blockNumber < closeTrade.blockNumber

/-- The positions of a token follow each other. -/
structure History (runs : List BlockRun) (token : Address) (t : AddressTrades StrategyTrade) :
    Prop where
  closed : ∀ p ∈ t.closed, RoundTrip abi rpcProvider executor start runs token p.1 p.2
  ordered : t.closed.Pairwise fun p q => p.2.blockNumber < q.1.blockNumber
  active : ∀ m, t.active = some (.opened m) →
    MadeIn abi rpcProvider executor start runs token none m ∧
      ∀ p ∈ t.closed, p.2.blockNumber < m.blockNumber

variable {abi rpcProvider executor start} {openTrade : Option StrategyTrade}
  {t : AddressTrades StrategyTrade}

theorem MadeIn.append (h : MadeIn abi rpcProvider executor start runs token openTrade m)
    (rest : List BlockRun) :
    MadeIn abi rpcProvider executor start (runs ++ rest) token openTrade m := by
  obtain ⟨before, run, after, s, pair, bars, rfl, hs⟩ := h
  exact ⟨before, run, after ++ rest, s, pair, bars, by simp, hs⟩

theorem MadeIn.blockNumber_mem
    (h : MadeIn abi rpcProvider executor start runs token openTrade m) :
    m.blockNumber ∈ runs.map fun run => run.block.blockNumber := by
  obtain ⟨before, run, after, s, pair, bars, rfl, -, hmade, -⟩ := h
  rw [hmade.blockNumber_eq]
  exact List.mem_map_of_mem (by simp)

theorem RoundTrip.append {openTrade closeTrade : StrategyTrade}
    (h : RoundTrip abi rpcProvider executor start runs token openTrade closeTrade)
    (rest : List BlockRun) :
    RoundTrip abi rpcProvider executor start (runs ++ rest) token openTrade closeTrade :=
  ⟨h.opened.append rest, h.closed.append rest, h.lt⟩

/-- A block whose number is above those before it goes on with the history of a token. -/
theorem History.step (h : History abi rpcProvider executor start runs token (s.trades.view token))
    (hrun : (machine abi rpcProvider executor).run start runs = some s)
    (hlt : ∀ n ∈ runs.map (fun run => run.block.blockNumber), n < run.block.blockNumber)
    (hstep : (machine abi rpcProvider executor).step s run = some s') :
    History abi rpcProvider executor start (runs ++ [run]) token (s'.trades.view token) := by
  have hnext : (machine abi rpcProvider executor).run start (runs ++ [run]) = some s' :=
    Machine.run_append_eq_some.mpr ⟨s, hrun, Machine.run_cons_eq_some.mpr ⟨s', hstep, rfl⟩⟩
  have hmadeIn : ∀ {openTrade : Option StrategyTrade} {m : StrategyTrade} {pair : Pair}
      {bars : TimePriceBars}, Made abi rpcProvider executor run s'.store openTrade m pair bars →
      pair.tokenAddress = token →
      MadeIn abi rpcProvider executor start (runs ++ [run]) token openTrade m :=
    fun hmade htoken => ⟨runs, run, [], s', _, _, rfl, hnext, hmade, htoken⟩
  have hclosed : ∀ p ∈ (s.trades.view token).closed,
      RoundTrip abi rpcProvider executor start (runs ++ [run]) token p.1 p.2 :=
    fun p hp => (h.closed p hp).append [run]
  have hcase := step_token hstep token
  generalize s.trades.view token = t at h hclosed hcase
  generalize s'.trades.view token = t' at hcase
  cases hcase with
  | unchanged =>
    refine ⟨hclosed, h.ordered, fun m hm => ?_⟩
    obtain ⟨hmade, hlast⟩ := h.active m hm
    exact ⟨hmade.append [run], hlast⟩
  | stuck =>
    refine ⟨hclosed, h.ordered, fun m hm => ?_⟩
    exact absurd (Option.some.inj hm) (pendingMark_ne_opened m)
  | opened m hactive hmade htoken =>
    refine ⟨hclosed, h.ordered, fun m' hm' => ?_⟩
    cases hm'
    refine ⟨hmadeIn hmade htoken, fun p hp => ?_⟩
    rw [hmade.blockNumber_eq]
    exact hlt _ (h.closed p hp).closed.blockNumber_mem
  | closed openTrade m hactive hmade htoken =>
    obtain ⟨hopened, hlast⟩ := h.active openTrade hactive
    refine ⟨fun p hp => ?_, ?_, fun m' hm' => by cases hm'⟩
    · rcases List.mem_append.mp hp with hp | hp
      · exact hclosed p hp
      · rw [List.mem_singleton.mp hp]
        refine ⟨hopened.append [run], hmadeIn hmade htoken, ?_⟩
        rw [hmade.blockNumber_eq]
        exact hlt _ hopened.blockNumber_mem
    · refine List.pairwise_append.mpr ⟨h.ordered, List.pairwise_singleton _ _, ?_⟩
      intro p hp q hq
      rw [List.mem_singleton.mp hq]
      exact hlast p hp

theorem history_nil (hstart : s.trades.view token = .empty) :
    History abi rpcProvider executor start [] token (s.trades.view token) := by
  rw [hstart]
  exact ⟨fun p hp => (by cases hp), List.Pairwise.nil, fun m hm => by cases hm⟩

theorem run_history (hstart : ∀ token, start.trades.view token = .empty)
    (hblocks : (runs.map fun run => run.block.blockNumber).Pairwise (· < ·))
    (hrun : (machine abi rpcProvider executor).run start runs = some s) (token : Address) :
    History abi rpcProvider executor start runs token (s.trades.view token) := by
  have hinv : (machine abi rpcProvider executor).run start runs = some s ∧
      ((runs.map fun run => run.block.blockNumber).Pairwise (· < ·) →
        History abi rpcProvider executor start runs token (s.trades.view token)) := by
    refine Machine.run_history (I := fun runs s =>
      (machine abi rpcProvider executor).run start runs = some s ∧
        ((runs.map fun run => run.block.blockNumber).Pairwise (· < ·) →
          History abi rpcProvider executor start runs token (s.trades.view token)))
      (P := fun _ _ _ => True) ?_ (Machine.along_of_forall fun _ _ _ _ => trivial) hrun
      ⟨rfl, fun _ => history_nil (hstart token)⟩
    rintro before t run t' ⟨hbefore, hhistory⟩ hstep -
    refine ⟨Machine.run_append_eq_some.mpr ⟨t, hbefore, Machine.run_cons_eq_some.mpr
      ⟨t', hstep, rfl⟩⟩, fun hpairwise => ?_⟩
    rw [List.map_append, List.pairwise_append] at hpairwise
    exact (hhistory hpairwise.1).step hbefore
      (fun n hn => hpairwise.2.2 n hn _ (List.mem_singleton_self _)) hstep
  exact hinv.2 hblocks

/-- A pending token is not traded any more. -/
theorem TokenStep.eq_of_pending {t t' : AddressTrades StrategyTrade} {store : TimePriceBarStore}
    (h : TokenStep abi rpcProvider executor run store token t t') (hpending : ¬t.NotPending) :
    t' = t := by
  cases h with
  | unchanged => rfl
  | @stuck openTrade pair hactive =>
    cases openTrade with
    | none => exact absurd (.inl hactive) hpending
    | some openTrade => exact absurd (.inr ⟨openTrade, hactive⟩) hpending
  | opened m hactive => exact absurd (.inl hactive) hpending
  | closed openTrade m hactive => exact absurd (.inr ⟨openTrade, hactive⟩) hpending

theorem run_pending {t : Backtest} (hpending : ¬(t.trades.view token).NotPending)
    (hrun : (machine abi rpcProvider executor).run t runs = some s) :
    s.trades.view token = t.trades.view token := by
  refine Machine.run_invariant (I := fun s => s.trades.view token = t.trades.view token)
    (fun u run u' hu hstep => ?_) hrun rfl
  rw [← hu] at hpending
  exact ((step_token hstep token).eq_of_pending hpending).trans hu

/-- A token without pairs in the blocks is not traded. -/
theorem run_view_eq (hpairs : ∀ run ∈ runs, ∀ pair ∈ run.message.pairs, pair.tokenAddress ≠ token)
    (hrun : (machine abi rpcProvider executor).run start runs = some s) :
    s.trades.view token = start.trades.view token := by
  induction runs generalizing start with
  | nil =>
    cases hrun
    rfl
  | cons run runs ih =>
    obtain ⟨t, hstep, hrest⟩ := Machine.run_cons_eq_some.mp hrun
    have hother := hpairs run List.mem_cons_self
    have hsame : t.trades.view token = start.trades.view token := by
      have hcase := step_token hstep token
      generalize t.trades.view token = t' at hcase ⊢
      cases hcase with
      | unchanged => rfl
      | stuck hactive hpair htoken => exact absurd htoken (hother _ hpair)
      | opened m hactive hmade htoken => exact absurd htoken (hother _ hmade.pair_mem)
      | closed openTrade m hactive hmade htoken => exact absurd htoken (hother _ hmade.pair_mem)
    exact (ih (fun run' hm => hpairs run' (List.mem_cons_of_mem _ hm)) hrest).trans hsame

/-- The block that leaves a token pending. -/
def SticksAt {ε : Type} (abi : SwapAbi ε) (rpcProvider : RpcProvider ε) (t : Backtest)
    (run : BlockRun) (token : Address) (t' : Backtest) : Prop :=
  (t.trades.view token).NotPending ∧
    t'.trades.view token =
      { t.trades.view token with active := some (t.trades.view token).pendingMark } ∧
    ∃ openTrade, ∃ pair ∈ run.message.pairs, pair.tokenAddress = token ∧
      (t.trades.view token).active = openTrade.map .opened ∧
      TradeRequest.SimulationPanics abi rpcProvider
        ⟨run.block.blockNumber, run.block.blockTimestamp, .on openTrade, pair⟩

theorem step_sticksAt (hstep : (machine abi rpcProvider executor).step s run = some s')
    (hnot : (s.trades.view token).NotPending) (hpending : ¬(s'.trades.view token).NotPending) :
    SticksAt abi rpcProvider s run token s' := by
  have hcase := step_token hstep token
  refine ⟨hnot, ?_⟩
  generalize s.trades.view token = t at hnot hcase ⊢
  generalize s'.trades.view token = t' at hcase hpending ⊢
  cases hcase with
  | unchanged => exact absurd hnot hpending
  | @stuck openTrade pair hactive hpair htoken hpanics =>
    exact ⟨rfl, openTrade, pair, hpair, htoken, hactive, hpanics⟩
  | opened m => exact absurd (.inr ⟨m, rfl⟩) hpending
  | closed openTrade m => exact absurd (.inl rfl) hpending

/-- A token is pending after a backtest when a simulation panicked in one of its blocks, after
which the trades of the token stayed as they were. -/
theorem pending_iff_sticksAt (hstart : (start.trades.view token).NotPending)
    (hrun : (machine abi rpcProvider executor).run start runs = some s) :
    ¬(s.trades.view token).NotPending ↔ ∃ before run after t t', runs = before ++ run :: after ∧
      (machine abi rpcProvider executor).run start before = some t ∧
      (machine abi rpcProvider executor).step t run = some t' ∧
      SticksAt abi rpcProvider t run token t' ∧
      s.trades.view token = t'.trades.view token := by
  constructor
  · intro hpending
    induction runs generalizing start with
    | nil =>
      cases hrun
      exact absurd hstart hpending
    | cons run runs ih =>
      obtain ⟨t, hstep, hrest⟩ := Machine.run_cons_eq_some.mp hrun
      by_cases ht : (t.trades.view token).NotPending
      · obtain ⟨before, run', after, u, u', rfl, hbefore, hu⟩ := ih ht hrest
        exact ⟨run :: before, run', after, u, u', rfl,
          Machine.run_cons_eq_some.mpr ⟨t, hstep, hbefore⟩, hu⟩
      · exact ⟨[], run, runs, start, t, rfl, rfl, hstep, step_sticksAt hstep hstart ht,
          run_pending ht hrest⟩
  · rintro ⟨before, run, after, t, t', -, -, -, ⟨-, hview, -⟩, hsame⟩
    rw [hsame, hview]
    exact not_notPending_settle

/-- The blocks that an indexer executed are in ascending order. -/
theorem executed_ascending {ρ θ π δ : Type} {dex : Dex ρ θ π PairTicks}
    {initial : BlocksTable PairTicks} {startBlockNumber endBlockNumber : Nat}
    {steps : List (IndexerStep ρ π δ)} {i : BlockRangeIndexer ρ π PairTicks δ}
    (hindexed : (BlockRangeIndexer.machine dex).run (.new initial startBlockNumber endBlockNumber)
      steps = some i) (hruns : runs.map BlockRun.block = i.executed) :
    (runs.map fun run => run.block.blockNumber).Pairwise (· < ·) := by
  have hordered := (BlockRangeIndexer.run_inv hindexed).executesInOrder.ordered
  rw [← hruns, List.map_map] at hordered
  exact (List.pairwise_lt_range' 1).sublist hordered.sublist

/-- In the ledger of a backtest over indexed blocks, the positions of a token follow each other.
Each was opened on a signal of the strategy, at the price of that block, and closed in a later
block on another one. -/
theorem indexed_history {ρ θ π δ : Type} {dex : Dex ρ θ π PairTicks}
    {initial : BlocksTable PairTicks} {startBlockNumber endBlockNumber : Nat}
    {steps : List (IndexerStep ρ π δ)} {i : BlockRangeIndexer ρ π PairTicks δ}
    (hindexed : (BlockRangeIndexer.machine dex).run (.new initial startBlockNumber endBlockNumber)
      steps = some i) (hruns : runs.map BlockRun.block = i.executed)
    (hstart : ∀ token, start.trades.view token = .empty)
    (hrun : (machine abi rpcProvider executor).run start runs = some s) (token : Address) :
    History abi rpcProvider executor start runs token (s.trades.view token) :=
  run_history hstart (executed_ascending hindexed hruns) hrun token

end History

section Example

open StrategyExecutor

/-- Blocks with one pair and no logs. -/
def onePairDex : Dex Unit Unit Unit PairTicks :=
  ⟨fun _ => [], (TimePriceBarStore.singleBlock 1 6000 1).pairTicks, fun _ ticks _ => some ticks⟩

/-- The position that is opened in the first block is closed in the second. -/
def openThenClose : List BlockRun :=
  [⟨TimePriceBarStore.singleBlock 1 6000 1, [], [1], fun _ => 0, [0, 0, 0]⟩,
    ⟨TimePriceBarStore.singleBlock 2 6002 1, [1], [1], fun _ => 1, [0, 0, 0]⟩]

set_option maxRecDepth 10000 in
theorem indexed_history_openThenClose : ∃ s,
    (machine reservesAbi emptyPool eager).run start openThenClose = some s ∧
      (s.trades.view 0).closed.length = 1 ∧
      History reservesAbi emptyPool eager start openThenClose 0 (s.trades.view 0) := by
  obtain ⟨i, hindexed, hexecuted⟩ : ∃ i,
      (BlockRangeIndexer.machine onePairDex).run (.new .empty 1 2) wholeRun = some i ∧
        i.executed = openThenClose.map BlockRun.block := ⟨_, rfl, rfl⟩
  obtain ⟨s, hrun, hclosed⟩ : ∃ s,
      (machine reservesAbi emptyPool eager).run start openThenClose = some s ∧
        (s.trades.view 0).closed.length = 1 := ⟨_, rfl, rfl⟩
  exact ⟨s, hrun, hclosed, indexed_history hindexed hexecuted.symm (fun _ => rfl) hrun 0⟩

/-- The token is pending in the second block, so no task is spawned for it. -/
def openThenWait : List BlockRun :=
  [⟨TimePriceBarStore.singleBlock 1 6000 1, [], [1], fun _ => 0, [0, 0, 0]⟩,
    ⟨TimePriceBarStore.singleBlock 2 6002 1, [1], [1], fun _ => 1, []⟩]

theorem pending_iff_sticksAt_emptyPool : ∃ s,
    (machine zeroAbi emptyPool eager).run start openThenWait = some s ∧
      ∃ before run after t t', openThenWait = before ++ run :: after ∧
        (machine zeroAbi emptyPool eager).run start before = some t ∧
        (machine zeroAbi emptyPool eager).step t run = some t' ∧
        SticksAt zeroAbi emptyPool t run 0 t' ∧ s.trades.view 0 = t'.trades.view 0 := by
  obtain ⟨s, hrun, hactive⟩ : ∃ s,
      (machine zeroAbi emptyPool eager).run start openThenWait = some s ∧
        (s.trades.view 0).active = some .pendingOpen := ⟨_, rfl, rfl⟩
  refine ⟨s, hrun, (pending_iff_sticksAt (Or.inl rfl) hrun).mp ?_⟩
  rintro (hnone | ⟨m, hm⟩)
  · rw [hactive] at hnone
    cases hnone
  · rw [hactive] at hm
    cases hm

end Example

end Backtest

end Pochtecatl
