import Pochtecatl.BarsForStrategy
import Pochtecatl.StoreOrders
import Pochtecatl.StuckPositions
import Pochtecatl.TxHashes

namespace Pochtecatl

/-- A block, and what is free when a backtest executes the strategy for it: the orders in which
the maps are iterated, the random hashes, and the order in which the tasks run their steps. -/
structure BlockRun where
  block : Block PairTicks
  storeOrder : List Address
  blockOrder : List Address
  txHashes : Nat → Nat
  schedule : List Nat

/-- A backtest does not ask for the finalized header. -/
def BlockRun.call (run : BlockRun) : InsertBlock :=
  ⟨run.block, none, run.storeOrder, run.blockOrder⟩

def BlockRun.message (run : BlockRun) : BlockMessage := .ofBlock run.block run.blockOrder

structure Backtest where
  store : TimePriceBarStore
  trades : Trades Address StrategyTrade

namespace Backtest

section Step

variable {ε : Type} (abi : SwapAbi ε) (rpcProvider : RpcProvider ε) (executor : StrategyExecutor)

/-- `execute_strategy_for_block`, when it returns `Ok`. -/
def executeStrategyForBlock (s : Backtest) (run : BlockRun) : Option Backtest :=
  if s.store.Admits run.call then
    (TimePriceBarStore.insert run.call s.store).okState.bind fun store =>
      (executor.onIndexedBlockMessage abi rpcProvider run.message store s.trades run.txHashes
        run.schedule).map (⟨store, ·⟩)
  else none

def machine : Machine Backtest BlockRun := ⟨executeStrategyForBlock abi rpcProvider executor⟩

/-- The requests for one token would all end the same way, whichever of them is executed. -/
def SameOutcomes (requests : List TradeRequest) : Prop :=
  ∀ request ∈ requests, ∀ request' ∈ requests, request.tokenAddress = request'.tokenAddress →
    request.outcome abi rpcProvider = request'.outcome abi rpcProvider

def Undisputed (s : Backtest) (run : BlockRun) (s' : Backtest) : Prop :=
  ∀ requests, executor.tradeRequests run.message s'.store s.trades = some requests →
    SameOutcomes abi rpcProvider requests

variable {abi : SwapAbi ε} {rpcProvider : RpcProvider ε} {executor : StrategyExecutor}
  {s s' t t' : Backtest} {run run' : BlockRun}

theorem executeStrategyForBlock_eq_some :
    executeStrategyForBlock abi rpcProvider executor s run = some s' ↔
      s.store.Admits run.call ∧ TimePriceBarStore.insert run.call s.store = .ok () s'.store ∧
        executor.onIndexedBlockMessage abi rpcProvider run.message s'.store s.trades run.txHashes
          run.schedule = some s'.trades := by
  simp only [executeStrategyForBlock, Option.ite_none_right_eq_some, Option.bind_eq_some_iff,
    Option.map_eq_some_iff, EStateM.Result.okState_eq_some]
  refine and_congr_right fun _ => ⟨?_, fun h => ⟨s'.store, h.1, s'.trades, h.2, rfl⟩⟩
  rintro ⟨store, hstore, trades, htrades, rfl⟩
  exact ⟨hstore, htrades⟩

/-- The tasks of a block leave the same trades in whatever order they run, when no two of
them dispute a token. -/
theorem onIndexedBlockMessage_sameTrades {trades trades' left left' : Trades Address StrategyTrade}
    {store : TimePriceBarStore} {block : Block PairTicks} {order order' : List Address}
    {txHashes txHashes' : Nat → Nat} {schedule schedule' : List Nat}
    (h : SameTrades trades trades') (ho : block.pairTicks.IterOrder order)
    (ho' : block.pairTicks.IterOrder order')
    (hundisputed : ∀ requests,
      executor.tradeRequests (.ofBlock block order) store trades = some requests →
        SameOutcomes abi rpcProvider requests)
    (hleft : executor.onIndexedBlockMessage abi rpcProvider (.ofBlock block order) store trades
      txHashes schedule = some left)
    (hleft' : executor.onIndexedBlockMessage abi rpcProvider (.ofBlock block order') store trades'
      txHashes' schedule' = some left') : SameTrades left left' := by
  obtain ⟨requests, s, hrequests, hrun, hjoined, rfl⟩ := onIndexedBlockMessage_eq_some.mp hleft
  obtain ⟨requests', s', hrequests', hrun', hjoined', rfl⟩ :=
    onIndexedBlockMessage_eq_some.mp hleft'
  have hsymm : SameTrades trades' trades := fun token => (h token).symm
  intro token
  rcases TradeTasks.joined_view (dispatched_tradeTasks hrequests txHashes) hrun hjoined token with
      ⟨hnone, hview⟩ | ⟨task, htask, htoken, hview⟩ <;>
    rcases TradeTasks.joined_view (dispatched_tradeTasks hrequests' txHashes') hrun' hjoined' token
      with ⟨hnone', hview'⟩ | ⟨task', htask', htoken', hview'⟩
  · rw [hview, hview', h token]
  · obtain ⟨id, request', hid, rfl⟩ := mem_tradeTasks.mp htask'
    obtain ⟨request, hm, heq⟩ :=
      tradeRequests_congr h ho ho' hrequests hrequests' (List.mem_of_getElem? hid)
    obtain ⟨id, hid⟩ := List.mem_iff_getElem?.mp hm
    have hpair := congrArg TradeRequest.tokenAddress heq
    exact absurd (hpair.trans htoken') (hnone _ (mem_tradeTasks.mpr ⟨id, request, hid, rfl⟩))
  · obtain ⟨id, request, hid, rfl⟩ := mem_tradeTasks.mp htask
    obtain ⟨request', hm, heq⟩ :=
      tradeRequests_congr hsymm ho' ho hrequests' hrequests (List.mem_of_getElem? hid)
    obtain ⟨id, hid⟩ := List.mem_iff_getElem?.mp hm
    have hpair := congrArg TradeRequest.tokenAddress heq
    exact absurd (hpair.trans htoken) (hnone' _ (mem_tradeTasks.mpr ⟨id, request', hid, rfl⟩))
  · obtain ⟨id, request, hid, rfl⟩ := mem_tradeTasks.mp htask
    obtain ⟨id', request', hid', rfl⟩ := mem_tradeTasks.mp htask'
    obtain ⟨other, hm, heq⟩ :=
      tradeRequests_congr h ho ho' hrequests hrequests' (List.mem_of_getElem? hid')
    have hpair := congrArg TradeRequest.tokenAddress heq
    have hsame := hundisputed requests hrequests request (List.mem_of_getElem? hid) other hm
      (htoken.trans (hpair.trans htoken').symm)
    have houtcome : request.withoutTxHash.outcome abi rpcProvider =
        request'.withoutTxHash.outcome abi rpcProvider := by
      rw [← heq, TradeRequest.outcome_withoutTxHash, TradeRequest.outcome_withoutTxHash, hsame]
    rw [hview, hview', AddressTrades.map_settle, AddressTrades.map_settle, h token,
      TradeRequest.outcome_task, TradeRequest.outcome_task, houtcome]

/-- One block keeps two backtests together. -/
theorem step_sameTrades (hblock : run.block = run'.block) (hstore : s.store = s'.store)
    (htrades : SameTrades s.trades s'.trades)
    (hundisputed : Undisputed abi rpcProvider executor s run t)
    (hstep : (machine abi rpcProvider executor).step s run = some t)
    (hstep' : (machine abi rpcProvider executor).step s' run' = some t') :
    t.store = t'.store ∧ SameTrades t.trades t'.trades := by
  obtain ⟨⟨ho, hb⟩, hinsert, hreturns⟩ := executeStrategyForBlock_eq_some.mp hstep
  obtain ⟨⟨ho', hb'⟩, hinsert', hreturns'⟩ := executeStrategyForBlock_eq_some.mp hstep'
  obtain ⟨block, storeOrder, blockOrder, txHashes, schedule⟩ := run
  obtain ⟨block', storeOrder', blockOrder', txHashes', schedule'⟩ := run'
  obtain ⟨store, trades⟩ := s
  obtain ⟨store', trades'⟩ := s'
  cases hblock
  cases hstore
  have hsame : t.store = t'.store := TimePriceBarStore.insertBlock_unique ho ho' hb hb' hinsert hinsert'
  refine ⟨hsame, ?_⟩
  rw [← hsame] at hreturns'
  exact onIndexedBlockMessage_sameTrades htrades hb hb' hundisputed hreturns hreturns'

/-- Two backtests of the same blocks end with the same store and the same trades, up to the
random hashes, when no block of the first has a disputed token. -/
theorem backtest_reproducible {start : Backtest} {runs runs' : List BlockRun}
    (hblocks : runs.map BlockRun.block = runs'.map BlockRun.block)
    (hundisputed : (machine abi rpcProvider executor).Along (Undisputed abi rpcProvider executor)
      start runs)
    (hrun : (machine abi rpcProvider executor).run start runs = some s)
    (hrun' : (machine abi rpcProvider executor).run start runs' = some s') :
    s.store = s'.store ∧ SameTrades s.trades s'.trades := by
  have hfrom : ∀ (runs runs' : List BlockRun) (t t' : Backtest),
      runs.map BlockRun.block = runs'.map BlockRun.block → t.store = t'.store →
      SameTrades t.trades t'.trades →
      (machine abi rpcProvider executor).Along (Undisputed abi rpcProvider executor) t runs →
      (machine abi rpcProvider executor).run t runs = some s →
      (machine abi rpcProvider executor).run t' runs' = some s' →
      s.store = s'.store ∧ SameTrades s.trades s'.trades := by
    intro runs
    induction runs with
    | nil =>
      intro runs' t t' hblocks hstore htrades _ hrun hrun'
      obtain rfl := List.map_eq_nil_iff.mp hblocks.symm
      cases hrun
      cases hrun'
      exact ⟨hstore, htrades⟩
    | cons run runs ih =>
      intro runs' t t' hblocks hstore htrades hundisputed hrun hrun'
      obtain ⟨run', runs', rfl, hblock, hblocks⟩ := List.map_eq_cons_iff.mp hblocks.symm
      obtain ⟨u, hstep, hrun⟩ := Machine.run_cons_eq_some.mp hrun
      obtain ⟨u', hstep', hrun'⟩ := Machine.run_cons_eq_some.mp hrun'
      obtain ⟨hhead, htail⟩ := hundisputed u hstep
      obtain ⟨hstore, htrades⟩ :=
        step_sameTrades hblock.symm hstore htrades hhead hstep hstep'
      exact ih runs' u u' hblocks.symm hstore htrades htail hrun hrun'
  exact hfrom runs runs' start start hblocks rfl (fun _ => rfl) hundisputed hrun hrun'

end Step

open StrategyExecutor

/-- Every pool has these reserves. -/
def reservesAbi : SwapAbi Unit :=
  ⟨fun _ => .ok (1000000, 1000000), zeroAbi.decodeMulticall, zeroAbi.decodeLiquidity,
    zeroAbi.decodeQuote⟩

def start : Backtest := ⟨.new .fiveMinutes 60 true, fun _ => none⟩

/-- A block with a pair of token 0 and a pair of token 7. -/
def twoTokens : Block PairTicks :=
  ⟨none, 1, 6000, OrdMap.insert (TimePriceBarStore.singleBlock 1 6000 1).pairTicks 2
    (.uniswapV2 ⟨⟨2, WETH_ADDRESS, 7⟩, [], ⟨.zero, .zero, .zero, .zero, 0⟩, 0, 0⟩)⟩

theorem backtest_reproducible_twoTokens :
    ∃ s s', (machine reservesAbi emptyPool eager).run start
        [⟨twoTokens, [], [1, 2], fun _ => 0, [0, 0, 0, 1, 1, 1]⟩] = some s ∧
      (machine reservesAbi emptyPool eager).run start
        [⟨twoTokens, [], [2, 1], fun id => id + 5, [1, 0, 0, 1, 1, 0]⟩] = some s' ∧
      s.store = s'.store ∧ SameTrades s.trades s'.trades := by
  obtain ⟨s, hrun⟩ : ∃ s, (machine reservesAbi emptyPool eager).run start
      [⟨twoTokens, [], [1, 2], fun _ => 0, [0, 0, 0, 1, 1, 1]⟩] = some s := ⟨_, rfl⟩
  obtain ⟨s', hrun'⟩ : ∃ s', (machine reservesAbi emptyPool eager).run start
      [⟨twoTokens, [], [2, 1], fun id => id + 5, [1, 0, 0, 1, 1, 0]⟩] = some s' := ⟨_, rfl⟩
  refine ⟨s, s', hrun, hrun', backtest_reproducible ?_ ?_ hrun hrun'⟩
  · rfl
  refine fun t hstep => ⟨fun requests hrequests => ?_, trivial⟩
  cases hstep
  cases hrequests
  intro request hm request' hm' htoken
  rcases List.mem_pair.mp hm with rfl | rfl <;> rcases List.mem_pair.mp hm' with rfl | rfl
  · rfl
  · exact absurd htoken (by decide)
  · exact absurd htoken (by decide)
  · rfl

/-- The pool in which the position of a token is. -/
def position (s : Backtest) (token : Address) : Option Address :=
  match ((s.trades.view token).map withoutTxHash).active with
  | some (.opened m) => some m.indexedTrade.pairAddress
  | _ => none

/-- Of the two pools of a token, the one whose task is first is traded. -/
theorem backtest_not_reproducible :
    ¬∀ (abi : SwapAbi Unit) (rpcProvider : RpcProvider Unit) (executor : StrategyExecutor)
      (runs runs' : List BlockRun) (s s' : Backtest),
      runs.map BlockRun.block = runs'.map BlockRun.block →
      (machine abi rpcProvider executor).run start runs = some s →
      (machine abi rpcProvider executor).run start runs' = some s' →
      SameTrades s.trades s'.trades := by
  intro h
  obtain ⟨s, hrun, hfirst⟩ : ∃ s, (machine reservesAbi emptyPool eager).run start
      [⟨TimePriceBarStore.pairBlock 1 6000 1 2, [], [1, 2], fun _ => 0, [0, 0, 0, 1]⟩] = some s ∧
      s.position 0 = some 1 := ⟨_, rfl, rfl⟩
  obtain ⟨s', hrun', hsecond⟩ : ∃ s', (machine reservesAbi emptyPool eager).run start
      [⟨TimePriceBarStore.pairBlock 1 6000 1 2, [], [1, 2], fun _ => 0, [1, 1, 1, 0]⟩] = some s' ∧
      s'.position 0 = some 2 := ⟨_, rfl, rfl⟩
  have hsame : s.position 0 = s'.position 0 := by
    unfold position
    rw [h reservesAbi emptyPool eager _ _ s s' (by rfl) hrun hrun' 0]
  rw [hfirst, hsecond] at hsame
  cases hsame

end Backtest

end Pochtecatl
