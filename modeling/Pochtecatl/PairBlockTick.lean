import Pochtecatl.BlockChunk
import Pochtecatl.Pair

namespace Pochtecatl

structure UniswapV2PairBlockTick where
  pair : UniswapV2Pair
  makers : List Address
  tick : TickData
  reserve0 : U256
  reserve1 : U256
  deriving DecidableEq

structure UniswapV3PairBlockTick where
  pair : UniswapV3Pair
  makers : List Address
  tick : TickData
  deriving DecidableEq

namespace UniswapV2PairBlockTick

def new (trade : UniswapV2IndexedTrade) (pair : UniswapV2Pair) :
    Option UniswapV2PairBlockTick := do
  let tick ← TickData.fromIndexedTrade (.uniswapV2 trade) pair.tokenAddress
  pure ⟨pair, [trade.maker], tick, trade.reserve0, trade.reserve1⟩

def addIndexedTrade (t : UniswapV2PairBlockTick) (trade : UniswapV2IndexedTrade) :
    Option UniswapV2PairBlockTick := do
  let tick ← t.tick.addIndexedTrade (.uniswapV2 trade) t.pair.tokenAddress
  pure ⟨t.pair, t.makers ++ [trade.maker], tick, trade.reserve0, trade.reserve1⟩

end UniswapV2PairBlockTick

namespace UniswapV3PairBlockTick

def new (trade : UniswapV3IndexedTrade) (pair : UniswapV3Pair) :
    Option UniswapV3PairBlockTick := do
  let tick ← TickData.fromIndexedTrade (.uniswapV3 trade) pair.tokenAddress
  pure ⟨pair, [trade.maker], tick⟩

def addIndexedTrade (t : UniswapV3PairBlockTick) (trade : UniswapV3IndexedTrade) :
    Option UniswapV3PairBlockTick := do
  let tick ← t.tick.addIndexedTrade (.uniswapV3 trade) t.pair.tokenAddress
  pure ⟨t.pair, t.makers ++ [trade.maker], tick⟩

end UniswapV3PairBlockTick

inductive PairBlockTickError where
  | invalidForPairBlockTick
  | invalidForPair
  deriving DecidableEq

inductive PairBlockTick where
  | uniswapV2 (tick : UniswapV2PairBlockTick)
  | uniswapV3 (tick : UniswapV3PairBlockTick)
  deriving DecidableEq

namespace PairBlockTick

def tick : PairBlockTick → TickData
  | uniswapV2 t => t.tick
  | uniswapV3 t => t.tick

def pair : PairBlockTick → Pair
  | uniswapV2 t => .uniswapV2 t.pair
  | uniswapV3 t => .uniswapV3 t.pair

/-- `none` is a panic in a price. -/
def addIndexedTrade (t : PairBlockTick) (trade : IndexedTrade) :
    Option (Except PairBlockTickError PairBlockTick) :=
  match t, trade with
  | uniswapV2 t, .uniswapV2 trade => (t.addIndexedTrade trade).map fun t => .ok (uniswapV2 t)
  | uniswapV3 t, .uniswapV3 trade => (t.addIndexedTrade trade).map fun t => .ok (uniswapV3 t)
  | _, _ => some (.error .invalidForPairBlockTick)

def new (trade : IndexedTrade) (pair : Pair) : Option (Except PairBlockTickError PairBlockTick) :=
  match trade, pair with
  | .uniswapV2 trade, .uniswapV2 pair =>
    (UniswapV2PairBlockTick.new trade pair).map fun t => .ok (uniswapV2 t)
  | .uniswapV3 trade, .uniswapV3 pair =>
    (UniswapV3PairBlockTick.new trade pair).map fun t => .ok (uniswapV3 t)
  | _, _ => some (.error .invalidForPair)

theorem pair_of_addIndexedTrade {t t' : PairBlockTick} {trade : IndexedTrade}
    (h : t.addIndexedTrade trade = some (.ok t')) : t'.pair = t.pair := by
  unfold addIndexedTrade at h
  split at h
  next t trade =>
    obtain ⟨u, hu, he⟩ := Option.map_eq_some_iff.mp h
    cases he
    obtain ⟨tick, -, hu⟩ := Option.bind_eq_some_iff.mp hu
    cases hu
    rfl
  next t trade =>
    obtain ⟨u, hu, he⟩ := Option.map_eq_some_iff.mp h
    cases he
    obtain ⟨tick, -, hu⟩ := Option.bind_eq_some_iff.mp hu
    cases hu
    rfl
  next => cases h

theorem pair_of_new {t : PairBlockTick} {trade : IndexedTrade} {p : Pair}
    (h : new trade p = some (.ok t)) : t.pair = p := by
  unfold new at h
  split at h
  next trade p =>
    obtain ⟨u, hu, he⟩ := Option.map_eq_some_iff.mp h
    cases he
    obtain ⟨tick, -, hu⟩ := Option.bind_eq_some_iff.mp hu
    cases hu
    rfl
  next trade p =>
    obtain ⟨u, hu, he⟩ := Option.map_eq_some_iff.mp h
    cases he
    obtain ⟨tick, -, hu⟩ := Option.bind_eq_some_iff.mp hu
    cases hu
    rfl
  next => cases h

end PairBlockTick

/-- The hash map of a block. Its iteration order is not part of it. -/
abbrev PairTicks := OrdMap Address PairBlockTick

namespace PairTicks

/-- `Block::add_trade`. A trade of the other variant is dropped with an error log. -/
def addTrade (pairTicks : PairTicks) (trade : IndexedTrade) (pair : Pair) : Option PairTicks :=
  match pairTicks.get? trade.pairAddress with
  | some pairBlockTick => match pairBlockTick.addIndexedTrade trade with
    | some (.ok t) => some (pairTicks.insert trade.pairAddress t)
    | some (.error _) => some pairTicks
    | none => none
  | none => match PairBlockTick.new trade pair with
    | some (.ok t) => some (pairTicks.insert trade.pairAddress t)
    | _ => none

/-- Every tick lies under the address of its pair. -/
def Keyed (pairTicks : PairTicks) : Prop :=
  ∀ address t, pairTicks.get? address = some t → t.pair.address = address

theorem Keyed.insert {pairTicks : PairTicks} (h : Keyed pairTicks) {address : Address}
    {t : PairBlockTick} (ht : t.pair.address = address) :
    Keyed (OrdMap.insert pairTicks address t) := by
  intro address' t' hg
  rw [OrdMap.get?_insert] at hg
  split at hg
  next he =>
    cases hg
    rw [ht, he]
  next => exact h address' t' hg

theorem Keyed.addTrade {pairTicks pairTicks' : PairTicks} (h : Keyed pairTicks)
    {trade : IndexedTrade} {pair : Pair} (hp : pair.address = trade.pairAddress)
    (hadd : pairTicks.addTrade trade pair = some pairTicks') : Keyed pairTicks' := by
  unfold PairTicks.addTrade at hadd
  split at hadd
  next t hg =>
    split at hadd
    next t' hadd' =>
      cases hadd
      refine h.insert ?_
      rw [PairBlockTick.pair_of_addIndexedTrade hadd']
      exact h _ t hg
    next =>
      cases hadd
      exact h
    next => cases hadd
  next =>
    split at hadd
    next t hnew =>
      cases hadd
      refine h.insert ?_
      rw [PairBlockTick.pair_of_new hnew, hp]
    next => cases hadd

end PairTicks

/-- The pairs that `get_pairs` returned, each under its own address. -/
def PairsKeyed (pairs : List (Address × Pair)) : Prop := ∀ e ∈ pairs, e.2.address = e.1

/-- What `BlockBuilder::build_many` does with a trade: one of an unknown pair is skipped. -/
def uniswapDex {ρ : Type} (fromLogs : List (RpcLog ρ) → List IndexedTrade) :
    Dex ρ IndexedTrade (List (Address × Pair)) PairTicks where
  fromLogs := fromLogs
  noTicks := OrdMap.empty
  addTrade pairs pairTicks trade := match pairs.lookup trade.pairAddress with
    | some pair => pairTicks.addTrade trade pair
    | none => some pairTicks

section

variable {ρ ε : Type} {fromLogs : List (RpcLog ρ) → List IndexedTrade}
  {pairs : List (Address × Pair)}

theorem PairsKeyed.address_of_lookup (h : PairsKeyed pairs) {address : Address} {pair : Pair}
    (hl : pairs.lookup address = some pair) : pair.address = address := by
  induction pairs with
  | nil => cases hl
  | cons e rest ih =>
    obtain ⟨address', pair'⟩ := e
    rw [List.lookup_cons] at hl
    split at hl
    next he =>
      cases hl
      rw [eq_of_beq he]
      exact h (address', pair) List.mem_cons_self
    next => exact ih (fun e he => h e (List.mem_cons_of_mem _ he)) hl

theorem PairsKeyed.foldlM_addTrade (h : PairsKeyed pairs) {trades : List IndexedTrade}
    {pairTicks pairTicks' : PairTicks} (hk : pairTicks.Keyed)
    (hf : trades.foldlM ((uniswapDex fromLogs).addTrade pairs) pairTicks = some pairTicks') :
    pairTicks'.Keyed := by
  induction trades generalizing pairTicks with
  | nil =>
    cases hf
    exact hk
  | cons trade trades ih =>
    rw [List.foldlM_cons] at hf
    obtain ⟨next, hadd, hrest⟩ := Option.bind_eq_some_iff.mp hf
    refine ih ?_ hrest
    simp only [uniswapDex] at hadd
    split at hadd
    next pair hl => exact hk.addTrade (h.address_of_lookup hl) hadd
    next =>
      cases hadd
      exact hk

/-- The ticks of built blocks lie under the addresses of their pairs. -/
theorem PairsKeyed.buildMany (h : PairsKeyed pairs) {builders : List (BlockBuilder IndexedTrade)}
    {blocks : List (Block PairTicks)}
    (hb : BlockBuilder.buildMany (ε := ε) (uniswapDex fromLogs) builders (.ok pairs) = .ok blocks) :
    ∀ block ∈ blocks, block.pairTicks.Keyed := by
  intro block hm
  simp only [BlockBuilder.buildMany] at hb
  split at hb
  next => cases hb
  next built hbuilt =>
    cases hb
    obtain ⟨builder, -, hbuild⟩ := (List.mem_of_mapM_option hbuilt).mp hm
    obtain ⟨ticks, hticks, rfl⟩ := Option.map_eq_some_iff.mp hbuild
    refine h.foldlM_addTrade (fun address t hg => ?_) hticks
    cases hg

end

end Pochtecatl
