import Pochtecatl.DexLogs
import Pochtecatl.FixedRaw
import Pochtecatl.ListMapM

namespace Pochtecatl

/-! ### Prices -/

theorem U256.toNat_pos {a : U256} (h : a ≠ 0) : 0 < a.toNat :=
  Nat.pos_iff_ne_zero.mpr fun hzero => h (BitVec.eq_of_toNat_eq hzero)

theorem u32f96FromU256Frac_eq_none_iff {numerator denominator : U256} :
    u32f96FromU256Frac numerator denominator = none ↔ denominator = 0 := by
  unfold u32f96FromU256Frac
  split
  next hzero => exact iff_of_true rfl hzero
  next hne => exact iff_of_false (Option.some_ne_none _) hne

theorem u32f96FromSqrtX96_eq_none_iff {sqrtPriceX96 : U256} {inverse : Bool} :
    u32f96FromSqrtX96 sqrtPriceX96 inverse = none ↔ inverse ∧ sqrtPriceX96 = 0 := by
  unfold u32f96FromSqrtX96
  cases inverse with
  | false => simp
  | true =>
    rw [if_pos rfl]
    split
    next hzero => exact iff_of_true rfl ⟨rfl, hzero⟩
    next hne => exact iff_of_false (Option.some_ne_none _) fun h => hne h.2

namespace UniswapV2IndexedTrade

variable (trade : UniswapV2IndexedTrade) (tokenAddress : Address)

def tokenReserve : U256 :=
  if tokenAddress < WETH_ADDRESS then trade.reserve0 else trade.reserve1

def tokenReserveBefore : U256 :=
  if tokenAddress < WETH_ADDRESS then trade.reserve0 - trade.amount0In + trade.amount0Out
  else trade.reserve1 - trade.amount1In + trade.amount1Out

variable {trade tokenAddress}

theorem tokenPriceAfter_eq_none_iff :
    trade.tokenPriceAfter tokenAddress = none ↔ trade.tokenReserve tokenAddress = 0 := by
  unfold tokenPriceAfter tokenReserve
  split
  next => exact u32f96FromU256Frac_eq_none_iff
  next => exact u32f96FromU256Frac_eq_none_iff

theorem tokenPriceBefore_eq_none_iff :
    trade.tokenPriceBefore tokenAddress = none ↔ trade.tokenReserveBefore tokenAddress = 0 := by
  unfold tokenPriceBefore tokenReserveBefore
  dsimp only
  split
  next => exact u32f96FromU256Frac_eq_none_iff
  next => exact u32f96FromU256Frac_eq_none_iff

end UniswapV2IndexedTrade

namespace UniswapV3IndexedTrade

variable (trade : UniswapV3IndexedTrade)

/-- The amount that the code takes for what moved the price. -/
def modValue : U256 :=
  if 0 < trade.amount0.toInt then trade.amount0.unsignedAbs else trade.amount1.unsignedAbs

/-- The square root of the price before the trade, as the code computes it. -/
def sqrtPriceBefore : U256 :=
  let adjusted := BitVec.ofNat 256 (trade.modValue.toNat * oneBits / trade.liquidity.toNat)
  if 0 < trade.amount0.toInt then trade.sqrtPriceX96 + adjusted
  else trade.sqrtPriceX96 - adjusted

variable {trade} {tokenAddress : Address}

theorem tokenPriceAfter_eq_none_iff : trade.tokenPriceAfter tokenAddress = none ↔
    WETH_ADDRESS < tokenAddress ∧ trade.sqrtPriceX96 = 0 := by
  unfold tokenPriceAfter
  rw [u32f96FromSqrtX96_eq_none_iff, decide_eq_true_eq]

/-- The amount is not too large for the liquidity. -/
def Adjustable (trade : UniswapV3IndexedTrade) : Prop :=
  trade.liquidity = 0 ∨ trade.modValue.toNat < 2 ^ 160 * trade.liquidity.toNat

theorem adjustable_iff : trade.Adjustable ↔
    trade.modValue.toNat * oneBits / trade.liquidity.toNat < 2 ^ 256 := by
  unfold Adjustable
  by_cases hzero : trade.liquidity = 0
  · simp [hzero]
  · have hpos : 0 < trade.liquidity.toNat := U256.toNat_pos hzero
    rw [Nat.div_lt_iff_lt_mul hpos, oneBits_eq, or_iff_right hzero]
    omega

/-- A liquidity of zero moves nothing. -/
theorem adjustedValue_eq : trade.adjustedValue =
    if trade.modValue.toNat * oneBits / trade.liquidity.toNat < 2 ^ 256 then
      some (.ofNat 256 (trade.modValue.toNat * oneBits / trade.liquidity.toNat))
    else none := by
  have hdefault : (if trade.liquidity = 0 then 0
      else trade.modValue.toNat * oneBits / trade.liquidity.toNat) =
        trade.modValue.toNat * oneBits / trade.liquidity.toNat := by
    split
    next hzero =>
      rw [hzero]
      exact (Nat.div_zero _).symm
    next => rfl
  unfold adjustedValue
  dsimp only
  rw [← modValue, hdefault]

theorem tokenPriceBefore_of_adjustable (h : trade.Adjustable) :
    trade.tokenPriceBefore tokenAddress =
      u32f96FromSqrtX96 trade.sqrtPriceBefore (WETH_ADDRESS < tokenAddress) := by
  unfold tokenPriceBefore
  rw [adjustedValue_eq, if_pos (adjustable_iff.mp h), Option.bind_eq_bind, Option.bind_some]
  rfl

theorem tokenPriceBefore_eq_none_iff : trade.tokenPriceBefore tokenAddress = none ↔
    trade.liquidity ≠ 0 ∧ 2 ^ 160 * trade.liquidity.toNat ≤ trade.modValue.toNat ∨
      WETH_ADDRESS < tokenAddress ∧ trade.sqrtPriceBefore = 0 := by
  have hnot : ¬trade.Adjustable ↔
      trade.liquidity ≠ 0 ∧ 2 ^ 160 * trade.liquidity.toNat ≤ trade.modValue.toNat := by
    rw [Adjustable, not_or, Nat.not_lt]
  rw [← hnot]
  by_cases h : trade.Adjustable
  · rw [tokenPriceBefore_of_adjustable h, u32f96FromSqrtX96_eq_none_iff, decide_eq_true_eq,
      or_iff_right (not_not_intro h)]
  · refine iff_of_true ?_ (.inl h)
    unfold tokenPriceBefore
    rw [adjustedValue_eq, if_neg (mt adjustable_iff.mpr h)]
    rfl

end UniswapV3IndexedTrade

namespace IndexedTrade

/-- There is no price after the trade: a reserve or the square root of the price is zero. -/
def NoPriceAfter (tokenAddress : Address) : IndexedTrade → Prop
  | uniswapV2 trade => trade.tokenReserve tokenAddress = 0
  | uniswapV3 trade => WETH_ADDRESS < tokenAddress ∧ trade.sqrtPriceX96 = 0

/-- There is no price before the trade, or the amount is too large for the liquidity. -/
def NoPriceBefore (tokenAddress : Address) : IndexedTrade → Prop
  | uniswapV2 trade => trade.tokenReserveBefore tokenAddress = 0
  | uniswapV3 trade =>
    trade.liquidity ≠ 0 ∧ 2 ^ 160 * trade.liquidity.toNat ≤ trade.modValue.toNat ∨
      WETH_ADDRESS < tokenAddress ∧ trade.sqrtPriceBefore = 0

/-- The trade is of the kind of the pair. -/
def Fits : IndexedTrade → Pair → Prop
  | uniswapV2 _, .uniswapV2 _ => True
  | uniswapV3 _, .uniswapV3 _ => True
  | _, _ => False

variable {trade : IndexedTrade} {tokenAddress : Address}

theorem tokenPriceAfter_eq_none_iff :
    trade.tokenPriceAfter tokenAddress = none ↔ trade.NoPriceAfter tokenAddress := by
  cases trade with
  | uniswapV2 trade => exact UniswapV2IndexedTrade.tokenPriceAfter_eq_none_iff
  | uniswapV3 trade => exact UniswapV3IndexedTrade.tokenPriceAfter_eq_none_iff

theorem tokenPriceBefore_eq_none_iff :
    trade.tokenPriceBefore tokenAddress = none ↔ trade.NoPriceBefore tokenAddress := by
  cases trade with
  | uniswapV2 trade => exact UniswapV2IndexedTrade.tokenPriceBefore_eq_none_iff
  | uniswapV3 trade => exact UniswapV3IndexedTrade.tokenPriceBefore_eq_none_iff

end IndexedTrade

/-! ### Ticks -/

section Ticks

variable {trade : IndexedTrade} {tokenAddress : Address}

theorem fromIndexedTrade_eq_none_iff : TickData.fromIndexedTrade trade tokenAddress = none ↔
    trade.NoPriceBefore tokenAddress ∨ trade.NoPriceAfter tokenAddress := by
  rw [← IndexedTrade.tokenPriceBefore_eq_none_iff, ← IndexedTrade.tokenPriceAfter_eq_none_iff]
  unfold TickData.fromIndexedTrade
  cases trade.tokenPriceBefore tokenAddress with
  | none => simp
  | some priceBefore =>
    cases trade.tokenPriceAfter tokenAddress with
    | none => simp
    | some priceAfter => simp

theorem addIndexedTrade_eq_none_iff {tick : TickData} :
    tick.addIndexedTrade trade tokenAddress = none ↔ trade.NoPriceAfter tokenAddress := by
  rw [← IndexedTrade.tokenPriceAfter_eq_none_iff]
  unfold TickData.addIndexedTrade
  cases trade.tokenPriceAfter tokenAddress with
  | none => simp
  | some price => simp

namespace PairBlockTick

theorem exists_new_iff {pair : Pair} : (∃ t, new trade pair = some (.ok t)) ↔
    trade.Fits pair ∧
      ¬(trade.NoPriceBefore pair.tokenAddress ∨ trade.NoPriceAfter pair.tokenAddress) := by
  rw [← fromIndexedTrade_eq_none_iff]
  cases trade with
  | uniswapV2 trade =>
    cases pair with
    | uniswapV2 pair =>
      simp only [new, UniswapV2PairBlockTick.new, IndexedTrade.Fits, Pair.tokenAddress]
      cases TickData.fromIndexedTrade (.uniswapV2 trade) pair.tokenAddress with
      | none => simp
      | some tick => simp
    | uniswapV3 pair => simp [new, IndexedTrade.Fits]
  | uniswapV3 trade =>
    cases pair with
    | uniswapV2 pair => simp [new, IndexedTrade.Fits]
    | uniswapV3 pair =>
      simp only [new, UniswapV3PairBlockTick.new, IndexedTrade.Fits, Pair.tokenAddress]
      cases TickData.fromIndexedTrade (.uniswapV3 trade) pair.tokenAddress with
      | none => simp
      | some tick => simp

theorem addIndexedTrade_eq_none_iff {t : PairBlockTick} : t.addIndexedTrade trade = none ↔
    trade.Fits t.pair ∧ trade.NoPriceAfter t.pair.tokenAddress := by
  cases t with
  | uniswapV2 t =>
    cases trade with
    | uniswapV2 trade =>
      have htick := @addIndexedTrade_eq_none_iff (.uniswapV2 trade) t.pair.tokenAddress t.tick
      simp only [addIndexedTrade, UniswapV2PairBlockTick.addIndexedTrade, IndexedTrade.Fits, pair,
        Pair.tokenAddress, ← htick]
      cases t.tick.addIndexedTrade (.uniswapV2 trade) t.pair.tokenAddress with
      | none => simp
      | some tick => simp
    | uniswapV3 trade => simp [addIndexedTrade, IndexedTrade.Fits, pair]
  | uniswapV3 t =>
    cases trade with
    | uniswapV2 trade => simp [addIndexedTrade, IndexedTrade.Fits, pair]
    | uniswapV3 trade =>
      have htick := @addIndexedTrade_eq_none_iff (.uniswapV3 trade) t.pair.tokenAddress t.tick
      simp only [addIndexedTrade, UniswapV3PairBlockTick.addIndexedTrade, IndexedTrade.Fits, pair,
        Pair.tokenAddress, ← htick]
      cases t.tick.addIndexedTrade (.uniswapV3 trade) t.pair.tokenAddress with
      | none => simp
      | some tick => simp

end PairBlockTick

theorem addTrade_eq_none_iff {pairTicks : PairTicks} {pair : Pair} :
    pairTicks.addTrade trade pair = none ↔
      (∃ t, pairTicks.get? trade.pairAddress = some t ∧ trade.Fits t.pair ∧
        trade.NoPriceAfter t.pair.tokenAddress) ∨
      (pairTicks.get? trade.pairAddress = none ∧ (trade.Fits pair →
        trade.NoPriceBefore pair.tokenAddress ∨ trade.NoPriceAfter pair.tokenAddress)) := by
  unfold PairTicks.addTrade
  cases hg : pairTicks.get? trade.pairAddress with
  | some t =>
    have hadd := @PairBlockTick.addIndexedTrade_eq_none_iff trade t
    simp only [Option.some.injEq, exists_eq_left', reduceCtorEq, false_and, or_false, ← hadd]
    cases t.addIndexedTrade trade with
    | none => simp
    | some result => cases result <;> simp
  | none =>
    have hnew := @PairBlockTick.exists_new_iff trade pair
    have hpanic : (trade.Fits pair → trade.NoPriceBefore pair.tokenAddress ∨
        trade.NoPriceAfter pair.tokenAddress) ↔ ¬∃ t, PairBlockTick.new trade pair = some (.ok t) := by
      rw [hnew, not_and, not_not]
    simp only [reduceCtorEq, false_and, exists_false, true_and, false_or, hpanic]
    cases PairBlockTick.new trade pair with
    | none => simp
    | some result => cases result <;> simp

end Ticks

/-! ### Blocks -/

/-- Adding the trade to a block that has the trades before it panics. The first trade of a
pair has to be of its kind and to have both prices, a later one is dropped if it is of the other
kind and has to have a price after it. -/
def TradePanics (pairs : List (Address × Pair)) (before : List IndexedTrade)
    (trade : IndexedTrade) : Prop :=
  ∃ pair, pairs.lookup trade.pairAddress = some pair ∧
    ((∃ earlier ∈ before, earlier.pairAddress = trade.pairAddress) ∧ trade.Fits pair ∧
        trade.NoPriceAfter pair.tokenAddress ∨
      (¬∃ earlier ∈ before, earlier.pairAddress = trade.pairAddress) ∧ (trade.Fits pair →
        trade.NoPriceBefore pair.tokenAddress ∨ trade.NoPriceAfter pair.tokenAddress))

section Blocks

variable {ε : Type} {pairs : List (Address × Pair)} {fromLogs : List (RpcLog DexLog) → List IndexedTrade}

/-- The known pairs that have a tick are those of the trades added. -/
def TicksOf (pairs : List (Address × Pair)) (before : List IndexedTrade) (pairTicks : PairTicks) :
    Prop :=
  ∀ address pair, pairs.lookup address = some pair →
    ((∃ trade ∈ before, trade.pairAddress = address) ↔ (pairTicks.get? address).isSome) ∧
      ∀ t, pairTicks.get? address = some t → t.pair = pair

theorem PairTicks.addTrade_eq_some {pairTicks pairTicks' : PairTicks} {trade : IndexedTrade}
    {pair : Pair} (h : pairTicks.addTrade trade pair = some pairTicks') :
    (∀ address, address ≠ trade.pairAddress → pairTicks'.get? address = pairTicks.get? address) ∧
      ∃ t, pairTicks'.get? trade.pairAddress = some t ∧
        t.pair = ((pairTicks.get? trade.pairAddress).map PairBlockTick.pair).getD pair := by
  unfold PairTicks.addTrade at h
  split at h
  next t hg =>
    split at h
    next t' hadd =>
      cases h
      refine ⟨fun address hne => OrdMap.get?_insert_ne hne, t', OrdMap.get?_insert_self .., ?_⟩
      rw [hg]
      exact PairBlockTick.pair_of_addIndexedTrade hadd
    next =>
      cases h
      exact ⟨fun _ _ => rfl, t, hg, by rw [hg]; rfl⟩
    next => cases h
  next hg =>
    split at h
    next t hnew =>
      cases h
      refine ⟨fun address hne => OrdMap.get?_insert_ne hne, t, OrdMap.get?_insert_self .., ?_⟩
      rw [hg]
      exact PairBlockTick.pair_of_new hnew
    next => cases h

theorem exists_concat_iff {before : List IndexedTrade} {trade : IndexedTrade} {address : Address}
    (hne : address ≠ trade.pairAddress) :
    (∃ t ∈ before ++ [trade], t.pairAddress = address) ↔ ∃ t ∈ before, t.pairAddress = address := by
  simp [or_and_right, exists_or, hne.symm]

theorem TicksOf.addTrade {before : List IndexedTrade} {pairTicks pairTicks' : PairTicks}
    {trade : IndexedTrade} (h : TicksOf pairs before pairTicks)
    (hadd : (uniswapDex fromLogs).addTrade pairs pairTicks trade = some pairTicks') :
    TicksOf pairs (before ++ [trade]) pairTicks' := by
  intro address pair hl
  simp only [uniswapDex] at hadd
  split at hadd
  next pair' hl' =>
    obtain ⟨hother, t, hg, ht⟩ := PairTicks.addTrade_eq_some hadd
    by_cases heq : address = trade.pairAddress
    · subst heq
      cases hl.symm.trans hl'
      refine ⟨iff_of_true ⟨trade, List.mem_append_right _ (List.mem_singleton_self _), rfl⟩
        (by rw [hg]; rfl), fun t' hg' => ?_⟩
      cases hg.symm.trans hg'
      rw [ht]
      cases hold : pairTicks.get? trade.pairAddress with
      | none => rfl
      | some old => exact (h _ pair hl).2 old hold
    · rw [hother address heq, exists_concat_iff heq]
      exact h address pair hl
  next hnone =>
    cases hadd
    have hne : address ≠ trade.pairAddress := fun heq => by
      rw [heq, hnone] at hl
      cases hl
    rw [exists_concat_iff hne]
    exact h address pair hl

theorem TicksOf.addTrade_eq_none_iff {before : List IndexedTrade} {pairTicks : PairTicks}
    {trade : IndexedTrade} (h : TicksOf pairs before pairTicks) :
    (uniswapDex fromLogs).addTrade pairs pairTicks trade = none ↔
      TradePanics pairs before trade := by
  simp only [uniswapDex, TradePanics]
  split
  next pair hl =>
    obtain ⟨hpresent, hpair⟩ := h _ pair hl
    rw [Pochtecatl.addTrade_eq_none_iff, hpresent, hl]
    simp only [Option.some.injEq, exists_eq_left']
    cases hg : pairTicks.get? trade.pairAddress with
    | none => simp
    | some t =>
      rw [← hpair t hg]
      simp
  next hnone =>
    simp [hnone]

/-- The trades of a builder panic at the first one that does. -/
theorem foldlM_addTrade_eq_none_iff {trades : List IndexedTrade} :
    trades.foldlM ((uniswapDex fromLogs).addTrade pairs) OrdMap.empty = none ↔
      ∃ before trade after, trades = before ++ trade :: after ∧ TradePanics pairs before trade := by
  have hfold : ∀ (trades before : List IndexedTrade) (pairTicks : PairTicks),
      TicksOf pairs before pairTicks →
      (trades.foldlM ((uniswapDex fromLogs).addTrade pairs) pairTicks = none ↔
        ∃ between trade after, trades = between ++ trade :: after ∧
          TradePanics pairs (before ++ between) trade) := by
    intro trades
    induction trades with
    | nil =>
      intro before pairTicks _
      simp
    | cons trade trades ih =>
      intro before pairTicks hticks
      have hhead := @TicksOf.addTrade_eq_none_iff pairs fromLogs before pairTicks trade hticks
      rw [List.foldlM_cons]
      cases hadd : (uniswapDex fromLogs).addTrade pairs pairTicks trade with
      | none =>
        refine iff_of_true rfl ⟨[], trade, trades, rfl, ?_⟩
        rw [List.append_nil]
        exact hhead.mp hadd
      | some pairTicks' =>
        have htail := ih (before ++ [trade]) pairTicks' (hticks.addTrade hadd)
        rw [Option.bind_eq_bind, Option.bind_some, htail]
        constructor
        · rintro ⟨between, t, after, rfl, hpanic⟩
          refine ⟨trade :: between, t, after, rfl, ?_⟩
          rwa [List.append_cons]
        · rintro ⟨between, t, after, heq, hpanic⟩
          cases between with
          | nil =>
            cases heq
            rw [List.append_nil, ← hhead, hadd] at hpanic
            cases hpanic
          | cons b between =>
            cases heq
            rw [List.append_cons] at hpanic
            exact ⟨between, t, after, rfl, hpanic⟩
  have hempty : TicksOf pairs [] OrdMap.empty := fun address pair _ => by simp
  simpa using hfold trades [] OrdMap.empty hempty

/-- The logs of a block, and the timestamp that it has when none of them has one. -/
structure BlockLogs where
  blockNumber : Nat
  defaultBlockTimestamp : Nat
  logs : List (RpcLog DexLog)

def BlockLogs.builder (block : BlockLogs) : BlockBuilder IndexedTrade :=
  .new (uniswapDex IndexedTrade.fromLogs) block.blockNumber block.defaultBlockTimestamp block.logs

/-- Building blocks from logs does not panic if and only if none of their trades does. -/
theorem buildMany_ne_panic_iff (blocks : List BlockLogs)
    (getPairs : Except ε (List (Address × Pair))) :
    BlockBuilder.buildMany (uniswapDex IndexedTrade.fromLogs) (blocks.map BlockLogs.builder)
        getPairs ≠ .error .panic ↔
      ∀ pairs, getPairs = .ok pairs → ∀ block ∈ blocks, ∀ before trade after,
        IndexedTrade.fromLogs block.logs = before ++ trade :: after →
          ¬TradePanics pairs before trade := by
  cases getPairs with
  | error e => simp [BlockBuilder.buildMany]
  | ok pairs =>
    have hbuild : ∀ block : BlockLogs,
        BlockBuilder.build (uniswapDex IndexedTrade.fromLogs) pairs block.builder = none ↔
          ∃ before trade after, IndexedTrade.fromLogs block.logs = before ++ trade :: after ∧
            TradePanics pairs before trade := fun block => by
      rw [← @foldlM_addTrade_eq_none_iff pairs IndexedTrade.fromLogs]
      exact Option.map_eq_none_iff
    have hpanic : BlockBuilder.buildMany (uniswapDex IndexedTrade.fromLogs)
        (blocks.map BlockLogs.builder) (.ok pairs : Except ε _) = .error .panic ↔
          ∃ block ∈ blocks, BlockBuilder.build (uniswapDex IndexedTrade.fromLogs) pairs
            block.builder = none := by
      have hnone := @List.mapM_option_eq_none_iff _ _ (BlockBuilder.build (uniswapDex IndexedTrade.fromLogs) pairs)
        (blocks.map BlockLogs.builder)
      simp only [List.mem_map, exists_exists_and_eq_and] at hnone
      rw [← hnone, BlockBuilder.buildMany]
      cases (blocks.map BlockLogs.builder).mapM
        (BlockBuilder.build (uniswapDex IndexedTrade.fromLogs) pairs) with
      | none => simp
      | some built => simp
    rw [ne_eq, hpanic]
    simp only [hbuild, Except.ok.injEq, forall_eq', not_exists, not_and]

end Blocks

/-- A swap of a pair whose reserves are zero. -/
def drainedLogs : List (RpcLog DexLog) :=
  [⟨some 1, some 10, none, 1, some 0, .uniswapV2Sync ⟨0, 0⟩⟩,
    ⟨some 1, some 10, none, 1, some 1, .uniswapV2Swap ⟨1, 0, 0, 1, 3⟩⟩]

/-- Any contract can log a pair without reserves. -/
theorem buildMany_panics :
    ¬∀ (blocks : List BlockLogs) (pairs : List (Address × Pair)), PairsKeyed pairs →
      BlockBuilder.buildMany (uniswapDex IndexedTrade.fromLogs) (blocks.map BlockLogs.builder)
        (.ok pairs : Except Unit _) ≠ .error .panic := by
  intro h
  exact h [⟨1, 6000, drainedLogs⟩] [(1, .uniswapV2 ⟨1, WETH_ADDRESS, 0⟩)] (by simp [PairsKeyed, Pair.address]) rfl

end Pochtecatl
