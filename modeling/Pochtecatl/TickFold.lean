import Pochtecatl.BuildPanics
import Pochtecatl.TickAggregate

namespace Pochtecatl

/-! ### Extremes of a list -/

section Extremes

variable {α : Type} [LinearOrder α]

theorem foldl_min_le (l : List α) (a : α) : l.foldl min a ≤ a ∧ ∀ b ∈ l, l.foldl min a ≤ b := by
  induction l generalizing a with
  | nil => exact ⟨le_rfl, fun b hb => absurd hb List.not_mem_nil⟩
  | cons c l ih =>
    obtain ⟨hstart, hrest⟩ := ih (min a c)
    refine ⟨hstart.trans (min_le_left a c), fun b hb => ?_⟩
    rcases List.mem_cons.mp hb with rfl | hb
    · exact hstart.trans (min_le_right a b)
    · exact hrest b hb

theorem le_foldl_max (l : List α) (a : α) : a ≤ l.foldl max a ∧ ∀ b ∈ l, b ≤ l.foldl max a :=
  foldl_min_le (α := αᵒᵈ) l a

end Extremes

/-! ### What the ticks of a block should be -/

def IndexedTrade.maker : IndexedTrade → Address
  | uniswapV2 trade => trade.maker
  | uniswapV3 trade => trade.maker

/-- The tick of a block in which a token had these trades, in order. -/
def TickData.ofTrades (trades : List IndexedTrade) (tokenAddress : Address) : Option TickData := do
  let first ← trades.head?
  let priceBefore ← first.tokenPriceBefore tokenAddress
  let pricesAfter ← trades.mapM fun trade => trade.tokenPriceAfter tokenAddress
  let lastPrice ← pricesAfter.getLast?
  pure {
    open_ := priceBefore
    high := pricesAfter.foldl max priceBefore
    low := pricesAfter.foldl min priceBefore
    close := lastPrice
    wethVolume := (trades.map fun trade => (trade.wethVolume tokenAddress).toNat).sum }

/-- A V2 pair keeps the reserves that its last trade left. -/
def PairBlockTick.ofTrades (pair : Pair) (trades : List IndexedTrade) : Option PairBlockTick := do
  let tick ← TickData.ofTrades trades pair.tokenAddress
  let last ← trades.getLast?
  match pair, last with
  | .uniswapV2 pair, .uniswapV2 last =>
    some (.uniswapV2 ⟨pair, trades.map IndexedTrade.maker, tick, last.reserve0, last.reserve1⟩)
  | .uniswapV3 pair, .uniswapV3 _ => some (.uniswapV3 ⟨pair, trades.map IndexedTrade.maker, tick⟩)
  | _, _ => none

def tradesAt (address : Address) (trades : List IndexedTrade) : List IndexedTrade :=
  trades.filter fun trade => trade.pairAddress = address

/-! ### Ticks -/

namespace TickData

variable {trades : List IndexedTrade} {trade : IndexedTrade} {tokenAddress : Address}

theorem ofTrades_eq_some {tick : TickData} (h : ofTrades trades tokenAddress = some tick) :
    ∃ first rest priceBefore pricesAfter, trades = first :: rest ∧
      first.tokenPriceBefore tokenAddress = some priceBefore ∧
      trades.mapM (fun trade => trade.tokenPriceAfter tokenAddress) = some pricesAfter ∧
      pricesAfter.getLast? = some tick.close ∧
      tick = ⟨priceBefore, pricesAfter.foldl max priceBefore, pricesAfter.foldl min priceBefore,
        tick.close, (trades.map fun trade => (trade.wethVolume tokenAddress).toNat).sum⟩ := by
  unfold ofTrades at h
  obtain ⟨first, hfirst, h⟩ := Option.bind_eq_some_iff.mp h
  obtain ⟨priceBefore, hbefore, h⟩ := Option.bind_eq_some_iff.mp h
  obtain ⟨pricesAfter, hafter, h⟩ := Option.bind_eq_some_iff.mp h
  obtain ⟨lastPrice, hlast, h⟩ := Option.bind_eq_some_iff.mp h
  obtain ⟨rest, hrest⟩ := List.head?_eq_some_iff.mp hfirst
  cases h
  exact ⟨first, rest, priceBefore, pricesAfter, hrest, hbefore, hafter, hlast, rfl⟩

theorem ordered_of_ofTrades {tick : TickData} (h : ofTrades trades tokenAddress = some tick) :
    tick.Ordered := by
  obtain ⟨_, _, priceBefore, pricesAfter, _, _, _, hlast, htick⟩ := ofTrades_eq_some h
  obtain ⟨hminBefore, hmin⟩ := foldl_min_le pricesAfter priceBefore
  obtain ⟨hmaxBefore, hmax⟩ := le_foldl_max pricesAfter priceBefore
  have hmem := List.mem_of_getLast? hlast
  rw [htick]
  exact ⟨hminBefore, hmaxBefore, hmin _ hmem, hmax _ hmem⟩

/-- The first trade of a pair. -/
theorem ofTrades_singleton :
    ofTrades [trade] tokenAddress = fromIndexedTrade trade tokenAddress := by
  unfold ofTrades fromIndexedTrade
  cases hbefore : trade.tokenPriceBefore tokenAddress with
  | none => simp [hbefore]
  | some priceBefore =>
    cases hafter : trade.tokenPriceAfter tokenAddress with
    | none => simp [hafter]
    | some priceAfter =>
      by_cases hlt : priceBefore < priceAfter
      · simp [hbefore, hafter, hlt, max_eq_right hlt.le, min_eq_left hlt.le]
      · simp [hbefore, hafter, hlt, max_eq_left (not_lt.mp hlt), min_eq_right (not_lt.mp hlt)]

/-- The comparisons of a later trade, where the price is above the highest price or else below
the lowest one. -/
theorem addIndexedTrade_eq {tick : TickData} (hle : tick.low ≤ tick.high) :
    tick.addIndexedTrade trade tokenAddress =
      (trade.tokenPriceAfter tokenAddress).map fun price =>
        ⟨tick.open_, max tick.high price, min tick.low price, price,
          tick.wethVolume + (trade.wethVolume tokenAddress).toNat⟩ := by
  unfold addIndexedTrade
  cases trade.tokenPriceAfter tokenAddress with
  | none => rfl
  | some price =>
    by_cases habove : tick.high < price
    · simp [habove, max_eq_right habove.le, min_eq_left (hle.trans habove.le)]
    · by_cases hbelow : price < tick.low
      · simp [habove, hbelow, max_eq_left (not_lt.mp habove), min_eq_right hbelow.le]
      · simp [habove, hbelow, max_eq_left (not_lt.mp habove), min_eq_left (not_lt.mp hbelow)]

/-- A later trade of a pair. -/
theorem ofTrades_concat {tick : TickData} (h : ofTrades trades tokenAddress = some tick) :
    ofTrades (trades ++ [trade]) tokenAddress = tick.addIndexedTrade trade tokenAddress := by
  have hordered := ordered_of_ofTrades h
  obtain ⟨first, rest, priceBefore, pricesAfter, rfl, hbefore, hafter, _, htick⟩ := ofTrades_eq_some h
  rw [addIndexedTrade_eq (hordered.low_le_open.trans hordered.open_le_high)]
  unfold ofTrades
  rw [List.mapM_append, hafter, List.cons_append, List.head?_cons, List.mapM_cons, List.mapM_nil]
  cases trade.tokenPriceAfter tokenAddress with
  | none => simp
  | some price =>
    rw [htick]
    simp [hbefore, List.foldl_append, List.sum_append, Nat.add_assoc]

end TickData

namespace PairBlockTick

variable {pair : Pair} {trades : List IndexedTrade} {trade : IndexedTrade} {t : PairBlockTick}

theorem ofTrades_eq_some (h : ofTrades pair trades = some t) :
    t.pair = pair ∧ TickData.ofTrades trades pair.tokenAddress = some t.tick := by
  unfold ofTrades at h
  obtain ⟨tick, htick, h⟩ := Option.bind_eq_some_iff.mp h
  obtain ⟨last, hlast, h⟩ := Option.bind_eq_some_iff.mp h
  split at h
  next =>
    cases h
    exact ⟨rfl, htick⟩
  next =>
    cases h
    exact ⟨rfl, htick⟩
  next => cases h

theorem new_eq_ofTrades (hfits : trade.Fits pair) :
    new trade pair = (ofTrades pair [trade]).map .ok := by
  unfold ofTrades
  rw [TickData.ofTrades_singleton]
  cases trade with
  | uniswapV2 trade =>
    cases pair with
    | uniswapV2 pair =>
      unfold new UniswapV2PairBlockTick.new
      cases htick : TickData.fromIndexedTrade (.uniswapV2 trade) pair.tokenAddress with
      | none => simp [htick, Pair.tokenAddress]
      | some tick => simp [htick, Pair.tokenAddress, IndexedTrade.maker]
    | uniswapV3 pair => exact hfits.elim
  | uniswapV3 trade =>
    cases pair with
    | uniswapV2 pair => exact hfits.elim
    | uniswapV3 pair =>
      unfold new UniswapV3PairBlockTick.new
      cases htick : TickData.fromIndexedTrade (.uniswapV3 trade) pair.tokenAddress with
      | none => simp [htick, Pair.tokenAddress]
      | some tick => simp [htick, Pair.tokenAddress, IndexedTrade.maker]

theorem addIndexedTrade_eq_ofTrades (h : ofTrades pair trades = some t) (hfits : trade.Fits pair) :
    t.addIndexedTrade trade = (ofTrades pair (trades ++ [trade])).map .ok := by
  unfold ofTrades at h
  obtain ⟨tick, htick, hlast⟩ := Option.bind_eq_some_iff.mp h
  obtain ⟨last, -, ht⟩ := Option.bind_eq_some_iff.mp hlast
  unfold ofTrades
  rw [TickData.ofTrades_concat htick, List.getLast?_concat, List.map_append]
  cases trade with
  | uniswapV2 trade =>
    cases pair with
    | uniswapV2 pair =>
      cases last with
      | uniswapV2 last =>
        cases ht
        unfold addIndexedTrade UniswapV2PairBlockTick.addIndexedTrade
        cases hadd : tick.addIndexedTrade (.uniswapV2 trade) pair.tokenAddress with
        | none => simp [hadd, Pair.tokenAddress]
        | some tick' => simp [hadd, Pair.tokenAddress, IndexedTrade.maker]
      | uniswapV3 last => cases ht
    | uniswapV3 pair => exact hfits.elim
  | uniswapV3 trade =>
    cases pair with
    | uniswapV2 pair => exact hfits.elim
    | uniswapV3 pair =>
      cases last with
      | uniswapV2 last => cases ht
      | uniswapV3 last =>
        cases ht
        unfold addIndexedTrade UniswapV3PairBlockTick.addIndexedTrade
        cases hadd : tick.addIndexedTrade (.uniswapV3 trade) pair.tokenAddress with
        | none => simp [hadd, Pair.tokenAddress]
        | some tick' => simp [hadd, Pair.tokenAddress, IndexedTrade.maker]

end PairBlockTick

/-! ### Blocks -/

/-- There are the prices that a block computes: both prices of the first trade of a pair, the
price after a later one. -/
def PricesExist (pairs : List (Address × Pair)) (trades : List IndexedTrade) : Prop :=
  ∀ address pair first rest, pairs.lookup address = some pair →
    tradesAt address trades = first :: rest →
    ¬first.NoPriceBefore pair.tokenAddress ∧
      ∀ trade ∈ first :: rest, ¬trade.NoPriceAfter pair.tokenAddress

/-- The ticks are those of the trades added before. -/
def TicksFold (pairs : List (Address × Pair)) (before : List IndexedTrade) (pairTicks : PairTicks) :
    Prop :=
  ∀ address, pairTicks.get? address =
    (pairs.lookup address).bind fun pair => PairBlockTick.ofTrades pair (tradesAt address before)

section Blocks

variable {pairs : List (Address × Pair)} {fromLogs : List (RpcLog DexLog) → List IndexedTrade}
  {before trades : List IndexedTrade} {trade : IndexedTrade} {pairTicks pairTicks' : PairTicks}

theorem tradesAt_concat_self :
    tradesAt trade.pairAddress (before ++ [trade]) = tradesAt trade.pairAddress before ++ [trade] := by
  simp [tradesAt]

theorem tradesAt_concat_ne {address : Address} (hne : address ≠ trade.pairAddress) :
    tradesAt address (before ++ [trade]) = tradesAt address before := by
  simp [tradesAt, hne.symm]

theorem tradesAt_eq_nil_iff {address : Address} :
    tradesAt address trades = [] ↔ ¬∃ trade ∈ trades, trade.pairAddress = address := by
  simp [tradesAt]

theorem PairTicks.addTrade_eq_ofTrades {pair : Pair}
    (hold : pairTicks.get? trade.pairAddress =
      PairBlockTick.ofTrades pair (tradesAt trade.pairAddress before))
    (hpresent : tradesAt trade.pairAddress before ≠ [] →
      (pairTicks.get? trade.pairAddress).isSome)
    (hfits : trade.Fits pair) (h : pairTicks.addTrade trade pair = some pairTicks') :
    pairTicks'.get? trade.pairAddress =
      PairBlockTick.ofTrades pair (tradesAt trade.pairAddress before ++ [trade]) := by
  unfold PairTicks.addTrade at h
  cases hg : pairTicks.get? trade.pairAddress with
  | some t =>
    have hadd := PairBlockTick.addIndexedTrade_eq_ofTrades (hold.symm.trans hg) hfits
    rw [hg] at h
    dsimp only at h
    rw [hadd] at h
    cases hnext : PairBlockTick.ofTrades pair (tradesAt trade.pairAddress before ++ [trade]) with
    | none =>
      rw [hnext] at h
      cases h
    | some t' =>
      rw [hnext] at h
      cases h
      exact OrdMap.get?_insert_self ..
  | none =>
    have hnil : tradesAt trade.pairAddress before = [] := by
      by_contra hne
      have := hpresent hne
      rw [hg] at this
      cases this
    have hnew := PairBlockTick.new_eq_ofTrades hfits
    rw [hnil, List.nil_append]
    rw [hg] at h
    dsimp only at h
    rw [hnew] at h
    cases hnext : PairBlockTick.ofTrades pair [trade] with
    | none =>
      rw [hnext] at h
      cases h
    | some t' =>
      rw [hnext] at h
      cases h
      exact OrdMap.get?_insert_self ..

theorem TicksFold.addTrade (h : TicksFold pairs before pairTicks)
    (hticks : TicksOf pairs before pairTicks)
    (hfits : ∀ pair, pairs.lookup trade.pairAddress = some pair → trade.Fits pair)
    (hadd : (uniswapDex fromLogs).addTrade pairs pairTicks trade = some pairTicks') :
    TicksFold pairs (before ++ [trade]) pairTicks' := by
  intro address
  simp only [uniswapDex] at hadd
  split at hadd
  next pair hl =>
    by_cases heq : address = trade.pairAddress
    · subst heq
      have hold := h trade.pairAddress
      rw [hl, Option.bind_some] at hold ⊢
      rw [tradesAt_concat_self]
      apply PairTicks.addTrade_eq_ofTrades hold _ (hfits pair hl) hadd
      intro hne
      exact ((hticks _ pair hl).1).mp (not_not.mp (mt tradesAt_eq_nil_iff.mpr hne))
    · rw [(PairTicks.addTrade_eq_some hadd).1 address heq, tradesAt_concat_ne heq]
      exact h address
  next hnone =>
    cases hadd
    by_cases heq : address = trade.pairAddress
    · have hold := h address
      rw [heq, hnone] at hold ⊢
      exact hold
    · rw [tradesAt_concat_ne heq]
      exact h address

theorem foldlM_addTrade_ticks
    (hfits : ∀ trade ∈ trades, ∀ pair, pairs.lookup trade.pairAddress = some pair → trade.Fits pair)
    (h : trades.foldlM ((uniswapDex fromLogs).addTrade pairs) OrdMap.empty = some pairTicks) :
    TicksOf pairs trades pairTicks ∧ TicksFold pairs trades pairTicks := by
  have hfold : ∀ (trades before : List IndexedTrade) (start : PairTicks),
      (∀ trade ∈ trades, ∀ pair, pairs.lookup trade.pairAddress = some pair → trade.Fits pair) →
      TicksOf pairs before start → TicksFold pairs before start →
      trades.foldlM ((uniswapDex fromLogs).addTrade pairs) start = some pairTicks →
      TicksOf pairs (before ++ trades) pairTicks ∧ TicksFold pairs (before ++ trades) pairTicks := by
    intro trades
    induction trades with
    | nil =>
      intro before start _ hticks hfold h
      cases h
      rw [List.append_nil]
      exact ⟨hticks, hfold⟩
    | cons trade trades ih =>
      intro before start hfits hticks hfold h
      rw [List.foldlM_cons] at h
      obtain ⟨next, hadd, hrest⟩ := Option.bind_eq_some_iff.mp h
      rw [List.append_cons]
      exact ih (before ++ [trade]) next (fun t ht => hfits t (List.mem_cons_of_mem _ ht))
        (hticks.addTrade hadd) (hfold.addTrade hticks (hfits trade List.mem_cons_self) hadd) hrest
  have hempty : TicksOf pairs [] OrdMap.empty := fun address pair _ => by simp
  have hnone : TicksFold pairs [] OrdMap.empty := by
    intro address
    cases pairs.lookup address with
    | none => rfl
    | some pair => rfl
  exact hfold trades [] OrdMap.empty hfits hempty hnone h

theorem pricesExist_iff
    (hfits : ∀ trade ∈ trades, ∀ pair, pairs.lookup trade.pairAddress = some pair → trade.Fits pair) :
    PricesExist pairs trades ↔ ∀ before trade after, trades = before ++ trade :: after →
      ¬TradePanics pairs before trade := by
  constructor
  · rintro hexist before trade after heq ⟨pair, hl, hpanics⟩
    have hsplit : tradesAt trade.pairAddress trades =
        tradesAt trade.pairAddress before ++ trade :: tradesAt trade.pairAddress after := by
      rw [heq]
      simp [tradesAt]
    rcases hpanics with ⟨-, -, hafter⟩ | ⟨hfirst, hprices⟩
    · obtain ⟨first, rest, hcons⟩ := List.exists_cons_of_ne_nil
        (show tradesAt trade.pairAddress trades ≠ [] by simp [hsplit])
      have hmem : trade ∈ first :: rest := by
        rw [← hcons, hsplit]
        exact List.mem_append_right _ List.mem_cons_self
      exact (hexist _ pair first rest hl hcons).2 trade hmem hafter
    · rw [tradesAt_eq_nil_iff.mpr hfirst, List.nil_append] at hsplit
      obtain ⟨hbefore, hafter⟩ := hexist _ pair trade _ hl hsplit
      have hmem : trade ∈ trades := by
        rw [heq]
        exact List.mem_append_right _ List.mem_cons_self
      rcases hprices (hfits trade hmem pair hl) with hnone | hnone
      · exact hbefore hnone
      · exact hafter trade List.mem_cons_self hnone
  · intro hpanics address pair first rest hl hcons
    have hafter : ∀ trade ∈ first :: rest, ¬trade.NoPriceAfter pair.tokenAddress := by
      intro trade hm hnone
      rw [← hcons] at hm
      obtain ⟨hmem, hat⟩ := List.mem_filter.mp hm
      have haddress : trade.pairAddress = address := of_decide_eq_true hat
      subst haddress
      obtain ⟨before, after, heq⟩ := List.append_of_mem hmem
      apply hpanics before trade after heq
      refine ⟨pair, hl, ?_⟩
      by_cases hearlier : ∃ earlier ∈ before, earlier.pairAddress = trade.pairAddress
      · exact Or.inl ⟨hearlier, hfits trade hmem pair hl, hnone⟩
      · exact Or.inr ⟨hearlier, fun _ => Or.inr hnone⟩
    refine ⟨fun hnone => ?_, hafter⟩
    obtain ⟨before, after, heq, hbefore, hat, -⟩ := List.filter_eq_cons_iff.mp hcons
    have haddress : first.pairAddress = address := of_decide_eq_true hat
    subst haddress
    apply hpanics before first after heq
    refine ⟨pair, hl, Or.inr ⟨?_, fun _ => Or.inl hnone⟩⟩
    intro ⟨earlier, hm, he⟩
    exact hbefore earlier hm (decide_eq_true he)

/-- The ticks of a block are those of the trades of each known pair. -/
theorem build_ticks {builder : BlockBuilder IndexedTrade}
    (hfits : ∀ trade ∈ builder.indexedTrades, ∀ pair,
      pairs.lookup trade.pairAddress = some pair → trade.Fits pair) :
    ((∃ block, builder.build (uniswapDex fromLogs) pairs = some block) ↔
      PricesExist pairs builder.indexedTrades) ∧
    ∀ block, builder.build (uniswapDex fromLogs) pairs = some block →
      (∀ address, (block.pairTicks.get? address).isSome ↔
        (pairs.lookup address).isSome ∧ ∃ trade ∈ builder.indexedTrades, trade.pairAddress = address) ∧
      (∀ address, block.pairTicks.get? address = (pairs.lookup address).bind fun pair =>
        PairBlockTick.ofTrades pair (tradesAt address builder.indexedTrades)) ∧
      ∀ address t, block.pairTicks.get? address = some t → t.tick.Ordered := by
  constructor
  · rw [pricesExist_iff hfits]
    have hnone := @foldlM_addTrade_eq_none_iff pairs fromLogs builder.indexedTrades
    constructor
    · intro ⟨block, hblock⟩ before trade after heq hpanics
      obtain ⟨ticks, hticks, -⟩ := Option.map_eq_some_iff.mp hblock
      cases hticks.symm.trans (hnone.mpr ⟨before, trade, after, heq, hpanics⟩)
    · intro hpanics
      apply Option.ne_none_iff_exists'.mp
      intro hbuild
      obtain ⟨before, trade, after, heq, hpanic⟩ := hnone.mp (Option.map_eq_none_iff.mp hbuild)
      exact hpanics before trade after heq hpanic
  · intro block hblock
    obtain ⟨ticks, hticks, rfl⟩ := Option.map_eq_some_iff.mp hblock
    obtain ⟨hof, hfold⟩ := foldlM_addTrade_ticks hfits hticks
    refine ⟨fun address => ?_, hfold, fun address t ht => ?_⟩
    · cases hl : pairs.lookup address with
      | none =>
        have habsent := hfold address
        rw [hl, Option.bind_none] at habsent
        rw [habsent]
        simp
      | some pair => simp [← (hof address pair hl).1]
    · have hsome := (hfold address).symm.trans ht
      obtain ⟨pair, -, htick⟩ := Option.bind_eq_some_iff.mp hsome
      exact TickData.ordered_of_ofTrades (PairBlockTick.ofTrades_eq_some htick).2

end Blocks

/-- A swap of a V2 pair that has these reserves afterwards. -/
def swapAt (address : Address) (amount0In amount1Out reserve0 reserve1 : U256) : IndexedTrade :=
  .uniswapV2 ⟨address, amount0In, 0, 0, amount1Out, reserve0, reserve1, 3⟩

def interleavedTrades : BlockBuilder IndexedTrade :=
  ⟨1, none, 6000, [swapAt 1 100 80 1100 920, swapAt 2 50 40 550 460, swapAt 1 100 60 1200 860]⟩

theorem build_ticks_interleaved :
    ∃ block, interleavedTrades.build (uniswapDex IndexedTrade.fromLogs)
        [(1, .uniswapV2 ⟨1, 5, WETH_ADDRESS⟩), (2, .uniswapV2 ⟨2, 6, WETH_ADDRESS⟩)] = some block ∧
      block.pairTicks.get? 1 = PairBlockTick.ofTrades (.uniswapV2 ⟨1, 5, WETH_ADDRESS⟩)
        [swapAt 1 100 80 1100 920, swapAt 1 100 60 1200 860] ∧
      ∃ t, block.pairTicks.get? 1 = some t ∧ t.tick.Ordered := by
  have hfits : ∀ trade ∈ interleavedTrades.indexedTrades, ∀ pair,
      List.lookup trade.pairAddress
        [((1 : Address), Pair.uniswapV2 ⟨1, 5, WETH_ADDRESS⟩), (2, .uniswapV2 ⟨2, 6, WETH_ADDRESS⟩)] =
          some pair → trade.Fits pair := by
    intro trade hm pair hl
    rcases List.mem_cons.mp hm with rfl | hm
    · cases hl
      trivial
    rcases List.mem_pair.mp hm with rfl | rfl
    · cases hl
      trivial
    · cases hl
      trivial
  obtain ⟨block, hblock⟩ : ∃ block, interleavedTrades.build (uniswapDex IndexedTrade.fromLogs)
    [(1, .uniswapV2 ⟨1, 5, WETH_ADDRESS⟩), (2, .uniswapV2 ⟨2, 6, WETH_ADDRESS⟩)] = some block := ⟨_, rfl⟩
  obtain ⟨hpresent, hticks, hordered⟩ := (build_ticks hfits).2 block hblock
  obtain ⟨t, ht⟩ := Option.isSome_iff_exists.mp ((hpresent 1).mpr ⟨rfl, swapAt 1 100 80 1100 920,
    List.mem_cons_self, rfl⟩)
  exact ⟨block, hblock, hticks 1, t, ht, hordered 1 t ht⟩

end Pochtecatl
