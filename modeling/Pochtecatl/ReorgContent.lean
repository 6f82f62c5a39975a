import Pochtecatl.InsertRuns

namespace Pochtecatl

namespace TimePriceBar

/-- A reorg does not look at indicators. -/
theorem cut_content (r : Nat) (bar : TimePriceBar) :
    bar.content.cut r = (bar.cut r).map content := by
  cases bar with
  | finalized f => rfl
  | pending p =>
    have hs : PendingTimePriceBar.startBlockNumber { p with indicators := none } =
      p.startBlockNumber := rfl
    have he : PendingTimePriceBar.endBlockNumber { p with indicators := none } =
      p.endBlockNumber := rfl
    simp only [content, cut, hs, he]
    split
    next =>
      split
      next => rfl
      next => split <;> rfl
    next => rfl

variable {r : Nat} {blocks blocks' : OrdMap Nat TickData}

/-- A pending bar with a block before `r` keeps what comes before `r`. -/
theorem cut_withBlocks_of_lt {k : Nat} {tick : TickData} (hk : blocks.get? k = some tick)
    (hkr : k < r) : (pending (.withBlocks blocks)).cut r =
      some (pending (.withBlocks (blocks.filterKeys (· < r)))) := by
  obtain ⟨s, e, hs, he, hsk, hke⟩ := @PendingTimePriceBar.exists_start_end
    (.withBlocks blocks) k ⟨tick, hk⟩
  by_cases hre : r ≤ e
  · rw [cut_of_straddle hs he (by omega) hre, PendingTimePriceBar.pruneToReorgedBlockNumber]
    have hblocks := PendingTimePriceBar.blockPriceBars_pruneToReorgedBlockNumber
      (.withBlocks blocks) r
    exact congrArg (fun b => some (pending (.withBlocks b))) hblocks
  · have hlt : ∀ j, (pending (.withBlocks blocks)).Holds j → j < r := fun j hj => by
      have := (PendingTimePriceBar.endBlockNumber_eq_some_iff.mp he).2 j hj
      omega
    have hall : blocks.filterKeys (· < r) = blocks := by
      refine OrdMap.ext_get? fun j => ?_
      rw [OrdMap.get?_filterKeys]
      split
      next => rfl
      next hj =>
        refine (Option.eq_none_iff_forall_ne_some.mpr fun t ht => hj ?_).symm
        exact decide_eq_true (hlt j ⟨t, ht⟩)
    rw [cut_of_lt hlt, hall]

theorem cut_withBlocks_eq_none {k : Nat} {tick : TickData} (hk : blocks.get? k = some tick)
    (hnone : ∀ j, j < r → blocks.get? j = none) :
    (pending (.withBlocks blocks)).cut r = none := by
  obtain ⟨s, e, hs, -, -, -⟩ := @PendingTimePriceBar.exists_start_end
    (.withBlocks blocks) k ⟨tick, hk⟩
  refine cut_eq_none_iff.mpr ⟨_, s, rfl, hs, Nat.le_of_not_lt fun hsr => ?_⟩
  obtain ⟨t, ht⟩ := (PendingTimePriceBar.startBlockNumber_eq_some_iff.mp hs).1
  exact Option.some_ne_none t ((show blocks.get? s = some t from ht).symm.trans (hnone s hsr))

/-- Bars with the same blocks before `r` are cut alike. -/
theorem cut_withBlocks_congr {k k' : Nat} {tick tick' : TickData}
    (hk : blocks.get? k = some tick) (hk' : blocks'.get? k' = some tick')
    (h : ∀ j, j < r → blocks.get? j = blocks'.get? j) :
    (pending (.withBlocks blocks)).cut r = (pending (.withBlocks blocks')).cut r := by
  by_cases hlow : ∃ j t, j < r ∧ blocks.get? j = some t
  · obtain ⟨j, t, hj, hg⟩ := hlow
    have hfilter : blocks.filterKeys (· < r) = blocks'.filterKeys (· < r) := by
      refine OrdMap.ext_get? fun i => ?_
      rw [OrdMap.get?_filterKeys, OrdMap.get?_filterKeys]
      split
      next hi => exact h i (of_decide_eq_true hi)
      next => rfl
    rw [cut_withBlocks_of_lt hg hj, cut_withBlocks_of_lt (h j hj ▸ hg) hj, hfilter]
  · have hnone : ∀ j, j < r → blocks.get? j = none := fun j hj =>
      Option.eq_none_iff_forall_ne_some.mpr fun t ht => hlow ⟨j, t, hj, ht⟩
    rw [cut_withBlocks_eq_none hk hnone,
      cut_withBlocks_eq_none hk' fun j hj => (h j hj).symm.trans (hnone j hj)]

end TimePriceBar

namespace TimePriceBars

open ResolutionTimestamp

variable {t₀ r : Nat} {x y x' : TimePriceBars}

/-- A settled bar is finalized. -/
theorem SoundBar.exists_settle {res : Resolution} {frontier : Option Nat} {key : Nat}
    {bar : TimePriceBar} (h : SoundBar t₀ res frontier key bar) :
    ∃ f, bar.settle = .finalized f := by
  cases bar with
  | finalized f => exact ⟨f, rfl⟩
  | pending p =>
    obtain ⟨f, hf⟩ := h.exists_asFinalized
    exact ⟨f, TimePriceBar.settle_of_asFinalized hf⟩

/-- What is kept of the bucket by a reorg to `r`. -/
def keptAt (r : Nat) (bars : TimePriceBars) (key : Nat) : Option TimePriceBar :=
  (bars.contentAt key).bind (TimePriceBar.cut r)

theorem keptAt_eq (r : Nat) (bars : TimePriceBars) (key : Nat) : bars.keptAt r key =
    ((bars.data.get? key).bind (TimePriceBar.cut r)).map TimePriceBar.content := by
  unfold keptAt contentAt
  cases bars.data.get? key with
  | none => rfl
  | some bar => exact TimePriceBar.cut_content r bar

theorem keptAt_of_allBelow (h : AllBelow r x) (key : Nat) : x.keptAt r key = x.contentAt key := by
  rw [keptAt_eq, contentAt]
  cases hg : x.data.get? key with
  | none => rfl
  | some bar => rw [Option.bind_some, TimePriceBar.cut_of_lt (h key bar hg)]

/-- A reorg that completes cuts every bar, when the bars hold blocks in order. -/
theorem pruneToReorgedBlockNumber_ok_contentAt
    (hne : ∀ key bar, x.data.get? key = some bar → ∃ k, bar.Holds k) (horder : x.InOrder)
    (hok : pruneToReorgedBlockNumber r x = .ok () x') :
    (∀ key, x'.contentAt key = x.keptAt r key) ∧ AllBelow r x' := by
  have hsame := pruneToReorgedBlockNumber_sameContent r x
  obtain ⟨pruned, looped, hloop, -⟩ := pruneToReorgedBlockNumber_ok hok
  rw [hok, hloop] at hsame
  change SameContent looped x' at hsame
  obtain ⟨hlast, hswept, hcut⟩ := pruneLoop_ok hloop
  have hsub : ∀ key bar, looped.data.get? key = some bar →
      ∃ bar', x.data.get? key = some bar' ∧ ∀ k, bar.Holds k → bar'.Holds k := by
    intro key bar hk
    by_cases hp : pruned = some key
    · obtain ⟨q, hq, -, hq'⟩ := hcut key hp
      rw [hk] at hq'
      cases hq'
      exact ⟨_, hq, fun k hk => (PendingTimePriceBar.holds_pruneToReorgedBlockNumber.mp hk).2⟩
    · rcases hswept key hp with he | ⟨he, -⟩
      · exact ⟨bar, he ▸ hk, fun k hk => hk⟩
      · rw [hk] at he
        cases he
  have hbelow : ∀ key bar, looped.data.get? key = some bar → ∀ k, bar.Holds k → k < r := by
    intro key bar hk k hh
    cases hl : looped.data.lastEntry with
    | none =>
      rw [OrdMap.lastEntry_eq_none_iff.mp hl key] at hk
      cases hk
    | some last =>
      obtain ⟨lastKey, lastBar⟩ := last
      obtain ⟨hget, hmax⟩ := OrdMap.lastEntry_eq_some_iff.mp hl
      rcases (hmax key bar hk).lt_or_eq with hlt | rfl
      · obtain ⟨bar₁, hx₁, hsub₁⟩ := hsub key bar hk
        obtain ⟨bar₂, hx₂, -⟩ := hsub lastKey lastBar hget
        obtain ⟨j, hj⟩ : ∃ j, lastBar.Holds j := by
          by_cases hp : pruned = some lastKey
          · obtain ⟨q, hq, hqc, hq'⟩ := hcut lastKey hp
            rw [hget] at hq'
            cases hq'
            exact TimePriceBar.exists_holds_of_cut hqc (hne lastKey _ hq)
          · rcases hswept lastKey hp with he | ⟨he, -⟩
            · exact hne lastKey lastBar (he ▸ hget)
            · rw [hget] at he
              cases he
        obtain ⟨bar₃, hx₃, hsub₃⟩ := hsub lastKey lastBar hget
        have hkj := horder key lastKey k j hlt ⟨bar₁, hx₁, hsub₁ k hh⟩ ⟨bar₃, hx₃, hsub₃ j hj⟩
        exact hkj.trans (hlast lastKey lastBar hl j hj)
      · rw [hget] at hk
        cases hk
        exact hlast key bar hl k hh
  refine ⟨fun key => ?_, fun key bar' hk k hh => ?_⟩
  · rw [hsame.contentAt_eq, keptAt_eq, contentAt]
    congr 1
    by_cases hp : pruned = some key
    · obtain ⟨q, hq, hqc, hq'⟩ := hcut key hp
      rw [hq, hq', Option.bind_some, hqc]
    · rcases hswept key hp with he | ⟨he, hnone⟩
      · rw [he]
        cases hg : x.data.get? key with
        | none => rfl
        | some bar =>
          exact (TimePriceBar.cut_of_lt (hbelow key bar (he.trans hg))).symm
      · rw [he, hnone]
  · obtain ⟨bar, hg, he⟩ := hsame.exists_bar hk
    exact hbelow key bar hg k ((TimePriceBar.holds_iff_of_content he k).mp hh)

/-- The blocks that a reorg leaves were in the same bars. -/
theorem stores_of_pruneToReorgedBlockNumber
    (hne : ∀ key bar, x.data.get? key = some bar → ∃ k, bar.Holds k) (horder : x.InOrder)
    (hok : pruneToReorgedBlockNumber r x = .ok () x') {key k : Nat} (hk : x'.Stores key k) :
    x.Stores key k ∧ k < r := by
  obtain ⟨hcontent, hbelow⟩ := pruneToReorgedBlockNumber_ok_contentAt hne horder hok
  obtain ⟨bar', hg', hk'⟩ := hk
  refine ⟨?_, hbelow key bar' hg' k hk'⟩
  obtain ⟨bar, hc, hk⟩ := exists_bar_holds_iff.mp ⟨bar', hg', hk'⟩
  rw [hcontent, keptAt_eq] at hc
  obtain ⟨cutBar, hbind, rfl⟩ := Option.map_eq_some_iff.mp hc
  obtain ⟨bar, hg, hcut⟩ := Option.bind_eq_some_iff.mp hbind
  exact ⟨bar, hg, TimePriceBar.holds_of_cut hcut ((TimePriceBar.holds_content cutBar k).mp hk)⟩

theorem InOrder.pruneToReorgedBlockNumber (h : InOrder x)
    (hne : ∀ key bar, x.data.get? key = some bar → ∃ k, bar.Holds k)
    (hok : TimePriceBars.pruneToReorgedBlockNumber r x = .ok () x') : InOrder x' := by
  intro key key' k k' hlt hk hk'
  obtain ⟨hk, -⟩ := stores_of_pruneToReorgedBlockNumber hne h hok hk
  obtain ⟨hk', -⟩ := stores_of_pruneToReorgedBlockNumber hne h hok hk'
  exact h key key' k k' hlt hk hk'

/-- A bar that only the first run finalized spans blocks of the second run's bar. -/
theorem Ahead.inOrder (h : Ahead x y) (hy : y.InOrder) : x.InOrder := by
  have hspan : ∀ key k, x.Stores key k → ∃ s e, s ≤ k ∧ k ≤ e ∧ y.Stores key s ∧ y.Stores key e := by
    rintro key k ⟨bar, hg, hk⟩
    cases hy' : y.data.get? key with
    | none =>
      rw [h.get?_eq_none_iff.mpr hy'] at hg
      cases hg
    | some bar' =>
      obtain ⟨bar'', hg', he⟩ := h.exists_bar hy'
      rw [hg] at hg'
      cases hg'
      rw [← TimePriceBar.holds_content, he, settleLag] at hk
      have hspan : ∃ s e, bar'.content.Holds s ∧ bar'.content.Holds e ∧ s ≤ k ∧ k ≤ e := by
        split at hk
        next => exact TimePriceBar.exists_holds_of_settle hk
        next => exact ⟨k, k, hk, hk, le_rfl, le_rfl⟩
      obtain ⟨s, e, hs, he, hsk, hke⟩ := hspan
      exact ⟨s, e, hsk, hke, ⟨bar', hy', (TimePriceBar.holds_content bar' s).mp hs⟩,
        ⟨bar', hy', (TimePriceBar.holds_content bar' e).mp he⟩⟩
  intro key key' k k' hlt hk hk'
  obtain ⟨-, e, -, hke, -, he⟩ := hspan key k hk
  obtain ⟨s, -, hsk, -, hs, -⟩ := hspan key' k' hk'
  exact hke.trans_lt ((hy key key' e s hlt he hs).trans_le hsk)

/-- After a reorg, the first run is ahead of what the second one would keep. -/
theorem Ahead.pruneToReorgedBlockNumber {kept : TimePriceBars} (h : Ahead x y) (hx : Sound t₀ x)
    (hy : Sound t₀ y) (horder : y.InOrder) (hs : SameSettings y kept)
    (hfrontier : ∀ key, Reached kept.lastFinalizedTimestamp key ↔
      Reached y.lastFinalizedTimestamp key)
    (hkept : ∀ key, kept.contentAt key = y.keptAt r key)
    (hok : TimePriceBars.pruneToReorgedBlockNumber r x = .ok () x') :
    Ahead x' kept ∧ AllBelow r x' ∧ x'.lastFinalizedTimestamp = x.lastFinalizedTimestamp := by
  have hsettings := pruneToReorgedBlockNumber_ok_settings hok
  have hlast := pruneToReorgedBlockNumber_ok_frontier hok
  obtain ⟨hcontent, hbelow⟩ :=
    pruneToReorgedBlockNumber_ok_contentAt hx.nonempty (h.inOrder horder) hok
  have hlag : ∀ key, Lag x' kept key ↔ Lag x y key := fun key => by
    rw [Lag, Lag, hlast, hfrontier key]
  have hx's : SameSettings kept x' :=
    ⟨hsettings.resolution.trans (h.settings.resolution.trans hs.resolution.symm),
      hsettings.retentionCount.trans (h.settings.retentionCount.trans hs.retentionCount.symm),
      hsettings.indicatorsConfig.trans
        (h.settings.indicatorsConfig.trans hs.indicatorsConfig.symm)⟩
  refine ⟨⟨hx's, fun key hr => ?_, fun key => ?_⟩, hbelow, hlast⟩
  · rw [hlast]
    exact h.frontier key ((hfrontier key).mp hr)
  · have hsettle : settleLag x' kept key = settleLag x y key :=
      funext fun bar => if_congr (hlag key) rfl rfl
    rw [hcontent, hkept, hsettle, keptAt, keptAt, h.content key]
    by_cases hl : Lag x y key
    · have hid : settleLag x y key = TimePriceBar.settle := funext fun bar => if_pos hl
      have hcut := hcontent key
      rw [keptAt, h.content key, hid] at hcut
      rw [hid]
      cases hg : y.data.get? key with
      | none => simp only [contentAt, hg, Option.map_none, Option.bind_none]
      | some bar =>
        have hc : y.contentAt key = some bar.content := by rw [contentAt, hg, Option.map_some]
        obtain ⟨f, hf⟩ := (hy.bar key bar hg).exists_settle
        rw [hc, Option.map_some, Option.bind_some, TimePriceBar.settle_content, hf] at hcut ⊢
        obtain ⟨bar', hg', he⟩ := Option.map_eq_some_iff.mp hcut
        have hlt : ∀ k, bar.content.Holds k → k < r := by
          intro k hk
          refine hbelow key bar' hg' k ((TimePriceBar.holds_content bar' k).mp ?_)
          have hholds := TimePriceBar.holds_settle hk
          rw [TimePriceBar.settle_content, hf] at hholds
          exact he ▸ hholds
        rw [Option.bind_some, TimePriceBar.cut_of_lt hlt, Option.map_some,
          TimePriceBar.settle_content, hf]
        rfl
    · have hid : settleLag x y key = id := funext fun bar => if_neg hl
      rw [hid, Option.map_id_fun]
      rfl

end TimePriceBars

end Pochtecatl
