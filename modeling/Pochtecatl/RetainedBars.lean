import Pochtecatl.FinalizedBars

namespace Pochtecatl

namespace TimePriceBars

open ResolutionTimestamp

variable {t₀ n next key : Nat} {d : TickData} {f : Option Nat} {x y x' y' : TimePriceBars}
  {p : Nat → Bool}

/-- The first bars are the second ones of the buckets in `p`. -/
structure Within (p : Nat → Bool) (x y : TimePriceBars) : Prop where
  resolution : x.resolution = y.resolution
  indicatorsConfig : x.indicatorsConfig = y.indicatorsConfig
  frontier : x.lastFinalizedTimestamp = y.lastFinalizedTimestamp
  data : x.data = y.data.filterKeys p

theorem Within.get?_eq (h : Within p x y) (hk : p key) : x.data.get? key = y.data.get? key := by
  rw [h.data, OrdMap.get?_filterKeys, if_pos hk]

theorem Within.insert (h : Within p x y) (hk : p key) (bar : TimePriceBar) :
    Within p { x with data := x.data.insert key bar } { y with data := y.data.insert key bar } :=
  ⟨h.resolution, h.indicatorsConfig, h.frontier, by rw [h.data, OrdMap.insert_filterKeys hk]⟩

/-- Both runs pad the same blocks. -/
theorem Within.padMissing (h : Within p x y) (hl : x.lastBlock = y.lastBlock) (n bts : Nat)
    (hp : ∀ b tick, y.lastBlock = some (b, tick) → p (y.padTarget n bts b)) :
    ∃ padded x' y', padMissing n bts x = .ok padded x' ∧ padMissing n bts y = .ok padded y' ∧
      Within p x' y' := by
  have htarget : ∀ b, x.padTarget n bts b = y.padTarget n bts b := fun b => by
    rw [padTarget, padTarget, h.resolution]
  rcases padMissing_cases n bts y with ⟨he, hfin⟩ | ⟨b, tick, bar, hly, hlt, hg, he⟩
  · refine ⟨[], x, y, ?_, he, h⟩
    rcases padMissing_cases n bts x with ⟨he', -⟩ | ⟨b, tick, bar, hlx, hlt, hg, -⟩
    · exact he'
    · rw [hl] at hlx
      obtain ⟨g, hg'⟩ := hfin b tick hlx hlt
      rw [htarget, h.get?_eq (hp b tick hlx), hg'] at hg
      cases hg
  · have hgx := h.get?_eq (hp b tick hly)
    rcases padMissing_cases n bts x with ⟨-, hfin⟩ | ⟨b', tick', bar', hlx, -, hg', he'⟩
    · obtain ⟨g, hg'⟩ := hfin b tick (hl.trans hly) hlt
      rw [htarget, hgx] at hg'
      rw [hg'] at hg
      cases hg
    · rw [hl, hly] at hlx
      cases hlx
      rw [htarget, hgx, hg] at hg'
      cases hg'
      rw [htarget] at he'
      exact ⟨_, _, _, he', he, h.insert (hp b tick hly) _⟩

theorem Within.insertBlock (h : Within p x y) {bts : Nat} (hk : p key)
    (hx : insertBlock n d bts key x = .ok () x') :
    ∃ y', insertBlock n d bts key y = .ok () y' ∧ Within p x' y' := by
  obtain ⟨bar, hg, hend, rfl⟩ := insertBlock_ok hx
  rw [h.get?_eq hk] at hg
  exact ⟨_, insertBlock_of_pending hg hend, h.insert hk _⟩

/-- Indicators come out the same where the buckets of the Bollinger period are in `p`. -/
theorem Within.updateTouched (h : Within p x y) {config : Option IndicatorsConfig}
    {touched : List Nat} (hp : ∀ ts ∈ touched, ∀ k, ts - 5700 ≤ k → p k)
    (hx : updateTouched config touched x = .ok () x')
    (hy : updateTouched config touched y = .ok () y') : Within p x' y' := by
  cases config with
  | none =>
    cases hx
    cases hy
    exact h
  | some config =>
    change updateAll config touched x = .ok () x' at hx
    change updateAll config touched y = .ok () y' at hy
    induction touched generalizing x y with
    | nil =>
      cases hx
      cases hy
      exact h
    | cons ts l ih =>
      have hts := hp ts List.mem_cons_self
      obtain ⟨_, s, hux, hrx⟩ := EStateM.bind_eq_ok.mp hx
      obtain ⟨_, u, huy, hry⟩ := EStateM.bind_eq_ok.mp hy
      obtain ⟨i, bar, hi, hb, rfl⟩ := updateIndicators_eq_ok hux
      obtain ⟨j, bar', hj, hb', rfl⟩ := updateIndicators_eq_ok huy
      have hwarm : 5700 ≤ ts := by
        refine (@Indicators.compute_isSome_iff ts x.resolution x.data config).mp ?_
        rw [hi]
        rfl
      have hcompute : Indicators.compute ts y.resolution x.data config =
          Indicators.compute ts y.resolution y.data config :=
        Indicators.compute_congr_window hwarm fun k hk _ => h.get?_eq (hts k hk)
      rw [h.resolution, hcompute, hj] at hi
      rw [h.get?_eq (hts ts (by omega)), hb'] at hb
      cases hi
      cases hb
      exact ih (h.insert (hts ts (by omega)) _)
        (fun ts' hm => hp ts' (List.mem_cons_of_mem _ hm)) hrx hry

theorem Within.finalizeUpTo (h : Within p x y) (hx : finalizeUpTo f x = .ok () x')
    (hy : finalizeUpTo f y = .ok () y') : Within p x' y' := by
  have hsx := finalizeUpTo_ok_settings hx
  have hsy := finalizeUpTo_ok_settings hy
  have hrange : ∀ key, x.InFinalizeRange f key ↔ y.InFinalizeRange f key := fun key => by
    simp only [InFinalizeRange, finalizeStart, h.resolution, h.frontier]
  have hsettle : x.settleIn f = y.settleIn f := by
    funext key bar
    exact if_congr (hrange key) rfl rfl
  refine ⟨hsx.resolution.trans (h.resolution.trans hsy.resolution.symm),
    hsx.indicatorsConfig.trans (h.indicatorsConfig.trans hsy.indicatorsConfig.symm), ?_,
    OrdMap.ext_get? fun key => ?_⟩
  · rw [(finalizeUpTo_ok hx).1, (finalizeUpTo_ok hy).1]
    simp only [frontierAfter, h.frontier]
  · rw [finalizeUpTo_ok_get? hx, hsettle, h.data, OrdMap.get?_filterKeys, OrdMap.get?_filterKeys,
      finalizeUpTo_ok_get? hy]
    split
    next => rfl
    next => rfl

/-- Retention of the first bars, when these include what it leaves of the second ones. -/
theorem Within.pruneToRetentionCount (h : Within p x y) {R : Nat} (hrc : x.retentionCount = some R)
    (hup : ∀ k j, k ≤ j → p k → p j) (hp : ∀ key, y.data.countFrom key ≤ R → p key) :
    Within (fun key => y.data.countFrom key ≤ R) x.pruneToRetentionCount y := by
  rw [pruneToRetentionCount_fields]
  refine ⟨h.resolution, h.indicatorsConfig, h.frontier, OrdMap.ext_get? fun key => ?_⟩
  rw [pruneToRetentionCount_data hrc, OrdMap.get?_filterKeys, OrdMap.get?_filterKeys]
  by_cases hkey : p key
  · have hcount : x.data.countFrom key = y.data.countFrom key := by
      rw [h.data]
      exact OrdMap.countFrom_filterKeys fun j hj => hup key j hj hkey
    rw [hcount, h.get?_eq hkey]
  · rw [if_neg fun hc => hkey (hp key (of_decide_eq_true hc)), h.data, OrdMap.get?_filterKeys,
      if_neg hkey]
    split <;> rfl

/-- The first bars are the last `R` of the second ones. -/
def Retains (R : Nat) (x y : TimePriceBars) : Prop :=
  Within (fun key => y.data.countFrom key ≤ R) x y

theorem Retains.lastBlock {R : Nat} (h : Retains R x y) (hR : 1 ≤ R) :
    x.lastBlock = y.lastBlock := by
  have hentry : x.data.lastEntry = y.data.lastEntry := by
    cases hl : y.data.lastEntry with
    | none =>
      rw [OrdMap.lastEntry_eq_none_iff, h.data]
      intro k
      rw [OrdMap.get?_filterKeys, OrdMap.lastEntry_eq_none_iff.mp hl k]
      split <;> rfl
    | some last =>
      obtain ⟨key, bar⟩ := last
      obtain ⟨hg, hmax⟩ := OrdMap.lastEntry_eq_some_iff.mp hl
      have hkey : y.data.countFrom key ≤ R := (OrdMap.countFrom_le_one hmax).trans hR
      refine OrdMap.lastEntry_eq_some_iff.mpr ⟨?_, fun k bar' hk => hmax k bar' ?_⟩
      · rw [Within.get?_eq h (decide_eq_true hkey), hg]
      · rw [h.data, OrdMap.get?_filterKeys] at hk
        split at hk
        next => exact hk
        next => cases hk
  rw [TimePriceBars.lastBlock, TimePriceBars.lastBlock, hentry]

/-- Bars at bucket starts up to `top`: as many as there are buckets. -/
theorem countFrom_window {data : OrdMap Nat TimePriceBar} {o top : Nat} (ho : 0 < o)
    (htop : o ∣ top) (hkeys : ∀ k bar, data.get? k = some bar → o ∣ k ∧ k ≤ top) (j : Nat) :
    data.countFrom (top - o * j) ≤ j + 1 := by
  rw [OrdMap.countFrom_eq_size]
  have hle : (data.filterKeys fun k => top - o * j ≤ k).size ≤
      ((List.range (j + 1)).map fun i => top - o * i).length := by
    refine OrdMap.size_le_length fun k bar hk => ?_
    rw [OrdMap.get?_filterKeys] at hk
    split at hk
    next hlow =>
      obtain ⟨⟨a, rfl⟩, hle⟩ := hkeys k bar hk
      obtain ⟨c, rfl⟩ := htop
      have hlow := of_decide_eq_true hlow
      have hac : a ≤ c := Nat.le_of_mul_le_mul_left hle ho
      rw [← Nat.mul_sub] at hlow
      have hcj : c - j ≤ a := Nat.le_of_mul_le_mul_left hlow ho
      refine List.mem_map.mpr ⟨c - a, List.mem_range.mpr (by omega), ?_⟩
      rw [← Nat.mul_sub, show c - (c - a) = a by omega]
    next => cases hk
  rwa [List.length_map, List.length_range] at hle

theorem aligned_insert {data : OrdMap Nat TimePriceBar} {o top k : Nat} {bar : TimePriceBar}
    (hkeys : ∀ key bar, data.get? key = some bar → o ∣ key ∧ key ≤ top) (hdvd : o ∣ k)
    (hle : k ≤ top) (key : Nat) (bar' : TimePriceBar)
    (hk : (data.insert k bar).get? key = some bar') : o ∣ key ∧ key ≤ top := by
  rw [OrdMap.get?_insert] at hk
  split at hk
  next he => exact he ▸ ⟨hdvd, hle⟩
  next => exact hkeys key bar' hk

/-- Of the bars that an insert leaves, at most 21 are in the Bollinger period of a bucket
whose indicators it recomputes, or after it. -/
theorem Chained.countFrom_touched (h : Chained t₀ next y) (hn : next ≤ n) {padded : List Nat}
    {y₁ y₂ : TimePriceBars} (hp : TimePriceBars.padMissing n (blockTime t₀ n) y = .ok padded y₁)
    (hi : TimePriceBars.insertBlock n d (blockTime t₀ n) (blockBucket t₀ y.resolution n) y₁ =
      .ok () y₂) {ts : Nat} (hts : ts ∈ padded ++ [blockBucket t₀ y.resolution n]) :
    y₂.data.countFrom (ts - 5700) ≤ 21 := by
  have hspan : y.resolution.offset * 19 = 5700 := by
    cases y.resolution
    rfl
  have hmono : ∀ b tick, y.lastBlock = some (b, tick) →
      blockBucket t₀ y.resolution b ≤ blockBucket t₀ y.resolution n := fun b tick hl =>
    blockBucket_mono ((h.lastBlock_lt hl).le.trans hn)
  have hold : ∀ key bar, y.data.get? key = some bar →
      y.resolution.offset ∣ key ∧ key ≤ blockBucket t₀ y.resolution n := by
    intro key bar hk
    obtain ⟨b, tick, hl, hle⟩ := key_le_lastBlock h.notEarly hk
    exact ⟨(h.bar key bar hk).aligned, hle.trans (hmono b tick hl)⟩
  obtain ⟨q, -, -, rfl⟩ := insertBlock_ok hi
  rw [← hspan]
  rcases padMissing_cases n (blockTime t₀ n) y with ⟨he, -⟩ | ⟨b, tick, bar, hl, hlt, -, he⟩
  · rw [he] at hp
    cases hp
    cases List.mem_singleton.mp hts
    exact (countFrom_window y.resolution.offset_pos (offset_dvd_blockBucket _ _ _)
      (aligned_insert hold (offset_dvd_blockBucket _ _ _) le_rfl) 19).trans (by omega)
  · rw [he] at hp
    cases hp
    rw [padTarget_blockTime (by omega)] at hts ⊢
    have hpadded := @aligned_insert y.data _ _ (blockBucket t₀ y.resolution b)
      (.pending (bar.insertBlockPriceBarRange (paddedNumbers b n) tick)) (fun key bar' hk =>
        ⟨(hold key bar' hk).1, h.key_le hl hk⟩) (offset_dvd_blockBucket t₀ _ b) le_rfl
    rcases List.mem_append.mp hts with hts | hts
    · cases List.mem_singleton.mp hts
      refine (OrdMap.countFrom_insert_le _ _ _ _).trans (Nat.succ_le_succ ?_)
      exact countFrom_window y.resolution.offset_pos (offset_dvd_blockBucket _ _ _) hpadded 19
    · cases List.mem_singleton.mp hts
      refine (countFrom_window y.resolution.offset_pos (offset_dvd_blockBucket _ _ _)
        (aligned_insert (fun key bar' hk => ?_) (offset_dvd_blockBucket _ _ _) le_rfl) 19).trans (by omega)
      obtain ⟨hdvd, hle⟩ := hpadded key bar' hk
      exact ⟨hdvd, hle.trans (hmono b tick hl)⟩

theorem insertBlock_countFrom_le {padded : List Nat} {bts : Nat} {y₁ y₂ : TimePriceBars}
    (hp : TimePriceBars.padMissing n bts y = .ok padded y₁)
    (hi : TimePriceBars.insertBlock n d bts key y₁ = .ok () y₂) (k : Nat) :
    y.data.countFrom k ≤ y₂.data.countFrom k := by
  obtain ⟨q, -, -, rfl⟩ := insertBlock_ok hi
  refine le_trans ?_ (OrdMap.countFrom_le_insert y₁.data key k _)
  rcases padMissing_cases n bts y with ⟨he, -⟩ | ⟨b, tick, bar, -, -, -, he⟩
  · rw [he] at hp
    cases hp
    exact le_rfl
  · rw [he] at hp
    cases hp
    exact OrdMap.countFrom_le_insert y.data _ k _

/-- A retention of 21 bars or more does not change what an insert makes of the bars it
retains. -/
theorem Retains.insertData {R : Nat} (h : Retains R x y) (hR : 21 ≤ R) (hy : Chained t₀ next y)
    (hn : next ≤ n) (hx : x.retentionCount = some R) (hrc : y.retentionCount = none)
    (hokx : TimePriceBars.insertData n d (blockTime t₀ n) f x = .ok () x')
    (hoky : TimePriceBars.insertData n d (blockTime t₀ n) f y = .ok () y') : Retains R x' y' := by
  have hmono : ∀ b tick, y.lastBlock = some (b, tick) →
      blockBucket t₀ y.resolution b ≤ blockBucket t₀ y.resolution n := fun b tick hl =>
    blockBucket_mono ((hy.lastBlock_lt hl).le.trans hn)
  have hnew : y.data.countFrom (blockBucket t₀ y.resolution n) ≤ 1 := by
    refine OrdMap.countFrom_le_one fun key bar hk => ?_
    obtain ⟨b, tick, hl, hle⟩ := key_le_lastBlock hy.notEarly hk
    exact hle.trans (hmono b tick hl)
  obtain ⟨padded, x₁, x₂, x₃, hpx, hix, hux, hfx⟩ := insertData_ok hokx
  obtain ⟨padded', y₁, y₂, y₃, hpy, hiy, huy, hfy⟩ := insertData_ok hoky
  obtain ⟨padded'', x₁', y₁', hpx', hpy', h₁⟩ := Within.padMissing h
    (h.lastBlock (by omega)) n (blockTime t₀ n) fun b tick hl => by
      rw [padTarget_blockTime ((hy.lastBlock_lt hl).le.trans hn)]
      have hlast := OrdMap.countFrom_le_one fun key bar (hk : y.data.get? key = some bar) =>
        hy.key_le hl hk
      exact decide_eq_true (hlast.trans (by omega))
  rw [hpx'] at hpx
  rw [hpy'] at hpy
  cases hpx
  cases hpy
  rw [h.resolution] at hix hux
  rw [h.indicatorsConfig] at hux
  obtain ⟨y₂', hiy', h₂⟩ := h₁.insertBlock (decide_eq_true (hnew.trans (by omega))) hix
  cases hiy'.symm.trans hiy
  have hrcx : x₂.retentionCount = some R := by
    obtain ⟨q, -, -, rfl⟩ := insertBlock_ok hix
    exact (padMissing_settings hpx').retentionCount.trans hx
  have hrcy : y₂.retentionCount = none := by
    obtain ⟨q, -, -, rfl⟩ := insertBlock_ok hiy'
    exact (padMissing_settings hpy').retentionCount.trans hrc
  rw [pruneToRetentionCount_of_none hrcy] at huy
  have h₃ := h₂.pruneToRetentionCount hrcx
    (fun k j hkj hk => decide_eq_true
      ((OrdMap.countFrom_antitone _ hkj).trans (of_decide_eq_true hk)))
    fun k hk => decide_eq_true ((insertBlock_countFrom_le hpy' hiy' k).trans hk)
  have h₄ := h₃.updateTouched (fun ts hts k hk => ?_) hux huy
  · have h₅ := h₄.finalizeUpTo hfx hfy
    have hcount : ∀ k, y₂.data.countFrom k = y'.data.countFrom k := fun k => by
      refine OrdMap.countFrom_congr (fun j => ?_) k
      rw [finalizeUpTo_ok_get? hfy, Option.isSome_map,
        (updateTouched_ok_sameContent huy).isSome_get?]
    simp only [hcount] at h₅
    exact h₅
  · have hcount := hy.countFrom_touched hn hpy' hiy' hts
    exact decide_eq_true ((OrdMap.countFrom_antitone _ hk).trans (hcount.trans hR))

theorem Retains.entries {R : Nat} (h : Retains R x y) :
    x.data.entries = y.data.entries.drop (y.data.size - R) := by
  rw [h.data]
  exact (OrdMap.drop_eq_filter_count y.data.sorted R).symm

variable {h h' s' : BarsHistory}

/-- Two histories of the same inserts, the first with a retention of `R` bars. -/
structure RetainsHistory (t₀ R : Nat) (h h' : BarsHistory) : Prop where
  left : Orderly t₀ h
  right : Orderly t₀ h'
  retention : h.bars.retentionCount = some R
  retainsAll : h'.bars.retentionCount = none
  nextBlock : h.nextBlock = h'.nextBlock
  passed : h.passed = h'.passed
  retains : Retains R h.bars h'.bars

theorem new_retainsHistory (t₀ : Nat) {R : Nat} (hR : 21 ≤ R) (res : Resolution)
    (config : Option IndicatorsConfig) :
    RetainsHistory t₀ R (.new (some R) res config) (.new none res config) := by
  refine ⟨new_orderly (fun c hc => ?_) res config, new_orderly (fun c hc => ?_) res config,
    rfl, rfl, rfl, rfl, ⟨rfl, rfl, rfl, rfl⟩⟩
  · cases hc
    omega
  · cases hc

theorem RetainsHistory.insertData {R : Nat} (hr : RetainsHistory t₀ R h h') (hR : 21 ≤ R)
    (ht : 5700 ≤ t₀) (hstep : (history t₀).step h' (.insertData n d f) = some s') :
    ∃ s, (history t₀).step h (.insertData n d f) = some s ∧ RetainsHistory t₀ R s s' := by
  obtain ⟨hadmits', -, rfl⟩ := history_step_insertData hstep
  have hadmits : h.Admits t₀ n f := by
    rw [BarsHistory.Admits, hr.nextBlock, hr.passed, hr.retains.resolution]
    exact hadmits'
  obtain ⟨x, hx⟩ := hr.left.chained.exists_insertData hadmits.1 hr.left.retention ht
    (fun v hv => (hadmits.2 v hv).1) d
  obtain ⟨y, hy⟩ := hr.right.chained.exists_insertData hadmits'.1 hr.right.retention ht
    (fun v hv => (hadmits'.2 v hv).1) d
  refine ⟨_, history_step_of_ok hadmits hx, ?_⟩
  rw [hy]
  refine ⟨hr.left.insertData hadmits hx, hr.right.insertData hadmits' hy, ?_, ?_, rfl, ?_, ?_⟩
  · exact (insertData_ok_settings hx).retentionCount.trans hr.retention
  · exact (insertData_ok_settings hy).retentionCount.trans hr.retainsAll
  · exact congrArg f.or hr.passed
  · exact hr.retains.insertData hR hr.right.chained hadmits'.1 hr.retention hr.retainsAll hx hy

theorem RetainsHistory.run {R : Nat} {cs : List BarsCall} (hr : RetainsHistory t₀ R h h')
    (hR : 21 ≤ R) (ht : 5700 ≤ t₀) (hinserts : ∀ call ∈ cs, ∃ n d f, call = .insertData n d f)
    (hrun : (history t₀).run h' cs = some s') :
    ∃ s, (history t₀).run h cs = some s ∧ RetainsHistory t₀ R s s' := by
  refine Machine.run_simulated (R := fun h' h => RetainsHistory t₀ R h h')
    (P := fun _ call _ => ∃ n d f, call = .insertData n d f) ?_
    (Machine.along_of_forall fun call hm _ _ => hinserts call hm) hrun hr
  intro h' h call s' hr hstep hcall
  obtain ⟨n, d, f, rfl⟩ := hcall
  exact hr.insertData hR ht hstep

/-- However many bars from 21 on are retained, each call leaves the last ones of those that
the same calls leave without retention. -/
theorem history_retention {R : Nat} (hR : 21 ≤ R) (ht : 5700 ≤ t₀) {res : Resolution}
    {config : Option IndicatorsConfig} {cs : List BarsCall}
    (hinserts : ∀ call ∈ cs, ∃ n d f, call = .insertData n d f)
    (hrun : (history t₀).run (.new none res config) cs = some h') :
    ∃ h, (history t₀).run (.new (some R) res config) cs = some h ∧
      h.bars.data.entries = h'.bars.data.entries.drop (h'.bars.data.size - R) ∧
        h.bars.lastFinalizedTimestamp = h'.bars.lastFinalizedTimestamp := by
  obtain ⟨h, hrun', hr⟩ := (new_retainsHistory t₀ hR res config).run hR ht hinserts hrun
  exact ⟨h, hrun', hr.retains.entries, hr.retains.frontier⟩

/-- A block and a padded gap, with and without a retention of 21 bars. -/
theorem history_retention_of_gap : ∃ h h',
    (history 5998).run (.new (some 21) .fiveMinutes (some .all))
      [.insertData 0 unitTick none, .insertData 3 unitTick (some 5700)] = some h ∧
    (history 5998).run (.new none .fiveMinutes (some .all))
      [.insertData 0 unitTick none, .insertData 3 unitTick (some 5700)] = some h' ∧
    h.bars.data.entries = h'.bars.data.entries.drop (h'.bars.data.size - 21) := by
  obtain ⟨h', hrun'⟩ : ∃ h', (history 5998).run (.new none .fiveMinutes (some .all))
      [.insertData 0 unitTick none, .insertData 3 unitTick (some 5700)] = some h' := ⟨_, rfl⟩
  have hinserts : ∀ call ∈ [BarsCall.insertData 0 unitTick none,
      .insertData 3 unitTick (some 5700)], ∃ n d f, call = .insertData n d f := by
    intro call hc
    rcases List.mem_cons.mp hc with rfl | hc
    · exact ⟨_, _, _, rfl⟩
    · exact ⟨_, _, _, List.mem_singleton.mp hc⟩
  obtain ⟨h, hrun, hentries, -⟩ :=
    history_retention (R := 21) le_rfl (by decide) hinserts hrun'
  exact ⟨h, h', hrun, hrun', hentries⟩

end TimePriceBars

end Pochtecatl
