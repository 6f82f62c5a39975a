import Pochtecatl.BarsHistory
import Pochtecatl.EmaBounds

namespace Pochtecatl

open Indicators

/-- The aggregate closes at a close of its ticks. -/
theorem TickData.exists_close_of_reduce {ticks : List TickData} {agg : TickData}
    (h : reduce ticks = some agg) : ∃ tick ∈ ticks, agg.close = tick.close := by
  rcases List.eq_nil_or_concat ticks with rfl | ⟨l, tick, rfl⟩
  · cases h
  · rw [List.concat_eq_append] at h ⊢
    exact ⟨tick, List.mem_append_right l (List.mem_singleton_self tick), reduce_close_of_append h⟩

namespace TimePriceBar

variable {lo hi : Int}

/-- The bar has a close, and its ticks close between `lo` and `hi`. -/
def Priced (lo hi : Int) (bar : TimePriceBar) : Prop :=
  (∃ tick, bar.data = some tick ∧ Between lo hi tick.close.raw) ∧
    ∀ p, bar = pending p → ∀ k tick, p.blockPriceBars.get? k = some tick →
      Between lo hi tick.close.raw

theorem Priced.close {bar : TimePriceBar} (h : bar.Priced lo hi) :
    Between lo hi bar.close.raw := by
  obtain ⟨tick, ht, hc⟩ := h.1
  rwa [TimePriceBar.close, ht, Option.map_some, Option.getD_some]

theorem Priced.withBlocks {blocks : OrdMap Nat TickData}
    (hne : ∃ k tick, blocks.get? k = some tick)
    (hall : ∀ k tick, blocks.get? k = some tick → Between lo hi tick.close.raw) :
    (pending (.withBlocks blocks)).Priced lo hi := by
  constructor
  · obtain ⟨k, tick, hk⟩ := hne
    obtain ⟨agg, hagg⟩ : ∃ agg, TickData.reduce blocks.values = some agg := by
      refine Option.ne_none_iff_exists'.mp fun hnone => ?_
      rw [TickData.reduce_eq_none_iff] at hnone
      exact List.ne_nil_of_mem (OrdMap.mem_values_iff.mpr ⟨k, hk⟩) hnone
    obtain ⟨last, hlast, hclose⟩ := TickData.exists_close_of_reduce hagg
    obtain ⟨k', hk'⟩ := OrdMap.mem_values_iff.mp hlast
    refine ⟨agg, hagg, ?_⟩
    rw [hclose]
    exact hall k' last hk'
  · intro p hp
    cases hp
    exact hall

theorem Priced.settle {bar : TimePriceBar} (h : bar.Priced lo hi) : bar.settle.Priced lo hi := by
  obtain ⟨⟨tick, ht, hc⟩, hblocks⟩ := h
  have hdata : bar.settle.data = bar.data := congrArg Prod.fst bar.summary_settle
  refine ⟨⟨tick, hdata.trans ht, hc⟩, fun p hp => ?_⟩
  cases bar with
  | finalized f => cases hp
  | pending q =>
    cases hf : q.asFinalized with
    | none =>
      refine hblocks p ?_
      rw [← hp, TimePriceBar.settle, hf]
      rfl
    | some f =>
      rw [settle_of_asFinalized hf] at hp
      cases hp

theorem priced_barRule (lo hi : Int) : TimePriceBars.BarRule fun _ bar => bar.Priced lo hi where
  content := by
    intro key bar bar' hc h
    have hdata : bar'.data = bar.data := by
      rw [← data_content, hc, data_content]
    refine ⟨hdata ▸ h.1, fun p hp => ?_⟩
    subst hp
    cases bar with
    | finalized f => cases hc
    | pending q =>
      injection hc with hc
      injection hc with _ _ hblocks
      rw [hblocks]
      exact h.2 q rfl
  cut := by
    intro key r bar bar' hc h
    rcases cut_cases hc with rfl | ⟨p, s, e, rfl, hs, -, hsr, -, rfl⟩
    · exact h
    · have hpop : p.blockPriceBars.popLastWhile (r ≤ ·) = p.blockPriceBars.filterKeys (· < r) :=
        PendingTimePriceBar.blockPriceBars_pruneToReorgedBlockNumber p r
      obtain ⟨tick, ht⟩ := (PendingTimePriceBar.startBlockNumber_eq_some_iff.mp hs).1
      rw [PendingTimePriceBar.pruneToReorgedBlockNumber, hpop]
      refine Priced.withBlocks ⟨s, tick, ?_⟩ fun k t hk => ?_
      · rw [OrdMap.get?_filterKeys, if_pos (decide_eq_true hsr), ht]
      · rw [OrdMap.get?_filterKeys] at hk
        split at hk
        next => exact h.2 p rfl k t hk
        next => cases hk

end TimePriceBar

namespace TimePriceBars

open ResolutionTimestamp

variable {t₀ n r next key : Nat} {d : TickData} {f : Option Nat} {lo hi : Int}
  {x y x' : TimePriceBars}

theorem Priced.lastBlock (h : AllBars (fun _ bar => bar.Priced lo hi) x) {b : Nat}
    {tick : TickData} (hl : x.lastBlock = some (b, tick)) : Between lo hi tick.close.raw := by
  obtain ⟨⟨key, bar⟩, hlast, hb⟩ := Option.bind_eq_some_iff.mp hl
  have hbar := h key bar (OrdMap.lastEntry_eq_some_iff.mp hlast).1
  cases bar with
  | pending p => exact hbar.2 p rfl b tick (OrdMap.lastEntry_eq_some_iff.mp hb).1
  | finalized g =>
    cases hb
    obtain ⟨tick, ht, hc⟩ := hbar.1
    cases ht
    exact hc

/-- The bar of the bucket, if there is one, has an EMA between `lo` and `hi`, which is the one
computed from the bar before it, if that is still there. -/
def EmaAt (lo hi : Int) (bars : TimePriceBars) (key : Nat) : Prop :=
  ∀ bar, bars.data.get? key = some bar → 5700 ≤ key ∧ ∃ i, bar.indicators = some i ∧
    Between lo hi i.ema.1.raw ∧
      ∀ prevBar, bars.data.get? (previous key bars.resolution) = some prevBar →
        i.ema = emaAt key bars.resolution bars.data

theorem previous_eq {res : Resolution} (h : 5700 ≤ key) : previous key res = key - 300 := by
  have hoffset : res.offset = 300 := by
    cases res
    rfl
  rw [previous, hoffset, wrappingSub_of_le (by omega)]

theorem emaAt_of_absent (h : x.data.get? key = none) : x.EmaAt lo hi key := by
  intro bar hg
  rw [h] at hg
  cases hg

theorem close_eq_of_summary {bar bar' : TimePriceBar} (h : bar'.summary = bar.summary) :
    bar'.close = bar.close := by
  have hdata : bar'.data = bar.data := congrArg Prod.fst h
  rw [TimePriceBar.close, TimePriceBar.close, hdata]

theorem prevEma_eq_of_summary {bar bar' : TimePriceBar} (h : bar'.summary = bar.summary) :
    prevEma bar' = prevEma bar := by
  have hindicators : bar'.indicators = bar.indicators := congrArg Prod.snd h
  rw [prevEma, prevEma, hindicators, close_eq_of_summary h]

/-- What is stored of an EMA holds while the bar and the one before it keep their data and
indicators, or the one before it goes. -/
theorem EmaAt.congr (h : x.EmaAt lo hi key) (hres : y.resolution = x.resolution)
    (hkey : ∀ bar', y.data.get? key = some bar' → ∃ bar, x.data.get? key = some bar ∧
      bar'.summary = bar.summary)
    (hprev : ∀ prev', y.data.get? (previous key x.resolution) = some prev' →
      ∃ prev, x.data.get? (previous key x.resolution) = some prev ∧ prev'.summary = prev.summary) :
    y.EmaAt lo hi key := by
  intro bar' hg'
  obtain ⟨bar, hg, hsummary⟩ := hkey bar' hg'
  obtain ⟨hwarm, i, hi, hbetween, hema⟩ := h bar hg
  have hindicators : bar'.indicators = bar.indicators := congrArg Prod.snd hsummary
  refine ⟨hwarm, i, hindicators.trans hi, hbetween, fun prev' hp' => ?_⟩
  rw [hres] at hp' ⊢
  obtain ⟨prev, hp, hprevSummary⟩ := hprev prev' hp'
  rw [hema prev hp, emaAt_of_prev hg hp, emaAt_of_prev hg' hp', close_eq_of_summary hsummary,
    prevEma_eq_of_summary hprevSummary]

theorem compute_ema {ts : Nat} {res : Resolution} {data : Bars} {config : IndicatorsConfig}
    {i : Indicators} (h : Indicators.compute ts res data config = some i) :
    i.ema = emaAt ts res data := by
  obtain ⟨bands, -, hi⟩ := Option.bind_eq_some_iff.mp h
  cases hi
  rfl

/-- An EMA computed over priced bars is exact and in range. -/
theorem emaAt_between (hlo : 0 ≤ lo) (hhi : hi < 2 ^ 127)
    (hpriced : AllBars (fun _ bar => bar.Priced lo hi) x)
    (hprev : x.EmaAt lo hi (previous key x.resolution)) {bar : TimePriceBar}
    (hg : x.data.get? key = some bar) :
    EmaExact key x.resolution x.data ∧ Between lo hi (emaAt key x.resolution x.data).1.raw := by
  have hclose := (hpriced key bar hg).close
  cases hp : x.data.get? (previous key x.resolution) with
  | none =>
    refine ⟨fun bar' hg' => ?_, ?_⟩
    · rw [hg] at hg'
      cases hg'
      refine ⟨raw_close hhi hclose, fun prevBar hp' => ?_⟩
      rw [hp] at hp'
      cases hp'
    · rw [emaAt_of_no_prev hg hp, raw_close hhi hclose]
      exact hclose
  | some prevBar =>
    obtain ⟨-, j, hj, hbetween, -⟩ := hprev prevBar hp
    have hema : prevEma prevBar = j.ema.1 := by
      rw [prevEma, hj]
      rfl
    obtain ⟨hexact, hstep, -⟩ := emaStep_spec hlo hhi hclose (hema ▸ hbetween)
    refine ⟨fun bar' hg' => ?_, ?_⟩
    · rw [hg] at hg'
      cases hg'
      refine ⟨raw_close hhi hclose, fun prevBar' hp' => ?_⟩
      rw [hp] at hp'
      cases hp'
      exact ⟨raw_close hhi (hpriced _ prevBar hp).close, hexact⟩
    · rw [emaAt_of_prev hg hp]
      exact hstep

/-- A new bar above a bucket leaves its EMA. -/
theorem EmaAt.insert (h : x.EmaAt lo hi key) {t : Nat} (hlt : key < t) (bar : TimePriceBar) :
    EmaAt lo hi { x with data := x.data.insert t bar } key := by
  cases hg : x.data.get? key with
  | none =>
    refine emaAt_of_absent ?_
    rw [← hg]
    exact OrdMap.get?_insert_ne hlt.ne
  | some keyBar =>
    have hwarm := (h keyBar hg).1
    have hprev : previous key x.resolution < t := by
      rw [previous_eq hwarm]
      omega
    refine h.congr rfl (fun bar' hg' => ?_) fun prev' hp' => ?_
    · rw [OrdMap.get?_insert_ne hlt.ne] at hg'
      exact ⟨bar', hg', rfl⟩
    · rw [OrdMap.get?_insert_ne hprev.ne] at hp'
      exact ⟨prev', hp', rfl⟩

/-- Recomputing a bucket above buckets with EMAs is exact and stores an EMA. -/
theorem updateIndicators_ema (hlo : 0 ≤ lo) (hhi : hi < 2 ^ 127) {config : IndicatorsConfig}
    (h : updateIndicators key config x = .ok () x')
    (hpriced : AllBars (fun _ bar => bar.Priced lo hi) x)
    (hbelow : ∀ k, k < key → x.EmaAt lo hi k) :
    EmaExact key x.resolution x.data ∧ ∀ k, k ≤ key → x'.EmaAt lo hi k := by
  obtain ⟨i, bar, hcomputed, hg, rfl⟩ := updateIndicators_eq_ok h
  have hwarm : 5700 ≤ key := by
    refine (@Indicators.compute_isSome_iff key x.resolution x.data config).mp ?_
    rw [hcomputed]
    rfl
  have hlt : previous key x.resolution < key := by
    rw [previous_eq hwarm]
    omega
  obtain ⟨hexact, hbetween⟩ := emaAt_between hlo hhi hpriced (hbelow _ hlt) hg
  refine ⟨hexact, fun k hle => ?_⟩
  rcases hle.lt_or_eq with hk | rfl
  · exact (hbelow k hk).insert hk _
  intro bar' hg'
  rw [OrdMap.get?_insert_self] at hg'
  cases hg'
  refine ⟨hwarm, i, rfl, ?_, fun prevBar hp => ?_⟩
  · rw [compute_ema hcomputed]
    exact hbetween
  · have hp' : x.data.get? (previous k x.resolution) = some prevBar := by
      rw [← hp]
      exact (OrdMap.get?_insert_ne hlt.ne).symm
    rw [compute_ema hcomputed, emaAt_of_prev hg hp',
      emaAt_of_prev (OrdMap.get?_insert_self _ _ _) hp]
    rfl

/-- The updates of a call, from the lowest bucket on, are exact and store EMAs. -/
theorem updateAll_ema (hlo : 0 ≤ lo) (hhi : hi < 2 ^ 127) {config : IndicatorsConfig}
    {l : List Nat} (hl : l.Pairwise (· ≤ ·))
    (hpriced : AllBars (fun _ bar => bar.Priced lo hi) x)
    (hkept : ∀ key, key ∉ l → x.EmaAt lo hi key)
    (habove : ∀ key, key ∉ l → (∃ t ∈ l, t < key) → x.data.get? key = none)
    (h : updateAll config l x = .ok () x') :
    (∀ key, x'.EmaAt lo hi key) ∧ ∀ done ts rest mid, l = done ++ ts :: rest →
      updateAll config done x = .ok () mid → EmaExact ts x.resolution mid.data := by
  have hsame : ∀ t bars bars', updateIndicators t config bars = .ok () bars' →
      SameContent bars bars' := by
    intro t bars bars' hu
    have hcontent := updateIndicators_sameContent t config bars
    rwa [hu] at hcontent
  have hstep : ∀ t bars bars', (bars.resolution = x.resolution ∧
      AllBars (fun _ bar => bar.Priced lo hi) bars) → updateIndicators t config bars = .ok () bars' →
      (∀ key, key < t → bars.EmaAt lo hi key) → (bars'.resolution = x.resolution ∧
        AllBars (fun _ bar => bar.Priced lo hi) bars') ∧ ∀ key, key ≤ t → bars'.EmaAt lo hi key := by
    intro t bars bars' hI hu hbelow
    refine ⟨⟨(hsame t bars bars' hu).resolution.trans hI.1, ?_⟩, ?_⟩
    · exact hI.2.of_sameContent (TimePriceBar.priced_barRule lo hi) (hsame t bars bars' hu)
    · exact (updateIndicators_ema hlo hhi hu hI.2 hbelow).2
  obtain ⟨hemas, hsplits⟩ := updateAll_induct (fun bars key => emaAt_of_absent) hstep hl
    ⟨rfl, hpriced⟩ h hkept habove
  refine ⟨hemas, fun done ts rest mid hsplit hdone => ?_⟩
  obtain ⟨⟨hres, hmid⟩, hbelow, next, hu⟩ := hsplits done ts rest mid hsplit hdone
  rw [← hres]
  exact (updateIndicators_ema hlo hhi hu hmid hbelow).1

end TimePriceBars

end Pochtecatl
