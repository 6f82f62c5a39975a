import Pochtecatl.LastBlock

namespace Pochtecatl

namespace TimePriceBar

/-- What the indicators of a bar and of later bars are computed from. -/
def summary (bar : TimePriceBar) : Option TickData × Option Indicators := (bar.data, bar.indicators)

theorem summary_settle (bar : TimePriceBar) : bar.settle.summary = bar.summary := by
  cases bar with
  | finalized f => rfl
  | pending p =>
    cases hf : p.asFinalized with
    | none => simp [settle, hf]
    | some f =>
      obtain ⟨-, -, hd, hi⟩ := PendingTimePriceBar.asFinalized_eq_some_iff.mp hf
      rw [settle_of_asFinalized hf]
      simp only [summary, data, indicators, hd, hi]

end TimePriceBar

namespace TimePriceBars

open ResolutionTimestamp

/-- The indicators that the bars give a bucket now. -/
def computed (bars : TimePriceBars) (key : Nat) : Option Indicators :=
  bars.indicatorsConfig.bind fun config => Indicators.compute key bars.resolution bars.data config

/-- The bar of the bucket, if there is one, has up-to-date indicators. -/
def FreshAt (bars : TimePriceBars) (key : Nat) : Prop :=
  ∀ bar, bars.data.get? key = some bar →
    bar.indicators = bars.computed key ∧ (bars.indicatorsConfig.isSome → 5700 ≤ key)

def Fresh (bars : TimePriceBars) : Prop := ∀ key, bars.FreshAt key

theorem new_fresh (rc : Option Nat) (res : Resolution) (config : Option IndicatorsConfig) :
    Fresh (.new rc res config) := by
  intro key bar hk
  cases hk

theorem freshAt_of_absent {bars : TimePriceBars} {key : Nat} (h : bars.data.get? key = none) :
    bars.FreshAt key := by
  intro bar hk
  rw [h] at hk
  cases hk

theorem computed_congr {bars bars' : TimePriceBars} {key : Nat} (hs : SameSettings bars bars')
    (hdata : ∀ k, k ≤ key →
      (bars'.data.get? k).map TimePriceBar.data = (bars.data.get? k).map TimePriceBar.data)
    (hind : ∀ k, k < key →
      (bars'.data.get? k).map TimePriceBar.indicators =
        (bars.data.get? k).map TimePriceBar.indicators) :
    bars'.computed key = bars.computed key := by
  have hc : ∀ config, Indicators.compute key bars.resolution bars'.data config =
      Indicators.compute key bars.resolution bars.data config := fun config =>
    Indicators.compute_congr hdata hind
  simp only [computed, hs.indicatorsConfig, hs.resolution, hc]

theorem FreshAt.congr {bars bars' : TimePriceBars} {key : Nat} (h : bars.FreshAt key)
    (hs : SameSettings bars bars')
    (hsummary : ∀ k, k ≤ key → (bars'.data.get? k).map TimePriceBar.summary =
      (bars.data.get? k).map TimePriceBar.summary) : bars'.FreshAt key := by
  have hdata : ∀ k, k ≤ key →
      (bars'.data.get? k).map TimePriceBar.data = (bars.data.get? k).map TimePriceBar.data := by
    intro k hk
    have hm := congrArg (Option.map Prod.fst) (hsummary k hk)
    rw [Option.map_map, Option.map_map] at hm
    exact hm
  have hind : ∀ k, k ≤ key → (bars'.data.get? k).map TimePriceBar.indicators =
      (bars.data.get? k).map TimePriceBar.indicators := by
    intro k hk
    have hm := congrArg (Option.map Prod.snd) (hsummary k hk)
    rw [Option.map_map, Option.map_map] at hm
    exact hm
  intro bar' hk
  have hi := hind key le_rfl
  rw [hk] at hi
  obtain ⟨bar, hg, he⟩ := Option.map_eq_some_iff.mp hi.symm
  obtain ⟨hfresh, hwarm⟩ := h bar hg
  rw [computed_congr hs hdata fun k hlt => hind k hlt.le, hs.indicatorsConfig, ← hfresh]
  exact ⟨he.symm, hwarm⟩

/-- Recomputed indicators are those that the new bars give. -/
theorem updateIndicators_computed {ts : Nat} {config : IndicatorsConfig}
    {bars bars' : TimePriceBars} {bar' : TimePriceBar}
    (hc : bars.indicatorsConfig = some config) (h : updateIndicators ts config bars = .ok () bars')
    (hg : bars'.data.get? ts = some bar') : bar'.indicators = bars'.computed ts ∧ 5700 ≤ ts := by
  obtain ⟨i, bar, hi, hb, rfl⟩ := updateIndicators_eq_ok h
  have hdata : ∀ k, k ≤ ts → ((bars.data.insert ts (.pending (bar.setIndicators i))).get? k).map
      TimePriceBar.data = (bars.data.get? k).map TimePriceBar.data := by
    intro k _
    rw [OrdMap.get?_insert]
    split
    next hk => rw [hk, hb]; rfl
    next => rfl
  have hind : ∀ k, k < ts → ((bars.data.insert ts (.pending (bar.setIndicators i))).get? k).map
      TimePriceBar.indicators = (bars.data.get? k).map TimePriceBar.indicators := fun k hk => by
    rw [OrdMap.get?_insert_ne hk.ne]
  rw [OrdMap.get?_insert_self] at hg
  cases Option.some.inj hg
  have hcomputed : computed { bars with
      data := bars.data.insert ts (.pending (bar.setIndicators i)) } ts = bars.computed ts :=
    computed_congr ⟨rfl, rfl, rfl⟩ hdata hind
  rw [hcomputed]
  refine ⟨?_, ?_⟩
  · rw [computed, hc, Option.bind_some, hi]
    rfl
  · refine (@Indicators.compute_isSome_iff ts bars.resolution bars.data config).mp ?_
    rw [hi]
    rfl

/-- Recomputing the indicators of a bucket above fresh ones makes it fresh. -/
theorem updateIndicators_fresh {ts : Nat} {config : IndicatorsConfig} {bars bars' : TimePriceBars}
    (hc : bars.indicatorsConfig = some config) (h : updateIndicators ts config bars = .ok () bars')
    (hbelow : ∀ key, key < ts → bars.FreshAt key) : ∀ key, key ≤ ts → bars'.FreshAt key := by
  intro key hle
  by_cases hkey : key = ts
  · intro bar hg
    rw [hkey] at hg ⊢
    obtain ⟨hi, hwarm⟩ := updateIndicators_computed hc h hg
    exact ⟨hi, fun _ => hwarm⟩
  · obtain ⟨i, bar, -, -, rfl⟩ := updateIndicators_eq_ok h
    refine (hbelow key (by omega)).congr ⟨rfl, rfl, rfl⟩ fun k hk => ?_
    rw [OrdMap.get?_insert_ne (by omega)]

/-- The updates of a call, from the lowest bucket on: what an update gives its bucket from
the buckets below holds of every bucket in the end. -/
theorem updateAll_induct {I : TimePriceBars → Prop} {P : TimePriceBars → Nat → Prop}
    {config : IndicatorsConfig} (habsent : ∀ bars key, bars.data.get? key = none → P bars key)
    (hstep : ∀ t bars bars', I bars → updateIndicators t config bars = .ok () bars' →
      (∀ key, key < t → P bars key) → I bars' ∧ ∀ key, key ≤ t → P bars' key)
    {l : List Nat} (hl : l.Pairwise (· ≤ ·)) {bars bars' : TimePriceBars} (hI : I bars)
    (h : updateAll config l bars = .ok () bars') (hkept : ∀ key, key ∉ l → P bars key)
    (habove : ∀ key, key ∉ l → (∃ t ∈ l, t < key) → bars.data.get? key = none) :
    (∀ key, P bars' key) ∧ ∀ done t rest mid, l = done ++ t :: rest →
      updateAll config done bars = .ok () mid → I mid ∧ (∀ key, key < t → P mid key) ∧
        ∃ next, updateIndicators t config mid = .ok () next := by
  induction l generalizing bars with
  | nil =>
    cases h
    exact ⟨fun key => hkept key List.not_mem_nil, fun done t rest mid hsplit => by simp at hsplit⟩
  | cons t l ih =>
    obtain ⟨ht, hl⟩ := List.pairwise_cons.mp hl
    obtain ⟨u, next, hu, hrest⟩ := EStateM.bind_eq_ok.mp h
    have hbelow : ∀ key, key < t → P bars key := by
      intro key hlt
      refine hkept key fun hm => ?_
      rcases List.mem_cons.mp hm with rfl | hm
      · exact lt_irrefl _ hlt
      · exact absurd (ht key hm) (by omega)
    obtain ⟨hINext, hupTo⟩ := hstep t bars next hI hu hbelow
    -- above the bucket of the update there are only buckets still to update
    have hout : ∀ key, key ∉ l → t < key → next.data.get? key = none := by
      intro key hm hlt
      obtain ⟨i, bar, -, -, rfl⟩ := updateIndicators_eq_ok hu
      rw [OrdMap.get?_insert_ne hlt.ne']
      refine habove key ?_ ⟨t, List.mem_cons_self, hlt⟩
      exact fun h => (List.mem_cons.mp h).elim (fun he => lt_irrefl _ (he ▸ hlt)) hm
    have hkeptNext : ∀ key, key ∉ l → P next key := by
      intro key hm
      by_cases hle : key ≤ t
      · exact hupTo key hle
      · exact habsent next key (hout key hm (by omega))
    have haboveNext : ∀ key, key ∉ l → (∃ t' ∈ l, t' < key) → next.data.get? key = none := by
      rintro key hm ⟨t', ht', hlt⟩
      have hle := ht t' ht'
      exact hout key hm (by omega)
    obtain ⟨hall, hsplits⟩ := ih hl hINext hrest hkeptNext haboveNext
    refine ⟨hall, fun done t' rest mid hsplit hdone => ?_⟩
    cases done with
    | nil =>
      cases hsplit
      cases hdone
      exact ⟨hI, hbelow, next, hu⟩
    | cons t' done =>
      injection hsplit with hhead hsplit
      subst hhead
      obtain ⟨u', next', hu', hdone⟩ := EStateM.bind_eq_ok.mp hdone
      rw [hu] at hu'
      cases hu'
      exact hsplits done _ rest mid hsplit hdone

theorem updateAll_fresh {config : IndicatorsConfig} {l : List Nat} {bars bars' : TimePriceBars}
    (hl : l.Pairwise (· ≤ ·)) (hc : bars.indicatorsConfig = some config)
    (h : updateAll config l bars = .ok () bars')
    (hfresh : ∀ key, key ∉ l → bars.FreshAt key)
    (habove : ∀ key, key ∉ l → (∃ t ∈ l, t < key) → bars.data.get? key = none) : bars'.Fresh := by
  refine (updateAll_induct (I := fun bars => bars.indicatorsConfig = some config)
    (fun bars key => freshAt_of_absent) (fun t bars bars' hc hu hbelow => ⟨?_, ?_⟩) hl hc h hfresh
    habove).1
  · obtain ⟨i, bar, -, -, rfl⟩ := updateIndicators_eq_ok hu
    exact hc
  · exact updateIndicators_fresh hc hu hbelow

theorem updateTouched_fresh {config : Option IndicatorsConfig} {touched : List Nat}
    {bars bars' : TimePriceBars} (hl : touched.Pairwise (· ≤ ·))
    (h : updateTouched config touched bars = .ok () bars') (hc : bars.indicatorsConfig = config)
    (hnew : ∀ key ∈ touched, ∀ bar, bars.data.get? key = some bar → bar.indicators = none)
    (hfresh : ∀ key, key ∉ touched → bars.FreshAt key)
    (habove : ∀ key, key ∉ touched → (∃ t ∈ touched, t < key) → bars.data.get? key = none) :
    bars'.Fresh := by
  cases config with
  | some config => exact updateAll_fresh hl hc h hfresh habove
  | none =>
    cases h
    intro key
    by_cases hm : key ∈ touched
    · intro bar hk
      rw [computed, hc]
      exact ⟨hnew key hm bar hk, fun h => by cases h⟩
    · exact hfresh key hm

theorem finalizeUpTo_fresh {f : Option Nat} {bars bars' : TimePriceBars} (hfresh : bars.Fresh)
    (h : finalizeUpTo f bars = .ok () bars') : bars'.Fresh := by
  have hstate := finalizeUpTo_state f bars
  rw [h] at hstate
  refine fun key => (hfresh key).congr (finalizeUpTo_ok_settings h) fun k _ => ?_
  rcases hstate k with hk | ⟨-, hk⟩
  · exact congrArg _ hk
  · have hsettle : TimePriceBar.summary ∘ TimePriceBar.settle = TimePriceBar.summary :=
      funext TimePriceBar.summary_settle
    rw [show bars'.data.get? k = _ from hk, Option.map_map, hsettle]

/-- The last block stands at or above the bucket of every bar. -/
theorem key_le_lastBlock {t₀ : Nat} {bars : TimePriceBars}
    (h : AllBars (NotEarly t₀ bars.resolution) bars) {key : Nat} {bar : TimePriceBar}
    (hk : bars.data.get? key = some bar) :
    ∃ b tick, bars.lastBlock = some (b, tick) ∧ key ≤ blockBucket t₀ bars.resolution b := by
  cases hl : bars.data.lastEntry with
  | none =>
    rw [OrdMap.lastEntry_eq_none_iff.mp hl key] at hk
    cases hk
  | some last =>
    obtain ⟨lastKey, lastBar⟩ := last
    obtain ⟨hget, hmax⟩ := OrdMap.lastEntry_eq_some_iff.mp hl
    obtain ⟨b, tick, hb, hh, -⟩ := exists_lastBlock hl (h _ _ hget).1
    exact ⟨b, tick, hb, (hmax key bar hk).trans ((h _ _ hget).2 b hh)⟩

/-- The stages of a successful call that retains every bar. -/
theorem insertData_ok_of_retaining {n : Nat} {d : TickData} {bts : Nat} {f : Option Nat}
    {bars bars' : TimePriceBars} (hretention : bars.retentionCount = none)
    (h : insertData n d bts f bars = .ok () bars') :
    ∃ padded paddedBars inserted updated,
      padMissing n bts bars = .ok padded paddedBars ∧
      insertBlock n d bts (fromTimestamp bts bars.resolution) paddedBars = .ok () inserted ∧
      updateTouched bars.indicatorsConfig (padded ++ [fromTimestamp bts bars.resolution])
        inserted = .ok () updated ∧
      finalizeUpTo f updated = .ok () bars' := by
  obtain ⟨padded, paddedBars, inserted, updated, hp, hi, hu, hf⟩ := insertData_ok h
  have hkeep : inserted.retentionCount = none := by
    obtain ⟨bar, -, -, rfl⟩ := insertBlock_ok hi
    rcases padMissing_cases n bts bars with ⟨he, -⟩ | ⟨b, tick, padBar, -, -, -, he⟩
    · rw [he] at hp
      cases hp
      exact hretention
    · rw [he] at hp
      cases hp
      exact hretention
  rw [pruneToRetentionCount_of_none hkeep] at hu
  exact ⟨padded, paddedBars, inserted, updated, hp, hi, hu, hf⟩

/-- The buckets whose indicators an insert recomputes, in order. Above the lowest of them there
is no other bar. -/
structure Touches (touched : List Nat) (bars inserted : TimePriceBars) : Prop where
  sorted : touched.Pairwise (· ≤ ·)
  cleared : ∀ key ∈ touched, ∀ bar, inserted.data.get? key = some bar → bar.indicators = none
  kept : ∀ key, key ∉ touched → inserted.data.get? key = bars.data.get? key
  above : ∀ key, key ∉ touched → (∃ t ∈ touched, t < key) → inserted.data.get? key = none

/-- What an insert past the last block makes of the bars before the indicators. -/
theorem insertBlock_touches {t₀ n : Nat} {d : TickData} {padded : List Nat}
    {bars paddedBars inserted : TimePriceBars}
    (hearly : AllBars (NotEarly t₀ bars.resolution) bars)
    (hlast : ∀ b tick, bars.lastBlock = some (b, tick) → b < n)
    (hp : padMissing n (blockTime t₀ n) bars = .ok padded paddedBars)
    (hi : insertBlock n d (blockTime t₀ n) (blockBucket t₀ bars.resolution n) paddedBars =
      .ok () inserted) :
    Touches (padded ++ [blockBucket t₀ bars.resolution n]) bars inserted ∧
      inserted = { bars with data := inserted.data } := by
  obtain ⟨bar, -, -, rfl⟩ := insertBlock_ok hi
  rcases padMissing_cases n (blockTime t₀ n) bars with
    ⟨he, -⟩ | ⟨b, tick, padBar, hl, hlt, -, he⟩
  · rw [he] at hp
    injection hp with hpadded hbars
    subst hpadded hbars
    have habsent : ∀ key, blockBucket t₀ bars.resolution n < key → bars.data.get? key = none := by
      intro key hlt
      refine Option.eq_none_iff_forall_ne_some.mpr fun bar' hk => ?_
      obtain ⟨b, tick, hb, hle⟩ := key_le_lastBlock hearly hk
      have hmono : blockBucket t₀ bars.resolution b ≤ blockBucket t₀ bars.resolution n :=
        blockBucket_mono (hlast b tick hb).le
      omega
    refine ⟨⟨List.pairwise_singleton .., ?_, ?_, ?_⟩, rfl⟩
    · intro key hm bar' hk
      cases List.mem_singleton.mp hm
      rw [OrdMap.get?_insert_self] at hk
      cases hk
      rfl
    · intro key hm
      exact OrdMap.get?_insert_ne fun he => hm (List.mem_singleton.mpr he)
    · intro key hm ⟨t, ht, hlt⟩
      cases List.mem_singleton.mp ht
      rw [OrdMap.get?_insert_ne hlt.ne']
      exact habsent key hlt
  · rw [he] at hp
    injection hp with hpadded hbars
    subst hpadded hbars
    rw [padTarget_blockTime (hlast b tick hl).le]
    have hle : blockBucket t₀ bars.resolution b ≤ blockBucket t₀ bars.resolution n :=
      blockBucket_mono (hlast b tick hl).le
    have habsent : ∀ key, blockBucket t₀ bars.resolution b < key → bars.data.get? key = none := by
      intro key hlt
      refine Option.eq_none_iff_forall_ne_some.mpr fun bar' hk => ?_
      obtain ⟨b', tick', hb, hle⟩ := key_le_lastBlock hearly hk
      obtain ⟨rfl, -⟩ : b = b' ∧ tick = tick' := by simpa [hl] using hb
      omega
    have hmem : ∀ key, key ∈ [blockBucket t₀ bars.resolution b] ++
        [blockBucket t₀ bars.resolution n] ↔
          key = blockBucket t₀ bars.resolution b ∨ key = blockBucket t₀ bars.resolution n := by
      simp
    refine ⟨⟨by simpa using hle, ?_, ?_, ?_⟩, rfl⟩
    · intro key hm bar' hk
      simp only [OrdMap.get?_insert] at hk
      split at hk
      next => cases hk; rfl
      next hN =>
        split at hk
        next => cases hk; rfl
        next hT =>
          exact absurd ((hmem key).mp hm) (by tauto)
    · intro key hm
      have hne := fun h => hm ((hmem key).mpr h)
      rw [OrdMap.get?_insert_ne fun h => hne (Or.inr h),
        OrdMap.get?_insert_ne fun h => hne (Or.inl h)]
    · intro key hm ⟨t, ht, hlt⟩
      have hne := fun h => hm ((hmem key).mpr h)
      have hT : blockBucket t₀ bars.resolution b < key := by
        rcases (hmem t).mp ht with rfl | rfl <;> omega
      rw [OrdMap.get?_insert_ne fun h => hne (Or.inr h), OrdMap.get?_insert_ne hT.ne']
      exact habsent key hT

/-- A completed insert past the last block leaves fresh indicators. -/
theorem insertData_fresh {t₀ n : Nat} {d : TickData} {f : Option Nat} {bars bars' : TimePriceBars}
    (hfresh : bars.Fresh) (hearly : AllBars (NotEarly t₀ bars.resolution) bars)
    (hretention : bars.retentionCount = none)
    (hlast : ∀ b tick, bars.lastBlock = some (b, tick) → b < n)
    (h : insertData n d (blockTime t₀ n) f bars = .ok () bars') : bars'.Fresh := by
  obtain ⟨padded, paddedBars, inserted, updated, hp, hi, hu, hf⟩ :=
    insertData_ok_of_retaining hretention h
  obtain ⟨htouches, hfields⟩ := insertBlock_touches hearly hlast hp hi
  refine finalizeUpTo_fresh (updateTouched_fresh htouches.sorted hu ?_ htouches.cleared
    (fun key hm => ?_) htouches.above) hf
  · rw [hfields]
  · by_cases habove : ∃ t ∈ padded ++ [blockBucket t₀ bars.resolution n], t < key
    · exact freshAt_of_absent (htouches.above key hm habove)
    · refine (hfresh key).congr (by rw [hfields]; exact ⟨rfl, rfl, rfl⟩) fun k hk => ?_
      rw [htouches.kept k fun hmk => ?_]
      rcases hk.lt_or_eq with hlt | rfl
      · exact habove ⟨k, hmk, hlt⟩
      · exact hm hmk

/-- Fresh but for the last bar, which was cut. -/
def FreshBut (bars : TimePriceBars) : Option Nat → Prop
  | none => bars.Fresh
  | some ts => (∀ key, key < ts → bars.FreshAt key) ∧
      (∀ key, ts < key → bars.data.get? key = none) ∧
      ∀ bar, bars.data.get? ts = some bar → bar.indicators = none

/-- The loop drops bars from the end, so what it leaves is fresh below the bar it cut. -/
theorem pruneLoop_fresh {r budget : Nat} {pruned : Option Nat} {bars bars' : TimePriceBars}
    (h : pruneLoop r budget none bars = .ok pruned bars') (hfresh : bars.Fresh) :
    bars'.FreshBut pruned := by
  induction budget generalizing bars with
  | zero => cases h
  | succ budget ih =>
    rcases pruneLoop_cases r budget none bars with
      ⟨-, he⟩ | ⟨ts, bar, hl, ⟨-, -, he⟩ | ⟨-, he⟩ | ⟨p, s, e, rfl, hs, -, hsr, -, he⟩ | ⟨-, he⟩ |
        ⟨f, -, -, he⟩⟩
    · rw [he] at h
      cases h
      exact hfresh
    · rw [he] at h
      cases h
    · rw [he] at h
      refine @ih { bars with data := bars.data.erase ts } h fun key => ?_
      by_cases hkey : key < ts
      · refine (hfresh key).congr ⟨rfl, rfl, rfl⟩ fun k hk => ?_
        rw [OrdMap.get?_erase, if_neg (by omega)]
      · refine freshAt_of_absent ?_
        rw [OrdMap.get?_erase]
        split
        next => rfl
        next hne => exact OrdMap.get?_of_lastEntry_lt hl (by omega)
    · rw [he] at h
      cases budget with
      | zero => cases h
      | succ budget =>
        rw [pruneLoop_after_cut hl hs hsr] at h
        cases h
        refine ⟨fun key hlt => ?_, fun key hlt => ?_, fun bar' hk => ?_⟩
        · refine (hfresh key).congr ⟨rfl, rfl, rfl⟩ fun k hk => ?_
          rw [OrdMap.get?_insert_ne (by omega)]
        · rw [OrdMap.get?_insert_ne hlt.ne']
          exact OrdMap.get?_of_lastEntry_lt hl hlt
        · rw [OrdMap.get?_insert_self] at hk
          cases hk
          rfl
    · rw [he] at h
      cases h
      exact hfresh
    · rw [he] at h
      cases h

theorem pruneToReorgedBlockNumber_fresh {r : Nat} {bars bars' : TimePriceBars}
    (hfresh : bars.Fresh) (h : pruneToReorgedBlockNumber r bars = .ok () bars') : bars'.Fresh := by
  obtain ⟨pruned, looped, hloop, hupdate⟩ := pruneToReorgedBlockNumber_ok h
  have hleft := pruneLoop_fresh hloop hfresh
  have hconfig := (pruneLoop_ok_settings hloop).indicatorsConfig
  cases pruned with
  | none =>
    refine updateTouched_fresh List.Pairwise.nil hupdate hconfig ?_ (fun key _ => hleft key) ?_
    · exact fun key hm => absurd hm List.not_mem_nil
    · exact fun key _ ⟨t, ht, _⟩ => absurd ht List.not_mem_nil
  | some ts =>
    obtain ⟨hbelow, habove, hnew⟩ := hleft
    refine updateTouched_fresh (List.pairwise_singleton ..) hupdate hconfig ?_ ?_ ?_
    · intro key hm bar hk
      cases List.mem_singleton.mp hm
      exact hnew bar hk
    · intro key hm
      have hne : key ≠ ts := fun he => hm (List.mem_singleton.mpr he)
      by_cases hkey : key < ts
      · exact hbelow key hkey
      · exact freshAt_of_absent (habove key (by omega))
    · intro key _ ⟨t, ht, hlt⟩
      cases List.mem_singleton.mp ht
      exact habove key hlt

/-- Fresh bars with the same content are the same bars. -/
theorem Fresh.data_eq {bars bars' : TimePriceBars} (h : bars.Fresh) (h' : bars'.Fresh)
    (hs : SameSettings bars bars') (hc : ∀ key, bars'.contentAt key = bars.contentAt key) :
    bars'.data = bars.data := by
  refine OrdMap.ext_get? fun key => ?_
  induction key using Nat.strongRecOn with
  | ind key ih =>
    have hdata : ∀ k, k ≤ key →
        (bars'.data.get? k).map TimePriceBar.data = (bars.data.get? k).map TimePriceBar.data := by
      intro k _
      have hk := congrArg (Option.map TimePriceBar.data) (hc k)
      have hcd : TimePriceBar.data ∘ TimePriceBar.content = TimePriceBar.data :=
        funext TimePriceBar.data_content
      rw [contentAt, contentAt, Option.map_map, Option.map_map, hcd] at hk
      exact hk
    have hcomputed := computed_congr hs hdata fun k hlt => congrArg _ (ih k hlt)
    have hkey := hc key
    unfold contentAt at hkey
    cases hg : bars.data.get? key with
    | none =>
      rw [hg] at hkey
      exact Option.map_eq_none_iff.mp hkey
    | some bar =>
      rw [hg] at hkey
      obtain ⟨bar', hg', he⟩ := Option.map_eq_some_iff.mp hkey
      rw [hg']
      refine congrArg some (TimePriceBar.eq_of_content_eq he ?_)
      rw [(h key bar hg).1, (h' key bar' hg').1, hcomputed]

end TimePriceBars

end Pochtecatl
