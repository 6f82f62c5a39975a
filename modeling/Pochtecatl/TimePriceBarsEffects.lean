import Pochtecatl.PadMissing
import Pochtecatl.StateResult

namespace Pochtecatl

/-- What finalization makes of a bar. -/
def TimePriceBar.settle : TimePriceBar → TimePriceBar
  | pending bar => (bar.asFinalized.map finalized).getD (pending bar)
  | finalized bar => finalized bar

theorem TimePriceBar.settle_of_asFinalized {bar : PendingTimePriceBar} {f : FinalizedTimePriceBar}
    (h : bar.asFinalized = some f) : (pending bar).settle = finalized f := by simp [settle, h]

namespace TimePriceBars

open ResolutionTimestamp

/-- The states agree up to the indicators of their bars. -/
structure SameContent (bars bars' : TimePriceBars) : Prop where
  resolution : bars'.resolution = bars.resolution
  retentionCount : bars'.retentionCount = bars.retentionCount
  indicatorsConfig : bars'.indicatorsConfig = bars.indicatorsConfig
  lastFinalizedTimestamp : bars'.lastFinalizedTimestamp = bars.lastFinalizedTimestamp
  content : ∀ k, (bars'.data.get? k).map TimePriceBar.content =
    (bars.data.get? k).map TimePriceBar.content

theorem SameContent.refl (bars : TimePriceBars) : SameContent bars bars :=
  ⟨rfl, rfl, rfl, rfl, fun _ => rfl⟩

theorem SameContent.trans {a b c : TimePriceBars} (h : SameContent a b) (h' : SameContent b c) :
    SameContent a c :=
  ⟨h'.resolution.trans h.resolution, h'.retentionCount.trans h.retentionCount,
    h'.indicatorsConfig.trans h.indicatorsConfig,
    h'.lastFinalizedTimestamp.trans h.lastFinalizedTimestamp,
    fun k => (h'.content k).trans (h.content k)⟩

theorem SameContent.exists_bar {bars bars' : TimePriceBars} (h : SameContent bars bars') {k : Nat}
    {bar' : TimePriceBar} (hk : bars'.data.get? k = some bar') :
    ∃ bar, bars.data.get? k = some bar ∧ bar'.content = bar.content := by
  have hc := h.content k
  rw [hk] at hc
  obtain ⟨bar, hb, he⟩ := Option.map_eq_some_iff.mp hc.symm
  exact ⟨bar, hb, he.symm⟩

theorem SameContent.symm {bars bars' : TimePriceBars} (h : SameContent bars bars') :
    SameContent bars' bars :=
  ⟨h.resolution.symm, h.retentionCount.symm, h.indicatorsConfig.symm,
    h.lastFinalizedTimestamp.symm, fun k => (h.content k).symm⟩

theorem updateIndicators_eq_ok {ts : Nat} {config : IndicatorsConfig} {bars bars' : TimePriceBars}
    (h : updateIndicators ts config bars = .ok () bars') :
    ∃ i bar, Indicators.compute ts bars.resolution bars.data config = some i ∧
      bars.data.get? ts = some (.pending bar) ∧
      bars' = { bars with data := bars.data.insert ts (.pending (bar.setIndicators i)) } := by
  unfold updateIndicators at h
  split at h
  next => simp at h
  next i hi =>
    split at h
    next => simp at h
    next bar hb =>
      injection h with _ h
      exact ⟨i, bar, hi, hb, h.symm⟩
    next => simp at h

theorem updateIndicators_of_pending {ts : Nat} {config : IndicatorsConfig} {bars : TimePriceBars}
    {i : Indicators} {bar : PendingTimePriceBar}
    (hi : Indicators.compute ts bars.resolution bars.data config = some i)
    (hb : bars.data.get? ts = some (.pending bar)) :
    updateIndicators ts config bars =
      .ok () { bars with data := bars.data.insert ts (.pending (bar.setIndicators i)) } := by
  simp only [updateIndicators, hi, hb]

theorem updateIndicators_eq_error {ts : Nat} {config : IndicatorsConfig} {e : Failure}
    {bars bars' : TimePriceBars} (h : updateIndicators ts config bars = .error e bars') :
    bars' = bars ∧ (e = .panic ∧ ts < 5700 ∨ 5700 ≤ ts ∧
      (e = .err (.missingBar ts) ∧ bars.data.get? ts = none ∨
        ∃ f, e = .err (.indicatorsOnFinalized ts) ∧ bars.data.get? ts = some (.finalized f))) := by
  have hpanic := @Indicators.compute_isSome_iff ts bars.resolution bars.data config
  unfold updateIndicators at h
  split at h
  next hn =>
    injection h with he hs
    have hlt : ¬5700 ≤ ts := fun hle => by simp [hn] at hpanic; omega
    exact ⟨hs.symm, Or.inl ⟨he.symm, by omega⟩⟩
  next i hi =>
    have hle : 5700 ≤ ts := hpanic.mp (by simp [hi])
    split at h
    next hg =>
      injection h with he hs
      exact ⟨hs.symm, Or.inr ⟨hle, Or.inl ⟨he.symm, hg⟩⟩⟩
    next => simp at h
    next f hg =>
      injection h with he hs
      exact ⟨hs.symm, Or.inr ⟨hle, Or.inr ⟨f, he.symm, hg⟩⟩⟩

theorem updateIndicators_sameContent (ts : Nat) (config : IndicatorsConfig)
    (bars : TimePriceBars) : SameContent bars (updateIndicators ts config bars).state := by
  cases h : updateIndicators ts config bars with
  | ok u bars' =>
    obtain ⟨i, bar, -, hb, rfl⟩ := updateIndicators_eq_ok h
    refine ⟨rfl, rfl, rfl, rfl, fun k => ?_⟩
    simp only [EStateM.Result.state_ok, OrdMap.get?_insert]
    split
    next hk => simp [hk, hb]
    next => rfl
  | error e bars' =>
    rw [EStateM.Result.state_error, (updateIndicators_eq_error h).1]
    exact SameContent.refl bars

theorem updateAll_sameContent (config : IndicatorsConfig) (l : List Nat) (bars : TimePriceBars) :
    SameContent bars (updateAll config l bars).state := by
  induction l generalizing bars with
  | nil => exact SameContent.refl bars
  | cons ts l ih =>
    have hfirst := updateIndicators_sameContent ts config bars
    rw [updateAll]
    cases h : updateIndicators ts config bars with
    | ok u bars' =>
      rw [h] at hfirst
      rw [EStateM.bind_of_ok h]
      exact hfirst.trans (ih bars')
    | error e bars' =>
      rw [h] at hfirst
      rw [EStateM.bind_of_error h]
      exact hfirst

theorem pruneToRetentionCount_fields (bars : TimePriceBars) :
    bars.pruneToRetentionCount = { bars with data := bars.pruneToRetentionCount.data } := by
  unfold pruneToRetentionCount
  split <;> rfl

theorem pruneToRetentionCount_of_none {bars : TimePriceBars} (h : bars.retentionCount = none) :
    bars.pruneToRetentionCount = bars := by
  simp [pruneToRetentionCount, h]

theorem pruneToRetentionCount_data {bars : TimePriceBars} {c : Nat}
    (h : bars.retentionCount = some c) :
    bars.pruneToRetentionCount.data = bars.data.filterKeys fun k => bars.data.countFrom k ≤ c := by
  simp only [pruneToRetentionCount, h]
  exact OrdMap.popFirstUntil_eq_filterKeys c bars.data

theorem get?_of_pruneToRetentionCount {bars : TimePriceBars} {k : Nat} {bar : TimePriceBar}
    (h : bars.pruneToRetentionCount.data.get? k = some bar) : bars.data.get? k = some bar := by
  cases hr : bars.retentionCount with
  | none => rwa [pruneToRetentionCount_of_none hr] at h
  | some c =>
    rw [pruneToRetentionCount_data hr, OrdMap.get?_filterKeys] at h
    split at h
    next => exact h
    next => simp at h

end TimePriceBars

end Pochtecatl
