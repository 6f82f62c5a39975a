import Pochtecatl.BarRules

namespace Pochtecatl

namespace TimePriceBar

/-- Finalization does not look at indicators. -/
theorem settle_content (bar : TimePriceBar) : bar.content.settle = bar.settle.content := by
  cases bar with
  | finalized f => rfl
  | pending p =>
    obtain ⟨data, indicators, blocks⟩ := p
    simp only [content, settle, PendingTimePriceBar.asFinalized,
      PendingTimePriceBar.startBlockNumber, PendingTimePriceBar.endBlockNumber]
    cases blocks.firstEntry <;> cases blocks.lastEntry <;> cases data <;> rfl

theorem holds_settle {bar : TimePriceBar} {k : Nat} (h : bar.Holds k) : bar.settle.Holds k := by
  cases bar with
  | finalized f => exact h
  | pending p =>
    cases hf : p.asFinalized with
    | none => simpa [settle, hf] using h
    | some f =>
      rw [settle_of_asFinalized hf]
      exact PendingTimePriceBar.holds_of_asFinalized hf h

/-- The block range of a settled bar lies between blocks the bar held. -/
theorem exists_holds_of_settle {bar : TimePriceBar} {k : Nat} (h : bar.settle.Holds k) :
    ∃ s e, bar.Holds s ∧ bar.Holds e ∧ s ≤ k ∧ k ≤ e := by
  cases bar with
  | finalized f => exact ⟨k, k, h, h, le_rfl, le_rfl⟩
  | pending p =>
    cases hf : p.asFinalized with
    | none =>
      have hk : (pending p).Holds k := by simpa [settle, hf] using h
      exact ⟨k, k, hk, hk, le_rfl, le_rfl⟩
    | some f =>
      rw [settle_of_asFinalized hf] at h
      obtain ⟨hs, he, -, -⟩ := PendingTimePriceBar.asFinalized_eq_some_iff.mp hf
      exact ⟨f.startBlockNumber, f.endBlockNumber,
        (PendingTimePriceBar.startBlockNumber_eq_some_iff.mp hs).1,
        (PendingTimePriceBar.endBlockNumber_eq_some_iff.mp he).1, h.1, h.2⟩

theorem holds_of_cut {r k : Nat} {bar bar' : TimePriceBar} (hc : bar.cut r = some bar')
    (h : bar'.Holds k) : bar.Holds k := by
  rcases cut_cases hc with rfl | ⟨p, s, e, rfl, -, -, -, -, rfl⟩
  · exact h
  · exact (PendingTimePriceBar.holds_pruneToReorgedBlockNumber.mp h).2

/-- A bar that a reorg keeps keeps a block. -/
theorem exists_holds_of_cut {r : Nat} {bar bar' : TimePriceBar} (hc : bar.cut r = some bar')
    (h : ∃ k, bar.Holds k) : ∃ k, bar'.Holds k := by
  rcases cut_cases hc with rfl | ⟨p, s, e, rfl, hs, -, hsr, -, rfl⟩
  · exact h
  · exact ⟨s, PendingTimePriceBar.holds_pruneToReorgedBlockNumber.mpr
      ⟨hsr, (PendingTimePriceBar.startBlockNumber_eq_some_iff.mp hs).1⟩⟩

theorem isFinalized_of_cut {r : Nat} {bar bar' : TimePriceBar} (hc : bar.cut r = some bar') :
    bar'.isFinalized = bar.isFinalized := by
  rcases cut_cases hc with rfl | ⟨p, s, e, rfl, -, -, -, -, rfl⟩
  · rfl
  · rfl

end TimePriceBar

namespace TimePriceBars

open ResolutionTimestamp

/-- The bar of a bucket, without its indicators. -/
def contentAt (bars : TimePriceBars) (key : Nat) : Option TimePriceBar :=
  (bars.data.get? key).map TimePriceBar.content

theorem SameContent.contentAt_eq {bars bars' : TimePriceBars} (h : SameContent bars bars')
    (key : Nat) : bars'.contentAt key = bars.contentAt key := h.content key

theorem exists_bar_holds_iff {bars : TimePriceBars} {key k : Nat} :
    (∃ bar, bars.data.get? key = some bar ∧ bar.Holds k) ↔
      ∃ bar, bars.contentAt key = some bar ∧ bar.Holds k := by
  simp only [contentAt, Option.map_eq_some_iff]
  constructor
  · rintro ⟨bar, hg, hk⟩
    exact ⟨bar.content, ⟨bar, hg, rfl⟩, (TimePriceBar.holds_content bar k).mpr hk⟩
  · rintro ⟨_, ⟨bar, hg, rfl⟩, hk⟩
    exact ⟨bar, hg, (TimePriceBar.holds_content bar k).mp hk⟩

instance (bars : TimePriceBars) (f : Option Nat) (key : Nat) :
    Decidable (bars.InFinalizeRange f key) :=
  match f with
  | none => isFalse (by simp [InFinalizeRange])
  | some finalized => decidable_of_iff (bars.finalizeStart ≤ key ∧ key ≤ finalized)
      (by simp [InFinalizeRange])

/-- The finalization of a completed call, bar by bar. -/
def settleIn (bars : TimePriceBars) (f : Option Nat) (key : Nat) (bar : TimePriceBar) :
    TimePriceBar :=
  if bars.InFinalizeRange f key then bar.settle else bar

theorem settleIn_holds {bars : TimePriceBars} {f : Option Nat} {key k : Nat} {bar : TimePriceBar}
    (h : bar.Holds k) : (bars.settleIn f key bar).Holds k := by
  unfold settleIn
  split
  next => exact TimePriceBar.holds_settle h
  next => exact h

theorem exists_holds_of_settleIn {bars : TimePriceBars} {f : Option Nat} {key k : Nat}
    {bar : TimePriceBar} (h : (bars.settleIn f key bar).Holds k) :
    ∃ s e, bar.Holds s ∧ bar.Holds e ∧ s ≤ k ∧ k ≤ e := by
  unfold settleIn at h
  split at h
  next => exact TimePriceBar.exists_holds_of_settle h
  next => exact ⟨k, k, h, h, le_rfl, le_rfl⟩

theorem finalizeUpTo_ok_get? {f : Option Nat} {bars bars' : TimePriceBars}
    (h : finalizeUpTo f bars = .ok () bars') (key : Nat) :
    bars'.data.get? key = (bars.data.get? key).map (bars.settleIn f key) := by
  obtain ⟨-, hin, hout⟩ := finalizeUpTo_ok h
  unfold settleIn
  split
  next hrange =>
    cases hg : bars.data.get? key with
    | some bar => exact (hin key bar hg hrange).2
    | none =>
      have hs := finalizeUpTo_state f bars key
      rw [h] at hs
      rcases hs with hs | ⟨-, hs⟩ <;> simp_all
  next hrange =>
    rw [hout key hrange]
    exact Option.map_id'.symm

theorem finalizeUpTo_ok_contentAt {f : Option Nat} {bars bars' : TimePriceBars}
    (h : finalizeUpTo f bars = .ok () bars') (key : Nat) :
    bars'.contentAt key = (bars.contentAt key).map (bars.settleIn f key) := by
  rw [contentAt, contentAt, finalizeUpTo_ok_get? h, Option.map_map, Option.map_map]
  congr 1
  funext bar
  simp only [Function.comp, settleIn]
  split
  next => exact (TimePriceBar.settle_content bar).symm
  next => rfl

/-- A completed insert: pad, add the block, retain, settle. -/
theorem insertData_ok_contentAt {n : Nat} {d : TickData} {bts : Nat} {f : Option Nat}
    {bars bars' : TimePriceBars} (h : insertData n d bts f bars = .ok () bars') :
    ∃ padded paddedBars inserted,
      padMissing n bts bars = .ok padded paddedBars ∧
      insertBlock n d bts (fromTimestamp bts bars.resolution) paddedBars = .ok () inserted ∧
      bars'.lastFinalizedTimestamp = bars.frontierAfter f ∧
      ∀ key, bars'.contentAt key =
        (inserted.pruneToRetentionCount.contentAt key).map (bars.settleIn f key) := by
  obtain ⟨padded, paddedBars, inserted, updated, hp, hi, hu, hf⟩ := insertData_ok h
  refine ⟨padded, paddedBars, inserted, hp, hi, ?_⟩
  have hpadded : paddedBars.resolution = bars.resolution ∧
      paddedBars.lastFinalizedTimestamp = bars.lastFinalizedTimestamp := by
    rcases padMissing_cases n bts bars with ⟨he, -⟩ | ⟨b, tick, bar, -, -, -, he⟩
    · rw [he] at hp
      injection hp with _ hp
      exact hp ▸ ⟨rfl, rfl⟩
    · rw [he] at hp
      injection hp with _ hp
      exact hp ▸ ⟨rfl, rfl⟩
  obtain ⟨bar, -, -, rfl⟩ := insertBlock_ok hi
  have hsame := updateTouched_ok_sameContent hu
  have hres : updated.resolution = bars.resolution := by
    rw [hsame.resolution, pruneToRetentionCount_fields, hpadded.1]
  have hlast : updated.lastFinalizedTimestamp = bars.lastFinalizedTimestamp := by
    rw [hsame.lastFinalizedTimestamp, pruneToRetentionCount_fields, hpadded.2]
  have hrange : ∀ key, updated.InFinalizeRange f key ↔ bars.InFinalizeRange f key := by
    intro key
    simp only [InFinalizeRange, finalizeStart, hres, hlast]
  have hsettle : updated.settleIn f = bars.settleIn f := by
    funext key bar
    simp only [settleIn, hrange]
  refine ⟨?_, fun key => ?_⟩
  · rw [(finalizeUpTo_ok hf).1]
    simp only [frontierAfter, hlast]
  · rw [finalizeUpTo_ok_contentAt hf key, hsettle, hsame.contentAt_eq]

end TimePriceBars

end Pochtecatl
