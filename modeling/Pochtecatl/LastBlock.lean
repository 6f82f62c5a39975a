import Pochtecatl.BarsCalls
import Pochtecatl.InsertContent

namespace Pochtecatl

def unitTick : TickData := ⟨.one, .one, .one, .one, 0⟩

/-- A bar that holds some block holds a last one. -/
theorem TimePriceBar.exists_endBlockNumber {bar : TimePriceBar} (h : ∃ k, bar.Holds k) :
    ∃ e, bar.endBlockNumber = some e ∧ bar.Holds e ∧ ∀ k, bar.Holds k → k ≤ e := by
  obtain ⟨k, hk⟩ := h
  cases bar with
  | pending p =>
    obtain ⟨-, e, -, he, -⟩ := PendingTimePriceBar.exists_start_end hk
    exact ⟨e, he, PendingTimePriceBar.endBlockNumber_eq_some_iff.mp he⟩
  | finalized f => exact ⟨f.endBlockNumber, rfl, ⟨hk.1.trans hk.2, le_rfl⟩, fun j hj => hj.2⟩

namespace TimePriceBars

open ResolutionTimestamp

theorem exists_lastBlock {bars : TimePriceBars} {key : Nat} {bar : TimePriceBar}
    (hl : bars.data.lastEntry = some (key, bar)) (hne : ∃ k, bar.Holds k) :
    ∃ b tick, bars.lastBlock = some (b, tick) ∧ bar.Holds b ∧ ∀ k, bar.Holds k → k ≤ b := by
  obtain ⟨e, he, hh, hmax⟩ := TimePriceBar.exists_endBlockNumber hne
  cases bar with
  | finalized f =>
    cases Option.some.inj he
    exact ⟨f.endBlockNumber, f.data, by simp [lastBlock, hl], hh, hmax⟩
  | pending p =>
    obtain ⟨⟨b, tick⟩, hb, rfl⟩ := Option.map_eq_some_iff.mp he
    exact ⟨b, tick, by simp [lastBlock, hl, hb], hh, hmax⟩

theorem lastBlock_holds {bars : TimePriceBars} {b : Nat} {tick : TickData}
    (h : bars.lastBlock = some (b, tick))
    (hne : ∀ key bar, bars.data.get? key = some bar → ∃ k, bar.Holds k) :
    ∃ key bar, bars.data.lastEntry = some (key, bar) ∧ bar.Holds b ∧ ∀ k, bar.Holds k → k ≤ b := by
  cases hl : bars.data.lastEntry with
  | none => simp [lastBlock, hl] at h
  | some e =>
    obtain ⟨key, bar⟩ := e
    obtain ⟨b', tick', hb, hh, hmax⟩ := exists_lastBlock hl
      (hne key bar (OrdMap.lastEntry_eq_some_iff.mp hl).1)
    obtain ⟨rfl, rfl⟩ : b' = b ∧ tick' = tick := by simpa [hb] using h
    exact ⟨key, bar, rfl, hh, hmax⟩

theorem padTarget_blockTime {bars : TimePriceBars} {t₀ n b : Nat} (h : b ≤ n) :
    bars.padTarget n (blockTime t₀ n) b = blockBucket t₀ bars.resolution b := by
  have hle : (n - b) * AVERAGE_BLOCK_TIME_SECONDS ≤ blockTime t₀ n := by
    simp only [blockTime, AVERAGE_BLOCK_TIME_SECONDS]
    omega
  rw [padTarget, wrappingSub_of_le hle, blockBucket]
  congr 1
  simp only [blockTime, AVERAGE_BLOCK_TIME_SECONDS]
  omega

/-- A bar keeps to blocks of its own bucket or of later ones. -/
def NotEarly (t₀ : Nat) (res : Resolution) (key : Nat) (bar : TimePriceBar) : Prop :=
  (∃ k, bar.Holds k) ∧ ∀ k, bar.Holds k → key ≤ blockBucket t₀ res k

theorem notEarly_barRule (t₀ : Nat) (res : Resolution) : BarRule (NotEarly t₀ res) where
  content := by
    intro key bar bar' hc h
    simpa only [NotEarly, TimePriceBar.holds_iff_of_content hc] using h
  cut := by
    intro key r bar bar' hc h
    exact ⟨TimePriceBar.exists_holds_of_cut hc h.1,
      fun k hk => h.2 k (TimePriceBar.holds_of_cut hc hk)⟩

theorem NotEarly.settle {t₀ : Nat} {res : Resolution} {key : Nat} {bar : TimePriceBar}
    (h : NotEarly t₀ res key bar) : NotEarly t₀ res key bar.settle := by
  refine ⟨h.1.imp fun k => TimePriceBar.holds_settle, fun k hk => ?_⟩
  obtain ⟨s, e, hs, -, hsk, -⟩ := TimePriceBar.exists_holds_of_settle hk
  exact (h.2 s hs).trans (blockBucket_mono hsk)

theorem exec_notEarly {t₀ : Nat} (call : BarsCall) {bars : TimePriceBars}
    (h : AllBars (NotEarly t₀ bars.resolution) bars) :
    AllBars (NotEarly t₀ bars.resolution) (exec t₀ call bars).state := by
  cases call with
  | pruneToReorgedBlockNumber r => exact h.pruneToReorgedBlockNumber (notEarly_barRule _ _) r
  | insertData n d f =>
    refine h.insertData (notEarly_barRule _ _) ?_ ?_ fun _ _ _ _ _ hb => hb.settle
    · intro b tick bar _ hlt hg
      have hbar := h.getD hg
      have hmem : b + 1 ∈ paddedNumbers b n := mem_paddedNumbers.mpr ⟨by omega, hlt⟩
      refine ⟨⟨b + 1, PendingTimePriceBar.holds_insertBlockPriceBarRange.mpr (Or.inl hmem)⟩,
        fun k hk => ?_⟩
      rcases PendingTimePriceBar.holds_insertBlockPriceBarRange.mp hk with hk | hk
      · rw [padTarget_blockTime (by omega)]
        have := (mem_paddedNumbers.mp hk).1
        exact blockBucket_mono (by omega)
      · rcases hbar with rfl | hbar
        · exact absurd hk (PendingTimePriceBar.not_holds_new k)
        · exact hbar.2 k hk
    · intro bar _ hbar
      refine ⟨⟨n, PendingTimePriceBar.holds_insertBlockPriceBar.mpr (Or.inl rfl)⟩, fun k hk => ?_⟩
      rcases PendingTimePriceBar.holds_insertBlockPriceBar.mp hk with rfl | hk
      · exact le_rfl
      · rcases hbar with rfl | hbar
        · exact absurd hk (PendingTimePriceBar.not_holds_new k)
        · exact hbar.2 k hk

theorem calls_notEarly {t₀ : Nat} {rc : Option Nat} {res : Resolution}
    {config : Option IndicatorsConfig} {cs : List BarsCall} {bars : TimePriceBars}
    (h : (calls t₀).run (.new rc res config) cs = some bars) :
    AllBars (NotEarly t₀ bars.resolution) bars := by
  refine Machine.run_invariant (I := fun bars => AllBars (NotEarly t₀ bars.resolution) bars)
    (fun s call s' hs hstep => ?_) h ?_
  · rw [calls_step_state hstep, (exec_settings t₀ call s).resolution]
    exact exec_notEarly call hs
  · intro key bar hk
    simp [new] at hk

end TimePriceBars

end Pochtecatl
