import Pochtecatl.BarsHistory

namespace Pochtecatl

def TimePriceBar.startBlockNumber : TimePriceBar → Option Nat
  | pending bar => bar.startBlockNumber
  | finalized bar => some bar.startBlockNumber

/-- A bar that holds some block holds a first one. -/
theorem TimePriceBar.exists_startBlockNumber {bar : TimePriceBar} (h : ∃ k, bar.Holds k) :
    ∃ s, bar.startBlockNumber = some s ∧ bar.Holds s ∧ ∀ k, bar.Holds k → s ≤ k := by
  obtain ⟨k, hk⟩ := h
  cases bar with
  | pending p =>
    obtain ⟨s, -, hs, -⟩ := PendingTimePriceBar.exists_start_end hk
    exact ⟨s, hs, PendingTimePriceBar.startBlockNumber_eq_some_iff.mp hs⟩
  | finalized f => exact ⟨f.startBlockNumber, rfl, ⟨le_rfl, hk.1.trans hk.2⟩, fun j hj => hj.1⟩

namespace TimePriceBars

/-- No bar is empty, the blocks of a bar are consecutive, and a bar starts with the block
after the last one of the bar before it. -/
structure Contiguous (bars : TimePriceBars) : Prop where
  within : ∀ key bar, bars.data.get? key = some bar → ∃ s e, s ≤ e ∧
    bar.startBlockNumber = some s ∧ bar.endBlockNumber = some e ∧
      ∀ k, bar.Holds k ↔ s ≤ k ∧ k ≤ e
  across : ∀ key key' bar bar', bars.data.get? key = some bar → bars.data.get? key' = some bar' →
    key < key' → (∀ between, key < between → between < key' → bars.data.get? between = none) →
      ∃ e, bar.endBlockNumber = some e ∧ bar'.startBlockNumber = some (e + 1)

theorem Linked.contiguous {bars : TimePriceBars} (h : Linked bars)
    (hne : ∀ key bar, bars.data.get? key = some bar → ∃ k, bar.Holds k) : Contiguous bars := by
  refine ⟨fun key bar hg => ?_, fun key key' bar bar' hg hg' hlt hnone => ?_⟩
  · obtain ⟨s, hs, hs', hmin⟩ := TimePriceBar.exists_startBlockNumber (hne key bar hg)
    obtain ⟨e, he, he', hmax⟩ := TimePriceBar.exists_endBlockNumber (hne key bar hg)
    refine ⟨s, e, hmin e he', hs, he, fun k => ⟨fun hk => ⟨hmin k hk, hmax k hk⟩, fun hk => ?_⟩⟩
    obtain ⟨bar'', hg'', hk⟩ := h.convex ⟨bar, hg, hs'⟩ ⟨bar, hg, he'⟩ hk.1 hk.2
    rw [hg] at hg''
    cases hg''
    exact hk
  · obtain ⟨e, he, he', hmax⟩ := TimePriceBar.exists_endBlockNumber (hne key bar hg)
    obtain ⟨s, hs, hs', hmin⟩ := TimePriceBar.exists_startBlockNumber (hne key' bar' hg')
    have hes : e < s := h.inOrder key key' e s hlt ⟨bar, hg, he'⟩ ⟨bar', hg', hs'⟩
    obtain ⟨key'', bar'', hg'', hk⟩ :=
      h.gapless key key' e s (e + 1) ⟨bar, hg, he'⟩ ⟨bar', hg', hs'⟩ (by omega) (by omega)
    have hlow : ¬key'' < key := fun hlt' => by
      have := h.inOrder key'' key (e + 1) e hlt' ⟨bar'', hg'', hk⟩ ⟨bar, hg, he'⟩
      omega
    have hhigh : ¬key' < key'' := fun hlt' => by
      have := h.inOrder key' key'' s (e + 1) hlt' ⟨bar', hg', hs'⟩ ⟨bar'', hg'', hk⟩
      omega
    have hsame : key'' ≠ key := by
      rintro rfl
      rw [hg] at hg''
      cases hg''
      have := hmax (e + 1) hk
      omega
    have hkey : key'' = key' := by
      by_cases hbetween : key'' < key'
      · rw [hnone key'' (by omega) hbetween] at hg''
        cases hg''
      · omega
    subst hkey
    rw [hg'] at hg''
    cases hg''
    have hse := hmin (e + 1) hk
    exact ⟨e, he, by rw [hs, show s = e + 1 by omega]⟩

/-- Inserts never fail, and keep the blocks contiguous through padding, retention,
finalization and reorgs. -/
theorem history_contiguous {t₀ : Nat} {rc : Option Nat} {res : Resolution}
    {config : Option IndicatorsConfig} {cs : List BarsCall} {h : BarsHistory} (ht : 5700 ≤ t₀)
    (hrc : ∀ c, rc = some c → 2 ≤ c)
    (hahead : (history t₀).Along (ReorgsAhead t₀) (.new rc res config) cs)
    (hrun : (history t₀).run (.new rc res config) cs = some h) :
    h.bars.Contiguous ∧ ∀ n d f, h.Admits t₀ n f →
      ∃ bars, insertData n d (blockTime t₀ n) f h.bars = .ok () bars := by
  have ho := history_orderly hrc hahead hrun
  refine ⟨ho.chained.linked.contiguous ho.chained.nonempty, fun n d f hadmits => ?_⟩
  exact ho.chained.exists_insertData hadmits.1 ho.retention ht (fun v hv => (hadmits.2 v hv).1) d

/-- Blocks 0 and 2, a reorg to 2, and block 2 again, with two bars retained. -/
theorem history_contiguous_after_reorg : ∃ h,
    (history 5998).run (.new (some 2) .fiveMinutes none) [.insertData 0 unitTick none,
      .insertData 2 unitTick (some 5700), .pruneToReorgedBlockNumber 2,
        .insertData 2 unitTick (some 5700)] = some h ∧ h.bars.Contiguous := by
  obtain ⟨h, hrun⟩ : ∃ h, (history 5998).run (.new (some 2) .fiveMinutes none)
      [.insertData 0 unitTick none, .insertData 2 unitTick (some 5700),
        .pruneToReorgedBlockNumber 2, .insertData 2 unitTick (some 5700)] = some h := ⟨_, rfl⟩
  refine ⟨h, hrun, (history_contiguous (by decide) (fun c hc => ?_) ?_ hrun).1⟩
  · cases hc
    exact le_rfl
  · refine fun h₁ hs₁ => ⟨nofun, fun h₂ hs₂ => ⟨nofun, fun h₃ _ => ⟨?_, fun _ _ => ⟨nofun, trivial⟩⟩⟩⟩
    cases hs₁
    cases hs₂
    intro r hr last hl
    cases hr
    cases hl
    decide

end TimePriceBars

end Pochtecatl
