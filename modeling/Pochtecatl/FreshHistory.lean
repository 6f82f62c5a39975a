import Pochtecatl.BarsHistory

namespace Pochtecatl

namespace TimePriceBars

open ResolutionTimestamp

variable {t₀ n r : Nat} {d : TickData} {f : Option Nat} {x x' : TimePriceBars}
  {h h' : BarsHistory}

/-- What holds of bars that are all retained, after completed inserts and any reorgs. -/
structure AllRetained (t₀ next : Nat) (bars : TimePriceBars) : Prop where
  sound : Sound t₀ bars
  inOrder : bars.InOrder
  below : AllBelow next bars

theorem new_allRetained (t₀ : Nat) (res : Resolution) (config : Option IndicatorsConfig) :
    AllRetained t₀ 0 (.new none res config) := by
  refine ⟨new_sound t₀ res config, fun key key' k k' _ hk => ?_, fun key bar hk => ?_⟩
  · obtain ⟨bar, hg, -⟩ := hk
    cases hg
  · cases hk

theorem AllRetained.insertData {next : Nat} (h : AllRetained t₀ next x) (hn : next ≤ n)
    (hf : ∀ v, f = some v → x.resolution.offset ∣ v)
    (hok : TimePriceBars.insertData n d (blockTime t₀ n) f x = .ok () x') :
    AllRetained t₀ (n + 1) x' := by
  have hbelow := h.below.mono hn
  exact ⟨h.sound.insertData hbelow hf hok, h.inOrder.insertData h.sound.notEarly hbelow hok,
    hbelow.insertData hok⟩

/-- A reorg, however far it goes back, leaves the bars in order. -/
theorem AllRetained.pruneToReorgedBlockNumber {next : Nat} (h : AllRetained t₀ next x)
    (hok : TimePriceBars.pruneToReorgedBlockNumber r x = .ok () x') :
    AllRetained t₀ (min next r) x' := by
  have hne := h.sound.nonempty
  obtain ⟨-, hbelow⟩ := pruneToReorgedBlockNumber_ok_contentAt hne h.inOrder hok
  have hold := h.below.pruneToReorgedBlockNumber (below_barRule next) r
  rw [hok] at hold
  exact ⟨h.sound.pruneToReorgedBlockNumber hok, h.inOrder.pruneToReorgedBlockNumber hne hok,
    fun key bar hk k hh => lt_min (hold key bar hk k hh) (hbelow key bar hk k hh)⟩

/-- The inserts of the history return `Ok`. -/
def InsertsOk (t₀ : Nat) (h : BarsHistory) (call : BarsCall) (h' : BarsHistory) : Prop :=
  ∀ n d f, call = .insertData n d f → insertData n d (blockTime t₀ n) f h.bars = .ok () h'.bars

theorem history_allRetained_step {call : BarsCall} (hs : AllRetained t₀ h.nextBlock h.bars)
    (hstep : (history t₀).step h call = some h') (hok : InsertsOk t₀ h call h') :
    AllRetained t₀ h'.nextBlock h'.bars ∧ SameSettings h.bars h'.bars := by
  cases call with
  | insertData n d f =>
    obtain ⟨hadmits, -, rfl⟩ := history_step_insertData hstep
    have hinsert := hok n d f rfl
    exact ⟨hs.insertData hadmits.1 (fun v hv => (hadmits.2 v hv).1) hinsert,
      insertData_ok_settings hinsert⟩
  | pruneToReorgedBlockNumber r =>
    obtain ⟨bars, hprune, rfl⟩ := history_step_pruneToReorgedBlockNumber hstep
    exact ⟨hs.pruneToReorgedBlockNumber hprune, pruneToReorgedBlockNumber_ok_settings hprune⟩

/-- The indicators of every bar are those that the current bars give its bucket. -/
theorem history_indicators {res : Resolution} {cs : List BarsCall}
    (hok : (history t₀).Along (InsertsOk t₀) (.new none res (some .all)) cs)
    (hrun : (history t₀).run (.new none res (some .all)) cs = some h) :
    ∀ key bar, h.bars.data.get? key = some bar →
      bar.indicators.isSome ∧
        bar.indicators = Indicators.compute key h.bars.resolution h.bars.data .all := by
  obtain ⟨hs, hconfig⟩ := Machine.run_invariant_along
    (I := fun h => AllRetained t₀ h.nextBlock h.bars ∧ h.bars.indicatorsConfig = some .all)
    (fun s call s' hI hstep hp => by
      obtain ⟨hs, hsettings⟩ := history_allRetained_step hI.1 hstep hp
      exact ⟨hs, hsettings.indicatorsConfig.trans hI.2⟩)
    hok hrun ⟨new_allRetained t₀ res _, rfl⟩
  intro key bar hg
  obtain ⟨hfresh, hwarm⟩ := hs.sound.fresh key bar hg
  have hcomputed : h.bars.computed key =
      Indicators.compute key h.bars.resolution h.bars.data .all := by
    rw [computed, hconfig, Option.bind_some]
  rw [hfresh, hcomputed]
  refine ⟨Indicators.compute_isSome_iff.mpr (hwarm ?_), rfl⟩
  rw [hconfig]
  rfl

/-- A block, the next one, and a reorg that takes it back. -/
theorem history_indicators_after_reorg : ∃ h,
    (history 6000).run (.new none .fiveMinutes (some .all)) [.insertData 0 unitTick none,
      .insertData 1 unitTick (some 5700), .pruneToReorgedBlockNumber 1] = some h ∧
      ∀ key bar, h.bars.data.get? key = some bar → bar.indicators.isSome ∧
        bar.indicators = Indicators.compute key h.bars.resolution h.bars.data .all := by
  obtain ⟨h, hrun⟩ : ∃ h, (history 6000).run (.new none .fiveMinutes (some .all))
      [.insertData 0 unitTick none, .insertData 1 unitTick (some 5700),
        .pruneToReorgedBlockNumber 1] = some h := ⟨_, rfl⟩
  refine ⟨h, hrun, history_indicators ?_ hrun⟩
  refine fun h₁ hs₁ => ⟨fun n d f hc => ?_, fun h₂ hs₂ => ⟨fun n d f hc => ?_, fun _ _ => ⟨nofun, trivial⟩⟩⟩
  · cases hc
    cases hs₁
    rfl
  · cases hc
    cases hs₁
    cases hs₂
    rfl

end TimePriceBars

end Pochtecatl
