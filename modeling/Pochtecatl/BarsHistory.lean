import Pochtecatl.ChainedCalls

namespace Pochtecatl

/-- The bars, the lowest number the next block may have, and the last finalized
timestamp passed. -/
structure BarsHistory where
  bars : TimePriceBars
  nextBlock : Nat
  passed : Option Nat

namespace BarsHistory

def new (retentionCount : Option Nat) (resolution : Resolution)
    (indicatorsConfig : Option IndicatorsConfig) : BarsHistory :=
  ⟨.new retentionCount resolution indicatorsConfig, 0, none⟩

/-- Block numbers increase. Finalized timestamps are bucket starts below the bucket of
their block, and do not decrease. -/
def Admits (t₀ : Nat) (h : BarsHistory) (n : Nat) (f : Option Nat) : Prop :=
  h.nextBlock ≤ n ∧ ∀ x ∈ f, h.bars.resolution.offset ∣ x ∧
    x < blockBucket t₀ h.bars.resolution n ∧ ∀ y ∈ h.passed, y ≤ x

instance (t₀ : Nat) (h : BarsHistory) (n : Nat) (f : Option Nat) : Decidable (h.Admits t₀ n f) :=
  inferInstanceAs (Decidable (_ ∧ _))

end BarsHistory

namespace TimePriceBars

open ResolutionTimestamp

/-- Admitted inserts, whatever they return, and reorgs that return `Ok`, after which
the block numbers go on from the reorged one. -/
def history (t₀ : Nat) : Machine BarsHistory BarsCall where
  step h call := match call with
    | .insertData n d f =>
      if h.Admits t₀ n f then
        ((calls t₀).step h.bars (.insertData n d f)).map fun bars => ⟨bars, n + 1, f.or h.passed⟩
      else none
    | .pruneToReorgedBlockNumber r => match exec t₀ (.pruneToReorgedBlockNumber r) h.bars with
      | .ok _ bars => some ⟨bars, min h.nextBlock r, h.passed⟩
      | .error _ _ => none

variable {t₀ n r : Nat} {d : TickData} {f : Option Nat} {h h' : BarsHistory}

theorem history_step_insertData (hstep : (history t₀).step h (.insertData n d f) = some h') :
    h.Admits t₀ n f ∧ (∀ bars, insertData n d (blockTime t₀ n) f h.bars ≠ .error .panic bars) ∧
      h' = ⟨(insertData n d (blockTime t₀ n) f h.bars).state, n + 1, f.or h.passed⟩ := by
  simp only [history] at hstep
  split at hstep
  next hadmits =>
    obtain ⟨bars, hcall, rfl⟩ := Option.map_eq_some_iff.mp hstep
    refine ⟨hadmits, fun bars' hpanic => ?_, ?_⟩
    · have hnone : (calls t₀).step h.bars (.insertData n d f) = none :=
        calls_step_eq_none_iff.mpr ⟨bars', hpanic⟩
      rw [hnone] at hcall
      cases hcall
    · rw [calls_step_state hcall]
      rfl
  next => cases hstep

theorem history_step_of_ok {bars : TimePriceBars} (hadmits : h.Admits t₀ n f)
    (hok : insertData n d (blockTime t₀ n) f h.bars = .ok () bars) :
    (history t₀).step h (.insertData n d f) = some ⟨bars, n + 1, f.or h.passed⟩ := by
  have hcall : (calls t₀).step h.bars (.insertData n d f) = some bars := by
    simp only [calls, exec, hok]
  simp only [history, if_pos hadmits, hcall, Option.map_some]

theorem history_step_pruneToReorgedBlockNumber
    (hstep : (history t₀).step h (.pruneToReorgedBlockNumber r) = some h') :
    ∃ bars, pruneToReorgedBlockNumber r h.bars = .ok () bars ∧
      h' = ⟨bars, min h.nextBlock r, h.passed⟩ := by
  simp only [history] at hstep
  split at hstep
  next bars hok =>
    cases hstep
    exact ⟨bars, hok, rfl⟩
  next => cases hstep

/-- Reorgs go back to a block whose predecessor is past the finalized buckets. -/
def ReorgsAhead (t₀ : Nat) (h : BarsHistory) (call : BarsCall) (_ : BarsHistory) : Prop :=
  ∀ r, call = .pruneToReorgedBlockNumber r → ∀ last ∈ h.bars.lastFinalizedTimestamp,
    1 ≤ r ∧ last + 300 ≤ blockTime t₀ (r - 1)

/-- What holds of the bars in a history whose reorgs stay ahead of finalization. -/
structure Orderly (t₀ : Nat) (h : BarsHistory) : Prop where
  chained : Chained t₀ h.nextBlock h.bars
  retention : ∀ c, h.bars.retentionCount = some c → 2 ≤ c
  passed : h.bars.lastFinalizedTimestamp = h.passed

theorem new_orderly {rc : Option Nat} (hrc : ∀ c, rc = some c → 2 ≤ c) (res : Resolution)
    (config : Option IndicatorsConfig) : Orderly t₀ (.new rc res config) :=
  ⟨new_chained t₀ rc res config, hrc, rfl⟩

/-- The frontier is the finalized timestamp passed last. -/
theorem frontierAfter_eq_or {bars : TimePriceBars}
    (hle : ∀ x ∈ f, ∀ y ∈ bars.lastFinalizedTimestamp, y ≤ x) :
    bars.frontierAfter f = f.or bars.lastFinalizedTimestamp := by
  unfold frontierAfter
  split
  next x y hy =>
    rw [max_eq_right (hle x rfl y hy), Option.some_or]
  next x _ => rw [Option.some_or]
  next => rw [Option.none_or]

/-- An admitted insert completes, or its bucket is too early for indicators. -/
theorem Orderly.insertData_cases (ho : Orderly t₀ h) (hadmits : h.Admits t₀ n f) (d : TickData) :
    (∃ bars, TimePriceBars.insertData n d (blockTime t₀ n) f h.bars = .ok () bars) ∨
      ∃ bars, TimePriceBars.insertData n d (blockTime t₀ n) f h.bars = .error .panic bars :=
  ho.chained.insertData_cases hadmits.1 ho.retention (fun v hv => (hadmits.2 v hv).1) d

theorem Orderly.insertData (ho : Orderly t₀ h) (hadmits : h.Admits t₀ n f) {bars : TimePriceBars}
    (hok : TimePriceBars.insertData n d (blockTime t₀ n) f h.bars = .ok () bars) :
    Orderly t₀ ⟨bars, n + 1, f.or h.passed⟩ := by
  refine ⟨ho.chained.insertData hadmits.1 ho.retention (fun v hv => (hadmits.2 v hv).1)
    (fun v hv => (hadmits.2 v hv).2.1) hok, ?_, ?_⟩
  · rw [(insertData_ok_settings hok).retentionCount]
    exact ho.retention
  · rw [insertData_ok_frontier hok, frontierAfter_eq_or, ho.passed]
    rw [ho.passed]
    exact fun x hx => (hadmits.2 x hx).2.2

theorem Orderly.pruneToReorgedBlockNumber (ho : Orderly t₀ h)
    (hahead : ∀ last ∈ h.bars.lastFinalizedTimestamp, 1 ≤ r ∧ last + 300 ≤ blockTime t₀ (r - 1))
    {bars : TimePriceBars} (hok : TimePriceBars.pruneToReorgedBlockNumber r h.bars = .ok () bars) :
    Orderly t₀ ⟨bars, min h.nextBlock r, h.passed⟩ := by
  have hoffset : h.bars.resolution.offset = 300 := by
    cases h.bars.resolution
    rfl
  refine ⟨ho.chained.pruneToReorgedBlockNumber ?_ hok, ?_,
    (pruneToReorgedBlockNumber_ok_frontier hok).trans ho.passed⟩
  · rw [hoffset]
    exact hahead
  · rw [(pruneToReorgedBlockNumber_ok_settings hok).retentionCount]
    exact ho.retention

theorem Orderly.step {call : BarsCall} (ho : Orderly t₀ h)
    (hstep : (history t₀).step h call = some h') (hahead : ReorgsAhead t₀ h call h') :
    Orderly t₀ h' := by
  cases call with
  | insertData n d f =>
    obtain ⟨hadmits, hpanic, rfl⟩ := history_step_insertData hstep
    rcases ho.insertData_cases hadmits d with ⟨bars, hok⟩ | ⟨bars, herr⟩
    · rw [hok]
      exact ho.insertData hadmits hok
    · exact absurd herr (hpanic bars)
  | pruneToReorgedBlockNumber r =>
    obtain ⟨bars, hok, rfl⟩ := history_step_pruneToReorgedBlockNumber hstep
    exact ho.pruneToReorgedBlockNumber (hahead r rfl) hok

theorem history_orderly {rc : Option Nat} {res : Resolution} {config : Option IndicatorsConfig}
    {cs : List BarsCall} (hrc : ∀ c, rc = some c → 2 ≤ c)
    (hahead : (history t₀).Along (ReorgsAhead t₀) (.new rc res config) cs)
    (hrun : (history t₀).run (.new rc res config) cs = some h) : Orderly t₀ h :=
  Machine.run_invariant_along (fun _ _ _ ho hstep hp => ho.step hstep hp) hahead hrun
    (new_orderly hrc res config)

end TimePriceBars

end Pochtecatl
