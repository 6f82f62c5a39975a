import Pochtecatl.InsertData
import Pochtecatl.PruneReorged

namespace Pochtecatl

namespace TimePriceBars

open ResolutionTimestamp

/-- The settings no method changes. -/
structure SameSettings (bars bars' : TimePriceBars) : Prop where
  resolution : bars'.resolution = bars.resolution
  retentionCount : bars'.retentionCount = bars.retentionCount
  indicatorsConfig : bars'.indicatorsConfig = bars.indicatorsConfig

theorem SameContent.settings {bars bars' : TimePriceBars} (h : SameContent bars bars') :
    SameSettings bars bars' := ⟨h.resolution, h.retentionCount, h.indicatorsConfig⟩

theorem SameSettings.trans {a b c : TimePriceBars} (h : SameSettings a b)
    (h' : SameSettings b c) : SameSettings a c :=
  ⟨h'.resolution.trans h.resolution, h'.retentionCount.trans h.retentionCount,
    h'.indicatorsConfig.trans h.indicatorsConfig⟩

theorem finalizeUpTo_settings (f : Option Nat) (bars : TimePriceBars) :
    SameSettings bars (finalizeUpTo f bars).state := by
  rw [finalizeUpTo_eq]
  cases f with
  | none => exact ⟨rfl, rfl, rfl⟩
  | some f =>
    have hrange : SameSettings bars (finalizeRange bars.finalizeStart f bars).state := by
      unfold finalizeRange
      split
      next => exact ⟨rfl, rfl, rfl⟩
      next =>
        rw [finalizeEntries_fields]
        exact ⟨rfl, rfl, rfl⟩
    simp only
    split
    next => exact ⟨rfl, rfl, rfl⟩
    next =>
      split
      next h =>
        rw [h] at hrange
        exact ⟨hrange.resolution, hrange.retentionCount, hrange.indicatorsConfig⟩
      next h =>
        rw [h] at hrange
        exact hrange

theorem finalizeUpTo_ok_settings {f : Option Nat} {bars bars' : TimePriceBars}
    (h : finalizeUpTo f bars = .ok () bars') : SameSettings bars bars' := by
  have hs := finalizeUpTo_settings f bars
  rwa [h] at hs

theorem insertData_settings (n : Nat) (d : TickData) (bts : Nat) (f : Option Nat)
    (bars : TimePriceBars) : SameSettings bars (insertData n d bts f bars).state := by
  refine insertData_state ?_ ?_ ?_ ?_ ?_
  · rcases padMissing_cases n bts bars with ⟨h, -⟩ | ⟨b, d, bar, -, -, -, h⟩
    · rw [h]; exact ⟨rfl, rfl, rfl⟩
    · rw [h]; exact ⟨rfl, rfl, rfl⟩
  · intro s hs
    cases h : insertBlock n d bts (fromTimestamp bts bars.resolution) s with
    | ok u s' =>
      obtain ⟨bar, -, -, rfl⟩ := insertBlock_ok h
      exact hs.trans ⟨rfl, rfl, rfl⟩
    | error e s' =>
      rw [EStateM.Result.state_error, (insertBlock_eq_error h).1]
      exact hs
  · intro s hs
    rw [pruneToRetentionCount_fields]
    exact hs.trans ⟨rfl, rfl, rfl⟩
  · exact fun config touched s hs =>
      hs.trans (updateTouched_sameContent config touched s).settings
  · exact fun s hs => hs.trans (finalizeUpTo_settings f s)

/-- The state a reorg leaves: the loop's, up to indicators. -/
theorem pruneToReorgedBlockNumber_sameContent (r : Nat) (bars : TimePriceBars) :
    SameContent (pruneLoop r (bars.data.size + 2) none bars).state
      (pruneToReorgedBlockNumber r bars).state := by
  rw [pruneToReorgedBlockNumber, EStateM.bind_of_ok
    (show (MonadState.get : TimePriceBarsM _) bars = .ok bars bars from rfl)]
  cases h : pruneLoop r (bars.data.size + 2) none bars with
  | error e bars' =>
    rw [EStateM.bind_of_error h]
    exact SameContent.refl _
  | ok pruned bars' =>
    rw [EStateM.bind_of_ok h]
    cases pruned with
    | none => exact SameContent.refl _
    | some ts =>
      cases bars.indicatorsConfig with
      | none => exact SameContent.refl _
      | some config => exact updateIndicators_sameContent ts config bars'

/-- The stages of a successful reorg. -/
theorem pruneToReorgedBlockNumber_ok {r : Nat} {bars bars' : TimePriceBars}
    (h : pruneToReorgedBlockNumber r bars = .ok () bars') :
    ∃ pruned looped, pruneLoop r (bars.data.size + 2) none bars = .ok pruned looped ∧
      updateTouched bars.indicatorsConfig pruned.toList looped = .ok () bars' := by
  rw [pruneToReorgedBlockNumber, EStateM.bind_of_ok
    (show (MonadState.get : TimePriceBarsM _) bars = .ok bars bars from rfl)] at h
  obtain ⟨pruned, looped, hloop, hupdate⟩ := EStateM.bind_eq_ok.mp h
  refine ⟨pruned, looped, hloop, ?_⟩
  cases pruned with
  | none => cases hc : bars.indicatorsConfig <;> exact hupdate
  | some ts =>
    cases hc : bars.indicatorsConfig with
    | none =>
      rw [hc] at hupdate
      exact hupdate
    | some config =>
      rw [hc] at hupdate
      exact EStateM.bind_eq_ok.mpr ⟨(), bars', hupdate, rfl⟩

theorem pruneToReorgedBlockNumber_settings (r : Nat) (bars : TimePriceBars) :
    SameSettings bars (pruneToReorgedBlockNumber r bars).state := by
  have hloop : SameSettings bars (pruneLoop r (bars.data.size + 2) none bars).state := by
    rw [pruneLoop_fields]
    exact ⟨rfl, rfl, rfl⟩
  exact hloop.trans (pruneToReorgedBlockNumber_sameContent r bars).settings

theorem pruneLoop_ok_settings {r budget : Nat} {p p' : Option Nat} {bars bars' : TimePriceBars}
    (h : pruneLoop r budget p bars = .ok p' bars') : SameSettings bars bars' := by
  have hfields := pruneLoop_fields r budget p bars
  rw [h, EStateM.Result.state_ok] at hfields
  rw [hfields]
  exact ⟨rfl, rfl, rfl⟩

theorem pruneToReorgedBlockNumber_ok_settings {r : Nat} {bars bars' : TimePriceBars}
    (h : pruneToReorgedBlockNumber r bars = .ok () bars') : SameSettings bars bars' := by
  have hs := pruneToReorgedBlockNumber_settings r bars
  rwa [h] at hs

def AllBars (P : Nat → TimePriceBar → Prop) (bars : TimePriceBars) : Prop :=
  ∀ key bar, bars.data.get? key = some bar → P key bar

/-- Predicates on single bars that neither indicators nor reorgs can break. -/
structure BarRule (P : Nat → TimePriceBar → Prop) : Prop where
  content : ∀ {key bar bar'}, bar'.content = bar.content → P key bar → P key bar'
  cut : ∀ {key r bar bar'}, bar.cut r = some bar' → P key bar → P key bar'

section

variable {P : Nat → TimePriceBar → Prop}

theorem AllBars.of_sameContent (rule : BarRule P) {bars bars' : TimePriceBars}
    (h : SameContent bars bars') (hb : AllBars P bars) : AllBars P bars' := by
  intro key bar' hk
  obtain ⟨bar, hg, he⟩ := h.exists_bar hk
  exact rule.content he (hb key bar hg)

theorem AllBars.insert {bars : TimePriceBars} {key : Nat} {bar : TimePriceBar}
    (hb : AllBars P bars) (h : P key bar) :
    AllBars P { bars with data := bars.data.insert key bar } := by
  intro key' bar' hk
  simp only [OrdMap.get?_insert] at hk
  split at hk
  next he =>
    cases Option.some.inj hk
    exact he ▸ h
  next => exact hb key' bar' hk

theorem AllBars.getD {bars : TimePriceBars} {key : Nat} {bar : PendingTimePriceBar}
    (hb : AllBars P bars) (h : (bars.data.get? key).getD (.pending .new) = .pending bar) :
    bar = .new ∨ P key (.pending bar) := by
  cases hg : bars.data.get? key with
  | none =>
    rw [hg] at h
    left
    injection h with h
    exact h.symm
  | some b =>
    rw [hg] at h
    right
    exact h ▸ hb key b hg

theorem AllBars.pruneLoop (rule : BarRule P) (r budget : Nat) (pruned : Option Nat)
    {bars : TimePriceBars} (hb : AllBars P bars) :
    AllBars P (pruneLoop r budget pruned bars).state := by
  intro key bar hk
  rcases pruneLoop_state r budget pruned bars key with h | h
  · exact hb key bar (h ▸ hk)
  · rw [h] at hk
    obtain ⟨bar₀, hg, hc⟩ := Option.bind_eq_some_iff.mp hk
    exact rule.cut hc (hb key bar₀ hg)

theorem AllBars.pruneToReorgedBlockNumber (rule : BarRule P) (r : Nat) {bars : TimePriceBars}
    (hb : AllBars P bars) : AllBars P (pruneToReorgedBlockNumber r bars).state :=
  of_sameContent rule (pruneToReorgedBlockNumber_sameContent r bars) (hb.pruneLoop rule r _ none)

theorem AllBars.finalizeUpTo {f : Option Nat} {bars : TimePriceBars} (hb : AllBars P bars)
    (hsettle : ∀ key bar finalized, f = some finalized → key ≤ finalized → P key bar →
      P key bar.settle) : AllBars P (finalizeUpTo f bars).state := by
  intro key bar hk
  rcases finalizeUpTo_state f bars key with h | ⟨⟨finalized, hf, -, hle⟩, h⟩
  · exact hb key bar (h ▸ hk)
  · rw [h] at hk
    obtain ⟨bar₀, hg, rfl⟩ := Option.map_eq_some_iff.mp hk
    exact hsettle key bar₀ finalized hf hle (hb key bar₀ hg)

/-- An insert keeps a predicate on bars that its padding, its new block and its
finalization respect. -/
theorem AllBars.insertData (rule : BarRule P) {n : Nat} {d : TickData} {bts : Nat}
    {f : Option Nat} {bars : TimePriceBars} (hb : AllBars P bars)
    (hpad : ∀ b tick bar, bars.lastBlock = some (b, tick) → b + 1 < n →
      (bars.data.get? (bars.padTarget n bts b)).getD (.pending .new) = .pending bar →
      P (bars.padTarget n bts b)
        (.pending (bar.insertBlockPriceBarRange (paddedNumbers b n) tick)))
    (hinsert : ∀ bar : PendingTimePriceBar, (∀ e, bar.endBlockNumber = some e → e + 1 = n) →
      bar = .new ∨ P (fromTimestamp bts bars.resolution) (.pending bar) →
      P (fromTimestamp bts bars.resolution) (.pending (bar.insertBlockPriceBar n d)))
    (hsettle : ∀ key bar finalized, f = some finalized → key ≤ finalized → P key bar →
      P key bar.settle) : AllBars P (insertData n d bts f bars).state := by
  refine insertData_state ?_ ?_ ?_ ?_ ?_
  · rcases padMissing_cases n bts bars with ⟨h, -⟩ | ⟨b, tick, bar, hl, hlt, hg, h⟩
    · rw [h]
      exact hb
    · rw [h]
      exact hb.insert (hpad b tick bar hl hlt hg)
  · intro s hs
    cases h : insertBlock n d bts (fromTimestamp bts bars.resolution) s with
    | ok u s' =>
      obtain ⟨bar, hg, hend, rfl⟩ := insertBlock_ok h
      exact hs.insert (hinsert bar hend (hs.getD hg))
    | error e s' =>
      rw [EStateM.Result.state_error, (insertBlock_eq_error h).1]
      exact hs
  · exact fun s hs key bar hk => hs key bar (get?_of_pruneToRetentionCount hk)
  · exact fun config touched s hs =>
      of_sameContent rule (updateTouched_sameContent config touched s) hs
  · exact fun s hs => hs.finalizeUpTo hsettle

end

end TimePriceBars

end Pochtecatl
