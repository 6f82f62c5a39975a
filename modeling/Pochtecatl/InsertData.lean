import Pochtecatl.FinalizeRange

namespace Pochtecatl

namespace TimePriceBars

open ResolutionTimestamp

/-- The indicator updates of a call, skipped without a configuration. -/
def updateTouched (config : Option IndicatorsConfig) (touched : List Nat) : TimePriceBarsM Unit :=
  match config with
  | some config => updateAll config touched
  | none => pure ()

theorem updateTouched_get?_of_not_mem {config : Option IndicatorsConfig} {touched : List Nat}
    {x y : TimePriceBars} {key : Nat} (h : updateTouched config touched x = .ok () y)
    (hk : key ∉ touched) : y.data.get? key = x.data.get? key := by
  cases config with
  | none =>
    cases h
    rfl
  | some config =>
    change updateAll config touched x = .ok () y at h
    induction touched generalizing x with
    | nil =>
      cases h
      rfl
    | cons t l ih =>
      obtain ⟨u, s, hu, hrest⟩ := EStateM.bind_eq_ok.mp h
      obtain ⟨i, bar, -, -, rfl⟩ := updateIndicators_eq_ok hu
      rw [ih (fun hm => hk (List.mem_cons_of_mem _ hm)) hrest]
      exact OrdMap.get?_insert_ne fun he => hk (he ▸ List.mem_cons_self)

theorem insertData_eq (n : Nat) (d : TickData) (bts : Nat) (f : Option Nat)
    (bars : TimePriceBars) :
    insertData n d bts f bars = (do
      let padded ← padMissing n bts
      insertBlock n d bts (fromTimestamp bts bars.resolution)
      modify pruneToRetentionCount
      updateTouched bars.indicatorsConfig (padded ++ [fromTimestamp bts bars.resolution])
      finalizeUpTo f : TimePriceBarsM Unit) bars := by
  rw [insertData, EStateM.bind_of_ok
    (show (MonadState.get : TimePriceBarsM _) bars = .ok bars bars from rfl)]
  cases bars.indicatorsConfig <;> rfl

theorem insertBlock_ok {n : Nat} {d : TickData} {bts ts : Nat} {bars bars' : TimePriceBars}
    (h : insertBlock n d bts ts bars = .ok () bars') :
    ∃ bar, (bars.data.get? ts).getD (.pending .new) = .pending bar ∧
      (∀ e, bar.endBlockNumber = some e → e + 1 = n) ∧
      bars' = { bars with data := bars.data.insert ts (.pending (bar.insertBlockPriceBar n d)) } := by
  unfold insertBlock at h
  split at h
  next bar hb =>
    split at h
    next hc =>
      injection h with _ h
      refine ⟨bar, hb, fun e he => ?_, h.symm⟩
      simpa [he] using hc
    next => simp at h
  next => simp at h

theorem insertBlock_of_pending {n : Nat} {d : TickData} {bts ts : Nat} {bars : TimePriceBars}
    {bar : PendingTimePriceBar} (hb : (bars.data.get? ts).getD (.pending .new) = .pending bar)
    (hend : ∀ e, bar.endBlockNumber = some e → e + 1 = n) :
    insertBlock n d bts ts bars =
      .ok () { bars with data := bars.data.insert ts (.pending (bar.insertBlockPriceBar n d)) } := by
  have hc : (bar.endBlockNumber.map fun e => e + 1 == n).getD true = true := by
    cases he : bar.endBlockNumber with
    | none => rfl
    | some e => simpa using hend e he
  simp only [insertBlock, hb, hc, if_true]

theorem insertBlock_eq_error {n : Nat} {d : TickData} {bts ts : Nat} {bars bars' : TimePriceBars}
    {e : Failure} (h : insertBlock n d bts ts bars = .error e bars') :
    bars' = bars ∧ ∃ err, e = .err err := by
  unfold insertBlock at h
  split at h
  next =>
    split at h
    next => simp at h
    next =>
      injection h with he hs
      exact ⟨hs.symm, _, he.symm⟩
  next =>
    injection h with he hs
    exact ⟨hs.symm, _, he.symm⟩

theorem padMissing_ok (n bts : Nat) (bars : TimePriceBars) :
    ∃ padded bars', padMissing n bts bars = .ok padded bars' := by
  rcases padMissing_cases n bts bars with ⟨h, -⟩ | ⟨b, d, bar, -, -, -, h⟩
  · exact ⟨_, _, h⟩
  · exact ⟨_, _, h⟩

/-- The stages of a successful call. -/
theorem insertData_ok {n : Nat} {d : TickData} {bts : Nat} {f : Option Nat}
    {bars bars' : TimePriceBars} (h : insertData n d bts f bars = .ok () bars') :
    ∃ padded paddedBars inserted updated,
      padMissing n bts bars = .ok padded paddedBars ∧
      insertBlock n d bts (fromTimestamp bts bars.resolution) paddedBars = .ok () inserted ∧
      updateTouched bars.indicatorsConfig (padded ++ [fromTimestamp bts bars.resolution])
        inserted.pruneToRetentionCount = .ok () updated ∧
      finalizeUpTo f updated = .ok () bars' := by
  rw [insertData_eq] at h
  obtain ⟨padded, paddedBars, hp, hinsert⟩ := EStateM.bind_eq_ok.mp h
  obtain ⟨_, inserted, hi, hretain⟩ := EStateM.bind_eq_ok.mp hinsert
  obtain ⟨_, pruned, hr, hupdate⟩ := EStateM.bind_eq_ok.mp hretain
  obtain ⟨_, updated, hu, hfinalize⟩ := EStateM.bind_eq_ok.mp hupdate
  have hpruned : inserted.pruneToRetentionCount = pruned := by
    injection hr
  rw [← hpruned] at hu
  exact ⟨padded, paddedBars, inserted, updated, hp, hi, hu, hfinalize⟩

/-- A call from its retention on. -/
theorem insertData_of_inserted {n : Nat} {d : TickData} {bts : Nat} {f : Option Nat}
    {bars paddedBars inserted : TimePriceBars} {padded : List Nat}
    (hp : padMissing n bts bars = .ok padded paddedBars)
    (hi : insertBlock n d bts (fromTimestamp bts bars.resolution) paddedBars = .ok () inserted) :
    insertData n d bts f bars = (do
      updateTouched bars.indicatorsConfig (padded ++ [fromTimestamp bts bars.resolution])
      finalizeUpTo f : TimePriceBarsM Unit) inserted.pruneToRetentionCount := by
  rw [insertData_eq, EStateM.bind_of_ok hp, EStateM.bind_of_ok hi,
    EStateM.bind_of_ok (show (modify pruneToRetentionCount : TimePriceBarsM _) inserted =
      .ok ⟨⟩ inserted.pruneToRetentionCount from rfl)]

theorem insertData_of_stages {n : Nat} {d : TickData} {bts : Nat} {f : Option Nat}
    {bars bars' paddedBars inserted updated : TimePriceBars} {padded : List Nat}
    (hp : padMissing n bts bars = .ok padded paddedBars)
    (hi : insertBlock n d bts (fromTimestamp bts bars.resolution) paddedBars = .ok () inserted)
    (hu : updateTouched bars.indicatorsConfig (padded ++ [fromTimestamp bts bars.resolution])
      inserted.pruneToRetentionCount = .ok () updated)
    (hf : finalizeUpTo f updated = .ok () bars') : insertData n d bts f bars = .ok () bars' := by
  rw [insertData_of_inserted hp hi, EStateM.bind_of_ok hu, hf]

/-- A bar in the first buckets of the epoch cannot be given indicators. -/
theorem updateTouched_early {config : IndicatorsConfig} {ts : Nat} {bars : TimePriceBars}
    (h : ts < 5700) : updateTouched (some config) [ts] bars = .error .panic bars := by
  have hnone : Indicators.compute ts bars.resolution bars.data config = none := by
    rw [← Option.not_isSome_iff_eq_none, Indicators.compute_isSome_iff]
    omega
  have hu : updateIndicators ts config bars = .error .panic bars := by
    simp only [updateIndicators, hnone]
  exact EStateM.bind_of_error hu

/-- Where a call can stop. -/
theorem insertData_cases (n : Nat) (d : TickData) (bts : Nat) (f : Option Nat)
    (bars : TimePriceBars) :
    ∃ padded paddedBars, padMissing n bts bars = .ok padded paddedBars ∧
      ((∃ e, insertBlock n d bts (fromTimestamp bts bars.resolution) paddedBars =
          .error e paddedBars ∧ insertData n d bts f bars = .error e paddedBars) ∨
        ∃ inserted, insertBlock n d bts (fromTimestamp bts bars.resolution) paddedBars =
            .ok () inserted ∧
          ((∃ e updated, updateTouched bars.indicatorsConfig
              (padded ++ [fromTimestamp bts bars.resolution]) inserted.pruneToRetentionCount =
                .error e updated ∧ insertData n d bts f bars = .error e updated) ∨
            ∃ updated, updateTouched bars.indicatorsConfig
              (padded ++ [fromTimestamp bts bars.resolution]) inserted.pruneToRetentionCount =
                .ok () updated ∧ insertData n d bts f bars = finalizeUpTo f updated)) := by
  obtain ⟨padded, paddedBars, hp⟩ := padMissing_ok n bts bars
  refine ⟨padded, paddedBars, hp, ?_⟩
  cases hi : insertBlock n d bts (fromTimestamp bts bars.resolution) paddedBars with
  | error e s =>
    obtain ⟨rfl, -⟩ := insertBlock_eq_error hi
    refine Or.inl ⟨e, rfl, ?_⟩
    rw [insertData_eq, EStateM.bind_of_ok hp, EStateM.bind_of_error hi]
  | ok u inserted =>
    refine Or.inr ⟨inserted, rfl, ?_⟩
    rw [insertData_of_inserted hp hi]
    cases hu : updateTouched bars.indicatorsConfig
      (padded ++ [fromTimestamp bts bars.resolution]) inserted.pruneToRetentionCount with
    | error e s => exact Or.inl ⟨e, s, rfl, EStateM.bind_of_error hu⟩
    | ok u updated => exact Or.inr ⟨updated, rfl, EStateM.bind_of_ok hu⟩

theorem updateTouched_sameContent (config : Option IndicatorsConfig) (touched : List Nat)
    (bars : TimePriceBars) : SameContent bars (updateTouched config touched bars).state := by
  cases config with
  | some config => exact updateAll_sameContent config touched bars
  | none => exact SameContent.refl bars

theorem updateTouched_ok_sameContent {config : Option IndicatorsConfig} {touched : List Nat}
    {bars bars' : TimePriceBars} (h : updateTouched config touched bars = .ok () bars') :
    SameContent bars bars' := by
  have hs := updateTouched_sameContent config touched bars
  rwa [h] at hs

/-- What holds after the padding and is kept by the later stages holds after the
call, whatever its outcome. -/
theorem insertData_state {I : TimePriceBars → Prop} {n : Nat} {d : TickData} {bts : Nat}
    {f : Option Nat} {bars : TimePriceBars} (hpad : I (padMissing n bts bars).state)
    (hinsert : EStateM.Keeps I (insertBlock n d bts (fromTimestamp bts bars.resolution)))
    (hretain : ∀ bars, I bars → I bars.pruneToRetentionCount)
    (hupdate : ∀ config touched, EStateM.Keeps I (updateTouched config touched))
    (hfinalize : EStateM.Keeps I (finalizeUpTo f)) : I (insertData n d bts f bars).state := by
  rw [insertData_eq]
  refine EStateM.state_bind hpad fun padded => ?_
  refine EStateM.Keeps.bind hinsert fun _ => ?_
  refine EStateM.Keeps.bind (EStateM.Keeps.modify hretain) fun _ => ?_
  exact EStateM.Keeps.bind (hupdate _ _) fun _ => hfinalize

end TimePriceBars

end Pochtecatl
