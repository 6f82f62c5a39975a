import Pochtecatl.BarsHistory

namespace Pochtecatl

namespace TimePriceBars

open ResolutionTimestamp

variable {t₀ n r next key : Nat} {d : TickData} {f : Option Nat} {x y x' : TimePriceBars}

/-- The keys that a retention of `c` bars leaves, when it drops the bar of `key`. -/
structure DroppedFrom (key c : Nat) (bars : TimePriceBars) : Prop where
  size : bars.data.size = c
  above : ∀ key' bar, bars.data.get? key' = some bar → key < key'

theorem DroppedFrom.of_isSome {c : Nat} (h : DroppedFrom key c x)
    (hk : ∀ k, (y.data.get? k).isSome = (x.data.get? k).isSome) : DroppedFrom key c y := by
  refine ⟨(OrdMap.size_eq_of_isSome hk).trans h.size, fun key' bar hg => ?_⟩
  have hsome := hk key'
  rw [hg] at hsome
  obtain ⟨bar', hx⟩ := Option.isSome_iff_exists.mp hsome.symm
  exact h.above key' bar' hx

/-- A bar stays in retention, or as many bars as are retained are above it. -/
theorem pruneToRetentionCount_cases {bar : TimePriceBar} (hg : x.data.get? key = some bar) :
    x.pruneToRetentionCount.data.get? key = some bar ∨
      ∃ c, x.retentionCount = some c ∧ DroppedFrom key c x.pruneToRetentionCount := by
  cases hrc : x.retentionCount with
  | none =>
    rw [pruneToRetentionCount_of_none hrc]
    exact Or.inl hg
  | some c =>
    have hdata := pruneToRetentionCount_data hrc
    by_cases hcount : x.data.countFrom key ≤ c
    · left
      rw [hdata, OrdMap.get?_filterKeys, if_pos (decide_eq_true hcount), hg]
    · refine Or.inr ⟨c, rfl, ?_, fun key' bar' hk => ?_⟩
      · have hsize : x.data.countFrom key ≤ x.data.size := List.length_filter_le _ _
        have hentries := OrdMap.popFirstUntil_entries c x.data.size x.data le_rfl
        simp only [pruneToRetentionCount, hrc, OrdMap.size] at hentries hsize ⊢
        rw [hentries, List.length_drop]
        omega
      · rw [hdata, OrdMap.get?_filterKeys] at hk
        split at hk
        next hkept =>
          refine Nat.lt_of_not_le fun hle => hcount ?_
          exact (OrdMap.countFrom_antitone x.data hle).trans (of_decide_eq_true hkept)
        next => cases hk

theorem SameContent.isSome_get? (h : SameContent x y) (k : Nat) :
    (y.data.get? k).isSome = (x.data.get? k).isSome := by
  have hc := congrArg Option.isSome (h.content k)
  rwa [Option.isSome_map, Option.isSome_map] at hc

/-- An insert leaves a finalized bar as it is, or retention drops it. -/
theorem Chained.insertData_finalized (h : Chained t₀ next x) (hn : next ≤ n)
    (hok : TimePriceBars.insertData n d (blockTime t₀ n) f x = .ok () x')
    {g : FinalizedTimePriceBar} (hg : x.data.get? key = some (.finalized g)) :
    x'.data.get? key = some (.finalized g) ∨
      ∃ c, x.retentionCount = some c ∧ DroppedFrom key c x' := by
  have hr : Reached x.lastFinalizedTimestamp key := (h.bar key _ hg).final rfl
  obtain ⟨padded, y, z, u, hp, hi, hu, hfin⟩ := insertData_ok hok
  have hy : y.data.get? key = some (.finalized g) := by
    rcases padMissing_cases n (blockTime t₀ n) x with ⟨he, -⟩ | ⟨b, tick, p, hl, hlt, -, he⟩
    · rw [he] at hp
      cases hp
      exact hg
    · rw [he] at hp
      cases hp
      rw [padTarget_blockTime (by omega), OrdMap.get?_insert_ne, hg]
      rintro rfl
      exact h.tip b (h.linked.inOrder.highestStored h.nonempty hl) hr
  have htouched : key ∉ padded ++ [blockBucket t₀ x.resolution n] := by
    intro hm
    have hz : z.data.get? key = some (.finalized g) := by
      obtain ⟨q, -, -, rfl⟩ := insertBlock_ok hi
      refine (OrdMap.get?_insert_ne ?_).trans hy
      rintro rfl
      exact h.ahead n hn hr
    obtain ⟨p, hpending⟩ := (h.touched_pending hn hp hi hm).1
    rw [hz] at hpending
    cases hpending
  have hz : z.data.get? key = some (.finalized g) := by
    obtain ⟨q, -, -, rfl⟩ := insertBlock_ok hi
    refine (OrdMap.get?_insert_ne fun he => htouched ?_).trans hy
    exact List.mem_append_right _ (List.mem_singleton.mpr he)
  have hget := finalizeUpTo_ok_get? hfin
  rcases pruneToRetentionCount_cases hz with hkept | ⟨c, hc, hdropped⟩
  · left
    rw [hget, updateTouched_get?_of_not_mem hu htouched, hkept, Option.map_some, settleIn]
    exact congrArg some (ite_self _)
  · refine Or.inr ⟨c, ?_, ?_⟩
    · obtain ⟨q, -, -, rfl⟩ := insertBlock_ok hi
      exact (padMissing_settings hp).retentionCount.symm.trans hc
    · refine (hdropped.of_isSome (updateTouched_ok_sameContent hu).isSome_get?).of_isSome fun k => ?_
      rw [hget, Option.isSome_map]

/-- A reorg that completes leaves finalized bars as they are. -/
theorem pruneToReorgedBlockNumber_finalized
    (hok : pruneToReorgedBlockNumber r x = .ok () x') {g : FinalizedTimePriceBar}
    (hg : x.data.get? key = some (.finalized g)) : x'.data.get? key = some (.finalized g) := by
  obtain ⟨pruned, looped, hloop, hupdate⟩ := pruneToReorgedBlockNumber_ok hok
  obtain ⟨-, hswept, hcut⟩ := pruneLoop_ok hloop
  have hkey : pruned ≠ some key := by
    intro hp
    obtain ⟨q, hq, -⟩ := hcut key hp
    rw [hg] at hq
    cases hq
  rw [updateTouched_get?_of_not_mem hupdate fun hm => hkey (Option.mem_toList.mp hm)]
  rcases hswept key hkey with he | ⟨-, hnone⟩
  · exact he.trans hg
  · rw [hg] at hnone
    cases hnone

section

variable {h h' : BarsHistory}

/-- The call is an insert whose retention drops the bar. -/
def RetentionDrops (key : Nat) (h : BarsHistory) (call : BarsCall) (h' : BarsHistory) : Prop :=
  (∃ n d f, call = .insertData n d f) ∧
    ∃ c, h.bars.retentionCount = some c ∧ DroppedFrom key c h'.bars

theorem Orderly.step_finalized {call : BarsCall} (ho : Orderly t₀ h)
    (hstep : (history t₀).step h call = some h') {g : FinalizedTimePriceBar}
    (hg : h.bars.data.get? key = some (.finalized g)) :
    h'.bars.data.get? key = some (.finalized g) ∨ RetentionDrops key h call h' := by
  cases call with
  | insertData n d f =>
    obtain ⟨hadmits, hpanic, rfl⟩ := history_step_insertData hstep
    rcases ho.insertData_cases hadmits d with ⟨bars, hok⟩ | ⟨bars, herr⟩
    · rw [hok]
      exact (ho.chained.insertData_finalized hadmits.1 hok hg).imp_right fun hdropped =>
        ⟨⟨n, d, f, rfl⟩, hdropped⟩
    · exact absurd herr (hpanic bars)
  | pruneToReorgedBlockNumber r =>
    obtain ⟨bars, hok, rfl⟩ := history_step_pruneToReorgedBlockNumber hstep
    exact Or.inl (pruneToReorgedBlockNumber_finalized hok hg)

/-- A finalized bar stays as it is through further calls, until retention drops it. -/
theorem Orderly.finalized_throughout {cs : List BarsCall} (ho : Orderly t₀ h)
    (hahead : (history t₀).Along (ReorgsAhead t₀) h cs) {g : FinalizedTimePriceBar}
    (hg : h.bars.data.get? key = some (.finalized g)) :
    (history t₀).Throughout (fun s => s.bars.data.get? key = some (.finalized g)) h cs ∨
      ∃ before call after s s', cs = before ++ call :: after ∧
        (history t₀).Throughout (fun s => s.bars.data.get? key = some (.finalized g)) h before ∧
        (history t₀).run h before = some s ∧ (history t₀).step s call = some s' ∧
          RetentionDrops key s call s' := by
  induction cs generalizing h with
  | nil => exact Or.inl hg
  | cons call cs ih =>
    cases hstep : (history t₀).step h call with
    | none =>
      refine Or.inl ⟨hg, fun s hs => ?_⟩
      rw [hstep] at hs
      cases hs
    | some s =>
      obtain ⟨hp, hrest⟩ := hahead s hstep
      have hfrom : ∀ cs, (history t₀).Throughout
          (fun s => s.bars.data.get? key = some (.finalized g)) s cs →
          (history t₀).Throughout
            (fun s => s.bars.data.get? key = some (.finalized g)) h (call :: cs) := by
        intro cs hcs
        refine ⟨hg, fun s' hs' => ?_⟩
        rw [hstep] at hs'
        cases hs'
        exact hcs
      rcases ho.step_finalized hstep hg with hkept | hdrops
      · rcases ih (ho.step hstep hp) hrest hkept with
          hcs | ⟨before, call', after, u, u', rfl, hbefore, hrun, hstep', hdrops⟩
        · exact Or.inl (hfrom cs hcs)
        · refine Or.inr ⟨call :: before, call', after, u, u', rfl, hfrom before hbefore, ?_, hstep',
            hdrops⟩
          exact Machine.run_cons_eq_some.mpr ⟨s, hstep, hrun⟩
      · exact Or.inr ⟨[], call, cs, h, s, rfl, hg, rfl, hstep, hdrops⟩

end

end TimePriceBars

def BarsCall.finalizedTimestamp : BarsCall → Option Nat
  | .insertData _ _ f => f
  | .pruneToReorgedBlockNumber _ => none

namespace TimePriceBars

variable {t₀ : Nat} {h h' : BarsHistory}

/-- The last finalized timestamp passed is the largest one. -/
theorem history_passed_of {cs : List BarsCall} {l : List Nat} (hmax : h.passed = l.max?)
    (hrun : (history t₀).run h cs = some h') :
    h'.passed = (l ++ cs.filterMap BarsCall.finalizedTimestamp).max? := by
  induction cs generalizing h l with
  | nil =>
    cases hrun
    simpa using hmax
  | cons call cs ih =>
    obtain ⟨s, hstep, hrest⟩ := Machine.run_cons_eq_some.mp hrun
    cases call with
    | pruneToReorgedBlockNumber r =>
      obtain ⟨bars, -, rfl⟩ := history_step_pruneToReorgedBlockNumber hstep
      refine @ih _ l ?_ hrest
      exact hmax
    | insertData n d f =>
      obtain ⟨hadmits, -, rfl⟩ := history_step_insertData hstep
      cases f with
      | none =>
        refine @ih _ l ?_ hrest
        rw [Option.none_or]
        exact hmax
      | some v =>
        have hv : some v = (l ++ [v]).max? := by
          refine (List.max?_eq_some_iff.mpr ⟨by simp, fun w hw => ?_⟩).symm
          rcases List.mem_append.mp hw with hw | hw
          · obtain ⟨m, hm⟩ := Option.isSome_iff_exists.mp (List.isSome_max?_of_mem hw)
            exact ((List.max?_eq_some_iff.mp hm).2 w hw).trans
              ((hadmits.2 v rfl).2.2 m (hmax.trans hm))
          · exact (List.mem_singleton.mp hw).le
        have hall := @ih _ (l ++ [v]) (by rw [Option.some_or, hv]) hrest
        rw [List.append_assoc] at hall
        exact hall

/-- Finalization partitions the bars at the largest finalized timestamp passed, and what it
finalized stays as it is until retention drops it. -/
theorem history_partition {rc : Option Nat} {res : Resolution} {config : Option IndicatorsConfig}
    {cs : List BarsCall} (hrc : ∀ c, rc = some c → 2 ≤ c)
    (hahead : (history t₀).Along (ReorgsAhead t₀) (.new rc res config) cs)
    (hrun : (history t₀).run (.new rc res config) cs = some h) :
    (∀ key bar, h.bars.data.get? key = some bar →
      (bar.isFinalized ↔ ∃ last, h.bars.lastFinalizedTimestamp = some last ∧ key ≤ last)) ∧
    h.bars.lastFinalizedTimestamp = (cs.filterMap BarsCall.finalizedTimestamp).max? ∧
    ∀ key g, h.bars.data.get? key = some (.finalized g) →
      ∀ cs', (history t₀).Along (ReorgsAhead t₀) h cs' →
        (history t₀).Throughout (fun s => s.bars.data.get? key = some (.finalized g)) h cs' ∨
          ∃ before call after s s', cs' = before ++ call :: after ∧
            (history t₀).Throughout (fun s => s.bars.data.get? key = some (.finalized g)) h before ∧
            (history t₀).run h before = some s ∧ (history t₀).step s call = some s' ∧
              RetentionDrops key s call s' := by
  have ho := history_orderly hrc hahead hrun
  refine ⟨fun key bar hg => ⟨fun hfin => ?_, fun hr => ?_⟩, ?_, fun key g hg cs' hahead' => ?_⟩
  · exact (ho.chained.bar key bar hg).final hfin
  · exact ho.chained.settled key bar hg hr
  · rw [ho.passed]
    exact history_passed_of (l := []) rfl hrun
  · exact ho.finalized_throughout hahead' hg

/-- A finalized bar below the bar of a reorged block. -/
theorem history_partition_after_reorg : ∃ h,
    (history 5998).run (.new (some 2) .fiveMinutes none) [.insertData 0 unitTick none,
      .insertData 1 unitTick (some 5700), .insertData 2 unitTick (some 5700),
        .pruneToReorgedBlockNumber 2] = some h ∧
      h.bars.lastFinalizedTimestamp = some 5700 ∧
      ∀ key bar, h.bars.data.get? key = some bar →
        (bar.isFinalized ↔ ∃ last, h.bars.lastFinalizedTimestamp = some last ∧ key ≤ last) := by
  obtain ⟨h, hrun⟩ : ∃ h, (history 5998).run (.new (some 2) .fiveMinutes none)
      [.insertData 0 unitTick none, .insertData 1 unitTick (some 5700),
        .insertData 2 unitTick (some 5700), .pruneToReorgedBlockNumber 2] = some h := ⟨_, rfl⟩
  have hrc : ∀ c, some 2 = some c → 2 ≤ c := fun c hc => by
    cases hc
    exact le_rfl
  have hahead : (history 5998).Along (ReorgsAhead 5998) (.new (some 2) .fiveMinutes none)
      [.insertData 0 unitTick none, .insertData 1 unitTick (some 5700),
        .insertData 2 unitTick (some 5700), .pruneToReorgedBlockNumber 2] := by
    refine fun h₁ hs₁ => ⟨nofun, fun h₂ hs₂ => ⟨nofun, fun h₃ hs₃ => ⟨nofun, fun _ _ => ⟨?_, trivial⟩⟩⟩⟩
    cases hs₁
    cases hs₂
    cases hs₃
    intro r hr last hl
    cases hr
    cases hl
    decide
  obtain ⟨hpartition, hpassed, -⟩ := history_partition hrc hahead hrun
  exact ⟨h, hrun, hpassed, hpartition⟩

end TimePriceBars

end Pochtecatl
