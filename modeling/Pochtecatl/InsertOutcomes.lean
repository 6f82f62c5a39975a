import Pochtecatl.ChainedCalls

namespace Pochtecatl

namespace TimePriceBars

open ResolutionTimestamp

variable {t₀ n r bound : Nat} {d : TickData} {f : Option Nat} {x y x' : TimePriceBars}

/-- A sound bar has a tick. -/
theorem SoundBar.data_isSome {t₀ : Nat} {res : Resolution} {frontier : Option Nat} {key : Nat}
    {bar : TimePriceBar} (h : SoundBar t₀ res frontier key bar) :
    bar.data.isSome := by
  cases bar with
  | finalized f => rfl
  | pending p =>
    obtain ⟨f, hf⟩ := h.exists_asFinalized
    obtain ⟨-, -, hd, -⟩ := PendingTimePriceBar.asFinalized_eq_some_iff.mp hf
    rw [TimePriceBar.data, hd]
    rfl

/-- The bars are sound, whatever the calls before returned. -/
def SoundBars (t₀ : Nat) (bars : TimePriceBars) : Prop :=
  AllBars (SoundBar t₀ bars.resolution bars.lastFinalizedTimestamp) bars

theorem SoundBars.notEarly (h : SoundBars t₀ x) : AllBars (NotEarly t₀ x.resolution) x :=
  fun key bar hk => (h key bar hk).early

theorem new_soundBars (t₀ : Nat) (rc : Option Nat) (res : Resolution)
    (config : Option IndicatorsConfig) : SoundBars t₀ (.new rc res config) :=
  fun _ _ hk => by cases hk

theorem insertData_none_frontier (n : Nat) (d : TickData) (bts : Nat) (x : TimePriceBars) :
    (insertData n d bts none x).state.lastFinalizedTimestamp = x.lastFinalizedTimestamp := by
  refine @insertData_state (fun s => s.lastFinalizedTimestamp = x.lastFinalizedTimestamp)
    n d bts none x ?_ ?_ ?_ ?_ ?_
  · obtain ⟨padded, y, hp⟩ := padMissing_ok n bts x
    rw [hp, padMissing_fields hp]
    rfl
  · intro s hs
    cases hi : insertBlock n d bts (fromTimestamp bts x.resolution) s with
    | ok u s' =>
      obtain ⟨bar, -, -, rfl⟩ := insertBlock_ok hi
      exact hs
    | error e s' =>
      rw [EStateM.Result.state_error, (insertBlock_eq_error hi).1]
      exact hs
  · intro s hs
    rw [pruneToRetentionCount_fields]
    exact hs
  · intro config touched s hs
    rw [(updateTouched_sameContent config touched s).lastFinalizedTimestamp]
    exact hs
  · exact fun s hs => hs

theorem SoundBars.insertData_none (h : SoundBars t₀ x) (n : Nat) (d : TickData) :
    SoundBars t₀ (insertData n d (blockTime t₀ n) none x).state := by
  have hstate := @insertData_state_soundBar t₀ n d none x.lastFinalizedTimestamp x h
    fun key hr => by
      obtain ⟨v, hv, -⟩ := hr
      cases hv
  rw [SoundBars, insertData_none_frontier, (insertData_settings _ _ _ _ x).resolution]
  exact hstate

/-- Bars stay sound whatever an insert returns. -/
theorem SoundBars.insertData (h : SoundBars t₀ x) (n : Nat) (d : TickData) (f : Option Nat) :
    SoundBars t₀ (TimePriceBars.insertData n d (blockTime t₀ n) f x).state := by
  have hnone := h.insertData_none n d
  cases hn : TimePriceBars.insertData n d (blockTime t₀ n) none x with
  | error e s =>
    rw [hn] at hnone
    rw [insertData_eq_finalizeUpTo, EStateM.bind_of_error hn]
    exact hnone
  | ok u s =>
    rw [hn, EStateM.Result.state_ok] at hnone
    rcases finalizeUpTo_cases hnone f with ⟨s', hf⟩ | ⟨hf, -⟩
    · have hok : TimePriceBars.insertData n d (blockTime t₀ n) f x = .ok () s' := by
        rw [insertData_eq_finalizeUpTo, EStateM.bind_of_ok hn, hf]
      rw [hok]
      exact insertData_soundBar h hok
    · rw [insertData_eq_finalizeUpTo, EStateM.bind_of_ok hn, hf]
      exact hnone

theorem SoundBars.pruneToReorgedBlockNumber (h : SoundBars t₀ x) (r : Nat) :
    SoundBars t₀ (TimePriceBars.pruneToReorgedBlockNumber r x).state := by
  rw [SoundBars, pruneToReorgedBlockNumber_frontier,
    (pruneToReorgedBlockNumber_settings r x).resolution]
  exact AllBars.pruneToReorgedBlockNumber (soundBar_barRule _ _ _) r h

/-- No bar lies above the bucket. -/
def KeysUpTo (bound : Nat) (bars : TimePriceBars) : Prop := AllBars (fun key _ => key ≤ bound) bars

theorem keysUpTo_barRule (bound : Nat) : BarRule (fun key _ => key ≤ bound) where
  content := fun _ h => h
  cut := fun _ h => h

theorem KeysUpTo.insertData (h : KeysUpTo bound x) (hn : blockBucket t₀ x.resolution n ≤ bound)
    (d : TickData) (f : Option Nat) :
    KeysUpTo bound (TimePriceBars.insertData n d (blockTime t₀ n) f x).state := by
  refine AllBars.insertData (keysUpTo_barRule bound) h ?_ (fun _ _ _ => hn) fun _ _ _ _ _ hk => hk
  intro b tick bar _ hlt _
  rw [padTarget_blockTime (by omega)]
  exact (blockBucket_mono (by omega)).trans hn

theorem KeysUpTo.pruneToReorgedBlockNumber (h : KeysUpTo bound x) (r : Nat) :
    KeysUpTo bound (TimePriceBars.pruneToReorgedBlockNumber r x).state :=
  AllBars.pruneToReorgedBlockNumber (keysUpTo_barRule bound) r h

/-- A completed reorg leaves no bar above the bucket of the reorged block. -/
theorem SoundBars.keysUpTo_of_pruneToReorgedBlockNumber (h : SoundBars t₀ x)
    (hok : TimePriceBars.pruneToReorgedBlockNumber r x = .ok () x') :
    KeysUpTo (blockBucket t₀ x.resolution r) x' := by
  have hsound := h.pruneToReorgedBlockNumber r
  have hres := (pruneToReorgedBlockNumber_ok_settings hok).resolution
  obtain ⟨pruned, s, hloop, -⟩ := pruneToReorgedBlockNumber_ok hok
  have hsame := pruneToReorgedBlockNumber_sameContent r x
  rw [hok] at hsound hsame
  rw [hloop] at hsame
  have hlast := (pruneLoop_ok hloop).1
  intro key bar hk
  obtain ⟨last, hl⟩ : ∃ last, x'.data.lastEntry = some last := by
    rw [← Option.ne_none_iff_exists']
    intro hnone
    rw [OrdMap.lastEntry_eq_none_iff.mp hnone key] at hk
    cases hk
  obtain ⟨lastKey, lastBar⟩ := last
  obtain ⟨hget, hmax⟩ := OrdMap.lastEntry_eq_some_iff.mp hl
  obtain ⟨lastBar₀, hget₀, hcontent⟩ := hsame.exists_bar hget
  have hl₀ : s.data.lastEntry = some (lastKey, lastBar₀) := by
    refine OrdMap.lastEntry_eq_some_iff.mpr ⟨hget₀, fun k v hkv => ?_⟩
    obtain ⟨v', hv', -⟩ := hsame.symm.exists_bar hkv
    exact hmax k v' hv'
  obtain ⟨j, hj⟩ := (hsound lastKey lastBar hget).early.1
  have hjr : j < r := hlast lastKey lastBar₀ hl₀ j ((TimePriceBar.holds_iff_of_content hcontent j).mp hj)
  have hkey : lastKey ≤ blockBucket t₀ x'.resolution j := (hsound lastKey lastBar hget).early.2 j hj
  rw [show x'.resolution = x.resolution from hres] at hkey
  exact (hmax key bar hk).trans (hkey.trans (blockBucket_mono hjr.le))

/-- The insert of a block whose bucket is new never returns an error. -/
theorem SoundBars.insertData_ne_err (h : SoundBars t₀ x)
    (hnew : ∀ key bar, x.data.get? key = some bar → key < blockBucket t₀ x.resolution n)
    (hrc : ∀ c, x.retentionCount = some c → 2 ≤ c) (e : TimePriceBarsError) (s : TimePriceBars) :
    TimePriceBars.insertData n d (blockTime t₀ n) f x ≠ .error (.err e) s := by
  intro herr
  have habsent : x.data.get? (blockBucket t₀ x.resolution n) = none := by
    cases hg : x.data.get? (blockBucket t₀ x.resolution n) with
    | none => rfl
    | some bar => exact absurd (hnew _ bar hg) (lt_irrefl _)
  have hfresh : ∀ e, PendingTimePriceBar.new.endBlockNumber = some e → e + 1 = n := fun e he => by
    cases he
  obtain ⟨padded, y, hp⟩ := padMissing_ok n (blockTime t₀ n) x
  obtain ⟨z, hi⟩ : ∃ z, insertBlock n d (blockTime t₀ n) (blockBucket t₀ x.resolution n) y =
      .ok () z := by
    rcases padMissing_cases n (blockTime t₀ n) x with ⟨he, -⟩ | ⟨b, tick, p, -, hlt, hg, he⟩
    · rw [he] at hp
      cases hp
      exact ⟨_, insertBlock_of_pending (by rw [habsent]; rfl) hfresh⟩
    · rw [he] at hp
      cases hp
      rw [padTarget_blockTime (by omega)] at hg ⊢
      by_cases hsame : blockBucket t₀ x.resolution n = blockBucket t₀ x.resolution b
      · -- the padding opened the bucket, and ends right before the block
        refine ⟨_, insertBlock_of_pending (by rw [hsame, OrdMap.get?_insert_self]; rfl) ?_⟩
        intro e hend
        rw [← hsame, habsent] at hg
        cases hg
        obtain ⟨hholds, hmax⟩ := PendingTimePriceBar.endBlockNumber_eq_some_iff.mp hend
        have hpadded : ∀ k, b < k → k < n → (TimePriceBar.pending
            (PendingTimePriceBar.new.insertBlockPriceBarRange (paddedNumbers b n) tick)).Holds k :=
          fun k hbk hkn => PendingTimePriceBar.holds_insertBlockPriceBarRange.mpr
            (Or.inl (mem_paddedNumbers.mpr ⟨hbk, hkn⟩))
        have hlast := hmax (n - 1) (hpadded (n - 1) (by omega) (by omega))
        rcases PendingTimePriceBar.holds_insertBlockPriceBarRange.mp hholds with hm | hm
        · have := mem_paddedNumbers.mp hm
          omega
        · exact absurd hm (PendingTimePriceBar.not_holds_new e)
      · refine ⟨_, insertBlock_of_pending ?_ hfresh⟩
        rw [OrdMap.get?_insert_ne hsame, habsent]
        rfl
  have hkeys : ∀ key bar, x.data.get? key = some bar → key ≤ blockBucket t₀ x.resolution n :=
    fun key bar hk => (hnew key bar hk).le
  have hz : z.retentionCount = x.retentionCount := by
    obtain ⟨q, -, -, rfl⟩ := insertBlock_ok hi
    exact (padMissing_settings hp).retentionCount
  have hpending : ∀ ts ∈ padded ++ [blockBucket t₀ x.resolution n],
      ∃ p, z.pruneToRetentionCount.data.get? ts = some (.pending p) := by
    intro ts hts
    obtain ⟨⟨p, hg⟩, hcount⟩ := touched_pending h.notEarly hkeys hp hi hts
    refine ⟨p, ?_⟩
    rw [get?_pruneToRetentionCount_of_le hcount (fun c hc => hrc c (hz ▸ hc)), hg]
  have hsound := h.insertData_none n d
  rcases @updateTouched_of_pending _ x.indicatorsConfig _ hpending with ⟨u, hu⟩ | ⟨u, hu⟩
  · have hok : TimePriceBars.insertData n d (blockTime t₀ n) none x = .ok () u :=
      insertData_of_stages hp hi hu rfl
    rw [hok, EStateM.Result.state_ok] at hsound
    rw [insertData_eq_finalizeUpTo, EStateM.bind_of_ok hok] at herr
    rcases finalizeUpTo_cases hsound f with ⟨s', hf⟩ | ⟨hf, -⟩
    · rw [hf] at herr
      cases herr
    · rw [hf] at herr
      cases herr
  · have hpanic : TimePriceBars.insertData n d (blockTime t₀ n) f x = .error .panic u :=
      (insertData_of_inserted hp hi).trans (EStateM.bind_of_error hu)
    rw [hpanic] at herr
    cases herr

/-- The bar updated last has indicators. -/
theorem updateAll_append_ok {config : IndicatorsConfig} {l : List Nat} {ts : Nat}
    (h : updateAll config (l ++ [ts]) x = .ok () y) :
    ∃ i p, y.data.get? ts = some (.pending (PendingTimePriceBar.setIndicators p i)) := by
  induction l generalizing x with
  | nil =>
    obtain ⟨u, s, hu, hrest⟩ := EStateM.bind_eq_ok.mp h
    cases hrest
    obtain ⟨i, bar, -, -, rfl⟩ := updateIndicators_eq_ok hu
    exact ⟨i, bar, OrdMap.get?_insert_self _ _ _⟩
  | cons t l ih =>
    obtain ⟨u, s, -, hrest⟩ := EStateM.bind_eq_ok.mp h
    exact ih hrest

/-- After a completed insert the bar of the block is there, with its indicators. -/
theorem insertData_ok_indicators {config : IndicatorsConfig} {bts : Nat}
    (hc : x.indicatorsConfig = some config) (hok : insertData n d bts f x = .ok () x') :
    ∃ bar, x'.data.get? (fromTimestamp bts x.resolution) = some bar ∧ bar.indicators.isSome := by
  obtain ⟨padded, paddedBars, inserted, updated, -, -, hu, hf⟩ := insertData_ok hok
  rw [hc] at hu
  obtain ⟨i, p, hg⟩ := updateAll_append_ok hu
  refine ⟨_, by rw [finalizeUpTo_ok_get? hf, hg]; rfl, ?_⟩
  have hsummary : ∀ bar : TimePriceBar,
      (updated.settleIn f (fromTimestamp bts x.resolution) bar).indicators = bar.indicators := by
    intro bar
    unfold settleIn
    split
    next => exact congrArg Prod.snd (TimePriceBar.summary_settle bar)
    next => rfl
  rw [hsummary]
  rfl

/-- Retention bounds the number of bars after an insert. -/
theorem insertData_ok_size {bts c : Nat} (hrc : x.retentionCount = some c)
    (hok : insertData n d bts f x = .ok () x') : x'.data.size ≤ c := by
  obtain ⟨padded, paddedBars, inserted, updated, hp, hi, hu, hf⟩ := insertData_ok hok
  have hinserted : inserted.retentionCount = some c := by
    obtain ⟨q, -, -, rfl⟩ := insertBlock_ok hi
    exact (padMissing_settings hp).retentionCount.trans hrc
  have hsize : x'.data.size = inserted.pruneToRetentionCount.data.size := by
    refine OrdMap.size_eq_of_isSome fun k => ?_
    have hcontent := congrArg Option.isSome ((updateTouched_ok_sameContent hu).content k)
    rw [Option.isSome_map, Option.isSome_map] at hcontent
    rw [finalizeUpTo_ok_get? hf, Option.isSome_map, hcontent]
  rw [hsize, pruneToRetentionCount, hinserted]
  exact OrdMap.size_popFirstUntil_le c inserted.data

end TimePriceBars

end Pochtecatl
