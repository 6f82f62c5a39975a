import Pochtecatl.FreshIndicators

namespace Pochtecatl

/-- A bar that holds blocks and their reduced tick can be finalized. -/
theorem PendingTimePriceBar.exists_asFinalized {p : PendingTimePriceBar}
    (hne : ∃ k, (TimePriceBar.pending p).Holds k)
    (hreduced : p.data = TickData.reduce p.blockPriceBars.values) :
    ∃ f, p.asFinalized = some f := by
  obtain ⟨k, tick, hk⟩ := hne
  obtain ⟨s, e, hs, he, -, -⟩ := @exists_start_end p k ⟨tick, hk⟩
  have hdata : p.data ≠ none := by
    rw [hreduced, Ne, TickData.reduce_eq_none_iff]
    exact List.ne_nil_of_mem (OrdMap.mem_values_iff.mpr ⟨k, hk⟩)
  obtain ⟨data, hd⟩ := Option.ne_none_iff_exists'.mp hdata
  refine ⟨⟨data, p.indicators, s, e⟩, ?_⟩
  simp only [asFinalized, hs, he, hd]

namespace TimePriceBars

open ResolutionTimestamp

theorem insertData_ok_settings {n : Nat} {d : TickData} {bts : Nat} {f : Option Nat}
    {bars bars' : TimePriceBars} (h : insertData n d bts f bars = .ok () bars') :
    SameSettings bars bars' := by
  have hs := insertData_settings n d bts f bars
  rwa [h] at hs

/-- Finalization got to the bucket. -/
def Reached (finalizedTimestamp : Option Nat) (key : Nat) : Prop :=
  ∃ f, finalizedTimestamp = some f ∧ key ≤ f

instance (finalizedTimestamp : Option Nat) (key : Nat) :
    Decidable (Reached finalizedTimestamp key) :=
  match finalizedTimestamp with
  | none => isFalse fun ⟨_, h, _⟩ => by cases h
  | some f => decidable_of_iff (key ≤ f) (by simp [Reached])

theorem reached_frontierAfter {bars : TimePriceBars} {f : Option Nat} {key : Nat} :
    Reached (bars.frontierAfter f) key ↔
      Reached bars.lastFinalizedTimestamp key ∨ Reached f key := by
  unfold frontierAfter Reached
  cases f <;> cases bars.lastFinalizedTimestamp <;> simp

/-- Between bucket starts, the visited range is what the frontier passes in the call. -/
theorem inFinalizeRange_iff {bars : TimePriceBars} {f : Option Nat} {key : Nat}
    (hkey : bars.resolution.offset ∣ key)
    (hlast : ∀ last, bars.lastFinalizedTimestamp = some last → bars.resolution.offset ∣ last) :
    bars.InFinalizeRange f key ↔
      Reached f key ∧ ¬Reached bars.lastFinalizedTimestamp key := by
  have hstart : bars.finalizeStart ≤ key ↔ ¬Reached bars.lastFinalizedTimestamp key := by
    unfold finalizeStart Reached
    cases hl : bars.lastFinalizedTimestamp with
    | none => simp
    | some last =>
      have hpos := bars.resolution.offset_pos
      have hnext : last < key → last + bars.resolution.offset ≤ key :=
        add_offset_le_of_lt (hlast last hl) hkey
      simp only [next, Option.some.injEq, exists_eq_left', Nat.not_le]
      omega
  simp only [InFinalizeRange, Reached, hstart]
  constructor
  · rintro ⟨x, hx, hnot, hle⟩
    exact ⟨⟨x, hx, hle⟩, hnot⟩
  · rintro ⟨⟨x, hx, hle⟩, hnot⟩
    exact ⟨x, hx, hnot, hle⟩

/-- What every bar of a run of inserts and reorgs obeys. -/
structure SoundBar (t₀ : Nat) (res : Resolution) (frontier : Option Nat) (key : Nat)
    (bar : TimePriceBar) : Prop where
  early : NotEarly t₀ res key bar
  aligned : res.offset ∣ key
  reduced : ∀ p, bar = .pending p → p.data = TickData.reduce p.blockPriceBars.values
  final : bar.isFinalized → Reached frontier key

theorem soundBar_barRule (t₀ : Nat) (res : Resolution) (frontier : Option Nat) :
    BarRule (SoundBar t₀ res frontier) where
  content := by
    intro key bar bar' hc h
    have hf : bar'.isFinalized = bar.isFinalized := by
      rw [← TimePriceBar.isFinalized_content, hc, TimePriceBar.isFinalized_content]
    refine ⟨(notEarly_barRule t₀ res).content hc h.early, h.aligned, ?_, fun hb => h.final (hf ▸ hb)⟩
    rintro p rfl
    cases bar with
    | finalized f => cases hc
    | pending q =>
      have hq := h.reduced q rfl
      injection hc with hc
      injection hc with hdata _ hblocks
      rw [hdata, hblocks, hq]
  cut := by
    intro key r bar bar' hc h
    refine ⟨(notEarly_barRule t₀ res).cut hc h.early, h.aligned, ?_,
      fun hb => h.final (TimePriceBar.isFinalized_of_cut hc ▸ hb)⟩
    intro p hp
    rcases TimePriceBar.cut_cases hc with rfl | ⟨q, s, e, rfl, -, -, -, -, rfl⟩
    · exact h.reduced p hp
    · cases hp
      rfl

section

variable {t₀ : Nat} {res : Resolution} {frontier : Option Nat} {key : Nat}

theorem SoundBar.settle {bar : TimePriceBar} (h : SoundBar t₀ res frontier key bar)
    (hreached : Reached frontier key) : SoundBar t₀ res frontier key bar.settle := by
  refine ⟨h.early.settle, h.aligned, ?_, fun _ => hreached⟩
  intro p hp
  cases bar with
  | finalized f => cases hp
  | pending q =>
    cases hf : q.asFinalized with
    | none =>
      have hq : TimePriceBar.pending q = .pending p := by simpa [TimePriceBar.settle, hf] using hp
      exact h.reduced p hq
    | some f =>
      rw [TimePriceBar.settle_of_asFinalized hf] at hp
      cases hp

theorem SoundBar.advance {bar : TimePriceBar} (h : SoundBar t₀ res frontier key bar)
    {frontier' : Option Nat} (hle : Reached frontier key → Reached frontier' key) :
    SoundBar t₀ res frontier' key bar :=
  ⟨h.early, h.aligned, h.reduced, fun hb => hle (h.final hb)⟩

/-- A pending bar can be finalized. -/
theorem SoundBar.exists_asFinalized {p : PendingTimePriceBar}
    (h : SoundBar t₀ res frontier key (.pending p)) : ∃ f, p.asFinalized = some f :=
  PendingTimePriceBar.exists_asFinalized h.early.1 (h.reduced p rfl)

/-- The content of a pending bar is given by its blocks. -/
theorem SoundBar.content_eq {p : PendingTimePriceBar}
    (h : SoundBar t₀ res frontier key (.pending p)) :
    (TimePriceBar.pending p).content = .pending (.withBlocks p.blockPriceBars) := by
  simp only [TimePriceBar.content, PendingTimePriceBar.withBlocks, h.reduced p rfl]

end

/-- The bars hold blocks before `n` only. -/
def AllBelow (n : Nat) (bars : TimePriceBars) : Prop :=
  AllBars (fun _ bar => ∀ k, bar.Holds k → k < n) bars

theorem below_barRule (n : Nat) : BarRule (fun _ bar => ∀ k, bar.Holds k → k < n) where
  content := fun hc h k hk => h k ((TimePriceBar.holds_iff_of_content hc k).mp hk)
  cut := fun hc h k hk => h k (TimePriceBar.holds_of_cut hc hk)

theorem AllBelow.mono {m n : Nat} {bars : TimePriceBars} (h : AllBelow m bars) (hle : m ≤ n) :
    AllBelow n bars := fun key bar hk k hh => (h key bar hk k hh).trans_le hle

theorem AllBelow.insertData {n : Nat} {d : TickData} {bts : Nat} {f : Option Nat}
    {bars bars' : TimePriceBars} (h : AllBelow n bars)
    (hok : insertData n d bts f bars = .ok () bars') : AllBelow (n + 1) bars' := by
  have hnext := h.mono n.le_succ
  suffices hstate : AllBelow (n + 1) (TimePriceBars.insertData n d bts f bars).state by
    rwa [hok] at hstate
  refine AllBars.insertData (below_barRule (n + 1)) hnext ?_ ?_ ?_
  · intro b tick bar _ _ hg k hk
    rcases PendingTimePriceBar.holds_insertBlockPriceBarRange.mp hk with hk | hk
    · have := (mem_paddedNumbers.mp hk).2
      omega
    · rcases hnext.getD hg with rfl | hbar
      · exact absurd hk (PendingTimePriceBar.not_holds_new k)
      · exact hbar k hk
  · intro bar _ hbar k hk
    rcases PendingTimePriceBar.holds_insertBlockPriceBar.mp hk with rfl | hk
    · exact Nat.lt_succ_self k
    · rcases hbar with rfl | hbar
      · exact absurd hk (PendingTimePriceBar.not_holds_new k)
      · exact hbar k hk
  · intro key bar finalized _ _ hbar k hk
    obtain ⟨s, e, -, he, -, hke⟩ := TimePriceBar.exists_holds_of_settle hk
    exact hke.trans_lt (hbar e he)

/-- What holds of the bars after completed calls, all of them retained. -/
structure Sound (t₀ : Nat) (bars : TimePriceBars) : Prop where
  bar : AllBars (SoundBar t₀ bars.resolution bars.lastFinalizedTimestamp) bars
  retention : bars.retentionCount = none
  frontier : ∀ last, bars.lastFinalizedTimestamp = some last → bars.resolution.offset ∣ last
  fresh : bars.Fresh

theorem new_sound (t₀ : Nat) (res : Resolution) (config : Option IndicatorsConfig) :
    Sound t₀ (.new none res config) where
  bar := fun _ _ hk => by cases hk
  retention := rfl
  frontier := fun _ h => by cases h
  fresh := new_fresh none res config

section

variable {t₀ n r : Nat} {d : TickData} {f frontier : Option Nat} {bars bars' : TimePriceBars}

theorem Sound.notEarly (h : Sound t₀ bars) : AllBars (NotEarly t₀ bars.resolution) bars :=
  fun key bar hk => (h.bar key bar hk).early

theorem Sound.nonempty (h : Sound t₀ bars) :
    ∀ key bar, bars.data.get? key = some bar → ∃ k, bar.Holds k :=
  fun key bar hk => (h.notEarly key bar hk).1

theorem AllBelow.lastBlock_lt (h : AllBelow n bars)
    (hne : ∀ key bar, bars.data.get? key = some bar → ∃ k, bar.Holds k) {b : Nat}
    {tick : TickData} (hl : bars.lastBlock = some (b, tick)) : b < n := by
  obtain ⟨key, bar, he, hh, -⟩ := lastBlock_holds hl hne
  exact h key bar (OrdMap.lastEntry_eq_some_iff.mp he).1 b hh

theorem insertData_ok_frontier (hok : insertData n d (blockTime t₀ n) f bars = .ok () bars') :
    bars'.lastFinalizedTimestamp = bars.frontierAfter f := by
  obtain ⟨-, -, -, -, -, hfrontier, -⟩ := insertData_ok_contentAt hok
  exact hfrontier

/-- Whatever the outcome of an insert, bars stay sound up to a frontier that covers what it
finalizes. -/
theorem insertData_state_soundBar
    (hbars : AllBars (SoundBar t₀ bars.resolution frontier) bars)
    (hf : ∀ key, Reached f key → Reached frontier key) :
    AllBars (SoundBar t₀ bars.resolution frontier)
      (insertData n d (blockTime t₀ n) f bars).state := by
  refine hbars.insertData (soundBar_barRule _ _ _) ?_ ?_ ?_
  · intro b tick bar hl hlt hg
    have hpadded : b + 1 ∈ paddedNumbers b n := mem_paddedNumbers.mpr ⟨by omega, hlt⟩
    rw [padTarget_blockTime (by omega)] at hg ⊢
    have hbar := hbars.getD hg
    refine ⟨⟨⟨_, PendingTimePriceBar.holds_insertBlockPriceBarRange.mpr (Or.inl hpadded)⟩,
      fun k hk => ?_⟩, offset_dvd_blockBucket _ _ _, ?_, fun hb => by cases hb⟩
    · rcases PendingTimePriceBar.holds_insertBlockPriceBarRange.mp hk with hk | hk
      · have := (mem_paddedNumbers.mp hk).1
        exact blockBucket_mono (by omega)
      · rcases hbar with rfl | hbar
        · exact absurd hk (PendingTimePriceBar.not_holds_new k)
        · exact hbar.early.2 k hk
    · intro p hp
      cases hp
      rfl
  · intro bar _ hbar
    refine ⟨⟨⟨n, PendingTimePriceBar.holds_insertBlockPriceBar.mpr (Or.inl rfl)⟩,
      fun k hk => ?_⟩, offset_dvd_blockBucket _ _ _, ?_, fun hb => by cases hb⟩
    · rcases PendingTimePriceBar.holds_insertBlockPriceBar.mp hk with rfl | hk
      · exact le_rfl
      · rcases hbar with rfl | hbar
        · exact absurd hk (PendingTimePriceBar.not_holds_new k)
        · exact hbar.early.2 k hk
    · intro p hp
      cases hp
      rfl
  · intro key bar finalized hfin hle hbar
    exact hbar.settle (hf key ⟨finalized, hfin, hle⟩)

theorem insertData_soundBar
    (h : AllBars (SoundBar t₀ bars.resolution bars.lastFinalizedTimestamp) bars)
    (hok : insertData n d (blockTime t₀ n) f bars = .ok () bars') :
    AllBars (SoundBar t₀ bars'.resolution bars'.lastFinalizedTimestamp) bars' := by
  have hbars : AllBars (SoundBar t₀ bars.resolution (bars.frontierAfter f)) bars := fun key bar hk =>
    (h key bar hk).advance fun hr => reached_frontierAfter.mpr (Or.inl hr)
  have hinserted := @insertData_state_soundBar t₀ n d f (bars.frontierAfter f) bars hbars
    fun key hr => reached_frontierAfter.mpr (Or.inr hr)
  rw [hok] at hinserted
  rw [(insertData_ok_settings hok).resolution, insertData_ok_frontier hok]
  exact hinserted

/-- The frontier stays at bucket starts. -/
theorem offset_dvd_frontierAfter
    (hlast : ∀ last, bars.lastFinalizedTimestamp = some last → bars.resolution.offset ∣ last)
    (hf : ∀ x, f = some x → bars.resolution.offset ∣ x) :
    ∀ last, bars.frontierAfter f = some last → bars.resolution.offset ∣ last := by
  intro last hl
  unfold frontierAfter at hl
  split at hl
  next finalized last' hlast' =>
    cases Option.some.inj hl
    rcases Nat.le_total last' finalized with hle | hle
    · rw [max_eq_right hle]
      exact hf finalized rfl
    · rw [max_eq_left hle]
      exact hlast last' hlast'
  next finalized _ => exact hf last hl
  next => exact hlast last hl

theorem Sound.insertData (h : Sound t₀ bars) (hbelow : AllBelow n bars)
    (hf : ∀ x, f = some x → bars.resolution.offset ∣ x)
    (hok : insertData n d (blockTime t₀ n) f bars = .ok () bars') : Sound t₀ bars' := by
  have hs := insertData_ok_settings hok
  refine ⟨insertData_soundBar h.bar hok, hs.retentionCount.trans h.retention, ?_,
    insertData_fresh h.fresh h.notEarly h.retention (fun b tick => hbelow.lastBlock_lt h.nonempty) hok⟩
  rw [hs.resolution, insertData_ok_frontier hok]
  exact offset_dvd_frontierAfter h.frontier hf

theorem pruneToReorgedBlockNumber_frontier (r : Nat) (bars : TimePriceBars) :
    (pruneToReorgedBlockNumber r bars).state.lastFinalizedTimestamp =
      bars.lastFinalizedTimestamp := by
  rw [(pruneToReorgedBlockNumber_sameContent r bars).lastFinalizedTimestamp, pruneLoop_fields]

theorem pruneToReorgedBlockNumber_ok_frontier
    (h : pruneToReorgedBlockNumber r bars = .ok () bars') :
    bars'.lastFinalizedTimestamp = bars.lastFinalizedTimestamp := by
  have hfrontier := pruneToReorgedBlockNumber_frontier r bars
  rwa [h] at hfrontier

theorem Sound.pruneToReorgedBlockNumber (h : Sound t₀ bars)
    (hok : pruneToReorgedBlockNumber r bars = .ok () bars') : Sound t₀ bars' := by
  have hs := pruneToReorgedBlockNumber_ok_settings hok
  have hres := hs.resolution
  have hlast := pruneToReorgedBlockNumber_ok_frontier hok
  have hbars := h.bar.pruneToReorgedBlockNumber (soundBar_barRule _ _ _) r
  rw [hok] at hbars
  refine ⟨?_, hs.retentionCount.trans h.retention, ?_, pruneToReorgedBlockNumber_fresh h.fresh hok⟩
  · rw [hres, hlast]
    exact hbars
  · rw [hres, hlast]
    exact h.frontier

/-- The range that finalization visits holds pending bars only. -/
theorem exists_finalizeRange {finalized : Nat}
    (h : AllBars (SoundBar t₀ bars.resolution bars.lastFinalizedTimestamp) bars)
    (hstart : bars.finalizeStart ≤ finalized) :
    ∃ bars', finalizeRange bars.finalizeStart finalized bars = .ok () bars' := by
  have hpending : ∀ e ∈ bars.data.rangeEntries bars.finalizeStart finalized,
      ∃ p g, e.2 = .pending p ∧ p.asFinalized = some g := by
    intro e he
    obtain ⟨key, bar⟩ := e
    obtain ⟨hget, hlo, -⟩ := OrdMap.mem_rangeEntries.mp he
    have hsound := h key bar hget
    cases bar with
    | pending p =>
      obtain ⟨g, hg⟩ := hsound.exists_asFinalized
      exact ⟨p, g, rfl, hg⟩
    | finalized g =>
      obtain ⟨last, hl, hle⟩ := hsound.final rfl
      have hpos := bars.resolution.offset_pos
      simp only [finalizeStart, hl, next] at hlo
      omega
  rw [finalizeRange, if_neg (by omega)]
  exact finalizeEntries_of_pending bars hpending

/-- Finalization completes, or panics on a frontier between two bucket starts. -/
theorem finalizeUpTo_cases
    (h : AllBars (SoundBar t₀ bars.resolution bars.lastFinalizedTimestamp) bars) (f : Option Nat) :
    (∃ bars', finalizeUpTo f bars = .ok () bars') ∨
      finalizeUpTo f bars = .error .panic bars ∧ ∃ finalized last, f = some finalized ∧
        bars.lastFinalizedTimestamp = some last ∧ last < finalized ∧
          finalized < last + bars.resolution.offset := by
  rw [finalizeUpTo_eq]
  cases f with
  | none => exact Or.inl ⟨bars, rfl⟩
  | some finalized =>
    simp only
    split
    next => exact Or.inl ⟨bars, rfl⟩
    next hnew =>
      rcases Nat.lt_or_ge finalized bars.finalizeStart with hlt | hstart
      · refine Or.inr ⟨by rw [finalizeRange, if_pos hlt], finalized, ?_⟩
        unfold finalizeStart at hlt
        cases hl : bars.lastFinalizedTimestamp with
        | none =>
          rw [hl] at hlt
          exact absurd hlt (Nat.not_lt_zero _)
        | some last =>
          rw [hl] at hlt
          exact ⟨last, rfl, rfl, Nat.lt_of_not_le fun hle => hnew ⟨last, hl, hle⟩, hlt⟩
      · obtain ⟨bars', hrange⟩ := exists_finalizeRange h hstart
        exact Or.inl ⟨{ bars' with lastFinalizedTimestamp := some finalized }, by rw [hrange]⟩

/-- Finalization up to a bucket start completes. -/
theorem exists_finalizeUpTo
    (h : AllBars (SoundBar t₀ bars.resolution bars.lastFinalizedTimestamp) bars)
    (hlast : ∀ last, bars.lastFinalizedTimestamp = some last → bars.resolution.offset ∣ last)
    (hf : ∀ x, f = some x → bars.resolution.offset ∣ x) :
    ∃ bars', finalizeUpTo f bars = .ok () bars' := by
  rcases finalizeUpTo_cases h f with hok | ⟨-, finalized, last, rfl, hl, hlt, hbetween⟩
  · exact hok
  · have := add_offset_le_of_lt (hlast last hl) (hf finalized rfl) hlt
    omega

theorem Sound.exists_finalizeUpTo (h : Sound t₀ bars)
    (hf : ∀ x, f = some x → bars.resolution.offset ∣ x) :
    ∃ bars', finalizeUpTo f bars = .ok () bars' :=
  TimePriceBars.exists_finalizeUpTo h.bar h.frontier hf

/-- Pending bars of late enough buckets can be given indicators. -/
theorem exists_updateTouched {config : Option IndicatorsConfig} {touched : List Nat}
    (hpending : ∀ ts ∈ touched, ∃ p, bars.data.get? ts = some (.pending p))
    (hwarm : config.isSome → ∀ ts ∈ touched, 5700 ≤ ts) :
    ∃ bars', updateTouched config touched bars = .ok () bars' := by
  cases config with
  | none => exact ⟨bars, rfl⟩
  | some config =>
    have hwarm := hwarm rfl
    clear * - hpending hwarm
    change ∃ bars', updateAll config touched bars = .ok () bars'
    induction touched generalizing bars with
    | nil => exact ⟨bars, rfl⟩
    | cons t l ih =>
      obtain ⟨p, hp⟩ := hpending t List.mem_cons_self
      obtain ⟨i, hi⟩ := Option.isSome_iff_exists.mp ((@Indicators.compute_isSome_iff t
        bars.resolution bars.data config).mpr (hwarm t List.mem_cons_self))
      have hu := updateIndicators_of_pending hi hp
      have hrest : ∀ ts ∈ l, ∃ q,
          (bars.data.insert t (.pending (p.setIndicators i))).get? ts = some (.pending q) := by
        intro ts hm
        rw [OrdMap.get?_insert]
        split
        next => exact ⟨_, rfl⟩
        next => exact hpending ts (List.mem_cons_of_mem _ hm)
      obtain ⟨bars', hb⟩ := @ih { bars with
        data := bars.data.insert t (.pending (p.setIndicators i)) } hrest
        fun ts hm => hwarm ts (List.mem_cons_of_mem _ hm)
      exact ⟨bars', by rw [updateAll, EStateM.bind_of_ok hu]; exact hb⟩

/-- Updates that complete are of late enough buckets. -/
theorem updateTouched_warm {config : Option IndicatorsConfig} {touched : List Nat}
    (h : updateTouched config touched bars = .ok () bars') (hc : config.isSome) :
    ∀ ts ∈ touched, 5700 ≤ ts := by
  obtain ⟨config, rfl⟩ := Option.isSome_iff_exists.mp hc
  change updateAll config touched bars = .ok () bars' at h
  clear hc
  induction touched generalizing bars with
  | nil => exact fun ts hm => absurd hm List.not_mem_nil
  | cons t l ih =>
    obtain ⟨u, s, hu, hrest⟩ := EStateM.bind_eq_ok.mp h
    obtain ⟨i, bar, hi, -, -⟩ := updateIndicators_eq_ok hu
    intro ts hm
    rcases List.mem_cons.mp hm with rfl | hm
    · refine (@Indicators.compute_isSome_iff ts bars.resolution bars.data config).mp ?_
      rw [hi]
      rfl
    · exact ih hrest ts hm

end

end TimePriceBars

end Pochtecatl
