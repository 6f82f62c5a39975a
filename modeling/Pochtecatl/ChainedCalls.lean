import Pochtecatl.LinkedBars

namespace Pochtecatl

namespace TimePriceBars

open ResolutionTimestamp

variable {t₀ n r next : Nat} {d : TickData} {f : Option Nat} {x y x' : TimePriceBars}

/-- Finalization is the last stage of an insert. -/
theorem insertData_eq_finalizeUpTo (n : Nat) (d : TickData) (bts : Nat) (f : Option Nat) :
    insertData n d bts f = (do insertData n d bts none; finalizeUpTo f) := by
  funext bars
  obtain ⟨padded, paddedBars, hp, ⟨e, hi, hn⟩ | ⟨inserted, hi, ⟨e, updated, hu, hn⟩ |
    ⟨updated, hu, hn⟩⟩⟩ := insertData_cases n d bts none bars
  · rw [EStateM.bind_of_error hn, insertData_eq, EStateM.bind_of_ok hp, EStateM.bind_of_error hi]
  · rw [EStateM.bind_of_error hn, insertData_of_inserted hp hi, EStateM.bind_of_error hu]
  · have hok : insertData n d bts none bars = .ok () updated := hn
    rw [EStateM.bind_of_ok hok, insertData_of_inserted hp hi, EStateM.bind_of_ok hu]

/-- Where the padding of chained bars goes: the bucket of the highest block. -/
theorem Chained.stores_padMissing (h : Chained t₀ next x) {padded : List Nat}
    (hp : padMissing n (blockTime t₀ n) x = .ok padded y) (key k : Nat) :
    y.Stores key k ↔ x.Stores key k ∨ ∃ b tick, x.lastBlock = some (b, tick) ∧
      key = blockBucket t₀ x.resolution b ∧ b < k ∧ k < n := by
  rcases padMissing_cases n (blockTime t₀ n) x with ⟨he, hfin⟩ | ⟨b, tick, p, hl, hlt, hg, he⟩
  · rw [he] at hp
    cases hp
    refine ⟨Or.inl, fun hk => hk.resolve_right ?_⟩
    rintro ⟨b, tick, hl, -, hbk, hkn⟩
    obtain ⟨g, hg⟩ := hfin b tick hl (by omega)
    have hhigh := h.linked.inOrder.highestStored h.nonempty hl
    rw [padTarget_blockTime (by omega)] at hg
    exact h.tip b hhigh ((h.bar _ _ hg).final rfl)
  · rw [he] at hp
    cases hp
    rw [padTarget_blockTime (by omega)] at hg ⊢
    have hpad : (∃ b' tick', x.lastBlock = some (b', tick') ∧
        key = blockBucket t₀ x.resolution b' ∧ b' < k ∧ k < n) ↔
          key = blockBucket t₀ x.resolution b ∧ b < k ∧ k < n := by
      constructor
      · rintro ⟨b', tick', hl', hkey, hlo, hhi⟩
        rw [hl] at hl'
        cases hl'
        exact ⟨hkey, hlo, hhi⟩
      · exact fun hk => ⟨b, tick, hl, hk⟩
    rw [hpad]
    rw [stores_insert]
    split
    next hkey =>
      subst hkey
      rw [PendingTimePriceBar.holds_insertBlockPriceBarRange, mem_paddedNumbers,
        stores_iff_of_getD hg, or_comm]
      simp
    next hkey => simp [hkey]

/-- Padding ends at the block before the inserted one. -/
theorem Chained.linked_padMissing (h : Chained t₀ next x) (hn : next ≤ n) {padded : List Nat}
    (hp : padMissing n (blockTime t₀ n) x = .ok padded y) :
    Linked y ∧ (∀ key k, y.Stores key k → key ≤ blockBucket t₀ x.resolution n ∧ k < n) ∧
      ((∃ key j, y.Stores key j ∧ j + 1 = n) ∨ ∀ key k, ¬y.Stores key k) := by
  have hs := h.stores_padMissing hp
  cases hl : x.lastBlock with
  | none =>
    have hnone := not_stores_of_lastBlock_eq_none h.nonempty hl
    have hs' : ∀ key k, y.Stores key k ↔ x.Stores key k := fun key k => by
      rw [hs, hl]
      simp
    have hynone : ∀ key k, ¬y.Stores key k := fun key k hk => hnone key k ((hs' key k).mp hk)
    exact ⟨h.linked.of_stores_iff hs', fun key k hk => absurd hk (hynone key k), Or.inr hynone⟩
  | some last =>
    obtain ⟨b, tick⟩ := last
    have hlt : b < n := (h.lastBlock_lt hl).trans_le hn
    obtain ⟨⟨bKey, hb⟩, hhigh⟩ := h.linked.inOrder.highestStored h.nonempty hl
    have hkeys : ∀ key k, x.Stores key k → key ≤ blockBucket t₀ x.resolution b := by
      rintro key k ⟨bar, hg, -⟩
      exact h.key_le hl hg
    have hs' : ∀ key k, y.Stores key k ↔
        x.Stores key k ∨ key = blockBucket t₀ x.resolution b ∧ b + 1 ≤ k ∧ k < n := fun key k => by
      rw [hs, hl]
      constructor
      · rintro (hk | ⟨b', tick', he, hkey, hbk, hkn⟩)
        · exact Or.inl hk
        · cases he
          exact Or.inr ⟨hkey, hbk, hkn⟩
      · rintro (hk | ⟨hkey, hbk, hkn⟩)
        · exact Or.inl hk
        · exact Or.inr ⟨b, tick, rfl, hkey, hbk, hkn⟩
    refine ⟨h.linked.extend hs' (fun key k hk => ⟨hkeys key k hk, Nat.lt_succ_of_le (hhigh key k hk)⟩)
      (Or.inl ⟨bKey, b, hb, rfl⟩), fun key k hk => ?_, Or.inl ?_⟩
    · have hmono : blockBucket t₀ x.resolution b ≤ blockBucket t₀ x.resolution n :=
        blockBucket_mono hlt.le
      rcases (hs' key k).mp hk with hk | ⟨rfl, -, hkn⟩
      · exact ⟨(hkeys key k hk).trans hmono, (hhigh key k hk).trans_lt hlt⟩
      · exact ⟨hmono, hkn⟩
    · rcases Nat.lt_or_ge (b + 1) n with hbn | hbn
      · exact ⟨_, n - 1, (hs' _ _).mpr (Or.inr ⟨rfl, by omega, by omega⟩), by omega⟩
      · exact ⟨bKey, b, (hs' _ _).mpr (Or.inl hb), by omega⟩

/-- A bar that finalization has not got to takes blocks after the padding, too. -/
theorem Chained.exists_pending_padMissing (h : Chained t₀ next x) {padded : List Nat}
    (hp : padMissing n (blockTime t₀ n) x = .ok padded y) {key : Nat}
    (hr : ¬Reached x.lastFinalizedTimestamp key) :
    ∃ p, (y.data.get? key).getD (.pending .new) = .pending p := by
  rcases padMissing_cases n (blockTime t₀ n) x with ⟨he, -⟩ | ⟨b, tick, p, -, -, -, he⟩
  · rw [he] at hp
    cases hp
    exact h.exists_pending hr
  · rw [he] at hp
    cases hp
    simp only [OrdMap.get?_insert]
    split
    next => exact ⟨_, rfl⟩
    next => exact h.exists_pending hr

/-- The contiguity check of an insert never fails on chained bars. -/
theorem Chained.exists_insertBlock (h : Chained t₀ next x) (hn : next ≤ n) {padded : List Nat}
    (hp : padMissing n (blockTime t₀ n) x = .ok padded y) (d : TickData) :
    ∃ z, insertBlock n d (blockTime t₀ n) (blockBucket t₀ x.resolution n) y = .ok () z ∧
      Linked z ∧ ∀ key k, z.Stores key k ↔
        y.Stores key k ∨ key = blockBucket t₀ x.resolution n ∧ k = n := by
  obtain ⟨hlinked, hle, hjoin⟩ := h.linked_padMissing hn hp
  obtain ⟨p, hg⟩ := h.exists_pending_padMissing hp (h.ahead n hn)
  have hstores : ∀ k, y.Stores (blockBucket t₀ x.resolution n) k ↔
      (TimePriceBar.pending p).Holds k := fun k => stores_iff_of_getD hg
  have hend : ∀ e, p.endBlockNumber = some e → e + 1 = n := by
    intro e he
    obtain ⟨hholds, hmax⟩ := PendingTimePriceBar.endBlockNumber_eq_some_iff.mp he
    have he := (hstores e).mpr hholds
    have hen := (hle _ e he).2
    rcases hjoin with ⟨key, j, hlast, hj⟩ | hnone
    · have hje : j ≤ e := by
        rcases (hle key _ hlast).1.lt_or_eq with hlt | rfl
        · exact (hlinked.inOrder _ _ _ _ hlt hlast he).le
        · exact hmax j ((hstores j).mp hlast)
      omega
    · exact absurd he (hnone _ e)
  have hz : ∀ key k, Stores { y with
      data := y.data.insert (blockBucket t₀ x.resolution n) (.pending (p.insertBlockPriceBar n d))
    } key k ↔ y.Stores key k ∨ key = blockBucket t₀ x.resolution n ∧ k = n := by
    intro key k
    rw [stores_insert]
    split
    next hkey =>
      subst hkey
      rw [PendingTimePriceBar.holds_insertBlockPriceBar, hstores, or_comm]
      simp
    next hkey => simp [hkey]
  have hrange : ∀ k, k = n ↔ n ≤ k ∧ k < n + 1 := by omega
  have hz' := fun key k =>
    (hz key k).trans (or_congr_right (and_congr_right fun _ => hrange k))
  exact ⟨_, insertBlock_of_pending hg hend, hlinked.extend hz' hle hjoin, hz⟩

theorem le_blockBucket {res : Resolution} (h : 5700 ≤ t₀) (k : Nat) :
    5700 ≤ blockBucket t₀ res k := by
  have hdvd : res.offset ∣ 5700 := by
    cases res
    decide
  refine le_fromTimestamp_of_dvd hdvd ?_
  simp only [blockTime]
  omega

/-- The buckets whose indicators an insert recomputes. -/
theorem exists_block_of_touched {padded : List Nat}
    (hlast : ∀ b tick, x.lastBlock = some (b, tick) → b < n)
    (hp : padMissing n (blockTime t₀ n) x = .ok padded y) {ts : Nat}
    (hts : ts ∈ padded ++ [blockBucket t₀ x.resolution n]) :
    ∃ k, ts = blockBucket t₀ x.resolution k := by
  rcases List.mem_append.mp hts with hts | hts
  · rcases padMissing_cases n (blockTime t₀ n) x with ⟨he, -⟩ | ⟨b, tick, p, hl, -, -, he⟩
    · rw [he] at hp
      cases hp
      cases hts
    · rw [he] at hp
      cases hp
      rw [padTarget_blockTime (hlast b tick hl).le] at hts
      exact ⟨b, List.mem_singleton.mp hts⟩
  · exact ⟨n, List.mem_singleton.mp hts⟩

theorem get?_pruneToRetentionCount_of_le {key c : Nat} (hcount : x.data.countFrom key ≤ c)
    (hrc : ∀ c', x.retentionCount = some c' → c ≤ c') :
    x.pruneToRetentionCount.data.get? key = x.data.get? key := by
  rw [get?_pruneToRetentionCount, if_pos]
  exact fun c' hc' => hcount.trans (hrc c' hc')

/-- The bars whose indicators an insert recomputes are pending, and the last two at most. -/
theorem touched_pending (hearly : AllBars (NotEarly t₀ x.resolution) x)
    (hkeys : ∀ key bar, x.data.get? key = some bar → key ≤ blockBucket t₀ x.resolution n)
    {padded : List Nat} {z : TimePriceBars}
    (hp : padMissing n (blockTime t₀ n) x = .ok padded y)
    (hi : insertBlock n d (blockTime t₀ n) (blockBucket t₀ x.resolution n) y = .ok () z)
    {ts : Nat} (hts : ts ∈ padded ++ [blockBucket t₀ x.resolution n]) :
    (∃ p, z.data.get? ts = some (.pending p)) ∧ z.data.countFrom ts ≤ 2 := by
  obtain ⟨q, hq, -, rfl⟩ := insertBlock_ok hi
  rcases padMissing_cases n (blockTime t₀ n) x with ⟨he, -⟩ | ⟨b, tick, p, hl, hlt, -, he⟩
  · rw [he] at hp
    cases hp
    cases List.mem_singleton.mp hts
    rw [OrdMap.get?_insert_self, OrdMap.countFrom_insert_self hkeys]
    exact ⟨⟨_, rfl⟩, by omega⟩
  · rw [he] at hp
    cases hp
    rw [padTarget_blockTime (by omega)] at hts hq ⊢
    have hmono : blockBucket t₀ x.resolution b ≤ blockBucket t₀ x.resolution n :=
      blockBucket_mono (by omega)
    have hlast : ∀ key bar, x.data.get? key = some bar → key ≤ blockBucket t₀ x.resolution b := by
      intro key bar hk
      obtain ⟨b', tick', hl', hle⟩ := key_le_lastBlock hearly hk
      rw [hl] at hl'
      cases hl'
      exact hle
    obtain ⟨-, hcount⟩ := padded_target hlast hmono hq
    rcases List.mem_append.mp hts with hts | hts
    · cases List.mem_singleton.mp hts
      rw [OrdMap.get?_insert, OrdMap.get?_insert_self, hcount]
      refine ⟨?_, by split <;> omega⟩
      split <;> exact ⟨_, rfl⟩
    · cases List.mem_singleton.mp hts
      rw [OrdMap.get?_insert_self]
      refine ⟨⟨_, rfl⟩, (OrdMap.countFrom_antitone _ hmono).trans ?_⟩
      rw [hcount]
      split <;> omega

theorem Chained.touched_pending (h : Chained t₀ next x) (hn : next ≤ n) {padded : List Nat}
    {z : TimePriceBars} (hp : padMissing n (blockTime t₀ n) x = .ok padded y)
    (hi : insertBlock n d (blockTime t₀ n) (blockBucket t₀ x.resolution n) y = .ok () z)
    {ts : Nat} (hts : ts ∈ padded ++ [blockBucket t₀ x.resolution n]) :
    (∃ p, z.data.get? ts = some (.pending p)) ∧ z.data.countFrom ts ≤ 2 := by
  refine TimePriceBars.touched_pending h.notEarly (fun key bar hk => ?_) hp hi hts
  obtain ⟨b, tick, hl, hle⟩ := key_le_lastBlock h.notEarly hk
  exact hle.trans (blockBucket_mono ((h.lastBlock_lt hl).le.trans hn))

/-- Indicators of pending bars are updated, or a bucket is too early for them. -/
theorem updateTouched_of_pending {config : Option IndicatorsConfig} {touched : List Nat}
    (hpending : ∀ ts ∈ touched, ∃ p, x.data.get? ts = some (.pending p)) :
    (∃ x', updateTouched config touched x = .ok () x') ∨
      ∃ x', updateTouched config touched x = .error .panic x' := by
  cases config with
  | none => exact Or.inl ⟨x, rfl⟩
  | some config =>
    change (∃ x', updateAll config touched x = .ok () x') ∨
      ∃ x', updateAll config touched x = .error .panic x'
    induction touched generalizing x with
    | nil => exact Or.inl ⟨x, rfl⟩
    | cons t l ih =>
      obtain ⟨p, hp⟩ := hpending t List.mem_cons_self
      cases hu : updateIndicators t config x with
      | error e s =>
        rcases (updateIndicators_eq_error hu).2 with ⟨rfl, -⟩ | ⟨-, ⟨-, hnone⟩ | ⟨g, -, hfin⟩⟩
        · exact Or.inr ⟨s, by rw [updateAll, EStateM.bind_of_error hu]⟩
        · rw [hp] at hnone
          cases hnone
        · rw [hp] at hfin
          cases hfin
      | ok u s =>
        rw [updateAll, EStateM.bind_of_ok hu]
        obtain ⟨i, bar, -, -, rfl⟩ := updateIndicators_eq_ok hu
        refine ih fun ts hm => ?_
        rw [OrdMap.get?_insert]
        split
        next => exact ⟨_, rfl⟩
        next => exact hpending ts (List.mem_cons_of_mem _ hm)

/-- The stages of an insert into chained bars, up to the indicators. -/
theorem Chained.insertData_stages (h : Chained t₀ next x) (hn : next ≤ n)
    (hrc : ∀ c, x.retentionCount = some c → 2 ≤ c) (d : TickData) :
    ∃ padded y z, padMissing n (blockTime t₀ n) x = .ok padded y ∧
      insertBlock n d (blockTime t₀ n) (blockBucket t₀ x.resolution n) y = .ok () z ∧
      ∀ ts ∈ padded ++ [blockBucket t₀ x.resolution n],
        ∃ p, z.pruneToRetentionCount.data.get? ts = some (.pending p) := by
  obtain ⟨padded, y, hp⟩ := padMissing_ok n (blockTime t₀ n) x
  obtain ⟨z, hi, -⟩ := h.exists_insertBlock hn hp d
  refine ⟨padded, y, z, hp, hi, fun ts hts => ?_⟩
  obtain ⟨⟨p, hg⟩, hcount⟩ := h.touched_pending hn hp hi hts
  refine ⟨p, ?_⟩
  have hz : z.retentionCount = x.retentionCount := by
    obtain ⟨q, -, -, rfl⟩ := insertBlock_ok hi
    exact (padMissing_settings hp).retentionCount
  rw [get?_pruneToRetentionCount_of_le hcount (fun c hc => hrc c (hz ▸ hc)), hg]

/-- An insert into chained bars completes, or its bucket is too early for indicators. -/
theorem Chained.insertData_none_cases (h : Chained t₀ next x) (hn : next ≤ n)
    (hrc : ∀ c, x.retentionCount = some c → 2 ≤ c) (d : TickData) :
    (∃ y, insertData n d (blockTime t₀ n) none x = .ok () y) ∨
      ∃ y, insertData n d (blockTime t₀ n) none x = .error .panic y := by
  obtain ⟨padded, y, z, hp, hi, hpending⟩ := h.insertData_stages hn hrc d
  rcases updateTouched_of_pending hpending with ⟨u, hu⟩ | ⟨u, hu⟩
  · exact Or.inl ⟨u, insertData_of_stages hp hi hu rfl⟩
  · refine Or.inr ⟨u, ?_⟩
    exact (insertData_of_inserted hp hi).trans (EStateM.bind_of_error hu)

theorem Chained.exists_insertData_none (h : Chained t₀ next x) (hn : next ≤ n)
    (hrc : ∀ c, x.retentionCount = some c → 2 ≤ c) (ht : 5700 ≤ t₀) (d : TickData) :
    ∃ y, insertData n d (blockTime t₀ n) none x = .ok () y := by
  obtain ⟨padded, y, z, hp, hi, hpending⟩ := h.insertData_stages hn hrc d
  have hwarm : ∀ ts ∈ padded ++ [blockBucket t₀ x.resolution n], 5700 ≤ ts := by
    intro ts hts
    obtain ⟨k, rfl⟩ := exists_block_of_touched
      (fun b tick hl => (h.lastBlock_lt hl).trans_le hn) hp hts
    exact le_blockBucket ht k
  obtain ⟨u, hu⟩ := @exists_updateTouched _ x.indicatorsConfig _ hpending fun _ => hwarm
  exact ⟨u, insertData_of_stages hp hi hu rfl⟩

theorem SameContent.stores_iff (h : SameContent x y) (key k : Nat) :
    y.Stores key k ↔ x.Stores key k := by
  rw [Stores, Stores, exists_bar_holds_iff, exists_bar_holds_iff, h.contentAt_eq]

theorem stores_pruneToRetentionCount {key k : Nat} : x.pruneToRetentionCount.Stores key k ↔
    x.Stores key k ∧ ∀ c, x.retentionCount = some c → x.data.countFrom key ≤ c := by
  simp only [Stores, get?_pruneToRetentionCount]
  split
  next hc => exact ⟨fun hk => ⟨hk, hc⟩, fun hk => hk.1⟩
  next hc =>
    refine ⟨fun hk => ?_, fun hk => absurd hk.2 hc⟩
    obtain ⟨bar, hg, -⟩ := hk
    cases hg

/-- Retention drops the lowest bars. -/
theorem Linked.pruneToRetentionCount (h : Linked x) : Linked x.pruneToRetentionCount := by
  refine h.filter (fun key k => stores_pruneToRetentionCount) ?_
  intro key key' key'' i j k hi hj hsi hsj hsk hik hkj c hc
  have hle : key ≤ key'' := Nat.le_of_not_lt fun hlt => by
    have := h.inOrder key'' key k i hlt hsk hsi
    omega
  exact (OrdMap.countFrom_antitone _ hle).trans (hi c hc)

theorem finalized_barRule (frontier : Option Nat) :
    BarRule (fun key bar => Reached frontier key → bar.isFinalized) where
  content := by
    intro key bar bar' hc h hr
    rw [← TimePriceBar.isFinalized_content, hc, TimePriceBar.isFinalized_content]
    exact h hr
  cut := fun hc h hr => TimePriceBar.isFinalized_of_cut hc ▸ h hr

/-- An insert that finalizes nothing leaves chained bars that end with its block. -/
theorem Chained.insertData_none (h : Chained t₀ next x) (hn : next ≤ n)
    (hrc : ∀ c, x.retentionCount = some c → 2 ≤ c)
    (hok : insertData n d (blockTime t₀ n) none x = .ok () y) :
    Chained t₀ (n + 1) y ∧ y.HighestStored n := by
  have hs := insertData_ok_settings hok
  have hfrontier : y.lastFinalizedTimestamp = x.lastFinalizedTimestamp :=
    insertData_ok_frontier hok
  have hbelow := (h.below.mono hn).insertData hok
  have hsettled : AllBars (fun key bar => Reached x.lastFinalizedTimestamp key → bar.isFinalized)
      (insertData n d (blockTime t₀ n) none x).state := by
    refine AllBars.insertData (finalized_barRule _) h.settled ?_ ?_ ?_
    · intro b tick p hl hlt _ hr
      rw [padTarget_blockTime (by omega)] at hr
      exact absurd hr (h.tip b (h.linked.inOrder.highestStored h.nonempty hl))
    · exact fun p _ _ hr => absurd hr (h.ahead n hn)
    · intro key bar finalized hf
      cases hf
  rw [hok] at hsettled
  obtain ⟨padded, y', z, u, hp, hi, hu, hfin⟩ := insertData_ok hok
  cases hfin
  have hsame := updateTouched_ok_sameContent hu
  obtain ⟨z', hi', hlinked, hz⟩ := h.exists_insertBlock hn hp d
  rw [show insertBlock n d _ (blockBucket t₀ x.resolution n) y' = _ from hi] at hi'
  cases hi'
  have hnew : z.pruneToRetentionCount.Stores (blockBucket t₀ x.resolution n) n := by
    refine stores_pruneToRetentionCount.mpr ⟨(hz _ _).mpr (Or.inr ⟨rfl, rfl⟩), fun c hc => ?_⟩
    have hcount := (h.touched_pending hn hp hi (List.mem_append_right _ (List.mem_singleton_self _))).2
    refine hcount.trans (hrc c ?_)
    obtain ⟨q, -, -, rfl⟩ := insertBlock_ok hi
    exact (padMissing_settings hp).retentionCount.symm.trans hc
  have hhigh : y.HighestStored n := by
    refine ⟨⟨_, (hsame.stores_iff _ _).mpr hnew⟩, fun key k hk => ?_⟩
    obtain ⟨bar, hg, hh⟩ := hk
    exact Nat.le_of_lt_succ (hbelow key bar hg k hh)
  refine ⟨⟨insertData_soundBar h.bar hok, ?_, ?_, ?_, hbelow, ?_, ?_⟩, hhigh⟩
  · rw [hfrontier]
    exact hsettled
  · rw [hfrontier, hs.resolution]
    exact h.frontier
  · exact hlinked.pruneToRetentionCount.of_stores_iff hsame.stores_iff
  · intro k hk
    rw [hfrontier, hs.resolution]
    exact h.ahead k (by omega)
  · intro b hb
    obtain rfl : b = n := le_antisymm (hhigh.2 _ _ hb.1.choose_spec) (hb.2 _ _ hhigh.1.choose_spec)
    rw [hfrontier, hs.resolution]
    exact h.ahead b hn

/-- Finalization below the highest block keeps the bars chained. -/
theorem Chained.finalizeUpTo (h : Chained t₀ next x)
    (hf : ∀ last, f = some last → x.resolution.offset ∣ last)
    (hahead : ∀ k, next ≤ k → ¬Reached f (blockBucket t₀ x.resolution k))
    (htip : ∀ b, x.HighestStored b → ¬Reached f (blockBucket t₀ x.resolution b))
    (hok : TimePriceBars.finalizeUpTo f x = .ok () y) :
    Chained t₀ next y ∧ ∀ key k, y.Stores key k ↔ x.Stores key k := by
  have hfields := (finalizeUpTo_ok hok).1
  have hres : y.resolution = x.resolution := by rw [hfields]
  have hfrontier : y.lastFinalizedTimestamp = x.frontierAfter f := by rw [hfields]
  have hget := finalizeUpTo_ok_get? hok
  have hstores : ∀ key k, y.Stores key k ↔ x.Stores key k := by
    intro key k
    simp only [Stores, hget, Option.map_eq_some_iff]
    constructor
    · rintro ⟨_, ⟨bar, hg, rfl⟩, hk⟩
      obtain ⟨s, e, hs, he, hsk, hke⟩ := exists_holds_of_settleIn hk
      exact h.linked.convex ⟨bar, hg, hs⟩ ⟨bar, hg, he⟩ hsk hke
    · rintro ⟨bar, hg, hk⟩
      exact ⟨_, ⟨bar, hg, rfl⟩, settleIn_holds hk⟩
  have hrange : ∀ key bar, x.data.get? key = some bar → (x.InFinalizeRange f key ↔
      Reached f key ∧ ¬Reached x.lastFinalizedTimestamp key) := fun key bar hk =>
    inFinalizeRange_iff (h.bar key bar hk).aligned h.frontier
  have hbar : ∀ key bar, x.data.get? key = some bar → Reached (x.frontierAfter f) key →
      (x.settleIn f key bar).isFinalized := by
    intro key bar hg hr
    unfold settleIn
    split
    next =>
      obtain ⟨g, hs⟩ := (h.bar key bar hg).exists_settle
      rw [hs]
      rfl
    next hnot =>
      refine h.settled key bar hg ?_
      rcases reached_frontierAfter.mp hr with hold | hnew
      · exact hold
      · exact Classical.byContradiction fun hno => hnot ((hrange key bar hg).mpr ⟨hnew, hno⟩)
  refine ⟨⟨?_, ?_, ?_, h.linked.of_stores_iff hstores, ?_, ?_, ?_⟩, hstores⟩
  · intro key bar' hk
    rw [hget] at hk
    obtain ⟨bar, hg, rfl⟩ := Option.map_eq_some_iff.mp hk
    rw [hres, hfrontier]
    have hsound := (h.bar key bar hg).advance fun hr =>
      reached_frontierAfter.mpr (Or.inl hr : _ ∨ Reached f key)
    unfold settleIn
    split
    next hin => exact hsound.settle (reached_frontierAfter.mpr (Or.inr ((hrange key bar hg).mp hin).1))
    next => exact hsound
  · intro key bar' hk hr
    rw [hget] at hk
    obtain ⟨bar, hg, rfl⟩ := Option.map_eq_some_iff.mp hk
    exact hbar key bar hg (hfrontier ▸ hr)
  · rw [hres, hfrontier]
    exact offset_dvd_frontierAfter h.frontier hf
  · intro key bar' hk k hh
    obtain ⟨bar, hg, hh'⟩ := (hstores key k).mp ⟨bar', hk, hh⟩
    exact h.below key bar hg k hh'
  · intro k hk hr
    rw [hres, hfrontier, reached_frontierAfter] at hr
    exact hr.elim (h.ahead k hk) (hahead k hk)
  · intro b hb hr
    have hb' : x.HighestStored b := ⟨⟨_, (hstores _ _).mp hb.1.choose_spec⟩,
      fun key k hk => hb.2 key k ((hstores key k).mpr hk)⟩
    rw [hres, hfrontier, reached_frontierAfter] at hr
    exact hr.elim (h.tip b hb') (htip b hb')

/-- The bucket of the inserted block, and those of later ones, stay ahead of what the call
finalizes. -/
theorem not_reached_blockBucket {res : Resolution}
    (hf : ∀ v, f = some v → v < blockBucket t₀ res n) {k : Nat} (hk : n ≤ k) :
    ¬Reached f (blockBucket t₀ res k) := by
  rintro ⟨v, rfl, hle⟩
  have hmono : blockBucket t₀ res n ≤ blockBucket t₀ res k := blockBucket_mono hk
  have := hf v rfl
  omega

theorem Chained.insertData (h : Chained t₀ next x) (hn : next ≤ n)
    (hrc : ∀ c, x.retentionCount = some c → 2 ≤ c)
    (haligned : ∀ v, f = some v → x.resolution.offset ∣ v)
    (hf : ∀ v, f = some v → v < blockBucket t₀ x.resolution n)
    (hok : TimePriceBars.insertData n d (blockTime t₀ n) f x = .ok () x') :
    Chained t₀ (n + 1) x' := by
  rw [insertData_eq_finalizeUpTo] at hok
  obtain ⟨u, y, hnone, hfin⟩ := EStateM.bind_eq_ok.mp hok
  have hres : y.resolution = x.resolution := (insertData_ok_settings hnone).resolution
  obtain ⟨hy, hhigh⟩ := h.insertData_none hn hrc hnone
  rw [← hres] at haligned hf
  refine (hy.finalizeUpTo haligned (fun k hk => not_reached_blockBucket hf (by omega))
    (fun b hb => ?_) hfin).1
  exact not_reached_blockBucket hf (hb.2 _ _ hhigh.1.choose_spec)

theorem Chained.insertData_cases (h : Chained t₀ next x) (hn : next ≤ n)
    (hrc : ∀ c, x.retentionCount = some c → 2 ≤ c)
    (haligned : ∀ v, f = some v → x.resolution.offset ∣ v) (d : TickData) :
    (∃ x', TimePriceBars.insertData n d (blockTime t₀ n) f x = .ok () x') ∨
      ∃ x', TimePriceBars.insertData n d (blockTime t₀ n) f x = .error .panic x' := by
  rw [insertData_eq_finalizeUpTo]
  rcases h.insertData_none_cases hn hrc d with ⟨y, hnone⟩ | ⟨y, hnone⟩
  · have hy := (h.insertData_none hn hrc hnone).1
    rw [EStateM.bind_of_ok hnone]
    refine Or.inl (exists_finalizeUpTo hy.bar hy.frontier ?_)
    rwa [(insertData_ok_settings hnone).resolution]
  · exact Or.inr ⟨y, EStateM.bind_of_error hnone⟩

theorem Chained.exists_insertData (h : Chained t₀ next x) (hn : next ≤ n)
    (hrc : ∀ c, x.retentionCount = some c → 2 ≤ c) (ht : 5700 ≤ t₀)
    (haligned : ∀ v, f = some v → x.resolution.offset ∣ v) (d : TickData) :
    ∃ x', TimePriceBars.insertData n d (blockTime t₀ n) f x = .ok () x' := by
  obtain ⟨y, hnone⟩ := h.exists_insertData_none hn hrc ht d
  rcases h.insertData_cases hn hrc haligned d with hok | ⟨x', hpanic⟩
  · exact hok
  · rw [insertData_eq_finalizeUpTo, EStateM.bind_of_ok hnone] at hpanic
    have hy := (h.insertData_none hn hrc hnone).1
    have hfin := @exists_finalizeUpTo t₀ f y hy.bar hy.frontier
      (by rwa [(insertData_ok_settings hnone).resolution])
    rwa [insertData_eq_finalizeUpTo, EStateM.bind_of_ok hnone]

/-- A reorg keeps the blocks before it. -/
theorem TimePriceBar.exists_cut_of_holds {bar : TimePriceBar} {k : Nat} (hk : bar.Holds k)
    (hr : k < r) : ∃ bar', bar.cut r = some bar' ∧ bar'.Holds k := by
  cases bar with
  | finalized g => exact ⟨_, rfl, hk⟩
  | pending p =>
    obtain ⟨s, e, hs, he, hsk, hke⟩ := PendingTimePriceBar.exists_start_end hk
    by_cases hre : r ≤ e
    · refine ⟨_, TimePriceBar.cut_of_straddle hs he (by omega) hre, ?_⟩
      exact PendingTimePriceBar.holds_pruneToReorgedBlockNumber.mpr ⟨hr, hk⟩
    · refine ⟨_, TimePriceBar.cut_of_lt fun j hj => ?_, hk⟩
      have := (PendingTimePriceBar.endBlockNumber_eq_some_iff.mp he).2 j hj
      omega

theorem Chained.stores_pruneToReorgedBlockNumber (h : Chained t₀ next x)
    (hok : TimePriceBars.pruneToReorgedBlockNumber r x = .ok () x') (key k : Nat) :
    x'.Stores key k ↔ x.Stores key k ∧ k < r := by
  constructor
  · exact stores_of_pruneToReorgedBlockNumber h.nonempty h.linked.inOrder hok
  · rintro ⟨⟨bar, hx, hk⟩, hr⟩
    obtain ⟨bar', hcut, hk'⟩ := TimePriceBar.exists_cut_of_holds hk hr
    obtain ⟨hcontent, -⟩ := pruneToReorgedBlockNumber_ok_contentAt h.nonempty h.linked.inOrder hok
    refine exists_bar_holds_iff.mpr
      ⟨bar'.content, ?_, (TimePriceBar.holds_content bar' k).mpr hk'⟩
    rw [hcontent, keptAt_eq, hx, Option.bind_some, hcut, Option.map_some]

/-- A reorg to a block after the finalized buckets keeps the bars chained. -/
theorem Chained.pruneToReorgedBlockNumber (h : Chained t₀ next x)
    (hlast : ∀ last, x.lastFinalizedTimestamp = some last →
      1 ≤ r ∧ last + x.resolution.offset ≤ blockTime t₀ (r - 1))
    (hok : TimePriceBars.pruneToReorgedBlockNumber r x = .ok () x') :
    Chained t₀ (min next r) x' := by
  have hstores := h.stores_pruneToReorgedBlockNumber hok
  have hbar := h.bar.pruneToReorgedBlockNumber (soundBar_barRule _ _ _) r
  have hsettled := AllBars.pruneToReorgedBlockNumber
    (finalized_barRule x.lastFinalizedTimestamp) r h.settled
  rw [hok] at hbar hsettled
  have hres := (pruneToReorgedBlockNumber_ok_settings hok).resolution
  have hlast' := pruneToReorgedBlockNumber_ok_frontier hok
  have hahead : ∀ k, r - 1 ≤ k →
      ¬Reached x.lastFinalizedTimestamp (blockBucket t₀ x.resolution k) := by
    rintro k hk ⟨last, hl, hle⟩
    have hmono : blockBucket t₀ x.resolution (r - 1) ≤ blockBucket t₀ x.resolution k :=
      blockBucket_mono hk
    have hbucket : blockTime t₀ (r - 1) < blockBucket t₀ x.resolution (r - 1) + x.resolution.offset :=
      lt_fromTimestamp_add _ _
    have := (hlast last hl).2
    omega
  refine ⟨?_, ?_, ?_, ?_, fun key bar' hk k hh => ?_, fun k hk => ?_, fun b hb => ?_⟩
  · rw [hres, hlast']
    exact hbar
  · rw [hlast']
    exact hsettled
  · rw [hres, hlast']
    exact h.frontier
  · refine h.linked.filter hstores fun key key' key'' i j k hi hj _ _ _ hik hkj => ?_
    omega
  · obtain ⟨⟨bar, hx, hh'⟩, hr⟩ := (hstores key k).mp ⟨bar', hk, hh⟩
    exact lt_min (h.below key bar hx k hh') hr
  · rw [hres, hlast']
    have hor : next ≤ k ∨ r ≤ k := by omega
    rcases hor with hle | hle
    · exact h.ahead k hle
    · exact hahead k (by omega)
  · rw [hres, hlast']
    obtain ⟨⟨key, hb'⟩, hmax⟩ := hb
    obtain ⟨hbx, hbr⟩ := (hstores key b).mp hb'
    by_cases hle : r - 1 ≤ b
    · exact hahead b hle
    · refine h.tip b ⟨⟨key, hbx⟩, fun key' k hk => ?_⟩
      rcases Nat.lt_or_ge k r with hkr | hkr
      · exact hmax key' k ((hstores key' k).mpr ⟨hk, hkr⟩)
      · obtain ⟨key'', hj⟩ := h.linked.gapless key key' b k (r - 1) hbx hk (by omega) (by omega)
        have := hmax key'' (r - 1) ((hstores key'' _).mpr ⟨hj, by omega⟩)
        omega

end TimePriceBars

end Pochtecatl
