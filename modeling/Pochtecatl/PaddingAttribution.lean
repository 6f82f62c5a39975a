import Pochtecatl.LastBlock

namespace Pochtecatl

namespace TimePriceBars

open ResolutionTimestamp

/-- Some bar stores the block. -/
def Stores (bars : TimePriceBars) (key k : Nat) : Prop :=
  ∃ bar, bars.data.get? key = some bar ∧ bar.Holds k

def HighestStored (bars : TimePriceBars) (b : Nat) : Prop :=
  (∃ key, bars.Stores key b) ∧ ∀ key k, bars.Stores key k → k ≤ b

/-- Every skipped block is stored in the bar of its own bucket and in no other, and
no bucket on the way is left without a bar. -/
def PaddingAttributed (t₀ b n : Nat) (bars : TimePriceBars) : Prop :=
  (∀ k, b < k → k < n → ∀ key, bars.Stores key k ↔
    key = fromTimestamp (blockTime t₀ n - AVERAGE_BLOCK_TIME_SECONDS * (n - k)) bars.resolution) ∧
  ∀ key, bars.resolution.offset ∣ key → blockBucket t₀ bars.resolution b < key →
    key < blockBucket t₀ bars.resolution n → ∃ bar, bars.data.get? key = some bar

/-- The blocks to pad stay in the bucket of the last stored block, whose bar still
takes blocks and outlives the retention of this call. -/
def PaddingStays (t₀ n : Nat) (bars : TimePriceBars) : Prop :=
  ∃ last tick, bars.lastBlock = some (last, tick) ∧
    blockBucket t₀ bars.resolution last = blockBucket t₀ bars.resolution (n - 1) ∧
    (∀ f, bars.data.get? (blockBucket t₀ bars.resolution last) ≠ some (.finalized f)) ∧
    ∀ c, bars.retentionCount = some c → 2 ≤ c ∨
      c = 1 ∧ blockBucket t₀ bars.resolution last = blockBucket t₀ bars.resolution n

theorem stores_iff_of_contentAt {bars bars' retained : TimePriceBars} {f : Option Nat}
    {key k : Nat} (hc : bars'.contentAt key = (retained.contentAt key).map (bars.settleIn f key)) :
    bars'.Stores key k ↔
      ∃ bar, retained.contentAt key = some bar ∧ (bars.settleIn f key bar).Holds k := by
  rw [Stores, exists_bar_holds_iff, hc]
  simp only [Option.map_eq_some_iff]
  constructor
  · rintro ⟨_, ⟨bar, hg, rfl⟩, hk⟩
    exact ⟨bar, hg, hk⟩
  · rintro ⟨bar, hg, hk⟩
    exact ⟨_, ⟨bar, hg, rfl⟩, hk⟩

/-- Blocks between `b` and `n` are in no bar whose blocks are all at most `b` or all `n`. -/
theorem not_stores_of_apart {bars bars' inserted : TimePriceBars} {f : Option Nat} {key b n k : Nat}
    (hc : bars'.contentAt key =
      (inserted.pruneToRetentionCount.contentAt key).map (bars.settleIn f key))
    (hapart : ∀ bar, inserted.data.get? key = some bar →
      (∀ j, bar.Holds j → j ≤ b) ∨ ∀ j, bar.Holds j → j = n)
    (hb : b < k) (hn : k < n) : ¬bars'.Stores key k := by
  rw [stores_iff_of_contentAt hc]
  rintro ⟨_, hg, hk⟩
  obtain ⟨bar, hbar, rfl⟩ := Option.map_eq_some_iff.mp hg
  obtain ⟨s, e, hs, he, hsk, hke⟩ := exists_holds_of_settleIn hk
  rw [TimePriceBar.holds_content] at hs he
  rcases hapart bar (get?_of_pruneToRetentionCount hbar) with h | h
  · have := h e he
    omega
  · have := h s hs
    have := h e he
    omega

theorem get?_pruneToRetentionCount {bars : TimePriceBars} {key : Nat} :
    bars.pruneToRetentionCount.data.get? key =
      if ∀ c, bars.retentionCount = some c → bars.data.countFrom key ≤ c then bars.data.get? key
      else none := by
  cases hr : bars.retentionCount with
  | none => simp [pruneToRetentionCount_of_none hr]
  | some c => simp [pruneToRetentionCount_data hr, OrdMap.get?_filterKeys]

/-- The bar of a block beyond every stored one takes nothing but that block. -/
theorem apart_insertBlockPriceBar {bars : TimePriceBars} {bar : PendingTimePriceBar}
    {key b n : Nat} {d : TickData} (hhigh : ∀ key k, bars.Stores key k → k ≤ b) (hn : b + 1 < n)
    (hbar : (bars.data.get? key).getD (.pending .new) = .pending bar)
    (hend : ∀ e, bar.endBlockNumber = some e → e + 1 = n) {j : Nat}
    (hj : (TimePriceBar.pending (bar.insertBlockPriceBar n d)).Holds j) : j = n := by
  rcases PendingTimePriceBar.holds_insertBlockPriceBar.mp hj with hj | hj
  · exact hj
  · exfalso
    obtain ⟨e, he, hh, -⟩ := TimePriceBar.exists_endBlockNumber ⟨j, hj⟩
    cases hg : bars.data.get? key with
    | none =>
      rw [hg] at hbar
      injection hbar with hbar
      exact PendingTimePriceBar.not_holds_new j (hbar ▸ hj)
    | some bar' =>
      rw [hg] at hbar
      have hle := hhigh key e ⟨bar', hg, by rw [show bar' = _ from hbar]; exact hh⟩
      have := hend e he
      omega

/-- After the padding and the new block, the target bar holds every padded block and
has at most the new block's bar above it. -/
theorem padded_target {bars : TimePriceBars} {target key last n : Nat} {tick d : TickData}
    {padBar bar : PendingTimePriceBar}
    (hkeys : ∀ k b, bars.data.get? k = some b → k ≤ target) (hle : target ≤ key)
    (hbar : ((bars.data.insert target
      (.pending (padBar.insertBlockPriceBarRange (paddedNumbers last n) tick))).get? key).getD
        (.pending .new) = .pending bar) :
    let data := (bars.data.insert target
      (.pending (padBar.insertBlockPriceBarRange (paddedNumbers last n) tick))).insert key
        (.pending (bar.insertBlockPriceBar n d))
    (∃ b, data.get? target = some b ∧ ∀ k, last < k → k < n → b.Holds k) ∧
      data.countFrom target = if target = key then 1 else 2 := by
  intro data
  have hpadded : ∀ k, last < k → k < n → (TimePriceBar.pending
      (padBar.insertBlockPriceBarRange (paddedNumbers last n) tick)).Holds k := fun k hk hkn =>
    PendingTimePriceBar.holds_insertBlockPriceBarRange.mpr
      (Or.inl (mem_paddedNumbers.mpr ⟨hk, hkn⟩))
  have htop : ∀ k b, (bars.data.insert target (.pending
      (padBar.insertBlockPriceBarRange (paddedNumbers last n) tick))).get? k = some b →
      k ≤ target := by
    intro k b hk
    rw [OrdMap.get?_insert] at hk
    split at hk
    next he => exact he.le
    next => exact hkeys k b hk
  by_cases heq : target = key
  · subst heq
    rw [OrdMap.get?_insert_self] at hbar
    refine ⟨⟨_, OrdMap.get?_insert_self _ _ _, fun k hk hkn => ?_⟩, ?_⟩
    · injection hbar with hbar
      exact PendingTimePriceBar.holds_insertBlockPriceBar.mpr (Or.inr (hbar ▸ hpadded k hk hkn))
    · rw [if_pos rfl]
      exact OrdMap.countFrom_insert_self htop
  · refine ⟨⟨_, ?_, hpadded⟩, ?_⟩
    · rw [OrdMap.get?_insert_ne heq, OrdMap.get?_insert_self]
    · rw [if_neg heq, OrdMap.countFrom_insert_last (fun j b hj => ?_) hle,
        OrdMap.countFrom_insert_self hkeys]
      have := htop j b hj
      omega

/-- Where the skipped blocks end up after a completed insert. -/
theorem stores_skipped_iff {t₀ b n : Nat} {d : TickData} {f : Option Nat}
    {bars bars' : TimePriceBars} (hinv : AllBars (NotEarly t₀ bars.resolution) bars)
    (hb : bars.HighestStored b) (hn : b + 1 < n)
    (h : insertData n d (blockTime t₀ n) f bars = .ok () bars') :
    ∃ last tick, bars.lastBlock = some (last, tick) ∧ last ≤ b ∧
      ∀ k, b < k → k < n → ∀ key, bars'.Stores key k ↔
        key = blockBucket t₀ bars.resolution last ∧
        (∀ g, bars.data.get? (blockBucket t₀ bars.resolution last) ≠ some (.finalized g)) ∧
        ∀ c, bars.retentionCount = some c → 2 ≤ c ∨
          c = 1 ∧ blockBucket t₀ bars.resolution last = blockBucket t₀ bars.resolution n := by
  obtain ⟨⟨key₀, bar₀, hg₀, -⟩, hhigh⟩ := hb
  obtain ⟨lastKey, lastBar, hlast⟩ : ∃ lk lb, bars.data.lastEntry = some (lk, lb) := by
    cases he : bars.data.lastEntry with
    | none => simp [OrdMap.lastEntry_eq_none_iff.mp he] at hg₀
    | some e => exact ⟨e.1, e.2, rfl⟩
  obtain ⟨hlget, hlmax⟩ := OrdMap.lastEntry_eq_some_iff.mp hlast
  obtain ⟨last, tick, hl, hlh, -⟩ := exists_lastBlock hlast (hinv _ _ hlget).1
  have hle : last ≤ b := hhigh lastKey last ⟨lastBar, hlget, hlh⟩
  have htarget : bars.padTarget n (blockTime t₀ n) last = blockBucket t₀ bars.resolution last :=
    padTarget_blockTime (by omega)
  have hkeys : ∀ key bar, bars.data.get? key = some bar →
      key ≤ blockBucket t₀ bars.resolution last := fun key bar hk =>
    (hlmax key bar hk).trans ((hinv _ _ hlget).2 last hlh)
  have hTN : blockBucket t₀ bars.resolution last ≤ blockBucket t₀ bars.resolution n :=
    blockBucket_mono (by omega)
  obtain ⟨padded, paddedBars, inserted, hp, hi, -, hc⟩ := insertData_ok_contentAt h
  change insertBlock n d _ (blockBucket t₀ bars.resolution n) paddedBars = _ at hi
  obtain ⟨bar, hbar, hend, rfl⟩ := insertBlock_ok hi
  refine ⟨last, tick, hl, hle, fun k hbk hkn key => ?_⟩
  rcases padMissing_cases n (blockTime t₀ n) bars with
    ⟨he, hfin⟩ | ⟨last', tick', padBar, hl', hlt, hpad, he⟩
  · -- the bar that should take them is finalized: they are dropped
    rw [he] at hp
    injection hp with _ hp
    subst hp
    obtain ⟨g, hg⟩ := hfin last tick hl (by omega)
    rw [htarget] at hg
    refine iff_of_false (not_stores_of_apart (hc key) (b := b) (n := n) ?_ hbk hkn)
      fun hall => hall.2.1 g hg
    intro bar' hbar'
    simp only [OrdMap.get?_insert] at hbar'
    split at hbar'
    next =>
      cases Option.some.inj hbar'
      exact Or.inr fun j hj => apart_insertBlockPriceBar hhigh hn hbar hend hj
    next => exact Or.inl fun j hj => hhigh key j ⟨bar', hbar', hj⟩
  · obtain ⟨rfl, rfl⟩ : last = last' ∧ tick = tick' := by simpa [hl] using hl'
    rw [htarget] at hpad he
    rw [he] at hp
    injection hp with _ hp
    subst hp
    have hpending : ∀ g,
        bars.data.get? (blockBucket t₀ bars.resolution last) ≠ some (.finalized g) := by
      intro g hg
      simp [hg] at hpad
    by_cases hkey : key = blockBucket t₀ bars.resolution last
    · obtain ⟨⟨padded, hget, hholds⟩, hcount⟩ := @padded_target bars _ _ _ _ _ d _ _ hkeys hTN hbar
      rw [hkey, stores_iff_of_contentAt (hc _), contentAt, get?_pruneToRetentionCount]
      simp only [hcount, hget]
      constructor
      · rintro ⟨_, hg, -⟩
        refine ⟨trivial, hpending, fun c hrc => ?_⟩
        by_contra hsmall
        rw [if_neg fun hall => hsmall ?_] at hg
        · simp at hg
        · have := hall c hrc
          split at this <;> omega
      · rintro ⟨-, -, hretain⟩
        refine ⟨padded.content, ?_, settleIn_holds
          ((TimePriceBar.holds_content _ _).mpr (hholds k (by omega) hkn))⟩
        rw [if_pos fun c hrc => ?_]
        · rfl
        · have := hretain c hrc
          split <;> omega
    · refine iff_of_false (not_stores_of_apart (hc key) (b := b) (n := n) ?_ hbk hkn)
        fun hall => hkey hall.1
      intro bar' hbar'
      simp only [OrdMap.get?_insert] at hbar'
      split at hbar'
      next hkN =>
        cases Option.some.inj hbar'
        rw [OrdMap.get?_insert_ne (hkN ▸ hkey)] at hbar
        exact Or.inr fun j hj => apart_insertBlockPriceBar hhigh hn hbar hend hj
      next => exact Or.inl fun j hj => hhigh key j ⟨bar', hbar', hj⟩

theorem ownBucket_eq {t₀ n k : Nat} {res : Resolution} (h : k ≤ n) :
    fromTimestamp (blockTime t₀ n - AVERAGE_BLOCK_TIME_SECONDS * (n - k)) res =
      blockBucket t₀ res k := by
  have ht : blockTime t₀ n - AVERAGE_BLOCK_TIME_SECONDS * (n - k) = blockTime t₀ k := by
    simp only [blockTime, AVERAGE_BLOCK_TIME_SECONDS]
    omega
  rw [ht, blockBucket]

/-- Consecutive blocks lie in the same bucket or in neighbouring ones. -/
theorem no_bucket_between {t₀ n key : Nat} {res : Resolution} (hn : 0 < n)
    (hdvd : res.offset ∣ key) (hlo : blockBucket t₀ res (n - 1) < key) :
    blockBucket t₀ res n ≤ key := by
  have hnext := add_offset_le_of_lt (offset_dvd_blockBucket t₀ res (n - 1)) hdvd hlo
  have hlt := lt_fromTimestamp_add (blockTime t₀ (n - 1)) res
  change _ < blockBucket t₀ res (n - 1) + _ at hlt
  have hle := fromTimestamp_le (blockTime t₀ n) res
  change blockBucket t₀ res n ≤ _ at hle
  by_contra hgt
  have hnext' := add_offset_le_of_lt hdvd (offset_dvd_blockBucket t₀ res n)
    (Nat.lt_of_not_le hgt)
  have hoff : res.offset = 300 := by cases res; rfl
  simp only [blockTime, AVERAGE_BLOCK_TIME_SECONDS] at hlt hle
  omega

/-- The padding of a completed insert is attributed right exactly when all of it
belongs to the bucket of the last stored block, and that bar takes and keeps it. -/
theorem insertData_padding_attributed_iff {t₀ b n : Nat} {rc : Option Nat} {res : Resolution}
    {config : Option IndicatorsConfig} {cs : List BarsCall} {d : TickData} {f : Option Nat}
    {bars bars' : TimePriceBars} (hrun : (calls t₀).run (.new rc res config) cs = some bars)
    (hb : bars.HighestStored b) (hn : b + 1 < n)
    (h : insertData n d (blockTime t₀ n) f bars = .ok () bars') :
    bars'.PaddingAttributed t₀ b n ↔ bars.PaddingStays t₀ n := by
  obtain ⟨last, tick, hl, hle, hstores⟩ := stores_skipped_iff (calls_notEarly hrun) hb hn h
  have hsettings := insertData_settings n d (blockTime t₀ n) f bars
  rw [h] at hsettings
  have hres : bars'.resolution = bars.resolution := hsettings.resolution
  constructor
  · rintro ⟨hown, -⟩
    have hlast := hown (n - 1) (by omega) (by omega) (blockBucket t₀ bars.resolution (n - 1))
    rw [hres, ownBucket_eq (by omega)] at hlast
    obtain ⟨he, hpending, hretain⟩ := (hstores (n - 1) (by omega) (by omega) _).mp (hlast.mpr rfl)
    exact ⟨last, tick, hl, he.symm, hpending, hretain⟩
  · rintro ⟨last', tick', hl', hsame, hpending, hretain⟩
    obtain ⟨rfl, rfl⟩ : last = last' ∧ tick = tick' := by simpa [hl] using hl'
    refine ⟨fun k hbk hkn key => ?_, fun key hdvd hlo hhi => ?_⟩
    · have hbucket : blockBucket t₀ bars.resolution k = blockBucket t₀ bars.resolution last :=
        le_antisymm ((blockBucket_mono (by omega)).trans hsame.ge) (blockBucket_mono (by omega))
      rw [hres, ownBucket_eq (by omega), hbucket, hstores k hbk hkn]
      exact and_iff_left ⟨hpending, hretain⟩
    · rw [hres] at hdvd hlo hhi
      have hlo' : blockBucket t₀ bars.resolution (n - 1) < key :=
        hsame ▸ (blockBucket_mono hle).trans_lt hlo
      exact absurd (no_bucket_between (by omega) hdvd hlo') (Nat.not_le.mpr hhi)

theorem highestStored_of_single {bars : TimePriceBars} {key b : Nat} {bar : TimePriceBar}
    (hd : bars.data.entries = [(key, bar)]) (hb : bar.Holds b) (hmax : ∀ k, bar.Holds k → k ≤ b) :
    bars.HighestStored b := by
  refine ⟨⟨key, bar, OrdMap.get?_eq_some_iff.mpr (by simp [hd]), hb⟩, ?_⟩
  rintro key' k ⟨bar', hg, hk⟩
  have hm := OrdMap.get?_eq_some_iff.mp hg
  obtain ⟨rfl, rfl⟩ : key' = key ∧ bar' = bar := by simpa [hd] using hm
  exact hmax k hk

theorem holds_single_iff {n k : Nat} {d : TickData} {i : Option Indicators} :
    (TimePriceBar.pending { PendingTimePriceBar.new.insertBlockPriceBar n d with
      indicators := i }).Holds k ↔ k = n := by
  simp [TimePriceBar.Holds, PendingTimePriceBar.insertBlockPriceBar, PendingTimePriceBar.withBlocks,
    PendingTimePriceBar.new, OrdMap.get?_insert]

/-- A gap inside one bucket is padded right. -/
theorem insertData_padding_attributed_within_bucket : ∃ bars bars',
    (calls 6000).run (.new none .fiveMinutes (some .all)) [.insertData 0 unitTick none] = some bars ∧
      insertData 3 unitTick (blockTime 6000 3) (some 5700) bars = .ok () bars' ∧
      bars'.PaddingAttributed 6000 0 3 := by
  refine ⟨_, _, rfl, rfl, (@insertData_padding_attributed_iff 6000 0 3 none .fiveMinutes (some .all)
    [.insertData 0 unitTick none] unitTick (some 5700) _ _ rfl ?_ (by decide) rfl).mpr ?_⟩
  · exact highestStored_of_single rfl (holds_single_iff.mpr rfl) fun k hk =>
      (holds_single_iff.mp hk).le
  · refine ⟨0, unitTick, rfl, by decide, fun g hg => ?_, fun c hc => ?_⟩
    · cases Option.some.inj hg
    · cases hc

/-- Across a bucket boundary the padded blocks are stored in the bucket of the last
stored block: here blocks 1 and 2 belong to bucket 6300 and end up in bucket 6000. -/
theorem insertData_padding_misplaced : ∃ bars bars',
    (calls 6298).run (.new none .fiveMinutes (some .all)) [.insertData 0 unitTick none] = some bars ∧
      bars.HighestStored 0 ∧ insertData 3 unitTick (blockTime 6298 3) (some 5700) bars = .ok () bars' ∧
      ¬bars'.PaddingAttributed 6298 0 3 := by
  refine ⟨_, _, rfl, ?_, rfl, ?_⟩
  · exact highestStored_of_single rfl (holds_single_iff.mpr rfl) fun k hk =>
      (holds_single_iff.mp hk).le
  · rintro ⟨hown, -⟩
    obtain ⟨bar, hg, hk⟩ := (hown 1 (by decide) (by decide) 6300).mpr (by decide)
    cases Option.some.inj hg
    revert hk
    decide

end TimePriceBars

end Pochtecatl
