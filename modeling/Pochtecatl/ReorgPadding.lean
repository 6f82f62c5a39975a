import Pochtecatl.PaddedContent

namespace Pochtecatl

namespace TimePriceBars

open ResolutionTimestamp BlockInsert

variable {t₀ r n : Nat} {x y x' y' kept : TimePriceBars} {padded padded' : List Nat}

/-- Runs of the same blocks end with the same bars when no bar is finalized in the first only. -/
theorem Paired.data_eq_iff {tip : Option Nat} (h : Paired t₀ tip x y) :
    x.data = y.data ↔ ∀ key bar, y.data.get? key = some bar → ¬Lag x y key := by
  constructor
  · intro hdata key bar hg hlag
    obtain ⟨bar', hg', he⟩ := h.ahead.exists_bar hg
    rw [hdata, hg] at hg'
    cases Option.some.inj hg'
    rw [settleLag, if_pos hlag, TimePriceBar.settle_content] at he
    obtain ⟨f, hf⟩ := (h.right.bar key bar hg).exists_settle
    have hfinal : bar.isFinalized = true := by
      rw [← TimePriceBar.isFinalized_content, he, hf]
      rfl
    exact hlag.2 ((h.right.bar key bar hg).final hfinal)
  · intro hlag
    refine Fresh.data_eq h.right.fresh h.left.fresh h.ahead.settings fun key => ?_
    cases hg : y.data.get? key with
    | none => rw [contentAt, contentAt, h.ahead.get?_eq_none_iff.mpr hg, hg]
    | some bar => exact h.ahead.contentAt_eq (hlag key bar hg)

/-- An insert past the last block adds a bar to its own bucket at most. -/
theorem Tip.hasBar_insertData {tip : Option Nat} {d : TickData} {f : Option Nat}
    (h : Tip t₀ tip x) (hs : Sound t₀ x) (hlt : ∀ b, tip = some b → b < n)
    (hf : ∀ last, f = some last → x.resolution.offset ∣ last)
    (hok : TimePriceBars.insertData n d (blockTime t₀ n) f x = .ok () x') (key : Nat) :
    (∃ bar, x'.data.get? key = some bar) ↔
      (∃ bar, x.data.get? key = some bar) ∨ blockBucket t₀ x.resolution n = key := by
  obtain ⟨hnew, hkeep⟩ := stores_of_insertData hs.retention hok
  have hs' := hs.insertData (h.allBelow hlt) hf hok
  constructor
  · rintro ⟨bar, hg⟩
    obtain ⟨k, hk⟩ := (hs'.notEarly key bar hg).1
    obtain ⟨s, -, -, -, hold | ⟨hkey, -⟩ | ⟨b, tick, p, hl, hbs, hsn, hkey, -⟩, -⟩ :=
      exists_arrives_of_insertData hok ⟨bar, hg, hk⟩
    · exact Or.inl ⟨_, hold.choose_spec.1⟩
    · exact Or.inr hkey.symm
    · cases tip with
      | none =>
        rw [h.lastBlock_of_none hs] at hl
        cases hl
      | some b' =>
        obtain ⟨tick', hl'⟩ := h.lastBlock hs
        rw [hl] at hl'
        cases hl'
        rw [padTarget_blockTime (by omega)] at hkey
        obtain ⟨bar', hg', -⟩ := h.stored b rfl
        exact Or.inl ⟨bar', hkey ▸ hg'⟩
  · rintro (⟨bar, hg⟩ | rfl)
    · obtain ⟨k, hk⟩ := (hs.notEarly key bar hg).1
      obtain ⟨bar', hg', -⟩ := hkeep key k ⟨bar, hg, hk⟩
      exact ⟨bar', hg'⟩
    · obtain ⟨bar', hg', -⟩ := hnew
      exact ⟨bar', hg'⟩

/-- The bars of a run are those of the buckets of its blocks. -/
theorem insertAll_hasBar {tip : Option Nat} {l : List BlockInsert} (hs : Sound t₀ x)
    (h : Tip t₀ tip x) (hl : (l.map (·.blockNumber)).Pairwise (· < ·))
    (haligned : ∀ b ∈ l, ∀ f, b.finalizedTimestamp = some f → x.resolution.offset ∣ f)
    (htip : ∀ n, tip = some n → ∀ b ∈ l, n < b.blockNumber)
    (hok : insertAll t₀ l x = .ok () x') (key : Nat) : (∃ bar, x'.data.get? key = some bar) ↔
      (∃ bar, x.data.get? key = some bar) ∨
        ∃ b ∈ l, blockBucket t₀ x.resolution b.blockNumber = key := by
  induction l generalizing x tip with
  | nil =>
    cases hok
    simp
  | cons b l ih =>
    obtain ⟨s, hstep, hrest⟩ := insertAll_cons_ok hok
    have hlt : ∀ n, tip = some n → n < b.blockNumber := fun n hn => htip n hn b List.mem_cons_self
    have hres : s.resolution = x.resolution := (insertData_ok_settings hstep).resolution
    obtain ⟨hb, hl⟩ := List.pairwise_cons.mp hl
    have haligned' := haligned b List.mem_cons_self
    rw [ih (hs.insertData (h.allBelow hlt) haligned' hstep) (h.insertData hs hlt hstep) hl
      (fun b' hb' => hres ▸ haligned b' (List.mem_cons_of_mem _ hb'))
      (fun n hn b' hb' => by
        cases hn
        exact hb _ (List.mem_map_of_mem hb')) hrest,
      h.hasBar_insertData hs hlt haligned' hstep, hres, or_assoc]
    simp

/-- Of the last kept block, the padding up to `r` leaves block `r - 1` last. -/
theorem lastBlock_of_padMissing {b : Nat} {tick : TickData} {blocks : OrdMap Nat TickData}
    (h : Tip t₀ (some b) y) (hs : Sound t₀ y) (hbr : b < r)
    (hl : y.lastBlock = some (b, tick))
    (hc : y.contentAt (blockBucket t₀ y.resolution b) = some (.pending (.withBlocks blocks)))
    (hb : blocks.get? b = some tick) (hp : padMissing r (blockTime t₀ r) y = .ok padded kept) :
    kept.lastBlock = some (r - 1, tick) ∧
      ∃ bar, kept.data.lastEntry = some (blockBucket t₀ y.resolution b, bar) := by
  have hkept := padMissing_contentAt hl (padTarget_blockTime hbr.le) hc hp
  have htarget := hkept (blockBucket t₀ y.resolution b)
  rw [if_pos rfl] at htarget
  obtain ⟨bar, hg, he⟩ := Option.map_eq_some_iff.mp htarget
  have hlast : kept.data.lastEntry = some (blockBucket t₀ y.resolution b, bar) := by
    refine OrdMap.lastEntry_eq_some_iff.mpr ⟨hg, fun key bar' hk => ?_⟩
    have hkey := hkept key
    rw [contentAt, hk] at hkey
    split at hkey
    next he => exact he.le
    next =>
      obtain ⟨bar'', hg', -⟩ := Option.map_eq_some_iff.mp hkey.symm
      obtain ⟨lastBar, hlb, -⟩ := h.lastEntry hs
      exact (OrdMap.lastEntry_eq_some_iff.mp hlb).2 key bar'' hg'
  refine ⟨?_, bar, hlast⟩
  cases bar with
  | finalized f => cases he
  | pending q =>
    injection he with he
    have hq : q.blockPriceBars = padBlocks b r tick blocks :=
      congrArg PendingTimePriceBar.blockPriceBars he
    rw [lastBlock, hlast, Option.bind_some]
    refine OrdMap.lastEntry_eq_some_iff.mpr ⟨?_, fun k t hk => ?_⟩
    · rw [hq, get?_padBlocks]
      split
      next => rfl
      next hnot =>
        obtain rfl : r - 1 = b := by omega
        exact hb
    · rw [hq, get?_padBlocks] at hk
      split at hk
      next => omega
      next =>
        have hle : k ≤ b := by
          obtain ⟨bar', hg', he'⟩ := Option.map_eq_some_iff.mp hc
          obtain ⟨m, hm, hle⟩ := h.below _ k ⟨bar', hg', by
            rw [← TimePriceBar.holds_content, he']
            exact ⟨t, hk⟩⟩
          cases hm
          exact hle
        omega

/-- The bars of the last kept block's bucket after that block's insert. -/
theorem isFinalized_insertData_iff {d : TickData} {f : Option Nat} {bar : TimePriceBar}
    (hs : Sound t₀ x)
    (hok : insertData n d (blockTime t₀ n) f x = .ok () x')
    (hg : x'.data.get? (blockBucket t₀ x.resolution n) = some bar) :
    bar.isFinalized ↔ Reached f (blockBucket t₀ x.resolution n) ∧
      ¬Reached x.lastFinalizedTimestamp (blockBucket t₀ x.resolution n) := by
  obtain ⟨padded, paddedBars, inserted, hp, hi, -, hc⟩ := insertData_ok_contentAt hok
  change insertBlock n d _ (blockBucket t₀ x.resolution n) paddedBars = _ at hi
  obtain ⟨q, hq, -, hinserted⟩ := insertBlock_ok hi
  have hretention : inserted.retentionCount = none := by
    rw [hinserted]
    exact (padMissing_settings hp).retentionCount.trans hs.retention
  have hcontent := hc (blockBucket t₀ x.resolution n)
  rw [pruneToRetentionCount_of_none hretention, hinserted, contentAt_insert, if_pos rfl,
    Option.map_some, contentAt, hg, Option.map_some, Option.some_inj] at hcontent
  rw [← inFinalizeRange_iff (offset_dvd_blockBucket _ _ _) hs.frontier,
    ← TimePriceBar.isFinalized_content, hcontent, settleIn]
  split
  next hin =>
    refine iff_of_true ?_ hin
    obtain ⟨g, hfin⟩ := @PendingTimePriceBar.exists_asFinalized (q.insertBlockPriceBar n d)
      ⟨n, PendingTimePriceBar.holds_insertBlockPriceBar.mpr (Or.inl rfl)⟩ rfl
    rw [TimePriceBar.settle_content, TimePriceBar.settle_of_asFinalized hfin]
    rfl
  next hout => exact iff_of_false (by simp [TimePriceBar.content, TimePriceBar.isFinalized]) hout

theorem padMissing_of_le {b : Nat} {tick : TickData} {bts : Nat}
    (hl : y.lastBlock = some (b, tick)) (hn : n ≤ b + 1)
    (hp : padMissing n bts y = .ok padded y') : y' = y := by
  rcases padMissing_cases n bts y with ⟨he, -⟩ | ⟨b', d, p, hl', hlt, -, -⟩
  · rw [he] at hp
    cases hp
    rfl
  · rw [hl] at hl'
    cases hl'
    omega

/-- Without its finalization a run of orphaned blocks leaves, below `r`, the bars before it
and the padding up to `r`. -/
theorem exists_kept {tip : Option Nat} {O : List BlockInsert} (hy : Sound t₀ y)
    (h : Tip t₀ tip y) (hO : Admissible t₀ r y.resolution O)
    (hr : ∀ b ∈ O, r ≤ b.blockNumber) (htip : ∀ n, tip = some n → n < r)
    (hfree : ¬Reached y.lastFinalizedTimestamp (blockBucket t₀ y.resolution r))
    (hne : O ≠ []) (hp : padMissing r (blockTime t₀ r) y = .ok padded kept)
    (hok : insertAll t₀ O y = .ok () x) (hprune : pruneToReorgedBlockNumber r x = .ok () x') :
    Ahead x' kept ∧ AllBelow r x' ∧ x'.lastFinalizedTimestamp = x.lastFinalizedTimestamp ∧
      Sound t₀ x' := by
  have hpaired : Paired t₀ tip y y :=
    ⟨Ahead.refl y, hy, hy, h.below, h, fun n _ => not_lag_self y _⟩
  obtain ⟨tip', ghost, hghost, hpair⟩ := hpaired.insertAll (g := fun _ => none) hO hr
    (fun n hn b hb => (htip n hn).trans_le (hr b hb)) (fun _ _ hv => by cases hv) hfree hok
  have hmapped : ∀ b ∈ O.map (mapFinalized fun _ => none),
      r ≤ b.blockNumber ∧ b.finalizedTimestamp = none := by
    intro b hb
    obtain ⟨b₀, hb₀, rfl⟩ := List.mem_map.mp hb
    exact ⟨hr b₀ hb₀, rfl⟩
  have hnumbers : (O.map (mapFinalized fun _ => none)).map (·.blockNumber) =
      O.map (·.blockNumber) := List.map_map ..
  have hkept := insertAll_keptAt_across hy h (hnumbers ▸ hO.increasing)
    (fun b hb => (hmapped b hb).1) (fun b hb => (hmapped b hb).2) htip
    (fun he => hne (List.map_eq_nil_iff.mp he)) hp hghost
  have hreached : ∀ key, Reached kept.lastFinalizedTimestamp key ↔
      Reached ghost.lastFinalizedTimestamp key := by
    intro key
    rw [insertAll_reached hghost key, padMissing_fields hp, or_iff_left]
    rintro ⟨b, hb, f, hf, -⟩
    rw [(hmapped b hb).2] at hf
    cases hf
  have hghost' := insertAll_settings hghost
  have hkept' := padMissing_settings hp
  have hsettings : SameSettings ghost kept :=
    ⟨hkept'.resolution.trans hghost'.resolution.symm,
      hkept'.retentionCount.trans hghost'.retentionCount.symm,
      hkept'.indicatorsConfig.trans hghost'.indicatorsConfig.symm⟩
  obtain ⟨hahead, hbelow, hlast⟩ := hpair.ahead.pruneToReorgedBlockNumber hpair.left hpair.right
    hpair.ends.ordered hsettings hreached (fun key => (hkept key).symm) hprune
  exact ⟨hahead, hbelow, hlast, hpair.left.pruneToReorgedBlockNumber hprune⟩

/-- Padding up to `r` and from there on ends like padding in one go, when `r - 1` lies in the
bucket of the last block. -/
theorem padMissing_sameContent {b : Nat} {tick : TickData} {blocks : OrdMap Nat TickData}
    {k₁ y₁ : TimePriceBars} {padK padY : List Nat} (hbr : b < r) (hn : r ≤ n)
    (hl : y.lastBlock = some (b, tick))
    (hc : y.contentAt (blockBucket t₀ y.resolution b) = some (.pending (.withBlocks blocks)))
    (hp : padMissing r (blockTime t₀ r) y = .ok padded kept)
    (hkl : kept.lastBlock = some (r - 1, tick))
    (hbucket : blockBucket t₀ y.resolution (r - 1) = blockBucket t₀ y.resolution b)
    (hk : padMissing n (blockTime t₀ n) kept = .ok padK k₁)
    (hy : padMissing n (blockTime t₀ n) y = .ok padY y₁) : SameContent k₁ y₁ := by
  have htarget : kept.padTarget n (blockTime t₀ n) (r - 1) = blockBucket t₀ y.resolution b := by
    rw [padTarget_blockTime (by omega), (padMissing_settings hp).resolution, hbucket]
  have hkc := padMissing_contentAt hl (padTarget_blockTime hbr.le) hc hp
  have hkb := hkc (blockBucket t₀ y.resolution b)
  rw [if_pos rfl] at hkb
  have hk₁ := padMissing_contentAt hkl htarget hkb hk
  have hy₁ := padMissing_contentAt hl (padTarget_blockTime (by omega)) hc hy
  have hsettings := (padMissing_settings hp).trans (padMissing_settings hk)
  have hsettings' := padMissing_settings hy
  refine ⟨hsettings'.resolution.trans hsettings.resolution.symm,
    hsettings'.retentionCount.trans hsettings.retentionCount.symm,
    hsettings'.indicatorsConfig.trans hsettings.indicatorsConfig.symm, ?_, fun key => ?_⟩
  · rw [padMissing_fields hy, padMissing_fields hk, padMissing_fields hp]
  · change y₁.contentAt key = k₁.contentAt key
    rw [hk₁, hy₁, padBlocks_padBlocks hbr hn, hkc]
    split <;> rfl

/-- The first replacement `n` finds the same bars to pad after the reorg as it does after the
kept blocks. -/
theorem padMissing_alike {tip : Option Nat} (hy : Sound t₀ y) (h : Tip t₀ tip y)
    (htip : ∀ b, tip = some b → b < r) (hn : r ≤ n)
    (hp : padMissing r (blockTime t₀ r) y = .ok padded kept) (hahead : Ahead x kept)
    (halike : n = r ∨ ∀ b, tip = some b →
      (∃ f, y.contentAt (blockBucket t₀ y.resolution b) = some (.finalized f)) ∨
        blockBucket t₀ y.resolution (r - 1) = blockBucket t₀ y.resolution b ∧
          ¬Lag x y (blockBucket t₀ y.resolution b)) :
    ∃ padX x₁ padY y₁, padMissing n (blockTime t₀ n) x = .ok padX x₁ ∧
      padMissing n (blockTime t₀ n) y = .ok padY y₁ ∧ Ahead x₁ y₁ := by
  have hres : kept.resolution = y.resolution := (padMissing_settings hp).resolution
  have hlag : ∀ key, Lag x kept key ↔ Lag x y key := fun key => by
    rw [Lag, Lag, padMissing_fields hp]
  obtain ⟨padY, y₁, hy₁⟩ := padMissing_ok n (blockTime t₀ n) y
  -- what the padding of the kept state has to do with that of the whole gap
  suffices hgap : (∀ b tick, kept.lastBlock = some (b, tick) → b + 1 < n →
      x.lastBlock = kept.lastBlock ∧ ¬Lag x kept (kept.padTarget n (blockTime t₀ n) b)) ∧
      ∀ padK k₁, padMissing n (blockTime t₀ n) kept = .ok padK k₁ → SameContent k₁ y₁ by
    obtain ⟨padK, x₁, k₁, hx₁, hk₁, h₁⟩ := hahead.padMissing n (blockTime t₀ n)
      hahead.lastBlock_number hgap.1
    exact ⟨padK, x₁, padY, y₁, hx₁, hy₁,
      h₁.of_sameContent (SameContent.refl x₁) (hgap.2 padK k₁ hk₁)⟩
  have hself : ∀ padK k₁, kept = y → padMissing n (blockTime t₀ n) kept = .ok padK k₁ →
      SameContent k₁ y₁ := by
    intro padK k₁ he hk₁
    rw [he, hy₁] at hk₁
    cases hk₁
    exact SameContent.refl y₁
  cases tip with
  | none =>
    have hkept := padMissing_of_none (h.lastBlock_of_none hy) hp
    refine ⟨fun b tick hl => ?_, fun padK k₁ => hself padK k₁ hkept⟩
    rw [hkept, h.lastBlock_of_none hy] at hl
    cases hl
  | some b =>
    have hbr := htip b rfl
    obtain ⟨tick, hl, ⟨f, hc⟩ | ⟨blocks, hc, hb⟩⟩ := h.contentAt_cases hy
    · have hkept := padMissing_of_finalized hl (padTarget_blockTime hbr.le) hc hp
      have hnolag : ¬Lag x kept (blockBucket t₀ y.resolution b) := by
        intro hlagged
        obtain ⟨bar, hg, he⟩ := Option.map_eq_some_iff.mp hc
        refine ((hlag _).mp hlagged).2 ((hy.bar _ bar hg).final ?_)
        rw [← TimePriceBar.isFinalized_content, he]
        rfl
      refine ⟨fun b' tick' hl' hlt => ⟨hahead.lastBlock_eq fun key bar he => ?_, ?_⟩,
        fun padK k₁ => hself padK k₁ hkept⟩
      · obtain ⟨lastBar, he', -⟩ := h.lastEntry hy
        rw [hkept, he'] at he
        cases he
        exact hnolag
      · rw [hkept, hl] at hl'
        cases hl'
        rw [padTarget_blockTime (by omega), hres]
        exact hnolag
    · obtain ⟨hkl, bar, hke⟩ := lastBlock_of_padMissing h hy hbr hl hc hb hp
      by_cases hnr : n = r
      · subst hnr
        rw [hp] at hy₁
        cases hy₁
        refine ⟨fun b' tick' hl' hlt => ?_, fun padK k₁ hk₁ => ?_⟩
        · rw [hkl] at hl'
          cases hl'
          omega
        · rw [padMissing_of_le hkl (by omega) hk₁]
          exact SameContent.refl kept
      · rcases halike.resolve_left hnr b rfl with ⟨f, hf⟩ | ⟨hbucket, hnolag⟩
        · rw [hc] at hf
          cases Option.some.inj hf
        · have htarget : kept.padTarget n (blockTime t₀ n) (r - 1) =
              blockBucket t₀ y.resolution b := by
            rw [padTarget_blockTime (by omega), hres, hbucket]
          refine ⟨fun b' tick' hl' hlt => ⟨hahead.lastBlock_eq fun key bar' he => ?_, ?_⟩,
            fun padK k₁ hk₁ => ?_⟩
          · rw [hke] at he
            cases he
            exact fun hlagged => hnolag ((hlag _).mp hlagged)
          · rw [hkl] at hl'
            cases hl'
            rw [htarget]
            exact fun hlagged => hnolag ((hlag _).mp hlagged)
          · exact padMissing_sameContent hbr hn hl hc hp hkl hbucket hk₁ hy₁

end TimePriceBars

end Pochtecatl
