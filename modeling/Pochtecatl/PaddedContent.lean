import Pochtecatl.ReorgContent

namespace Pochtecatl

namespace TimePriceBars

open ResolutionTimestamp BlockInsert

/-- The blocks of the bar that takes the padding up to block `n`. -/
def padBlocks (b n : Nat) (tick : TickData) (blocks : OrdMap Nat TickData) :
    OrdMap Nat TickData :=
  (paddedNumbers b n).foldl (fun blocks k => blocks.insert k tick) blocks

variable {b n r : Nat} {tick : TickData} {blocks : OrdMap Nat TickData}

theorem get?_padBlocks (b n k : Nat) (tick : TickData) (blocks : OrdMap Nat TickData) :
    (padBlocks b n tick blocks).get? k = if b < k ∧ k < n then some tick else blocks.get? k := by
  rw [padBlocks, get?_foldl_insert]
  exact if_congr mem_paddedNumbers rfl rfl

theorem padBlocks_of_le (h : n ≤ b + 1) : padBlocks b n tick blocks = blocks := by
  refine OrdMap.ext_get? fun k => ?_
  rw [get?_padBlocks, if_neg (by omega)]

/-- Padding up to block `r` and from there on is padding in one go. -/
theorem padBlocks_padBlocks (hb : b < r) (hn : r ≤ n) :
    padBlocks (r - 1) n tick (padBlocks b r tick blocks) = padBlocks b n tick blocks := by
  refine OrdMap.ext_get? fun k => ?_
  simp only [get?_padBlocks]
  split <;> split <;> first | rfl | (split <;> first | rfl | omega) | omega

theorem filterKeys_padBlocks (hn : r ≤ n) (hlt : ∀ k t, blocks.get? k = some t → k < r) :
    (padBlocks b n tick blocks).filterKeys (· < r) = padBlocks b r tick blocks := by
  refine OrdMap.ext_get? fun k => ?_
  rw [OrdMap.get?_filterKeys, get?_padBlocks, get?_padBlocks]
  by_cases hk : k < r
  · rw [if_pos (decide_eq_true hk)]
    exact if_congr (by omega) rfl rfl
  · rw [if_neg (by simpa using hk), if_neg (by omega)]
    exact (Option.eq_none_iff_forall_ne_some.mpr fun t ht => hk (hlt k t ht)).symm

variable {t₀ bts target : Nat} {x y y' : TimePriceBars} {padded : List Nat}

theorem contentAt_eq_pending (hc : y.contentAt target = some (.pending (.withBlocks blocks)))
    {p : PendingTimePriceBar}
    (hp : (y.data.get? target).getD (.pending .new) = .pending p) : p.blockPriceBars = blocks := by
  obtain ⟨bar, hg, he⟩ := Option.map_eq_some_iff.mp hc
  rw [hg] at hp
  rw [show bar = .pending p from hp] at he
  injection he with he
  exact congrArg PendingTimePriceBar.blockPriceBars he

/-- The padding of a pending bar, which may be of no block. -/
theorem padMissing_contentAt (hl : y.lastBlock = some (b, tick))
    (htarget : y.padTarget n bts b = target)
    (hc : y.contentAt target = some (.pending (.withBlocks blocks)))
    (hp : padMissing n bts y = .ok padded y') (key : Nat) : y'.contentAt key =
      if key = target then some (.pending (.withBlocks (padBlocks b n tick blocks)))
      else y.contentAt key := by
  subst htarget
  rcases padMissing_cases n bts y with ⟨he, hfin⟩ | ⟨b', d, p, hl', -, hpad, he⟩
  · rw [he] at hp
    cases hp
    by_cases hlt : b + 1 < n
    · obtain ⟨f, hf⟩ := hfin b tick hl hlt
      rw [contentAt, hf] at hc
      cases Option.some.inj hc
    · rw [padBlocks_of_le (by omega)]
      split
      next hk => rw [hk, hc]
      next => rfl
  · rw [hl] at hl'
    cases hl'
    rw [he] at hp
    cases hp
    rw [contentAt_insert, padBlocks, ← contentAt_eq_pending hc hpad]
    rfl

theorem getD_ne_pending {key : Nat} {f : FinalizedTimePriceBar} {p : PendingTimePriceBar}
    (hc : y.contentAt key = some (.finalized f)) :
    (y.data.get? key).getD (.pending .new) ≠ .pending p := by
  intro hp
  obtain ⟨bar, hg, he⟩ := Option.map_eq_some_iff.mp hc
  rw [hg] at hp
  rw [show bar = .pending p from hp] at he
  cases he

theorem padMissing_of_finalized {f : FinalizedTimePriceBar} (hl : y.lastBlock = some (b, tick))
    (htarget : y.padTarget n bts b = target) (hc : y.contentAt target = some (.finalized f))
    (hp : padMissing n bts y = .ok padded y') : y' = y := by
  subst htarget
  rcases padMissing_cases n bts y with ⟨he, -⟩ | ⟨b', d, p, hl', -, hpad, -⟩
  · rw [he] at hp
    cases hp
    rfl
  · rw [hl] at hl'
    cases hl'
    exact absurd hpad (getD_ne_pending hc)

theorem padMissing_of_none (hl : y.lastBlock = none) (hp : padMissing n bts y = .ok padded y') :
    y' = y := by
  rcases padMissing_cases n bts y with ⟨he, -⟩ | ⟨b', d, p, hl', -, -, -⟩
  · rw [he] at hp
    cases hp
    rfl
  · rw [hl] at hl'
    cases hl'

theorem Tip.lastBlock_of_none (h : Tip t₀ none y) (hs : Sound t₀ y) : y.lastBlock = none := by
  rw [TimePriceBars.lastBlock, h.lastEntry_of_none hs, Option.bind_none]

/-- The bar of the last block takes padding, or is finalized. -/
theorem Tip.contentAt_cases (h : Tip t₀ (some b) y) (hs : Sound t₀ y) :
    ∃ tick, y.lastBlock = some (b, tick) ∧
      ((∃ f, y.contentAt (blockBucket t₀ y.resolution b) = some (.finalized f)) ∨
        ∃ blocks, y.contentAt (blockBucket t₀ y.resolution b) =
          some (.pending (.withBlocks blocks)) ∧ blocks.get? b = some tick) := by
  obtain ⟨tick, hl⟩ := h.lastBlock hs
  obtain ⟨bar, he, hh⟩ := h.lastEntry hs
  have hg := (OrdMap.lastEntry_eq_some_iff.mp he).1
  refine ⟨tick, hl, ?_⟩
  rw [contentAt, hg, Option.map_some]
  cases bar with
  | finalized f => exact Or.inl ⟨_, rfl⟩
  | pending p =>
    rw [(hs.bar _ _ hg).content_eq]
    refine Or.inr ⟨p.blockPriceBars, rfl, ?_⟩
    rw [TimePriceBars.lastBlock, he] at hl
    exact (OrdMap.lastEntry_eq_some_iff.mp hl).1

/-- Pending bars hold a block and are given by their blocks. -/
theorem Sound.padMissing_pending (hs : Sound t₀ y) (hp : padMissing n bts y = .ok padded y')
    {key : Nat} {q : PendingTimePriceBar} (hq : y'.data.get? key = some (.pending q)) :
    (∃ k t, q.blockPriceBars.get? k = some t) ∧
      y'.contentAt key = some (.pending (.withBlocks q.blockPriceBars)) := by
  have hold : ∀ q, y.data.get? key = some (.pending q) →
      (∃ k t, q.blockPriceBars.get? k = some t) ∧
        (TimePriceBar.pending q).content = .pending (.withBlocks q.blockPriceBars) :=
    fun q hq => ⟨(hs.notEarly key _ hq).1, (hs.bar key _ hq).content_eq⟩
  rw [contentAt, hq, Option.map_some, Option.some_inj]
  rcases padMissing_cases n bts y with ⟨he, -⟩ | ⟨b, d, p, hl, hlt, hpad, he⟩
  · rw [he] at hp
    cases hp
    exact hold q hq
  · rw [he] at hp
    cases hp
    rw [OrdMap.get?_insert] at hq
    split at hq
    next =>
      cases hq
      exact ⟨⟨b + 1, PendingTimePriceBar.holds_insertBlockPriceBarRange.mpr
        (Or.inl (mem_paddedNumbers.mpr ⟨by omega, hlt⟩))⟩, rfl⟩
    next => exact hold q hq

/-- A block from `r` on is of no account to what a reorg to `r` keeps. -/
theorem insertData_keptAt {d : TickData} {paddedBars : TimePriceBars} (hs : Sound t₀ y)
    (hr : r ≤ n) (hp : padMissing n (blockTime t₀ n) y = .ok padded paddedBars)
    (hok : insertData n d (blockTime t₀ n) none y = .ok () y') (key : Nat) :
    y'.keptAt r key = paddedBars.keptAt r key := by
  obtain ⟨padded', paddedBars', inserted, hp', hi, -, hc⟩ := insertData_ok_contentAt hok
  rw [hp] at hp'
  cases hp'
  obtain ⟨q, hq, -, hinserted⟩ := insertBlock_ok hi
  have hretention : inserted.retentionCount = none := by
    rw [hinserted]
    exact (padMissing_settings hp).retentionCount.trans hs.retention
  have hid : y.settleIn none key = id := funext fun bar => if_neg (by simp [InFinalizeRange])
  have hcontent := hc key
  rw [pruneToRetentionCount_of_none hretention, hid, Option.map_id_fun, id, hinserted,
    contentAt_insert] at hcontent
  unfold keptAt
  rw [hcontent]
  split
  next hkey =>
    subst hkey
    have hinsert : (TimePriceBar.pending (q.insertBlockPriceBar n d)).content =
        .pending (.withBlocks (q.blockPriceBars.insert n d)) := rfl
    rw [Option.bind_some, hinsert]
    cases hg : paddedBars.data.get? (fromTimestamp (blockTime t₀ n) y.resolution) with
    | none =>
      rw [hg] at hq
      cases hq
      rw [contentAt, hg]
      refine TimePriceBar.cut_withBlocks_eq_none (OrdMap.get?_insert_self _ _ _) fun j hj => ?_
      rw [OrdMap.get?_insert_ne (by omega)]
      rfl
    | some bar =>
      rw [hg] at hq
      rw [show bar = .pending q from hq] at hg
      obtain ⟨⟨k, t, hk⟩, hcq⟩ := hs.padMissing_pending hp hg
      rw [hcq, Option.bind_some]
      exact TimePriceBar.cut_withBlocks_congr (OrdMap.get?_insert_self _ _ _) hk fun j hj =>
        OrdMap.get?_insert_ne (by omega)
  next => rfl

/-- Padding after block `r` adds nothing before it. -/
theorem Tip.padMissing_keptAt {tip : Option Nat} (h : Tip t₀ tip y) (hs : Sound t₀ y)
    (hr : ∀ b, tip = some b → r ≤ b ∧ b < n)
    (hp : padMissing n (blockTime t₀ n) y = .ok padded y') (key : Nat) :
    y'.keptAt r key = y.keptAt r key := by
  cases htip : tip with
  | none =>
    subst htip
    rw [padMissing_of_none (h.lastBlock_of_none hs) hp]
  | some b =>
    subst htip
    obtain ⟨hrb, hbn⟩ := hr b rfl
    obtain ⟨tick, hl, ⟨f, hc⟩ | ⟨blocks, hc, hb⟩⟩ := h.contentAt_cases hs
    · rw [padMissing_of_finalized hl (padTarget_blockTime hbn.le) hc hp]
    · rw [keptAt, padMissing_contentAt hl (padTarget_blockTime hbn.le) hc hp]
      split
      next hkey =>
        rw [keptAt, hkey, hc, Option.bind_some, Option.bind_some]
        have hb' : (padBlocks b n tick blocks).get? b = some tick := by
          rw [get?_padBlocks, if_neg (by omega), hb]
        refine TimePriceBar.cut_withBlocks_congr hb' hb fun j hj => ?_
        rw [get?_padBlocks, if_neg (by omega)]
      next => rfl

/-- Of the padding across `r`, a reorg to `r` keeps the part before `r`. -/
theorem Tip.padMissing_keptAt_across {tip : Option Nat} {kept : TimePriceBars} {padded' : List Nat}
    (h : Tip t₀ tip y) (hs : Sound t₀ y) (hr : ∀ b, tip = some b → b < r) (hn : r ≤ n)
    (hp : padMissing n (blockTime t₀ n) y = .ok padded y')
    (hkept : padMissing r (blockTime t₀ r) y = .ok padded' kept) (key : Nat) :
    y'.keptAt r key = kept.contentAt key := by
  have hbelow : AllBelow r y := h.allBelow hr
  cases htip : tip with
  | none =>
    subst htip
    rw [padMissing_of_none (h.lastBlock_of_none hs) hp,
      padMissing_of_none (h.lastBlock_of_none hs) hkept, keptAt_of_allBelow hbelow]
  | some b =>
    subst htip
    have hbr := hr b rfl
    obtain ⟨tick, hl, ⟨f, hc⟩ | ⟨blocks, hc, hb⟩⟩ := h.contentAt_cases hs
    · rw [padMissing_of_finalized hl (padTarget_blockTime (by omega)) hc hp,
        padMissing_of_finalized hl (padTarget_blockTime hbr.le) hc hkept,
        keptAt_of_allBelow hbelow]
    · rw [keptAt, padMissing_contentAt hl (padTarget_blockTime (by omega)) hc hp,
        padMissing_contentAt hl (padTarget_blockTime hbr.le) hc hkept]
      split
      next =>
        have hlt : ∀ k t, blocks.get? k = some t → k < r := by
          intro k t hk
          obtain ⟨bar, hg, he⟩ := Option.map_eq_some_iff.mp hc
          refine hbelow _ bar hg k ((TimePriceBar.holds_content bar k).mp ?_)
          rw [he]
          exact ⟨t, hk⟩
        have hb' : (padBlocks b n tick blocks).get? b = some tick := by
          rw [get?_padBlocks, if_neg (by omega), hb]
        rw [Option.bind_some, TimePriceBar.cut_withBlocks_of_lt hb' hbr,
          filterKeys_padBlocks hn hlt]
      next => exact keptAt_of_allBelow hbelow key

/-- Without finalization, blocks inserted from `r` on leave what a reorg to `r` keeps. -/
theorem insertAll_keptAt {tip : Option Nat} {l : List BlockInsert} (hs : Sound t₀ y)
    (h : Tip t₀ tip y) (hl : (l.map (·.blockNumber)).Pairwise (· < ·))
    (hr : ∀ b ∈ l, r ≤ b.blockNumber) (hf : ∀ b ∈ l, b.finalizedTimestamp = none)
    (htip : ∀ n, tip = some n → r ≤ n ∧ ∀ b ∈ l, n < b.blockNumber)
    (hok : insertAll t₀ l y = .ok () y') (key : Nat) : y'.keptAt r key = y.keptAt r key := by
  induction l generalizing y tip with
  | nil =>
    cases hok
    rfl
  | cons b l ih =>
    obtain ⟨s, hstep, hrest⟩ := insertAll_cons_ok hok
    rw [hf b List.mem_cons_self] at hstep
    have hlt : ∀ n, tip = some n → n < b.blockNumber := fun n hn =>
      (htip n hn).2 b List.mem_cons_self
    obtain ⟨hb, hl⟩ := List.pairwise_cons.mp hl
    obtain ⟨padded, paddedBars, hp⟩ := padMissing_ok b.blockNumber (blockTime t₀ b.blockNumber) y
    have hrb := hr b List.mem_cons_self
    rw [ih (hs.insertData (h.allBelow hlt) (fun _ he => by cases he) hstep)
      (h.insertData hs hlt hstep) hl (fun b' hb' => hr b' (List.mem_cons_of_mem _ hb'))
      (fun b' hb' => hf b' (List.mem_cons_of_mem _ hb'))
      (fun n hn => by
        cases hn
        exact ⟨hrb, fun b' hb' => hb _ (List.mem_map_of_mem hb')⟩) hrest,
      insertData_keptAt hs hrb hp hstep]
    exact h.padMissing_keptAt hs (fun n hn => ⟨(htip n hn).1, hlt n hn⟩) hp key

/-- What a reorg to `r` keeps of a run of blocks from `r` on: the bars before the run and
the padding up to `r`. -/
theorem insertAll_keptAt_across {tip : Option Nat} {l : List BlockInsert}
    {kept : TimePriceBars} (hs : Sound t₀ y) (h : Tip t₀ tip y)
    (hl : (l.map (·.blockNumber)).Pairwise (· < ·)) (hr : ∀ b ∈ l, r ≤ b.blockNumber)
    (hf : ∀ b ∈ l, b.finalizedTimestamp = none) (htip : ∀ n, tip = some n → n < r) (hne : l ≠ [])
    (hkept : padMissing r (blockTime t₀ r) y = .ok padded kept)
    (hok : insertAll t₀ l y = .ok () y') (key : Nat) :
    y'.keptAt r key = kept.contentAt key := by
  obtain ⟨b, l, rfl⟩ := List.exists_cons_of_ne_nil hne
  obtain ⟨s, hstep, hrest⟩ := insertAll_cons_ok hok
  rw [hf b List.mem_cons_self] at hstep
  have hrb := hr b List.mem_cons_self
  have hlt : ∀ n, tip = some n → n < b.blockNumber := fun n hn => (htip n hn).trans_le hrb
  obtain ⟨hb, hl⟩ := List.pairwise_cons.mp hl
  obtain ⟨padded', paddedBars, hp⟩ := padMissing_ok b.blockNumber (blockTime t₀ b.blockNumber) y
  rw [insertAll_keptAt (hs.insertData (h.allBelow hlt) (fun _ he => by cases he) hstep)
    (h.insertData hs hlt hstep) hl (fun b' hb' => hr b' (List.mem_cons_of_mem _ hb'))
    (fun b' hb' => hf b' (List.mem_cons_of_mem _ hb'))
    (fun n hn => by
      cases hn
      exact ⟨hrb, fun b' hb' => hb _ (List.mem_map_of_mem hb')⟩) hrest,
    insertData_keptAt hs hrb hp hstep]
  exact h.padMissing_keptAt_across hs htip hrb hp hkept key

end TimePriceBars

end Pochtecatl
