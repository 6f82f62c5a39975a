import Pochtecatl.SoundBars

namespace Pochtecatl

namespace TimePriceBars

open ResolutionTimestamp

/-- Finalization got to the bucket in the first run only. -/
def Lag (x y : TimePriceBars) (key : Nat) : Prop :=
  Reached x.lastFinalizedTimestamp key ∧ ¬Reached y.lastFinalizedTimestamp key

instance (x y : TimePriceBars) (key : Nat) : Decidable (Lag x y key) :=
  inferInstanceAs (Decidable (_ ∧ _))

def settleLag (x y : TimePriceBars) (key : Nat) (bar : TimePriceBar) : TimePriceBar :=
  if Lag x y key then bar.settle else bar

/-- Two runs hold the same, up to bars that only the first one finalized. -/
structure Ahead (x y : TimePriceBars) : Prop where
  settings : SameSettings y x
  frontier : ∀ key, Reached y.lastFinalizedTimestamp key → Reached x.lastFinalizedTimestamp key
  content : ∀ key, x.contentAt key = (y.contentAt key).map (settleLag x y key)

variable {x y x' y' : TimePriceBars}

theorem not_lag_self (x : TimePriceBars) (key : Nat) : ¬Lag x x key := fun h => h.2 h.1

theorem Ahead.contentAt_eq (h : Ahead x y) {key : Nat} (hlag : ¬Lag x y key) :
    x.contentAt key = y.contentAt key := by
  have hid : settleLag x y key = id := funext fun bar => if_neg hlag
  rw [h.content key, hid, Option.map_id_fun, id]

theorem Ahead.refl (x : TimePriceBars) : Ahead x x := by
  refine ⟨⟨rfl, rfl, rfl⟩, fun _ hr => hr, fun key => ?_⟩
  have hid : settleLag x x key = id := funext fun bar => if_neg (not_lag_self x key)
  rw [hid, Option.map_id_fun, id]

theorem Ahead.of_sameContent (h : Ahead x y) (hx : SameContent x x') (hy : SameContent y y') :
    Ahead x' y' := by
  have hlag : settleLag x' y' = settleLag x y := by
    funext key bar
    have hiff : Lag x' y' key ↔ Lag x y key := by
      simp only [Lag, hx.lastFinalizedTimestamp, hy.lastFinalizedTimestamp]
    exact if_congr hiff rfl rfl
  refine ⟨hy.symm.settings.trans (h.settings.trans hx.settings), fun key hr => ?_, fun key => ?_⟩
  · rw [hx.lastFinalizedTimestamp]
    rw [hy.lastFinalizedTimestamp] at hr
    exact h.frontier key hr
  · rw [hx.contentAt_eq, hy.contentAt_eq, hlag, h.content key]

theorem contentAt_insert (bars : TimePriceBars) (key k : Nat) (bar : TimePriceBar) :
    contentAt { bars with data := bars.data.insert key bar } k =
      if k = key then some bar.content else bars.contentAt k := by
  simp only [contentAt, OrdMap.get?_insert]
  split <;> rfl

/-- The same bar is stored in both runs. -/
theorem Ahead.insert (h : Ahead x y) {key : Nat} (hlag : ¬Lag x y key) (bar : TimePriceBar) :
    Ahead { x with data := x.data.insert key bar } { y with data := y.data.insert key bar } := by
  refine ⟨⟨h.settings.resolution, h.settings.retentionCount, h.settings.indicatorsConfig⟩,
    h.frontier, fun k => ?_⟩
  rw [contentAt_insert, contentAt_insert]
  split
  next hk =>
    subst hk
    rw [Option.map_some]
    exact congrArg some (if_neg hlag).symm
  next => exact h.content k

/-- Bars of the same content take blocks alike. -/
theorem getD_eq_pending {key : Nat} (hc : x.contentAt key = y.contentAt key)
    {p : PendingTimePriceBar} (hp : (x.data.get? key).getD (.pending .new) = .pending p) :
    ∃ q, (y.data.get? key).getD (.pending .new) = .pending q ∧
      q.blockPriceBars = p.blockPriceBars := by
  unfold contentAt at hc
  cases hx : x.data.get? key with
  | none =>
    rw [hx] at hc hp
    cases hp
    rw [Option.map_eq_none_iff.mp hc.symm]
    exact ⟨.new, rfl, rfl⟩
  | some bar =>
    rw [hx] at hc hp
    obtain ⟨bar', hy, he⟩ := Option.map_eq_some_iff.mp hc.symm
    rw [show bar = .pending p from hp] at he
    cases bar' with
    | finalized f => cases he
    | pending q =>
      injection he with he
      injection he with _ _ hblocks
      exact ⟨q, by rw [hy]; rfl, hblocks⟩

theorem insertBlockPriceBar_congr {p q : PendingTimePriceBar}
    (h : q.blockPriceBars = p.blockPriceBars) (n : Nat) (d : TickData) :
    q.insertBlockPriceBar n d = p.insertBlockPriceBar n d := by
  simp only [PendingTimePriceBar.insertBlockPriceBar, h]

theorem insertBlockPriceBarRange_congr {p q : PendingTimePriceBar}
    (h : q.blockPriceBars = p.blockPriceBars) (ns : List Nat) (d : TickData) :
    q.insertBlockPriceBarRange ns d = p.insertBlockPriceBarRange ns d := by
  simp only [PendingTimePriceBar.insertBlockPriceBarRange, h]

theorem Ahead.exists_bar (h : Ahead x y) {key : Nat} {bar : TimePriceBar}
    (hk : y.data.get? key = some bar) : ∃ bar', x.data.get? key = some bar' ∧
      bar'.content = settleLag x y key bar.content := by
  have hc := h.content key
  simp only [contentAt, hk, Option.map_some] at hc
  exact Option.map_eq_some_iff.mp hc

theorem Ahead.get?_eq_none_iff (h : Ahead x y) {key : Nat} :
    x.data.get? key = none ↔ y.data.get? key = none := by
  have hc := h.content key
  simp only [contentAt] at hc
  rw [← Option.map_eq_none_iff (f := TimePriceBar.content), hc, Option.map_eq_none_iff,
    Option.map_eq_none_iff]

theorem Ahead.lastEntry_eq_none (h : Ahead x y) (hl : y.data.lastEntry = none) :
    x.data.lastEntry = none :=
  OrdMap.lastEntry_eq_none_iff.mpr fun key =>
    h.get?_eq_none_iff.mpr (OrdMap.lastEntry_eq_none_iff.mp hl key)

theorem Ahead.lastEntry (h : Ahead x y) {key : Nat} {bar : TimePriceBar}
    (hl : y.data.lastEntry = some (key, bar)) : ∃ bar', x.data.lastEntry = some (key, bar') ∧
      bar'.content = settleLag x y key bar.content := by
  obtain ⟨hget, hmax⟩ := OrdMap.lastEntry_eq_some_iff.mp hl
  obtain ⟨bar', hget', he⟩ := h.exists_bar hget
  refine ⟨bar', OrdMap.lastEntry_eq_some_iff.mpr ⟨hget', fun k b hk => ?_⟩, he⟩
  cases hy : y.data.get? k with
  | none =>
    rw [h.get?_eq_none_iff.mpr hy] at hk
    cases hk
  | some b' => exact hmax k b' hy

/-- The last block is the same when the last bar is. -/
theorem Ahead.lastBlock_eq (h : Ahead x y)
    (hlag : ∀ key bar, y.data.lastEntry = some (key, bar) → ¬Lag x y key) :
    x.lastBlock = y.lastBlock := by
  cases hl : y.data.lastEntry with
  | none => rw [lastBlock, lastBlock, h.lastEntry_eq_none hl, hl]
  | some last =>
    obtain ⟨key, bar⟩ := last
    obtain ⟨bar', hl', he⟩ := h.lastEntry hl
    rw [settleLag, if_neg (hlag key bar hl)] at he
    rw [lastBlock, lastBlock, hl, hl']
    cases bar with
    | pending p =>
      cases bar' with
      | finalized f => cases he
      | pending p' =>
        injection he with he
        injection he with _ _ hblocks
        simp only [Option.bind_some, hblocks]
    | finalized f =>
      cases bar' with
      | pending p' => cases he
      | finalized f' =>
        injection he with he
        injection he with hdata _ _ hend
        simp only [Option.bind_some, hdata, hend]

/-- The number of the last block survives finalization. -/
theorem Ahead.lastBlock_number (h : Ahead x y) :
    x.lastBlock.map Prod.fst = y.lastBlock.map Prod.fst := by
  have hnumber : ∀ bars : TimePriceBars, bars.lastBlock.map Prod.fst =
      bars.data.lastEntry.bind fun e => e.2.content.endBlockNumber := by
    intro bars
    unfold lastBlock
    cases bars.data.lastEntry with
    | none => rfl
    | some e =>
      obtain ⟨key, bar⟩ := e
      cases bar <;> rfl
  have hsettle : ∀ key (bar : TimePriceBar),
      (settleLag x y key bar).endBlockNumber = bar.endBlockNumber := by
    intro key bar
    unfold settleLag
    split
    next =>
      cases bar with
      | finalized f => rfl
      | pending p =>
        cases hf : p.asFinalized with
        | none => simp [TimePriceBar.settle, hf]
        | some f =>
          obtain ⟨-, he, -, -⟩ := PendingTimePriceBar.asFinalized_eq_some_iff.mp hf
          rw [TimePriceBar.settle_of_asFinalized hf]
          exact he.symm
    next => rfl
  rw [hnumber, hnumber]
  cases hl : y.data.lastEntry with
  | none => rw [h.lastEntry_eq_none hl]
  | some last =>
    obtain ⟨key, bar⟩ := last
    obtain ⟨bar', hl', he⟩ := h.lastEntry hl
    rw [hl', Option.bind_some, Option.bind_some, he, hsettle]

theorem padMissing_fields {n bts : Nat} {bars bars' : TimePriceBars} {padded : List Nat}
    (h : padMissing n bts bars = .ok padded bars') : bars' = { bars with data := bars'.data } := by
  rcases padMissing_cases n bts bars with ⟨he, -⟩ | ⟨b, d, bar, -, -, -, he⟩
  · rw [he] at h
    cases h
    rfl
  · rw [he] at h
    cases h
    rfl

theorem padMissing_settings {n bts : Nat} {bars bars' : TimePriceBars} {padded : List Nat}
    (h : padMissing n bts bars = .ok padded bars') : SameSettings bars bars' := by
  rw [padMissing_fields h]
  exact ⟨rfl, rfl, rfl⟩

theorem not_pending_of_finalized {key : Nat} {f : FinalizedTimePriceBar} {p : PendingTimePriceBar}
    (hf : x.data.get? key = some (.finalized f))
    (hp : (x.data.get? key).getD (.pending .new) = .pending p) : False := by
  rw [hf] at hp
  cases hp

/-- Both runs pad the same blocks, unless there is nothing to pad. -/
theorem Ahead.padMissing (h : Ahead x y) (n bts : Nat)
    (hnum : x.lastBlock.map Prod.fst = y.lastBlock.map Prod.fst)
    (hpad : ∀ b tick, y.lastBlock = some (b, tick) → b + 1 < n →
      x.lastBlock = y.lastBlock ∧ ¬Lag x y (y.padTarget n bts b)) :
    ∃ padded x' y', padMissing n bts x = .ok padded x' ∧ padMissing n bts y = .ok padded y' ∧
      Ahead x' y' := by
  have htarget : ∀ b, x.padTarget n bts b = y.padTarget n bts b := fun b => by
    rw [padTarget, padTarget, h.settings.resolution]
  rcases padMissing_cases n bts y with ⟨hy, hfin⟩ | ⟨b, d, q, hl, hlt, hq, hy⟩
  · rcases padMissing_cases n bts x with ⟨hx, -⟩ | ⟨b, d, p, hl, hlt, hp, hx⟩
    · exact ⟨[], x, y, hx, hy, h⟩
    · have hnum' := hnum
      rw [hl, Option.map_some] at hnum'
      obtain ⟨⟨b', tick⟩, hly, hb⟩ := Option.map_eq_some_iff.mp hnum'.symm
      obtain rfl : b' = b := hb
      obtain ⟨-, hlag⟩ := hpad b' tick hly hlt
      obtain ⟨f, hf⟩ := hfin b' tick hly hlt
      rw [htarget] at hp
      obtain ⟨q, hq, -⟩ := getD_eq_pending (h.contentAt_eq hlag) hp
      exact absurd hq (not_pending_of_finalized hf)
  · obtain ⟨hsame, hlag⟩ := hpad b d hl hlt
    have hc := h.contentAt_eq hlag
    obtain ⟨p, hp, hblocks⟩ := getD_eq_pending hc.symm hq
    rcases padMissing_cases n bts x with ⟨-, hfin⟩ | ⟨b', d', p', hl', -, hp', hx⟩
    · obtain ⟨f, hf⟩ := hfin b d (hsame.trans hl) hlt
      rw [htarget] at hf
      exact absurd hp (not_pending_of_finalized hf)
    · obtain ⟨rfl, rfl⟩ : b = b' ∧ d = d' := by simpa [hsame, hl] using hl'
      rw [htarget] at hp' hx
      rw [hp] at hp'
      cases hp'
      rw [insertBlockPriceBarRange_congr hblocks] at hx
      exact ⟨_, _, _, hx, hy, h.insert hlag _⟩

/-- A block that the first run takes is taken by the second. -/
theorem Ahead.insertBlock (h : Ahead x y) {n bts key : Nat} {d : TickData} (hlag : ¬Lag x y key)
    (hx : insertBlock n d bts key x = .ok () x') :
    ∃ y', insertBlock n d bts key y = .ok () y' ∧ Ahead x' y' := by
  obtain ⟨p, hp, hend, rfl⟩ := insertBlock_ok hx
  obtain ⟨q, hq, hblocks⟩ := getD_eq_pending (h.contentAt_eq hlag) hp
  have hend' : ∀ e, q.endBlockNumber = some e → e + 1 = n := by
    intro e he
    rw [PendingTimePriceBar.endBlockNumber, hblocks] at he
    exact hend e he
  refine ⟨_, insertBlock_of_pending hq hend', ?_⟩
  rw [insertBlockPriceBar_congr hblocks]
  exact h.insert hlag _

/-- Finalization in both runs, further in the first. -/
theorem Ahead.finalizeUpTo (h : Ahead x y) {fx fy : Option Nat}
    (haligned : ∀ key bar, y.data.get? key = some bar → y.resolution.offset ∣ key)
    (hxlast : ∀ last, x.lastFinalizedTimestamp = some last → y.resolution.offset ∣ last)
    (hylast : ∀ last, y.lastFinalizedTimestamp = some last → y.resolution.offset ∣ last)
    (hle : ∀ key, Reached fy key → Reached fx key)
    (hx : finalizeUpTo fx x = .ok () x') (hy : finalizeUpTo fy y = .ok () y') : Ahead x' y' := by
  have hxs := finalizeUpTo_ok_settings hx
  have hys := finalizeUpTo_ok_settings hy
  have hxf : x'.lastFinalizedTimestamp = x.frontierAfter fx := by rw [(finalizeUpTo_ok hx).1]
  have hyf : y'.lastFinalizedTimestamp = y.frontierAfter fy := by rw [(finalizeUpTo_ok hy).1]
  refine ⟨⟨hxs.resolution.trans (h.settings.resolution.trans hys.resolution.symm),
    hxs.retentionCount.trans (h.settings.retentionCount.trans hys.retentionCount.symm),
    hxs.indicatorsConfig.trans (h.settings.indicatorsConfig.trans hys.indicatorsConfig.symm)⟩,
    fun key hr => ?_, fun key => ?_⟩
  · rw [hyf, reached_frontierAfter] at hr
    rw [hxf, reached_frontierAfter]
    exact hr.imp (h.frontier key) (hle key)
  · rw [finalizeUpTo_ok_contentAt hx, finalizeUpTo_ok_contentAt hy, h.content key, Option.map_map,
      Option.map_map]
    unfold contentAt
    cases hg : y.data.get? key with
    | none => rfl
    | some bar =>
      have hkey := haligned key bar hg
      have hxr : x.InFinalizeRange fx key ↔
          Reached fx key ∧ ¬Reached x.lastFinalizedTimestamp key := by
        refine inFinalizeRange_iff ?_ ?_ <;> rw [h.settings.resolution]
        · exact hkey
        · exact hxlast
      have hyr := @inFinalizeRange_iff y fy key hkey hylast
      have hfront := h.frontier key
      have hsub := hle key
      simp only [Option.map_some, Function.comp_apply, settleIn, settleLag, Lag, hxr, hyr, hxf, hyf,
        reached_frontierAfter]
      by_cases h1 : Reached x.lastFinalizedTimestamp key <;>
        by_cases h2 : Reached y.lastFinalizedTimestamp key <;>
          by_cases h3 : Reached fx key <;> by_cases h4 : Reached fy key <;>
            simp_all

end TimePriceBars

end Pochtecatl
