import Pochtecatl.LastBlock

namespace Pochtecatl

namespace TimePriceBars

open ResolutionTimestamp

/-- A bar holds blocks of its own bucket only, and is finalized only below the bucket
of the finalized header. -/
structure InBucket (t₀ : Nat) (res : Resolution) (finalizedTime : Option Nat) (key : Nat)
    (bar : TimePriceBar) : Prop where
  nonempty : ∃ k, bar.Holds k
  bucket : ∀ k, bar.Holds k → blockBucket t₀ res k = key
  final : bar.isFinalized → ∃ f, finalizedTime = some f ∧ key + res.offset ≤ fromTimestamp f res

theorem inBucket_barRule (t₀ : Nat) (res : Resolution) (finalizedTime : Option Nat) :
    BarRule (InBucket t₀ res finalizedTime) where
  content := by
    intro key bar bar' hc h
    have hh := TimePriceBar.holds_iff_of_content hc
    have hf : bar'.isFinalized = bar.isFinalized := by
      rw [← TimePriceBar.isFinalized_content, hc, TimePriceBar.isFinalized_content]
    exact ⟨h.nonempty.imp fun k => (hh k).mpr, fun k hk => h.bucket k ((hh k).mp hk),
      fun hb => h.final (hf ▸ hb)⟩
  cut := by
    intro key r bar bar' hc h
    exact ⟨TimePriceBar.exists_holds_of_cut hc h.nonempty,
      fun k hk => h.bucket k (TimePriceBar.holds_of_cut hc hk),
      fun hb => h.final (TimePriceBar.isFinalized_of_cut hc ▸ hb)⟩

theorem InBucket.settle {t₀ : Nat} {res : Resolution} {finalizedTime : Option Nat} {key : Nat}
    {bar : TimePriceBar} (h : InBucket t₀ res finalizedTime key bar)
    (hf : ∃ f, finalizedTime = some f ∧ key + res.offset ≤ fromTimestamp f res) :
    InBucket t₀ res finalizedTime key bar.settle := by
  refine ⟨h.nonempty.imp fun k => TimePriceBar.holds_settle, fun k hk => ?_, fun _ => hf⟩
  obtain ⟨s, e, hs, he, hsk, hke⟩ := TimePriceBar.exists_holds_of_settle hk
  exact le_antisymm ((blockBucket_mono hke).trans (h.bucket e he).le)
    ((h.bucket s hs).ge.trans (blockBucket_mono hsk))

/-- The finalized header only moves forward. -/
theorem InBucket.advance {t₀ : Nat} {res : Resolution} {finalizedTime header : Option Nat}
    {key : Nat} {bar : TimePriceBar} (h : InBucket t₀ res finalizedTime key bar)
    (hmono : ∀ f ∈ header, ∀ g ∈ finalizedTime, g ≤ f) :
    InBucket t₀ res (header.or finalizedTime) key bar := by
  refine ⟨h.nonempty, h.bucket, fun hb => ?_⟩
  obtain ⟨g, hg, hle⟩ := h.final hb
  cases header with
  | none => exact ⟨g, hg, hle⟩
  | some f => exact ⟨f, rfl, hle.trans (fromTimestamp_mono (hmono f rfl g hg) res)⟩

/-- A finalized bar ends before every block younger than the finalized header. -/
theorem InBucket.endBlockNumber_lt {t₀ r : Nat} {res : Resolution} {finalizedTime : Option Nat}
    {key : Nat} {f : FinalizedTimePriceBar}
    (h : InBucket t₀ res finalizedTime key (.finalized f))
    (hr : ∀ g ∈ finalizedTime, g < blockTime t₀ r) : f.endBlockNumber < r := by
  obtain ⟨k, hk⟩ := h.nonempty
  have hbucket := h.bucket f.endBlockNumber ⟨hk.1.trans hk.2, le_rfl⟩
  obtain ⟨g, hg, hle⟩ := h.final rfl
  refine @lt_of_blockBucket_lt t₀ res _ _ ?_
  have hpos := res.offset_pos
  have hmono : fromTimestamp g res ≤ blockBucket t₀ res r := fromTimestamp_mono (hr g hg).le res
  omega

/-- Every skipped block that the padding would store belongs to the bucket of the
last stored block. -/
def PadsInPlace (t₀ n : Nat) (bars : TimePriceBars) : Prop :=
  ∀ last tick, bars.lastBlock = some (last, tick) → last + 1 < n →
    (∃ f, bars.data.get? (blockBucket t₀ bars.resolution last) = some (.finalized f)) ∨
      blockBucket t₀ bars.resolution last = blockBucket t₀ bars.resolution (n - 1)

end TimePriceBars

open TimePriceBars ResolutionTimestamp

/-- The bars of a pair, with what their callers know of the chain. -/
structure ChainView where
  bars : TimePriceBars
  /-- the time of the latest finalized header a call was based on -/
  finalizedTime : Option Nat
  /-- the last block inserted since the last reorg -/
  lastInserted : Option Nat

inductive ChainEvent where
  | block (blockNumber : Nat) (data : TickData) (finalizedHeader : Option Nat)
  | reorg (blockNumber : Nat)

namespace ChainView

/-- Blocks come in increasing order between reorgs, finalized headers do not move back or
run ahead of the block, and a reorg stays above finality. -/
def Admits (t₀ : Nat) (view : ChainView) : ChainEvent → Prop
  | .block n _ header => (∀ l ∈ view.lastInserted, l < n) ∧
      ∀ f ∈ header, f ≤ blockTime t₀ n ∧
        view.bars.resolution.offset ≤ fromTimestamp f view.bars.resolution ∧
        ∀ g ∈ view.finalizedTime, g ≤ f
  | .reorg r => ∀ f ∈ view.finalizedTime, f < blockTime t₀ r

instance (t₀ : Nat) (view : ChainView) (event : ChainEvent) : Decidable (view.Admits t₀ event) :=
  match event with
  | .block _ _ _ => inferInstanceAs (Decidable (_ ∧ _))
  | .reorg r => inferInstanceAs (Decidable (∀ f ∈ view.finalizedTime, f < blockTime t₀ r))

/-- The bucket before the one of the finalized header is what a call may finalize. -/
def call (view : ChainView) : ChainEvent → BarsCall
  | .block n d header => .insertData n d (header.map fun f =>
      previous (fromTimestamp f view.bars.resolution) view.bars.resolution)
  | .reorg r => .pruneToReorgedBlockNumber r

def after (view : ChainView) (bars : TimePriceBars) : ChainEvent → ChainView
  | .block n _ header => ⟨bars, header.or view.finalizedTime, some n⟩
  | .reorg _ => ⟨bars, view.finalizedTime, none⟩

def start (rc : Option Nat) (res : Resolution) (config : Option IndicatorsConfig) : ChainView :=
  ⟨.new rc res config, none, none⟩

/-- A legitimate history of a pair's bars. -/
def history (t₀ : Nat) : Machine ChainView ChainEvent where
  step view event :=
    if view.Admits t₀ event then
      ((calls t₀).step view.bars (view.call event)).map fun bars => view.after bars event
    else none

theorem history_step_eq_some {t₀ : Nat} {view view' : ChainView} {event : ChainEvent}
    (h : (history t₀).step view event = some view') :
    view.Admits t₀ event ∧ ∃ bars, (calls t₀).step view.bars (view.call event) = some bars ∧
      view' = view.after bars event := by
  simp only [history] at h
  split at h
  next hadm =>
    obtain ⟨bars, hb, rfl⟩ := Option.map_eq_some_iff.mp h
    exact ⟨hadm, bars, hb, rfl⟩
  next => simp at h

/-- The condition on the steps of a history: its inserts pad in place. -/
def PadsInPlace (t₀ : Nat) (view : ChainView) (event : ChainEvent) (_ : ChainView) : Prop :=
  ∀ n d header, event = .block n d header → view.bars.PadsInPlace t₀ n

structure Inv (t₀ : Nat) (view : ChainView) : Prop where
  bars : AllBars (InBucket t₀ view.bars.resolution view.finalizedTime) view.bars
  warm : view.bars.indicatorsConfig.isSome → AllBars (fun key _ => 5700 ≤ key) view.bars

theorem start_inv (t₀ : Nat) (rc : Option Nat) (res : Resolution)
    (config : Option IndicatorsConfig) : Inv t₀ (start rc res config) := by
  constructor
  · intro key bar hk
    simp [start, new] at hk
  · intro _ key bar hk
    simp [start, new] at hk

theorem reorg_inv {t₀ r : Nat} {view : ChainView} (h : Inv t₀ view) :
    Inv t₀ (view.after (pruneToReorgedBlockNumber r view.bars).state (.reorg r)) := by
  have hs := pruneToReorgedBlockNumber_settings r view.bars
  constructor
  · simp only [after, hs.resolution]
    exact h.bars.pruneToReorgedBlockNumber (inBucket_barRule _ _ _) r
  · intro hc
    simp only [after, hs.indicatorsConfig] at hc ⊢
    exact (h.warm hc).pruneToReorgedBlockNumber ⟨fun _ hk => hk, fun _ hk => hk⟩ r

/-- A legitimate reorg meets no finalized bar it would have to cut, and recomputes the
indicators of a bar that is pending and late enough. -/
theorem reorg_ok {t₀ r : Nat} {view : ChainView} (h : Inv t₀ view)
    (hr : view.Admits t₀ (.reorg r)) :
    ∃ bars', pruneToReorgedBlockNumber r view.bars = .ok () bars' := by
  obtain ⟨p, bars', hloop⟩ := pruneLoop_exists_ok (r := r) le_rfl none
    (fun key bar hk => (h.bars key bar hk).nonempty)
    (fun key f hk => (h.bars key _ hk).endBlockNumber_lt hr)
  rw [pruneToReorgedBlockNumber, EStateM.bind_of_ok
    (show (MonadState.get : TimePriceBarsM _) view.bars = .ok view.bars view.bars from rfl),
    EStateM.bind_of_ok hloop]
  cases p with
  | none => exact ⟨bars', rfl⟩
  | some ts =>
    cases hc : view.bars.indicatorsConfig with
    | none => exact ⟨bars', rfl⟩
    | some config =>
      obtain ⟨-, -, hcut⟩ := pruneLoop_ok hloop
      obtain ⟨q, hq, -, hq'⟩ := hcut ts rfl
      have hwarm : 5700 ≤ ts := h.warm (by simp [hc]) ts _ hq
      obtain ⟨i, hi⟩ := Option.isSome_iff_exists.mp (@Indicators.compute_isSome_iff ts
        bars'.resolution bars'.data config |>.mpr hwarm)
      exact ⟨_, updateIndicators_of_pending hi hq'⟩

theorem insertData_inBucket {t₀ n : Nat} {d : TickData} {header : Option Nat} {view : ChainView}
    (h : Inv t₀ view) (hadm : view.Admits t₀ (.block n d header))
    (hpad : view.bars.PadsInPlace t₀ n) :
    AllBars (InBucket t₀ view.bars.resolution (header.or view.finalizedTime))
      (exec t₀ (view.call (.block n d header)) view.bars).state := by
  have hbars : AllBars (InBucket t₀ view.bars.resolution (header.or view.finalizedTime))
      view.bars := fun key bar hk =>
    (h.bars key bar hk).advance fun f hf g hg => (hadm.2 f hf).2.2 g hg
  refine hbars.insertData (inBucket_barRule _ _ _) ?_ ?_ ?_
  · intro last tick bar hl hlt hg
    have hbar := hbars.getD hg
    rw [padTarget_blockTime (by omega)] at hg hbar ⊢
    have hsame := (hpad last tick hl hlt).resolve_left fun ⟨f, hf⟩ => by simp [hf] at hg
    have hmem : last + 1 ∈ paddedNumbers last n := mem_paddedNumbers.mpr ⟨by omega, hlt⟩
    refine ⟨⟨_, PendingTimePriceBar.holds_insertBlockPriceBarRange.mpr (Or.inl hmem)⟩,
      fun k hk => ?_, by simp [TimePriceBar.isFinalized]⟩
    rcases PendingTimePriceBar.holds_insertBlockPriceBarRange.mp hk with hk | hk
    · obtain ⟨hlk, hkn⟩ := mem_paddedNumbers.mp hk
      exact le_antisymm ((blockBucket_mono (by omega)).trans hsame.ge) (blockBucket_mono hlk.le)
    · rcases hbar with rfl | hbar
      · exact absurd hk (PendingTimePriceBar.not_holds_new k)
      · exact hbar.bucket k hk
  · intro bar _ hbar
    refine ⟨⟨n, PendingTimePriceBar.holds_insertBlockPriceBar.mpr (Or.inl rfl)⟩,
      fun k hk => ?_, by simp [TimePriceBar.isFinalized]⟩
    rcases PendingTimePriceBar.holds_insertBlockPriceBar.mp hk with rfl | hk
    · rfl
    · rcases hbar with rfl | hbar
      · exact absurd hk (PendingTimePriceBar.not_holds_new k)
      · exact hbar.bucket k hk
  · intro key bar finalized hf hle hb
    obtain ⟨f, rfl, rfl⟩ := Option.map_eq_some_iff.mp hf
    obtain ⟨-, hlate, -⟩ := hadm.2 f rfl
    rw [previous, wrappingSub_of_le hlate] at hle
    exact hb.settle ⟨f, rfl, by omega⟩

/-- A call that does not panic leaves no bar in the first buckets, where indicators
cannot be computed. -/
theorem insertData_warm {t₀ n : Nat} {d : TickData} {header : Option Nat} {view : ChainView}
    (h : Inv t₀ view) (hc : view.bars.indicatorsConfig.isSome) {bars' : TimePriceBars}
    (hstep : (calls t₀).step view.bars (view.call (.block n d header)) = some bars') :
    AllBars (fun key _ => 5700 ≤ key) bars' := by
  have hwarm := h.warm hc
  have htarget : ∀ last tick, view.bars.lastBlock = some (last, tick) → last + 1 < n →
      5700 ≤ view.bars.padTarget n (blockTime t₀ n) last ∧
        view.bars.padTarget n (blockTime t₀ n) last ≤ blockBucket t₀ view.bars.resolution n := by
    intro last tick hl hlt
    obtain ⟨key, bar, he, hh, -⟩ := lastBlock_holds hl fun key bar hk => (h.bars key bar hk).nonempty
    have hget := (OrdMap.lastEntry_eq_some_iff.mp he).1
    rw [padTarget_blockTime (by omega), (h.bars key bar hget).bucket last hh]
    exact ⟨hwarm key bar hget, (h.bars key bar hget).bucket last hh ▸ blockBucket_mono (by omega)⟩
  by_cases hn : 5700 ≤ blockBucket t₀ view.bars.resolution n
  · rw [calls_step_state hstep]
    exact hwarm.insertData ⟨fun _ hk => hk, fun _ hk => hk⟩
      (fun last tick _ hl hlt _ => (htarget last tick hl hlt).1) (fun _ _ _ => hn)
      (fun _ _ _ _ _ hk => hk)
  · obtain ⟨config, hconfig⟩ := Option.isSome_iff_exists.mp hc
    rcases padMissing_cases n (blockTime t₀ n) view.bars with
      ⟨hp, -⟩ | ⟨last, tick, bar, hl, hlt, -, -⟩
    · obtain ⟨padded, paddedBars, hp', hrest⟩ := insertData_cases n d (blockTime t₀ n)
        (header.map fun f => previous (fromTimestamp f view.bars.resolution) view.bars.resolution)
        view.bars
      rw [hp] at hp'
      injection hp' with hpad hbars
      subst hpad hbars
      rcases hrest with ⟨e, -, he⟩ | ⟨inserted, -, ⟨e, updated, hu, he⟩ | ⟨updated, hu, -⟩⟩
      · rw [calls_step_state hstep]
        simp only [exec, call, he]
        exact hwarm
      · change updateTouched _ [blockBucket t₀ view.bars.resolution n] _ = _ at hu
        rw [hconfig, updateTouched_early (Nat.lt_of_not_le hn)] at hu
        injection hu with hpanic
        subst hpanic
        simp [calls, exec, call, he] at hstep
      · change updateTouched _ [blockBucket t₀ view.bars.resolution n] _ = _ at hu
        rw [hconfig, updateTouched_early (Nat.lt_of_not_le hn)] at hu
        simp at hu
    · have := htarget last tick hl hlt
      omega

theorem step_inv {t₀ : Nat} {view view' : ChainView} {event : ChainEvent} (h : Inv t₀ view)
    (hstep : (history t₀).step view event = some view')
    (hpad : PadsInPlace t₀ view event view') : Inv t₀ view' := by
  obtain ⟨hadm, bars, hb, rfl⟩ := history_step_eq_some hstep
  cases event with
  | reorg r =>
    rw [calls_step_state hb]
    exact reorg_inv h
  | block n d header =>
    have hstate := calls_step_state hb
    have hs := exec_settings t₀ (view.call (.block n d header)) view.bars
    rw [← hstate] at hs
    constructor
    · simp only [after, hs.resolution]
      rw [hstate]
      exact insertData_inBucket h hadm (hpad n d header rfl)
    · intro hc
      simp only [after, hs.indicatorsConfig] at hc ⊢
      exact insertData_warm h hc hb

/-- In a history whose inserts pad in place, every legitimate reorg returns `Ok`. -/
theorem history_reorg_ok {t₀ : Nat} {rc : Option Nat} {res : Resolution}
    {config : Option IndicatorsConfig} {events : List ChainEvent}
    (hpad : (history t₀).Along (PadsInPlace t₀) (start rc res config) events) :
    (history t₀).Throughout (fun view => ∀ r, view.Admits t₀ (.reorg r) →
      ∃ bars', pruneToReorgedBlockNumber r view.bars = .ok () bars')
      (start rc res config) events :=
  Machine.throughout_of_along (I := Inv t₀) (fun _ h _ hr => reorg_ok h hr)
    (fun _ _ _ h hstep hp => step_inv h hstep hp) hpad (start_inv t₀ rc res config)

theorem history_reorg_ok_within_bucket : ∃ view bars',
    (history 6000).run (start none .fiveMinutes (some .all))
        [.block 0 unitTick (some 6000), .block 3 unitTick (some 6004)] = some view ∧
      pruneToReorgedBlockNumber 3 view.bars = .ok () bars' := by
  have hpad : (history 6000).Along (PadsInPlace 6000) (start none .fiveMinutes (some .all))
      [.block 0 unitTick (some 6000), .block 3 unitTick (some 6004)] := by
    refine fun view₁ h₁ => ⟨fun n d header he last tick hl => ?_, fun view₂ h₂ =>
      ⟨fun n d header he last tick hl _ => ?_, trivial⟩⟩
    · cases hl
    · cases Option.some.inj h₁
      cases he
      cases Option.some.inj hl
      exact Or.inr (by decide)
  obtain ⟨bars', hb⟩ := Machine.run_throughout (history_reorg_ok hpad) rfl 3 (by decide)
  exact ⟨_, bars', rfl, hb⟩

/-- Blocks 1 to 4 of bucket 6300 are padded into bucket 6000 and finalized with it while
the finalized header is still at block 1, so that a reorg to block 2 fails. -/
theorem history_reorg_fails : ∃ view bars',
    (history 6298).run (start none .fiveMinutes (some .all))
        [.block 0 unitTick none, .block 5 unitTick (some 6300)] = some view ∧
      view.Admits 6298 (.reorg 2) ∧
      pruneToReorgedBlockNumber 2 view.bars = .error (.err .pruneIntoFinalized) bars' :=
  ⟨_, _, rfl, by decide, rfl⟩

end ChainView

end Pochtecatl
