import Pochtecatl.BarsCalls
import Pochtecatl.TickAggregate

namespace Pochtecatl

/-- A call with any arguments. -/
inductive TimedCall where
  | insertData (blockNumber : Nat) (data : TickData) (blockTimestamp : Nat)
    (finalizedTimestamp : Option Nat)
  | pruneToReorgedBlockNumber (reorgedBlockNumber : Nat)

namespace TimedCall

/-- The tick that a call inserts. -/
def ticks : TimedCall → List TickData
  | insertData _ d _ _ => [d]
  | pruneToReorgedBlockNumber _ => []

/-- The call without its finalization, which comes last. -/
def unfinalized : TimedCall → TimedCall
  | insertData n d bts _ => insertData n d bts none
  | pruneToReorgedBlockNumber r => pruneToReorgedBlockNumber r

end TimedCall

/-- The ticks behind a bar. A finalized bar has given them up. -/
def TimePriceBar.ticks (held : OrdMap Nat TickData) : TimePriceBar → OrdMap Nat TickData
  | pending bar => bar.blockPriceBars
  | finalized _ => held

/-- The bars, and beside them the ticks that the bar of each bucket holds or held when it was
finalized. -/
structure TrackedBars where
  bars : TimePriceBars
  held : Nat → OrdMap Nat TickData

namespace TimePriceBars

open ResolutionTimestamp

def execTimed : TimedCall → TimePriceBarsM Unit
  | .insertData n d bts f => insertData n d bts f
  | .pruneToReorgedBlockNumber r => pruneToReorgedBlockNumber r

/-- A call that returns `Err` leaves its partial effects and the run goes on; a panic ends it. -/
def timedCalls : Machine TimePriceBars TimedCall where
  step bars call := match execTimed call bars with
    | .ok _ bars' => some bars'
    | .error (.err _) bars' => some bars'
    | .error _ _ => none

def heldTicks (held : Nat → OrdMap Nat TickData) (bars : TimePriceBars) (key : Nat) :
    OrdMap Nat TickData :=
  match bars.data.get? key with
  | some bar => bar.ticks (held key)
  | none => OrdMap.empty

/-- The ticks of a bar are recorded before the call finalizes it. -/
def tracked : Machine TrackedBars TimedCall where
  step s call := (timedCalls.step s.bars call).map fun bars =>
    ⟨bars, heldTicks (heldTicks s.held (execTimed call.unfinalized s.bars).state) bars⟩

theorem timedCalls_step_state {call : TimedCall} {bars bars' : TimePriceBars}
    (h : timedCalls.step bars call = some bars') : bars' = (execTimed call bars).state := by
  simp only [timedCalls] at h
  split at h
  next hr =>
    rw [hr]
    exact (Option.some.inj h).symm
  next hr =>
    rw [hr]
    exact (Option.some.inj h).symm
  next => cases h

/-- Keeping track does not change the run. -/
theorem tracked_run_bars (s : TrackedBars) (cs : List TimedCall) :
    (tracked.run s cs).map TrackedBars.bars = timedCalls.run s.bars cs := by
  induction cs generalizing s with
  | nil => rfl
  | cons call cs ih =>
    simp only [Machine.run, tracked]
    cases timedCalls.step s.bars call with
    | none => rfl
    | some bars => exact ih _

/-! ### Aggregates -/

/-- The bar has the aggregate `agg` of its ticks; its volume is that of the first one. A
finalized bar has the range of their block numbers. -/
structure Aggregated (held : OrdMap Nat TickData) (bar : TimePriceBar) (agg : TickData) : Prop where
  data : bar.data = some agg
  aggregates : agg.Aggregates (bar.ticks held).values
  volume : (bar.ticks held).values.head?.map TickData.wethVolume = some agg.wethVolume
  range : ∀ f, bar = .finalized f → held.firstEntry.map Prod.fst = some f.startBlockNumber ∧
    held.lastEntry.map Prod.fst = some f.endBlockNumber

/-- A bar whose ticks all satisfy `R`. -/
def AggregatedOf (R : TickData → Prop) (held : Nat → OrdMap Nat TickData) (key : Nat)
    (bar : TimePriceBar) : Prop :=
  (∃ agg, Aggregated (held key) bar agg) ∧ ∀ tick ∈ (bar.ticks (held key)).values, R tick

variable {R : TickData → Prop} {held : Nat → OrdMap Nat TickData} {x : TimePriceBars}

theorem AggregatedOf.withBlocks {key : Nat} {blocks : OrdMap Nat TickData}
    (hne : ∃ k tick, blocks.get? k = some tick)
    (hall : ∀ k tick, blocks.get? k = some tick → R tick) :
    AggregatedOf R held key (.pending (.withBlocks blocks)) := by
  constructor
  · obtain ⟨k, tick, hk⟩ := hne
    obtain ⟨agg, hagg⟩ :=
      TickData.exists_reduce (List.ne_nil_of_mem (OrdMap.mem_values_iff.mpr ⟨k, hk⟩))
    obtain ⟨haggregates, hvolume⟩ := TickData.aggregates_of_reduce hagg
    exact ⟨agg, hagg, haggregates, hvolume, fun f hf => by cases hf⟩
  · intro tick ht
    obtain ⟨k, hk⟩ := OrdMap.mem_values_iff.mp ht
    exact hall k tick hk

theorem aggregatedOf_barRule (R : TickData → Prop) (held : Nat → OrdMap Nat TickData) :
    BarRule (AggregatedOf R held) where
  content := by
    intro key bar bar' hc ⟨⟨agg, hagg⟩, hall⟩
    cases bar with
    | pending p =>
      cases bar' with
      | pending p' =>
        injection hc with hc
        injection hc with hdata _ hblocks
        have hticks : (TimePriceBar.pending p').ticks (held key) =
            (TimePriceBar.pending p).ticks (held key) := hblocks
        refine ⟨⟨agg, hdata.trans hagg.data, hticks ▸ hagg.aggregates, hticks ▸ hagg.volume,
          fun f hf => by cases hf⟩, hticks ▸ hall⟩
      | finalized f' => cases hc
    | finalized f =>
      cases bar' with
      | pending p' => cases hc
      | finalized f' =>
        injection hc with hc
        injection hc with hdata _ hstart hend
        refine ⟨⟨agg, (congrArg some hdata).trans hagg.data, hagg.aggregates, hagg.volume, ?_⟩, hall⟩
        intro g hg
        cases hg
        rw [hstart, hend]
        exact hagg.range f rfl
  cut := by
    intro key r bar bar' hc h
    rcases TimePriceBar.cut_cases hc with rfl | ⟨p, s, e, rfl, hs, -, hsr, -, rfl⟩
    · exact h
    · have hblocks := PendingTimePriceBar.blockPriceBars_pruneToReorgedBlockNumber p r
      change p.blockPriceBars.popLastWhile (r ≤ ·) = p.blockPriceBars.filterKeys (· < r) at hblocks
      obtain ⟨tick, ht⟩ := (PendingTimePriceBar.startBlockNumber_eq_some_iff.mp hs).1
      rw [PendingTimePriceBar.pruneToReorgedBlockNumber, hblocks]
      apply AggregatedOf.withBlocks
      · refine ⟨s, tick, ?_⟩
        rw [OrdMap.get?_filterKeys, if_pos (decide_eq_true hsr), ht]
      · intro k t hk
        rw [OrdMap.get?_filterKeys] at hk
        split at hk
        next => exact h.2 t (OrdMap.mem_values_iff.mpr ⟨k, hk⟩)
        next => cases hk

/-- The tick that pads skipped blocks is one of the last bar, or the aggregate of them. -/
theorem AggregatedOf.lastBlock (hclosed : ∀ agg ticks, agg.Aggregates ticks →
    (∀ tick ∈ ticks, R tick) → R agg) (h : AllBars (AggregatedOf R held) x) {b : Nat}
    {tick : TickData} (hl : x.lastBlock = some (b, tick)) : R tick := by
  obtain ⟨⟨key, bar⟩, hlast, hb⟩ := Option.bind_eq_some_iff.mp hl
  obtain ⟨⟨agg, hagg⟩, hall⟩ := h key bar (OrdMap.lastEntry_eq_some_iff.mp hlast).1
  cases bar with
  | pending p =>
    exact hall tick (OrdMap.mem_values_iff.mpr ⟨b, (OrdMap.lastEntry_eq_some_iff.mp hb).1⟩)
  | finalized f =>
    cases hb
    cases hagg.data
    exact hclosed _ _ hagg.aggregates hall

theorem AggregatedOf.getD (h : AllBars (AggregatedOf R held) x) {key : Nat}
    {bar : PendingTimePriceBar} (hg : (x.data.get? key).getD (.pending .new) = .pending bar) :
    ∀ k tick, bar.blockPriceBars.get? k = some tick → R tick := by
  intro k tick hk
  rcases h.getD hg with rfl | hbar
  · cases hk
  · exact hbar.2 tick (OrdMap.mem_values_iff.mpr ⟨k, hk⟩)

/-- An insert that finalizes nothing. -/
theorem AggregatedOf.insertData_none (hclosed : ∀ agg ticks, agg.Aggregates ticks →
    (∀ tick ∈ ticks, R tick) → R agg) (h : AllBars (AggregatedOf R held) x) {n bts : Nat}
    {d : TickData} (hd : R d) :
    AllBars (AggregatedOf R held) (insertData n d bts none x).state := by
  refine h.insertData (aggregatedOf_barRule R held) ?_ ?_ ?_
  · intro b tick bar hl hlt hg
    apply AggregatedOf.withBlocks
    · refine ⟨b + 1, tick, ?_⟩
      rw [get?_foldl_insert, if_pos (mem_paddedNumbers.mpr ⟨by omega, hlt⟩)]
    · intro k t hk
      rw [get?_foldl_insert] at hk
      split at hk
      next =>
        cases hk
        exact AggregatedOf.lastBlock hclosed h hl
      next => exact AggregatedOf.getD h hg k t hk
  · intro bar _ hbar
    apply AggregatedOf.withBlocks
    · exact ⟨n, d, OrdMap.get?_insert_self ..⟩
    · intro k t hk
      rw [OrdMap.get?_insert] at hk
      split at hk
      next =>
        cases hk
        exact hd
      next =>
        rcases hbar with rfl | hbar
        · cases hk
        · exact hbar.2 t (OrdMap.mem_values_iff.mpr ⟨k, hk⟩)
  · intro key bar finalized hnone
    cases hnone

/-! ### Finalization -/

/-- A call leaves the bars as it would without finalizing, or settles them. -/
theorem execTimed_settles (call : TimedCall) (x : TimePriceBars) (key : Nat) :
    (execTimed call x).state.data.get? key =
        (execTimed call.unfinalized x).state.data.get? key ∨
      (execTimed call x).state.data.get? key =
        ((execTimed call.unfinalized x).state.data.get? key).map TimePriceBar.settle := by
  cases call with
  | pruneToReorgedBlockNumber r => exact Or.inl rfl
  | insertData n d bts f =>
    simp only [execTimed, TimedCall.unfinalized]
    obtain ⟨padded, paddedBars, hp, hcase⟩ := insertData_cases n d bts f x
    obtain ⟨padded', paddedBars', hp', hcase'⟩ := insertData_cases n d bts none x
    cases hp.symm.trans hp'
    rcases hcase with ⟨e, hi, he⟩ | ⟨inserted, hi, ⟨e, updated, hu, he⟩ | ⟨updated, hu, he⟩⟩
    · rcases hcase' with ⟨e', -, he'⟩ | ⟨inserted', hi', -⟩
      · rw [he, he']
        exact Or.inl rfl
      · cases hi.symm.trans hi'
    · rcases hcase' with ⟨e', hi', -⟩ | ⟨inserted', hi', ⟨e', updated', hu', he'⟩ | ⟨updated', hu', -⟩⟩
      · cases hi.symm.trans hi'
      · cases hi.symm.trans hi'
        cases hu.symm.trans hu'
        rw [he, he']
        exact Or.inl rfl
      · cases hi.symm.trans hi'
        cases hu.symm.trans hu'
    · rcases hcase' with ⟨e', hi', -⟩ | ⟨inserted', hi', ⟨e', updated', hu', -⟩ | ⟨updated', hu', he'⟩⟩
      · cases hi.symm.trans hi'
      · cases hi.symm.trans hi'
        cases hu.symm.trans hu'
      · cases hi.symm.trans hi'
        cases hu.symm.trans hu'
        have hnone : insertData n d bts none x = .ok () updated := he'
        rw [he, hnone]
        exact (finalizeUpTo_state f updated key).imp_right And.right

theorem AggregatedOf.congr {held' : Nat → OrdMap Nat TickData} {key : Nat} {bar : TimePriceBar}
    (h : AggregatedOf R held key bar) (hticks : bar.ticks (held' key) = bar.ticks (held key)) :
    AggregatedOf R held' key bar := by
  obtain ⟨⟨agg, hagg⟩, hall⟩ := h
  cases bar with
  | pending p => exact ⟨⟨agg, hagg.data, hagg.aggregates, hagg.volume, fun f hf => by cases hf⟩, hall⟩
  | finalized f =>
    have hheld : held' key = held key := hticks
    refine ⟨⟨agg, ?_⟩, ?_⟩
    · rw [hheld]
      exact hagg
    · rw [hheld]
      exact hall

/-- A settled bar has the range of the ticks that it held. -/
theorem AggregatedOf.settle {bar : TimePriceBar} {key : Nat} (h : AggregatedOf R held key bar) :
    AggregatedOf R (fun _ => bar.ticks (held key)) key bar.settle := by
  cases bar with
  | finalized f => exact h
  | pending p =>
    cases hf : p.asFinalized with
    | none =>
      have hsame : (TimePriceBar.pending p).settle = .pending p := by
        rw [TimePriceBar.settle, hf, Option.map_none, Option.getD_none]
      rw [hsame]
      exact h.congr rfl
    | some f =>
      rw [TimePriceBar.settle_of_asFinalized hf]
      obtain ⟨⟨agg, hagg⟩, hall⟩ := h
      obtain ⟨hstart, hend, hdata, -⟩ := PendingTimePriceBar.asFinalized_eq_some_iff.mp hf
      refine ⟨⟨agg, hdata.symm.trans hagg.data, hagg.aggregates, hagg.volume, ?_⟩, hall⟩
      intro g hg
      cases hg
      exact ⟨hstart, hend⟩

theorem heldTicks_of_get? {key : Nat} {bar : TimePriceBar} (hg : x.data.get? key = some bar) :
    heldTicks held x key = bar.ticks (held key) := by
  rw [heldTicks, hg]

theorem ticks_ticks (bar : TimePriceBar) (blocks : OrdMap Nat TickData) :
    bar.ticks (bar.ticks blocks) = bar.ticks blocks := by
  cases bar with
  | pending p => rfl
  | finalized f => rfl

theorem ticks_settle (bar : TimePriceBar) (blocks : OrdMap Nat TickData) :
    bar.settle.ticks (bar.ticks blocks) = bar.ticks blocks := by
  cases bar with
  | finalized f => rfl
  | pending p =>
    cases hf : p.asFinalized with
    | none =>
      rw [TimePriceBar.settle, hf]
      rfl
    | some f =>
      rw [TimePriceBar.settle_of_asFinalized hf]
      rfl

/-- The ticks that a bar is tracked with are those it had before the call finalized. -/
theorem tracked_step_ticks {s s' : TrackedBars} {call : TimedCall}
    (hstep : tracked.step s call = some s') {key : Nat} {bar' : TimePriceBar}
    (hg' : s'.bars.data.get? key = some bar') :
    ∃ bar, (execTimed call.unfinalized s.bars).state.data.get? key = some bar ∧
      bar'.ticks (s'.held key) = bar.ticks (s.held key) := by
  obtain ⟨bars, hbars, rfl⟩ := Option.map_eq_some_iff.mp hstep
  cases timedCalls_step_state hbars
  rcases execTimed_settles call s.bars key with hsame | hsettled
  · have hg := hsame.symm.trans hg'
    refine ⟨bar', hg, ?_⟩
    dsimp only
    rw [heldTicks_of_get? hg', heldTicks_of_get? hg, ticks_ticks, ticks_ticks]
  · obtain ⟨bar, hg, rfl⟩ := Option.map_eq_some_iff.mp (hsettled.symm.trans hg')
    refine ⟨bar, hg, ?_⟩
    dsimp only
    rw [heldTicks_of_get? hg', heldTicks_of_get? hg, ticks_ticks]
    exact ticks_settle bar (s.held key)

/-- One call, whatever it returns. -/
theorem AggregatedOf.step (hclosed : ∀ agg ticks, agg.Aggregates ticks →
    (∀ tick ∈ ticks, R tick) → R agg) {s s' : TrackedBars} {call : TimedCall}
    (h : AllBars (AggregatedOf R s.held) s.bars) (hcall : ∀ tick ∈ call.ticks, R tick)
    (hstep : tracked.step s call = some s') : AllBars (AggregatedOf R s'.held) s'.bars := by
  obtain ⟨bars, hbars, rfl⟩ := Option.map_eq_some_iff.mp hstep
  cases timedCalls_step_state hbars
  have hmid : AllBars (AggregatedOf R s.held) (execTimed call.unfinalized s.bars).state := by
    cases call with
    | insertData n d bts f =>
      exact AggregatedOf.insertData_none hclosed h (hcall d (List.mem_singleton_self d))
    | pruneToReorgedBlockNumber r =>
      exact h.pruneToReorgedBlockNumber (aggregatedOf_barRule R s.held) r
  intro key bar' hg'
  rcases execTimed_settles call s.bars key with hsame | hsettled
  · rw [hsame] at hg'
    apply (hmid key bar' hg').congr
    dsimp only
    rw [heldTicks_of_get? (hsame.trans hg'), heldTicks_of_get? hg', ticks_ticks, ticks_ticks]
  · rw [hsettled] at hg'
    obtain ⟨bar, hg, rfl⟩ := Option.map_eq_some_iff.mp hg'
    apply (hmid key bar hg).settle.congr
    dsimp only
    rw [heldTicks_of_get? (hsettled.trans hg'), heldTicks_of_get? hg, ticks_ticks]

section Runs

variable {rc : Option Nat} {res : Resolution} {config : Option IndicatorsConfig}
  {cs : List TimedCall} {s : TrackedBars}

def TrackedBars.new (retentionCount : Option Nat) (resolution : Resolution)
    (indicatorsConfig : Option IndicatorsConfig) : TrackedBars :=
  ⟨.new retentionCount resolution indicatorsConfig, fun _ => OrdMap.empty⟩

theorem tracked_aggregatedOf (hclosed : ∀ agg ticks, agg.Aggregates ticks →
    (∀ tick ∈ ticks, R tick) → R agg) (hcs : ∀ tick ∈ cs.flatMap TimedCall.ticks, R tick)
    (hrun : tracked.run (TrackedBars.new rc res config) cs = some s) :
    AllBars (AggregatedOf R s.held) s.bars := by
  have hcalls : tracked.Along (fun _ call _ => ∀ tick ∈ call.ticks, R tick)
      (TrackedBars.new rc res config) cs :=
    Machine.along_of_forall fun call hcall _ _ tick ht =>
      hcs tick (List.mem_flatMap.mpr ⟨call, hcall, ht⟩)
  refine Machine.run_invariant_along (I := fun s => AllBars (AggregatedOf R s.held) s.bars)
    (fun _ _ _ h hstep hcall => AggregatedOf.step hclosed h hcall hstep) hcalls hrun ?_
  intro key bar hg
  cases hg

/-- What a bar says of the ticks that it holds, or held when it was finalized. -/
structure BarOf (ticks : OrdMap Nat TickData) (bar : TimePriceBar) : Prop where
  pending : ∀ p, bar = .pending p → ticks = p.blockPriceBars
  data : ∃ agg, bar.data = some agg ∧ agg.Aggregates ticks.values
  finalized : ∀ f, bar = .finalized f → ticks.firstEntry.map Prod.fst = some f.startBlockNumber ∧
    ticks.lastEntry.map Prod.fst = some f.endBlockNumber

theorem tracked_held (hrun : tracked.run (TrackedBars.new rc res config) cs = some s) :
    ∀ key bar, s.bars.data.get? key = some bar → bar.ticks (s.held key) = s.held key := by
  refine Machine.run_invariant (I := fun s => ∀ key bar, s.bars.data.get? key = some bar →
    bar.ticks (s.held key) = s.held key) (fun t call t' _ hstep => ?_) hrun ?_
  · obtain ⟨bars, -, rfl⟩ := Option.map_eq_some_iff.mp hstep
    intro key bar hg
    dsimp only
    rw [heldTicks_of_get? hg, ticks_ticks]
  · intro key bar hg
    cases hg

theorem AggregatedOf.barOf {key : Nat} {bar : TimePriceBar} (h : AggregatedOf R held key bar)
    (hheld : bar.ticks (held key) = held key) : BarOf (held key) bar := by
  obtain ⟨⟨agg, hagg⟩, -⟩ := h
  constructor
  · rintro p rfl
    exact hheld.symm
  · refine ⟨agg, hagg.data, ?_⟩
    rw [← hheld]
    exact hagg.aggregates
  · exact hagg.range

/-- The bars aggregate their ticks, and are ordered if the ticks inserted are. -/
theorem tracked_barOf (hrun : tracked.run (TrackedBars.new rc res config) cs = some s) :
    (∀ key bar, s.bars.data.get? key = some bar → BarOf (s.held key) bar) ∧
      ((∀ tick ∈ cs.flatMap TimedCall.ticks, tick.Ordered) →
        ∀ key bar, s.bars.data.get? key = some bar → ∃ agg, bar.data = some agg ∧ agg.Ordered) := by
  have hheld := tracked_held hrun
  constructor
  · have hall := tracked_aggregatedOf (R := fun _ => True) (fun _ _ _ _ => trivial)
      (fun _ _ => trivial) hrun
    exact fun key bar hg => (hall key bar hg).barOf (hheld key bar hg)
  · intro hordered key bar hg
    have hall := tracked_aggregatedOf (R := TickData.Ordered) (fun _ _ h ht => h.ordered ht)
      hordered hrun
    obtain ⟨⟨agg, hagg⟩, hticks⟩ := hall key bar hg
    exact ⟨agg, hagg.data, hagg.aggregates.ordered hticks⟩

/-- A tick with these prices. -/
def priceTick (open_ high low close : Nat) : TickData :=
  ⟨.fromNum open_, .fromNum high, .fromNum low, .fromNum close, 1⟩

/-- A gap, an insert that is refused, a bar that is finalized and a reorg. -/
def mixedCalls : List TimedCall :=
  [.insertData 1 (priceTick 5 9 4 6) 6000 none, .insertData 4 (priceTick 6 7 3 5) 6006 none,
    .insertData 9 (priceTick 5 6 5 6) 6006 none, .insertData 10 (priceTick 5 8 5 7) 6300 (some 6000),
    .insertData 11 (priceTick 7 7 2 3) 6302 none, .pruneToReorgedBlockNumber 11]

theorem tracked_barOf_mixedCalls : ∃ s, tracked.run (TrackedBars.new none .fiveMinutes (some .all))
      mixedCalls = some s ∧
    ∀ key bar, s.bars.data.get? key = some bar → BarOf (s.held key) bar ∧
      ∃ agg, bar.data = some agg ∧ agg.Ordered := by
  have hruns : (tracked.run (TrackedBars.new none .fiveMinutes (some .all)) mixedCalls).isSome := by
    decide +kernel
  obtain ⟨s, hrun⟩ := Option.isSome_iff_exists.mp hruns
  obtain ⟨hbars, hordered⟩ := tracked_barOf hrun
  exact ⟨s, hrun, fun key bar hg => ⟨hbars key bar hg, hordered (by decide +kernel) key bar hg⟩⟩

end Runs

end TimePriceBars

end Pochtecatl
