import Pochtecatl.Database
import Pochtecatl.EmaHistory
import Pochtecatl.PairIsolation
import Pochtecatl.RetainedBars

namespace Pochtecatl

open ResolutionTimestamp

structure PriceTickResponse (F : Type) where
  resolutionTs : Nat
  open_ : F
  high : F
  low : F
  close : F
  ema : Option F
  sma : Option F
  deriving DecidableEq

/-- How `get_price_ticks` fails: a timestamp cannot be bound to the query, or an insertion
panics. -/
inductive PriceTicksFailure where
  | query
  | panic
  deriving DecidableEq

namespace TimePriceBar

def open_ (bar : TimePriceBar) : U32F96 := (bar.data.map TickData.open_).getD U32F96.zero

def high (bar : TimePriceBar) : U32F96 := (bar.data.map TickData.high).getD U32F96.zero

def low (bar : TimePriceBar) : U32F96 := (bar.data.map TickData.low).getD U32F96.zero

end TimePriceBar

section Ticks

variable {F : Type} (lossyInto : LossyInto F)

def PriceTickResponse.fromTimePriceBar (ts : Nat) (timePriceBar : TimePriceBar) :
    PriceTickResponse F where
  resolutionTs := ts
  open_ := lossyInto.ofU32F96 timePriceBar.open_
  high := lossyInto.ofU32F96 timePriceBar.high
  low := lossyInto.ofU32F96 timePriceBar.low
  close := lossyInto.ofU32F96 timePriceBar.close
  ema := timePriceBar.indicators.map fun i => lossyInto.ofI32F96 i.ema.1
  sma := (timePriceBar.indicators.bind (·.bollingerBands)).map fun bands =>
    lossyInto.ofU32F96 bands.1

def TimePriceBars.priceTicks (bars : TimePriceBars) : List (PriceTickResponse F) :=
  bars.data.entries.map fun (ts, timePriceBar) => .fromTimePriceBar lossyInto ts timePriceBar

end Ticks

/-- `BlockModel::query_by_timestamp_range`. Its parameters are bound as they are, the column wraps
around. -/
def Database.queryBlocksByTimestampRange (db : Database) (scan : List Nat)
    (minTimestamp maxTimestamp : Nat) : Option (List (BlockModel PairTicks)) :=
  if minTimestamp ≤ i64Max ∧ maxTimestamp ≤ i64Max then
    some ((RowTable.select db.blocks scan fun row =>
      (minTimestamp : Int) ≤ U64.toSql row.timestamp &&
        U64.toSql row.timestamp ≤ (maxTimestamp : Int)).map fun (number, row) =>
          ⟨number, row.timestamp, row.pairTicks⟩)
  else none

section PriceTicks

variable {F : Type} (lossyInto : LossyInto F) (resolution : Resolution) (pairAddress : Address)

/-- The error of an insertion is logged, and the bars stay as it leaves them. -/
def insertPriceTick (bars : TimePriceBars) (block : Block PairTicks) : Option TimePriceBars :=
  match block.pairTicks.get? pairAddress with
  | some pairBlockTick =>
    match TimePriceBars.insertData block.blockNumber pairBlockTick.tick block.blockTimestamp
        (some (previous (fromTimestamp block.blockTimestamp resolution) resolution)) bars with
    | .ok _ bars => some bars
    | .error (.err _) bars => some bars
    | .error _ _ => none
  | none => some bars

/-- The bars that `get_price_ticks` makes of the blocks. -/
def pairTimePriceBars (blocks : List (Block PairTicks)) : Option TimePriceBars :=
  blocks.foldlM (insertPriceTick resolution pairAddress) (.new none resolution (some .all))

def getPriceTicks (db : Database) (scan : List Nat) (startAt endAt : Nat) :
    Except PriceTicksFailure (List (PriceTickResponse F)) :=
  match db.queryBlocksByTimestampRange scan startAt endAt with
  | none => .error .query
  | some blocks => match pairTimePriceBars resolution pairAddress (blocks.map Block.ofModel) with
    | none => .error .panic
    | some bars => .ok (bars.priceTicks lossyInto)

end PriceTicks

theorem pairTimePriceBars_concat {resolution : Resolution} {pairAddress : Address}
    {blocks : List (Block PairTicks)} {block : Block PairTicks} {bars : TimePriceBars}
    (h : pairTimePriceBars resolution pairAddress blocks = some bars) :
    pairTimePriceBars resolution pairAddress (blocks ++ [block]) =
      insertPriceTick resolution pairAddress bars block := by
  unfold pairTimePriceBars at h ⊢
  rw [List.foldlM_append, h]
  exact bind_pure (insertPriceTick resolution pairAddress bars block)

namespace TimePriceBars

variable {t₀ : Nat} {h : BarsHistory} {n : Nat}

theorem previous_blockBucket (ht : 5700 ≤ t₀) (res : Resolution) (n : Nat) :
    previous (blockBucket t₀ res n) res + res.offset = blockBucket t₀ res n := by
  have hle : 5700 ≤ blockBucket t₀ res n := le_blockBucket ht n
  have hoffset : res.offset = 300 := by
    cases res
    rfl
  rw [previous_eq hle, hoffset]
  omega

/-- The blocks of a history may go on from any later number. -/
theorem Orderly.mono (ho : Orderly t₀ h) (hle : h.nextBlock ≤ n) :
    Orderly t₀ ⟨h.bars, n, h.passed⟩ := by
  refine ⟨⟨ho.chained.bar, ho.chained.settled, ho.chained.frontier, ho.chained.linked, ?_, ?_,
    ho.chained.tip⟩, ho.retention, ho.passed⟩
  · intro key bar hbar k hk
    have hlt := ho.chained.below key bar hbar k hk
    exact Nat.lt_of_lt_of_le hlt hle
  · intro k hk
    exact ho.chained.ahead k (Nat.le_trans hle hk)

theorem RetainsHistory.mono {R : Nat} {h' : BarsHistory} (hr : RetainsHistory t₀ R h h')
    (hle : h.nextBlock ≤ n) :
    RetainsHistory t₀ R ⟨h.bars, n, h.passed⟩ ⟨h'.bars, n, h'.passed⟩ :=
  ⟨hr.left.mono hle, hr.right.mono (hr.nextBlock ▸ hle), hr.retention, hr.retainsAll, rfl,
    hr.passed, hr.retains⟩

/-- A tick goes into the chart as it goes into the bars that are retained of it. -/
theorem RetainsHistory.insertTick {R next : Nat} {bars chart bars' : TimePriceBars}
    {passed : Option Nat} {tick : TickData}
    (hr : RetainsHistory t₀ R ⟨bars, next, passed⟩ ⟨chart, next, passed⟩) (ht : 5700 ≤ t₀)
    (hR : 21 ≤ R) (hnext : next ≤ n)
    (hpassed : ∀ x ∈ passed, ∀ m, next ≤ m →
      x ≤ previous (blockBucket t₀ chart.resolution m) chart.resolution)
    (hdata : TimePriceBars.insertData n tick (blockTime t₀ n)
      (some (previous (blockBucket t₀ chart.resolution n) chart.resolution)) bars = .ok () bars') :
    ∃ chart', TimePriceBars.insertData n tick (blockTime t₀ n)
        (some (previous (blockBucket t₀ chart.resolution n) chart.resolution)) chart =
          .ok () chart' ∧
      chart'.resolution = chart.resolution ∧
      RetainsHistory t₀ R
        ⟨bars', n + 1, some (previous (blockBucket t₀ chart.resolution n) chart.resolution)⟩
        ⟨chart', n + 1, some (previous (blockBucket t₀ chart.resolution n) chart.resolution)⟩ ∧
      ∀ m, n + 1 ≤ m → previous (blockBucket t₀ chart.resolution n) chart.resolution ≤
        previous (blockBucket t₀ chart.resolution m) chart.resolution := by
  have hprevious := previous_blockBucket ht chart.resolution
  have hoffset := chart.resolution.offset_pos
  have hbucket := hprevious n
  have hlt : previous (blockBucket t₀ chart.resolution n) chart.resolution <
      blockBucket t₀ chart.resolution n := by omega
  have hadmitted : BarsHistory.Admits t₀ ⟨chart, next, passed⟩ n
      (some (previous (blockBucket t₀ chart.resolution n) chart.resolution)) := by
    refine ⟨hnext, fun x hx => ?_⟩
    cases hx
    refine ⟨?_, hlt, fun y hy => hpassed y hy n hnext⟩
    have hdvd := offset_dvd_blockBucket t₀ chart.resolution n
    rw [← hbucket] at hdvd
    exact (Nat.dvd_add_left (Nat.dvd_refl _)).mp hdvd
  obtain ⟨chart', hchart'⟩ := hr.right.chained.exists_insertData hnext hr.right.retention ht
    (fun v hv => (hadmitted.2 v hv).1) tick
  obtain ⟨s, hstep, hr'⟩ := hr.insertData hR ht (history_step_of_ok hadmitted hchart')
  obtain ⟨-, -, rfl⟩ := history_step_insertData hstep
  rw [hdata] at hr'
  refine ⟨chart', hchart', (insertData_ok_settings hchart').resolution, hr', fun m hm => ?_⟩
  have hmono : blockBucket t₀ chart.resolution n ≤ blockBucket t₀ chart.resolution m :=
    blockBucket_mono (Nat.le_of_succ_le hm)
  have hlater := hprevious m
  omega

end TimePriceBars

namespace TimePriceBarStore

variable {t₀ : Nat} {a : Address} {call : InsertBlock} {store store' : TimePriceBarStore}
  {blocks : List (Block PairTicks)}

/-- The lowest number of a block that is no reorg. -/
def nextBlock (store : TimePriceBarStore) : Nat := store.lastInsertedBlockNumber.elim 0 (· + 1)

theorem not_isReorg_iff {n : Nat} : ¬store.IsReorg n ↔ store.nextBlock ≤ n := by
  unfold IsReorg nextBlock
  cases store.lastInsertedBlockNumber with
  | none => simp
  | some last =>
    simp only [Option.some.injEq, exists_eq_left', Option.elim_some]
    omega

/-- The bars of a pair after a block that is no reorg, before the sweep. -/
def TickInserted (a : Address) (call : InsertBlock) (store : TimePriceBarStore)
    (bars : Option TimePriceBars) : Prop :=
  match call.block.pairTicks.get? a with
  | some pair => ∃ bars', TimePriceBars.insertData call.block.blockNumber pair.tick
      call.block.blockTimestamp
      (store.finalizedTimestamp call.block.blockTimestamp call.finalizedBlockHeader)
      (store.barsOf a) = .ok () bars' ∧ bars = some bars'
  | none => bars = store.timePriceBars.get? a

/-- The sweep takes the bars of a pair. -/
def Swept (a : Address) (call : InsertBlock) (store store' : TimePriceBarStore) : Prop :=
  ((store.timePriceBars.get? a).isSome ∨ (call.block.pairTicks.get? a).isSome) ∧
    store'.timePriceBars.get? a = none

theorem TickInserted.isSome {bars : Option TimePriceBars} (h : TickInserted a call store bars)
    (hbars : bars ≠ none) :
    (store.timePriceBars.get? a).isSome ∨ (call.block.pairTicks.get? a).isSome := by
  unfold TickInserted at h
  cases hpair : call.block.pairTicks.get? a with
  | some pair => exact Or.inr rfl
  | none =>
    simp only [hpair] at h
    rw [← h]
    exact Or.inl (Option.isSome_iff_ne_none.mpr hbars)

/-- What a block that is no reorg does to the bars of a pair. -/
theorem insert_bars (hadmits : store.Admits call) (hnext : store.nextBlock ≤ call.block.blockNumber)
    (hok : insert call store = .ok () store') (a : Address) :
    ∃ bars, TickInserted a call store bars ∧
      (store'.timePriceBars.get? a = bars ∨ store'.timePriceBars.get? a = none) := by
  obtain ⟨pruned, inserted, hprune, hticks, rfl⟩ := insertBlock_ok hok
  have hsame : pruned = store := (pruneIfReorged_ok hadmits.1 hprune).2.1 (not_isReorg_iff.mpr hnext)
  subst hsame
  obtain ⟨-, hother, hvisited⟩ := insertTicks_ok hadmits.2.1
    (fun b hb => hadmits.2.exists_value hb) hticks
  refine ⟨inserted.timePriceBars.get? a, ?_, ?_⟩
  · unfold TickInserted
    cases hpair : call.block.pairTicks.get? a with
    | some pair =>
      obtain ⟨pair', bars', hpair', hdata, hget⟩ :=
        hvisited a ((hadmits.2.2 a).mpr (Option.isSome_of_eq_some hpair))
      rw [hpair] at hpair'
      cases hpair'
      exact ⟨bars', hdata, hget⟩
    | none =>
      refine hother a fun ha => ?_
      have hsome := (hadmits.2.2 a).mp ha
      rw [hpair] at hsome
      cases hsome
  · show (inserted.pruneStale call.block.blockNumber call.block.blockTimestamp).timePriceBars.get? a =
      _ ∨ _
    rw [get?_pruneStale_eq]
    split
    next =>
      cases inserted.timePriceBars.get? a with
      | none => exact Or.inl rfl
      | some bars =>
        rw [Option.filter_some]
        split
        next => exact Or.inl rfl
        next => exact Or.inr rfl
    next => exact Or.inl rfl

/-- A completed call leaves the settings of the store, and its block is the last one. -/
theorem insert_settings (hadmits : store.Admits call) (hok : insert call store = .ok () store') :
    store'.resolution = store.resolution ∧ store'.retentionCount = store.retentionCount ∧
      store'.isBacktest = store.isBacktest ∧ store'.nextBlock = call.block.blockNumber + 1 := by
  obtain ⟨pruned, inserted, hprune, hticks, rfl⟩ := insertBlock_ok hok
  have hpruned := (pruneIfReorged_ok hadmits.1 hprune).1
  have hinserted := (insertTicks_ok hadmits.2.1
    (fun b hb => hadmits.2.exists_value hb) hticks).1
  have hfields : SameFields store inserted := hpruned.trans hinserted
  unfold SameFields at hfields
  rw [hfields]
  unfold pruneStale
  split
  next =>
    split
    next => exact ⟨rfl, rfl, rfl, rfl⟩
    next => exact ⟨rfl, rfl, rfl, rfl⟩
  next => exact ⟨rfl, rfl, rfl, rfl⟩

/-- The bars of a pair are the last ones of the chart of the blocks, so far as they are retained. -/
def Charts (t₀ : Nat) (a : Address) (store : TimePriceBarStore) (blocks : List (Block PairTicks)) :
    Prop :=
  ∃ chart passed, pairTimePriceBars store.resolution a blocks = some chart ∧
    chart.resolution = store.resolution ∧ TimePriceBars.RetainsHistory t₀ store.retentionCount
      ⟨store.barsOf a, store.nextBlock, passed⟩ ⟨chart, store.nextBlock, passed⟩ ∧
    ∀ x ∈ passed, ∀ n, store.nextBlock ≤ n →
      x ≤ previous (blockBucket t₀ store.resolution n) store.resolution

/-- A pair without bars has the chart of no blocks. -/
theorem charts_nil (hR : 21 ≤ store.retentionCount) (hnone : store.timePriceBars.get? a = none) :
    store.Charts t₀ a [] := by
  have hbars : store.barsOf a = .new (some store.retentionCount) store.resolution (some .all) := by
    rw [barsOf, hnone, Option.getD_none]
  have hnew := TimePriceBars.new_retainsHistory t₀ hR store.resolution (some .all)
  refine ⟨.new none store.resolution (some .all), none, rfl, rfl, ?_, fun x hx => by cases hx⟩
  rw [hbars]
  exact hnew.mono (Nat.zero_le _)

/-- A block of a backtest goes into the bars of a pair as it goes into the chart, unless the sweep
takes them. -/
theorem Charts.insert (h : store.Charts t₀ a blocks) (ht : 5700 ≤ t₀)
    (hR : 21 ≤ store.retentionCount) (hbacktest : store.isBacktest)
    (hclock : call.block.blockTimestamp = blockTime t₀ call.block.blockNumber)
    (hadmits : store.Admits call) (hnext : store.nextBlock ≤ call.block.blockNumber)
    (hok : TimePriceBarStore.insert call store = .ok () store') :
    store'.Charts t₀ a (blocks ++ [call.block]) ∨ Swept a call store store' := by
  obtain ⟨chart, passed, hchart, hsame, hr, hpassed⟩ := h
  obtain ⟨bars, hinserted, hkept⟩ := insert_bars hadmits hnext hok a
  by_cases hget : store'.timePriceBars.get? a = bars
  swap
  · have hnone := hkept.resolve_left hget
    rw [hnone] at hget
    exact Or.inr ⟨hinserted.isSome (fun h => hget h.symm), hnone⟩
  obtain ⟨hresolution, hretention, -, hnextBlock⟩ := insert_settings hadmits hok
  refine Or.inl ?_
  unfold Charts
  rw [hresolution, hretention, hnextBlock, pairTimePriceBars_concat hchart, insertPriceTick]
  unfold TickInserted at hinserted
  cases hpair : call.block.pairTicks.get? a with
  | none =>
    simp only [hpair] at hinserted
    have hbars : store'.barsOf a = store.barsOf a := by
      rw [barsOf, barsOf, hget, hinserted, hresolution, hretention]
    rw [hbars]
    exact ⟨chart, passed, rfl, hsame, hr.mono (Nat.le_succ_of_le hnext), fun x hx n hn =>
      hpassed x hx n (by omega)⟩
  | some pair =>
    simp only [hpair] at hinserted
    obtain ⟨bars', hdata, rfl⟩ := hinserted
    have hbars : store'.barsOf a = bars' := by rw [barsOf, hget, Option.getD_some]
    have hf : store.finalizedTimestamp call.block.blockTimestamp call.finalizedBlockHeader =
        some (previous (blockBucket t₀ store.resolution call.block.blockNumber)
          store.resolution) := by
      rw [finalizedTimestamp, if_pos hbacktest, hclock]
      rfl
    rw [hf, hclock] at hdata
    rw [← hsame] at hdata hpassed
    obtain ⟨chart', hchart', hresolution', hr', hpassed'⟩ :=
      hr.insertTick ht hR hnext hpassed hdata
    have hinsert : TimePriceBars.insertData call.block.blockNumber pair.tick
        call.block.blockTimestamp (some (previous (fromTimestamp call.block.blockTimestamp
          store.resolution) store.resolution)) chart = .ok () chart' := by
      rw [hclock, ← hsame]
      exact hchart'
    rw [hbars]
    refine ⟨chart', _, ?_, hresolution'.trans hsame, hr', fun x hx m hm => ?_⟩
    · simp only [hinsert]
    · cases hx
      rw [← hsame]
      exact hpassed' m hm

end TimePriceBarStore

namespace Database

variable {t₀ lo hi startAt endAt : Nat} {db : Database} {scan : List Nat}

/-- The blocks of the database were produced by a chain with a regular clock. -/
def OnClock (t₀ : Nat) (db : Database) : Prop :=
  ∀ n row, db.blocks.get? n = some row → row.timestamp = blockTime t₀ n ∧ row.timestamp < i64Max

/-- The order of the index `blocks__timestamp`. -/
def TimestampOrder (db : Database) (scan : List Nat) : Prop :=
  db.blocks.IterOrder scan ∧ scan.Pairwise fun n m => ∀ row row', db.blocks.get? n = some row →
    db.blocks.get? m = some row' → row.timestamp ≤ row'.timestamp

/-- On a regular clock the order of the timestamps is the one of the numbers. -/
theorem TimestampOrder.eq_rowids (h : db.TimestampOrder scan) (hclock : db.OnClock t₀) :
    scan = db.blocks.entries.map Prod.fst := by
  have hrowids := RowTable.iterOrder_rowids db.blocks
  have hperm : scan.Perm (db.blocks.entries.map Prod.fst) :=
    (List.perm_ext_iff_of_nodup h.1.1 hrowids.1).mpr fun n => (h.1.2 n).trans (hrowids.2 n).symm
  have hscan : scan.Pairwise (· ≤ ·) := by
    refine h.2.imp_of_mem fun {n m} hn hm hle => ?_
    obtain ⟨row, hrow⟩ := h.1.exists_value hn
    obtain ⟨row', hrow'⟩ := h.1.exists_value hm
    have hts := hle row row' hrow hrow'
    rw [(hclock n row hrow).1, (hclock m row' hrow').1] at hts
    simp only [blockTime, AVERAGE_BLOCK_TIME_SECONDS] at hts
    omega
  have hsorted : (db.blocks.entries.map Prod.fst).Pairwise (· ≤ ·) :=
    List.pairwise_map.mpr (db.blocks.sorted.imp fun hlt => Nat.le_of_lt hlt)
  exact hperm.eq_of_pairwise (fun a b _ _ hab hba => Nat.le_antisymm hab hba) hscan hsorted

/-- The rows of a range of numbers are its blocks. -/
theorem rangeEntries_blocksIn (db : Database) (lo hi : Nat) :
    ((db.blocks.rangeEntries lo hi).map fun (number, row) =>
      Block.ofModel ⟨number, row.timestamp, row.pairTicks⟩) = db.blocksIn lo hi := by
  have hblock : ∀ e ∈ db.blocks.rangeEntries lo hi, db.blocks.block? e.1 =
      some (Block.ofModel ⟨e.1, e.2.timestamp, e.2.pairTicks⟩) := by
    intro e he
    obtain ⟨hrow, -⟩ := OrdMap.mem_rangeEntries.mp he
    rw [BlocksTable.block?, hrow]
    rfl
  have habsent : ∀ n, (if (db.blocks.get? n).isSome then db.blocks.block? n else none) =
      db.blocks.block? n := by
    intro n
    unfold BlocksTable.block?
    cases db.blocks.get? n with
    | none => rfl
    | some row => rfl
  have hkeys := BlockChunk.rangeEntries_keys db.blocks lo hi
  calc ((db.blocks.rangeEntries lo hi).map fun (number, row) =>
        Block.ofModel ⟨number, row.timestamp, row.pairTicks⟩)
      = ((db.blocks.rangeEntries lo hi).map Prod.fst).filterMap db.blocks.block? := by
        rw [List.filterMap_map, ← List.filterMap_eq_map]
        exact (List.filterMap_congr hblock).symm
    _ = db.blocksIn lo hi := by
        rw [hkeys, List.filterMap_filter]
        exact List.filterMap_congr fun n _ => habsent n

/-- A window of timestamps answers the blocks whose times are in it. -/
theorem queryBlocksByTimestampRange_eq (hscan : db.TimestampOrder scan) (hclock : db.OnClock t₀)
    (hstart : ∀ n, startAt ≤ blockTime t₀ n ↔ lo ≤ n) (hend : ∀ n, blockTime t₀ n ≤ endAt ↔ n ≤ hi)
    (hstartMax : startAt ≤ i64Max) (hendMax : endAt ≤ i64Max) :
    ∃ blocks, db.queryBlocksByTimestampRange scan startAt endAt = some blocks ∧
      blocks.map Block.ofModel = db.blocksIn lo hi := by
  have hrows : ∀ e ∈ db.blocks.entries, db.blocks.get? e.1 = some e.2 := fun e he =>
    OrdMap.get?_eq_some_iff.mpr he
  rw [queryBlocksByTimestampRange, if_pos ⟨hstartMax, hendMax⟩, hscan.eq_rowids hclock,
    RowTable.select_keys hrows]
  refine ⟨_, rfl, ?_⟩
  rw [List.map_map, ← rangeEntries_blocksIn, OrdMap.rangeEntries]
  refine congrArg _ (List.filter_congr fun e he => ?_)
  obtain ⟨hts, hmax⟩ := hclock e.1 e.2 (hrows e he)
  rw [U64.toSql_of_le (Nat.le_of_lt hmax), hts, Bool.eq_iff_iff]
  simp only [Bool.and_eq_true, decide_eq_true_iff, Nat.cast_le, hstart, hend]

end Database

end Pochtecatl
