import Pochtecatl.Indicators

namespace Pochtecatl

inductive TimePriceBarsError where
  | missingBar (timestamp : Nat)
  | indicatorsOnFinalized (timestamp : Nat)
  | pruneIntoEmptyPending
  | pruneIntoFinalized
  | nonContiguous (blockNumber timestamp : Nat)
  | insertIntoFinalized (blockTimestamp timestamp : Nat)
  | emptyPendingAt (timestamp : Nat)
  | alreadyFinalized
  deriving DecidableEq

/-- How a method stops early: `Err`, a panic, or the budget of a modelled loop. -/
inductive Failure where
  | err (e : TimePriceBarsError)
  | panic
  | outOfBudget
  deriving DecidableEq

structure TimePriceBars where
  data : OrdMap Nat TimePriceBar
  resolution : Resolution
  retentionCount : Option Nat
  indicatorsConfig : Option IndicatorsConfig
  lastFinalizedTimestamp : Option Nat
  deriving DecidableEq

/-- A `&mut self` method returning `Result`: the state is kept on failure. -/
abbrev TimePriceBarsM := EStateM Failure TimePriceBars

namespace TimePriceBars

open ResolutionTimestamp

def new (retentionCount : Option Nat) (resolution : Resolution)
    (indicatorsConfig : Option IndicatorsConfig) : TimePriceBars :=
  ⟨OrdMap.empty, resolution, retentionCount, indicatorsConfig, none⟩

def isEmpty (bars : TimePriceBars) : Bool := bars.data.isEmpty

def timePriceBar (bars : TimePriceBars) (timestamp : Nat) : Option TimePriceBar :=
  bars.data.get? timestamp

def pruneToRetentionCount (bars : TimePriceBars) : TimePriceBars :=
  match bars.retentionCount with
  | some retentionCount =>
    { bars with data := OrdMap.popFirstUntil retentionCount bars.data.size bars.data }
  | none => bars

def updateIndicators (timestamp : Nat) (config : IndicatorsConfig) : TimePriceBarsM Unit :=
  fun bars =>
    match Indicators.compute timestamp bars.resolution bars.data config with
    | none => .error .panic bars
    | some indicators =>
      match bars.data.get? timestamp with
      | none => .error (.err (.missingBar timestamp)) bars
      | some (.pending bar) =>
        .ok () { bars with data := bars.data.insert timestamp (.pending (bar.setIndicators indicators)) }
      | some (.finalized _) => .error (.err (.indicatorsOnFinalized timestamp)) bars

/-- The `while let` over `last_entry`. It yields the bucket of the bar that was cut. -/
def pruneLoop (reorgedBlockNumber : Nat) : Nat → Option Nat → TimePriceBarsM (Option Nat)
  | 0, _, bars => .error .outOfBudget bars
  | budget + 1, pruned, bars =>
    match bars.data.lastEntry with
    | none => .ok pruned bars
    | some (timestamp, .pending bar) =>
      match bar.startBlockNumber, bar.endBlockNumber with
      | some startBlockNumber, some endBlockNumber =>
        if reorgedBlockNumber ≤ startBlockNumber then
          pruneLoop reorgedBlockNumber budget pruned { bars with data := bars.data.erase timestamp }
        else if reorgedBlockNumber ≤ endBlockNumber then
          pruneLoop reorgedBlockNumber budget (some timestamp) { bars with
            data := bars.data.insert timestamp
              (.pending (bar.pruneToReorgedBlockNumber reorgedBlockNumber)) }
        else .ok pruned bars
      | none, none => .error (.err .pruneIntoEmptyPending) bars
      | _, _ => .error .panic bars
    | some (_, .finalized bar) =>
      if reorgedBlockNumber ≤ bar.endBlockNumber then .error (.err .pruneIntoFinalized) bars
      else .ok pruned bars

def pruneToReorgedBlockNumber (reorgedBlockNumber : Nat) : TimePriceBarsM Unit := do
  let bars ← get
  let prunedTimestamp ← pruneLoop reorgedBlockNumber (bars.data.size + 2) none
  match prunedTimestamp, bars.indicatorsConfig with
  | some timestamp, some config => updateIndicators timestamp config
  | _, _ => pure ()

/-- The last block of the last bar and the tick that pads the blocks after it. -/
def lastBlock (bars : TimePriceBars) : Option (Nat × TickData) :=
  bars.data.lastEntry.bind fun entry => match entry.2 with
    | .pending bar => bar.blockPriceBars.lastEntry
    | .finalized bar => some (bar.endBlockNumber, bar.data)

def padFrom (bars : TimePriceBars) (blockNumber : Nat) : Option (Nat × TickData) :=
  bars.lastBlock.filter fun last => last.1 + 1 ≠ blockNumber

/-- The variables of the padding loop. -/
structure PadLoop where
  data : OrdMap Nat TimePriceBar
  blockNumbersToPad : List Nat
  resolutionTimestampToPad : Option Nat
  updated : List Nat

/-- Drain the collected block numbers into the bar at `key`; a finalized bar only
logs an error and keeps them. -/
def PadLoop.drainInto (loop : PadLoop) (key pushed : Nat) (data : TickData) : PadLoop :=
  match (loop.data.get? key).getD (.pending .new) with
  | .pending bar => { loop with
      data := loop.data.insert key
        (.pending (bar.insertBlockPriceBarRange loop.blockNumbersToPad data))
      blockNumbersToPad := []
      updated := loop.updated ++ [pushed] }
  | .finalized _ => loop

def padStep (resolution : Resolution) (blockNumber blockTimestamp lastInsertedBlockNumber : Nat)
    (lastInsertedData : TickData) (loop : PadLoop) (paddedBlockNumber : Nat) : PadLoop :=
  -- the source subtracts the distance of the last stored block, not of the padded one
  let paddedTimestamp := fromTimestamp (wrappingSub blockTimestamp
    ((blockNumber - lastInsertedBlockNumber) * AVERAGE_BLOCK_TIME_SECONDS)) resolution
  let loop := match loop.resolutionTimestampToPad with
    | some ts =>
      if ts ≠ paddedTimestamp then
        { loop.drainInto ts paddedTimestamp lastInsertedData with
          resolutionTimestampToPad := some paddedTimestamp }
      else loop
    | none => loop
  let loop := { loop with blockNumbersToPad := loop.blockNumbersToPad ++ [paddedBlockNumber] }
  if paddedBlockNumber = blockNumber - 1 then
    loop.drainInto paddedTimestamp paddedTimestamp lastInsertedData
  else loop

/-- Pad the blocks skipped since the last insert; yields the buckets touched. -/
def padMissing (blockNumber blockTimestamp : Nat) : TimePriceBarsM (List Nat) := fun bars =>
  match bars.padFrom blockNumber with
  | none => .ok [] bars
  | some (lastBlockNumber, lastData) =>
    let loop := (List.range' (lastBlockNumber + 1) (blockNumber - (lastBlockNumber + 1))).foldl
      (padStep bars.resolution blockNumber blockTimestamp lastBlockNumber lastData)
      ⟨bars.data, [], none, []⟩
    .ok loop.updated { bars with data := loop.data }

def insertBlock (blockNumber : Nat) (data : TickData) (blockTimestamp timestamp : Nat) :
    TimePriceBarsM Unit := fun bars =>
  match (bars.data.get? timestamp).getD (.pending .new) with
  | .pending bar =>
    if (bar.endBlockNumber.map fun e => e + 1 == blockNumber).getD true then
      .ok () { bars with
        data := bars.data.insert timestamp (.pending (bar.insertBlockPriceBar blockNumber data)) }
    else .error (.err (.nonContiguous blockNumber timestamp)) bars
  | .finalized _ => .error (.err (.insertIntoFinalized blockTimestamp timestamp)) bars

def updateAll (config : IndicatorsConfig) : List Nat → TimePriceBarsM Unit
  | [] => pure ()
  | timestamp :: rest => do
    updateIndicators timestamp config
    updateAll config rest

def finalizeEntries : List (Nat × TimePriceBar) → TimePriceBarsM Unit
  | [], bars => .ok () bars
  | (timestamp, .pending bar) :: rest, bars =>
    match bar.asFinalized with
    | some finalizedBar =>
      finalizeEntries rest { bars with data := bars.data.insert timestamp (.finalized finalizedBar) }
    | none => .error (.err (.emptyPendingAt timestamp)) bars
  | (_, .finalized _) :: _, bars => .error (.err .alreadyFinalized) bars

/-- `BTreeMap::range_mut` panics on a start past its end. -/
def finalizeRange (startTimestamp endTimestamp : Nat) : TimePriceBarsM Unit := fun bars =>
  if endTimestamp < startTimestamp then .error .panic bars
  else finalizeEntries (bars.data.rangeEntries startTimestamp endTimestamp) bars

def finalizeUpTo (finalizedTimestamp : Option Nat) : TimePriceBarsM Unit := do
  let bars ← get
  match finalizedTimestamp, bars.lastFinalizedTimestamp with
  | some finalized, some last =>
    if last < finalized then
      finalizeRange (next last bars.resolution) finalized
      modify fun bars => { bars with lastFinalizedTimestamp := some finalized }
  | some finalized, none =>
    finalizeRange 0 finalized
    modify fun bars => { bars with lastFinalizedTimestamp := some finalized }
  | none, _ => pure ()

def insertData (blockNumber : Nat) (data : TickData) (blockTimestamp : Nat)
    (finalizedTimestamp : Option Nat) : TimePriceBarsM Unit := do
  let bars ← get
  let timestamp := fromTimestamp blockTimestamp bars.resolution
  let padded ← padMissing blockNumber blockTimestamp
  insertBlock blockNumber data blockTimestamp timestamp
  modify pruneToRetentionCount
  match bars.indicatorsConfig with
  | some config => updateAll config (padded ++ [timestamp])
  | none => pure ()
  finalizeUpTo finalizedTimestamp

def isStale (bars : TimePriceBars) (ts : Nat) : Bool :=
  match bars.retentionCount with
  | some retentionCount =>
    match bars.data.lastEntry with
    | some (lastTs, _) => retentionCount < wrappingSub ts lastTs / bars.resolution.offset
    | none => true
  | none => false

end TimePriceBars

end Pochtecatl
