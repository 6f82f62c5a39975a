import Pochtecatl.OrdMapEnds
import Pochtecatl.ResolutionTimestamp
import Pochtecatl.TickData

namespace Pochtecatl

structure Indicators where
  /-- sma, upper band, lower band -/
  bollingerBands : Option (U32F96 × U32F96 × U32F96)
  /-- ema, slope -/
  ema : I32F96 × I32F96
  deriving DecidableEq

structure FinalizedTimePriceBar where
  data : TickData
  indicators : Option Indicators
  startBlockNumber : Nat
  endBlockNumber : Nat
  deriving DecidableEq

/-- Holds the ticks of the single blocks until the block range is finalized. -/
structure PendingTimePriceBar where
  data : Option TickData
  indicators : Option Indicators
  blockPriceBars : OrdMap Nat TickData
  deriving DecidableEq

namespace PendingTimePriceBar

def new : PendingTimePriceBar := ⟨none, none, OrdMap.empty⟩

def startBlockNumber (bar : PendingTimePriceBar) : Option Nat :=
  bar.blockPriceBars.firstEntry.map Prod.fst

def endBlockNumber (bar : PendingTimePriceBar) : Option Nat :=
  bar.blockPriceBars.lastEntry.map Prod.fst

/-- The tail shared by the mutating methods: recompute `data`, drop `indicators`. -/
def withBlocks (blocks : OrdMap Nat TickData) : PendingTimePriceBar :=
  ⟨TickData.reduce blocks.values, none, blocks⟩

def pruneToReorgedBlockNumber (bar : PendingTimePriceBar) (reorgedBlockNumber : Nat) :
    PendingTimePriceBar :=
  withBlocks (bar.blockPriceBars.popLastWhile (reorgedBlockNumber ≤ ·))

def setIndicators (bar : PendingTimePriceBar) (indicators : Indicators) : PendingTimePriceBar :=
  { bar with indicators := some indicators }

def insertBlockPriceBarRange (bar : PendingTimePriceBar) (blockNumbers : List Nat)
    (data : TickData) : PendingTimePriceBar :=
  withBlocks (blockNumbers.foldl (fun blocks n => blocks.insert n data) bar.blockPriceBars)

def insertBlockPriceBar (bar : PendingTimePriceBar) (blockNumber : Nat)
    (data : TickData) : PendingTimePriceBar :=
  withBlocks (bar.blockPriceBars.insert blockNumber data)

def asFinalized (bar : PendingTimePriceBar) : Option FinalizedTimePriceBar :=
  match bar.startBlockNumber, bar.endBlockNumber, bar.data with
  | some startBlockNumber, some endBlockNumber, some data =>
    some ⟨data, bar.indicators, startBlockNumber, endBlockNumber⟩
  | _, _, _ => none

end PendingTimePriceBar

inductive TimePriceBar where
  | pending (bar : PendingTimePriceBar)
  | finalized (bar : FinalizedTimePriceBar)
  deriving DecidableEq

namespace TimePriceBar

def data : TimePriceBar → Option TickData
  | pending bar => bar.data
  | finalized bar => some bar.data

def indicators : TimePriceBar → Option Indicators
  | pending bar => bar.indicators
  | finalized bar => bar.indicators

def close (bar : TimePriceBar) : U32F96 := (bar.data.map TickData.close).getD U32F96.zero

def isFinalized : TimePriceBar → Bool
  | pending _ => false
  | finalized _ => true

end TimePriceBar

end Pochtecatl
