import Pochtecatl.InsertData
import Pochtecatl.Machine
import Pochtecatl.PairBlockTick

namespace Pochtecatl

/-- How `insert_block` stops early. An insertion names the pair it failed for. -/
structure StoreFailure where
  context : Option Address
  cause : Failure
  deriving DecidableEq

structure TimePriceBarStore where
  resolution : Resolution
  timePriceBars : OrdMap Address TimePriceBars
  retentionCount : Nat
  isBacktest : Bool
  lastInsertedBlockNumber : Option Nat
  lastPrunedAtBlockNumber : Option Nat
  deriving DecidableEq

abbrev StoreM := EStateM StoreFailure TimePriceBarStore

namespace TimePriceBarStore

open ResolutionTimestamp

def new (resolution : Resolution) (retentionCount : Nat) (isBacktest : Bool) :
    TimePriceBarStore :=
  ⟨resolution, OrdMap.empty, retentionCount, isBacktest, none, none⟩

/-- The start of the last bucket that may be finalized. The header is the timestamp of the
finalized block, if the request for it succeeded. -/
def finalizedTimestamp (store : TimePriceBarStore) (blockTimestamp : Nat)
    (finalizedBlockHeader : Option Nat) : Option Nat :=
  if store.isBacktest then
    some (previous (fromTimestamp blockTimestamp store.resolution) store.resolution)
  else
    finalizedBlockHeader.map fun timestamp =>
      previous (fromTimestamp timestamp store.resolution) store.resolution

/-- Runs a method of the bars of one pair in place. -/
def withBars (context : Option Address) (pairAddress : Address) (bars : TimePriceBars)
    (method : TimePriceBarsM Unit) : StoreM Unit := fun store =>
  match method bars with
  | .ok _ bars => .ok () { store with timePriceBars := store.timePriceBars.insert pairAddress bars }
  | .error e bars => .error ⟨context, e⟩
      { store with timePriceBars := store.timePriceBars.insert pairAddress bars }

def pruneReorgedOne (blockNumber : Nat) (pairAddress : Address) : StoreM Unit := fun store =>
  match store.timePriceBars.get? pairAddress with
  | some bars => withBars none pairAddress bars
      (TimePriceBars.pruneToReorgedBlockNumber blockNumber) store
  | none => .ok () store

def pruneReorged (blockNumber : Nat) (order : List Address) : StoreM Unit :=
  order.forM (pruneReorgedOne blockNumber)

def removeEmptied (store : TimePriceBarStore) : TimePriceBarStore :=
  { store with timePriceBars := store.timePriceBars.filterKeys fun pairAddress =>
      !(store.timePriceBars.get? pairAddress).any TimePriceBars.isEmpty }

def IsReorg (store : TimePriceBarStore) (blockNumber : Nat) : Prop :=
  ∃ last, store.lastInsertedBlockNumber = some last ∧ blockNumber ≤ last

instance (store : TimePriceBarStore) (blockNumber : Nat) : Decidable (store.IsReorg blockNumber) :=
  match h : store.lastInsertedBlockNumber with
  | none => isFalse fun ⟨_, hl, _⟩ => by rw [h] at hl; cases hl
  | some last => decidable_of_iff (blockNumber ≤ last) (by simp [IsReorg, h])

/-- A block that is not ahead of the last one replaces what comes after it. -/
def pruneIfReorged (blockNumber : Nat) (order : List Address) : StoreM Unit := fun store =>
  if store.IsReorg blockNumber then
    (do pruneReorged blockNumber order; modify removeEmptied : StoreM Unit) store
  else .ok () store

/-- The entry of a pair, or the one that is added for it. -/
def barsOf (store : TimePriceBarStore) (pairAddress : Address) : TimePriceBars :=
  (store.timePriceBars.get? pairAddress).getD
    (.new (some store.retentionCount) store.resolution (some .all))

def insertTick (block : Block PairTicks) (finalizedTimestamp : Option Nat)
    (pairAddress : Address) : StoreM Unit := fun store =>
  match block.pairTicks.get? pairAddress with
  | some pair => withBars (some pairAddress) pairAddress (store.barsOf pairAddress)
      (TimePriceBars.insertData block.blockNumber pair.tick block.blockTimestamp
        finalizedTimestamp) store
  | none => .ok () store

def insertTicks (block : Block PairTicks) (finalizedTimestamp : Option Nat)
    (order : List Address) : StoreM Unit :=
  order.forM (insertTick block finalizedTimestamp)

/-- The sweep over the pairs without recent bars. -/
def pruneStale (blockNumber blockTimestamp : Nat) (store : TimePriceBarStore) :
    TimePriceBarStore :=
  match store.lastPrunedAtBlockNumber with
  | some last =>
    if last + store.resolution.offset / AVERAGE_BLOCK_TIME_SECONDS < blockNumber then
      { store with
        timePriceBars := store.timePriceBars.filterKeys fun pairAddress =>
          !(store.timePriceBars.get? pairAddress).any fun bars =>
            bars.isStale (fromTimestamp blockTimestamp store.resolution)
        lastPrunedAtBlockNumber := some blockNumber }
    else store
  | none => { store with lastPrunedAtBlockNumber := some blockNumber }

/-- The orders are those in which the hash maps of the store and of the block are iterated. -/
def insertBlock (block : Block PairTicks) (finalizedBlockHeader : Option Nat)
    (storeOrder blockOrder : List Address) : StoreM Unit := do
  let store ← get
  let finalizedTimestamp := store.finalizedTimestamp block.blockTimestamp finalizedBlockHeader
  pruneIfReorged block.blockNumber storeOrder
  insertTicks block finalizedTimestamp blockOrder
  modify (pruneStale block.blockNumber block.blockTimestamp)
  modify fun store => { store with lastInsertedBlockNumber := some block.blockNumber }

end TimePriceBarStore

/-- A call of `insert_block` with what decides its outcome. -/
structure InsertBlock where
  block : Block PairTicks
  finalizedBlockHeader : Option Nat
  storeOrder : List Address
  blockOrder : List Address

namespace TimePriceBarStore

def insert (call : InsertBlock) : StoreM Unit :=
  insertBlock call.block call.finalizedBlockHeader call.storeOrder call.blockOrder

/-- The orders of the call are those of the maps it finds. -/
def Admits (store : TimePriceBarStore) (call : InsertBlock) : Prop :=
  store.timePriceBars.IterOrder call.storeOrder ∧ call.block.pairTicks.IterOrder call.blockOrder

instance (store : TimePriceBarStore) (call : InsertBlock) : Decidable (store.Admits call) :=
  inferInstanceAs (Decidable (_ ∧ _))

/-- One call after the other, whatever they return. A panic ends the run. -/
def machine : Machine TimePriceBarStore InsertBlock where
  step store call :=
    if store.Admits call then
      match insert call store with
      | .ok _ store => some store
      | .error ⟨_, .err _⟩ store => some store
      | .error _ _ => none
    else none

end TimePriceBarStore

end Pochtecatl
