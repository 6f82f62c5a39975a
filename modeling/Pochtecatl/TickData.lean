import Pochtecatl.Fixed

namespace Pochtecatl

structure TickData where
  open_ : U32F96
  high : U32F96
  low : U32F96
  close : U32F96
  wethVolume : Nat
  deriving DecidableEq

namespace TickData

/-- The step of the fold in `TickData::reduce`. The volume is not added up. -/
def merge (acc tick : TickData) : TickData :=
  { acc with
    high := if acc.high < tick.high then tick.high else acc.high
    low := if tick.low < acc.low then tick.low else acc.low
    close := tick.close }

def reduce (data : List TickData) : Option TickData :=
  data.foldl (fun acc tick => match acc with
    | none => some tick
    | some acc => some (acc.merge tick)) none

def isNegative (tick : TickData) : Bool := tick.close < tick.open_

theorem reduce_append_singleton (data : List TickData) (tick : TickData) :
    reduce (data ++ [tick]) = some (match reduce data with
      | none => tick
      | some acc => acc.merge tick) := by
  simp only [reduce, List.foldl_append, List.foldl_cons, List.foldl_nil]
  split <;> rfl

@[simp] theorem reduce_nil : reduce [] = none := rfl

theorem reduce_eq_none_iff {data : List TickData} : reduce data = none ↔ data = [] := by
  rcases List.eq_nil_or_concat data with rfl | ⟨l, tick, rfl⟩
  · simp
  · simp [reduce_append_singleton]

/-- The aggregate closes at the close of the last tick. -/
theorem reduce_close_of_append {data : List TickData} {tick agg : TickData}
    (h : reduce (data ++ [tick]) = some agg) : agg.close = tick.close := by
  rw [reduce_append_singleton] at h
  cases hr : reduce data with
  | none => simp [hr] at h; rw [← h]
  | some acc => simp [hr] at h; rw [← h, merge]

end TickData

end Pochtecatl
