import Mathlib.Data.List.Induction
import Mathlib.Order.MinMax
import Pochtecatl.TickData

namespace Pochtecatl

namespace TickData

/-- The body is between the extremes. -/
structure Ordered (tick : TickData) : Prop where
  low_le_open : tick.low ≤ tick.open_
  open_le_high : tick.open_ ≤ tick.high
  low_le_close : tick.low ≤ tick.close
  close_le_high : tick.close ≤ tick.high

instance (tick : TickData) : Decidable tick.Ordered :=
  decidable_of_iff (tick.low ≤ tick.open_ ∧ tick.open_ ≤ tick.high ∧ tick.low ≤ tick.close ∧
    tick.close ≤ tick.high)
    ⟨fun ⟨h₁, h₂, h₃, h₄⟩ => ⟨h₁, h₂, h₃, h₄⟩, fun ⟨h₁, h₂, h₃, h₄⟩ => ⟨h₁, h₂, h₃, h₄⟩⟩

/-- `agg` opens with the first of the ticks, closes with the last one and has their extremes. -/
structure Aggregates (agg : TickData) (ticks : List TickData) : Prop where
  open_ : ticks.head?.map TickData.open_ = some agg.open_
  close : ticks.getLast?.map TickData.close = some agg.close
  high_mem : agg.high ∈ ticks.map TickData.high
  le_high : ∀ tick ∈ ticks, tick.high ≤ agg.high
  low_mem : agg.low ∈ ticks.map TickData.low
  low_le : ∀ tick ∈ ticks, agg.low ≤ tick.low

variable {agg tick : TickData} {ticks : List TickData}

theorem Aggregates.singleton (tick : TickData) : tick.Aggregates [tick] := by
  refine ⟨rfl, rfl, List.mem_singleton_self _, ?_, List.mem_singleton_self _, ?_⟩
  · intro t ht
    rw [List.mem_singleton.mp ht]
  · intro t ht
    rw [List.mem_singleton.mp ht]

theorem merge_high (agg tick : TickData) : (agg.merge tick).high = max agg.high tick.high := by
  unfold merge
  dsimp only
  split
  next h => exact (max_eq_right h.le).symm
  next h => exact (max_eq_left (not_lt.mp h)).symm

theorem merge_low (agg tick : TickData) : (agg.merge tick).low = min agg.low tick.low := by
  unfold merge
  dsimp only
  split
  next h => exact (min_eq_right h.le).symm
  next h => exact (min_eq_left (not_lt.mp h)).symm

theorem Aggregates.merge (h : agg.Aggregates ticks) (tick : TickData) :
    (agg.merge tick).Aggregates (ticks ++ [tick]) := by
  refine ⟨?_, ?_, ?_, ?_, ?_, ?_⟩
  · obtain ⟨first, hfirst, -⟩ := Option.map_eq_some_iff.mp h.open_
    rw [List.head?_append, hfirst, Option.some_or, ← hfirst]
    exact h.open_
  · rw [List.getLast?_concat]
    rfl
  · rw [merge_high, List.map_append]
    rcases max_choice agg.high tick.high with he | he
    · rw [he]
      exact List.mem_append_left _ h.high_mem
    · rw [he]
      exact List.mem_append_right _ (List.mem_singleton_self _)
  · intro t ht
    rw [merge_high]
    rcases List.mem_append.mp ht with ht | ht
    · exact (h.le_high t ht).trans (le_max_left _ _)
    · rw [List.mem_singleton.mp ht]
      exact le_max_right _ _
  · rw [merge_low, List.map_append]
    rcases min_choice agg.low tick.low with he | he
    · rw [he]
      exact List.mem_append_left _ h.low_mem
    · rw [he]
      exact List.mem_append_right _ (List.mem_singleton_self _)
  · intro t ht
    rw [merge_low]
    rcases List.mem_append.mp ht with ht | ht
    · exact (min_le_left _ _).trans (h.low_le t ht)
    · rw [List.mem_singleton.mp ht]
      exact min_le_right _ _

/-- What `TickData::reduce` computes. The volume is that of the first tick alone. -/
theorem aggregates_of_reduce (h : reduce ticks = some agg) :
    agg.Aggregates ticks ∧ ticks.head?.map TickData.wethVolume = some agg.wethVolume := by
  induction ticks using List.reverseRecOn generalizing agg with
  | nil => cases h
  | append_singleton ticks tick ih =>
    rw [reduce_append_singleton] at h
    cases hr : reduce ticks with
    | none =>
      rw [hr] at h
      cases h
      rw [reduce_eq_none_iff.mp hr, List.nil_append]
      exact ⟨Aggregates.singleton _, rfl⟩
    | some acc =>
      rw [hr] at h
      cases h
      obtain ⟨hagg, hvolume⟩ := ih hr
      refine ⟨hagg.merge tick, ?_⟩
      obtain ⟨first, hfirst, -⟩ := Option.map_eq_some_iff.mp hvolume
      rw [List.head?_append, hfirst, Option.some_or, ← hfirst]
      exact hvolume

theorem exists_reduce (h : ticks ≠ []) : ∃ agg, reduce ticks = some agg :=
  Option.ne_none_iff_exists'.mp (mt reduce_eq_none_iff.mp h)

theorem Aggregates.ordered (h : agg.Aggregates ticks) (hall : ∀ tick ∈ ticks, tick.Ordered) :
    agg.Ordered := by
  obtain ⟨first, hfirst, hopen⟩ := Option.map_eq_some_iff.mp h.open_
  obtain ⟨last, hlast, hclose⟩ := Option.map_eq_some_iff.mp h.close
  have hf : first ∈ ticks := List.mem_of_mem_head? hfirst
  have hl : last ∈ ticks := List.mem_of_getLast? hlast
  constructor
  · rw [← hopen]
    exact (h.low_le first hf).trans (hall first hf).low_le_open
  · rw [← hopen]
    exact (hall first hf).open_le_high.trans (h.le_high first hf)
  · rw [← hclose]
    exact (h.low_le last hl).trans (hall last hl).low_le_close
  · rw [← hclose]
    exact (hall last hl).close_le_high.trans (h.le_high last hl)

end TickData

end Pochtecatl
