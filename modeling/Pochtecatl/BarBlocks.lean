import Pochtecatl.TimePriceBar

namespace Pochtecatl

theorem get?_foldl_insert (blocks : OrdMap Nat TickData) (ns : List Nat) (data : TickData)
    (k : Nat) :
    (ns.foldl (fun m n => m.insert n data) blocks).get? k =
      if k ∈ ns then some data else blocks.get? k := by
  induction ns generalizing blocks with
  | nil => simp
  | cons n ns ih =>
    rw [List.foldl_cons, ih, OrdMap.get?_insert]
    by_cases hk : k ∈ ns
    · simp [hk]
    · simp [hk]

namespace TimePriceBar

/-- The block numbers a bar accounts for: the ticks it keeps while pending, its
block range once finalized. -/
def Holds : TimePriceBar → Nat → Prop
  | pending bar, k => ∃ tick, bar.blockPriceBars.get? k = some tick
  | finalized bar, k => bar.startBlockNumber ≤ k ∧ k ≤ bar.endBlockNumber

instance (bar : TimePriceBar) (k : Nat) : Decidable (bar.Holds k) :=
  match bar with
  | pending bar => decidable_of_iff ((bar.blockPriceBars.get? k).isSome) Option.isSome_iff_exists
  | finalized _ => inferInstanceAs (Decidable (_ ∧ _))

def endBlockNumber : TimePriceBar → Option Nat
  | pending bar => bar.endBlockNumber
  | finalized bar => some bar.endBlockNumber

/-- A bar without its indicators. -/
def content : TimePriceBar → TimePriceBar
  | pending bar => pending { bar with indicators := none }
  | finalized bar => finalized { bar with indicators := none }

@[simp] theorem holds_content (bar : TimePriceBar) (k : Nat) :
    bar.content.Holds k ↔ bar.Holds k := by cases bar <;> rfl

theorem holds_iff_of_content {bar bar' : TimePriceBar} (h : bar'.content = bar.content) (k : Nat) :
    bar'.Holds k ↔ bar.Holds k := by
  rw [← holds_content, h, holds_content]

@[simp] theorem data_content (bar : TimePriceBar) : bar.content.data = bar.data := by
  cases bar <;> rfl

@[simp] theorem isFinalized_content (bar : TimePriceBar) :
    bar.content.isFinalized = bar.isFinalized := by cases bar <;> rfl

@[simp] theorem content_setIndicators (bar : PendingTimePriceBar) (i : Indicators) :
    (pending (bar.setIndicators i)).content = (pending bar).content := rfl

theorem eq_of_content_eq {bar bar' : TimePriceBar} (hc : bar.content = bar'.content)
    (hi : bar.indicators = bar'.indicators) : bar = bar' := by
  cases bar with
  | pending bar =>
    cases bar' with
    | pending bar' =>
      cases bar
      cases bar'
      simp_all [content, indicators]
    | finalized bar' => simp [content] at hc
  | finalized bar =>
    cases bar' with
    | pending bar' => simp [content] at hc
    | finalized bar' =>
      cases bar
      cases bar'
      simp_all [content, indicators]

end TimePriceBar

namespace PendingTimePriceBar

theorem startBlockNumber_eq_some_iff {bar : PendingTimePriceBar} {k : Nat} :
    bar.startBlockNumber = some k ↔
      (TimePriceBar.pending bar).Holds k ∧ ∀ j, (TimePriceBar.pending bar).Holds j → k ≤ j := by
  simp only [startBlockNumber, Option.map_eq_some_iff, Prod.exists, exists_and_right,
    exists_eq_right, OrdMap.firstEntry_eq_some_iff, TimePriceBar.Holds]
  exact and_congr_right fun _ => ⟨fun h j ⟨t, hj⟩ => h j t hj, fun h j t hj => h j ⟨t, hj⟩⟩

theorem endBlockNumber_eq_some_iff {bar : PendingTimePriceBar} {k : Nat} :
    bar.endBlockNumber = some k ↔
      (TimePriceBar.pending bar).Holds k ∧ ∀ j, (TimePriceBar.pending bar).Holds j → j ≤ k := by
  simp only [endBlockNumber, Option.map_eq_some_iff, Prod.exists, exists_and_right,
    exists_eq_right, OrdMap.lastEntry_eq_some_iff, TimePriceBar.Holds]
  exact and_congr_right fun _ => ⟨fun h j ⟨t, hj⟩ => h j t hj, fun h j t hj => h j ⟨t, hj⟩⟩

theorem startBlockNumber_eq_none_iff {bar : PendingTimePriceBar} :
    bar.startBlockNumber = none ↔ ∀ k, ¬(TimePriceBar.pending bar).Holds k := by
  rw [startBlockNumber, Option.map_eq_none_iff, OrdMap.firstEntry_eq_none_iff]
  exact forall_congr' fun k => Option.eq_none_iff_forall_ne_some.trans not_exists.symm

theorem endBlockNumber_eq_none_iff {bar : PendingTimePriceBar} :
    bar.endBlockNumber = none ↔ ∀ k, ¬(TimePriceBar.pending bar).Holds k := by
  rw [endBlockNumber, Option.map_eq_none_iff, OrdMap.lastEntry_eq_none_iff]
  exact forall_congr' fun k => Option.eq_none_iff_forall_ne_some.trans not_exists.symm

theorem exists_start_end {bar : PendingTimePriceBar} {k : Nat}
    (h : (TimePriceBar.pending bar).Holds k) :
    ∃ s e, bar.startBlockNumber = some s ∧ bar.endBlockNumber = some e ∧ s ≤ k ∧ k ≤ e := by
  cases hs : bar.startBlockNumber with
  | none => exact absurd h (startBlockNumber_eq_none_iff.mp hs k)
  | some s =>
    cases he : bar.endBlockNumber with
    | none => exact absurd h (endBlockNumber_eq_none_iff.mp he k)
    | some e =>
      exact ⟨s, e, rfl, rfl, (startBlockNumber_eq_some_iff.mp hs).2 k h,
        (endBlockNumber_eq_some_iff.mp he).2 k h⟩

@[simp] theorem not_holds_new (k : Nat) : ¬(TimePriceBar.pending new).Holds k := by
  simp [TimePriceBar.Holds, new]

theorem holds_insertBlockPriceBar {bar : PendingTimePriceBar} {n k : Nat} {data : TickData} :
    (TimePriceBar.pending (bar.insertBlockPriceBar n data)).Holds k ↔
      k = n ∨ (TimePriceBar.pending bar).Holds k := by
  simp only [TimePriceBar.Holds, insertBlockPriceBar, withBlocks, OrdMap.get?_insert]
  by_cases hk : k = n <;> simp [hk]

theorem holds_insertBlockPriceBarRange {bar : PendingTimePriceBar} {ns : List Nat} {k : Nat}
    {data : TickData} :
    (TimePriceBar.pending (bar.insertBlockPriceBarRange ns data)).Holds k ↔
      k ∈ ns ∨ (TimePriceBar.pending bar).Holds k := by
  simp only [TimePriceBar.Holds, insertBlockPriceBarRange, withBlocks, get?_foldl_insert]
  by_cases hk : k ∈ ns <;> simp [hk]

theorem blockPriceBars_pruneToReorgedBlockNumber (bar : PendingTimePriceBar) (r : Nat) :
    (bar.pruneToReorgedBlockNumber r).blockPriceBars = bar.blockPriceBars.filterKeys (· < r) := by
  have h := OrdMap.popLastWhile_eq_filterKeys (m := bar.blockPriceBars) (p := (r ≤ ·))
    fun k k' hk hp => decide_eq_true ((of_decide_eq_true hp).trans hk)
  simp only [pruneToReorgedBlockNumber, withBlocks, h]
  congr 1
  funext k
  rw [← decide_not]
  exact decide_eq_decide.mpr Nat.not_le

theorem holds_pruneToReorgedBlockNumber {bar : PendingTimePriceBar} {r k : Nat} :
    (TimePriceBar.pending (bar.pruneToReorgedBlockNumber r)).Holds k ↔
      k < r ∧ (TimePriceBar.pending bar).Holds k := by
  simp only [TimePriceBar.Holds, blockPriceBars_pruneToReorgedBlockNumber,
    OrdMap.get?_filterKeys]
  by_cases hk : k < r <;> simp [hk]

theorem asFinalized_eq_some_iff {bar : PendingTimePriceBar} {f : FinalizedTimePriceBar} :
    bar.asFinalized = some f ↔
      bar.startBlockNumber = some f.startBlockNumber ∧ bar.endBlockNumber = some f.endBlockNumber ∧
        bar.data = some f.data ∧ bar.indicators = f.indicators := by
  unfold asFinalized
  split
  next s e d hs he hd =>
    rw [hs, he, hd]
    cases f
    simp only [Option.some.injEq, FinalizedTimePriceBar.mk.injEq]
    tauto
  next hno =>
    constructor
    · simp
    · rintro ⟨hs, he, hd, -⟩
      exact absurd hd (hno _ _ _ hs he)

theorem holds_of_asFinalized {bar : PendingTimePriceBar} {f : FinalizedTimePriceBar}
    (h : bar.asFinalized = some f) {k : Nat} (hk : (TimePriceBar.pending bar).Holds k) :
    (TimePriceBar.finalized f).Holds k := by
  obtain ⟨hs, he, -, -⟩ := asFinalized_eq_some_iff.mp h
  exact ⟨(startBlockNumber_eq_some_iff.mp hs).2 k hk, (endBlockNumber_eq_some_iff.mp he).2 k hk⟩

end PendingTimePriceBar

end Pochtecatl
