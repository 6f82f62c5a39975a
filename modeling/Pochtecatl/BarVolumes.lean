import Pochtecatl.TrackedBars
import Mathlib.Algebra.Ring.Nat

namespace Pochtecatl

/-- The blocks that an insert pads: the ones after `lastBlockNumber`, into the bar `bar` of the
bucket `timestamp`, with clones of `tick`. -/
structure Padding where
  timestamp : Nat
  lastBlockNumber : Nat
  tick : TickData
  bar : PendingTimePriceBar

/-- The number after the one inserted; a reorg goes back to its own. -/
def TimedCall.nextNumber (next : Nat) : TimedCall → Option Nat
  | insertData n _ _ _ => if next ≤ n then some (n + 1) else none
  | pruneToReorgedBlockNumber r => some (min next r)

/-- The bars, and beside them the volume that came in with the block of each bucket. -/
structure PassedBars where
  tracked : TrackedBars
  passed : Nat → Nat → Nat
  next : Nat

namespace TimePriceBars

open ResolutionTimestamp

/-- A finalized bar is not padded. -/
def padding (n bts : Nat) (bars : TimePriceBars) : Option Padding :=
  bars.lastBlock.bind fun last =>
    let ts := bars.padTarget n bts last.1
    match (bars.data.get? ts).getD (.pending .new) with
    | .pending bar => if last.1 + 1 < n then some ⟨ts, last.1, last.2, bar⟩ else none
    | .finalized _ => none

/-- A tick passed for a block counts for it until the block is padded. -/
def passedAfter (bars : TimePriceBars) (passed : Nat → Nat → Nat) :
    TimedCall → Nat → Nat → Nat
  | .insertData n d bts _, key, k =>
    if key = fromTimestamp bts bars.resolution ∧ k = n then d.wethVolume
    else if (bars.padding n bts).any fun p =>
      key = p.timestamp ∧ p.lastBlockNumber < k ∧ k < n then 0
    else passed key k
  | .pruneToReorgedBlockNumber _, key, k => passed key k

/-- Successful calls with increasing block numbers. -/
def succeeding : Machine PassedBars TimedCall where
  step s call := (call.nextNumber s.next).bind fun next =>
    (execTimed call s.tracked.bars).okState.bind fun _ =>
      (tracked.step s.tracked call).map fun t =>
        ⟨t, passedAfter s.tracked.bars s.passed call, next⟩

/-- An insert with a volume opens the bar of its bucket. Padding that becomes the beginning of a
bar clones a tick without volume. -/
def AddsNoVolume (bars : TimePriceBars) : TimedCall → Prop
  | .insertData n d bts _ =>
    (d.wethVolume = 0 ∨ bars.data.get? (fromTimestamp bts bars.resolution) = none ∧
      ∀ p ∈ bars.padding n bts, p.timestamp ≠ fromTimestamp bts bars.resolution) ∧
    ∀ p ∈ bars.padding n bts, p.bar.startBlockNumber.any (· ≤ p.lastBlockNumber) ∨
      p.tick.wethVolume = 0 ∧ p.bar.blockPriceBars.firstEntry.all fun first =>
        first.1 < n ∨ first.2.wethVolume = 0
  | .pruneToReorgedBlockNumber _ => True

instance (bars : TimePriceBars) (call : TimedCall) : Decidable (AddsNoVolume bars call) := by
  cases call with
  | insertData n d bts f => exact inferInstanceAs (Decidable ((_ ∨ _ ∧ _) ∧ _))
  | pruneToReorgedBlockNumber r => exact isTrue trivial

/-- The volume of the ticks passed for the blocks that the bar of a bucket holds. -/
def passedVolume (s : PassedBars) (key : Nat) : Nat :=
  ((s.tracked.held key).entries.map fun entry => s.passed key entry.1).sum

/-- Only the first of the blocks came in with a volume, which is that of its tick. -/
structure FirstOnly (passed : Nat → Nat) (ticks : OrdMap Nat TickData) : Prop where
  first : ∀ k tick, ticks.get? k = some tick →
    (∀ j t, ticks.get? j = some t → k ≤ j) → passed k = tick.wethVolume
  rest : ∀ j k t t', ticks.get? j = some t → ticks.get? k = some t' → j < k → passed k = 0

variable {passed passed' : Nat → Nat} {ticks ticks' : OrdMap Nat TickData}

theorem FirstOnly.sum (h : FirstOnly passed ticks) {v : Nat}
    (hv : ticks.values.head?.map TickData.wethVolume = some v) :
    (ticks.entries.map fun entry => passed entry.1).sum = v := by
  cases he : ticks.entries with
  | nil =>
    rw [OrdMap.values, he] at hv
    cases hv
  | cons entry rest =>
    have hsorted := ticks.sorted
    rw [he] at hsorted
    have habove := (List.pairwise_cons.mp hsorted).1
    have hfirst : ticks.get? entry.1 = some entry.2 :=
      OrdMap.get?_eq_some_iff.mpr (he ▸ List.mem_cons_self)
    have hrest : ∀ e ∈ rest, passed e.1 = 0 := fun e hm =>
      h.rest entry.1 e.1 _ _ hfirst
        (OrdMap.get?_eq_some_iff.mpr (he ▸ List.mem_cons_of_mem _ hm)) (habove e hm)
    have hmin : ∀ j t, ticks.get? j = some t → entry.1 ≤ j := by
      intro j t hj
      have hm := OrdMap.get?_eq_some_iff.mp hj
      rw [he] at hm
      rcases List.mem_cons.mp hm with rfl | hm
      · exact le_rfl
      · exact (habove _ hm).le
    have hzero : (rest.map fun e => passed e.1).sum = 0 := by
      apply List.sum_eq_zero_iff_forall_eq_nat.mpr
      intro x hx
      obtain ⟨e, hm, rfl⟩ := List.mem_map.mp hx
      exact hrest e hm
    rw [OrdMap.values, he] at hv
    rw [List.map_cons, List.sum_cons, hzero, h.first entry.1 entry.2 hfirst hmin, Nat.add_zero]
    exact Option.some.inj hv

theorem FirstOnly.congr (h : FirstOnly passed ticks)
    (hsame : ∀ k t, ticks.get? k = some t → passed' k = passed k) : FirstOnly passed' ticks := by
  constructor
  · intro k tick hk hmin
    rw [hsame k tick hk]
    exact h.first k tick hk hmin
  · intro j k t t' hj hk hlt
    rw [hsame k t' hk]
    exact h.rest j k t t' hj hk hlt

/-- What is left of the ticks below a block. -/
theorem FirstOnly.filterKeys (h : FirstOnly passed ticks) (r : Nat) :
    FirstOnly passed (ticks.filterKeys (· < r)) := by
  have hkept : ∀ k t, (ticks.filterKeys (· < r)).get? k = some t ↔ k < r ∧ ticks.get? k = some t := by
    intro k t
    rw [OrdMap.get?_filterKeys]
    by_cases hk : k < r
    · simp [hk]
    · simp [hk]
  constructor
  · intro k tick hk hmin
    obtain ⟨hlt, hk⟩ := (hkept k tick).mp hk
    refine h.first k tick hk fun j t hj => ?_
    by_cases hjr : j < r
    · exact hmin j t ((hkept j t).mpr ⟨hjr, hj⟩)
    · omega
  · intro j k t t' hj hk hlt
    exact h.rest j k t t' ((hkept j t).mp hj).2 ((hkept k t').mp hk).2 hlt

/-- Clones in the blocks between `b` and `n`, after a tick or without volume. -/
theorem FirstOnly.pad (h : FirstOnly passed ticks) {b n : Nat} {tick : TickData}
    (hnew : ∀ k, ticks'.get? k = if b < k ∧ k < n then some tick else ticks.get? k)
    (hpassed : ∀ k, passed' k = if b < k ∧ k < n then 0 else passed k)
    (hbegins : (∃ j t, ticks.get? j = some t ∧ j ≤ b) ∨
      tick.wethVolume = 0 ∧ ∀ j t, ticks.firstEntry = some (j, t) → j < n ∨ t.wethVolume = 0) :
    FirstOnly passed' ticks' := by
  have hold : ∀ {k : Nat}, ¬(b < k ∧ k < n) →
      ticks'.get? k = ticks.get? k ∧ passed' k = passed k := by
    intro k hk
    rw [hnew, hpassed, if_neg hk, if_neg hk]
    exact ⟨rfl, rfl⟩
  constructor
  · intro k t hk hmin
    by_cases hpad : b < k ∧ k < n
    · rw [hnew, if_pos hpad] at hk
      cases hk
      rw [hpassed, if_pos hpad]
      rcases hbegins with ⟨j, t, hj, hle⟩ | ⟨hzero, -⟩
      · have hkj := hmin j t ((hold (by omega)).1.trans hj)
        omega
      · exact hzero.symm
    · rw [(hold hpad).1] at hk
      rw [(hold hpad).2]
      refine h.first k t hk fun j t' hj => ?_
      by_cases hj' : b < j ∧ j < n
      · exact hmin j tick (by rw [hnew, if_pos hj'])
      · exact hmin j t' ((hold hj').1.trans hj)
  · intro j k t t' hj hk hlt
    by_cases hpad : b < k ∧ k < n
    · rw [hpassed, if_pos hpad]
    · rw [(hold hpad).1] at hk
      rw [(hold hpad).2]
      by_cases hj' : b < j ∧ j < n
      · rcases hbegins with ⟨i, u, hi, hle⟩ | ⟨-, hbelow⟩
        · exact h.rest i k u t' hi hk (by omega)
        · cases hfirst : ticks.firstEntry with
          | none =>
            rw [OrdMap.firstEntry_eq_none_iff.mp hfirst k] at hk
            cases hk
          | some entry =>
            obtain ⟨i, u⟩ := entry
            obtain ⟨hi, hmin⟩ := OrdMap.firstEntry_eq_some_iff.mp hfirst
            rcases (hmin k t' hk).lt_or_eq with hik | rfl
            · exact h.rest i k u t' hi hk hik
            · rw [h.first i u hi hmin]
              exact (hbelow i u hfirst).resolve_left (by omega)
      · exact h.rest j k t t' ((hold hj').1.symm.trans hj) hk hlt

/-- A tick after the others, without volume or the only one. -/
theorem FirstOnly.insert (h : FirstOnly passed ticks) {n : Nat} {d : TickData}
    (habove : ∀ j t, ticks.get? j = some t → j < n)
    (hnew : ∀ k, passed' k = if k = n then d.wethVolume else passed k)
    (hvolume : d.wethVolume = 0 ∨ ∀ j, ticks.get? j = none) :
    FirstOnly passed' (ticks.insert n d) := by
  have hold : ∀ {k : Nat} {t : TickData}, k ≠ n → (ticks.insert n d).get? k = some t →
      ticks.get? k = some t ∧ passed' k = passed k := by
    intro k t hk ht
    rw [OrdMap.get?_insert_ne hk] at ht
    exact ⟨ht, by rw [hnew, if_neg hk]⟩
  constructor
  · intro k t hk hmin
    by_cases hkn : k = n
    · subst hkn
      rw [OrdMap.get?_insert_self] at hk
      cases hk
      rw [hnew, if_pos rfl]
    · obtain ⟨hk, he⟩ := hold hkn hk
      rw [he]
      refine h.first k t hk fun j t' hj => hmin j t' ?_
      rw [OrdMap.get?_insert_ne (habove j t' hj).ne]
      exact hj
  · intro j k t t' hj hk hlt
    have hjn : j ≠ n := by
      rintro rfl
      have hkn := habove k t' (hold (by omega) hk).1
      omega
    by_cases hkn : k = n
    · subst hkn
      rw [hnew, if_pos rfl]
      rcases hvolume with hzero | hempty
      · exact hzero
      · have hj' := (hold hjn hj).1
        rw [hempty] at hj'
        cases hj'
    · obtain ⟨hk, he⟩ := hold hkn hk
      rw [he]
      exact h.rest j k t t' (hold hjn hj).1 hk hlt

/-! ### The calls -/

section Calls

variable {n bts next : Nat} {d : TickData} {f : Option Nat} {x paddedBars inserted : TimePriceBars}
  {padded : List Nat} {held : Nat → OrdMap Nat TickData} {passed : Nat → Nat → Nat}

theorem padding_eq_some {p : Padding} (h : x.padding n bts = some p) :
    (x.data.get? p.timestamp).getD (.pending .new) = .pending p.bar ∧
      padMissing n bts x = .ok [p.timestamp] { x with
        data := x.data.insert p.timestamp (.pending
          (p.bar.insertBlockPriceBarRange (paddedNumbers p.lastBlockNumber n) p.tick)) } := by
  obtain ⟨⟨b, tick⟩, hl, hp⟩ := Option.bind_eq_some_iff.mp h
  dsimp only at hp
  cases hbar : (x.data.get? (x.padTarget n bts b)).getD (.pending .new) with
  | finalized g =>
    rw [hbar] at hp
    cases hp
  | pending bar =>
    rw [hbar] at hp
    dsimp only at hp
    split at hp
    next hlt =>
      cases hp
      refine ⟨hbar, ?_⟩
      rcases padMissing_cases n bts x with ⟨-, hfinal⟩ | ⟨b', tick', bar', hl', -, hbar', he⟩
      · obtain ⟨g, hg⟩ := hfinal b tick hl hlt
        rw [hg] at hbar
        cases hbar
      · cases hl.symm.trans hl'
        cases hbar.symm.trans hbar'
        exact he
    next => cases hp

theorem padding_eq_none (h : x.padding n bts = none) : padMissing n bts x = .ok [] x := by
  rcases padMissing_cases n bts x with ⟨he, -⟩ | ⟨b, tick, bar, hl, hlt, hbar, -⟩
  · exact he
  · rw [padding, hl, Option.bind_some] at h
    dsimp only at h
    rw [hbar] at h
    dsimp only at h
    rw [if_pos hlt] at h
    cases h

/-- The volumes once the skipped blocks are padded. -/
def passedPadded (x : TimePriceBars) (passed : Nat → Nat → Nat) (n bts key k : Nat) : Nat :=
  if (x.padding n bts).any fun p => key = p.timestamp ∧ p.lastBlockNumber < k ∧ k < n then 0
  else passed key k

theorem passedPadded_of_none (h : x.padding n bts = none) (key k : Nat) :
    passedPadded x passed n bts key k = passed key k := by
  rw [passedPadded, h]
  rfl

theorem passedPadded_of_some {p : Padding} (h : x.padding n bts = some p) (key k : Nat) :
    passedPadded x passed n bts key k =
      if key = p.timestamp ∧ p.lastBlockNumber < k ∧ k < n then 0 else passed key k := by
  rw [passedPadded, h, Option.any_some]
  simp only [decide_eq_true_eq]

/-- In each bar only the first block came in with a volume. -/
def CarriesFirst (passed : Nat → Nat → Nat) (held : Nat → OrdMap Nat TickData) (key : Nat)
    (bar : TimePriceBar) : Prop :=
  FirstOnly (passed key) (bar.ticks (held key))

theorem carriesFirst_barRule (passed : Nat → Nat → Nat) (held : Nat → OrdMap Nat TickData) :
    BarRule (CarriesFirst passed held) where
  content := by
    intro key bar bar' hc h
    have hticks : bar'.ticks (held key) = bar.ticks (held key) := by
      cases bar with
      | pending p =>
        cases bar' with
        | pending p' =>
          injection hc with hc
          injection hc
        | finalized g' => cases hc
      | finalized g =>
        cases bar' with
        | pending p' => cases hc
        | finalized g' => rfl
    rw [CarriesFirst, hticks]
    exact h
  cut := by
    intro key r bar bar' hc h
    rcases TimePriceBar.cut_cases hc with rfl | ⟨p, s, e, rfl, -, -, -, -, rfl⟩
    · exact h
    · rw [CarriesFirst, TimePriceBar.ticks,
        PendingTimePriceBar.blockPriceBars_pruneToReorgedBlockNumber]
      exact FirstOnly.filterKeys h r

theorem firstOnly_empty (passed : Nat → Nat) : FirstOnly passed OrdMap.empty := by
  constructor
  · intro k tick hk
    cases hk
  · intro j k t t' hj
    cases hj

theorem CarriesFirst.getD (h : AllBars (CarriesFirst passed held) x) {key : Nat}
    {bar : PendingTimePriceBar} (hg : (x.data.get? key).getD (.pending .new) = .pending bar) :
    FirstOnly (passed key) bar.blockPriceBars := by
  rcases h.getD hg with rfl | hbar
  · exact firstOnly_empty _
  · exact hbar

/-- Padding with clones that may begin no bar unless they have no volume. -/
theorem CarriesFirst.padMissing (h : AllBars (CarriesFirst passed held) x)
    (hpad : ∀ p ∈ x.padding n bts, p.bar.startBlockNumber.any (· ≤ p.lastBlockNumber) ∨
      p.tick.wethVolume = 0 ∧ p.bar.blockPriceBars.firstEntry.all fun first =>
        first.1 < n ∨ first.2.wethVolume = 0)
    (hp : TimePriceBars.padMissing n bts x = .ok padded paddedBars) :
    AllBars (CarriesFirst (passedPadded x passed n bts) held) paddedBars := by
  cases hcase : x.padding n bts with
  | none =>
    rw [padding_eq_none hcase] at hp
    cases hp
    intro key bar hg
    exact (h key bar hg).congr fun k t _ => passedPadded_of_none hcase key k
  | some p =>
    obtain ⟨hbar, he⟩ := padding_eq_some hcase
    rw [he] at hp
    cases hp
    intro key bar hg
    rw [OrdMap.get?_insert] at hg
    split at hg
    next hkey =>
      cases hg
      subst hkey
      have hnew : ∀ k, (p.bar.insertBlockPriceBarRange (paddedNumbers p.lastBlockNumber n)
          p.tick).blockPriceBars.get? k =
            if p.lastBlockNumber < k ∧ k < n then some p.tick else p.bar.blockPriceBars.get? k :=
        fun k => (get?_foldl_insert _ _ _ k).trans (if_congr mem_paddedNumbers rfl rfl)
      have hpassed : ∀ k, passedPadded x passed n bts p.timestamp k =
          if p.lastBlockNumber < k ∧ k < n then 0 else passed p.timestamp k := by
        intro k
        rw [passedPadded_of_some hcase]
        exact if_congr (and_iff_right rfl) rfl rfl
      apply (CarriesFirst.getD h hbar).pad hnew hpassed
      rcases hpad p hcase with hstart | ⟨hzero, hfirst⟩
      · obtain ⟨s, hs, hle⟩ := (Option.any_eq_true _ _).mp hstart
        obtain ⟨t, ht⟩ := (PendingTimePriceBar.startBlockNumber_eq_some_iff.mp hs).1
        exact Or.inl ⟨s, t, ht, of_decide_eq_true hle⟩
      · refine Or.inr ⟨hzero, fun j t hj => ?_⟩
        rw [hj] at hfirst
        exact of_decide_eq_true hfirst
    next hkey =>
      refine (h key bar hg).congr fun k t _ => ?_
      rw [passedPadded_of_some hcase, if_neg fun hc => hkey hc.1]

/-- The new block joins its bar without volume, or it begins it. -/
theorem CarriesFirst.insertBlock {ts : Nat}
    (h : AllBars (CarriesFirst (passedPadded x passed n bts) held) paddedBars)
    (hts : ts = fromTimestamp bts x.resolution)
    (hvolume : d.wethVolume = 0 ∨ paddedBars.data.get? ts = none)
    (hi : TimePriceBars.insertBlock n d bts ts paddedBars = .ok () inserted) :
    AllBars (CarriesFirst (passedAfter x passed (.insertData n d bts f)) held) inserted := by
  obtain ⟨bar, hbar, hend, rfl⟩ := insertBlock_ok hi
  have hpassed : ∀ key k, passedAfter x passed (.insertData n d bts f) key k =
      if key = ts ∧ k = n then d.wethVolume else passedPadded x passed n bts key k := by
    intro key k
    rw [hts]
    rfl
  have habove : ∀ j t, bar.blockPriceBars.get? j = some t → j < n := by
    intro j t hj
    obtain ⟨s, e, -, he, -, hle⟩ := PendingTimePriceBar.exists_start_end ⟨t, hj⟩
    have hn := hend e he
    omega
  intro key bar' hg
  rw [OrdMap.get?_insert] at hg
  split at hg
  next hkey =>
    cases hg
    subst hkey
    refine (CarriesFirst.getD h hbar).insert habove (fun k => ?_) ?_
    · rw [hpassed]
      exact if_congr (and_iff_right rfl) rfl rfl
    · rcases hvolume with hzero | hnone
      · exact Or.inl hzero
      · rw [hnone] at hbar
        cases hbar
        exact Or.inr fun j => rfl
  next hkey =>
    refine (h key bar' hg).congr fun k t _ => ?_
    rw [hpassed, if_neg fun hc => hkey hc.1]

/-- A successful insert that adds no volume, up to its finalization. -/
theorem CarriesFirst.insertData (h : AllBars (CarriesFirst passed held) x)
    (hvolume : AddsNoVolume x (.insertData n d bts f)) {x' : TimePriceBars}
    (hok : TimePriceBars.insertData n d bts f x = .ok () x') :
    AllBars (CarriesFirst (passedAfter x passed (.insertData n d bts f)) held)
      (TimePriceBars.insertData n d bts none x).state := by
  obtain ⟨hopens, hpad⟩ := hvolume
  obtain ⟨padded, paddedBars, inserted, updated, hp, hi, hu, -⟩ := insertData_ok hok
  have hunfinalized : TimePriceBars.insertData n d bts none x = .ok () updated :=
    insertData_of_stages hp hi hu rfl
  have hpadded := CarriesFirst.padMissing h hpad hp
  have hopens' : d.wethVolume = 0 ∨
      paddedBars.data.get? (fromTimestamp bts x.resolution) = none := by
    rcases hopens with hzero | ⟨hnone, hother⟩
    · exact Or.inl hzero
    · right
      cases hcase : x.padding n bts with
      | none =>
        rw [padding_eq_none hcase] at hp
        cases hp
        exact hnone
      | some p =>
        rw [(padding_eq_some hcase).2] at hp
        cases hp
        exact (OrdMap.get?_insert_ne (hother p hcase).symm).trans hnone
  have hinserted := CarriesFirst.insertBlock (f := f) hpadded rfl hopens' hi
  rw [hunfinalized, EStateM.Result.state_ok]
  refine AllBars.of_sameContent (carriesFirst_barRule _ held)
    (updateTouched_ok_sameContent hu) fun key bar hg => ?_
  exact hinserted key bar (get?_of_pruneToRetentionCount hg)

end Calls

section Runs

variable {rc : Option Nat} {res : Resolution} {config : Option IndicatorsConfig}
  {cs : List TimedCall} {s s' : PassedBars} {call : TimedCall}

theorem succeeding_step (h : succeeding.step s call = some s') :
    tracked.step s.tracked call = some s'.tracked ∧
      (∃ bars, execTimed call s.tracked.bars = .ok () bars) ∧
      s'.passed = passedAfter s.tracked.bars s.passed call ∧
      call.nextNumber s.next = some s'.next := by
  obtain ⟨next, hnext, h⟩ := Option.bind_eq_some_iff.mp h
  obtain ⟨bars, hok, h⟩ := Option.bind_eq_some_iff.mp h
  obtain ⟨t, ht, rfl⟩ := Option.map_eq_some_iff.mp h
  exact ⟨ht, ⟨bars, EStateM.Result.okState_eq_some.mp hok⟩, rfl, hnext⟩

/-- One call that adds no volume. -/
theorem CarriesFirst.step (h : AllBars (CarriesFirst s.passed s.tracked.held) s.tracked.bars)
    (hvolume : AddsNoVolume s.tracked.bars call) (hstep : succeeding.step s call = some s') :
    AllBars (CarriesFirst s'.passed s'.tracked.held) s'.tracked.bars := by
  obtain ⟨htracked, ⟨bars, hok⟩, hpassed, -⟩ := succeeding_step hstep
  have hmid : AllBars (CarriesFirst s'.passed s.tracked.held)
      (execTimed call.unfinalized s.tracked.bars).state := by
    rw [hpassed]
    cases call with
    | insertData n d bts f => exact CarriesFirst.insertData h hvolume hok
    | pruneToReorgedBlockNumber r =>
      exact h.pruneToReorgedBlockNumber (carriesFirst_barRule s.passed s.tracked.held) r
  intro key bar' hg'
  obtain ⟨bar, hg, hticks⟩ := tracked_step_ticks htracked hg'
  have hbar := hmid key bar hg
  rw [CarriesFirst] at hbar ⊢
  rw [hticks]
  exact hbar

def PassedBars.new (retentionCount : Option Nat) (resolution : Resolution)
    (indicatorsConfig : Option IndicatorsConfig) : PassedBars :=
  ⟨TrackedBars.new retentionCount resolution indicatorsConfig, fun _ _ => 0, 0⟩

/-- A successful run is a run. -/
theorem tracked_of_succeeding (h : succeeding.run s cs = some s') :
    tracked.run s.tracked cs = some s'.tracked := by
  obtain ⟨t, hrun, rfl⟩ := Machine.run_simulated (R := fun s t => s.tracked = t)
    (P := fun _ _ _ => True)
    (fun s _ call s' hR hstep _ => ⟨s'.tracked, hR ▸ (succeeding_step hstep).1, rfl⟩)
    (Machine.along_of_forall fun _ _ _ _ => trivial) h rfl
  exact hrun

/-- The volume of a bar is the one that came in with its blocks, as long as no call adds a
volume to one that is there. -/
theorem succeeding_volume
    (hvolumes : succeeding.Along (fun s call _ => AddsNoVolume s.tracked.bars call)
      (PassedBars.new rc res config) cs)
    (hrun : succeeding.run (PassedBars.new rc res config) cs = some s) :
    ∀ key bar, s.tracked.bars.data.get? key = some bar →
      bar.data.map TickData.wethVolume = some (passedVolume s key) := by
  have hfirst : AllBars (CarriesFirst s.passed s.tracked.held) s.tracked.bars := by
    refine Machine.run_invariant_along
      (I := fun s => AllBars (CarriesFirst s.passed s.tracked.held) s.tracked.bars)
      (fun _ _ _ h hstep hvolume => CarriesFirst.step h hvolume hstep) hvolumes hrun ?_
    intro key bar hg
    cases hg
  have htracked := tracked_of_succeeding hrun
  have hagg := tracked_aggregatedOf (R := fun _ => True) (fun _ _ _ _ => trivial)
    (fun _ _ => trivial) htracked
  intro key bar hg
  obtain ⟨⟨agg, hdata⟩, -⟩ := hagg key bar hg
  have hheld := tracked_held htracked key bar hg
  have hvolume := hdata.volume
  rw [hheld] at hvolume
  have hcarries := hfirst key bar hg
  rw [CarriesFirst, hheld] at hcarries
  rw [hdata.data, passedVolume, hcarries.sum hvolume, Option.map_some]

/-- A tick with this volume. -/
def volumeTick (wethVolume : Nat) : TickData := ⟨.one, .one, .one, .one, wethVolume⟩

/-- A bar that opens with a volume, gets a padded block and is finalized, and a reorg of the
next one. -/
def openingVolumes : List TimedCall :=
  [.insertData 1 (volumeTick 5) 6000 none, .insertData 3 (volumeTick 0) 6004 none,
    .insertData 4 (volumeTick 7) 6300 (some 6000), .insertData 5 (volumeTick 0) 6302 none,
    .pruneToReorgedBlockNumber 4, .insertData 4 (volumeTick 2) 6300 none]

theorem succeeding_volume_openingVolumes : ∃ s,
    succeeding.run (PassedBars.new none .fiveMinutes (some .all)) openingVolumes = some s ∧
      ∀ key bar, s.tracked.bars.data.get? key = some bar →
        bar.data.map TickData.wethVolume = some (passedVolume s key) := by
  have hruns : (succeeding.run (PassedBars.new none .fiveMinutes (some .all))
      openingVolumes).isSome := by
    decide +kernel
  obtain ⟨s, hrun⟩ := Option.isSome_iff_exists.mp hruns
  exact ⟨s, hrun, succeeding_volume (by decide +kernel) hrun⟩

/-- The bar of two blocks keeps the volume of the first one. -/
theorem succeeding_loses_volume :
    ¬∀ (rc : Option Nat) (res : Resolution) (config : Option IndicatorsConfig)
      (cs : List TimedCall) (s : PassedBars),
      succeeding.run (PassedBars.new rc res config) cs = some s →
      ∀ key bar, s.tracked.bars.data.get? key = some bar →
        bar.data.map TickData.wethVolume = some (passedVolume s key) := by
  intro h
  have hruns : ((succeeding.run (PassedBars.new none .fiveMinutes (some .all))
      [.insertData 1 (volumeTick 1) 6000 none, .insertData 2 (volumeTick 2) 6002 none]).bind
        fun s => (s.tracked.bars.data.get? 6000).map fun bar =>
          (bar.data.map TickData.wethVolume, passedVolume s 6000)) = some (some 1, 3) := by
    decide +kernel
  obtain ⟨s, hrun, hbar⟩ := Option.bind_eq_some_iff.mp hruns
  obtain ⟨bar, hg, hpair⟩ := Option.map_eq_some_iff.mp hbar
  have hvolume := h none .fiveMinutes (some .all) _ s hrun 6000 bar hg
  rw [hvolume] at hpair
  have hone : passedVolume s 6000 = 1 := Option.some.inj (congrArg Prod.fst hpair)
  have hthree : passedVolume s 6000 = 3 := congrArg Prod.snd hpair
  omega

end Runs

end TimePriceBars

end Pochtecatl
