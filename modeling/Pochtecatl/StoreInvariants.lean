import Pochtecatl.InsertOutcomes
import Pochtecatl.PartialInserts

namespace Pochtecatl

namespace TimePriceBarStore

open ResolutionTimestamp TimePriceBars

/-- The bars of every pair satisfy `P`. The settings are those of new pairs. -/
structure Entries (rc : Nat) (res : Resolution) (P : TimePriceBars → Prop)
    (store : TimePriceBarStore) : Prop where
  retentionCount : store.retentionCount = rc
  resolution : store.resolution = res
  bars : ∀ a bars, store.timePriceBars.get? a = some bars → P bars

section Entries

variable {rc : Nat} {res : Resolution} {P Q : TimePriceBars → Prop} {store : TimePriceBarStore}

theorem Entries.imp (h : Entries rc res P store) (hpq : ∀ bars, P bars → Q bars) :
    Entries rc res Q store :=
  ⟨h.retentionCount, h.resolution, fun a bars hg => hpq bars (h.bars a bars hg)⟩

theorem Entries.filterKeys (h : Entries rc res P store) (p : Address → Bool) :
    Entries rc res P { store with timePriceBars := store.timePriceBars.filterKeys p } := by
  refine ⟨h.retentionCount, h.resolution, fun a bars hg => h.bars a bars ?_⟩
  simp only [OrdMap.get?_filterKeys] at hg
  split at hg
  next => exact hg
  next => cases hg

theorem Entries.withBars (h : Entries rc res P store) {context : Option Address} {a : Address}
    {bars : TimePriceBars} {method : TimePriceBarsM Unit} (hm : P (method bars).state) :
    Entries rc res P (withBars context a bars method store).state := by
  rw [withBars_state]
  refine ⟨h.retentionCount, h.resolution, fun b bars' hg => ?_⟩
  simp only [OrdMap.get?_insert] at hg
  split at hg
  next =>
    cases hg
    exact hm
  next => exact h.bars b bars' hg

theorem Entries.barsOf (h : Entries rc res P store)
    (hnew : P (.new (some rc) res (some .all))) (a : Address) : P (store.barsOf a) := by
  unfold TimePriceBarStore.barsOf
  cases hg : store.timePriceBars.get? a with
  | none =>
    rw [h.retentionCount, h.resolution]
    exact hnew
  | some bars => exact h.bars a bars hg

variable {n : Nat} {order : List Address}

theorem pruneIfReorged_keeps
    (hprune : ∀ bars, P bars → P (pruneToReorgedBlockNumber n bars).state) :
    EStateM.Keeps (Entries rc res P) (pruneIfReorged n order) := by
  have hone : ∀ a ∈ order, EStateM.Keeps (Entries rc res P) (pruneReorgedOne n a) := by
    intro a _ store h
    unfold pruneReorgedOne
    split
    next bars hg => exact h.withBars (hprune bars (h.bars a bars hg))
    next => exact h
  intro store h
  unfold pruneIfReorged
  split
  next =>
    exact (EStateM.Keeps.forM hone).bind
      (fun _ => EStateM.Keeps.modify fun store h => h.filterKeys _) store h
  next => exact h

theorem insertTicks_keeps {block : Block PairTicks} {f : Option Nat}
    (hnew : P (.new (some rc) res (some .all)))
    (hinsert : ∀ bars d, P bars →
      P (insertData block.blockNumber d block.blockTimestamp f bars).state) :
    EStateM.Keeps (Entries rc res P) (insertTicks block f order) := by
  refine EStateM.Keeps.forM fun a _ store h => ?_
  unfold insertTick
  split
  next pair _ => exact h.withBars (hinsert _ pair.tick (h.barsOf hnew a))
  next => exact h

theorem Entries.pruneStale (h : Entries rc res P store) (blockTimestamp : Nat) :
    Entries rc res P (store.pruneStale n blockTimestamp) := by
  unfold TimePriceBarStore.pruneStale
  split
  next =>
    split
    next =>
      have hf := h.filterKeys fun pairAddress =>
        !(store.timePriceBars.get? pairAddress).any fun bars =>
          bars.isStale (fromTimestamp blockTimestamp store.resolution)
      exact ⟨hf.retentionCount, hf.resolution, hf.bars⟩
    next => exact h
  next => exact ⟨h.retentionCount, h.resolution, h.bars⟩

end Entries

/-- The bars of a pair after any calls, with the settings that the store gave them. -/
structure Healthy (t₀ rc : Nat) (res : Resolution) (bars : TimePriceBars) : Prop where
  resolution : bars.resolution = res
  retentionCount : bars.retentionCount = some rc
  indicatorsConfig : bars.indicatorsConfig = some .all
  sound : SoundBars t₀ bars

section Healthy

variable {t₀ rc n bound : Nat} {res : Resolution} {bars : TimePriceBars}

theorem new_healthy (t₀ rc : Nat) (res : Resolution) :
    Healthy t₀ rc res (.new (some rc) res (some .all)) :=
  ⟨rfl, rfl, rfl, new_soundBars t₀ _ _ _⟩

theorem Healthy.pruneToReorgedBlockNumber (h : Healthy t₀ rc res bars) (n : Nat) :
    Healthy t₀ rc res (TimePriceBars.pruneToReorgedBlockNumber n bars).state := by
  have hs := pruneToReorgedBlockNumber_settings n bars
  exact ⟨hs.resolution.trans h.resolution, hs.retentionCount.trans h.retentionCount,
    hs.indicatorsConfig.trans h.indicatorsConfig, h.sound.pruneToReorgedBlockNumber n⟩

theorem Healthy.insertData (h : Healthy t₀ rc res bars) (n : Nat) (d : TickData) (f : Option Nat) :
    Healthy t₀ rc res (TimePriceBars.insertData n d (blockTime t₀ n) f bars).state := by
  have hs := insertData_settings n d (blockTime t₀ n) f bars
  exact ⟨hs.resolution.trans h.resolution, hs.retentionCount.trans h.retentionCount,
    hs.indicatorsConfig.trans h.indicatorsConfig, h.sound.insertData n d f⟩

/-- Healthy bars that end at or before the bucket. -/
def HealthyUpTo (t₀ rc : Nat) (res : Resolution) (bound : Nat) (bars : TimePriceBars) : Prop :=
  Healthy t₀ rc res bars ∧ KeysUpTo bound bars

theorem new_healthyUpTo (t₀ rc : Nat) (res : Resolution) (bound : Nat) :
    HealthyUpTo t₀ rc res bound (.new (some rc) res (some .all)) :=
  ⟨new_healthy t₀ rc res, fun _ _ hk => by cases hk⟩

theorem HealthyUpTo.mono (h : HealthyUpTo t₀ rc res bound bars) {bound' : Nat}
    (hle : bound ≤ bound') : HealthyUpTo t₀ rc res bound' bars :=
  ⟨h.1, fun key bar hk => (h.2 key bar hk).trans hle⟩

theorem HealthyUpTo.pruneToReorgedBlockNumber (h : HealthyUpTo t₀ rc res bound bars) (n : Nat) :
    HealthyUpTo t₀ rc res bound (TimePriceBars.pruneToReorgedBlockNumber n bars).state :=
  ⟨h.1.pruneToReorgedBlockNumber n, h.2.pruneToReorgedBlockNumber n⟩

theorem HealthyUpTo.insertData (h : HealthyUpTo t₀ rc res bound bars)
    (hn : blockBucket t₀ res n ≤ bound) (d : TickData) (f : Option Nat) :
    HealthyUpTo t₀ rc res bound
      (TimePriceBars.insertData n d (blockTime t₀ n) f bars).state :=
  ⟨h.1.insertData n d f, h.2.insertData (h.1.resolution ▸ hn) d f⟩

end Healthy

/-- The store after any calls. -/
def Sound (t₀ : Nat) (store : TimePriceBarStore) : Prop :=
  Entries store.retentionCount store.resolution
    (Healthy t₀ store.retentionCount store.resolution) store

/-- No pair is ahead of the last inserted block. -/
def NoneAhead (t₀ : Nat) (store : TimePriceBarStore) : Prop :=
  ∀ a bars, store.timePriceBars.get? a = some bars → ∃ last,
    store.lastInsertedBlockNumber = some last ∧
      KeysUpTo (blockBucket t₀ store.resolution last) bars

/-- Block `k` has timestamp `t₀ + 2k`. -/
def Timed (t₀ : Nat) (call : InsertBlock) : Prop :=
  call.block.blockTimestamp = blockTime t₀ call.block.blockNumber

instance (t₀ : Nat) (call : InsertBlock) : Decidable (Timed t₀ call) :=
  inferInstanceAs (Decidable (_ = _))

section Calls

variable {t₀ : Nat} {call : InsertBlock} {store store' : TimePriceBarStore}

theorem new_sound (t₀ : Nat) (res : Resolution) (rc : Nat) (isBacktest : Bool) :
    Sound t₀ (new res rc isBacktest) :=
  ⟨rfl, rfl, fun _ _ hg => by cases hg⟩

theorem new_noneAhead (t₀ : Nat) (res : Resolution) (rc : Nat) (isBacktest : Bool) :
    NoneAhead t₀ (new res rc isBacktest) := fun _ _ hg => by cases hg

theorem insert_keeps {rc : Nat} {res : Resolution} {P : TimePriceBars → Prop}
    (ht : Timed t₀ call) (hnew : P (.new (some rc) res (some .all)))
    (hprune : ∀ bars n, P bars → P (pruneToReorgedBlockNumber n bars).state)
    (hinsert : ∀ bars d f, P bars →
      P (insertData call.block.blockNumber d (blockTime t₀ call.block.blockNumber) f bars).state) :
    EStateM.Keeps (Entries rc res P) (insert call) := by
  intro store h
  rw [insert, insertBlock_eq_bind]
  refine EStateM.state_bind (pruneIfReorged_keeps (fun bars => hprune bars _) store h)
    fun _ => EStateM.Keeps.bind (insertTicks_keeps hnew fun bars d hb => ?_) fun _ =>
      EStateM.Keeps.bind (EStateM.Keeps.modify fun _ hs => hs.pruneStale _) fun _ =>
        EStateM.Keeps.modify fun _ hs => ⟨hs.retentionCount, hs.resolution, hs.bars⟩
  rw [show call.block.blockTimestamp = _ from ht]
  exact hinsert bars d _ hb

/-- The store stays sound whatever a call returns. -/
theorem Sound.insert (h : Sound t₀ store) (ht : Timed t₀ call) :
    Sound t₀ (insert call store).state := by
  have hkept := insert_keeps ht (new_healthy t₀ store.retentionCount store.resolution)
    (fun bars n hb => hb.pruneToReorgedBlockNumber n)
    (fun bars d f hb => hb.insertData call.block.blockNumber d f) store h
  rw [Sound, hkept.retentionCount, hkept.resolution]
  exact hkept

/-- After the reorg pruning no pair is ahead of the block. -/
theorem NoneAhead.pruneIfReorged {n : Nat} {order : List Address} (hs : Sound t₀ store)
    (h : NoneAhead t₀ store) (ho : store.timePriceBars.IterOrder order)
    (hok : pruneIfReorged n order store = .ok () store') :
    Entries store.retentionCount store.resolution
      (HealthyUpTo t₀ store.retentionCount store.resolution
        (blockBucket t₀ store.resolution n)) store' := by
  have hhealthy := @pruneIfReorged_keeps store.retentionCount store.resolution _ n order
    (fun bars (hb : Healthy t₀ _ _ bars) => hb.pruneToReorgedBlockNumber n) store hs
  rw [hok] at hhealthy
  obtain ⟨-, hsame, hreorged⟩ := pruneIfReorged_ok ho hok
  refine ⟨hhealthy.retentionCount, hhealthy.resolution, fun a bars' hg =>
    ⟨hhealthy.bars a bars' hg, ?_⟩⟩
  by_cases hr : store.IsReorg n
  · cases hg₀ : store.timePriceBars.get? a with
    | none =>
      rw [(hreorged hr a).2 hg₀] at hg
      cases hg
    | some bars =>
      obtain ⟨pruned, hprune, hpruned⟩ := (hreorged hr a).1 bars hg₀
      rw [hpruned] at hg
      split at hg
      next => cases hg
      next =>
        cases hg
        have hb := hs.bars a bars hg₀
        have hkeys := hb.sound.keysUpTo_of_pruneToReorgedBlockNumber hprune
        rwa [hb.resolution] at hkeys
  · rw [hsame hr] at hg
    obtain ⟨last, hlast, hkeys⟩ := h a bars' hg
    have hlt : last < n := Nat.lt_of_not_le fun hle => hr ⟨last, hlast, hle⟩
    exact fun key bar hk => (hkeys key bar hk).trans (blockBucket_mono hlt.le)

/-- When the sweep runs no pair is ahead of the block. -/
theorem NoneAhead.insertTicks {inserted pruned : TimePriceBarStore} (hs : Sound t₀ store)
    (h : NoneAhead t₀ store) (ht : Timed t₀ call)
    (ho : store.timePriceBars.IterOrder call.storeOrder)
    (hprune : TimePriceBarStore.pruneIfReorged call.block.blockNumber call.storeOrder store =
      .ok () pruned)
    {f : Option Nat}
    (hinsert : TimePriceBarStore.insertTicks call.block f call.blockOrder pruned =
      .ok () inserted) :
    Entries store.retentionCount store.resolution
      (HealthyUpTo t₀ store.retentionCount store.resolution
        (blockBucket t₀ store.resolution call.block.blockNumber)) inserted := by
  have hinserts : ∀ bars d, HealthyUpTo t₀ store.retentionCount store.resolution
      (blockBucket t₀ store.resolution call.block.blockNumber) bars →
      HealthyUpTo t₀ store.retentionCount store.resolution
        (blockBucket t₀ store.resolution call.block.blockNumber)
        (insertData call.block.blockNumber d call.block.blockTimestamp f bars).state := by
    intro bars d hb
    rw [show call.block.blockTimestamp = _ from ht]
    exact hb.insertData le_rfl d f
  have hkept := @insertTicks_keeps _ _ _ call.blockOrder call.block f
    (new_healthyUpTo t₀ _ _ _) hinserts pruned (h.pruneIfReorged hs ho hprune)
  rwa [hinsert] at hkept

theorem NoneAhead.insert_ok (hs : Sound t₀ store) (h : NoneAhead t₀ store) (ht : Timed t₀ call)
    (hadmits : store.Admits call) (hok : insert call store = .ok () store') :
    NoneAhead t₀ store' := by
  obtain ⟨pruned, inserted, hprune, hinsert, rfl⟩ := insertBlock_ok hok
  have hkept := @Entries.pruneStale _ _ _ _ call.block.blockNumber
    (h.insertTicks hs ht hadmits.1 hprune hinsert) call.block.blockTimestamp
  intro a bars hg
  refine ⟨call.block.blockNumber, rfl, ?_⟩
  rw [show (TimePriceBarStore.mk _ _ _ _ _ _).resolution = _ from hkept.resolution]
  exact (hkept.bars a bars hg).2

theorem NoneAhead.entries {last : Nat} (hs : Sound t₀ store) (h : NoneAhead t₀ store)
    (hl : store.lastInsertedBlockNumber = some last) :
    Entries store.retentionCount store.resolution
      (HealthyUpTo t₀ store.retentionCount store.resolution
        (blockBucket t₀ store.resolution last)) store := by
  refine ⟨rfl, rfl, fun a bars hg => ⟨hs.bars a bars hg, ?_⟩⟩
  obtain ⟨last', hl', hkeys⟩ := h a bars hg
  rw [hl] at hl'
  cases hl'
  exact hkeys

theorem NoneAhead.of_entries {rc last : Nat} {res : Resolution}
    (h : Entries rc res (HealthyUpTo t₀ rc res (blockBucket t₀ res last)) store)
    (hl : store.lastInsertedBlockNumber = some last) : NoneAhead t₀ store := by
  intro a bars hg
  refine ⟨last, hl, ?_⟩
  rw [h.resolution]
  exact (h.bars a bars hg).2

/-- An insertion fails in the bucket of the last block or in an earlier one. -/
theorem NoneAhead.blockBucket_le {a : Address} {block : Block PairTicks} {f : Option Nat}
    {e : TimePriceBarsError} {bars : TimePriceBars} (hs : Sound t₀ store)
    (h : NoneAhead t₀ store) (ht : block.blockTimestamp = blockTime t₀ block.blockNumber)
    (hrc : 2 ≤ store.retentionCount)
    (herr : store.InsertCall block f a (.error (.err e) bars)) :
    ∃ last, store.lastInsertedBlockNumber = some last ∧
      blockBucket t₀ store.resolution block.blockNumber ≤ blockBucket t₀ store.resolution last := by
  by_contra hno
  obtain ⟨pair, -, herr⟩ := herr
  have hb : Healthy t₀ store.retentionCount store.resolution (store.barsOf a) :=
    hs.barsOf (new_healthy t₀ _ _) a
  rw [ht] at herr
  refine hb.sound.insertData_ne_err (fun key bar hk => ?_) (fun c hc => ?_) e bars herr
  · rw [hb.resolution]
    unfold TimePriceBarStore.barsOf at hk
    cases hg : store.timePriceBars.get? a with
    | none =>
      rw [hg] at hk
      cases hk
    | some bars₀ =>
      rw [hg] at hk
      obtain ⟨last, hl, hkeys⟩ := h a bars₀ hg
      have hlt : blockBucket t₀ store.resolution last <
          blockBucket t₀ store.resolution block.blockNumber :=
        Nat.lt_of_not_le fun hle => hno ⟨last, hl, hle⟩
      exact (hkeys key bar hk).trans_lt hlt
  · rw [hb.retentionCount] at hc
    cases hc
    exact hrc

/-- With two retained bars or more, a call that fails leaves no pair ahead either. -/
theorem NoneAhead.insert_error {context : Option Address} {e : TimePriceBarsError}
    (hs : Sound t₀ store) (h : NoneAhead t₀ store) (ht : Timed t₀ call)
    (hadmits : store.Admits call) (hrc : 2 ≤ store.retentionCount)
    (herr : insert call store = .error ⟨context, .err e⟩ store') : NoneAhead t₀ store' := by
  rcases insertBlock_eq_error herr with hprune | ⟨pruned, hprune, hinsert⟩
  · obtain ⟨⟨last, hl, -⟩, -⟩ := pruneIfReorged_eq_error hprune
    have hkept := @pruneIfReorged_keeps store.retentionCount store.resolution _
      call.block.blockNumber call.storeOrder
      (fun bars (hb : HealthyUpTo t₀ _ _ _ bars) => hb.pruneToReorgedBlockNumber _) store
      (h.entries hs hl)
    rw [hprune] at hkept
    refine NoneAhead.of_entries hkept ?_
    rw [(pruneIfReorged_stoppedAt hadmits.1 hprune).1]
    exact hl
  · obtain ⟨hfields, hsame, -⟩ := pruneIfReorged_ok hadmits.1 hprune
    obtain ⟨hfields', done, a, rest, -, hstopped⟩ := insertTicks_stoppedAt hadmits.2 hinsert
    obtain ⟨bars, hfailed, -⟩ := hstopped.stopped
    -- the block lies in the bucket of the last one, or in an earlier one
    obtain ⟨last, hl, hle⟩ : ∃ last, store.lastInsertedBlockNumber = some last ∧
        blockBucket t₀ store.resolution call.block.blockNumber ≤
          blockBucket t₀ store.resolution last := by
      by_cases hr : store.IsReorg call.block.blockNumber
      · obtain ⟨last, hl, hle⟩ := hr
        exact ⟨last, hl, blockBucket_mono hle⟩
      · rw [hsame hr] at hfailed
        exact h.blockBucket_le hs ht hrc hfailed
    have hpruned := (h.pruneIfReorged hs hadmits.1 hprune).imp fun _ hb => hb.mono hle
    have hinserts : ∀ bars d, HealthyUpTo t₀ store.retentionCount store.resolution
        (blockBucket t₀ store.resolution last) bars →
        HealthyUpTo t₀ store.retentionCount store.resolution
          (blockBucket t₀ store.resolution last)
          (insertData call.block.blockNumber d call.block.blockTimestamp
            (store.finalizedTimestamp call.block.blockTimestamp call.finalizedBlockHeader)
            bars).state := by
      intro bars d hb
      rw [show call.block.blockTimestamp = _ from ht]
      exact hb.insertData hle d _
    have hkept := @insertTicks_keeps _ _ _ call.blockOrder call.block _
      (new_healthyUpTo t₀ _ _ _) hinserts pruned hpruned
    rw [hinsert] at hkept
    refine NoneAhead.of_entries hkept ?_
    rw [hfields', hfields]
    exact hl

end Calls

end TimePriceBarStore

end Pochtecatl
