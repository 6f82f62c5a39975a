import Pochtecatl.PaddedContent

namespace Pochtecatl

namespace TimePriceBars

open ResolutionTimestamp

theorem stores_insert {bars : TimePriceBars} {key key' k : Nat} {bar : TimePriceBar} :
    Stores { bars with data := bars.data.insert key bar } key' k ↔
      if key' = key then bar.Holds k else bars.Stores key' k := by
  simp only [Stores, OrdMap.get?_insert]
  split
  next => simp only [Option.some.injEq, exists_eq_left']
  next => rfl

/-- What a bucket stores is what the bar to be filled holds. -/
theorem stores_iff_of_getD {bars : TimePriceBars} {key k : Nat} {p : PendingTimePriceBar}
    (h : (bars.data.get? key).getD (.pending .new) = .pending p) :
    bars.Stores key k ↔ (TimePriceBar.pending p).Holds k := by
  unfold Stores
  cases hg : bars.data.get? key with
  | none =>
    rw [hg] at h
    cases h
    simp
  | some bar =>
    rw [hg] at h
    rw [show bar = .pending p from h]
    simp only [Option.some.injEq, exists_eq_left']

/-- No block is missing between stored ones. -/
def Gapless (bars : TimePriceBars) : Prop :=
  ∀ key key' i j k, bars.Stores key i → bars.Stores key' j → i ≤ k → k ≤ j →
    ∃ key'', bars.Stores key'' k

/-- The stored blocks form an interval, cut into bars in the order of their keys. -/
structure Linked (bars : TimePriceBars) : Prop where
  inOrder : bars.InOrder
  gapless : bars.Gapless

variable {t₀ n r : Nat} {x y x' : TimePriceBars}

theorem Linked.of_stores_iff (h : Linked x) (hs : ∀ key k, y.Stores key k ↔ x.Stores key k) :
    Linked y := by
  refine ⟨fun key key' k k' hlt hk hk' => ?_, fun key key' i j k hi hj hik hkj => ?_⟩
  · exact h.inOrder key key' k k' hlt ((hs key k).mp hk) ((hs key' k').mp hk')
  · obtain ⟨key'', hk⟩ := h.gapless key key' i j k ((hs key i).mp hi) ((hs key' j).mp hj) hik hkj
    exact ⟨key'', (hs key'' k).mpr hk⟩

/-- A bar holds every block between two that it holds. -/
theorem Linked.convex (h : Linked x) {key i j k : Nat} (hi : x.Stores key i)
    (hj : x.Stores key j) (hik : i ≤ k) (hkj : k ≤ j) : x.Stores key k := by
  obtain ⟨key', hk⟩ := h.gapless key key i j k hi hj hik hkj
  have hlow : ¬key' < key := fun hlt => by
    have := h.inOrder key' key k i hlt hk hi
    omega
  have hhigh : ¬key < key' := fun hlt => by
    have := h.inOrder key key' j k hlt hj hk
    omega
  obtain rfl : key' = key := by omega
  exact hk

/-- Dropping the lowest bars, or the highest blocks, leaves linked bars. -/
theorem Linked.filter {p : Nat → Nat → Prop} (h : Linked x)
    (hs : ∀ key k, y.Stores key k ↔ x.Stores key k ∧ p key k)
    (hp : ∀ key key' key'' i j k, p key i → p key' j → x.Stores key i → x.Stores key' j →
      x.Stores key'' k → i ≤ k → k ≤ j → p key'' k) : Linked y := by
  refine ⟨fun key key' k k' hlt hk hk' => ?_, fun key key' i j k hi hj hik hkj => ?_⟩
  · exact h.inOrder key key' k k' hlt ((hs key k).mp hk).1 ((hs key' k').mp hk').1
  · obtain ⟨hi, hpi⟩ := (hs key i).mp hi
    obtain ⟨hj, hpj⟩ := (hs key' j).mp hj
    obtain ⟨key'', hk⟩ := h.gapless key key' i j k hi hj hik hkj
    exact ⟨key'', (hs key'' k).mpr ⟨hk, hp key key' key'' i j k hpi hpj hi hj hk hik hkj⟩⟩

/-- Blocks that follow the highest one may be added to the last bar or above it. -/
theorem Linked.extend (h : Linked x) {target low high : Nat}
    (hs : ∀ key k, y.Stores key k ↔ x.Stores key k ∨ key = target ∧ low ≤ k ∧ k < high)
    (hle : ∀ key k, x.Stores key k → key ≤ target ∧ k < low)
    (hjoin : (∃ key j, x.Stores key j ∧ j + 1 = low) ∨ ∀ key k, ¬x.Stores key k) :
    Linked y := by
  refine ⟨fun key key' k k' hlt hk hk' => ?_, fun key key' i j k hi hj hik hkj => ?_⟩
  · rcases (hs key k).mp hk with hk | ⟨rfl, -, -⟩
    · rcases (hs key' k').mp hk' with hk' | ⟨-, hlow, -⟩
      · exact h.inOrder key key' k k' hlt hk hk'
      · have := (hle key k hk).2
        omega
    · rcases (hs key' k').mp hk' with hk' | ⟨rfl, -, -⟩
      · have := (hle key' k' hk').1
        omega
      · omega
  · by_cases hlow : low ≤ k
    · rcases (hs key' j).mp hj with hj | ⟨rfl, -, hhigh⟩
      · have := (hle key' j hj).2
        omega
      · exact ⟨key', (hs key' k).mpr (Or.inr ⟨rfl, hlow, by omega⟩)⟩
    · rcases (hs key i).mp hi with hi | ⟨-, hlow', -⟩
      · rcases hjoin with ⟨topKey, top, htop, heq⟩ | hnone
        · obtain ⟨key'', hk⟩ := h.gapless key topKey i top k hi htop hik (by omega)
          exact ⟨key'', (hs key'' k).mpr (Or.inl hk)⟩
        · exact absurd hi (hnone key i)
      · omega

/-- Without a last block there is no block at all. -/
theorem not_stores_of_lastBlock_eq_none
    (hne : ∀ key bar, x.data.get? key = some bar → ∃ k, bar.Holds k) (hl : x.lastBlock = none)
    (key k : Nat) : ¬x.Stores key k := by
  rintro ⟨bar, hget, -⟩
  cases hlast : x.data.lastEntry with
  | none =>
    rw [OrdMap.lastEntry_eq_none_iff.mp hlast key] at hget
    cases hget
  | some last =>
    obtain ⟨lastKey, lastBar⟩ := last
    obtain ⟨b, tick, hb, -⟩ := exists_lastBlock hlast
      (hne lastKey lastBar (OrdMap.lastEntry_eq_some_iff.mp hlast).1)
    rw [hl] at hb
    cases hb

/-- The bars that a run of increasing inserts and legitimate reorgs holds. No bucket from
that of the highest block on is finalized, every finalized one is. -/
structure Chained (t₀ next : Nat) (bars : TimePriceBars) : Prop where
  bar : AllBars (SoundBar t₀ bars.resolution bars.lastFinalizedTimestamp) bars
  settled : ∀ key bar, bars.data.get? key = some bar →
    Reached bars.lastFinalizedTimestamp key → bar.isFinalized
  frontier : ∀ last, bars.lastFinalizedTimestamp = some last → bars.resolution.offset ∣ last
  linked : Linked bars
  below : AllBelow next bars
  ahead : ∀ k, next ≤ k → ¬Reached bars.lastFinalizedTimestamp (blockBucket t₀ bars.resolution k)
  tip : ∀ b, bars.HighestStored b →
    ¬Reached bars.lastFinalizedTimestamp (blockBucket t₀ bars.resolution b)

variable {next : Nat}

theorem new_chained (t₀ : Nat) (rc : Option Nat) (res : Resolution)
    (config : Option IndicatorsConfig) : Chained t₀ 0 (.new rc res config) := by
  have hempty : ∀ key k, ¬Stores (.new rc res config) key k := by
    intro key k hk
    obtain ⟨bar, hget, -⟩ := hk
    cases hget
  refine ⟨fun key bar hk => ?_, fun key bar hk => ?_, fun last h => ?_,
    ⟨fun key key' k k' _ hk => ?_, fun key key' i j k hi => ?_⟩, fun key bar hk => ?_,
    fun k _ h => ?_, fun b hb => ?_⟩
  · cases hk
  · cases hk
  · cases h
  · exact absurd hk (hempty key k)
  · exact absurd hi (hempty key i)
  · cases hk
  · obtain ⟨f, hf, -⟩ := h
    cases hf
  · exact absurd hb.1.choose_spec (hempty _ b)

theorem Chained.notEarly (h : Chained t₀ next x) : AllBars (NotEarly t₀ x.resolution) x :=
  fun key bar hk => (h.bar key bar hk).early

theorem Chained.nonempty (h : Chained t₀ next x) :
    ∀ key bar, x.data.get? key = some bar → ∃ k, bar.Holds k :=
  fun key bar hk => (h.notEarly key bar hk).1

theorem Chained.lastBlock_lt (h : Chained t₀ next x) {b : Nat} {tick : TickData}
    (hl : x.lastBlock = some (b, tick)) : b < next :=
  h.below.lastBlock_lt h.nonempty hl

theorem Chained.key_le (h : Chained t₀ next x) {b : Nat} {tick : TickData}
    (hl : x.lastBlock = some (b, tick)) {key : Nat} {bar : TimePriceBar}
    (hk : x.data.get? key = some bar) : key ≤ blockBucket t₀ x.resolution b := by
  obtain ⟨b', tick', hl', hle⟩ := key_le_lastBlock h.notEarly hk
  rw [hl] at hl'
  cases hl'
  exact hle

/-- A bar that finalization has not got to takes blocks. -/
theorem Chained.exists_pending (h : Chained t₀ next x) {key : Nat}
    (hr : ¬Reached x.lastFinalizedTimestamp key) :
    ∃ p, (x.data.get? key).getD (.pending .new) = .pending p := by
  cases hg : x.data.get? key with
  | none => exact ⟨.new, rfl⟩
  | some bar =>
    cases bar with
    | pending p => exact ⟨p, rfl⟩
    | finalized f => exact absurd ((h.bar key _ hg).final rfl) hr

end TimePriceBars

end Pochtecatl
