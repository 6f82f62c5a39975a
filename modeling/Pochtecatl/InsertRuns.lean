import Pochtecatl.PaddingAttribution
import Pochtecatl.SettledAhead

namespace Pochtecatl

/-- The arguments of an insert. -/
structure BlockInsert where
  blockNumber : Nat
  data : TickData
  finalizedTimestamp : Option Nat

namespace BlockInsert

/-- Some of the inserts finalizes the bucket. -/
def Passed (l : List BlockInsert) (key : Nat) : Prop :=
  ∃ b ∈ l, TimePriceBars.Reached b.finalizedTimestamp key

def mapFinalized (g : Option Nat → Option Nat) (b : BlockInsert) : BlockInsert :=
  { b with finalizedTimestamp := g b.finalizedTimestamp }

end BlockInsert

namespace TimePriceBars

open ResolutionTimestamp BlockInsert

/-- Inserts one block after the other, as long as each returns `Ok`. -/
def insertAll (t₀ : Nat) : List BlockInsert → TimePriceBarsM Unit
  | [] => pure ()
  | b :: l => do
    insertData b.blockNumber b.data (blockTime t₀ b.blockNumber) b.finalizedTimestamp
    insertAll t₀ l

variable {t₀ : Nat} {x y x' y' : TimePriceBars}

theorem insertAll_cons_ok {b : BlockInsert} {l : List BlockInsert}
    (h : insertAll t₀ (b :: l) x = .ok () x') :
    ∃ s, insertData b.blockNumber b.data (blockTime t₀ b.blockNumber) b.finalizedTimestamp x =
      .ok () s ∧ insertAll t₀ l s = .ok () x' := by
  obtain ⟨u, s, hs, hrest⟩ := EStateM.bind_eq_ok.mp h
  exact ⟨s, hs, hrest⟩

theorem insertAll_cons_of_ok {b : BlockInsert} {l : List BlockInsert} {s : TimePriceBars}
    (hs : insertData b.blockNumber b.data (blockTime t₀ b.blockNumber) b.finalizedTimestamp x =
      .ok () s) : insertAll t₀ (b :: l) x = insertAll t₀ l s := by
  rw [insertAll, EStateM.bind_of_ok hs]

theorem insertAll_settings {l : List BlockInsert} (h : insertAll t₀ l x = .ok () x') :
    SameSettings x x' := by
  induction l generalizing x with
  | nil =>
    cases h
    exact ⟨rfl, rfl, rfl⟩
  | cons b l ih =>
    obtain ⟨s, hs, hrest⟩ := insertAll_cons_ok h
    exact (insertData_ok_settings hs).trans (ih hrest)

/-- The frontier of a run is the highest bucket that its inserts finalize. -/
theorem insertAll_reached {l : List BlockInsert} (h : insertAll t₀ l x = .ok () x') (key : Nat) :
    Reached x'.lastFinalizedTimestamp key ↔
      Reached x.lastFinalizedTimestamp key ∨ Passed l key := by
  induction l generalizing x with
  | nil =>
    cases h
    simp [Passed]
  | cons b l ih =>
    obtain ⟨s, hs, hrest⟩ := insertAll_cons_ok h
    obtain ⟨-, -, -, -, -, hfrontier, -⟩ := insertData_ok_contentAt hs
    rw [ih hrest, hfrontier, reached_frontierAfter, or_assoc]
    simp [Passed]

/-- The bars hold blocks in the order of their buckets. -/
def InOrder (bars : TimePriceBars) : Prop :=
  ∀ key key' k k', key < key' → bars.Stores key k → bars.Stores key' k' → k < k'

/-- The last inserted block is the last one stored, in its own bucket, and the bars hold
blocks in the order of their buckets. -/
structure Tip (t₀ : Nat) (tip : Option Nat) (bars : TimePriceBars) : Prop where
  below : ∀ key k, bars.Stores key k → ∃ n, tip = some n ∧ k ≤ n
  stored : ∀ n, tip = some n → bars.Stores (blockBucket t₀ bars.resolution n) n
  ordered : ∀ key key' k k', key < key' → bars.Stores key k → bars.Stores key' k' → k < k'

theorem new_tip (t₀ : Nat) (rc : Option Nat) (res : Resolution)
    (config : Option IndicatorsConfig) : Tip t₀ none (.new rc res config) where
  below := fun _ _ ⟨_, hg, _⟩ => by cases hg
  stored := fun _ h => by cases h
  ordered := fun _ _ _ _ _ ⟨_, hg, _⟩ => by cases hg

theorem Tip.allBelow {tip : Option Nat} (h : Tip t₀ tip x) {n : Nat}
    (hlt : ∀ b, tip = some b → b < n) : AllBelow n x := by
  intro key bar hg k hk
  obtain ⟨b, hb, hle⟩ := h.below key k ⟨bar, hg, hk⟩
  exact hle.trans_lt (hlt b hb)

/-- The bar that holds the last block in its own bucket is the last bar. -/
theorem lastEntry_of_stored {n : Nat} (hs : Sound t₀ x)
    (hbelow : ∀ key k, x.Stores key k → k ≤ n)
    (hstored : x.Stores (blockBucket t₀ x.resolution n) n) :
    ∃ bar, x.data.lastEntry = some (blockBucket t₀ x.resolution n, bar) ∧ bar.Holds n := by
  obtain ⟨bar, hg, hh⟩ := hstored
  refine ⟨bar, OrdMap.lastEntry_eq_some_iff.mpr ⟨hg, fun key bar' hk => ?_⟩, hh⟩
  obtain ⟨⟨k, hk'⟩, hearly⟩ := hs.notEarly key bar' hk
  exact (hearly k hk').trans (blockBucket_mono (hbelow key k ⟨bar', hk, hk'⟩))

theorem lastBlock_of_stored {n : Nat} (hs : Sound t₀ x)
    (hbelow : ∀ key k, x.Stores key k → k ≤ n)
    (hstored : x.Stores (blockBucket t₀ x.resolution n) n) :
    ∃ tick, x.lastBlock = some (n, tick) := by
  obtain ⟨bar, hl, hh⟩ := lastEntry_of_stored hs hbelow hstored
  obtain ⟨b, tick, hb, hhb, hmax⟩ := exists_lastBlock hl ⟨n, hh⟩
  have hle := hbelow _ b ⟨bar, (OrdMap.lastEntry_eq_some_iff.mp hl).1, hhb⟩
  obtain rfl : b = n := le_antisymm hle (hmax n hh)
  exact ⟨tick, hb⟩

theorem Tip.le {n : Nat} (h : Tip t₀ (some n) x) {key k : Nat} (hk : x.Stores key k) : k ≤ n := by
  obtain ⟨b, hb, hle⟩ := h.below key k hk
  cases hb
  exact hle

theorem Tip.lastEntry {n : Nat} (h : Tip t₀ (some n) x) (hs : Sound t₀ x) :
    ∃ bar, x.data.lastEntry = some (blockBucket t₀ x.resolution n, bar) ∧ bar.Holds n :=
  lastEntry_of_stored hs (fun _ _ => h.le) (h.stored n rfl)

theorem Tip.lastBlock {n : Nat} (h : Tip t₀ (some n) x) (hs : Sound t₀ x) :
    ∃ tick, x.lastBlock = some (n, tick) :=
  lastBlock_of_stored hs (fun _ _ => h.le) (h.stored n rfl)

theorem Tip.lastEntry_of_none (h : Tip t₀ none x) (hs : Sound t₀ x) :
    x.data.lastEntry = none := by
  refine OrdMap.lastEntry_eq_none_iff.mpr fun key => ?_
  refine Option.eq_none_iff_forall_ne_some.mpr fun bar hk => ?_
  obtain ⟨k, hh⟩ := (hs.notEarly key bar hk).1
  obtain ⟨n, hn, -⟩ := h.below key k ⟨bar, hk, hh⟩
  cases hn

theorem stores_of_insertData {n : Nat} {d : TickData} {f : Option Nat}
    (hretention : x.retentionCount = none)
    (hok : insertData n d (blockTime t₀ n) f x = .ok () x') :
    x'.Stores (blockBucket t₀ x.resolution n) n ∧
      ∀ key k, x.Stores key k → x'.Stores key k := by
  obtain ⟨padded, paddedBars, inserted, hp, hi, -, hc⟩ := insertData_ok_contentAt hok
  change insertBlock n d _ (blockBucket t₀ x.resolution n) paddedBars = _ at hi
  obtain ⟨bar, hbar, -, rfl⟩ := insertBlock_ok hi
  have hkeep : paddedBars.retentionCount = none := by
    rw [padMissing_fields hp]
    exact hretention
  have hpadded : ∀ key k, x.Stores key k → paddedBars.Stores key k := by
    rintro key k ⟨b, hg, hk⟩
    rcases padMissing_cases n (blockTime t₀ n) x with ⟨he, -⟩ | ⟨b', tick, padBar, -, -, hpad, he⟩
    · rw [he] at hp
      cases hp
      exact ⟨b, hg, hk⟩
    · rw [he] at hp
      cases hp
      by_cases hkey : key = x.padTarget n (blockTime t₀ n) b'
      · subst hkey
        rw [hg] at hpad
        refine ⟨_, OrdMap.get?_insert_self _ _ _,
          PendingTimePriceBar.holds_insertBlockPriceBarRange.mpr (Or.inr ?_)⟩
        exact (show b = .pending padBar from hpad) ▸ hk
      · exact ⟨b, (OrdMap.get?_insert_ne hkey).trans hg, hk⟩
  have hinserted : ∀ key, (∃ b, (paddedBars.data.insert (blockBucket t₀ x.resolution n)
      (.pending (bar.insertBlockPriceBar n d))).get? key = some b ∧ ∀ k, b.Holds k →
        x'.Stores key k) ∨ (paddedBars.data.insert (blockBucket t₀ x.resolution n)
      (.pending (bar.insertBlockPriceBar n d))).get? key = none := by
    intro key
    cases hg : (paddedBars.data.insert (blockBucket t₀ x.resolution n)
      (.pending (bar.insertBlockPriceBar n d))).get? key with
    | none => exact Or.inr rfl
    | some b =>
      refine Or.inl ⟨b, rfl, fun k hk => (stores_iff_of_contentAt (hc key)).mpr
        ⟨b.content, ?_, settleIn_holds ((TimePriceBar.holds_content b k).mpr hk)⟩⟩
      rw [contentAt, get?_pruneToRetentionCount,
        if_pos fun c hrc => absurd (hkeep.symm.trans hrc) (Option.some_ne_none c).symm, hg,
        Option.map_some]
  refine ⟨?_, fun key k hk => ?_⟩
  · rcases hinserted (blockBucket t₀ x.resolution n) with ⟨b, hg, hb⟩ | hg
    · rw [OrdMap.get?_insert_self] at hg
      cases hg
      exact hb n (PendingTimePriceBar.holds_insertBlockPriceBar.mpr (Or.inl rfl))
    · rw [OrdMap.get?_insert_self] at hg
      cases hg
  · obtain ⟨b, hg, hh⟩ := hpadded key k hk
    rcases hinserted key with ⟨b', hg', hb⟩ | hg'
    · refine hb k ?_
      rw [OrdMap.get?_insert] at hg'
      split at hg'
      next hkey =>
        cases hg'
        rw [← hkey, hg] at hbar
        exact PendingTimePriceBar.holds_insertBlockPriceBar.mpr
          (Or.inr ((show b = .pending bar from hbar) ▸ hh))
      next =>
        rw [hg] at hg'
        cases hg'
        exact hh
    · rw [OrdMap.get?_insert] at hg'
      split at hg'
      next => cases hg'
      next =>
        rw [hg] at hg'
        cases hg'

/-- The block may stand in the bucket after the insert: it was there, it is the new block,
or it is padded. -/
def Arrives (x : TimePriceBars) (n bts key k : Nat) : Prop :=
  x.Stores key k ∨ key = fromTimestamp bts x.resolution ∧ k = n ∨
    ∃ b tick p, x.lastBlock = some (b, tick) ∧ b < k ∧ k < n ∧ key = x.padTarget n bts b ∧
      (x.data.get? key).getD (.pending .new) = .pending p

/-- What a bucket stores after an insert lies between blocks that arrived there. -/
theorem exists_arrives_of_insertData {n : Nat} {d : TickData} {bts : Nat} {f : Option Nat}
    (hok : insertData n d bts f x = .ok () x') {key k : Nat} (h : x'.Stores key k) :
    ∃ s e, s ≤ k ∧ k ≤ e ∧ x.Arrives n bts key s ∧ x.Arrives n bts key e := by
  obtain ⟨padded, paddedBars, inserted, hp, hi, -, hc⟩ := insertData_ok_contentAt hok
  obtain ⟨_, hg, hk⟩ := (stores_iff_of_contentAt (hc key)).mp h
  obtain ⟨bar, hbar, rfl⟩ := Option.map_eq_some_iff.mp hg
  obtain ⟨s, e, hs, he, hsk, hke⟩ := exists_holds_of_settleIn hk
  rw [TimePriceBar.holds_content] at hs he
  have hget := get?_of_pruneToRetentionCount hbar
  obtain ⟨q, hq, -, rfl⟩ := insertBlock_ok hi
  have hpadded : ∀ b j, paddedBars.data.get? key = some b → b.Holds j → x.Arrives n bts key j := by
    intro b j hb hj
    rcases padMissing_cases n bts x with ⟨hp', -⟩ | ⟨last, tick, p, hl, -, hpad, hp'⟩
    · rw [hp'] at hp
      cases hp
      exact Or.inl ⟨b, hb, hj⟩
    · rw [hp'] at hp
      cases hp
      rw [OrdMap.get?_insert] at hb
      split at hb
      next hkey =>
        cases hb
        rcases PendingTimePriceBar.holds_insertBlockPriceBarRange.mp hj with hj | hj
        · obtain ⟨hlow, hhigh⟩ := mem_paddedNumbers.mp hj
          exact Or.inr (Or.inr ⟨last, tick, p, hl, hlow, hhigh, hkey, by rw [hkey]; exact hpad⟩)
        · cases hx : x.data.get? key with
          | none =>
            rw [← hkey, hx] at hpad
            cases hpad
            exact absurd hj (PendingTimePriceBar.not_holds_new j)
          | some b' =>
            rw [← hkey, hx] at hpad
            exact Or.inl ⟨b', hx, (show b' = .pending p from hpad) ▸ hj⟩
      next => exact Or.inl ⟨b, hb, hj⟩
  have hinserted : ∀ j, bar.Holds j → x.Arrives n bts key j := by
    intro j hj
    rw [OrdMap.get?_insert] at hget
    split at hget
    next hkey =>
      cases hget
      rcases PendingTimePriceBar.holds_insertBlockPriceBar.mp hj with hj | hj
      · exact Or.inr (Or.inl ⟨hkey, hj⟩)
      · cases hb : paddedBars.data.get? key with
        | none =>
          rw [← hkey, hb] at hq
          cases hq
          exact absurd hj (PendingTimePriceBar.not_holds_new j)
        | some b =>
          rw [← hkey, hb] at hq
          exact hpadded b j hb ((show b = .pending q from hq) ▸ hj)
    next => exact hpadded bar j hget hj
  exact ⟨s, e, hsk, hke, hinserted s hs, hinserted e he⟩

/-- The last block of bars in order is the highest one. -/
theorem InOrder.highestStored (h : InOrder x)
    (hne : ∀ key bar, x.data.get? key = some bar → ∃ k, bar.Holds k) {b : Nat} {tick : TickData}
    (hl : x.lastBlock = some (b, tick)) : x.HighestStored b := by
  obtain ⟨key, bar, hlast, hb, hmax⟩ := lastBlock_holds hl hne
  obtain ⟨hget, hkeys⟩ := OrdMap.lastEntry_eq_some_iff.mp hlast
  refine ⟨⟨key, bar, hget, hb⟩, fun key' k hk => ?_⟩
  obtain ⟨bar', hget', hk'⟩ := hk
  rcases (hkeys key' bar' hget').lt_or_eq with hlt | rfl
  · exact (h key' key k b hlt ⟨bar', hget', hk'⟩ ⟨bar, hget, hb⟩).le
  · rw [hget] at hget'
    cases hget'
    exact hmax k hk'

/-- Padding and the new block go to the last bar or above it. -/
theorem InOrder.insertData (h : InOrder x) (hearly : AllBars (NotEarly t₀ x.resolution) x) {n : Nat}
    (hbelow : AllBelow n x) {d : TickData} {f : Option Nat}
    (hok : insertData n d (blockTime t₀ n) f x = .ok () x') : InOrder x' := by
  have hlt : ∀ key k, x.Stores key k → k < n := by
    rintro key k ⟨bar, hg, hk⟩
    exact hbelow key bar hg k hk
  have hkeys : ∀ key k b, x.Stores key k → x.HighestStored b →
      key ≤ blockBucket t₀ x.resolution b := by
    rintro key k b ⟨bar, hg, hk⟩ hb
    exact ((hearly key bar hg).2 k hk).trans (blockBucket_mono (hb.2 key k ⟨bar, hg, hk⟩))
  have hmono : ∀ b, x.HighestStored b →
      blockBucket t₀ x.resolution b ≤ blockBucket t₀ x.resolution n := by
    rintro b ⟨⟨key, hb⟩, -⟩
    exact blockBucket_mono (hlt key b hb).le
  have harrives : ∀ key k, x.Arrives n (blockTime t₀ n) key k →
      x.Stores key k ∨ key = blockBucket t₀ x.resolution n ∧ k = n ∨
        ∃ b, x.HighestStored b ∧ b < k ∧ k < n ∧ key = blockBucket t₀ x.resolution b := by
    rintro key k (hk | hk | ⟨b, tick, p, hl, hbk, hkn, rfl, -⟩)
    · exact Or.inl hk
    · exact Or.inr (Or.inl hk)
    · refine Or.inr (Or.inr ⟨b, ?_, hbk, hkn, padTarget_blockTime (by omega)⟩)
      exact h.highestStored (fun key bar hg => (hearly key bar hg).1) hl
  intro key key' k k' hkeylt hk hk'
  obtain ⟨-, e, -, hke, -, he⟩ := exists_arrives_of_insertData hok hk
  obtain ⟨s, -, hsk, -, hs, -⟩ := exists_arrives_of_insertData hok hk'
  have hes : e < s := by
    rcases harrives key e he with hold | ⟨hkey, hen⟩ | ⟨b, hb, hbe, hen, hkey⟩
    · rcases harrives key' s hs with hold' | ⟨-, hsn⟩ | ⟨b', hb', hbs, -, -⟩
      · exact h key key' e s hkeylt hold hold'
      · have := hlt key e hold
        omega
      · have := hb'.2 key e hold
        omega
    · rcases harrives key' s hs with hold' | ⟨hkey', -⟩ | ⟨b', hb', -, -, hkey'⟩
      · obtain ⟨bar, hg, hk⟩ := hold'
        have hle := (hearly key' bar hg).2 s hk
        have hmono' : blockBucket t₀ x.resolution s ≤ blockBucket t₀ x.resolution n :=
          blockBucket_mono (hbelow key' bar hg s hk).le
        omega
      · omega
      · have := hmono b' hb'
        omega
    · rcases harrives key' s hs with hold' | ⟨-, hsn⟩ | ⟨b', hb', hbs, -, hkey'⟩
      · have := hkeys key' s b hold' hb
        omega
      · omega
      · have hbb : b = b' := le_antisymm (hb'.2 _ _ hb.1.choose_spec) (hb.2 _ _ hb'.1.choose_spec)
        rw [hkey, hkey', hbb] at hkeylt
        exact absurd hkeylt (lt_irrefl _)
  omega

theorem Tip.insertData {tip : Option Nat} (h : Tip t₀ tip x) (hs : Sound t₀ x) {n : Nat}
    {d : TickData} {f : Option Nat} (hlt : ∀ b, tip = some b → b < n)
    (hok : insertData n d (blockTime t₀ n) f x = .ok () x') : Tip t₀ (some n) x' := by
  have hbelow := h.allBelow hlt
  have hbelow' := hbelow.insertData hok
  refine ⟨fun key k hk => ?_, fun m hm => ?_,
    InOrder.insertData h.ordered hs.notEarly hbelow hok⟩
  · obtain ⟨bar, hg, hh⟩ := hk
    exact ⟨n, rfl, Nat.le_of_lt_succ (hbelow' key bar hg k hh)⟩
  · cases hm
    rw [(insertData_ok_settings hok).resolution]
    exact (stores_of_insertData hs.retention hok).1

/-- The state after inserting blocks in increasing order. -/
theorem insertAll_tip {tip : Option Nat} {l : List BlockInsert} (hs : Sound t₀ x)
    (h : Tip t₀ tip x) (hl : (l.map (·.blockNumber)).Pairwise (· < ·))
    (haligned : ∀ b ∈ l, ∀ f, b.finalizedTimestamp = some f → x.resolution.offset ∣ f)
    (htip : ∀ n, tip = some n → ∀ b ∈ l, n < b.blockNumber)
    (hok : insertAll t₀ l x = .ok () x') :
    Sound t₀ x' ∧ Tip t₀ ((l.getLast?.map (·.blockNumber)).or tip) x' := by
  induction l generalizing x tip with
  | nil =>
    cases hok
    exact ⟨hs, h⟩
  | cons b l ih =>
    obtain ⟨s, hstep, hrest⟩ := insertAll_cons_ok hok
    have hlt : ∀ n, tip = some n → n < b.blockNumber := fun n hn => htip n hn b List.mem_cons_self
    have hres : s.resolution = x.resolution := (insertData_ok_settings hstep).resolution
    obtain ⟨hb, hl⟩ := List.pairwise_cons.mp hl
    obtain ⟨hs', h'⟩ := ih (hs.insertData (h.allBelow hlt) (haligned b List.mem_cons_self) hstep)
      (h.insertData hs hlt hstep) hl
      (fun b' hb' => hres ▸ haligned b' (List.mem_cons_of_mem _ hb'))
      (fun n hn b' hb' => by
        cases hn
        exact hb _ (List.mem_map_of_mem hb')) hrest
    have hlast : ((b :: l).getLast?.map (·.blockNumber)).or tip =
        (l.getLast?.map (·.blockNumber)).or (some b.blockNumber) := by
      rw [List.getLast?_cons]
      cases l.getLast? <;> rfl
    rw [hlast]
    exact ⟨hs', h'⟩

/-- What the padding touched is pending and late enough. -/
theorem Sound.padMissing_touched {n : Nat} (h : Sound t₀ x) {padded : List Nat}
    (hp : padMissing n (blockTime t₀ n) x = .ok padded x') {ts : Nat}
    (hts : ts ∈ padded) : (∃ p, x'.data.get? ts = some (.pending p)) ∧
      (x.indicatorsConfig.isSome → 5700 ≤ ts) := by
  rcases padMissing_cases n (blockTime t₀ n) x with ⟨he, -⟩ | ⟨b, tick, padBar, hl, hlt, -, he⟩
  · rw [he] at hp
    cases hp
    cases hts
  · rw [he] at hp
    cases hp
    cases List.mem_singleton.mp hts
    refine ⟨⟨_, OrdMap.get?_insert_self _ _ _⟩, fun hconfig => ?_⟩
    obtain ⟨key, bar, hlast, hh, -⟩ := lastBlock_holds hl h.nonempty
    have hget := (OrdMap.lastEntry_eq_some_iff.mp hlast).1
    have hwarm : 5700 ≤ key := (h.fresh key bar hget).2 hconfig
    have hearly : key ≤ blockBucket t₀ x.resolution b := (h.notEarly key bar hget).2 b hh
    rw [padTarget_blockTime (by omega)]
    omega

/-- After paddings that left the first run ahead, an insert that it takes is taken by the
second, and leaves it ahead. -/
theorem Ahead.insertData {n : Nat} {d : TickData} {fx fy : Option Nat} {padX padY : List Nat}
    {x₁ y₁ : TimePriceBars} (hx : Sound t₀ x) (hy : Sound t₀ y) (hbelow : AllBelow n y)
    (hxp : TimePriceBars.padMissing n (blockTime t₀ n) x = .ok padX x₁)
    (hyp : TimePriceBars.padMissing n (blockTime t₀ n) y = .ok padY y₁) (h : Ahead x₁ y₁)
    (hlag : ¬Lag x y (blockBucket t₀ x.resolution n))
    (hfy : ∀ f, fy = some f → y.resolution.offset ∣ f)
    (hle : ∀ key, Reached fy key → Reached fx key)
    (hok : TimePriceBars.insertData n d (blockTime t₀ n) fx x = .ok () x') :
    ∃ y', TimePriceBars.insertData n d (blockTime t₀ n) fy y = .ok () y' ∧ Ahead x' y' := by
  obtain ⟨padX', x₁', x₂, x₃, hp, hi, hu, hf⟩ := insertData_ok_of_retaining hx.retention hok
  rw [hxp] at hp
  cases hp
  have hx₁ := padMissing_fields hxp
  have hy₁ := padMissing_fields hyp
  have hsettings := h.settings
  rw [hx₁, hy₁] at hsettings
  have hres : x.resolution = y.resolution := hsettings.resolution
  have hconfig : x.indicatorsConfig = y.indicatorsConfig := hsettings.indicatorsConfig
  have hlag₁ : ¬Lag x₁ y₁ (blockBucket t₀ x.resolution n) := by
    rw [hx₁, hy₁]
    exact hlag
  obtain ⟨y₂, hyi, h₂⟩ := h.insertBlock hlag₁ hi
  have htouched : ∀ ts ∈ padY ++ [blockBucket t₀ x.resolution n],
      (∃ p, y₂.data.get? ts = some (.pending p)) ∧ (x.indicatorsConfig.isSome → 5700 ≤ ts) := by
    intro ts hts
    obtain ⟨q, -, -, rfl⟩ := insertBlock_ok hyi
    rcases List.mem_append.mp hts with hts | hts
    · obtain ⟨⟨p, hp⟩, hwarm⟩ := hy.padMissing_touched hyp hts
      refine ⟨?_, hconfig ▸ hwarm⟩
      rw [OrdMap.get?_insert]
      split
      next => exact ⟨_, rfl⟩
      next => exact ⟨p, hp⟩
    · cases List.mem_singleton.mp hts
      refine ⟨⟨_, OrdMap.get?_insert_self _ _ _⟩, fun hc => ?_⟩
      exact updateTouched_warm hu hc _ (List.mem_append_right _ (List.mem_singleton_self _))
  obtain ⟨y₃, hyu⟩ := exists_updateTouched (fun ts hts => (htouched ts hts).1)
    fun hc ts hts => (htouched ts hts).2 hc
  have h₃ : Ahead x₃ y₃ :=
    h₂.of_sameContent (updateTouched_ok_sameContent hu) (updateTouched_ok_sameContent hyu)
  have hretained : y₂.pruneToRetentionCount = y₂ := by
    obtain ⟨q, -, -, rfl⟩ := insertBlock_ok hyi
    refine pruneToRetentionCount_of_none ?_
    rw [hy₁]
    exact hy.retention
  rw [hconfig, hres] at hyu
  change TimePriceBars.insertBlock n d _ (blockBucket t₀ x.resolution n) y₁ = _ at hyi
  rw [hres] at hyi
  have hstages : ∀ f s, TimePriceBars.finalizeUpTo f y₃ = .ok () s →
      TimePriceBars.insertData n d (blockTime t₀ n) f y = .ok () s := fun f s hs =>
    insertData_of_stages hyp hyi (by rw [hretained]; exact hyu) hs
  have hy₃ : Sound t₀ y₃ := hy.insertData hbelow (fun _ h => by cases h) (hstages none y₃ rfl)
  have hsame := updateTouched_ok_sameContent hyu
  have hy₃res : y₃.resolution = y.resolution := by
    obtain ⟨q, -, -, rfl⟩ := insertBlock_ok hyi
    rw [hsame.resolution, hy₁]
  obtain ⟨y', hyf⟩ := hy₃.exists_finalizeUpTo (f := fy) (by rw [hy₃res]; exact hfy)
  refine ⟨y', hstages fy y' hyf, h₃.finalizeUpTo (fun key bar hk => (hy₃.bar key bar hk).aligned)
    ?_ hy₃.frontier hle hf hyf⟩
  intro last hl
  obtain ⟨p, -, -, rfl⟩ := insertBlock_ok hi
  have hxlast : x₃.lastFinalizedTimestamp = x.lastFinalizedTimestamp := by
    rw [(updateTouched_ok_sameContent hu).lastFinalizedTimestamp, hx₁]
  rw [hy₃res, ← hres]
  exact hx.frontier last (hxlast ▸ hl)

/-- The state of two runs that insert the same blocks. -/
structure Paired (t₀ : Nat) (tip : Option Nat) (x y : TimePriceBars) : Prop where
  ahead : Ahead x y
  left : Sound t₀ x
  right : Sound t₀ y
  below : ∀ key k, x.Stores key k → ∃ n, tip = some n ∧ k ≤ n
  ends : Tip t₀ tip y
  lag : ∀ n, tip = some n → ¬Lag x y (blockBucket t₀ y.resolution n)

/-- Two runs that pad alike insert alike. -/
theorem Paired.of_padMissing {tip : Option Nat} {n : Nat} {d : TickData} {fx : Option Nat}
    {padX padY : List Nat} {x₁ y₁ : TimePriceBars} (fy : Option Nat) (hx : Sound t₀ x)
    (hy : Sound t₀ y) (hends : Tip t₀ tip y) (hlt : ∀ b, tip = some b → b < n)
    (hbelow : AllBelow n x) (hxp : padMissing n (blockTime t₀ n) x = .ok padX x₁)
    (hyp : padMissing n (blockTime t₀ n) y = .ok padY y₁) (hpadded : Ahead x₁ y₁)
    (hfx : ∀ f, fx = some f → y.resolution.offset ∣ f)
    (hfy : ∀ f, fy = some f → fx = some f)
    (hfree : ¬Reached x.lastFinalizedTimestamp (blockBucket t₀ y.resolution n))
    (hfinal : ¬Reached fx (blockBucket t₀ y.resolution n))
    (hok : TimePriceBars.insertData n d (blockTime t₀ n) fx x = .ok () x') :
    ∃ y', TimePriceBars.insertData n d (blockTime t₀ n) fy y = .ok () y' ∧
      Paired t₀ (some n) x' y' := by
  have hres : x.resolution = y.resolution := (padMissing_settings hxp).resolution.symm.trans
    (hpadded.settings.resolution.trans (padMissing_settings hyp).resolution)
  obtain ⟨y', hyok, hahead⟩ := Ahead.insertData hx hy (hends.allBelow hlt) hxp hyp hpadded
    (fun hl => hfree (hres ▸ hl.1)) (fun f hf => hfx f (hfy f hf))
    (fun key ⟨f, hf, hle⟩ => ⟨f, hfy f hf, hle⟩) hok
  have hxb := hbelow.insertData hok
  have hyres : y'.resolution = y.resolution := (insertData_ok_settings hyok).resolution
  obtain ⟨-, -, -, -, -, hfrontier, -⟩ := insertData_ok_contentAt hok
  refine ⟨y', hyok, hahead, hx.insertData hbelow (hres ▸ hfx) hok,
    hy.insertData (hends.allBelow hlt) (fun f hf => hfx f (hfy f hf)) hyok,
    fun key k ⟨bar, hg, hk⟩ => ⟨n, rfl, Nat.le_of_lt_succ (hxb key bar hg k hk)⟩,
    hends.insertData hy hlt hyok, fun m hm hl => ?_⟩
  cases hm
  have hreached := hl.1
  rw [hfrontier, reached_frontierAfter, hyres] at hreached
  exact hreached.elim hfree hfinal

theorem Paired.insertData {tip : Option Nat} {n : Nat} {d : TickData} {fx : Option Nat}
    (h : Paired t₀ tip x y) (fy : Option Nat) (hlt : ∀ b, tip = some b → b < n)
    (hfx : ∀ f, fx = some f → y.resolution.offset ∣ f)
    (hfy : ∀ f, fy = some f → fx = some f)
    (hfree : ¬Reached x.lastFinalizedTimestamp (blockBucket t₀ y.resolution n))
    (hfinal : ¬Reached fx (blockBucket t₀ y.resolution n))
    (hok : TimePriceBars.insertData n d (blockTime t₀ n) fx x = .ok () x') :
    ∃ y', TimePriceBars.insertData n d (blockTime t₀ n) fy y = .ok () y' ∧
      Paired t₀ (some n) x' y' := by
  have hxbelow : AllBelow n x := by
    intro key bar hg k hk
    obtain ⟨b, hb, hle⟩ := h.below key k ⟨bar, hg, hk⟩
    exact hle.trans_lt (hlt b hb)
  have hlast : x.lastBlock = y.lastBlock := by
    refine h.ahead.lastBlock_eq fun key bar hl => ?_
    cases htip : tip with
    | none =>
      subst htip
      rw [h.ends.lastEntry_of_none h.right] at hl
      cases hl
    | some b =>
      subst htip
      obtain ⟨bar', hl', -⟩ := h.ends.lastEntry h.right
      rw [hl'] at hl
      cases hl
      exact h.lag b rfl
  obtain ⟨padded, x₁, y₁, hxp, hyp, hpadded⟩ := h.ahead.padMissing n (blockTime t₀ n)
    (by rw [hlast]) fun b tick hl hb => by
      refine ⟨hlast, ?_⟩
      rw [padTarget_blockTime (by omega)]
      cases htip : tip with
      | none =>
        subst htip
        rw [TimePriceBars.lastBlock, h.ends.lastEntry_of_none h.right] at hl
        cases hl
      | some b' =>
        subst htip
        obtain ⟨tick', hl'⟩ := h.ends.lastBlock h.right
        rw [hl'] at hl
        cases hl
        exact h.lag b rfl
  exact Paired.of_padMissing fy h.left h.right h.ends hlt hxbelow hxp hyp hpadded hfx hfy hfree
    hfinal hok

/-- Blocks from `r` on, whose buckets no finalized timestamp reaches. -/
structure Admissible (t₀ r : Nat) (res : Resolution) (l : List BlockInsert) : Prop where
  increasing : (l.map (·.blockNumber)).Pairwise (· < ·)
  aligned : ∀ b ∈ l, ∀ f, b.finalizedTimestamp = some f → res.offset ∣ f
  final : ∀ b ∈ l, ¬Reached b.finalizedTimestamp (blockBucket t₀ res r)

theorem Reached.of_le {f : Option Nat} {key key' : Nat} (h : Reached f key') (hle : key ≤ key') :
    Reached f key := by
  obtain ⟨x, hx, hx'⟩ := h
  exact ⟨x, hx, hle.trans hx'⟩

theorem Admissible.tail {r : Nat} {res : Resolution} {b : BlockInsert} {l : List BlockInsert}
    (h : Admissible t₀ r res (b :: l)) : Admissible t₀ r res l :=
  ⟨(List.pairwise_cons.mp h.increasing).2, fun b hb => h.aligned b (List.mem_cons_of_mem _ hb),
    fun b hb => h.final b (List.mem_cons_of_mem _ hb)⟩

theorem Paired.insertAll {r : Nat} {g : Option Nat → Option Nat} {tip : Option Nat}
    {l : List BlockInsert} (h : Paired t₀ tip x y) (hl : Admissible t₀ r y.resolution l)
    (hr : ∀ b ∈ l, r ≤ b.blockNumber) (htip : ∀ n, tip = some n → ∀ b ∈ l, n < b.blockNumber)
    (hg : ∀ f v, g f = some v → f = some v)
    (hfree : ¬Reached x.lastFinalizedTimestamp (blockBucket t₀ y.resolution r))
    (hok : TimePriceBars.insertAll t₀ l x = .ok () x') :
    ∃ tip' y', TimePriceBars.insertAll t₀ (l.map (mapFinalized g)) y = .ok () y' ∧
      Paired t₀ tip' x' y' := by
  induction l generalizing x y tip with
  | nil =>
    cases hok
    exact ⟨tip, y, rfl, h⟩
  | cons b l ih =>
    obtain ⟨s, hs, hrest⟩ := insertAll_cons_ok hok
    have hbucket : blockBucket t₀ y.resolution r ≤ blockBucket t₀ y.resolution b.blockNumber :=
      blockBucket_mono (hr b List.mem_cons_self)
    obtain ⟨y₁, hy₁, hpair⟩ := h.insertData (g b.finalizedTimestamp)
      (fun n hn => htip n hn b List.mem_cons_self) (hl.aligned b List.mem_cons_self)
      (hg b.finalizedTimestamp) (fun hreached => hfree (hreached.of_le hbucket))
      (fun hreached => hl.final b List.mem_cons_self (hreached.of_le hbucket)) hs
    have hres : y₁.resolution = y.resolution := (insertData_ok_settings hy₁).resolution
    obtain ⟨-, -, -, -, -, hfrontier, -⟩ := insertData_ok_contentAt hs
    have hfree₁ : ¬Reached s.lastFinalizedTimestamp (blockBucket t₀ y₁.resolution r) := by
      rw [hfrontier, reached_frontierAfter, hres]
      exact fun hreached => hreached.elim hfree (hl.final b List.mem_cons_self)
    obtain ⟨tip', y', hy', hpaired⟩ := ih hpair (hres ▸ hl.tail)
      (fun b' hb' => hr b' (List.mem_cons_of_mem _ hb'))
      (fun n hn b' hb' => by
        cases hn
        exact (List.pairwise_cons.mp hl.increasing).1 _ (List.mem_map_of_mem hb')) hfree₁ hrest
    refine ⟨tip', y', ?_, hpaired⟩
    rw [List.map_cons, insertAll_cons_of_ok (show TimePriceBars.insertData
      (b.mapFinalized g).blockNumber _ _ _ y = .ok () y₁ from hy₁)]
    exact hy'

end TimePriceBars

end Pochtecatl
