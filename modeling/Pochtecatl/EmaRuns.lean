import Pochtecatl.EmaHistory

namespace Pochtecatl

open Indicators

/-- The close that a call inserts. -/
def BarsCall.closes : BarsCall → List U32F96
  | .insertData _ d _ => [d.close]
  | .pruneToReorgedBlockNumber _ => []

namespace TimePriceBars

open ResolutionTimestamp

/-- Inserts of increasing block numbers and reorgs, after which the numbers go on from the
reorged one. Each call returns `Ok`. -/
def completed (t₀ : Nat) : Machine (TimePriceBars × Nat) BarsCall where
  step s call := match call with
    | .insertData n d f =>
      if s.2 ≤ n then
        (insertData n d (blockTime t₀ n) f s.1).okState.map fun bars => (bars, n + 1)
      else none
    | .pruneToReorgedBlockNumber r =>
      (pruneToReorgedBlockNumber r s.1).okState.map fun bars => (bars, min s.2 r)

variable {t₀ n r next key : Nat} {d : TickData} {f : Option Nat} {lo hi : Int}
  {bars paddedBars inserted bars' : TimePriceBars} {padded : List Nat}
  {s s' : TimePriceBars × Nat}

theorem completed_step_insertData (h : (completed t₀).step s (.insertData n d f) = some s') :
    s.2 ≤ n ∧ insertData n d (blockTime t₀ n) f s.1 = .ok () s'.1 ∧ s'.2 = n + 1 := by
  simp only [completed] at h
  split at h
  next hle =>
    obtain ⟨bars, hok, rfl⟩ := Option.map_eq_some_iff.mp h
    exact ⟨hle, EStateM.Result.okState_eq_some.mp hok, rfl⟩
  next => cases h

theorem completed_step_pruneToReorgedBlockNumber
    (h : (completed t₀).step s (.pruneToReorgedBlockNumber r) = some s') :
    pruneToReorgedBlockNumber r s.1 = .ok () s'.1 ∧ s'.2 = min s.2 r := by
  obtain ⟨bars, hok, rfl⟩ := Option.map_eq_some_iff.mp h
  exact ⟨EStateM.Result.okState_eq_some.mp hok, rfl⟩

/-- The calls of `Indicators::ema` in a call: the bucket, and the bars it reads. An insert
computes the EMA of one touched bucket after the other, a reorg that of the bar it cut. -/
inductive EvaluatesEma (t₀ : Nat) (bars : TimePriceBars) : BarsCall → Nat → Bars → Prop where
  | insertData {n : Nat} {d : TickData} {f : Option Nat} {padded : List Nat}
      {paddedBars inserted mid : TimePriceBars} {config : IndicatorsConfig}
      {done rest : List Nat} {ts : Nat}
      (hpad : padMissing n (blockTime t₀ n) bars = .ok padded paddedBars)
      (hinsert : insertBlock n d (blockTime t₀ n) (blockBucket t₀ bars.resolution n) paddedBars =
        .ok () inserted)
      (hconfig : bars.indicatorsConfig = some config)
      (htouched : padded ++ [blockBucket t₀ bars.resolution n] = done ++ ts :: rest)
      (hdone : updateAll config done inserted.pruneToRetentionCount = .ok () mid) :
      EvaluatesEma t₀ bars (.insertData n d f) ts mid.data
  | pruneToReorgedBlockNumber {r ts : Nat} {looped : TimePriceBars} {config : IndicatorsConfig}
      (hloop : pruneLoop r (bars.data.size + 2) none bars = .ok (some ts) looped)
      (hconfig : bars.indicatorsConfig = some config) :
      EvaluatesEma t₀ bars (.pruneToReorgedBlockNumber r) ts looped.data

/-- No EMA that a call computes leaves its range. -/
def EmasExact (t₀ : Nat) (s : TimePriceBars × Nat) (call : BarsCall) (_ : TimePriceBars × Nat) :
    Prop :=
  ∀ ts data, EvaluatesEma t₀ s.1 call ts data → EmaExact ts s.1.resolution data

/-- Every bar has an EMA between two of the closes. Its slope, where the bar before is there,
has the sign of the way from the EMA of that bar to the close. -/
structure EmasWithin (closes : List U32F96) (bars : TimePriceBars) : Prop where
  ema : ∀ key bar, bars.data.get? key = some bar → ∃ i, bar.indicators = some i ∧
    (∃ c ∈ closes, (c.raw : Int) ≤ i.ema.1.raw) ∧ ∃ c ∈ closes, i.ema.1.raw ≤ c.raw
  slope : ∀ key bar prevBar i j, bars.data.get? key = some bar →
    bars.data.get? (previous key bars.resolution) = some prevBar → bar.indicators = some i →
    prevBar.indicators = some j → (j.ema.1.raw ≤ bar.close.raw → 0 ≤ i.ema.2.raw) ∧
      ((bar.close.raw : Int) ≤ j.ema.1.raw → i.ema.2.raw ≤ 0)

/-- The bars between two calls: in order, with blocks before the next one, and with prices and
EMAs between `lo` and `hi`. -/
structure EmaKept (t₀ : Nat) (lo hi : Int) (bars : TimePriceBars) (next : Nat) : Prop where
  early : AllBars (NotEarly t₀ bars.resolution) bars
  inOrder : bars.InOrder
  below : AllBelow next bars
  priced : AllBars (fun _ bar => bar.Priced lo hi) bars
  emas : ∀ key, bars.EmaAt lo hi key

theorem new_emaKept (t₀ : Nat) (lo hi : Int) (rc : Option Nat) (res : Resolution)
    (config : Option IndicatorsConfig) : EmaKept t₀ lo hi (.new rc res config) 0 := by
  constructor
  · exact fun key bar hg => by cases hg
  · rintro key key' k k' - ⟨bar, hg, -⟩
    cases hg
  · exact fun key bar hg => by cases hg
  · exact fun key bar hg => by cases hg
  · exact fun key bar hg => by cases hg

theorem EmaKept.nonempty (h : EmaKept t₀ lo hi bars next) :
    ∀ key bar, bars.data.get? key = some bar → ∃ k, bar.Holds k :=
  fun key bar hg => (h.early key bar hg).1

/-- A new block, and the blocks padded in front of it, keep the bars priced. -/
theorem insertBlock_priced (hpriced : AllBars (fun _ bar => bar.Priced lo hi) bars)
    (htick : Between lo hi d.close.raw) {bts ts : Nat}
    (hp : padMissing n bts bars = .ok padded paddedBars)
    (hi' : insertBlock n d bts ts paddedBars = .ok () inserted) :
    AllBars (fun _ bar => bar.Priced lo hi) inserted := by
  have hblocks : ∀ {x : TimePriceBars} {key : Nat} {bar : PendingTimePriceBar},
      AllBars (fun _ bar => bar.Priced lo hi) x →
      (x.data.get? key).getD (.pending .new) = .pending bar →
      ∀ k tick, bar.blockPriceBars.get? k = some tick → Between lo hi tick.close.raw := by
    intro x key bar hx hg k tick hk
    rcases hx.getD hg with rfl | hbar
    · cases hk
    · exact hbar.2 bar rfl k tick hk
  have hpadded : AllBars (fun _ bar => bar.Priced lo hi) paddedBars := by
    rcases padMissing_cases n bts bars with ⟨he, -⟩ | ⟨b, tick, bar, hl, hlt, hg, he⟩
    · rw [he] at hp
      cases hp
      exact hpriced
    · rw [he] at hp
      cases hp
      refine hpriced.insert (TimePriceBar.Priced.withBlocks ⟨b + 1, tick, ?_⟩ fun k t hk => ?_)
      · rw [get?_foldl_insert, if_pos (mem_paddedNumbers.mpr ⟨by omega, hlt⟩)]
      · rw [get?_foldl_insert] at hk
        split at hk
        next =>
          cases hk
          exact Priced.lastBlock hpriced hl
        next => exact hblocks hpriced hg k t hk
  obtain ⟨bar, hg, -, rfl⟩ := insertBlock_ok hi'
  refine hpadded.insert (TimePriceBar.Priced.withBlocks ⟨n, d, OrdMap.get?_insert_self _ _ _⟩
    fun k t hk => ?_)
  rw [OrdMap.get?_insert] at hk
  split at hk
  next =>
    cases hk
    exact htick
  next => exact hblocks hpadded hg k t hk

theorem summary_settleIn (key : Nat) (bar : TimePriceBar) :
    (bars.settleIn f key bar).summary = bar.summary := by
  unfold settleIn
  split
  next => exact TimePriceBar.summary_settle bar
  next => rfl

/-- Finalization leaves the EMAs. -/
theorem EmaAt.finalizeUpTo (h : bars.EmaAt lo hi key)
    (hok : TimePriceBars.finalizeUpTo f bars = .ok () bars') : bars'.EmaAt lo hi key := by
  have hsettled : ∀ k bar', bars'.data.get? k = some bar' →
      ∃ bar, bars.data.get? k = some bar ∧ bar'.summary = bar.summary := by
    intro k bar' hg'
    rw [finalizeUpTo_ok_get? hok] at hg'
    obtain ⟨bar, hg, rfl⟩ := Option.map_eq_some_iff.mp hg'
    exact ⟨bar, hg, summary_settleIn k bar⟩
  exact h.congr (finalizeUpTo_ok_settings hok).resolution (hsettled key) (hsettled _)

/-- The bars that a call does not touch keep their EMAs until the touched ones, above which
there are no others, are recomputed. -/
theorem EmaAt.of_untouched {touched : List Nat} (h : bars.EmaAt lo hi key)
    (hres : bars'.resolution = bars.resolution) (hkey : key ∉ touched)
    (hsub : ∀ k bar, k ∉ touched → bars'.data.get? k = some bar → bars.data.get? k = some bar)
    (habove : ∀ k, k ∉ touched → (∃ t ∈ touched, t < k) → bars'.data.get? k = none) :
    bars'.EmaAt lo hi key := by
  cases hg : bars'.data.get? key with
  | none => exact emaAt_of_absent hg
  | some bar =>
    have hwarm := (h bar (hsub key bar hkey hg)).1
    have hprev : previous key bars.resolution ∉ touched := by
      intro hm
      have hlt : previous key bars.resolution < key := by
        rw [previous_eq hwarm]
        omega
      rw [habove key hkey ⟨_, hm, hlt⟩] at hg
      cases hg
    refine h.congr hres (fun bar' hg' => ?_) fun prev' hp' => ?_
    · exact ⟨bar', hsub key bar' hkey hg', rfl⟩
    · exact ⟨prev', hsub _ prev' hprev hp', rfl⟩

/-- A completed insert computes its EMAs exactly and keeps the EMAs. -/
theorem EmaKept.insertData (h : EmaKept t₀ lo hi bars next) (hlo : 0 ≤ lo) (hhi : hi < 2 ^ 127)
    (hconfig : bars.indicatorsConfig = some .all) (hn : next ≤ n)
    (htick : Between lo hi d.close.raw)
    (hok : TimePriceBars.insertData n d (blockTime t₀ n) f bars = .ok () bars') :
    EmaKept t₀ lo hi bars' (n + 1) ∧ ∀ ts data,
      EvaluatesEma t₀ bars (.insertData n d f) ts data → EmaExact ts bars.resolution data := by
  have hbelow := h.below.mono hn
  have hlast : ∀ b tick, bars.lastBlock = some (b, tick) → b < n :=
    fun b tick => hbelow.lastBlock_lt h.nonempty
  obtain ⟨padded, paddedBars, inserted, updated, hp, hi', hu, hf⟩ := insertData_ok hok
  rw [hconfig] at hu
  obtain ⟨htouches, hfields⟩ := insertBlock_touches h.early hlast hp hi'
  have hretained : inserted.pruneToRetentionCount.resolution = bars.resolution := by
    rw [pruneToRetentionCount_fields, hfields]
  have hpriced : AllBars (fun _ bar => bar.Priced lo hi) inserted.pruneToRetentionCount :=
    fun key bar hg =>
      insertBlock_priced h.priced htick hp hi' key bar (get?_of_pruneToRetentionCount hg)
  have hsub : ∀ key bar, key ∉ padded ++ [blockBucket t₀ bars.resolution n] →
      inserted.pruneToRetentionCount.data.get? key = some bar → bars.data.get? key = some bar :=
    fun key bar hm hg => htouches.kept key hm ▸ get?_of_pruneToRetentionCount hg
  have habove : ∀ key, key ∉ padded ++ [blockBucket t₀ bars.resolution n] →
      (∃ t ∈ padded ++ [blockBucket t₀ bars.resolution n], t < key) →
        inserted.pruneToRetentionCount.data.get? key = none := by
    intro key hm hlt
    refine Option.eq_none_iff_forall_ne_some.mpr fun bar hg => ?_
    have habsent := htouches.above key hm hlt
    rw [get?_of_pruneToRetentionCount hg] at habsent
    cases habsent
  have hkept : ∀ key, key ∉ padded ++ [blockBucket t₀ bars.resolution n] →
      inserted.pruneToRetentionCount.EmaAt lo hi key :=
    fun key hm => (h.emas key).of_untouched hretained hm hsub habove
  obtain ⟨hemas, hexact⟩ := updateAll_ema hlo hhi htouches.sorted hpriced hkept habove hu
  have hsame := @updateTouched_ok_sameContent (some .all) _ _ _ hu
  have hupdated : AllBars (fun _ bar => bar.Priced lo hi) updated :=
    hpriced.of_sameContent (TimePriceBar.priced_barRule lo hi) hsame
  constructor
  · constructor
    · have hearly := exec_notEarly (.insertData n d f) h.early
      rw [exec, hok, EStateM.Result.state_ok] at hearly
      rw [(insertData_ok_settings hok).resolution]
      exact hearly
    · exact h.inOrder.insertData h.early hbelow hok
    · exact hbelow.insertData hok
    · have hfinal := hupdated.finalizeUpTo (f := f) fun key bar _ _ _ hbar => hbar.settle
      rwa [hf] at hfinal
    · exact fun key => (hemas key).finalizeUpTo hf
  · intro ts data heval
    cases heval with
    | insertData hpad hinsert hconfig' htouched hdone =>
      cases hp.symm.trans hpad
      cases hi'.symm.trans hinsert
      cases hconfig.symm.trans hconfig'
      rw [← hretained]
      exact hexact _ ts _ _ htouched hdone

/-- A completed reorg computes at most the EMA of the bar it cut, and keeps the others. -/
theorem EmaKept.pruneToReorgedBlockNumber (h : EmaKept t₀ lo hi bars next) (hlo : 0 ≤ lo)
    (hhi : hi < 2 ^ 127) (hconfig : bars.indicatorsConfig = some .all)
    (hok : TimePriceBars.pruneToReorgedBlockNumber r bars = .ok () bars') :
    EmaKept t₀ lo hi bars' (min next r) ∧ ∀ ts data,
      EvaluatesEma t₀ bars (.pruneToReorgedBlockNumber r) ts data →
        EmaExact ts bars.resolution data := by
  have hrule := TimePriceBar.priced_barRule lo hi
  obtain ⟨pruned, looped, hloop, hupdate⟩ := pruneToReorgedBlockNumber_ok hok
  rw [hconfig] at hupdate
  obtain ⟨-, hswept, -⟩ := pruneLoop_ok hloop
  have hres := (pruneLoop_ok_settings hloop).resolution
  have hpriced := h.priced.pruneLoop hrule r (bars.data.size + 2) none
  rw [hloop, EStateM.Result.state_ok] at hpriced
  have hsub : ∀ key bar, key ∉ pruned.toList → looped.data.get? key = some bar →
      bars.data.get? key = some bar := by
    intro key bar hm hg
    rcases hswept key fun hp => hm (Option.mem_toList.mpr hp) with he | ⟨he, -⟩
    · exact he ▸ hg
    · rw [hg] at he
      cases he
  have habove : ∀ key, key ∉ pruned.toList → (∃ t ∈ pruned.toList, t < key) →
      looped.data.get? key = none := by
    rintro key - ⟨t, ht, hlt⟩
    cases Option.mem_toList.mp ht
    exact (pruneLoop_some hloop).2 key hlt
  have hkept : ∀ key, key ∉ pruned.toList → looped.EmaAt lo hi key :=
    fun key hm => (h.emas key).of_untouched hres hm hsub habove
  have hsorted : pruned.toList.Pairwise (· ≤ ·) := by
    cases pruned with
    | none => exact List.Pairwise.nil
    | some ts => exact List.pairwise_singleton _ ts
  obtain ⟨hemas, hexact⟩ := updateAll_ema hlo hhi hsorted hpriced hkept habove hupdate
  constructor
  · obtain ⟨-, hbelow⟩ := pruneToReorgedBlockNumber_ok_contentAt h.nonempty h.inOrder hok
    have hearly := exec_notEarly (.pruneToReorgedBlockNumber r) h.early
    have hnext := h.below.pruneToReorgedBlockNumber (below_barRule next) r
    rw [exec, hok, EStateM.Result.state_ok] at hearly
    rw [hok, EStateM.Result.state_ok] at hnext
    refine ⟨?_, h.inOrder.pruneToReorgedBlockNumber h.nonempty hok, fun key bar hg k hk => ?_,
      hpriced.of_sameContent hrule (@updateTouched_ok_sameContent (some .all) _ _ _ hupdate),
      hemas⟩
    · rw [(pruneToReorgedBlockNumber_ok_settings hok).resolution]
      exact hearly
    · exact lt_min (hnext key bar hg k hk) (hbelow key bar hg k hk)
  · intro ts data heval
    cases heval with
    | pruneToReorgedBlockNumber hloop' hconfig' =>
      cases hloop.symm.trans hloop'
      rw [← hres]
      exact hexact [] ts [] _ rfl rfl

/-- One call. -/
theorem EmaKept.step {call : BarsCall} (h : EmaKept t₀ lo hi s.1 s.2) (hlo : 0 ≤ lo)
    (hhi : hi < 2 ^ 127) (hconfig : s.1.indicatorsConfig = some .all)
    (hcloses : ∀ c ∈ call.closes, Between lo hi c.raw)
    (hstep : (completed t₀).step s call = some s') :
    (EmaKept t₀ lo hi s'.1 s'.2 ∧ s'.1.indicatorsConfig = some .all) ∧ EmasExact t₀ s call s' := by
  cases call with
  | insertData n d f =>
    obtain ⟨hn, hok, hnext⟩ := completed_step_insertData hstep
    obtain ⟨hkept, hexact⟩ := h.insertData hlo hhi hconfig hn
      (hcloses d.close (List.mem_singleton_self _)) hok
    rw [← hnext] at hkept
    exact ⟨⟨hkept, (insertData_ok_settings hok).indicatorsConfig.trans hconfig⟩, hexact⟩
  | pruneToReorgedBlockNumber r =>
    obtain ⟨hok, hnext⟩ := completed_step_pruneToReorgedBlockNumber hstep
    obtain ⟨hkept, hexact⟩ := h.pruneToReorgedBlockNumber hlo hhi hconfig hok
    have hs := pruneToReorgedBlockNumber_ok_settings hok
    rw [← hnext] at hkept
    exact ⟨⟨hkept, hs.indicatorsConfig.trans hconfig⟩, hexact⟩

section Runs

variable {rc : Option Nat} {res : Resolution} {cs : List BarsCall}

theorem completed_emaKept (hlo : 0 ≤ lo) (hhi : hi < 2 ^ 127)
    (hcloses : ∀ c ∈ cs.flatMap BarsCall.closes, Between lo hi c.raw)
    (hrun : (completed t₀).run (.new rc res (some .all), 0) cs = some s) :
    EmaKept t₀ lo hi s.1 s.2 ∧ (completed t₀).Along (EmasExact t₀) (.new rc res (some .all), 0) cs := by
  have hcalls : (completed t₀).Along (fun _ call _ => ∀ c ∈ call.closes, Between lo hi c.raw)
      (.new rc res (some .all), 0) cs :=
    Machine.along_of_forall fun call hcall _ _ c hc =>
      hcloses c (List.mem_flatMap.mpr ⟨call, hcall, hc⟩)
  have hnew := new_emaKept t₀ lo hi rc res (some .all)
  have hkept := Machine.run_invariant_along
    (I := fun s => EmaKept t₀ lo hi s.1 s.2 ∧ s.1.indicatorsConfig = some .all)
    (fun _ _ _ hI hstep hc => (hI.1.step hlo hhi hI.2 hc hstep).1) hcalls hrun ⟨hnew, rfl⟩
  exact ⟨hkept.1, Machine.along_of_invariant
    (I := fun s => EmaKept t₀ lo hi s.1 s.2 ∧ s.1.indicatorsConfig = some .all)
    (fun _ _ _ hI hstep hc => hI.1.step hlo hhi hI.2 hc hstep) hcalls ⟨hnew, rfl⟩⟩

/-- The stored slopes point from the EMA of the bar before towards the close. -/
theorem EmaKept.slope (h : EmaKept t₀ lo hi bars next) (hlo : 0 ≤ lo) (hhi : hi < 2 ^ 127)
    {bar prevBar : TimePriceBar} {i j : Indicators} (hg : bars.data.get? key = some bar)
    (hprev : bars.data.get? (previous key bars.resolution) = some prevBar)
    (hi' : bar.indicators = some i) (hj : prevBar.indicators = some j) :
    (j.ema.1.raw ≤ bar.close.raw → 0 ≤ i.ema.2.raw) ∧
      ((bar.close.raw : Int) ≤ j.ema.1.raw → i.ema.2.raw ≤ 0) := by
  obtain ⟨-, i', hi, -, hema⟩ := h.emas key bar hg
  obtain ⟨-, j', hj', hbetween, -⟩ := h.emas _ prevBar hprev
  cases hi'.symm.trans hi
  cases hj.symm.trans hj'
  have hprevEma : prevEma prevBar = j.ema.1 := by
    rw [prevEma, hj]
    rfl
  obtain ⟨-, -, hup, hdown⟩ := emaStep_spec hlo hhi (h.priced key bar hg).close hbetween
  rw [hema prevBar hprev, emaAt_of_prev hg hprev, hprevEma]
  exact ⟨hup, hdown⟩

/-- In a run of completed calls whose closes are below `2 ^ 31`, every EMA is computed without
overflow, stored EMAs are between closes of the run and stored slopes have the sign of the move. -/
theorem completed_emas (hcloses : ∀ c ∈ cs.flatMap BarsCall.closes, c.raw < 2 ^ 31 * 2 ^ 96)
    (hrun : (completed t₀).run (.new rc res (some .all), 0) cs = some s) :
    (completed t₀).Along (EmasExact t₀) (.new rc res (some .all), 0) cs ∧
      EmasWithin (cs.flatMap BarsCall.closes) s.1 := by
  have hall : ∀ c ∈ cs.flatMap BarsCall.closes, Between 0 (2 ^ 127 - 1) c.raw := by
    intro c hc
    have hlt := hcloses c hc
    constructor
    · omega
    · omega
  obtain ⟨hkept, halong⟩ := completed_emaKept (by decide) (by decide) hall hrun
  refine ⟨halong, fun key bar hg => ?_, fun key bar prevBar i j hg hprev => ?_⟩
  · obtain ⟨-, i, hi, ⟨hnonneg, hlt⟩, -⟩ := hkept.emas key bar hg
    refine ⟨i, hi, ?_, ?_⟩
    -- were all closes on one side, the EMA would be there too
    · by_contra hnone
      have habove : ∀ c ∈ cs.flatMap BarsCall.closes,
          Between (i.ema.1.raw + 1) (2 ^ 127 - 1) c.raw := by
        intro c hc
        refine ⟨?_, (hall c hc).2⟩
        by_contra hle
        exact hnone ⟨c, hc, by omega⟩
      obtain ⟨hkept', -⟩ := completed_emaKept (by omega) (by decide) habove hrun
      obtain ⟨-, i', hi', ⟨hle, -⟩, -⟩ := hkept'.emas key bar hg
      cases hi.symm.trans hi'
      omega
    · by_contra hnone
      have hbelow : ∀ c ∈ cs.flatMap BarsCall.closes, Between 0 (i.ema.1.raw - 1) c.raw := by
        intro c hc
        refine ⟨(hall c hc).1, ?_⟩
        by_contra hle
        exact hnone ⟨c, hc, by omega⟩
      obtain ⟨hkept', -⟩ := completed_emaKept le_rfl (by omega) hbelow hrun
      obtain ⟨-, i', hi', ⟨-, hle⟩, -⟩ := hkept'.emas key bar hg
      cases hi.symm.trans hi'
      omega
  · exact hkept.slope (by decide) (by decide) hg hprev

/-- A rise over a bucket boundary, a reorg into the second bucket, and a fall. -/
theorem completed_emas_reorged : ∃ s, (completed 5996).run (.new none .fiveMinutes (some .all), 0)
      [.insertData 0 unitTick none, .insertData 2 { unitTick with close := .fromNum 3 } none,
        .insertData 3 unitTick (some 5700), .pruneToReorgedBlockNumber 3,
        .insertData 3 { unitTick with close := .ofRaw (2 ^ 95) } none] = some s ∧
    (completed 5996).Along (EmasExact 5996) (.new none .fiveMinutes (some .all), 0)
      [.insertData 0 unitTick none, .insertData 2 { unitTick with close := .fromNum 3 } none,
        .insertData 3 unitTick (some 5700), .pruneToReorgedBlockNumber 3,
        .insertData 3 { unitTick with close := .ofRaw (2 ^ 95) } none] ∧
    EmasWithin [.one, .fromNum 3, .one, .ofRaw (2 ^ 95)] s.1 := by
  have hruns : ((completed 5996).run (.new none .fiveMinutes (some .all), 0)
      [.insertData 0 unitTick none, .insertData 2 { unitTick with close := .fromNum 3 } none,
        .insertData 3 unitTick (some 5700), .pruneToReorgedBlockNumber 3,
        .insertData 3 { unitTick with close := .ofRaw (2 ^ 95) } none]).isSome := by decide +kernel
  obtain ⟨s, hrun⟩ := Option.isSome_iff_exists.mp hruns
  exact ⟨s, hrun, completed_emas (by decide +kernel) hrun⟩

end Runs

end TimePriceBars

end Pochtecatl
