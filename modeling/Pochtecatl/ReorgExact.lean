import Pochtecatl.ContiguousBars
import Pochtecatl.FinalizedBars
import Pochtecatl.FreshHistory

namespace Pochtecatl

namespace TimePriceBar

/-- The tick of a pending bar is the aggregate of its blocks. -/
def Reduced (bar : TimePriceBar) : Prop :=
  ∀ p, bar = pending p → p.data = TickData.reduce p.blockPriceBars.values

theorem Reduced.withBlocks (blocks : OrdMap Nat TickData) :
    (pending (.withBlocks blocks)).Reduced := by
  intro p hp
  cases hp
  rfl

theorem Reduced.settle {bar : TimePriceBar} (h : bar.Reduced) : bar.settle.Reduced := by
  cases bar with
  | finalized f => exact h
  | pending q =>
    cases hf : q.asFinalized with
    | none =>
      have hsame : (pending q).settle = pending q := by
        rw [TimePriceBar.settle, hf, Option.map_none, Option.getD_none]
      rw [hsame]
      exact h
    | some f =>
      rw [settle_of_asFinalized hf]
      intro p hp
      cases hp

theorem reduced_barRule : TimePriceBars.BarRule fun _ bar => bar.Reduced where
  content := by
    rintro key bar bar' hc h p rfl
    cases bar with
    | finalized f => cases hc
    | pending q =>
      have hq := h q rfl
      injection hc with hc
      injection hc with hdata _ hblocks
      rw [hdata, hblocks, hq]
  cut := by
    intro key r bar bar' hc h
    rcases cut_cases hc with rfl | ⟨q, s, e, rfl, -, -, -, -, rfl⟩
    · exact h
    · exact Reduced.withBlocks _

/-- A bar that a reorg keeps keeps its blocks before the reorged one. -/
theorem holds_cut_iff {r : Nat} {bar bar' : TimePriceBar} (hc : bar.cut r = some bar')
    (hlt : ∀ k, bar'.Holds k → k < r) (k : Nat) : bar'.Holds k ↔ bar.Holds k ∧ k < r := by
  rcases cut_cases hc with rfl | ⟨p, s, e, rfl, -, -, -, -, rfl⟩
  · exact ⟨fun hk => ⟨hk, hlt k hk⟩, fun hk => hk.1⟩
  · rw [PendingTimePriceBar.holds_pruneToReorgedBlockNumber, and_comm]

end TimePriceBar

namespace TimePriceBars

variable {t₀ r : Nat} {x x' : TimePriceBars}

/-- Whatever the calls return, the tick of a pending bar aggregates its blocks. -/
theorem calls_reduced {rc : Option Nat} {res : Resolution} {config : Option IndicatorsConfig}
    {cs : List BarsCall} (h : (calls t₀).run (.new rc res config) cs = some x) :
    AllBars (fun _ bar => bar.Reduced) x := by
  refine Machine.run_invariant (fun bars call bars' hb hstep => ?_) h fun key bar hk => ?_
  · rw [calls_step_state hstep]
    cases call with
    | insertData n d f =>
      refine AllBars.insertData TimePriceBar.reduced_barRule hb ?_ ?_ ?_
      · exact fun b tick bar _ _ _ => TimePriceBar.Reduced.withBlocks _
      · exact fun bar _ _ => TimePriceBar.Reduced.withBlocks _
      · exact fun key bar finalized _ _ hbar => hbar.settle
    | pruneToReorgedBlockNumber r =>
      exact hb.pruneToReorgedBlockNumber TimePriceBar.reduced_barRule r
  · cases hk

theorem Contiguous.nonempty (h : Contiguous x) {key : Nat} {bar : TimePriceBar}
    (hg : x.data.get? key = some bar) : ∃ k, bar.Holds k := by
  obtain ⟨s, e, hse, -, -, hholds⟩ := h.within key bar hg
  exact ⟨s, (hholds s).mpr ⟨le_rfl, hse⟩⟩

/-- Bars that follow each other hold their blocks in order. -/
theorem Contiguous.inOrder (h : Contiguous x) : x.InOrder := by
  intro key key' k k' hlt hk hk'
  obtain ⟨bar, hg, hk⟩ := hk
  obtain ⟨bar', hg', hk'⟩ := hk'
  -- on the distance of the keys, cut at a bar between them
  induction hd : key' - key using Nat.strongRecOn generalizing key key' k k' bar bar' with
  | ind d ih =>
    by_cases hbetween : ∃ between b, key < between ∧ between < key' ∧
        x.data.get? between = some b
    · obtain ⟨between, b, hl, hr, hb⟩ := hbetween
      obtain ⟨j, hj⟩ := h.nonempty hb
      have hfirst := ih (between - key) (by omega) key between k j hl bar hg hk b hb hj rfl
      have hsecond := ih (key' - between) (by omega) between key' j k' hr b hb hj bar' hg' hk' rfl
      exact hfirst.trans hsecond
    · obtain ⟨e, he, hs⟩ := h.across key key' bar bar' hg hg' hlt fun between hl hr =>
        Option.eq_none_iff_forall_ne_some.mpr fun b hb => hbetween ⟨between, b, hl, hr, hb⟩
      obtain ⟨s₁, e₁, -, -, he₁, hbar⟩ := h.within key bar hg
      obtain ⟨s₂, e₂, -, hs₂, -, hbar'⟩ := h.within key' bar' hg'
      have hee : e₁ = e := Option.some.inj (he₁.symm.trans he)
      have hss : s₂ = e + 1 := Option.some.inj (hs₂.symm.trans hs)
      have hle := ((hbar k).mp hk).2
      have hge := ((hbar' k').mp hk').1
      omega

/-- Every bar has the indicators that the bars now give its bucket. -/
def UpToDate (bars : TimePriceBars) : Prop :=
  ∀ key bar, bars.data.get? key = some bar → bar.indicators = bars.computed key

theorem Fresh.upToDate (h : x.Fresh) : x.UpToDate := fun key bar hg => (h key bar hg).1

/-- What a reorg to block `r` has to leave of the bars. -/
structure ExactlyPruned (r : Nat) (bars bars' : TimePriceBars) : Prop where
  remaining : ∀ key, (∃ bar', bars'.data.get? key = some bar') ↔ ∃ k, bars.Stores key k ∧ k < r
  blocks : ∀ key bar bar', bars.data.get? key = some bar → bars'.data.get? key = some bar' →
    ∀ k, bar'.Holds k ↔ bar.Holds k ∧ k < r
  ticks : ∀ key p', bars'.data.get? key = some (.pending p') →
    p'.data = TickData.reduce p'.blockPriceBars.values ∧
      ∃ p, bars.data.get? key = some (.pending p) ∧
        ∀ k, p'.blockPriceBars.get? k = if k < r then p.blockPriceBars.get? k else none
  unchanged : ∀ key bar, bars.data.get? key = some bar → (∀ k, bar.Holds k → k < r) →
    bars'.data.get? key = some bar
  finalized : ∀ key f, bars'.data.get? key = some (.finalized f) →
    bars.data.get? key = some (.finalized f) ∧ f.endBlockNumber < r
  upToDate : bars'.UpToDate

/-- The bars that remain are those of the cut. -/
theorem Contiguous.cut_of_remaining (h : Contiguous x)
    (hok : pruneToReorgedBlockNumber r x = .ok () x') {key : Nat} {bar' : TimePriceBar}
    (hg' : x'.data.get? key = some bar') : ∃ bar cutBar, x.data.get? key = some bar ∧
      bar.cut r = some cutBar ∧ bar'.content = cutBar.content ∧ ∀ k, bar'.Holds k → k < r := by
  obtain ⟨hcontent, hbelow⟩ :=
    pruneToReorgedBlockNumber_ok_contentAt (fun key bar => h.nonempty) h.inOrder hok
  have hkey := hcontent key
  rw [contentAt, hg', Option.map_some, keptAt_eq] at hkey
  obtain ⟨cutBar, hcut, he⟩ := Option.map_eq_some_iff.mp hkey.symm
  obtain ⟨bar, hg, hc⟩ := Option.bind_eq_some_iff.mp hcut
  exact ⟨bar, cutBar, hg, hc, he.symm, hbelow key bar' hg'⟩

/-- A bar all of whose blocks come before the reorged one is not touched. -/
theorem get?_pruneToReorgedBlockNumber_of_below
    (hok : pruneToReorgedBlockNumber r x = .ok () x') {key : Nat} {bar : TimePriceBar}
    (hg : x.data.get? key = some bar) (hlt : ∀ k, bar.Holds k → k < r) :
    x'.data.get? key = some bar := by
  obtain ⟨pruned, looped, hloop, hupdate⟩ := pruneToReorgedBlockNumber_ok hok
  obtain ⟨-, hswept, -⟩ := pruneLoop_ok hloop
  have hkey : pruned ≠ some key := by
    rintro rfl
    obtain ⟨⟨q, k, hq, hk, hrk⟩, -⟩ := pruneLoop_some hloop
    rw [hg] at hq
    cases hq
    have := hlt k hk
    omega
  rw [updateTouched_get?_of_not_mem hupdate fun hm => hkey (Option.mem_toList.mp hm)]
  rcases hswept key hkey with he | ⟨-, hnone⟩
  · exact he.trans hg
  · rw [hg, Option.bind_some, TimePriceBar.cut_of_lt hlt] at hnone
    cases hnone

/-- A bar that was not there is not made. -/
theorem get?_pruneToReorgedBlockNumber_of_absent
    (hok : pruneToReorgedBlockNumber r x = .ok () x') {key : Nat}
    (hg : x.data.get? key = none) : x'.data.get? key = none := by
  have hsame := pruneToReorgedBlockNumber_sameContent r x
  have hstate := pruneLoop_state r (x.data.size + 2) none x key
  rw [hok] at hsame
  rw [hg, Option.bind_none, or_self] at hstate
  have hcontent := hsame.content key
  rw [hstate] at hcontent
  exact Option.map_eq_none_iff.mp hcontent

/-- The bars below one that keeps a block are as before. -/
theorem Contiguous.get?_of_lt (h : Contiguous x)
    (hok : pruneToReorgedBlockNumber r x = .ok () x') {key key' k : Nat}
    (hk : x.Stores key' k) (hkr : k < r) (hlt : key < key') :
    x'.data.get? key = x.data.get? key := by
  cases hg : x.data.get? key with
  | none => exact get?_pruneToReorgedBlockNumber_of_absent hok hg
  | some bar =>
    refine get?_pruneToReorgedBlockNumber_of_below hok hg fun j hj => ?_
    have := h.inOrder key key' j k hlt ⟨bar, hg, hj⟩ hk
    omega

/-- The indicators stay up to date, also those of the bar that was cut. -/
theorem Contiguous.upToDate_pruneToReorgedBlockNumber (h : Contiguous x) (hu : x.UpToDate)
    (hok : pruneToReorgedBlockNumber r x = .ok () x') : x'.UpToDate := by
  have hs := pruneToReorgedBlockNumber_ok_settings hok
  intro key bar' hg'
  obtain ⟨bar, cutBar, hg, hc, he, hlt⟩ := h.cut_of_remaining hok hg'
  obtain ⟨j, hj⟩ := TimePriceBar.exists_holds_of_cut hc (h.nonempty hg)
  have hstores : x.Stores key j := ⟨bar, hg, TimePriceBar.holds_of_cut hc hj⟩
  have hjr := hlt j ((TimePriceBar.holds_iff_of_content he j).mpr hj)
  have hbelow : ∀ k, k < key → x'.data.get? k = x.data.get? k := fun k hk =>
    h.get?_of_lt hok hstores hjr hk
  by_cases hall : ∀ k, bar.Holds k → k < r
  · have hkey := get?_pruneToReorgedBlockNumber_of_below hok hg hall
    have hupTo : ∀ k, k ≤ key → x'.data.get? k = x.data.get? k := by
      intro k hk
      rcases hk.lt_or_eq with hlt | rfl
      · exact hbelow k hlt
      · rw [hkey, hg]
    rw [hg'] at hkey
    cases hkey
    rw [hu key bar' hg]
    refine (computed_congr hs (fun k hk => ?_) fun k hk => ?_).symm
    · rw [hupTo k hk]
    · rw [hbelow k hk]
  · obtain ⟨pruned, looped, hloop, hupdate⟩ := pruneToReorgedBlockNumber_ok hok
    obtain ⟨-, hswept, hstraddled⟩ := pruneLoop_ok hloop
    have hconfig := (pruneLoop_ok_settings hloop).indicatorsConfig
    have hpruned : pruned = some key := by
      by_contra hp
      have hlooped := updateTouched_get?_of_not_mem hupdate fun hm => hp (Option.mem_toList.mp hm)
      rcases hswept key hp with he | ⟨he, -⟩
      · rw [hlooped, he, hg] at hg'
        cases hg'
        exact hall hlt
      · rw [hlooped, he] at hg'
        cases hg'
    subst hpruned
    obtain ⟨q, -, -, hq⟩ := hstraddled key rfl
    cases hcfg : x.indicatorsConfig with
    | none =>
      rw [hcfg] at hupdate
      cases hupdate
      rw [hg'] at hq
      cases hq
      rw [computed, hconfig, hcfg]
      rfl
    | some config =>
      rw [hcfg] at hupdate hconfig
      obtain ⟨u, z, hz, hnil⟩ := EStateM.bind_eq_ok.mp hupdate
      cases hnil
      exact (updateIndicators_computed hconfig hz hg').1

/-- A reorg does not change which bars are finalized. -/
theorem Contiguous.isFinalized_of_remaining (h : Contiguous x)
    (hok : pruneToReorgedBlockNumber r x = .ok () x') {key : Nat} {bar bar' : TimePriceBar}
    (hg : x.data.get? key = some bar) (hg' : x'.data.get? key = some bar') :
    bar'.isFinalized = bar.isFinalized := by
  obtain ⟨bar₀, cutBar, hg₀, hc, he, -⟩ := h.cut_of_remaining hok hg'
  rw [hg] at hg₀
  cases hg₀
  rw [← TimePriceBar.isFinalized_of_cut hc, ← TimePriceBar.isFinalized_content, he,
    TimePriceBar.isFinalized_content]

/-- What is left of a pending bar, block by block. -/
theorem cut_pending_get? {p p' : PendingTimePriceBar} {cutBar : TimePriceBar}
    (hc : (TimePriceBar.pending p).cut r = some cutBar)
    (he : (TimePriceBar.pending p').content = cutBar.content)
    (hlt : ∀ k, (TimePriceBar.pending p').Holds k → k < r) (k : Nat) :
    p'.blockPriceBars.get? k = if k < r then p.blockPriceBars.get? k else none := by
  have hnone : ¬k < r → p'.blockPriceBars.get? k = none := fun hk =>
    Option.eq_none_iff_forall_ne_some.mpr fun tick ht => hk (hlt k ⟨tick, ht⟩)
  rcases TimePriceBar.cut_cases hc with rfl | ⟨q, s, e, hq, -, -, -, -, rfl⟩
  · injection he with he
    injection he with _ _ hblocks
    split
    next => rw [hblocks]
    next hk => exact hnone hk
  · cases hq
    injection he with he
    injection he with _ _ hblocks
    rw [hblocks]
    have hfilter := congrArg (fun b => b.get? k)
      (PendingTimePriceBar.blockPriceBars_pruneToReorgedBlockNumber p r)
    simp only [OrdMap.get?_filterKeys, decide_eq_true_eq] at hfilter
    exact hfilter

/-- A reorg stops, and one that returns `Ok` keeps exactly the blocks before the reorged one. -/
theorem pruneToReorgedBlockNumber_exact (hcontiguous : x.Contiguous)
    (hreduced : AllBars (fun _ bar => bar.Reduced) x) (hfresh : x.UpToDate) :
    (∀ stopped, pruneToReorgedBlockNumber r x ≠ .error .outOfBudget stopped) ∧
      ∀ x', pruneToReorgedBlockNumber r x = .ok () x' → ExactlyPruned r x x' := by
  refine ⟨exec_ne_outOfBudget 0 (.pruneToReorgedBlockNumber r) x, fun x' hok => ?_⟩
  have hleft : AllBars (fun _ bar => bar.Reduced) x' := by
    have hstate := AllBars.pruneToReorgedBlockNumber TimePriceBar.reduced_barRule r hreduced
    rwa [hok] at hstate
  have hblocks : ∀ key bar bar', x.data.get? key = some bar → x'.data.get? key = some bar' →
      ∀ k, bar'.Holds k ↔ bar.Holds k ∧ k < r := by
    intro key bar bar' hg hg' k
    obtain ⟨bar₀, cutBar, hg₀, hc, he, hlt⟩ := hcontiguous.cut_of_remaining hok hg'
    rw [hg] at hg₀
    cases hg₀
    rw [TimePriceBar.holds_iff_of_content he]
    refine TimePriceBar.holds_cut_iff hc (fun j hj => hlt j ?_) k
    exact (TimePriceBar.holds_iff_of_content he j).mpr hj
  refine ⟨fun key => ⟨?_, ?_⟩, hblocks, fun key p' hg' => ⟨hleft key _ hg' p' rfl, ?_⟩,
    fun key bar => get?_pruneToReorgedBlockNumber_of_below hok, fun key f hg' => ?_,
    hcontiguous.upToDate_pruneToReorgedBlockNumber hfresh hok⟩
  · rintro ⟨bar', hg'⟩
    obtain ⟨bar, cutBar, hg, hc, he, hlt⟩ := hcontiguous.cut_of_remaining hok hg'
    obtain ⟨j, hj⟩ := TimePriceBar.exists_holds_of_cut hc (hcontiguous.nonempty hg)
    exact ⟨j, ⟨bar, hg, TimePriceBar.holds_of_cut hc hj⟩,
      hlt j ((TimePriceBar.holds_iff_of_content he j).mpr hj)⟩
  · rintro ⟨k, ⟨bar, hg, hk⟩, hkr⟩
    obtain ⟨hcontent, -⟩ := pruneToReorgedBlockNumber_ok_contentAt
      (fun key bar => hcontiguous.nonempty) hcontiguous.inOrder hok
    have hcut : bar.cut r ≠ none := by
      intro hnone
      obtain ⟨p, s, rfl, hs, hrs⟩ := TimePriceBar.cut_eq_none_iff.mp hnone
      have hsk := (PendingTimePriceBar.startBlockNumber_eq_some_iff.mp hs).2 k hk
      omega
    obtain ⟨cutBar, hc⟩ := Option.ne_none_iff_exists'.mp hcut
    have hkey := hcontent key
    rw [keptAt_eq, hg, Option.bind_some, hc, Option.map_some] at hkey
    obtain ⟨bar', hg', -⟩ := Option.map_eq_some_iff.mp hkey
    exact ⟨bar', hg'⟩
  · obtain ⟨bar, cutBar, hg, hc, he, hlt⟩ := hcontiguous.cut_of_remaining hok hg'
    have hkind := hcontiguous.isFinalized_of_remaining hok hg hg'
    cases bar with
    | pending p => exact ⟨p, hg, cut_pending_get? hc he hlt⟩
    | finalized f => cases hkind
  · obtain ⟨bar, cutBar, hg, -, -, hlt⟩ := hcontiguous.cut_of_remaining hok hg'
    have hkind := hcontiguous.isFinalized_of_remaining hok hg hg'
    cases bar with
    | pending p => cases hkind
    | finalized g =>
      have hkept := pruneToReorgedBlockNumber_finalized hok hg
      rw [hg'] at hkept
      cases hkept
      obtain ⟨k, hk⟩ := hcontiguous.nonempty hg
      exact ⟨hg, hlt f.endBlockNumber ⟨hk.1.trans hk.2, le_rfl⟩⟩

/-- An insert of an orderly history completes. -/
theorem Orderly.insertsOk {h h' : BarsHistory} {call : BarsCall} (ho : Orderly t₀ h)
    (hstep : (history t₀).step h call = some h') : InsertsOk t₀ h call h' := by
  rintro n d f rfl
  obtain ⟨hadmits, hpanic, rfl⟩ := history_step_insertData hstep
  rcases ho.insertData_cases hadmits d with ⟨bars, hok⟩ | ⟨bars, herr⟩
  · rw [hok]
    rfl
  · exact absurd herr (hpanic bars)

/-- A history that retains every bar, and whose reorgs stay ahead of finalization, reaches
states that a reorg prunes exactly. -/
theorem history_prunable {res : Resolution} {config : Option IndicatorsConfig}
    {cs : List BarsCall} {h : BarsHistory}
    (hahead : (history t₀).Along (ReorgsAhead t₀) (.new none res config) cs)
    (hrun : (history t₀).run (.new none res config) cs = some h) :
    h.bars.Contiguous ∧ AllBars (fun _ bar => bar.Reduced) h.bars ∧ h.bars.UpToDate := by
  obtain ⟨ho, hs⟩ := Machine.run_invariant_along
    (I := fun h => Orderly t₀ h ∧ AllRetained t₀ h.nextBlock h.bars)
    (fun s call s' hI hstep hp =>
      ⟨hI.1.step hstep hp, (history_allRetained_step hI.2 hstep (hI.1.insertsOk hstep)).1⟩)
    hahead hrun ⟨new_orderly (fun c hc => by cases hc) res config, new_allRetained t₀ res config⟩
  exact ⟨ho.chained.linked.contiguous ho.chained.nonempty,
    fun key bar hg => (ho.chained.bar key bar hg).reduced, hs.sound.fresh.upToDate⟩

/-- Four blocks over two buckets, and a reorg into the second bucket. -/
theorem pruneToReorgedBlockNumber_exact_twoBars : ∃ h x',
    (history 5996).run (.new none .fiveMinutes (some .all)) [.insertData 0 unitTick none,
      .insertData 1 unitTick none, .insertData 2 unitTick (some 5700),
        .insertData 3 unitTick (some 5700)] = some h ∧
      pruneToReorgedBlockNumber 3 h.bars = .ok () x' ∧ ExactlyPruned 3 h.bars x' := by
  have hruns : (((history 5996).run (.new none .fiveMinutes (some .all))
      [.insertData 0 unitTick none, .insertData 1 unitTick none,
        .insertData 2 unitTick (some 5700), .insertData 3 unitTick (some 5700)]).bind fun h =>
          (history 5996).step h (.pruneToReorgedBlockNumber 3)).isSome := by decide +kernel
  obtain ⟨h', hbind⟩ := Option.isSome_iff_exists.mp hruns
  obtain ⟨h, hrun, hstep⟩ := Option.bind_eq_some_iff.mp hbind
  obtain ⟨x', hok, -⟩ := history_step_pruneToReorgedBlockNumber hstep
  have hahead : (history 5996).Along (ReorgsAhead 5996) (.new none .fiveMinutes (some .all))
      [.insertData 0 unitTick none, .insertData 1 unitTick none,
        .insertData 2 unitTick (some 5700), .insertData 3 unitTick (some 5700)] :=
    fun h₁ _ => ⟨nofun, fun h₂ _ => ⟨nofun, fun h₃ _ => ⟨nofun, fun h₄ _ => ⟨nofun, trivial⟩⟩⟩⟩
  obtain ⟨hcontiguous, hreduced, hfresh⟩ := history_prunable hahead hrun
  exact ⟨h, x', hrun, hok, (pruneToReorgedBlockNumber_exact hcontiguous hreduced hfresh).2 x' hok⟩

end TimePriceBars

end Pochtecatl
