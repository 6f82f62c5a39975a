import Pochtecatl.ReorgPadding

namespace Pochtecatl

namespace TimePriceBars

open ResolutionTimestamp BlockInsert

/-- The kept, the orphaned and the replacing blocks of a reorg to `r`. -/
structure ReorgOf (t₀ r : Nat) (res : Resolution) (K O M : List BlockInsert) : Prop where
  kept : Admissible t₀ r res K
  orphaned : Admissible t₀ r res O
  replacing : Admissible t₀ r res M
  kept_lt : ∀ b ∈ K, b.blockNumber < r
  le_orphaned : ∀ b ∈ O, r ≤ b.blockNumber
  le_replacing : ∀ b ∈ M, r ≤ b.blockNumber

def reorgedRun (t₀ r : Nat) (K O M : List BlockInsert) : TimePriceBarsM Unit := do
  insertAll t₀ K
  insertAll t₀ O
  pruneToReorgedBlockNumber r
  insertAll t₀ M

/-- The blocks skipped before the first replacement go to the same bar with and without
the orphaned blocks: there is nothing of theirs to pad, the bar of the last kept block takes
no padding, or all of it belongs there and the orphaned blocks did not finalize the bar. -/
def PadsAlike (t₀ r : Nat) (res : Resolution) (K O M : List BlockInsert) : Prop :=
  O = [] ∨ (∀ m ∈ M.head?, m.blockNumber = r) ∨ ∀ b ∈ K.getLast?,
    (Reached b.finalizedTimestamp (blockBucket t₀ res b.blockNumber) ∧
      ¬Passed K.dropLast (blockBucket t₀ res b.blockNumber)) ∨
    blockBucket t₀ res (r - 1) = blockBucket t₀ res b.blockNumber ∧
      (Passed O (blockBucket t₀ res b.blockNumber) → Passed K (blockBucket t₀ res b.blockNumber))

variable {t₀ r : Nat} {res : Resolution} {config : Option IndicatorsConfig}
  {K O M : List BlockInsert} {x x' y : TimePriceBars}

theorem insertAll_append (t₀ : Nat) (l l' : List BlockInsert) :
    insertAll t₀ (l ++ l') = (insertAll t₀ l >>= fun _ => insertAll t₀ l') := by
  induction l with
  | nil => simp [insertAll]
  | cons b l ih => simp only [List.cons_append, insertAll, ih, bind_assoc]

theorem insertAll_append_ok {l l' : List BlockInsert} {x x' : TimePriceBars} :
    insertAll t₀ (l ++ l') x = .ok () x' ↔
      ∃ s, insertAll t₀ l x = .ok () s ∧ insertAll t₀ l' s = .ok () x' := by
  rw [insertAll_append]
  constructor
  · intro h
    obtain ⟨u, s, hs, hs'⟩ := EStateM.bind_eq_ok.mp h
    exact ⟨s, hs, hs'⟩
  · rintro ⟨s, hs, hs'⟩
    exact EStateM.bind_eq_ok.mpr ⟨(), s, hs, hs'⟩

theorem reorgedRun_ok (h : reorgedRun t₀ r K O M x = .ok () x') : ∃ s orphaned pruned,
    insertAll t₀ K x = .ok () s ∧ insertAll t₀ O s = .ok () orphaned ∧
      pruneToReorgedBlockNumber r orphaned = .ok () pruned ∧
        insertAll t₀ M pruned = .ok () x' := by
  obtain ⟨_, s, hK, h⟩ := EStateM.bind_eq_ok.mp h
  obtain ⟨_, orphaned, hO, h⟩ := EStateM.bind_eq_ok.mp h
  obtain ⟨_, pruned, hr, hM⟩ := EStateM.bind_eq_ok.mp h
  exact ⟨s, orphaned, pruned, hK, hO, hr, hM⟩

/-- The state after the kept blocks. -/
theorem ReorgOf.kept_tip (h : ReorgOf t₀ r res K O M)
    (hK : insertAll t₀ K (.new none res config) = .ok () y) :
    Sound t₀ y ∧ Tip t₀ (K.getLast?.map (·.blockNumber)) y ∧ y.resolution = res ∧
      ∀ key, Reached y.lastFinalizedTimestamp key ↔ Passed K key := by
  obtain ⟨hs, htip⟩ := insertAll_tip (new_sound t₀ res config) (new_tip t₀ none res config)
    h.kept.increasing h.kept.aligned (fun _ hn => by cases hn) hK
  rw [Option.or_none] at htip
  refine ⟨hs, htip, (insertAll_settings hK).resolution, fun key => ?_⟩
  rw [insertAll_reached hK key, or_iff_right]
  rintro ⟨f, hf, -⟩
  cases hf

/-- The bar of the last kept block is finalized by that block's insert or not at all. -/
theorem ReorgOf.settled_iff (h : ReorgOf t₀ r res K O M) {b : BlockInsert}
    (hb : K.getLast? = some b) (hK : insertAll t₀ K (.new none res config) = .ok () y) :
    (∃ f, y.contentAt (blockBucket t₀ res b.blockNumber) = some (.finalized f)) ↔
      Reached b.finalizedTimestamp (blockBucket t₀ res b.blockNumber) ∧
        ¬Passed K.dropLast (blockBucket t₀ res b.blockNumber) := by
  obtain ⟨-, htip, hres, -⟩ := h.kept_tip hK
  rw [hb] at htip
  obtain ⟨bar, hg, -⟩ := htip.stored b.blockNumber rfl
  rw [hres] at hg
  have hsplit : K.dropLast ++ [b] = K := List.dropLast_append_getLast? b hb
  rw [← hsplit] at hK
  obtain ⟨s, hinit, hlast⟩ := insertAll_append_ok.mp hK
  obtain ⟨y', hstep, hdone⟩ := insertAll_cons_ok hlast
  cases hdone
  have hmem : ∀ c ∈ K.dropLast, c ∈ K := fun c hc => List.dropLast_subset K hc
  obtain ⟨hs, -⟩ := insertAll_tip (new_sound t₀ res config) (new_tip t₀ none res config)
    ((h.kept.increasing.sublist ((List.dropLast_sublist K).map _)))
    (fun c hc => h.kept.aligned c (hmem c hc)) (fun _ hn => by cases hn) hinit
  have hsres : s.resolution = res := (insertAll_settings hinit).resolution
  have hreached := insertAll_reached hinit (blockBucket t₀ res b.blockNumber)
  have hfinal := @isFinalized_insertData_iff _ _ _ _ _ _ bar hs hstep (hsres.symm ▸ hg)
  rw [hsres, hreached, or_iff_right (by rintro ⟨f, hf, -⟩; cases hf)] at hfinal
  rw [← hfinal, contentAt, hg, Option.map_some]
  cases bar with
  | pending p => simp [TimePriceBar.content, TimePriceBar.isFinalized]
  | finalized f => simp [TimePriceBar.content, TimePriceBar.isFinalized]

theorem ReorgOf.not_passed (h : ReorgOf t₀ r res K O M) {key : Nat}
    (hkey : blockBucket t₀ res r ≤ key) : ¬Passed K key ∧ ¬Passed O key ∧ ¬Passed M key :=
  ⟨fun ⟨b, hb, hr⟩ => h.kept.final b hb (hr.of_le hkey),
    fun ⟨b, hb, hr⟩ => h.orphaned.final b hb (hr.of_le hkey),
    fun ⟨b, hb, hr⟩ => h.replacing.final b hb (hr.of_le hkey)⟩

theorem ReorgOf.tip_lt (h : ReorgOf t₀ r res K O M) {n : Nat}
    (hn : K.getLast?.map (·.blockNumber) = some n) : n < r := by
  obtain ⟨b, hb, rfl⟩ := Option.map_eq_some_iff.mp hn
  exact h.kept_lt b (List.mem_of_getLast? hb)

/-- The state that the reorg leaves, as the first replacement finds it. -/
theorem ReorgOf.pruned (h : ReorgOf t₀ r res K O M) (hpad : PadsAlike t₀ r res K O M)
    {m : BlockInsert} (hm : M.head? = some m) {orphaned pruned : TimePriceBars}
    (hK : insertAll t₀ K (.new none res config) = .ok () y)
    (hO : insertAll t₀ O y = .ok () orphaned)
    (hr : pruneToReorgedBlockNumber r orphaned = .ok () pruned) :
    Sound t₀ pruned ∧ AllBelow r pruned ∧
      (∀ key, Reached pruned.lastFinalizedTimestamp key ↔ Passed K key ∨ Passed O key) ∧
      ∃ padX x₁ padY y₁,
        padMissing m.blockNumber (blockTime t₀ m.blockNumber) pruned = .ok padX x₁ ∧
        padMissing m.blockNumber (blockTime t₀ m.blockNumber) y = .ok padY y₁ ∧ Ahead x₁ y₁ := by
  obtain ⟨hs, htip, hres, hreached⟩ := h.kept_tip hK
  have hmr : r ≤ m.blockNumber := h.le_replacing m (List.mem_of_mem_head? hm)
  have hfree : ¬Reached y.lastFinalizedTimestamp (blockBucket t₀ y.resolution r) := by
    rw [hreached, hres]
    exact (h.not_passed le_rfl).1
  have hfrontier : ∀ key, Reached orphaned.lastFinalizedTimestamp key ↔
      Passed K key ∨ Passed O key := fun key => by rw [insertAll_reached hO, hreached]
  by_cases hne : O = []
  · subst hne
    cases hO
    obtain ⟨hahead, hbelow, hlast⟩ := (Ahead.refl y).pruneToReorgedBlockNumber hs hs htip.ordered
      ⟨rfl, rfl, rfl⟩ (fun _ => Iff.rfl)
      (fun key => (keptAt_of_allBelow (htip.allBelow fun n hn => h.tip_lt hn) key).symm) hr
    have hnolag : ∀ key, ¬Lag pruned y key := fun key hl => hl.2 (hlast ▸ hl.1)
    have hlb := hahead.lastBlock_eq fun key bar _ => hnolag key
    obtain ⟨padded, x₁, y₁, hx₁, hy₁, h₁⟩ := hahead.padMissing m.blockNumber
      (blockTime t₀ m.blockNumber) (by rw [hlb]) fun b tick _ _ => ⟨hlb, hnolag _⟩
    exact ⟨hs.pruneToReorgedBlockNumber hr, hbelow, fun key => hlast ▸ hfrontier key, padded, x₁,
      padded, y₁, hx₁, hy₁, h₁⟩
  · obtain ⟨padded, kept, hp⟩ := padMissing_ok r (blockTime t₀ r) y
    obtain ⟨hahead, hbelow, hlast, hsound⟩ := exists_kept hs htip (hres ▸ h.orphaned) h.le_orphaned
      (fun n hn => h.tip_lt hn) hfree hne hp hO hr
    refine ⟨hsound, hbelow, fun key => hlast ▸ hfrontier key,
      padMissing_alike hs htip (fun n hn => h.tip_lt hn) hmr hp hahead ?_⟩
    rcases hpad with hO' | hm' | hlastKept
    · exact absurd hO' hne
    · exact Or.inl (hm' m hm)
    · refine Or.inr fun n hn => ?_
      obtain ⟨b, hb, rfl⟩ := Option.map_eq_some_iff.mp hn
      rw [hres]
      rcases hlastKept b hb with hsettled | ⟨hbucket, hpassed⟩
      · exact Or.inl ((h.settled_iff hb hK).mpr hsettled)
      · refine Or.inr ⟨hbucket, fun hlag => hlag.2 ((hreached _).mpr ?_)⟩
        exact ((hfrontier _).mp (hlast ▸ hlag.1)).elim id hpassed

/-- The replacements are taken without the orphaned blocks too. -/
theorem ReorgOf.exists_paired (h : ReorgOf t₀ r res K O M) (hpad : PadsAlike t₀ r res K O M)
    (hne : M ≠ []) {orphaned pruned : TimePriceBars}
    (hK : insertAll t₀ K (.new none res config) = .ok () y)
    (hO : insertAll t₀ O y = .ok () orphaned)
    (hr : pruneToReorgedBlockNumber r orphaned = .ok () pruned)
    (hM : insertAll t₀ M pruned = .ok () x') :
    ∃ tip y', insertAll t₀ M y = .ok () y' ∧ Paired t₀ tip x' y' ∧
      ∀ key, Reached x'.lastFinalizedTimestamp key ↔
        (Passed K key ∨ Passed O key) ∨ Passed M key := by
  obtain ⟨m, l, rfl⟩ := List.exists_cons_of_ne_nil hne
  obtain ⟨hs, htip, hres, -⟩ := h.kept_tip hK
  obtain ⟨hsp, hbelow, hreached, padX, x₁, padY, y₁, hx₁, hy₁, h₁⟩ := h.pruned hpad rfl hK hO hr
  obtain ⟨s, hstep, hrest⟩ := insertAll_cons_ok hM
  have hmr : r ≤ m.blockNumber := h.le_replacing m List.mem_cons_self
  have hbucket : blockBucket t₀ y.resolution r ≤ blockBucket t₀ y.resolution m.blockNumber :=
    blockBucket_mono hmr
  have hfree : ¬Reached pruned.lastFinalizedTimestamp (blockBucket t₀ res r) := by
    rw [hreached]
    exact fun hp => hp.elim (h.not_passed le_rfl).1 (h.not_passed le_rfl).2.1
  have hreplacing : Admissible t₀ r y.resolution (m :: l) := hres ▸ h.replacing
  have hbelow' := hbelow.mono hmr
  obtain ⟨y₂, hy₂, hpair⟩ := Paired.of_padMissing m.finalizedTimestamp hsp hs htip
    (fun n hn => (h.tip_lt hn).trans_le hmr) hbelow' hx₁ hy₁ h₁
    (hreplacing.aligned m List.mem_cons_self) (fun _ hv => hv)
    (fun hr => hfree (hres ▸ hr.of_le hbucket))
    (fun hr => hreplacing.final m List.mem_cons_self (hr.of_le hbucket)) hstep
  have hres₂ : y₂.resolution = y.resolution := (insertData_ok_settings hy₂).resolution
  obtain ⟨-, -, -, -, -, hfrontier, -⟩ := insertData_ok_contentAt hstep
  have hfree₂ : ¬Reached s.lastFinalizedTimestamp (blockBucket t₀ y₂.resolution r) := by
    rw [hfrontier, reached_frontierAfter, hres₂]
    exact fun hr => hr.elim (fun hp => hfree (hres ▸ hp)) (hreplacing.final m List.mem_cons_self)
  obtain ⟨tip, y', hy', hpaired⟩ := hpair.insertAll (g := id) (hres₂ ▸ hreplacing.tail)
    (fun b hb => h.le_replacing b (List.mem_cons_of_mem _ hb))
    (fun n hn b hb => by
      cases hn
      exact (List.pairwise_cons.mp h.replacing.increasing).1 _ (List.mem_map_of_mem hb))
    (fun _ _ hv => hv) hfree₂ hrest
  have hid : l.map (mapFinalized id) = l := List.map_id l
  rw [hid] at hy'
  refine ⟨tip, y', (insertAll_cons_of_ok hy₂).trans hy', hpaired, fun key => ?_⟩
  rw [insertAll_reached hM, hreached]

/-- An insert leaves alone the bar of a bucket that neither its block nor its padding goes to. -/
theorem stores_lt_of_insertData {n key : Nat} {d : TickData} {f : Option Nat}
    (hne : key ≠ blockBucket t₀ x.resolution n)
    (hpad : ∀ b tick p, x.lastBlock = some (b, tick) → b < n →
      key = blockBucket t₀ x.resolution b →
      (x.data.get? key).getD (.pending .new) ≠ .pending p)
    (hlt : ∀ k, x.Stores key k → k < r)
    (hok : insertData n d (blockTime t₀ n) f x = .ok () x') {k : Nat} (hk : x'.Stores key k) :
    k < r := by
  obtain ⟨-, e, -, hke, -, hold | ⟨hkey, -⟩ | ⟨b, tick, p, hl, hbe, hen, hkey, hp⟩⟩ :=
    exists_arrives_of_insertData hok hk
  · exact hke.trans_lt (hlt e hold)
  · exact absurd hkey hne
  · rw [padTarget_blockTime (by omega)] at hkey
    exact absurd hp (hpad b tick p hl (by omega) hkey)

/-- A run of later blocks leaves alone the bars before the one of its last block. -/
theorem stores_lt_of_insertAll {n key : Nat} {l : List BlockInsert} (hs : Sound t₀ x)
    (hbelow : ∀ key k, x.Stores key k → k ≤ n)
    (hstored : x.Stores (blockBucket t₀ x.resolution n) n)
    (hkey : key < blockBucket t₀ x.resolution n)
    (hl : (l.map (·.blockNumber)).Pairwise (· < ·)) (hn : ∀ b ∈ l, n < b.blockNumber)
    (haligned : ∀ b ∈ l, ∀ f, b.finalizedTimestamp = some f → x.resolution.offset ∣ f)
    (hlt : ∀ k, x.Stores key k → k < r) (hok : insertAll t₀ l x = .ok () x') {k : Nat}
    (hk : x'.Stores key k) : k < r := by
  induction l generalizing x n with
  | nil =>
    cases hok
    exact hlt k hk
  | cons b l ih =>
    obtain ⟨s, hstep, hrest⟩ := insertAll_cons_ok hok
    obtain ⟨hb, hl⟩ := List.pairwise_cons.mp hl
    have hnb := hn b List.mem_cons_self
    have hres : s.resolution = x.resolution := (insertData_ok_settings hstep).resolution
    have hxb : AllBelow b.blockNumber x := fun key' bar hg j hj =>
      (hbelow key' j ⟨bar, hg, hj⟩).trans_lt hnb
    have hbucket : blockBucket t₀ x.resolution n ≤ blockBucket t₀ x.resolution b.blockNumber :=
      blockBucket_mono hnb.le
    have hsb := hxb.insertData hstep
    refine ih (hs.insertData hxb (haligned b List.mem_cons_self) hstep)
      (fun key' j ⟨bar, hg, hj⟩ => Nat.le_of_lt_succ (hsb key' bar hg j hj))
      (hres ▸ (stores_of_insertData hs.retention hstep).1) (by rw [hres]; omega) hl
      (fun b' hb' => hb _ (List.mem_map_of_mem hb'))
      (fun b' hb' => hres ▸ haligned b' (List.mem_cons_of_mem _ hb')) (fun j hj => ?_) hrest
    refine stores_lt_of_insertData (by omega) (fun b' tick p hl' hlt' hkey' => ?_) hlt hstep hj
    obtain ⟨tick', hl''⟩ := lastBlock_of_stored hs hbelow hstored
    rw [hl''] at hl'
    cases hl'
    omega

theorem stores_of_insertAll {key k : Nat} {l : List BlockInsert}
    (hretention : x.retentionCount = none) (hok : insertAll t₀ l x = .ok () x')
    (hk : x.Stores key k) : x'.Stores key k := by
  induction l generalizing x with
  | nil =>
    cases hok
    exact hk
  | cons b l ih =>
    obtain ⟨s, hstep, hrest⟩ := insertAll_cons_ok hok
    exact ih ((insertData_ok_settings hstep).retentionCount.trans hretention) hrest
      ((stores_of_insertData hretention hstep).2 key k hk)

/-- Without a reorg the skipped blocks go to the bar of the last kept block. -/
theorem stores_skipped_of_insertAll {b : Nat} {m : BlockInsert} {l : List BlockInsert}
    {blocks : OrdMap Nat TickData} (hs : Sound t₀ x) (htip : Tip t₀ (some b) x)
    (hc : x.contentAt (blockBucket t₀ x.resolution b) = some (.pending (.withBlocks blocks)))
    (hb : b + 1 < m.blockNumber) (hok : insertAll t₀ (m :: l) x = .ok () x') :
    x'.Stores (blockBucket t₀ x.resolution b) (m.blockNumber - 1) := by
  obtain ⟨s, hstep, hrest⟩ := insertAll_cons_ok hok
  obtain ⟨tick, hl⟩ := htip.lastBlock hs
  obtain ⟨last, tick', hl', -, hskipped⟩ := stores_skipped_iff hs.notEarly
    ⟨⟨_, htip.stored _ rfl⟩, fun _ _ => htip.le⟩ hb hstep
  rw [hl] at hl'
  cases hl'
  refine stores_of_insertAll ((insertData_ok_settings hstep).retentionCount.trans hs.retention)
    hrest ((hskipped _ (by omega) (by omega) _).mpr ⟨rfl, fun g hg => ?_, fun c hc => ?_⟩)
  · rw [contentAt, hg] at hc
    cases Option.some.inj hc
  · rw [hs.retention] at hc
    cases hc

/-- After the reorg no replacement goes to an earlier bar that is not the last block's, or
that is finalized. -/
theorem stores_lt_of_replacing {key : Nat} {m : BlockInsert} {l : List BlockInsert}
    (hs : Sound t₀ x) (hbelow : AllBelow r x) (hr : r < m.blockNumber)
    (hl : ((m :: l).map (·.blockNumber)).Pairwise (· < ·))
    (haligned : ∀ b ∈ m :: l, ∀ f, b.finalizedTimestamp = some f → x.resolution.offset ∣ f)
    (hkey : key < blockBucket t₀ x.resolution m.blockNumber)
    (hpad : ∀ b tick, x.lastBlock = some (b, tick) → key = blockBucket t₀ x.resolution b →
      ∃ f, x.contentAt key = some (.finalized f))
    (hok : insertAll t₀ (m :: l) x = .ok () x') {k : Nat} (hk : x'.Stores key k) : k < r := by
  obtain ⟨s, hstep, hrest⟩ := insertAll_cons_ok hok
  have hres : s.resolution = x.resolution := (insertData_ok_settings hstep).resolution
  have hxb := hbelow.mono hr.le
  have hsb := hxb.insertData hstep
  obtain ⟨hm, hl⟩ := List.pairwise_cons.mp hl
  refine stores_lt_of_insertAll (hs.insertData hxb (haligned m List.mem_cons_self) hstep)
    (fun key' j ⟨bar, hg, hj⟩ => Nat.le_of_lt_succ (hsb key' bar hg j hj))
    (hres ▸ (stores_of_insertData hs.retention hstep).1) (hres ▸ hkey) hl
    (fun b hb => hm _ (List.mem_map_of_mem hb))
    (fun b hb => hres ▸ haligned b (List.mem_cons_of_mem _ hb)) (fun j hj => ?_) hrest hk
  refine stores_lt_of_insertData hkey.ne (fun b tick p hlast _ hb => ?_)
    (fun i ⟨bar, hg, hi⟩ => hbelow _ bar hg i hi) hstep hj
  obtain ⟨f, hf⟩ := hpad b tick hlast hb
  exact getD_ne_pending hf

/-- Where the padding does tell the runs apart, the bar of the last kept block ends with block
`m - 1` without the reorg, and before `r` with it. -/
theorem ReorgOf.padsAlike_of_data_eq (h : ReorgOf t₀ r res K O M)
    {orphaned pruned clean bars : TimePriceBars}
    (hK : insertAll t₀ K (.new none res config) = .ok () y)
    (hO : insertAll t₀ O y = .ok () orphaned)
    (hr : pruneToReorgedBlockNumber r orphaned = .ok () pruned)
    (hM : insertAll t₀ M pruned = .ok () bars) (hclean : insertAll t₀ M y = .ok () clean)
    (hdata : bars.data = clean.data) : PadsAlike t₀ r res K O M := by
  by_contra hnot
  simp only [PadsAlike, not_or, not_forall] at hnot
  obtain ⟨hOne, ⟨m, hm, hmr⟩, b, hb, hsettled, hbucket⟩ := hnot
  obtain ⟨hs, htip, hres, hreached⟩ := h.kept_tip hK
  obtain ⟨l, rfl⟩ : ∃ l, M = m :: l := by
    cases M with
    | nil => cases hm
    | cons m' l =>
      cases hm
      exact ⟨l, rfl⟩
  have hrm : r < m.blockNumber :=
    lt_of_le_of_ne (h.le_replacing m List.mem_cons_self) (Ne.symm hmr)
  rw [show K.getLast? = some b from hb, Option.map_some] at htip
  have hbr : b.blockNumber < r := h.kept_lt b (List.mem_of_getLast? hb)
  obtain ⟨tick, hl, ⟨f, hc⟩ | ⟨blocks, hc, hbt⟩⟩ := htip.contentAt_cases hs
  · exact hsettled ((h.settled_iff hb hK).mp ⟨f, hres ▸ hc⟩)
  · obtain ⟨padded, kept, hp⟩ := padMissing_ok r (blockTime t₀ r) y
    have hfree : ¬Reached y.lastFinalizedTimestamp (blockBucket t₀ y.resolution r) := by
      rw [hreached, hres]
      exact (h.not_passed le_rfl).1
    obtain ⟨hahead, hbelow, hlast, hsp⟩ := exists_kept hs htip (hres ▸ h.orphaned) h.le_orphaned
      (fun n hn => by cases hn; exact hbr) hfree hOne hp hO hr
    obtain ⟨hkl, -⟩ := lastBlock_of_padMissing htip hs hbr hl hc hbt hp
    have hkc := padMissing_contentAt hl (padTarget_blockTime hbr.le) hc hp
    have hstored := stores_skipped_of_insertAll hs htip hc (by omega) hclean
    rw [hres] at hkc hstored
    have hpres : pruned.resolution = res :=
      hahead.settings.resolution.trans ((padMissing_settings hp).resolution.trans hres)
    -- the orphaned blocks finalized the bar, or block `r - 1` lies beyond it
    have hbeyond : blockBucket t₀ res b.blockNumber ≠ blockBucket t₀ res (r - 1) ∨
        Passed O (blockBucket t₀ res b.blockNumber) ∧
          ¬Passed K (blockBucket t₀ res b.blockNumber) := by tauto
    have hlt : blockBucket t₀ res b.blockNumber < blockBucket t₀ res m.blockNumber := by
      rcases hbeyond with hne | ⟨hpassed, -⟩
      · have hle : blockBucket t₀ res b.blockNumber ≤ blockBucket t₀ res (r - 1) :=
          blockBucket_mono (by omega)
        have hle' : blockBucket t₀ res (r - 1) ≤ blockBucket t₀ res m.blockNumber :=
          blockBucket_mono (by omega)
        omega
      · have hle : blockBucket t₀ res r ≤ blockBucket t₀ res m.blockNumber :=
          blockBucket_mono hrm.le
        by_contra hge
        exact (h.not_passed (hle.trans (Nat.le_of_not_lt hge))).2.1 hpassed
    have hfinal : ∀ n tick', pruned.lastBlock = some (n, tick') →
        blockBucket t₀ res b.blockNumber = blockBucket t₀ pruned.resolution n →
        ∃ f, pruned.contentAt (blockBucket t₀ res b.blockNumber) = some (.finalized f) := by
      intro n tick' hl' hkey
      have hnumber := hahead.lastBlock_number
      rw [hl', hkl, Option.map_some, Option.map_some, Option.some_inj] at hnumber
      rw [hpres, show n = r - 1 from hnumber] at hkey
      obtain ⟨hpassed, hnotK⟩ := hbeyond.resolve_left fun hne => hne hkey
      have hlag : Lag pruned kept (blockBucket t₀ res b.blockNumber) := by
        rw [Lag, hlast, insertAll_reached hO, padMissing_fields hp, hreached]
        exact ⟨Or.inr hpassed, hnotK⟩
      have hholds : (padBlocks b.blockNumber r tick blocks).get? b.blockNumber = some tick := by
        rw [get?_padBlocks, if_neg (by omega), hbt]
      obtain ⟨g, hg⟩ := @PendingTimePriceBar.exists_asFinalized
        (.withBlocks (padBlocks b.blockNumber r tick blocks)) ⟨b.blockNumber, tick, hholds⟩ rfl
      refine ⟨g, ?_⟩
      rw [hahead.content, hkc, if_pos rfl, Option.map_some, settleLag, if_pos hlag,
        TimePriceBar.settle_of_asFinalized hg]
    have hkept := stores_lt_of_replacing hsp hbelow hrm h.replacing.increasing
      (hpres ▸ h.replacing.aligned) (hpres ▸ hlt) hfinal hM
      (show bars.Stores _ (m.blockNumber - 1) by rw [Stores, hdata]; exact hstored)
    omega

theorem passed_append {l l' : List BlockInsert} {key : Nat} :
    Passed (l ++ l') key ↔ Passed l key ∨ Passed l' key := by
  simp only [Passed, List.mem_append, or_and_right, exists_or]

/-- Orphaned blocks that the padding does not tell apart leave no trace but the bars that
only they finalized. -/
theorem reorg_transparent_iff {bars : TimePriceBars} (h : ReorgOf t₀ r res K O M) (hne : M ≠ [])
    (hpad : PadsAlike t₀ r res K O M)
    (hok : reorgedRun t₀ r K O M (.new none res config) = .ok () bars) :
    ∃ clean, insertAll t₀ (K ++ M) (.new none res config) = .ok () clean ∧
      (bars.data = clean.data ↔ ∀ b ∈ K, Passed O (blockBucket t₀ res b.blockNumber) →
        Passed (K ++ M) (blockBucket t₀ res b.blockNumber)) := by
  obtain ⟨y, orphaned, pruned, hK, hO, hr, hM⟩ := reorgedRun_ok hok
  obtain ⟨hs, htip, hres, hreached⟩ := h.kept_tip hK
  obtain ⟨tip, clean, hclean, hpaired, hfrontier⟩ := h.exists_paired hpad hne hK hO hr hM
  refine ⟨clean, insertAll_append_ok.mpr ⟨y, hK, hclean⟩, ?_⟩
  have hcleanReached : ∀ key, Reached clean.lastFinalizedTimestamp key ↔ Passed (K ++ M) key :=
    fun key => by rw [insertAll_reached hclean, hreached, passed_append]
  have hbar : ∀ key, (∃ bar, clean.data.get? key = some bar) ↔
      ∃ b ∈ K ++ M, blockBucket t₀ res b.blockNumber = key := by
    intro key
    rw [insertAll_hasBar hs htip h.replacing.increasing (hres ▸ h.replacing.aligned)
      (fun n hn b hb => (h.tip_lt hn).trans_le (h.le_replacing b hb)) hclean key, hres,
      insertAll_hasBar (new_sound t₀ res config) (new_tip t₀ none res config) h.kept.increasing
        h.kept.aligned (fun _ hn => by cases hn) hK key]
    simp only [List.mem_append, or_and_right, exists_or]
    refine or_congr_left (or_iff_right ?_)
    rintro ⟨bar, hg⟩
    cases hg
  rw [hpaired.data_eq_iff]
  constructor
  · intro hlag b hb hO'
    obtain ⟨bar, hg⟩ := (hbar (blockBucket t₀ res b.blockNumber)).mpr
      ⟨b, List.mem_append_left _ hb, rfl⟩
    by_contra hnot
    exact hlag _ bar hg ⟨(hfrontier _).mpr (Or.inl (Or.inr hO')), fun hp =>
      hnot ((hcleanReached _).mp hp)⟩
  · intro hfin key bar hg ⟨hx, hy⟩
    obtain ⟨b, hb, rfl⟩ := (hbar key).mp ⟨bar, hg⟩
    rw [hcleanReached] at hy
    rcases (hfrontier _).mp hx with (hp | hp) | hp
    · exact hy (passed_append.mpr (Or.inl hp))
    · rcases List.mem_append.mp hb with hbK | hbM
      · exact hy (hfin b hbK hp)
      · exact (h.not_passed (blockBucket_mono (h.le_replacing b hbM))).2.1 hp
    · exact hy (passed_append.mpr (Or.inr hp))

theorem admissible_of_unfinalized {l : List BlockInsert}
    (hl : (l.map (·.blockNumber)).Pairwise (· < ·))
    (hf : ∀ b ∈ l, b.finalizedTimestamp = none) : Admissible t₀ r res l where
  increasing := hl
  aligned := fun b hb f he => by
    rw [hf b hb] at he
    cases he
  final := fun b hb ⟨f, he, _⟩ => by
    rw [hf b hb] at he
    cases he

/-- Blocks of one bucket are padded alike. -/
theorem reorg_transparent_within_bucket : ∃ bars clean,
    reorgedRun 6000 1 [⟨0, unitTick, none⟩] [⟨3, unitTick, none⟩] [⟨2, unitTick, none⟩]
      (.new none .fiveMinutes none) = .ok () bars ∧
    insertAll 6000 [⟨0, unitTick, none⟩, ⟨2, unitTick, none⟩]
      (.new none .fiveMinutes none) = .ok () clean ∧ bars.data = clean.data := by
  have hreorg : ReorgOf 6000 1 .fiveMinutes [⟨0, unitTick, none⟩] [⟨3, unitTick, none⟩]
      [⟨2, unitTick, none⟩] :=
    ⟨admissible_of_unfinalized (by decide) (by simp), admissible_of_unfinalized (by decide) (by simp),
      admissible_of_unfinalized (by decide) (by simp), by simp, by simp, by simp⟩
  have hpad : PadsAlike 6000 1 .fiveMinutes [⟨0, unitTick, none⟩] [⟨3, unitTick, none⟩]
      [⟨2, unitTick, none⟩] := by
    refine Or.inr (Or.inr fun b hb => Or.inr ?_)
    cases hb
    exact ⟨by decide, by simp [Passed, Reached]⟩
  obtain ⟨clean, hclean, hdata⟩ := @reorg_transparent_iff 6000 1 .fiveMinutes none
    [⟨0, unitTick, none⟩] [⟨3, unitTick, none⟩] [⟨2, unitTick, none⟩] _ hreorg (by simp) hpad rfl
  exact ⟨_, clean, rfl, hclean, hdata.mpr (by simp [Passed, Reached])⟩

/-- A bucket finalized by an orphaned block stays finalized, and the padding of a gap across
a bucket boundary tells the runs apart. -/
theorem reorg_leaves_trace :
    (∃ K O M bars clean, ReorgOf 6298 1 .fiveMinutes K O M ∧ M ≠ [] ∧
      PadsAlike 6298 1 .fiveMinutes K O M ∧
      reorgedRun 6298 1 K O M (.new none .fiveMinutes none) = .ok () bars ∧
      insertAll 6298 (K ++ M) (.new none .fiveMinutes none) = .ok () clean ∧
      bars.data ≠ clean.data) ∧
    ∃ K O M bars clean, ReorgOf 6298 2 .fiveMinutes K O M ∧ M ≠ [] ∧
      (∀ b ∈ K ++ O ++ M, b.finalizedTimestamp = none) ∧
      reorgedRun 6298 2 K O M (.new none .fiveMinutes none) = .ok () bars ∧
      insertAll 6298 (K ++ M) (.new none .fiveMinutes none) = .ok () clean ∧
      bars.data ≠ clean.data := by
  constructor
  · refine ⟨[⟨0, unitTick, none⟩], [⟨1, unitTick, some 6000⟩], [⟨1, unitTick, none⟩], _, _,
      ⟨admissible_of_unfinalized (by decide) (by simp), ⟨by decide, ?_, ?_⟩,
        admissible_of_unfinalized (by decide) (by simp), by simp, by simp, by simp⟩,
      by simp, Or.inr (Or.inl (by simp)), rfl, rfl, ?_⟩
    · rintro b hb f hf
      cases List.mem_singleton.mp hb
      cases hf
      decide
    · rintro b hb
      cases List.mem_singleton.mp hb
      decide
    · intro hdata
      have hbar := congrArg (fun d => (d.get? 6000).map TimePriceBar.isFinalized) hdata
      revert hbar
      decide
  · refine ⟨[⟨0, unitTick, none⟩], [⟨5, unitTick, none⟩], [⟨3, unitTick, none⟩], _, _,
      ⟨admissible_of_unfinalized (by decide) (by simp),
        admissible_of_unfinalized (by decide) (by simp),
        admissible_of_unfinalized (by decide) (by simp), by simp, by simp, by simp⟩,
      by simp, by simp, rfl, rfl, ?_⟩
    intro hdata
    have hbar := congrArg (fun d => (d.get? 6000).bind TimePriceBar.endBlockNumber) hdata
    revert hbar
    decide

end TimePriceBars

end Pochtecatl
