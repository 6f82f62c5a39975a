import Pochtecatl.TimePriceBarsEffects

namespace Pochtecatl

/-- What a reorg to block `r` leaves of a bar. -/
def TimePriceBar.cut (r : Nat) : TimePriceBar → Option TimePriceBar
  | pending bar =>
    match bar.startBlockNumber, bar.endBlockNumber with
    | some s, some e =>
      if r ≤ s then none
      else if r ≤ e then some (pending (bar.pruneToReorgedBlockNumber r))
      else some (pending bar)
    | _, _ => some (pending bar)
  | finalized bar => some (finalized bar)

theorem TimePriceBar.cut_eq_none_iff {r : Nat} {bar : TimePriceBar} :
    bar.cut r = none ↔ ∃ p s, bar = pending p ∧ p.startBlockNumber = some s ∧ r ≤ s := by
  cases bar with
  | finalized f => simp [cut]
  | pending p =>
    cases hs : p.startBlockNumber with
    | none => simp [cut, hs]
    | some s =>
      obtain ⟨-, e, -, he, -⟩ := PendingTimePriceBar.exists_start_end
        (PendingTimePriceBar.startBlockNumber_eq_some_iff.mp hs).1
      simp only [cut, hs, he]
      split
      next h => simpa [hs] using h
      next h => split <;> simpa [hs] using h

/-- A bar whose blocks all come before `r` is left alone. -/
theorem TimePriceBar.cut_of_lt {r : Nat} {bar : TimePriceBar} (h : ∀ k, bar.Holds k → k < r) :
    bar.cut r = some bar := by
  cases bar with
  | finalized f => rfl
  | pending p =>
    simp only [cut]
    split
    next s e hs he =>
      have hlt := h s (PendingTimePriceBar.startBlockNumber_eq_some_iff.mp hs).1
      have hle := h e (PendingTimePriceBar.endBlockNumber_eq_some_iff.mp he).1
      rw [if_neg (by omega), if_neg (by omega)]
    next => rfl

theorem TimePriceBar.cut_of_straddle {r s e : Nat} {p : PendingTimePriceBar}
    (hs : p.startBlockNumber = some s) (he : p.endBlockNumber = some e) (hsr : s < r)
    (hre : r ≤ e) : (pending p).cut r = some (pending (p.pruneToReorgedBlockNumber r)) := by
  simp only [cut, hs, he]
  rw [if_neg (by omega), if_pos hre]

/-- The bar that straddles `r` keeps a block and is not cut again. -/
theorem PendingTimePriceBar.pruned_holds_lt {r k : Nat} {p : PendingTimePriceBar}
    (h : (TimePriceBar.pending (p.pruneToReorgedBlockNumber r)).Holds k) : k < r :=
  (holds_pruneToReorgedBlockNumber.mp h).1

/-- A bar that a reorg keeps is left alone or straddles the reorged block. -/
theorem TimePriceBar.cut_cases {r : Nat} {bar bar' : TimePriceBar} (h : bar.cut r = some bar') :
    bar' = bar ∨ ∃ p s e, bar = pending p ∧ p.startBlockNumber = some s ∧
      p.endBlockNumber = some e ∧ s < r ∧ r ≤ e ∧
        bar' = pending (p.pruneToReorgedBlockNumber r) := by
  cases bar with
  | finalized f => exact Or.inl (Option.some.inj h).symm
  | pending p =>
    simp only [cut] at h
    split at h
    next s e hs he =>
      split at h
      next => cases h
      next hrs =>
        split at h
        next hre =>
          exact Or.inr ⟨p, s, e, rfl, hs, he, by omega, hre, (Option.some.inj h).symm⟩
        next => exact Or.inl (Option.some.inj h).symm
    next => exact Or.inl (Option.some.inj h).symm

theorem TimePriceBar.cut_cut {r : Nat} {bar bar' : TimePriceBar} (h : bar.cut r = some bar') :
    bar'.cut r = some bar' := by
  rcases cut_cases h with rfl | ⟨p, s, e, -, -, -, -, -, rfl⟩
  · exact h
  · exact cut_of_lt fun k => PendingTimePriceBar.pruned_holds_lt

namespace TimePriceBars

/-- Everything one turn of the loop can do. -/
theorem pruneLoop_cases (r budget : Nat) (pruned : Option Nat) (bars : TimePriceBars) :
    (bars.data.lastEntry = none ∧ pruneLoop r (budget + 1) pruned bars = .ok pruned bars) ∨
    ∃ ts bar, bars.data.lastEntry = some (ts, bar) ∧
      (((∀ k, ¬bar.Holds k) ∧ bar.isFinalized = false ∧
          pruneLoop r (budget + 1) pruned bars = .error (.err .pruneIntoEmptyPending) bars) ∨
        (bar.cut r = none ∧ pruneLoop r (budget + 1) pruned bars =
          pruneLoop r budget pruned { bars with data := bars.data.erase ts }) ∨
        (∃ p s e, bar = .pending p ∧ p.startBlockNumber = some s ∧ p.endBlockNumber = some e ∧
          s < r ∧ r ≤ e ∧ pruneLoop r (budget + 1) pruned bars =
            pruneLoop r budget (some ts) { bars with
              data := bars.data.insert ts (.pending (p.pruneToReorgedBlockNumber r)) }) ∨
        ((∀ k, bar.Holds k → k < r) ∧ pruneLoop r (budget + 1) pruned bars = .ok pruned bars) ∨
        (∃ f, bar = .finalized f ∧ r ≤ f.endBlockNumber ∧
          pruneLoop r (budget + 1) pruned bars = .error (.err .pruneIntoFinalized) bars)) := by
  cases hl : bars.data.lastEntry with
  | none => exact Or.inl ⟨rfl, by simp only [pruneLoop, hl]⟩
  | some last =>
    obtain ⟨ts, bar⟩ := last
    refine Or.inr ⟨ts, bar, rfl, ?_⟩
    cases bar with
    | finalized f =>
      by_cases hf : r ≤ f.endBlockNumber
      · refine Or.inr (Or.inr (Or.inr (Or.inr ⟨f, rfl, hf, ?_⟩)))
        simp only [pruneLoop, hl, hf, if_true]
      · refine Or.inr (Or.inr (Or.inr (Or.inl ⟨fun k hk => ?_, ?_⟩)))
        · have := hk.2
          omega
        · simp only [pruneLoop, hl, hf, if_false]
    | pending p =>
      cases hs : p.startBlockNumber with
      | none =>
        have hempty := PendingTimePriceBar.startBlockNumber_eq_none_iff.mp hs
        have he := PendingTimePriceBar.endBlockNumber_eq_none_iff.mpr hempty
        refine Or.inl ⟨hempty, rfl, ?_⟩
        simp only [pruneLoop, hl, hs, he]
      | some s =>
        have hs' := PendingTimePriceBar.startBlockNumber_eq_some_iff.mp hs
        obtain ⟨-, e, -, he, -⟩ := PendingTimePriceBar.exists_start_end hs'.1
        have he' := PendingTimePriceBar.endBlockNumber_eq_some_iff.mp he
        by_cases hrs : r ≤ s
        · refine Or.inr (Or.inl ⟨TimePriceBar.cut_eq_none_iff.mpr ⟨p, s, rfl, hs, hrs⟩, ?_⟩)
          simp only [pruneLoop, hl, hs, he, hrs, if_true]
        · by_cases hre : r ≤ e
          · refine Or.inr (Or.inr (Or.inl ⟨p, s, e, rfl, hs, he, by omega, hre, ?_⟩))
            simp only [pruneLoop, hl, hs, he, hrs, hre, if_true, if_false]
          · refine Or.inr (Or.inr (Or.inr (Or.inl ⟨fun k hk => ?_, ?_⟩)))
            · have := he'.2 k hk
              omega
            · simp only [pruneLoop, hl, hs, he, hrs, hre, if_false]

theorem pruneLoop_fields (r budget : Nat) (pruned : Option Nat) (bars : TimePriceBars) :
    (pruneLoop r budget pruned bars).state =
      { bars with data := (pruneLoop r budget pruned bars).state.data } := by
  induction budget generalizing pruned bars with
  | zero => rfl
  | succ budget ih =>
    rcases pruneLoop_cases r budget pruned bars with
      ⟨-, h⟩ | ⟨ts, bar, -, ⟨-, -, h⟩ | ⟨-, h⟩ | ⟨p, s, e, -, -, -, -, -, h⟩ | ⟨-, h⟩ | ⟨f, -, -, h⟩⟩
    · rw [h]; rfl
    · rw [h]; rfl
    · rw [h, ih]
    · rw [h, ih]
    · rw [h]; rfl
    · rw [h]; rfl

/-- Whatever the outcome, a bar is left alone or cut. -/
theorem pruneLoop_state (r budget : Nat) (pruned : Option Nat) (bars : TimePriceBars) (k : Nat) :
    (pruneLoop r budget pruned bars).state.data.get? k = bars.data.get? k ∨
      (pruneLoop r budget pruned bars).state.data.get? k =
        (bars.data.get? k).bind (TimePriceBar.cut r) := by
  have hcut : ∀ x : Option TimePriceBar,
      (x.bind (TimePriceBar.cut r)).bind (TimePriceBar.cut r) = x.bind (TimePriceBar.cut r) := by
    intro x
    cases x with
    | none => rfl
    | some bar =>
      cases hb : bar.cut r with
      | none => simp [hb]
      | some bar' => simp [hb, TimePriceBar.cut_cut hb]
  induction budget generalizing pruned bars with
  | zero => exact Or.inl rfl
  | succ budget ih =>
    -- one turn cuts the last bar and leaves the others
    have hturn : ∀ (next : TimePriceBars) (pruned' : Option Nat),
        (next.data.get? k = bars.data.get? k ∨
          next.data.get? k = (bars.data.get? k).bind (TimePriceBar.cut r)) →
        (pruneLoop r budget pruned' next).state.data.get? k = bars.data.get? k ∨
          (pruneLoop r budget pruned' next).state.data.get? k =
            (bars.data.get? k).bind (TimePriceBar.cut r) := by
      intro next pruned' hnext
      have hrest := ih pruned' next
      rcases hnext with hn | hn <;> rw [hn] at hrest
      · exact hrest
      · rw [hcut] at hrest
        exact Or.inr (hrest.elim id id)
    rcases pruneLoop_cases r budget pruned bars with
      ⟨-, h⟩ | ⟨ts, bar, hl, ⟨-, -, h⟩ | ⟨hb, h⟩ | ⟨p, s, e, rfl, hs, he, hsr, hre, h⟩ | ⟨-, h⟩ |
        ⟨f, -, -, h⟩⟩
    · exact Or.inl (by rw [h]; rfl)
    · exact Or.inl (by rw [h]; rfl)
    · rw [h]
      have hget := (OrdMap.lastEntry_eq_some_iff.mp hl).1
      refine hturn _ pruned ?_
      rw [OrdMap.get?_erase]
      split
      next hk => right; rw [hk, hget]; exact hb.symm
      next => exact Or.inl rfl
    · rw [h]
      have hget := (OrdMap.lastEntry_eq_some_iff.mp hl).1
      refine hturn _ (some ts) ?_
      rw [OrdMap.get?_insert]
      split
      next hk =>
        right
        rw [hk, hget]
        exact (TimePriceBar.cut_of_straddle hs he hsr hre).symm
      next => exact Or.inl rfl
    · exact Or.inl (by rw [h]; rfl)
    · exact Or.inl (by rw [h]; rfl)

theorem size_erase_lt {data : OrdMap Nat TimePriceBar} {ts : Nat} {bar : TimePriceBar}
    (h : data.get? ts = some bar) : (data.erase ts).size < data.size := by
  refine List.length_filter_lt_length_iff_exists.mpr ⟨(ts, bar), ?_, by simp⟩
  exact OrdMap.get?_eq_some_iff.mp h

/-- The turn after a cut is the last one. -/
theorem pruneLoop_after_cut {r budget ts s : Nat} {p : PendingTimePriceBar} {bars : TimePriceBars}
    (hl : bars.data.lastEntry = some (ts, .pending p)) (hs : p.startBlockNumber = some s)
    (hsr : s < r) (pruned : Option Nat) :
    let cutBars := { bars with
      data := bars.data.insert ts (.pending (p.pruneToReorgedBlockNumber r)) }
    pruneLoop r (budget + 1) pruned cutBars = .ok pruned cutBars := by
  intro cutBars
  have hlast : cutBars.data.lastEntry = some (ts, .pending (p.pruneToReorgedBlockNumber r)) :=
    OrdMap.lastEntry_insert (OrdMap.lastEntry_eq_some_iff.mp hl).2
  have hkeep : (TimePriceBar.pending (p.pruneToReorgedBlockNumber r)).Holds s :=
    PendingTimePriceBar.holds_pruneToReorgedBlockNumber.mpr
      ⟨hsr, (PendingTimePriceBar.startBlockNumber_eq_some_iff.mp hs).1⟩
  rcases pruneLoop_cases r budget pruned cutBars with
    ⟨-, h⟩ | ⟨ts', bar, hl', ⟨hempty, -, -⟩ | ⟨hnone, -⟩ | ⟨p', s', e', rfl, hs', he', -, hre', -⟩ |
      ⟨-, h⟩ | ⟨f, rfl, -, -⟩⟩
  · exact h
  · rw [hlast] at hl'
    cases hl'
    exact absurd hkeep (hempty s)
  · rw [hlast] at hl'
    cases hl'
    rw [TimePriceBar.cut_of_lt fun k => PendingTimePriceBar.pruned_holds_lt] at hnone
    simp at hnone
  · rw [hlast] at hl'
    cases hl'
    have := PendingTimePriceBar.pruned_holds_lt
      (PendingTimePriceBar.endBlockNumber_eq_some_iff.mp he').1
    omega
  · exact h
  · rw [hlast] at hl'
    cases hl'

/-- The loop stops: a turn removes an entry, or cuts one and is then done. -/
theorem pruneLoop_ne_outOfBudget {r budget : Nat} {bars : TimePriceBars}
    (hb : bars.data.size + 2 ≤ budget) (pruned : Option Nat) (bars' : TimePriceBars) :
    pruneLoop r budget pruned bars ≠ .error .outOfBudget bars' := by
  induction budget generalizing pruned bars with
  | zero => omega
  | succ budget ih =>
    rcases pruneLoop_cases r budget pruned bars with
      ⟨-, h⟩ | ⟨ts, bar, hl, ⟨-, -, h⟩ | ⟨-, h⟩ | ⟨p, s, e, rfl, hs, he, hsr, hre, h⟩ | ⟨-, h⟩ |
        ⟨f, -, -, h⟩⟩
    · simp [h]
    · simp [h]
    · have hlt := size_erase_lt (OrdMap.lastEntry_eq_some_iff.mp hl).1
      rw [h]
      exact @ih { bars with data := bars.data.erase ts } (by simp only; omega) pruned
    · obtain ⟨budget, rfl⟩ : ∃ b, budget = b + 1 := ⟨budget - 1, by omega⟩
      rw [h, pruneLoop_after_cut hl hs hsr]
      simp
    · simp [h]
    · simp [h]

/-- The loop fails only on an empty bar or on a finalized one that reaches `r`. -/
theorem pruneLoop_exists_ok {r budget : Nat} {bars : TimePriceBars}
    (hb : bars.data.size + 2 ≤ budget) (pruned : Option Nat)
    (hne : ∀ key bar, bars.data.get? key = some bar → ∃ k, bar.Holds k)
    (hfin : ∀ key f, bars.data.get? key = some (.finalized f) → f.endBlockNumber < r) :
    ∃ pruned' bars', pruneLoop r budget pruned bars = .ok pruned' bars' := by
  induction budget generalizing pruned bars with
  | zero => omega
  | succ budget ih =>
    rcases pruneLoop_cases r budget pruned bars with
      ⟨-, h⟩ | ⟨ts, bar, hl, ⟨hempty, -, -⟩ | ⟨-, h⟩ | ⟨p, s, e, rfl, hs, he, hsr, hre, h⟩ | ⟨-, h⟩ |
        ⟨f, rfl, hle, -⟩⟩
    · exact ⟨_, _, h⟩
    · obtain ⟨k, hk⟩ := hne ts bar (OrdMap.lastEntry_eq_some_iff.mp hl).1
      exact absurd hk (hempty k)
    · have hlt := size_erase_lt (OrdMap.lastEntry_eq_some_iff.mp hl).1
      have hsub : ∀ key b, (bars.data.erase ts).get? key = some b →
          bars.data.get? key = some b := by
        intro key b hk
        rw [OrdMap.get?_erase] at hk
        split at hk
        next => simp at hk
        next => exact hk
      rw [h]
      exact @ih { bars with data := bars.data.erase ts } (by simp only; omega) pruned
        (fun key b hk => hne key b (hsub key b hk)) (fun key f hk => hfin key f (hsub key _ hk))
    · obtain ⟨budget, rfl⟩ : ∃ b, budget = b + 1 := ⟨budget - 1, by omega⟩
      exact ⟨_, _, by rw [h, pruneLoop_after_cut hl hs hsr]⟩
    · exact ⟨_, _, h⟩
    · exact absurd (hfin ts f (OrdMap.lastEntry_eq_some_iff.mp hl).1) (Nat.not_lt.mpr hle)

/-- The bucket was kept as it was or removed with all its blocks. -/
def Swept (r : Nat) (bars bars' : TimePriceBars) (key : Nat) : Prop :=
  bars'.data.get? key = bars.data.get? key ∨
    bars'.data.get? key = none ∧ (bars.data.get? key).bind (TimePriceBar.cut r) = none

/-- The bucket holds the part before `r` of the bar it held. -/
def Straddled (r : Nat) (bars bars' : TimePriceBars) (key : Nat) : Prop :=
  ∃ q, bars.data.get? key = some (.pending q) ∧
    (TimePriceBar.pending q).cut r = some (.pending (q.pruneToReorgedBlockNumber r)) ∧
    bars'.data.get? key = some (.pending (q.pruneToReorgedBlockNumber r))

/-- A completed loop removed bars, cut at most the one it reports, and ended in front
of blocks before `r`. -/
theorem pruneLoop_ok {r budget : Nat} {p : Option Nat} {bars bars' : TimePriceBars}
    (h : pruneLoop r budget none bars = .ok p bars') :
    (∀ key bar, bars'.data.lastEntry = some (key, bar) → ∀ k, bar.Holds k → k < r) ∧
    (∀ key, p ≠ some key → Swept r bars bars' key) ∧
    ∀ key, p = some key → Straddled r bars bars' key := by
  induction budget generalizing bars with
  | zero => simp [pruneLoop] at h
  | succ budget ih =>
    rcases pruneLoop_cases r budget none bars with
      ⟨hl, he⟩ | ⟨ts, bar, hl, ⟨-, -, he⟩ | ⟨hnone, he⟩ | ⟨q, s, e, rfl, hs, hend, hsr, hre, he⟩ |
        ⟨hlt, he⟩ | ⟨f, -, -, he⟩⟩
    · rw [he] at h
      injection h with hp hb
      subst hp hb
      exact ⟨by simp [hl], fun key _ => Or.inl rfl, by simp⟩
    · simp [he] at h
    · rw [he] at h
      obtain ⟨hlast, hswept, hcut⟩ := ih h
      have hget := (OrdMap.lastEntry_eq_some_iff.mp hl).1
      refine ⟨hlast, fun key hp => ?_, fun key hp => ?_⟩
      · have hk := hswept key hp
        simp only [Swept, OrdMap.get?_erase] at hk ⊢
        by_cases hkey : key = ts
        · rw [hkey] at hk ⊢
          rw [hget]
          exact Or.inr ⟨by simpa using hk, hnone⟩
        · simpa only [hkey, if_false] using hk
      · obtain ⟨q, hq, hqc, hq'⟩ := hcut key hp
        simp only [OrdMap.get?_erase] at hq
        split at hq
        next => simp at hq
        next => exact ⟨q, hq, hqc, hq'⟩
    · rw [he] at h
      cases budget with
      | zero => simp [pruneLoop] at h
      | succ budget =>
        rw [pruneLoop_after_cut hl hs hsr] at h
        injection h with hp hb
        subst hp hb
        obtain ⟨hget, hmax⟩ := OrdMap.lastEntry_eq_some_iff.mp hl
        refine ⟨fun key bar hlast k hk => ?_, fun key hp => ?_, fun key hp => ?_⟩
        · simp only [OrdMap.lastEntry_insert hmax] at hlast
          cases hlast
          exact PendingTimePriceBar.pruned_holds_lt hk
        · exact Or.inl (OrdMap.get?_insert_ne fun hkey => hp (congrArg some hkey.symm))
        · cases Option.some.inj hp
          exact ⟨q, hget, TimePriceBar.cut_of_straddle hs hend hsr hre, OrdMap.get?_insert_self _ _ _⟩
    · rw [he] at h
      injection h with hp hb
      subst hp hb
      refine ⟨fun key bar' hlast k hk => ?_, fun key _ => Or.inl rfl, by simp⟩
      rw [hl] at hlast
      cases hlast
      exact hlt k hk
    · simp [he] at h

/-- The bar that the loop reports reached the reorged block, and is the last one left. -/
theorem pruneLoop_some {r budget key : Nat} {bars bars' : TimePriceBars}
    (h : pruneLoop r budget none bars = .ok (some key) bars') :
    (∃ q k, bars.data.get? key = some (.pending q) ∧ (TimePriceBar.pending q).Holds k ∧ r ≤ k) ∧
      ∀ key', key < key' → bars'.data.get? key' = none := by
  induction budget generalizing bars with
  | zero => cases h
  | succ budget ih =>
    rcases pruneLoop_cases r budget none bars with
      ⟨-, he⟩ | ⟨ts, bar, hl, ⟨-, -, he⟩ | ⟨-, he⟩ | ⟨q, s, e, rfl, hs, hend, hsr, hre, he⟩ |
        ⟨-, he⟩ | ⟨f, -, -, he⟩⟩
    · rw [he] at h
      cases h
    · rw [he] at h
      cases h
    · rw [he] at h
      obtain ⟨⟨q, k, hq, hk, hrk⟩, habove⟩ := ih h
      refine ⟨⟨q, k, ?_, hk, hrk⟩, habove⟩
      simp only [OrdMap.get?_erase] at hq
      split at hq
      next => cases hq
      next => exact hq
    · rw [he] at h
      cases budget with
      | zero => cases h
      | succ budget =>
        rw [pruneLoop_after_cut hl hs hsr] at h
        cases h
        refine ⟨⟨q, e, (OrdMap.lastEntry_eq_some_iff.mp hl).1,
          (PendingTimePriceBar.endBlockNumber_eq_some_iff.mp hend).1, hre⟩, fun key' hlt => ?_⟩
        rw [OrdMap.get?_insert_ne hlt.ne']
        exact OrdMap.get?_of_lastEntry_lt hl hlt
    · rw [he] at h
      cases h
    · rw [he] at h
      cases h

end TimePriceBars

end Pochtecatl
