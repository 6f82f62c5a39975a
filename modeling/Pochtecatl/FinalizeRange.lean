import Pochtecatl.TimePriceBarsEffects

namespace Pochtecatl

namespace TimePriceBars

open ResolutionTimestamp

theorem finalizeEntries_fields (es : List (Nat × TimePriceBar)) (bars : TimePriceBars) :
    (finalizeEntries es bars).state =
      { bars with data := (finalizeEntries es bars).state.data } := by
  induction es generalizing bars with
  | nil => rfl
  | cons e es ih =>
    obtain ⟨ts, bar⟩ := e
    cases bar with
    | finalized f => rfl
    | pending bar =>
      cases hf : bar.asFinalized with
      | none => simp [finalizeEntries, hf]
      | some f =>
        simp only [finalizeEntries, hf]
        rw [ih]

/-- Finalization turns bars of the visited entries into what `settle` makes of
them, or stops early and leaves the rest alone. -/
theorem finalizeEntries_state {es : List (Nat × TimePriceBar)} {bars : TimePriceBars}
    (hes : ∀ e ∈ es, bars.data.get? e.1 = some e.2) (hn : (es.map Prod.fst).Nodup) (k : Nat) :
    (finalizeEntries es bars).state.data.get? k = bars.data.get? k ∨
      k ∈ es.map Prod.fst ∧ (finalizeEntries es bars).state.data.get? k =
        (bars.data.get? k).map TimePriceBar.settle := by
  induction es generalizing bars with
  | nil => exact Or.inl rfl
  | cons e es ih =>
    obtain ⟨ts, bar⟩ := e
    obtain ⟨hts, hn'⟩ := List.nodup_cons.mp hn
    cases bar with
    | finalized f => exact Or.inl rfl
    | pending bar =>
      cases hf : bar.asFinalized with
      | none => left; simp [finalizeEntries, hf]
      | some f =>
        simp only [finalizeEntries, hf]
        have hget := hes (ts, .pending bar) (by simp)
        have hes' : ∀ e ∈ es, (bars.data.insert ts (.finalized f)).get? e.1 = some e.2 := by
          intro e he
          have hne : e.1 ≠ ts := fun h => hts (List.mem_map.mpr ⟨e, he, h⟩)
          rw [OrdMap.get?_insert_ne hne]
          exact hes e (List.mem_cons_of_mem _ he)
        have hrest := @ih { bars with data := bars.data.insert ts (.finalized f) } hes' hn'
        simp only [OrdMap.get?_insert] at hrest
        by_cases hk : k = ts
        · right
          refine ⟨by simp [hk], ?_⟩
          rcases hrest with h | ⟨hmem, -⟩
          · rw [h, if_pos hk, hk, hget]
            simp [TimePriceBar.settle_of_asFinalized hf]
          · exact absurd (hk ▸ hmem) hts
        · simp only [hk, if_false] at hrest
          rcases hrest with h | ⟨hmem, h⟩
          · exact Or.inl h
          · exact Or.inr ⟨List.mem_cons_of_mem _ hmem, h⟩

/-- A completed pass found every visited bar pending and finalized it. -/
theorem finalizeEntries_ok {es : List (Nat × TimePriceBar)} {bars bars' : TimePriceBars}
    (hes : ∀ e ∈ es, bars.data.get? e.1 = some e.2) (hn : (es.map Prod.fst).Nodup)
    (h : finalizeEntries es bars = .ok () bars') :
    (∀ e ∈ es, ∃ p f, e.2 = .pending p ∧ p.asFinalized = some f) ∧
      ∀ e ∈ es, bars'.data.get? e.1 = some e.2.settle := by
  induction es generalizing bars with
  | nil => exact ⟨by simp, by simp⟩
  | cons e es ih =>
    obtain ⟨ts, bar⟩ := e
    obtain ⟨hts, hn'⟩ := List.nodup_cons.mp hn
    cases bar with
    | finalized f => simp [finalizeEntries] at h
    | pending bar =>
      cases hf : bar.asFinalized with
      | none => simp [finalizeEntries, hf] at h
      | some f =>
        simp only [finalizeEntries, hf] at h
        have hes' : ∀ e ∈ es, (bars.data.insert ts (.finalized f)).get? e.1 = some e.2 := by
          intro e he
          have hne : e.1 ≠ ts := fun heq => hts (List.mem_map.mpr ⟨e, he, heq⟩)
          rw [OrdMap.get?_insert_ne hne]
          exact hes e (List.mem_cons_of_mem _ he)
        obtain ⟨hpend, hsettled⟩ := ih hes' hn' h
        have hfirst : bars'.data.get? ts = some (.finalized f) := by
          have hst := @finalizeEntries_state es
            { bars with data := bars.data.insert ts (.finalized f) } hes' hn' ts
          rw [h] at hst
          rcases hst with hst | ⟨hmem, -⟩
          · simpa using hst
          · exact absurd hmem hts
        refine ⟨fun e he => ?_, fun e he => ?_⟩
        · rcases List.mem_cons.mp he with rfl | he
          · exact ⟨bar, f, rfl, hf⟩
          · exact hpend e he
        · rcases List.mem_cons.mp he with rfl | he
          · rw [hfirst, TimePriceBar.settle_of_asFinalized hf]
          · exact hsettled e he

theorem finalizeEntries_of_pending {es : List (Nat × TimePriceBar)} (bars : TimePriceBars)
    (h : ∀ e ∈ es, ∃ p f, e.2 = .pending p ∧ p.asFinalized = some f) :
    ∃ bars', finalizeEntries es bars = .ok () bars' := by
  induction es generalizing bars with
  | nil => exact ⟨bars, rfl⟩
  | cons e es ih =>
    obtain ⟨ts, bar⟩ := e
    obtain ⟨p, f, rfl, hf⟩ := h (ts, bar) (by simp)
    simp only [finalizeEntries, hf]
    exact ih _ fun e he => h e (List.mem_cons_of_mem _ he)

theorem rangeEntries_spec (bars : TimePriceBars) (lo hi : Nat) :
    (∀ e ∈ bars.data.rangeEntries lo hi, bars.data.get? e.1 = some e.2) ∧
      ((bars.data.rangeEntries lo hi).map Prod.fst).Nodup := by
  refine ⟨fun e he => (OrdMap.mem_rangeEntries.mp he).1, ?_⟩
  have hs := bars.data.sorted.filter fun e => decide (lo ≤ e.1 ∧ e.1 ≤ hi)
  exact List.pairwise_map.mpr (hs.imp fun hlt => ne_of_lt hlt)

theorem mem_rangeEntries_keys {bars : TimePriceBars} {lo hi k : Nat} :
    k ∈ (bars.data.rangeEntries lo hi).map Prod.fst ↔
      (∃ bar, bars.data.get? k = some bar) ∧ lo ≤ k ∧ k ≤ hi := by
  simp only [List.mem_map, Prod.exists, OrdMap.mem_rangeEntries]
  constructor
  · rintro ⟨_, bar, ⟨hg, hlo, hhi⟩, rfl⟩
    exact ⟨⟨bar, hg⟩, hlo, hhi⟩
  · rintro ⟨⟨bar, hg⟩, hlo, hhi⟩
    exact ⟨k, bar, ⟨hg, hlo, hhi⟩, rfl⟩

/-- The first bucket a call may finalize. -/
def finalizeStart (bars : TimePriceBars) : Nat :=
  match bars.lastFinalizedTimestamp with
  | some last => next last bars.resolution
  | none => 0

/-- The finalization frontier after a completed call. -/
def frontierAfter (bars : TimePriceBars) (finalizedTimestamp : Option Nat) : Option Nat :=
  match finalizedTimestamp, bars.lastFinalizedTimestamp with
  | some finalized, some last => some (max last finalized)
  | some finalized, none => some finalized
  | none, last => last

/-- Whether a call with this argument visits the bucket `k`. -/
def InFinalizeRange (bars : TimePriceBars) (finalizedTimestamp : Option Nat) (k : Nat) : Prop :=
  ∃ finalized, finalizedTimestamp = some finalized ∧ bars.finalizeStart ≤ k ∧ k ≤ finalized

theorem finalizeUpTo_eq (finalizedTimestamp : Option Nat) (bars : TimePriceBars) :
    finalizeUpTo finalizedTimestamp bars =
      match finalizedTimestamp with
      | none => .ok () bars
      | some finalized =>
        if ∃ last, bars.lastFinalizedTimestamp = some last ∧ finalized ≤ last then .ok () bars
        else match finalizeRange bars.finalizeStart finalized bars with
          | .ok _ bars' => .ok () { bars' with lastFinalizedTimestamp := some finalized }
          | .error e bars' => .error e bars' := by
  cases finalizedTimestamp with
  | none => rfl
  | some finalized =>
    unfold finalizeUpTo finalizeStart
    rw [EStateM.bind_of_ok (show (MonadState.get : TimePriceBarsM _) bars = .ok bars bars from rfl)]
    cases hl : bars.lastFinalizedTimestamp with
    | none =>
      simp only [reduceCtorEq, false_and, exists_false, if_false]
      cases hr : finalizeRange 0 finalized bars with
      | ok u bars' => rw [EStateM.bind_of_ok hr]; rfl
      | error e bars' => rw [EStateM.bind_of_error hr]
    | some last =>
      simp only [Option.some.injEq, exists_eq_left']
      by_cases hlt : last < finalized
      · rw [if_pos hlt, if_neg (Nat.not_le.mpr hlt)]
        cases hr : finalizeRange (next last bars.resolution) finalized bars with
        | ok u bars' => rw [EStateM.bind_of_ok hr]; rfl
        | error e bars' => rw [EStateM.bind_of_error hr]
      · rw [if_neg hlt, if_pos (Nat.le_of_not_lt hlt)]
        rfl

/-- A completed finalization settles exactly the bars in range. -/
theorem finalizeUpTo_ok {finalizedTimestamp : Option Nat} {bars bars' : TimePriceBars}
    (h : finalizeUpTo finalizedTimestamp bars = .ok () bars') :
    bars' = { bars with
      data := bars'.data, lastFinalizedTimestamp := bars.frontierAfter finalizedTimestamp } ∧
    (∀ k bar, bars.data.get? k = some bar → bars.InFinalizeRange finalizedTimestamp k →
      (∃ p f, bar = .pending p ∧ p.asFinalized = some f) ∧
        bars'.data.get? k = some bar.settle) ∧
    ∀ k, ¬bars.InFinalizeRange finalizedTimestamp k → bars'.data.get? k = bars.data.get? k := by
  rw [finalizeUpTo_eq] at h
  cases finalizedTimestamp with
  | none =>
    injection h with _ h
    subst h
    exact ⟨rfl, fun k bar _ ⟨_, he, _⟩ => by simp at he, fun _ _ => rfl⟩
  | some finalized =>
    simp only at h
    split at h
    next hold =>
      obtain ⟨last, hl, hle⟩ := hold
      injection h with _ h
      subst h
      refine ⟨?_, fun k bar _ ⟨x, he, hlo, hhi⟩ => ?_, fun _ _ => rfl⟩
      · have hmax : bars.frontierAfter (some finalized) = bars.lastFinalizedTimestamp := by
          simp [frontierAfter, hl, hle]
        rw [hmax]
      · have hpos := bars.resolution.offset_pos
        simp only [finalizeStart, hl, next] at hlo
        have := Option.some.inj he
        omega
    next hnew =>
      split at h
      next u bars'' hr =>
        injection h with _ h
        subst h
        unfold finalizeRange at hr
        split at hr
        next => simp at hr
        next =>
          obtain ⟨hget, hn⟩ := rangeEntries_spec bars bars.finalizeStart finalized
          have hfields := finalizeEntries_fields
            (bars.data.rangeEntries bars.finalizeStart finalized) bars
          have hstate := fun k => finalizeEntries_state hget hn k
          rw [hr] at hfields hstate
          obtain ⟨hpend, hsettled⟩ := finalizeEntries_ok hget hn hr
          refine ⟨?_, fun k bar hk hin => ?_, fun k hk => ?_⟩
          · have hfront : bars.frontierAfter (some finalized) = some finalized := by
              unfold frontierAfter
              cases hl : bars.lastFinalizedTimestamp with
              | none => rfl
              | some last =>
                have hlt : last < finalized := Nat.lt_of_not_le fun hle => hnew ⟨last, hl, hle⟩
                simp [hlt.le]
            rw [hfront]
            exact congrArg (fun b : TimePriceBars =>
              { b with lastFinalizedTimestamp := some finalized }) hfields
          · obtain ⟨x, he, hlo, hhi⟩ := hin
            cases Option.some.inj he
            have hmem : (k, bar) ∈ bars.data.rangeEntries bars.finalizeStart finalized :=
              OrdMap.mem_rangeEntries.mpr ⟨hk, hlo, hhi⟩
            exact ⟨hpend _ hmem, hsettled _ hmem⟩
          · rcases hstate k with h | ⟨hmem, -⟩
            · exact h
            · obtain ⟨-, hlo, hhi⟩ := mem_rangeEntries_keys.mp hmem
              exact absurd ⟨finalized, rfl, hlo, hhi⟩ hk
      next => simp at h

/-- Whatever the outcome, a bar is left alone or settled. -/
theorem finalizeUpTo_state (finalizedTimestamp : Option Nat) (bars : TimePriceBars) (k : Nat) :
    (finalizeUpTo finalizedTimestamp bars).state.data.get? k = bars.data.get? k ∨
      bars.InFinalizeRange finalizedTimestamp k ∧
        (finalizeUpTo finalizedTimestamp bars).state.data.get? k =
          (bars.data.get? k).map TimePriceBar.settle := by
  rw [finalizeUpTo_eq]
  cases finalizedTimestamp with
  | none => exact Or.inl rfl
  | some finalized =>
    simp only
    split
    next => exact Or.inl rfl
    next =>
      obtain ⟨hget, hn⟩ := rangeEntries_spec bars bars.finalizeStart finalized
      have hstate := finalizeEntries_state hget hn k
      have hin : k ∈ (bars.data.rangeEntries bars.finalizeStart finalized).map Prod.fst →
          bars.InFinalizeRange (some finalized) k := fun hmem =>
        ⟨finalized, rfl, (mem_rangeEntries_keys.mp hmem).2⟩
      unfold finalizeRange
      split
      next u bars'' hr =>
        split at hr
        next => simp at hr
        next =>
          rw [hr] at hstate
          exact hstate.imp_right fun ⟨hmem, h⟩ => ⟨hin hmem, h⟩
      next e bars'' hr =>
        split at hr
        next =>
          injection hr with _ hr
          exact Or.inl (by rw [← hr]; rfl)
        next =>
          rw [hr] at hstate
          exact hstate.imp_right fun ⟨hmem, h⟩ => ⟨hin hmem, h⟩

end TimePriceBars

end Pochtecatl
