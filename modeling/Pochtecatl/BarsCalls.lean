import Pochtecatl.BarRules
import Pochtecatl.Machine

namespace Pochtecatl

/-- Blocks are spaced `AVERAGE_BLOCK_TIME_SECONDS` apart from a first timestamp. -/
def blockTime (t₀ k : Nat) : Nat := t₀ + AVERAGE_BLOCK_TIME_SECONDS * k

/-- The bucket of a block. -/
def blockBucket (t₀ : Nat) (res : Resolution) (k : Nat) : Nat :=
  ResolutionTimestamp.fromTimestamp (blockTime t₀ k) res

theorem blockBucket_mono {t₀ : Nat} {res : Resolution} {j k : Nat} (h : j ≤ k) :
    blockBucket t₀ res j ≤ blockBucket t₀ res k := by
  refine ResolutionTimestamp.fromTimestamp_mono ?_ res
  simp only [blockTime, AVERAGE_BLOCK_TIME_SECONDS]
  omega

/-- A block of an earlier bucket comes before a block of a later one. -/
theorem lt_of_blockBucket_lt {t₀ : Nat} {res : Resolution} {j k : Nat}
    (h : blockBucket t₀ res j < blockBucket t₀ res k) : j < k :=
  Nat.lt_of_not_le fun hle => absurd (blockBucket_mono hle) (Nat.not_le.mpr h)

theorem offset_dvd_blockBucket (t₀ : Nat) (res : Resolution) (k : Nat) :
    res.offset ∣ blockBucket t₀ res k := ResolutionTimestamp.offset_dvd_fromTimestamp _ _

inductive BarsCall where
  | insertData (blockNumber : Nat) (data : TickData) (finalizedTimestamp : Option Nat)
  | pruneToReorgedBlockNumber (reorgedBlockNumber : Nat)

namespace TimePriceBars

def exec (t₀ : Nat) : BarsCall → TimePriceBarsM Unit
  | .insertData n d f => insertData n d (blockTime t₀ n) f
  | .pruneToReorgedBlockNumber r => pruneToReorgedBlockNumber r

/-- Calls one after the other. A call that returns `Err` leaves its partial
effects and the run goes on; a panic ends it. -/
def calls (t₀ : Nat) : Machine TimePriceBars BarsCall where
  step bars call := match exec t₀ call bars with
    | .ok _ bars' => some bars'
    | .error (.err _) bars' => some bars'
    | .error _ _ => none

theorem calls_step_state {t₀ : Nat} {call : BarsCall} {bars bars' : TimePriceBars}
    (h : (calls t₀).step bars call = some bars') : bars' = (exec t₀ call bars).state := by
  simp only [calls] at h
  split at h
  next hr => rw [hr]; exact (Option.some.inj h).symm
  next hr => rw [hr]; exact (Option.some.inj h).symm
  next => simp at h

theorem exec_settings (t₀ : Nat) (call : BarsCall) (bars : TimePriceBars) :
    SameSettings bars (exec t₀ call bars).state := by
  cases call with
  | insertData n d f => exact insertData_settings n d (blockTime t₀ n) f bars
  | pruneToReorgedBlockNumber r => exact pruneToReorgedBlockNumber_settings r bars

theorem finalizeUpTo_ne_outOfBudget {f : Option Nat} {bars bars' : TimePriceBars} :
    finalizeUpTo f bars ≠ .error .outOfBudget bars' := by
  have hentries : ∀ (es : List (Nat × TimePriceBar)) (bars bars' : TimePriceBars),
      finalizeEntries es bars ≠ .error .outOfBudget bars' := by
    intro es
    induction es with
    | nil => simp [finalizeEntries]
    | cons e es ih =>
      intro bars bars'
      obtain ⟨ts, bar⟩ := e
      cases bar with
      | finalized => simp [finalizeEntries]
      | pending p =>
        cases hf : p.asFinalized with
        | none => simp [finalizeEntries, hf]
        | some =>
          simp only [finalizeEntries, hf]
          exact ih _ _
  intro h
  rw [finalizeUpTo_eq] at h
  cases f with
  | none => simp at h
  | some f =>
    simp only at h
    split at h
    next => simp at h
    next =>
      split at h
      next => simp at h
      next e s hr =>
        injection h with he _
        subst he
        unfold finalizeRange at hr
        split at hr
        next => simp at hr
        next => exact hentries _ _ _ hr

theorem updateIndicators_ne_outOfBudget {ts : Nat} {config : IndicatorsConfig}
    {bars bars' : TimePriceBars} : updateIndicators ts config bars ≠ .error .outOfBudget bars' := by
  intro h
  rcases (updateIndicators_eq_error h).2 with ⟨he, -⟩ | ⟨-, ⟨he, -⟩ | ⟨f, he, -⟩⟩ <;> simp at he

theorem updateAll_ne_outOfBudget {config : IndicatorsConfig} {l : List Nat}
    {bars bars' : TimePriceBars} : updateAll config l bars ≠ .error .outOfBudget bars' := by
  induction l generalizing bars with
  | nil => intro h; cases h
  | cons ts l ih =>
    intro h
    rcases EStateM.bind_eq_error.mp h with h | ⟨_, s, _, h⟩
    · exact updateIndicators_ne_outOfBudget h
    · exact ih h

/-- The budget of the modelled loop is never what stops a call. -/
theorem exec_ne_outOfBudget (t₀ : Nat) (call : BarsCall) (bars bars' : TimePriceBars) :
    exec t₀ call bars ≠ .error .outOfBudget bars' := by
  cases call with
  | insertData n d f =>
    intro h
    rw [exec, insertData_eq] at h
    rcases EStateM.bind_eq_error.mp h with h | ⟨padded, s, -, h⟩
    · obtain ⟨_, _, hok⟩ := padMissing_ok n (blockTime t₀ n) bars
      simp [hok] at h
    rcases EStateM.bind_eq_error.mp h with h | ⟨_, s, -, h⟩
    · obtain ⟨e, he⟩ := (insertBlock_eq_error h).2
      simp at he
    rcases EStateM.bind_eq_error.mp h with h | ⟨_, s, -, h⟩
    · cases h
    rcases EStateM.bind_eq_error.mp h with h | ⟨_, s, -, h⟩
    · cases hc : bars.indicatorsConfig with
      | none => rw [hc] at h; cases h
      | some config => rw [hc] at h; exact updateAll_ne_outOfBudget h
    · exact finalizeUpTo_ne_outOfBudget h
  | pruneToReorgedBlockNumber r =>
    intro h
    rw [exec, pruneToReorgedBlockNumber, EStateM.bind_of_ok
      (show (MonadState.get : TimePriceBarsM _) bars = .ok bars bars from rfl)] at h
    rcases EStateM.bind_eq_error.mp h with h | ⟨pruned, s, -, h⟩
    · exact pruneLoop_ne_outOfBudget le_rfl _ _ h
    · cases pruned with
      | none => cases h
      | some ts =>
        cases hc : bars.indicatorsConfig with
        | none => rw [hc] at h; cases h
        | some config => rw [hc] at h; exact updateIndicators_ne_outOfBudget h

/-- Runs end early only in a panic. -/
theorem calls_step_eq_none_iff {t₀ : Nat} {call : BarsCall} {bars : TimePriceBars} :
    (calls t₀).step bars call = none ↔ ∃ bars', exec t₀ call bars = .error .panic bars' := by
  simp only [calls]
  cases h : exec t₀ call bars with
  | ok u bars' => simp
  | error e bars' =>
    cases e with
    | err e => simp
    | panic => simp
    | outOfBudget => exact absurd h (exec_ne_outOfBudget t₀ call bars bars')

end TimePriceBars

end Pochtecatl
