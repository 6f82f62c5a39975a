import Pochtecatl.StrategyExecutor
import Pochtecatl.TrackedBars

namespace Pochtecatl

/-- Why a signal is not given. -/
inductive MomentumError where
  | noTimePriceBar
  | negativeTimePriceBar
  | closeBelowEma (close : U32F96) (ema : I32F96)
  | bandMeanBelowEma (bandMean : U32F96) (ema : I32F96)
  | closeBelowBandMean (close bandMean : U32F96)
  | negativeEmaSlope (emaSlope : I32F96)
  | noBollingerBands
  | noIndicators
  | closeAboveEma (close : U32F96) (ema : I32F96)
  deriving DecidableEq

/-- Numbers of the two kinds are compared by their values. -/
def U32F96.ltI32F96 (a : U32F96) (b : I32F96) : Bool := (a.raw : Int) < b.raw

def U32F96.gtI32F96 (a : U32F96) (b : I32F96) : Bool := b.raw < (a.raw : Int)

def I32F96.isNegative (a : I32F96) : Bool := a.raw < 0

namespace MomentumStrategy

def shouldOpenPosition (pairTimePriceBars : TimePriceBars) (timestamp : Nat) :
    Except MomentumError Unit :=
  match pairTimePriceBars.timePriceBar timestamp with
  | none => .error .noTimePriceBar
  | some timePriceBar =>
    if (timePriceBar.data.map TickData.isNegative).getD true then .error .negativeTimePriceBar
    else match timePriceBar.indicators with
      | some ⟨some (bandMean, _, _), (ema, emaSlope)⟩ =>
        let close := timePriceBar.close
        if close.ltI32F96 ema then .error (.closeBelowEma close ema)
        else if bandMean.ltI32F96 ema then .error (.bandMeanBelowEma bandMean ema)
        else if close < bandMean then .error (.closeBelowBandMean close bandMean)
        else if emaSlope.isNegative then .error (.negativeEmaSlope emaSlope)
        else .ok ()
      | some ⟨none, _⟩ => .error .noBollingerBands
      | none => .error .noIndicators

def shouldClosePosition (pairTimePriceBars : TimePriceBars)
    (nowBlockResolutionTimestamp _openBlockResolutionTimestamp : Nat) :
    Except MomentumError Unit :=
  match pairTimePriceBars.timePriceBar nowBlockResolutionTimestamp with
  | none => .error .noTimePriceBar
  | some timePriceBar =>
    match timePriceBar.indicators with
    | some ⟨_, (ema, _)⟩ =>
      let close := timePriceBar.close
      if close.gtI32F96 ema then .error (.closeAboveEma close ema) else .ok ()
    | none => .error .noIndicators

/-- The strategy that the executor asks. -/
def strategy : Strategy where
  shouldOpenPosition bars timestamp := (shouldOpenPosition bars timestamp).isOk
  shouldClosePosition bars now open_ := (shouldClosePosition bars now open_).isOk

/-- A bar that did not fall, whose close is its EMA and the mean of its bands, with an EMA that
does not fall. -/
def Flat (bars : TimePriceBars) (now : Nat) : Prop :=
  ∃ bar bandMean upper lower ema emaSlope, bars.timePriceBar now = some bar ∧
    (bar.data.map TickData.isNegative).getD true = false ∧
    bar.indicators = some ⟨some (bandMean, upper, lower), (ema, emaSlope)⟩ ∧
    (bar.close.raw : Int) = ema.raw ∧ bandMean = bar.close ∧ 0 ≤ emaSlope.raw

variable {bars : TimePriceBars} {now open_ : Nat}

theorem shouldClosePosition_eq_ok : shouldClosePosition bars now open_ = .ok () ↔
    ∃ bar i, bars.timePriceBar now = some bar ∧ bar.indicators = some i ∧
      (bar.close.raw : Int) ≤ i.ema.1.raw := by
  unfold shouldClosePosition
  cases bars.timePriceBar now with
  | none => simp
  | some bar =>
    cases hi : bar.indicators with
    | none => simp [hi]
    | some i =>
      obtain ⟨bands, ema, emaSlope⟩ := i
      simp only [hi, Option.some.injEq, exists_and_left, exists_eq_left']
      unfold U32F96.gtI32F96
      split
      next habove =>
        have hlt := of_decide_eq_true habove
        exact iff_of_false (fun h => by cases h) (by omega)
      next hle =>
        have hnot := mt decide_eq_true hle
        exact iff_of_true rfl (by omega)

theorem shouldOpenPosition_eq_ok : shouldOpenPosition bars now = .ok () ↔
    ∃ bar bandMean upper lower ema emaSlope, bars.timePriceBar now = some bar ∧
      (bar.data.map TickData.isNegative).getD true = false ∧
      bar.indicators = some ⟨some (bandMean, upper, lower), (ema, emaSlope)⟩ ∧
      ema.raw ≤ bar.close.raw ∧ ema.raw ≤ bandMean.raw ∧ bandMean ≤ bar.close ∧
      0 ≤ emaSlope.raw := by
  constructor
  · intro h
    unfold shouldOpenPosition at h
    split at h
    next => cases h
    next bar hbar =>
      split at h
      next => cases h
      next hpositive =>
        split at h
        next bandMean upper lower ema emaSlope hi =>
          refine ⟨bar, bandMean, upper, lower, ema, emaSlope, hbar, Bool.eq_false_of_not_eq_true hpositive,
            hi, ?_⟩
          dsimp only at h
          unfold U32F96.ltI32F96 I32F96.isNegative at h
          split at h
          next => cases h
          next hclose =>
            split at h
            next => cases h
            next hmean =>
              split at h
              next => cases h
              next hband =>
                split at h
                next => cases h
                next hslope =>
                  have hclose := mt decide_eq_true hclose
                  have hmean := mt decide_eq_true hmean
                  have hslope := mt decide_eq_true hslope
                  exact ⟨by omega, by omega, not_lt.mp hband, by omega⟩
        next => cases h
        next => cases h
  · rintro ⟨bar, bandMean, upper, lower, ema, emaSlope, hbar, hpositive, hi, hclose, hmean, hband,
      hslope⟩
    unfold shouldOpenPosition U32F96.ltI32F96 I32F96.isNegative
    rw [hbar]
    dsimp only
    rw [hpositive, if_neg (by decide), hi]
    dsimp only
    have hband' : ¬bar.close < bandMean := not_lt.mpr hband
    rw [if_neg (by simp; omega), if_neg (by simp; omega), if_neg hband', if_neg (by simp; omega)]

/-- The signals exclude each other on every bar that is not flat. -/
theorem signals_exclusive_iff : ¬(shouldOpenPosition bars now = .ok () ∧
    shouldClosePosition bars now open_ = .ok ()) ↔ ¬Flat bars now := by
  rw [not_iff_not, shouldOpenPosition_eq_ok, shouldClosePosition_eq_ok]
  constructor
  · rintro ⟨⟨bar, bandMean, upper, lower, ema, emaSlope, hbar, hpositive, hi, hclose, hmean, hband,
      hslope⟩, bar', i, hbar', hi', hle⟩
    cases hbar.symm.trans hbar'
    cases hi.symm.trans hi'
    dsimp only at hle
    rw [U32F96.le_iff_raw] at hband
    have heq : bandMean = bar.close := U32F96.raw_injective (by omega)
    exact ⟨bar, bandMean, upper, lower, ema, emaSlope, hbar, hpositive, hi, by omega, heq, hslope⟩
  · rintro ⟨bar, bandMean, upper, lower, ema, emaSlope, hbar, hpositive, hi, hclose, rfl, hslope⟩
    exact ⟨⟨bar, bar.close, upper, lower, ema, emaSlope, hbar, hpositive, hi, hclose.ge, hclose.ge,
      le_rfl, hslope⟩, bar, _, hbar, hi, hclose.le⟩

/-- Twenty blocks at one price, one in each bucket. -/
def flatCalls : List TimedCall :=
  (List.range 20).map fun i =>
    .insertData (i + 1) ⟨.one, .one, .one, .one, 0⟩ (6000 + 300 * i) none

/-- After twenty bars at one price both signals are given. -/
theorem signals_not_exclusive :
    ¬∀ (calls : List TimedCall) (bars : TimePriceBars) (now open_ : Nat),
      TimePriceBars.timedCalls.run (.new (some 60) .fiveMinutes (some .all)) calls = some bars →
      ¬(shouldOpenPosition bars now = .ok () ∧ shouldClosePosition bars now open_ = .ok ()) := by
  intro h
  have hruns : ((TimePriceBars.timedCalls.run (.new (some 60) .fiveMinutes (some .all))
      flatCalls).map fun bars => decide (shouldOpenPosition bars 11700 = .ok () ∧
        shouldClosePosition bars 11700 6000 = .ok ())) = some true := by
    decide +kernel
  obtain ⟨bars, hrun, hboth⟩ := Option.map_eq_some_iff.mp hruns
  exact h flatCalls bars 11700 6000 hrun (of_decide_eq_true hboth)

end MomentumStrategy

end Pochtecatl
