import Pochtecatl.FixedRaw
import Pochtecatl.Indicators

namespace Pochtecatl

namespace Indicators

open ResolutionTimestamp

/-- The EMA that the next bar builds on. -/
def prevEma (prevBar : TimePriceBar) : I32F96 :=
  (prevBar.indicators.map fun i => i.ema.1).getD prevBar.close.toI32F96

/-- The move of the EMA from that of the bar before towards the close. -/
def emaMove (close : U32F96) (prev : I32F96) : I32F96 :=
  (close.toI32F96.sub prev).mul qIndicatorEmaSmoothingFactor

def emaStep (close : U32F96) (prev : I32F96) : I32F96 := (emaMove close prev).add prev

/-- The EMA stays in range at each operation; the product is rounded down. -/
structure StepExact (close : U32F96) (prev : I32F96) : Prop where
  difference : (close.toI32F96.sub prev).raw = close.toI32F96.raw - prev.raw
  product : (emaMove close prev).raw =
    (close.toI32F96.sub prev).raw * qIndicatorEmaSmoothingFactor.raw / 2 ^ 96
  sum : (emaStep close prev).raw = (emaMove close prev).raw + prev.raw
  slope : ((emaStep close prev).sub prev).raw = (emaStep close prev).raw - prev.raw

/-- No operation of the EMA of a bucket over these bars leaves its range. -/
def EmaExact (timestamp : Nat) (resolution : Resolution) (data : Bars) : Prop :=
  ∀ bar, data.get? timestamp = some bar → bar.close.toI32F96.raw = bar.close.raw ∧
    ∀ prevBar, data.get? (previous timestamp resolution) = some prevBar →
      prevBar.close.toI32F96.raw = prevBar.close.raw ∧ StepExact bar.close (prevEma prevBar)

theorem emaAt_of_prev {timestamp : Nat} {resolution : Resolution} {data : Bars}
    {bar prevBar : TimePriceBar} (hg : data.get? timestamp = some bar)
    (hprev : data.get? (previous timestamp resolution) = some prevBar) :
    emaAt timestamp resolution data = (emaStep bar.close (prevEma prevBar),
      (emaStep bar.close (prevEma prevBar)).sub (prevEma prevBar)) := by
  rw [emaAt, hg, hprev]
  rfl

theorem emaAt_of_no_prev {timestamp : Nat} {resolution : Resolution} {data : Bars}
    {bar : TimePriceBar} (hg : data.get? timestamp = some bar)
    (hprev : data.get? (previous timestamp resolution) = none) :
    emaAt timestamp resolution data = (bar.close.toI32F96, I32F96.zero) := by
  rw [emaAt, hg, hprev]

theorem raw_qIndicatorEmaSmoothingFactor :
    qIndicatorEmaSmoothingFactor.raw = 2 * 2 ^ 96 / 10 := by decide

/-- A move by a tenth of twice the distance, rounded down, does not get past the close. -/
theorem emaMove_between (d : Int) :
    (0 ≤ d → 0 ≤ d * (2 * 2 ^ 96 / 10) / 2 ^ 96 ∧ d * (2 * 2 ^ 96 / 10) / 2 ^ 96 ≤ d) ∧
      (d ≤ 0 → d ≤ d * (2 * 2 ^ 96 / 10) / 2 ^ 96 ∧ d * (2 * 2 ^ 96 / 10) / 2 ^ 96 ≤ 0) := by
  constructor
  · intro h
    omega
  · intro h
    omega

/-- Raw values between `lo` and `hi`. -/
def Between (lo hi z : Int) : Prop := lo ≤ z ∧ z ≤ hi

section Step

variable {lo hi : Int} {close : U32F96} {prev : I32F96}

theorem raw_close (hhi : hi < 2 ^ 127) (hc : Between lo hi close.raw) :
    close.toI32F96.raw = close.raw := by
  have hle := hc.2
  exact U32F96.raw_toI32F96_eq_iff.mpr (by omega)

/-- The move over the integers. -/
theorem raw_emaMove (hlo : 0 ≤ lo) (hhi : hi < 2 ^ 127) (hc : Between lo hi close.raw)
    (hp : Between lo hi prev.raw) :
    (close.toI32F96.sub prev).raw = (close.raw : Int) - prev.raw ∧
      (emaMove close prev).raw = ((close.raw : Int) - prev.raw) * (2 * 2 ^ 96 / 10) / 2 ^ 96 := by
  obtain ⟨hclo, hchi⟩ := hc
  obtain ⟨hplo, hphi⟩ := hp
  have hclose := raw_close hhi ⟨hclo, hchi⟩
  have hdiff : (close.toI32F96.sub prev).raw = (close.raw : Int) - prev.raw := by
    rw [I32F96.raw_sub_eq_iff.mpr, hclose]
    rw [hclose, I32F96.InRange]
    omega
  refine ⟨hdiff, ?_⟩
  have hrange : I32F96.InRange
      ((close.toI32F96.sub prev).raw * qIndicatorEmaSmoothingFactor.raw / 2 ^ 96) := by
    rw [hdiff, raw_qIndicatorEmaSmoothingFactor, I32F96.InRange]
    omega
  rw [emaMove, I32F96.raw_mul_eq_iff.mpr hrange, hdiff, raw_qIndicatorEmaSmoothingFactor]

/-- The EMA does not get past the close, and its slope has the sign of its way there. -/
theorem emaStep_spec (hlo : 0 ≤ lo) (hhi : hi < 2 ^ 127) (hc : Between lo hi close.raw)
    (hp : Between lo hi prev.raw) :
    StepExact close prev ∧ Between lo hi (emaStep close prev).raw ∧
      (prev.raw ≤ close.raw → 0 ≤ ((emaStep close prev).sub prev).raw) ∧
      ((close.raw : Int) ≤ prev.raw → ((emaStep close prev).sub prev).raw ≤ 0) := by
  obtain ⟨hdiff, hmove⟩ := raw_emaMove hlo hhi hc hp
  have hclose := raw_close hhi hc
  obtain ⟨hclo, hchi⟩ := hc
  obtain ⟨hplo, hphi⟩ := hp
  obtain ⟨hup, hdown⟩ := emaMove_between ((close.raw : Int) - prev.raw)
  rw [← hmove] at hup hdown
  have hsum : (emaStep close prev).raw = (emaMove close prev).raw + prev.raw := by
    rw [emaStep, I32F96.raw_add_eq_iff, I32F96.InRange]
    omega
  have hslope : ((emaStep close prev).sub prev).raw = (emaStep close prev).raw - prev.raw := by
    rw [I32F96.raw_sub_eq_iff, hsum, I32F96.InRange]
    omega
  refine ⟨⟨by rw [hdiff, hclose], ?_, hsum, hslope⟩, ?_, fun h => ?_, fun h => ?_⟩
  · rw [hmove, hdiff, raw_qIndicatorEmaSmoothingFactor]
  · rw [hsum, Between]
    omega
  · rw [hslope, hsum]
    omega
  · rw [hslope, hsum]
    omega

end Step

end Indicators

end Pochtecatl
