import Pochtecatl.TimePriceBar

namespace Pochtecatl

inductive IndicatorsConfig where
  | all
  deriving DecidableEq

def indicatorBbPeriod : Nat := 20

def indicatorEmaPeriod : Nat := 9

def qIndicatorBbPeriod : U32F96 := U32F96.fromNum indicatorBbPeriod

def qIndicatorBbStdDev : U32F96 := U32F96.fromNum 2

def qIndicatorEmaSmoothingFactor : I32F96 :=
  (I32F96.fromNum 2).div ((I32F96.fromNum indicatorEmaPeriod).add I32F96.one)

namespace Indicators

abbrev Bars := OrdMap Nat TimePriceBar

def closePrices (data : Bars) (start timestamp : Nat) : List U32F96 :=
  (data.rangeEntries start timestamp).filterMap fun e => e.2.data.map TickData.close

/-- `none` is a panic: `BTreeMap::range` refuses a start past its end, which the
wrapped start of the first 19 buckets of the epoch is. -/
def bollingerBand (timestamp : Nat) (resolution : Resolution) (data : Bars) :
    Option (Option (U32F96 × U32F96 × U32F96)) :=
  let start := ResolutionTimestamp.decrement timestamp resolution (indicatorBbPeriod - 1)
  if timestamp < start then none
  else
    let prices := closePrices data start timestamp
    if prices.length ≠ indicatorBbPeriod then some none
    else
      let sma := (U32F96.sum prices).div qIndicatorBbPeriod
      let varianceSma := sma.toI32F96
      let squares := prices.map fun price =>
        let p := price.toI32F96.sub varianceSma
        (p.mul p).toU32F96
      let variance := (U32F96.sum squares).div qIndicatorBbPeriod
      let stdDev := variance.sqrt
      some (some (sma, sma.add (stdDev.mul qIndicatorBbStdDev),
        (sma.checkedSub (stdDev.mul qIndicatorBbStdDev)).getD U32F96.zero))

def emaAt (timestamp : Nat) (resolution : Resolution) (data : Bars) :
    I32F96 × I32F96 :=
  match data.get? timestamp, data.get? (ResolutionTimestamp.previous timestamp resolution) with
  | some bar, some prevBar =>
    let prevEma := (prevBar.indicators.map fun i => i.ema.1).getD prevBar.close.toI32F96
    let ema := ((bar.close.toI32F96.sub prevEma).mul qIndicatorEmaSmoothingFactor).add prevEma
    (ema, ema.sub prevEma)
  | some bar, none => (bar.close.toI32F96, I32F96.zero)
  | none, _ => (I32F96.zero, I32F96.zero)

def compute (timestamp : Nat) (resolution : Resolution) (data : Bars)
    (_config : IndicatorsConfig) : Option Indicators := do
  let bollingerBands ← bollingerBand timestamp resolution data
  pure ⟨bollingerBands, emaAt timestamp resolution data⟩

theorem decrement_le_iff {ts : Nat} {res : Resolution} :
    ResolutionTimestamp.decrement ts res (indicatorBbPeriod - 1) ≤ ts ↔ 5700 ≤ ts := by
  have hspan : res.offset * (indicatorBbPeriod - 1) = 5700 := by cases res; rfl
  rw [ResolutionTimestamp.decrement, hspan, wrappingSub, UInt64.size]
  split <;> omega

theorem bollingerBand_isSome_iff {ts : Nat} {res : Resolution} {data : Bars} :
    (bollingerBand ts res data).isSome ↔ 5700 ≤ ts := by
  rw [← @decrement_le_iff ts res]
  unfold bollingerBand
  by_cases h : ts < ResolutionTimestamp.decrement ts res (indicatorBbPeriod - 1)
  · simp [h]
  · simp only [h, if_false]
    split <;> simpa using h

/-- Computing indicators panics exactly on the first 19 buckets of the epoch. -/
theorem compute_isSome_iff {ts : Nat} {res : Resolution} {data : Bars}
    {config : IndicatorsConfig} : (compute ts res data config).isSome ↔ 5700 ≤ ts := by
  rw [← @bollingerBand_isSome_iff ts res data]
  unfold compute
  cases bollingerBand ts res data <;> simp

theorem closePrices_congr {data data' : Bars} {start ts : Nat}
    (h : ∀ k, k ≤ ts → (data.get? k).map TimePriceBar.data = (data'.get? k).map TimePriceBar.data) :
    closePrices data start ts = closePrices data' start ts := by
  have key : ∀ d : Bars, closePrices d start ts =
      ((d.mapVals fun _ bar => bar.data).rangeEntries start ts).filterMap
        fun e => e.2.map TickData.close := by
    intro d
    simp only [closePrices, OrdMap.rangeEntries, OrdMap.mapVals, List.filter_map,
      List.filterMap_map]
    rfl
  rw [key, key]
  refine congrArg _ (OrdMap.rangeEntries_congr fun k _ hk => ?_)
  rw [OrdMap.get?_mapVals, OrdMap.get?_mapVals]
  exact h k hk

/-- The indicators of a bar depend on the closes up to it and on the indicators
stored before it. -/
theorem compute_congr {data data' : Bars} {ts : Nat} {res : Resolution}
    {config : IndicatorsConfig}
    (hdata : ∀ k, k ≤ ts →
      (data.get? k).map TimePriceBar.data = (data'.get? k).map TimePriceBar.data)
    (hind : ∀ k, k < ts →
      (data.get? k).map TimePriceBar.indicators = (data'.get? k).map TimePriceBar.indicators) :
    compute ts res data config = compute ts res data' config := by
  by_cases hts : 5700 ≤ ts
  · have hprev : ResolutionTimestamp.previous ts res < ts := by
      have : res.offset = 300 := by cases res; rfl
      simp only [ResolutionTimestamp.previous, wrappingSub_of_le (show res.offset ≤ ts by omega)]
      omega
    have hband : bollingerBand ts res data = bollingerBand ts res data' := by
      unfold bollingerBand
      simp only [closePrices_congr hdata]
    have hema : emaAt ts res data = emaAt ts res data' := by
      have hd := hdata ts le_rfl
      have hd' := hdata _ hprev.le
      have hi := hind _ hprev
      unfold emaAt
      revert hd hd' hi
      generalize data.get? ts = b, data'.get? ts = b', data.get? (ResolutionTimestamp.previous ts res) = p,
        data'.get? (ResolutionTimestamp.previous ts res) = p'
      intro hd hd' hi
      cases b <;> cases b' <;> cases p <;> cases p' <;> simp_all [TimePriceBar.close]
    simp [compute, hband, hema]
  · have hn : ∀ d : Bars, compute ts res d config = none := fun d => by
      rw [← Option.not_isSome_iff_eq_none, compute_isSome_iff]
      exact hts
    rw [hn, hn]

/-- The indicators of a bar read the bars of the Bollinger period only. -/
theorem compute_congr_window {data data' : Bars} {ts : Nat} {res : Resolution}
    {config : IndicatorsConfig} (hts : 5700 ≤ ts)
    (h : ∀ k, ts - 5700 ≤ k → k ≤ ts → data.get? k = data'.get? k) :
    compute ts res data config = compute ts res data' config := by
  have hoffset : res.offset = 300 := by
    cases res
    rfl
  have hstart : ResolutionTimestamp.decrement ts res (indicatorBbPeriod - 1) = ts - 5700 := by
    have hspan : res.offset * (indicatorBbPeriod - 1) = 5700 := by rw [hoffset, indicatorBbPeriod]
    rw [ResolutionTimestamp.decrement, hspan, wrappingSub_of_le hts]
  have hprev : ResolutionTimestamp.previous ts res = ts - 300 := by
    rw [ResolutionTimestamp.previous, hoffset, wrappingSub_of_le (by omega)]
  have hprices : closePrices data (ts - 5700) ts = closePrices data' (ts - 5700) ts :=
    congrArg _ (OrdMap.rangeEntries_congr h)
  have hema : emaAt ts res data = emaAt ts res data' := by
    simp only [emaAt, hprev, h ts (by omega) le_rfl, h (ts - 300) (by omega) (by omega)]
  simp only [compute, bollingerBand, hstart, hprices, hema]

end Indicators

end Pochtecatl
