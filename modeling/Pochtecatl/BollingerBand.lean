import Mathlib.Algebra.Group.Action.Defs
import Mathlib.Algebra.Order.BigOperators.Group.List
import Mathlib.Algebra.Order.Ring.Nat
import Mathlib.Data.List.Sort
import Pochtecatl.FixedRaw
import Pochtecatl.Indicators

namespace Pochtecatl

namespace Indicators

open ResolutionTimestamp

section Window

variable {timestamp : Nat} {resolution : Resolution} {data : Bars} {closes : List U32F96}

/-- The start of the first bucket of the Bollinger period. -/
def windowStart (timestamp : Nat) (resolution : Resolution) : Nat :=
  timestamp - resolution.offset * (indicatorBbPeriod - 1)

/-- The buckets of the Bollinger period have bars with these closes, the oldest first, and every
bar lies in a bucket. -/
structure FullWindow (timestamp : Nat) (resolution : Resolution) (data : Bars)
    (closes : List U32F96) : Prop where
  late : resolution.offset * (indicatorBbPeriod - 1) ≤ timestamp
  aligned : resolution.offset ∣ timestamp
  buckets : ∀ key bar, data.get? key = some bar → resolution.offset ∣ key
  period : closes.length = indicatorBbPeriod
  bars : ∀ i close, closes[i]? = some close → ∃ bar tick,
    data.get? (windowStart timestamp resolution + resolution.offset * i) = some bar ∧
      bar.data = some tick ∧ tick.close = close

theorem FullWindow.decrement_eq (h : FullWindow timestamp resolution data closes) :
    decrement timestamp resolution (indicatorBbPeriod - 1) = windowStart timestamp resolution :=
  wrappingSub_of_le h.late

/-- The bars in the period are those of its buckets. -/
theorem FullWindow.keys (h : FullWindow timestamp resolution data closes) :
    (data.rangeEntries (windowStart timestamp resolution) timestamp).map Prod.fst =
      (List.range indicatorBbPeriod).map fun i =>
        windowStart timestamp resolution + resolution.offset * i := by
  have hpos := resolution.offset_pos
  have hstart : timestamp = windowStart timestamp resolution + resolution.offset * 19 := by
    have := h.late
    unfold windowStart indicatorBbPeriod at *
    omega
  refine List.Pairwise.eq_of_mem_iff (r := (· < ·)) ?_ ?_ fun key => ?_
  · exact List.pairwise_map.mpr (data.sorted.filter _)
  · refine List.pairwise_map.mpr (List.pairwise_lt_range.imp fun hij => ?_)
    exact Nat.add_lt_add_left (Nat.mul_lt_mul_of_pos_left hij hpos) _
  · simp only [List.mem_map, Prod.exists, OrdMap.mem_rangeEntries, exists_and_right, exists_eq_right,
      List.mem_range]
    constructor
    · rintro ⟨⟨bar, hg⟩, hlo, hhi⟩
      obtain ⟨k, rfl⟩ := h.buckets key bar hg
      obtain ⟨s, hs⟩ : resolution.offset ∣ windowStart timestamp resolution :=
        Nat.dvd_sub h.aligned (Nat.dvd_mul_right _ _)
      rw [hstart, hs, ← Nat.mul_add] at hhi
      rw [hs] at hlo ⊢
      have hle := Nat.le_of_mul_le_mul_left hlo hpos
      have hge := Nat.le_of_mul_le_mul_left hhi hpos
      refine ⟨k - s, by unfold indicatorBbPeriod; omega, ?_⟩
      rw [← Nat.mul_add, Nat.add_sub_cancel' hle]
    · rintro ⟨i, hi, rfl⟩
      rw [← h.period] at hi
      obtain ⟨bar, -, hg, -⟩ := h.bars i _ (List.getElem?_eq_getElem hi)
      rw [h.period] at hi
      refine ⟨⟨bar, hg⟩, Nat.le_add_right _ _, ?_⟩
      have hoffset := Nat.mul_le_mul_left resolution.offset (show i ≤ 19 from Nat.le_of_lt_succ hi)
      omega

/-- The closes that the indicator sums up. -/
theorem FullWindow.closePrices_eq (h : FullWindow timestamp resolution data closes) :
    closePrices data (windowStart timestamp resolution) timestamp = closes := by
  have hentries : closePrices data (windowStart timestamp resolution) timestamp =
      ((data.rangeEntries (windowStart timestamp resolution) timestamp).map Prod.fst).filterMap
        fun key => ((data.get? key).bind TimePriceBar.data).map TickData.close := by
    rw [closePrices, List.filterMap_map]
    refine List.filterMap_congr fun e he => ?_
    rw [Function.comp_apply, (OrdMap.mem_rangeEntries.mp he).1, Option.bind_some]
  have hclose : ∀ i, i < indicatorBbPeriod → ((data.get? (windowStart timestamp resolution +
      resolution.offset * i)).bind TimePriceBar.data).map TickData.close = closes[i]? := by
    intro i hi
    rw [← h.period] at hi
    have hget := List.getElem?_eq_getElem hi
    obtain ⟨bar, tick, hg, ht, hc⟩ := h.bars i _ hget
    rw [hg, Option.bind_some, ht, Option.map_some, hc, hget]
  have hrange : (List.range indicatorBbPeriod).map (fun i => closes[i]?) = closes.map some := by
    refine List.ext_getElem ?_ fun i hi hi' => ?_
    · rw [List.length_map, List.length_range, List.length_map, h.period]
    · rw [List.getElem_map, List.getElem_range, List.getElem_map]
      exact List.getElem?_eq_getElem _
  rw [hentries, h.keys, List.filterMap_map]
  calc (List.range indicatorBbPeriod).filterMap _
      = (List.range indicatorBbPeriod).filterMap fun i => closes[i]? :=
        List.filterMap_congr fun i hi => hclose i (List.mem_range.mp hi)
    _ = ((List.range indicatorBbPeriod).map fun i => closes[i]?).filterMap id := by
        rw [List.filterMap_map]
        rfl
    _ = closes := by
        rw [hrange, List.filterMap_map]
        exact List.filterMap_some

end Window

section Stages

variable {prices : List U32F96} {price : U32F96}

def sma (prices : List U32F96) : U32F96 := (U32F96.sum prices).div qIndicatorBbPeriod

def deviation (prices : List U32F96) (price : U32F96) : I32F96 :=
  price.toI32F96.sub (sma prices).toI32F96

def square (prices : List U32F96) (price : U32F96) : I32F96 :=
  (deviation prices price).mul (deviation prices price)

def squares (prices : List U32F96) : List U32F96 :=
  prices.map fun price => (square prices price).toU32F96

def variance (prices : List U32F96) : U32F96 :=
  (U32F96.sum (squares prices)).div qIndicatorBbPeriod

def bandWidth (prices : List U32F96) : U32F96 := (variance prices).sqrt.mul qIndicatorBbStdDev

/-- No operation on the way to the bands leaves its range; those that round do so once. The
lower band is a checked subtraction. -/
structure BandExact (prices : List U32F96) : Prop where
  summed : (U32F96.sum prices).raw = (prices.map U32F96.raw).sum
  averaged : (sma prices).raw = (U32F96.sum prices).raw * 2 ^ 96 / qIndicatorBbPeriod.raw
  smaSigned : (sma prices).toI32F96.raw = (sma prices).raw
  signed : ∀ price ∈ prices, price.toI32F96.raw = price.raw
  subtracted : ∀ price ∈ prices,
    (deviation prices price).raw = price.toI32F96.raw - (sma prices).toI32F96.raw
  squared : ∀ price ∈ prices,
    (square prices price).raw = (deviation prices price).raw * (deviation prices price).raw / 2 ^ 96
  unsigned : ∀ price ∈ prices,
    ((square prices price).toU32F96.raw : Int) = (square prices price).raw
  squaresSummed : (U32F96.sum (squares prices)).raw = ((squares prices).map U32F96.raw).sum
  squaresAveraged : (variance prices).raw =
    (U32F96.sum (squares prices)).raw * 2 ^ 96 / qIndicatorBbPeriod.raw
  rooted : (variance prices).sqrt.raw = Nat.sqrt ((variance prices).raw * 2 ^ 96)
  doubled : (bandWidth prices).raw =
    (variance prices).sqrt.raw * qIndicatorBbStdDev.raw / 2 ^ 96
  added : ((sma prices).add (bandWidth prices)).raw = (sma prices).raw + (bandWidth prices).raw

/-- The mean of the prices over the integers, rounded down. -/
def meanRaw (prices : List U32F96) : Nat := (prices.map U32F96.raw).sum / indicatorBbPeriod

/-- The square of the distance to the mean. -/
def squareRaw (prices : List U32F96) (price : U32F96) : Nat :=
  ((price.raw : Int) - meanRaw prices).natAbs ^ 2 / 2 ^ 96

/-- The sum of the prices, and that of the squared distances to their mean, are below `2 ^ 32`,
each square is below `2 ^ 31`. -/
structure BandFits (prices : List U32F96) : Prop where
  total : (prices.map U32F96.raw).sum < 2 ^ 128
  each : ∀ price ∈ prices, squareRaw prices price < 2 ^ 127
  squaresTotal : (prices.map (squareRaw prices)).sum < 2 ^ 128

theorem raw_qIndicatorBbPeriod : qIndicatorBbPeriod.raw = 20 * 2 ^ 96 := rfl

theorem raw_qIndicatorBbStdDev : qIndicatorBbStdDev.raw = 2 * 2 ^ 96 := rfl

/-- A division by the period never leaves the range. -/
theorem raw_div_period (a : U32F96) : (a.div qIndicatorBbPeriod).raw = a.raw / indicatorBbPeriod := by
  have hlt := a.raw_lt
  rw [U32F96.raw_div, raw_qIndicatorBbPeriod, Nat.mul_div_mul_right _ _ (by decide),
    indicatorBbPeriod]
  omega

theorem raw_div_period_eq (a : U32F96) :
    (a.div qIndicatorBbPeriod).raw = a.raw * 2 ^ 96 / qIndicatorBbPeriod.raw := by
  rw [raw_div_period, raw_qIndicatorBbPeriod, Nat.mul_div_mul_right _ _ (by decide), indicatorBbPeriod]

theorem sqrt_lt (a : U32F96) : Nat.sqrt (a.raw * 2 ^ 96) < 2 ^ 112 := by
  have hlt := Nat.mul_lt_mul_of_pos_right a.raw_lt (show 0 < 2 ^ 96 by decide)
  have hbits : 2 ^ 128 * 2 ^ 96 = (2 ^ 112) ^ 2 := by decide
  exact Nat.sqrt_lt'.mpr (hlt.trans_eq hbits)

/-- A square root never leaves the range. -/
theorem raw_sqrt (a : U32F96) : a.sqrt.raw = Nat.sqrt (a.raw * 2 ^ 96) := by
  have hlt := sqrt_lt a
  exact U32F96.raw_ofRaw_eq_iff.mpr (by rw [oneBits_eq]; omega)

theorem raw_sma (h : (prices.map U32F96.raw).sum < 2 ^ 128) : (sma prices).raw = meanRaw prices := by
  rw [sma, raw_div_period, U32F96.raw_sum_eq_iff.mpr h, meanRaw]

theorem natCast_squareRaw (prices : List U32F96) (price : U32F96) :
    (squareRaw prices price : Int) = ((price.raw : Int) - meanRaw prices) *
      ((price.raw : Int) - meanRaw prices) / 2 ^ 96 := by
  rw [squareRaw, Int.natCast_ediv, Nat.pow_two, Int.natAbs_mul_self,
    Int.natCast_pow, Int.cast_ofNat_Int]

theorem raw_squares (h : ∀ price ∈ prices, ((square prices price).toU32F96.raw : Int) =
    squareRaw prices price) :
    (squares prices).map U32F96.raw = prices.map (squareRaw prices) := by
  rw [squares, List.map_map]
  refine List.map_congr_left fun price hp => ?_
  rw [Function.comp_apply]
  exact Int.ofNat_inj.mp (h price hp)

/-- Exact operations keep the sums and squares in range. -/
theorem BandExact.fits (h : BandExact prices) : BandFits prices := by
  have hsum := U32F96.raw_sum_eq_iff.mp h.summed
  have hsquare : ∀ price ∈ prices, (square prices price).raw = squareRaw prices price := by
    intro price hp
    rw [h.squared price hp, h.subtracted price hp, h.signed price hp, h.smaSigned, raw_sma hsum,
      natCast_squareRaw]
  refine ⟨hsum, fun price hp => ?_, ?_⟩
  · have hlt := (square prices price).raw_lt
    rw [hsquare price hp] at hlt
    exact_mod_cast hlt
  · have hraws : (squares prices).map U32F96.raw = prices.map (squareRaw prices) :=
      raw_squares fun price hp => (h.unsigned price hp).trans (hsquare price hp)
    rw [← hraws]
    exact U32F96.raw_sum_eq_iff.mp h.squaresSummed

theorem meanRaw_lt (h : (prices.map U32F96.raw).sum < 2 ^ 128) : meanRaw prices < 2 ^ 124 := by
  unfold meanRaw indicatorBbPeriod
  omega

/-- A price whose squared distance fits is close to the mean. -/
theorem natAbs_sub_meanRaw_lt (h : squareRaw prices price < 2 ^ 127) :
    ((price.raw : Int) - meanRaw prices).natAbs < 2 ^ 112 := by
  have hsq : ((price.raw : Int) - meanRaw prices).natAbs ^ 2 < 2 ^ 127 * 2 ^ 96 :=
    (Nat.div_lt_iff_lt_mul (by decide)).mp h
  have hbits : 2 ^ 127 * 2 ^ 96 < (2 ^ 112) ^ 2 := by decide
  exact (Nat.pow_lt_pow_iff_left (by decide)).mp (hsq.trans hbits)

/-- When the sums and squares are in range, so is every operation. -/
theorem BandFits.exact (h : BandFits prices) : BandExact prices := by
  have hsma := raw_sma h.total
  have hmean := meanRaw_lt h.total
  have hsmaSigned : (sma prices).toI32F96.raw = meanRaw prices := by
    rw [U32F96.raw_toI32F96_eq_iff.mpr (by omega), hsma]
  have hsigned : ∀ price ∈ prices, price.toI32F96.raw = price.raw := by
    intro price hp
    have hnear := natAbs_sub_meanRaw_lt (h.each price hp)
    exact U32F96.raw_toI32F96_eq_iff.mpr (by omega)
  have hdeviation : ∀ price ∈ prices,
      (deviation prices price).raw = (price.raw : Int) - meanRaw prices := by
    intro price hp
    have hnear := natAbs_sub_meanRaw_lt (h.each price hp)
    have hrange : I32F96.InRange (price.toI32F96.raw - (sma prices).toI32F96.raw) := by
      rw [hsigned price hp, hsmaSigned, I32F96.InRange]
      omega
    rw [deviation, I32F96.raw_sub_eq_iff.mpr hrange, hsigned price hp, hsmaSigned]
  have hsquare : ∀ price ∈ prices, (square prices price).raw = squareRaw prices price := by
    intro price hp
    have hfits := h.each price hp
    have hvalue : (deviation prices price).raw * (deviation prices price).raw / 2 ^ 96 =
        squareRaw prices price := by
      rw [hdeviation price hp, natCast_squareRaw]
    have hrange : I32F96.InRange
        ((deviation prices price).raw * (deviation prices price).raw / 2 ^ 96) := by
      rw [hvalue, I32F96.InRange]
      omega
    rw [square, I32F96.raw_mul_eq_iff.mpr hrange, hvalue]
  have hunsigned : ∀ price ∈ prices,
      ((square prices price).toU32F96.raw : Int) = (square prices price).raw := by
    intro price hp
    rw [I32F96.raw_toU32F96_eq_iff, hsquare price hp]
    exact Int.natCast_nonneg _
  have hsummed : (U32F96.sum (squares prices)).raw = ((squares prices).map U32F96.raw).sum := by
    rw [U32F96.raw_sum_eq_iff, raw_squares fun price hp => (hunsigned price hp).trans (hsquare price hp)]
    exact h.squaresTotal
  have hrooted := raw_sqrt (variance prices)
  have hroot : (variance prices).sqrt.raw < 2 ^ 112 := by
    rw [hrooted]
    exact sqrt_lt (variance prices)
  have hdoubled : (bandWidth prices).raw =
      (variance prices).sqrt.raw * qIndicatorBbStdDev.raw / 2 ^ 96 := by
    rw [bandWidth, U32F96.raw_mul, raw_qIndicatorBbStdDev]
    omega
  refine ⟨U32F96.raw_sum_eq_iff.mpr h.total, raw_div_period_eq _, by rw [hsmaSigned, hsma], hsigned,
    fun price hp => ?_, fun price hp => ?_, hunsigned, hsummed, raw_div_period_eq _, hrooted, hdoubled, ?_⟩
  · rw [hdeviation price hp, hsigned price hp, hsmaSigned]
  · rw [hsquare price hp, hdeviation price hp, natCast_squareRaw]
  · rw [U32F96.raw_add_eq_iff, hsma, hdoubled, raw_qIndicatorBbStdDev]
    omega

/-- A price is at most the mean, and another one is at least the mean. -/
theorem exists_le_meanRaw (hlength : prices.length = indicatorBbPeriod) :
    (∃ price ∈ prices, price.raw ≤ meanRaw prices) ∧ ∃ price ∈ prices, meanRaw prices ≤ price.raw := by
  have hperiod : (prices.map U32F96.raw).length = 20 := by
    rw [List.length_map, hlength, indicatorBbPeriod]
  constructor
  · by_contra hnone
    have hall : ∀ n ∈ prices.map U32F96.raw, meanRaw prices + 1 ≤ n := by
      intro n hn
      obtain ⟨price, hp, rfl⟩ := List.mem_map.mp hn
      exact Nat.lt_of_not_le fun hle => hnone ⟨price, hp, hle⟩
    have hsum := List.card_nsmul_le_sum _ _ hall
    rw [hperiod, smul_eq_mul, meanRaw, indicatorBbPeriod] at hsum
    omega
  · by_contra hnone
    have hall : ∀ n ∈ prices.map U32F96.raw, n ≤ meanRaw prices - 1 := by
      intro n hn
      obtain ⟨price, hp, rfl⟩ := List.mem_map.mp hn
      exact Nat.le_pred_of_lt (Nat.lt_of_not_le fun hle => hnone ⟨price, hp, hle⟩)
    have hsum := List.sum_le_card_nsmul _ _ hall
    obtain ⟨price, hp⟩ := List.exists_mem_of_length_pos (l := prices) (by rw [hlength]; decide)
    have hpos : price.raw < meanRaw prices := Nat.lt_of_not_le fun hle => hnone ⟨price, hp, hle⟩
    rw [hperiod, smul_eq_mul] at hsum
    unfold meanRaw indicatorBbPeriod at hsum hpos
    omega

end Stages

section Band

variable {timestamp : Nat} {resolution : Resolution} {data : Bars} {closes : List U32F96}

/-- The lower band, zero where the width exceeds the mean. -/
def lowerBand (prices : List U32F96) : U32F96 :=
  ((sma prices).checkedSub (bandWidth prices)).getD U32F96.zero

theorem FullWindow.bollingerBand_eq (h : FullWindow timestamp resolution data closes) :
    bollingerBand timestamp resolution data =
      some (some (sma closes, (sma closes).add (bandWidth closes), lowerBand closes)) := by
  have hstart : ¬timestamp < windowStart timestamp resolution :=
    Nat.not_lt.mpr (Nat.sub_le _ _)
  have hlength : ¬closes.length ≠ indicatorBbPeriod := not_not_intro h.period
  unfold bollingerBand
  simp only [h.decrement_eq, hstart, if_false, h.closePrices_eq, hlength]
  rfl

theorem lowerBand_le (prices : List U32F96) : lowerBand prices ≤ sma prices := by
  by_cases h : bandWidth prices ≤ sma prices
  · obtain ⟨lower, hlower, hraw⟩ := U32F96.raw_checkedSub h
    rw [lowerBand, hlower, Option.getD_some, U32F96.le_iff_raw, hraw]
    exact Nat.sub_le _ _
  · have hnone : (sma prices).checkedSub (bandWidth prices) = none := if_neg h
    rw [lowerBand, hnone, Option.getD_none, U32F96.le_iff_raw, U32F96.raw_zero]
    exact Nat.zero_le _

/-- The bands lie around the rounded mean, and no operation on the way leaves its range. -/
def BandSound (timestamp : Nat) (resolution : Resolution) (data : Bars)
    (closes : List U32F96) : Prop :=
  ∃ sma upper lower, bollingerBand timestamp resolution data = some (some (sma, upper, lower)) ∧
    sma.raw = (closes.map U32F96.raw).sum / 20 ∧
    (∃ close ∈ closes, close ≤ sma) ∧ (∃ close ∈ closes, sma ≤ close) ∧
    lower ≤ sma ∧ sma ≤ upper ∧
    BandExact (closePrices data (windowStart timestamp resolution) timestamp)

/-- The bands are sound exactly for closes whose sums and squares fit. -/
theorem bollingerBand_sound_iff (h : FullWindow timestamp resolution data closes) :
    BandSound timestamp resolution data closes ↔ BandFits closes := by
  unfold BandSound
  rw [h.closePrices_eq]
  constructor
  · rintro ⟨-, -, -, -, -, -, -, -, -, hexact⟩
    exact hexact.fits
  · intro hfits
    have hexact := hfits.exact
    obtain ⟨⟨low, hlow, hle⟩, high, hhigh, hge⟩ := exists_le_meanRaw h.period
    have hsma := raw_sma hfits.total
    refine ⟨sma closes, (sma closes).add (bandWidth closes), lowerBand closes, h.bollingerBand_eq,
      hsma, ⟨low, hlow, ?_⟩, ⟨high, hhigh, ?_⟩, lowerBand_le closes, ?_, hexact⟩
    · rwa [U32F96.le_iff_raw, hsma]
    · rwa [U32F96.le_iff_raw, hsma]
    · rw [U32F96.le_iff_raw, hexact.added]
      exact Nat.le_add_right _ _

/-- The first buckets of the epoch, with these closes. -/
def windowBars (closes : List U32F96) : Bars where
  entries := closes.mapIdx fun i close =>
    (300 * i, .finalized ⟨⟨close, close, close, close, 0⟩, none, i, i⟩)
  sorted := by
    refine List.pairwise_iff_getElem.mpr fun i j hi hj hij => ?_
    rw [List.getElem_mapIdx, List.getElem_mapIdx]
    exact Nat.mul_lt_mul_of_pos_left hij (by decide)

theorem fullWindow_windowBars (h : closes.length = indicatorBbPeriod) :
    FullWindow 5700 .fiveMinutes (windowBars closes) closes := by
  refine ⟨by decide, by decide, fun key bar hg => ?_, h, fun i close hc => ?_⟩
  · obtain ⟨i, hi, he⟩ := List.mem_mapIdx.mp (OrdMap.get?_eq_some_iff.mp hg)
    obtain ⟨rfl, -⟩ := Prod.mk.inj he
    exact Nat.dvd_mul_right _ _
  · obtain ⟨hi, rfl⟩ := List.getElem?_eq_some_iff.mp hc
    have hmem : (300 * i, .finalized ⟨⟨closes[i], closes[i], closes[i], closes[i], 0⟩, none, i, i⟩) ∈
        (windowBars closes).entries := List.mem_mapIdx.mpr ⟨i, hi, rfl⟩
    have hkey : windowStart 5700 .fiveMinutes + Resolution.fiveMinutes.offset * i = 300 * i :=
      Nat.zero_add _
    rw [hkey]
    exact ⟨_, _, OrdMap.get?_eq_some_iff.mpr hmem, rfl, rfl⟩

/-- Closes of 0 to 19. -/
def risingCloses : List U32F96 := (List.range 20).map U32F96.fromNum

theorem bollingerBand_sound_risingCloses :
    BandSound 5700 .fiveMinutes (windowBars risingCloses) risingCloses :=
  (bollingerBand_sound_iff (fullWindow_windowBars rfl)).mpr
    ⟨by decide +kernel, by decide +kernel, by decide +kernel⟩

/-- Twenty closes of `2 ^ 31` do not fit into their sum. -/
theorem bollingerBand_not_sound :
    ¬∀ timestamp resolution data closes, FullWindow timestamp resolution data closes →
      BandSound timestamp resolution data closes := by
  intro h
  have hfull := fullWindow_windowBars
    (show (List.replicate 20 (U32F96.fromNum (2 ^ 31))).length = indicatorBbPeriod from rfl)
  obtain ⟨-, -, -, -, -, -, -, -, -, hexact⟩ := h _ _ _ _ hfull
  rw [hfull.closePrices_eq] at hexact
  exact absurd hexact.fits.total (by decide)

end Band

end Indicators

end Pochtecatl
