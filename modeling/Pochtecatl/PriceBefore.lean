import Mathlib.Tactic.Linarith
import Mathlib.Tactic.Ring
import Pochtecatl.PriceConversion

namespace Pochtecatl

theorem U256.toNat_unsignedAbs (a : U256) : a.unsignedAbs.toNat = a.toInt.natAbs := by
  have hlt := a.isLt
  unfold unsignedAbs
  rw [BitVec.toInt_eq_msb_cond]
  split
  next hmsb =>
    have hge := BitVec.msb_eq_true_iff_two_mul_ge.mp hmsb
    rw [BitVec.toNat_neg]
    omega
  next => omega

theorem U256.ne_zero_of_pos {a : U256} (h : 0 < a.toNat) : a ≠ 0 := by
  rintro rfl
  exact absurd h (by decide)

/-! ### Square roots of a falling price -/

/-- What the amount of token 0 of a falling price moves the square root by in the code. -/
def fallQuotient (s₀ s : Nat) : Nat := 2 ^ 192 * (s₀ - s) / (s₀ * s)

theorem le_fallQuotient {s₀ s : Nat} (hpos : 0 < s₀ * s) (h : s₀ * s ≤ 2 ^ 192) :
    s₀ - s ≤ fallQuotient s₀ s := by
  rw [fallQuotient, Nat.le_div_iff_mul_le hpos, Nat.mul_comm]
  exact Nat.mul_le_mul_right _ h

theorem fallQuotient_eq_iff {s₀ s : Nat} (hs : 0 < s) (hlt : s < s₀) :
    fallQuotient s₀ s = s₀ - s ↔
      s₀ * s ≤ 2 ^ 192 ∧ 2 ^ 192 * (s₀ - s) < (s₀ - s + 1) * (s₀ * s) := by
  have hpos : 0 < s₀ * s := Nat.mul_pos (hs.trans hlt) hs
  have hd : 0 < s₀ - s := Nat.sub_pos_of_lt hlt
  rw [← Nat.div_lt_iff_lt_mul hpos]
  constructor
  · intro heq
    have hle := (Nat.le_div_iff_mul_le hpos).mp heq.ge
    rw [Nat.mul_comm] at hle
    exact ⟨Nat.le_of_mul_le_mul_right hle hd, Nat.lt_succ_of_le heq.le⟩
  · rintro ⟨hle, hlt'⟩
    exact Nat.le_antisymm (Nat.le_of_lt_succ hlt') (le_fallQuotient hpos hle)

/-- While both prices and their inverses are below `2 ^ 32`, so are those of what the code finds. -/
theorem add_fallQuotient_lt {s₀ s : Nat} (hs : 2 ^ 80 < s) (hlt : s < s₀) (hs₀ : s₀ < 2 ^ 112) :
    s + fallQuotient s₀ s < 2 ^ 112 := by
  have hpos : 0 < s₀ * s := Nat.mul_pos (by omega) (by omega)
  have hquotient : fallQuotient s₀ s < 2 ^ 112 - s := by
    unfold fallQuotient
    rw [Nat.div_lt_iff_lt_mul hpos]
    zify [hlt.le, (hlt.trans hs₀).le]
    -- the difference is linear in `s₀`, and positive at both of its bounds
    have hsplit : ((2 : Int) ^ 112 - s) * (s₀ * s) = 2 ^ 192 * (s₀ - s) +
        ((2 ^ 112 - s₀) * s ^ 2 + (s₀ - s) * 2 ^ 112 * (s - 2 ^ 80)) := by ring
    have hroot : (0 : Int) < (2 ^ 112 - s₀) * s ^ 2 :=
      mul_pos (by omega) (pow_pos (by omega) 2)
    have hroots : (0 : Int) ≤ (s₀ - s) * 2 ^ 112 * (s - 2 ^ 80) :=
      mul_nonneg (mul_nonneg (by omega) (by positivity)) (by omega)
    omega
  omega

/-- Square roots whose squares are `2 ^ 96` apart have different prices. -/
theorem sqrtPrice_lt_of_square_ge {s s' : Nat} (h : 2 ^ 96 ≤ (s' - s) * (s' + s)) :
    sqrtPrice s false < sqrtPrice s' false := by
  have hsq : s ^ 2 + 2 ^ 96 ≤ s' ^ 2 := by
    have hfactors := Nat.sq_sub_sq s' s
    rw [Nat.mul_comm] at hfactors
    omega
  unfold sqrtPrice
  simp only [Bool.false_eq_true, if_false]
  omega

/-- Far below the square root of one, the code moves it by at least four times as much. -/
theorem fallQuotient_far_below {s₀ s : Nat} (hs : 0 < s) (hlt : s < s₀) (hs₀ : s₀ < 2 ^ 95) :
    4 * (s₀ - s) ≤ fallQuotient s₀ s ∧ 2 ^ 97 < (fallQuotient s₀ s + 1) * s := by
  have hpos : 0 < s₀ * s := Nat.mul_pos (hs.trans hlt) hs
  have hupper : 2 ^ 192 * (s₀ - s) < (fallQuotient s₀ s + 1) * (s₀ * s) :=
    (Nat.div_lt_iff_lt_mul hpos).mp (Nat.lt_succ_self _)
  constructor
  · have hproduct : s₀ * s ≤ 2 ^ 95 * 2 ^ 95 := Nat.mul_le_mul hs₀.le (hlt.trans hs₀).le
    refine (Nat.le_div_iff_mul_le hpos).mpr ?_
    calc 4 * (s₀ - s) * (s₀ * s) = 4 * (s₀ * s) * (s₀ - s) := by ring
      _ ≤ 2 ^ 192 * (s₀ - s) := Nat.mul_le_mul_right _ (by omega)
  · by_contra hle
    have hle' := Nat.mul_le_mul (Nat.le_of_not_lt hle) hs₀.le
    have hmul : (fallQuotient s₀ s + 1) * s * s₀ = (fallQuotient s₀ s + 1) * (s₀ * s) := by ring
    omega

/-- Where the code does not find the square root before the fall, it finds another price. -/
theorem sqrtPrice_fall_ne {s₀ s : Nat} (hs : 0 < s) (hlt : s < s₀)
    (hne : fallQuotient s₀ s ≠ s₀ - s) :
    sqrtPrice (s + fallQuotient s₀ s) false ≠ sqrtPrice s₀ false := by
  have hpos : 0 < s₀ * s := Nat.mul_pos (hs.trans hlt) hs
  rcases Nat.lt_or_gt_of_ne hne with hless | hmore
  · -- the square roots multiply to more than `2 ^ 192`, and the greater one is above `2 ^ 96`
    have hproduct : 2 ^ 192 < s₀ * s := by
      by_contra hle
      exact absurd (le_fallQuotient hpos (Nat.le_of_not_lt hle)) (Nat.not_le_of_lt hless)
    have hroot : 2 ^ 96 < s₀ := by
      by_contra hle
      have hle' := Nat.mul_le_mul (Nat.le_of_not_lt hle) (hlt.le.trans (Nat.le_of_not_lt hle))
      omega
    refine (sqrtPrice_lt_of_square_ge ?_).ne
    calc 2 ^ 96 ≤ s₀ + (s + fallQuotient s₀ s) := by omega
      _ ≤ _ := Nat.le_mul_of_pos_left _ (by omega)
  · refine (sqrtPrice_lt_of_square_ge ?_).ne'
    rcases Nat.lt_or_ge s₀ (2 ^ 95) with hroot | hroot
    · obtain ⟨hquotient, hscaled⟩ := fallQuotient_far_below hs hlt hroot
      generalize fallQuotient s₀ s = q at *
      have hdistance : 3 * (q * s) ≤ 4 * ((s + q - s₀) * s) := by
        rw [← Nat.mul_assoc, ← Nat.mul_assoc]
        exact Nat.mul_le_mul_right _ (by omega)
      have hsucc : 4 * ((q + 1) * s) ≤ 5 * (q * s) := by
        rw [← Nat.mul_assoc, ← Nat.mul_assoc]
        exact Nat.mul_le_mul_right _ (by omega)
      calc 2 ^ 96 ≤ 2 * ((s + q - s₀) * s) := by omega
        _ = (s + q - s₀) * (2 * s) := by ring
        _ ≤ (s + q - s₀) * (s + q + s₀) := Nat.mul_le_mul_left _ (by omega)
    · calc 2 ^ 96 ≤ s + fallQuotient s₀ s + s₀ := by omega
        _ ≤ _ := Nat.le_mul_of_pos_left _ (by omega)

/-- Square roots up to `2 ^ 96` have different inverse prices. -/
theorem sqrtPrice_inverse_lt {s s' : Nat} (hpos : 2 ≤ s) (hlt : s < s') (hs : s ≤ 2 ^ 96) :
    sqrtPrice s' true < sqrtPrice s true := by
  unfold sqrtPrice
  simp only [if_true]
  have hpos' : 0 < s ^ 2 := Nat.pow_pos (by omega)
  have hmono : 2 ^ 288 / s' ^ 2 ≤ 2 ^ 288 / (s + 1) ^ 2 :=
    Nat.div_le_div_left (Nat.pow_le_pow_left hlt 2) (Nat.pow_pos (by omega))
  refine hmono.trans_lt ((Nat.le_div_iff_mul_le hpos').mpr ?_)
  have hnext := Nat.div_mul_le_self (2 ^ 288) ((s + 1) ^ 2)
  generalize 2 ^ 288 / (s + 1) ^ 2 = k at hnext
  have hsquare : k * (s + 1) ^ 2 = k * s ^ 2 + k * (2 * s + 1) := by ring
  rcases Nat.lt_or_ge (k * (2 * s + 1)) (s ^ 2) with hsmall | hlarge
  · have hk : k + 1 ≤ s := by
      by_contra hle
      have hle' : s * (2 * s + 1) ≤ k * (2 * s + 1) := Nat.mul_le_mul_right _ (by omega)
      have hexpand : s * (2 * s + 1) = s ^ 2 + s ^ 2 + s := by ring
      omega
    calc (k + 1) * s ^ 2 ≤ s * s ^ 2 := Nat.mul_le_mul_right _ hk
      _ = s ^ 3 := by ring
      _ ≤ (2 ^ 96) ^ 3 := Nat.pow_le_pow_left hs 3
      _ = 2 ^ 288 := by rw [← Nat.pow_mul]
  · rw [Nat.succ_mul]
    omega

/-! ### Swaps -/

/-- A swap without fees at a constant liquidity, from the square root `s₀` to that of the trade. -/
structure UniswapV3IndexedTrade.SwapsFrom (trade : UniswapV3IndexedTrade) (s₀ : U256) : Prop where
  amount1 : trade.amount1.toInt * 2 ^ 96 =
    trade.liquidity.toNat * ((trade.sqrtPriceX96.toNat : Int) - s₀.toNat)
  amount0 : trade.amount0.toInt * s₀.toNat * trade.sqrtPriceX96.toNat =
    -(trade.liquidity.toNat * 2 ^ 96 * ((trade.sqrtPriceX96.toNat : Int) - s₀.toNat))

namespace UniswapV3IndexedTrade

variable {trade : UniswapV3IndexedTrade} {s₀ : U256} {tokenAddress : Address}

/-- The square root that the code computes when the price falls: it moves the square root by what
the amount of token 0 would move its inverse by. -/
def sqrtPriceBeforeFall (s₀ s : U256) : U256 :=
  s + .ofNat 256 (2 ^ 192 * (s₀.toNat - s.toNat) / (s₀.toNat * s.toNat))

/-- The amount of token 0 moves the inverse of the square root by as much as the square root fell,
up to the last bit. -/
def FallsAlike (s₀ s : U256) : Prop :=
  s₀.toNat * s.toNat ≤ 2 ^ 192 ∧
    2 ^ 192 * (s₀.toNat - s.toNat) < (s₀.toNat - s.toNat + 1) * (s₀.toNat * s.toNat)

instance (s₀ s : U256) : Decidable (FallsAlike s₀ s) := inferInstanceAs (Decidable (_ ∧ _))

/-- Before and after the swap the price and its inverse are below `2 ^ 32`, and an inverse price is
at least one before it: there the conversion tells the square roots that the code finds apart. -/
def ToldApart (s₀ s : U256) (inverse : Bool) : Prop :=
  2 ^ 80 < s.toNat ∧ s₀.toNat < 2 ^ 112 ∧ (inverse → s₀.toNat ≤ 2 ^ 96)

instance (s₀ s : U256) (inverse : Bool) : Decidable (ToldApart s₀ s inverse) :=
  inferInstanceAs (Decidable (_ ∧ _))

theorem toNat_sqrtPriceBeforeFall {s₀ s : U256}
    (h : s.toNat + fallQuotient s₀.toNat s.toNat < 2 ^ 256) :
    (sqrtPriceBeforeFall s₀ s).toNat = s.toNat + fallQuotient s₀.toNat s.toNat := by
  unfold sqrtPriceBeforeFall fallQuotient at *
  rw [BitVec.toNat_add, BitVec.toNat_ofNat, Nat.add_mod_mod, Nat.mod_eq_of_lt h]

theorem sqrtPriceBeforeFall_of_alike {s₀ s : U256} (h : FallsAlike s₀ s) (hs : s ≠ 0)
    (hle : s ≤ s₀) : sqrtPriceBeforeFall s₀ s = s₀ := by
  have hle' : s.toNat ≤ s₀.toNat := hle
  have hquotient : fallQuotient s₀.toNat s.toNat = s₀.toNat - s.toNat := by
    rcases Nat.lt_or_eq_of_le hle' with hlt | heq
    · exact (fallQuotient_eq_iff (U256.toNat_pos hs) hlt).mpr h
    · rw [fallQuotient, heq, Nat.sub_self, Nat.mul_zero, Nat.zero_div]
  have hbound := s₀.isLt
  refine BitVec.eq_of_toNat_eq ?_
  rw [toNat_sqrtPriceBeforeFall (by omega), hquotient]
  omega

/-- Where the conversion tells the square roots apart, the price is found only with the square
root. -/
theorem fallsAlike_of_price_eq {s₀ s : U256} {inverse : Bool} (h : ToldApart s₀ s inverse)
    (hlt : s < s₀)
    (hprice : u32f96FromSqrtX96 (sqrtPriceBeforeFall s₀ s) inverse =
      u32f96FromSqrtX96 s₀ inverse) : FallsAlike s₀ s := by
  obtain ⟨hs, hs₀, hinverse⟩ := h
  have hlt' : s.toNat < s₀.toNat := hlt
  have hbound := add_fallQuotient_lt hs hlt' hs₀
  have hbefore : (sqrtPriceBeforeFall s₀ s).toNat = _ := toNat_sqrtPriceBeforeFall (by omega)
  have hpos₀ : s₀ ≠ 0 := U256.ne_zero_of_pos (by omega)
  have hpos : sqrtPriceBeforeFall s₀ s ≠ 0 := U256.ne_zero_of_pos (by omega)
  have hfits₀ : SqrtFits s₀ inverse := by
    unfold SqrtFits
    split
    next => omega
    next => omega
  have hfits : SqrtFits (sqrtPriceBeforeFall s₀ s) inverse := by
    unfold SqrtFits
    split
    next => omega
    next => omega
  obtain ⟨price, hconverted⟩ : ∃ price, u32f96FromSqrtX96 s₀ inverse = some price :=
    Option.ne_none_iff_exists'.mp fun hnone => hpos₀ (u32f96FromSqrtX96_eq_none_iff.mp hnone).2
  have hraw : sqrtPrice (s.toNat + fallQuotient s₀.toNat s.toNat) inverse =
      sqrtPrice s₀.toNat inverse := by
    rw [← hbefore, ← (sqrtExact_iff hpos).mpr hfits price (hprice.trans hconverted),
      ← (sqrtExact_iff hpos₀).mpr hfits₀ price hconverted]
  rw [FallsAlike, ← fallQuotient_eq_iff (by omega) hlt']
  by_contra hne
  cases inverse with
  | false => exact sqrtPrice_fall_ne (by omega) hlt' hne hraw
  | true =>
    -- both square roots are at most that of one, and the code finds a greater one
    have hle := hinverse rfl
    have hproduct : s₀.toNat * s.toNat ≤ 2 ^ 96 * 2 ^ 96 :=
      Nat.mul_le_mul hle (hlt'.le.trans hle)
    have hquotient := le_fallQuotient (Nat.mul_pos (by omega) (by omega)) hproduct
    exact (sqrtPrice_inverse_lt (by omega) (by omega) hle).ne hraw

/-- When the price falls, token 0 moved the inverse of the square root. -/
theorem SwapsFrom.amount0_of_lt (h : trade.SwapsFrom s₀) (hlt : trade.sqrtPriceX96 < s₀) :
    trade.amount0.toInt.natAbs * (s₀.toNat * trade.sqrtPriceX96.toNat) =
      trade.liquidity.toNat * (2 ^ 96 * (s₀.toNat - trade.sqrtPriceX96.toNat)) := by
  have hle : trade.sqrtPriceX96.toNat ≤ s₀.toNat := Nat.le_of_lt hlt
  have hproduct : trade.amount0.toInt * (s₀.toNat * trade.sqrtPriceX96.toNat) =
      trade.liquidity.toNat * (2 ^ 96 * ((s₀.toNat : Int) - trade.sqrtPriceX96.toNat)) := by
    rw [← mul_assoc, h.amount0]
    ring
  have habs := congrArg Int.natAbs hproduct
  rw [Int.natAbs_mul, Int.natAbs_mul, Int.natAbs_mul, Int.natAbs_mul, ← Int.ofNat_sub hle] at habs
  exact habs

section Swap

variable (h : trade.SwapsFrom s₀) (hl : trade.liquidity ≠ 0) (hs₀ : s₀ ≠ 0)
  (hs : trade.sqrtPriceX96 ≠ 0)

include h hl hs₀ hs

/-- Token 0 is paid in exactly when the price falls. -/
theorem SwapsFrom.amount0_pos_iff : 0 < trade.amount0.toInt ↔ trade.sqrtPriceX96 < s₀ := by
  have hpos : (0 : Int) < trade.liquidity.toNat * 2 ^ 96 :=
    Int.mul_pos (Int.natCast_pos.mpr (U256.toNat_pos hl)) (by decide)
  have hposs : (0 : Int) < s₀.toNat * trade.sqrtPriceX96.toNat :=
    Int.mul_pos (Int.natCast_pos.mpr (U256.toNat_pos hs₀)) (Int.natCast_pos.mpr (U256.toNat_pos hs))
  have hproduct : trade.amount0.toInt * (s₀.toNat * trade.sqrtPriceX96.toNat) =
      trade.liquidity.toNat * 2 ^ 96 * ((s₀.toNat : Int) - trade.sqrtPriceX96.toNat) := by
    rw [← mul_assoc, h.amount0]
    ring
  rw [← mul_pos_iff_of_pos_right hposs, hproduct, mul_pos_iff_of_pos_left hpos, sub_pos,
    Nat.cast_lt, BitVec.lt_def]

/-- When the price rises, the code finds the square root before the trade. -/
theorem SwapsFrom.rise (hle : s₀ ≤ trade.sqrtPriceX96) :
    trade.Adjustable ∧ trade.sqrtPriceBefore = s₀ := by
  have hnot : ¬0 < trade.amount0.toInt :=
    (h.amount0_pos_iff hl hs₀ hs).not.mpr (BitVec.not_lt.mpr hle)
  have hpos := U256.toNat_pos hl
  have hle' : s₀.toNat ≤ trade.sqrtPriceX96.toNat := hle
  have hlt := trade.sqrtPriceX96.isLt
  have hmod : trade.modValue.toNat = trade.amount1.toInt.natAbs := by
    rw [modValue, if_neg hnot, U256.toNat_unsignedAbs]
  have hamount : trade.modValue.toNat * 2 ^ 96 =
      trade.liquidity.toNat * (trade.sqrtPriceX96.toNat - s₀.toNat) := by
    have habs := congrArg Int.natAbs h.amount1
    rw [Int.natAbs_mul, Int.natAbs_mul, ← Int.ofNat_sub hle'] at habs
    rw [hmod]
    exact habs
  constructor
  · have hbound : trade.modValue.toNat * 2 ^ 96 < trade.liquidity.toNat * 2 ^ 256 := by
      rw [hamount]
      exact Nat.mul_lt_mul_of_pos_left (by omega) hpos
    exact .inr (by omega)
  · unfold sqrtPriceBefore
    dsimp only
    rw [if_neg hnot, oneBits_eq, hamount, Nat.mul_div_cancel_left _ hpos]
    refine BitVec.eq_of_toNat_eq ?_
    rw [BitVec.toNat_sub, BitVec.toNat_ofNat]
    omega

/-- When the price falls, the code moves it by what the amount of token 0 moved its inverse by. -/
theorem SwapsFrom.fall (hlt : trade.sqrtPriceX96 < s₀) :
    trade.Adjustable ∧ trade.sqrtPriceBefore = sqrtPriceBeforeFall s₀ trade.sqrtPriceX96 := by
  have hpaid : 0 < trade.amount0.toInt := (h.amount0_pos_iff hl hs₀ hs).mpr hlt
  have hpos := U256.toNat_pos hl
  have hposs : 0 < s₀.toNat * trade.sqrtPriceX96.toNat :=
    Nat.mul_pos (U256.toNat_pos hs₀) (U256.toNat_pos hs)
  have hmod : trade.modValue.toNat = trade.amount0.toInt.natAbs := by
    rw [modValue, if_pos hpaid, U256.toNat_unsignedAbs]
  have hamount := h.amount0_of_lt hlt
  rw [← hmod] at hamount
  constructor
  · have hle : trade.modValue.toNat * (s₀.toNat * trade.sqrtPriceX96.toNat) ≤
        trade.liquidity.toNat * 2 ^ 96 * (s₀.toNat * trade.sqrtPriceX96.toNat) := by
      rw [hamount, Nat.mul_assoc]
      refine Nat.mul_le_mul_left _ (Nat.mul_le_mul_left _ ?_)
      exact (Nat.sub_le _ _).trans (Nat.le_mul_of_pos_right _ (U256.toNat_pos hs))
    have hbound := Nat.le_of_mul_le_mul_right hle hposs
    exact .inr (by omega)
  · have hquotient : trade.modValue.toNat * 2 ^ 96 / trade.liquidity.toNat =
        2 ^ 192 * (s₀.toNat - trade.sqrtPriceX96.toNat) /
          (s₀.toNat * trade.sqrtPriceX96.toNat) := by
      have hscaled : trade.modValue.toNat * 2 ^ 96 * (s₀.toNat * trade.sqrtPriceX96.toNat) =
          trade.liquidity.toNat * (2 ^ 192 * (s₀.toNat - trade.sqrtPriceX96.toNat)) := by
        rw [Nat.mul_right_comm, hamount]
        ring
      rw [← Nat.mul_div_mul_right _ _ hposs, hscaled, Nat.mul_div_mul_left _ _ hpos]
    unfold sqrtPriceBefore sqrtPriceBeforeFall
    dsimp only
    rw [if_pos hpaid, oneBits_eq, hquotient]

/-- The price before a swap is right if and only if the price does not fall in it, or the
conversion rounds away what the code is off by. -/
theorem tokenPriceBefore_eq_iff (tokenAddress : Address) :
    trade.tokenPriceBefore tokenAddress = u32f96FromSqrtX96 s₀ (WETH_ADDRESS < tokenAddress) ↔
      s₀ ≤ trade.sqrtPriceX96 ∨
        u32f96FromSqrtX96 (sqrtPriceBeforeFall s₀ trade.sqrtPriceX96)
          (WETH_ADDRESS < tokenAddress) = u32f96FromSqrtX96 s₀ (WETH_ADDRESS < tokenAddress) := by
  by_cases hle : s₀ ≤ trade.sqrtPriceX96
  · obtain ⟨hadjustable, hbefore⟩ := h.rise hl hs₀ hs hle
    rw [tokenPriceBefore_of_adjustable hadjustable, hbefore]
    exact iff_of_true rfl (.inl hle)
  · obtain ⟨hadjustable, hbefore⟩ := h.fall hl hs₀ hs (BitVec.not_le.mp hle)
    rw [tokenPriceBefore_of_adjustable hadjustable, hbefore, or_iff_right hle]

/-- The code finds the price before a swap when the price does not fall in it, or when the amount
of token 0 moves the inverse of the square root by as much as the square root fell. Where the
conversion tells the square roots apart it finds it only then. -/
theorem tokenPriceBefore_eq_of_alike (tokenAddress : Address) :
    (s₀ ≤ trade.sqrtPriceX96 ∨ FallsAlike s₀ trade.sqrtPriceX96 →
      trade.tokenPriceBefore tokenAddress =
        u32f96FromSqrtX96 s₀ (WETH_ADDRESS < tokenAddress)) ∧
    (ToldApart s₀ trade.sqrtPriceX96 (WETH_ADDRESS < tokenAddress) →
      trade.tokenPriceBefore tokenAddress =
        u32f96FromSqrtX96 s₀ (WETH_ADDRESS < tokenAddress) →
      s₀ ≤ trade.sqrtPriceX96 ∨ FallsAlike s₀ trade.sqrtPriceX96) := by
  rw [tokenPriceBefore_eq_iff h hl hs₀ hs tokenAddress]
  constructor
  · rintro (hle | halike)
    · exact .inl hle
    · rcases BitVec.le_total s₀ trade.sqrtPriceX96 with hle | hge
      · exact .inl hle
      · exact .inr (by rw [sqrtPriceBeforeFall_of_alike halike hs hge])
  · rintro hapart (hle | hprice)
    · exact .inl hle
    · by_cases hle : s₀ ≤ trade.sqrtPriceX96
      · exact .inl hle
      · exact .inr (fallsAlike_of_price_eq hapart (BitVec.not_le.mp hle) hprice)

end Swap

/-- A swap that quarters the square root, around the square root of one. -/
def quarteringTrade : UniswapV3IndexedTrade := ⟨1, 3, 3, -3, .ofNat 256 (2 ^ 95), 2⟩

theorem tokenPriceBefore_eq_of_alike_quarteringTrade :
    (quarteringTrade.sqrtPriceX96 < .ofNat 256 (2 ^ 97) ∧
      ToldApart (.ofNat 256 (2 ^ 97)) quarteringTrade.sqrtPriceX96 (WETH_ADDRESS < 0)) ∧
    ((.ofNat 256 (2 ^ 97) ≤ quarteringTrade.sqrtPriceX96 ∨
        FallsAlike (.ofNat 256 (2 ^ 97)) quarteringTrade.sqrtPriceX96 →
      quarteringTrade.tokenPriceBefore 0 =
        u32f96FromSqrtX96 (.ofNat 256 (2 ^ 97)) (WETH_ADDRESS < 0)) ∧
    (ToldApart (.ofNat 256 (2 ^ 97)) quarteringTrade.sqrtPriceX96 (WETH_ADDRESS < 0) →
      quarteringTrade.tokenPriceBefore 0 =
        u32f96FromSqrtX96 (.ofNat 256 (2 ^ 97)) (WETH_ADDRESS < 0) →
      .ofNat 256 (2 ^ 97) ≤ quarteringTrade.sqrtPriceX96 ∨
        FallsAlike (.ofNat 256 (2 ^ 97)) quarteringTrade.sqrtPriceX96)) :=
  ⟨by decide, tokenPriceBefore_eq_of_alike ⟨by decide, by decide⟩ (by decide) (by decide)
    (by decide) 0⟩

/-- A swap that halves the square root. -/
def fallingTrade : UniswapV3IndexedTrade := ⟨1, 3, 1, -2, .ofNat 256 (2 ^ 96), 2⟩

/-- The price before the swap was 4, the code finds 2.25. -/
theorem tokenPriceBefore_not_eq :
    ¬∀ (trade : UniswapV3IndexedTrade) (s₀ : U256) (tokenAddress : Address),
      trade.liquidity ≠ 0 → s₀ ≠ 0 → trade.sqrtPriceX96 ≠ 0 → trade.SwapsFrom s₀ →
        trade.tokenPriceBefore tokenAddress =
          u32f96FromSqrtX96 s₀ (WETH_ADDRESS < tokenAddress) := by
  intro h
  have hprice := h fallingTrade (.ofNat 256 (2 ^ 97)) 0 (by decide) (by decide) (by decide)
    ⟨by decide, by decide⟩
  revert hprice
  decide

end UniswapV3IndexedTrade

end Pochtecatl
