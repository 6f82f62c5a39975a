import Pochtecatl.BuildPanics

namespace Pochtecatl

open U32F96

/-! ### Fractions -/

section Frac

variable {numerator denominator : U256}

/-- The conversion panics, or it is exact up to the last bit. -/
def FracExact (numerator denominator : U256) : Prop :=
  ∀ price ∈ u32f96FromU256Frac numerator denominator,
    price.raw = numerator.toNat * 2 ^ 96 / denominator.toNat

/-- A fraction is below `2 ^ 32` exactly when its bits fit. -/
theorem fracExact_iff (h : denominator ≠ 0) :
    FracExact numerator denominator ↔ numerator.toNat < 2 ^ 32 * denominator.toNat := by
  have hpos := U256.toNat_pos h
  unfold FracExact u32f96FromU256Frac
  rw [if_neg h]
  simp only [Option.mem_def, Option.some.injEq, forall_eq', oneBits_eq]
  rw [raw_ofRaw_eq_iff, Nat.div_lt_iff_lt_mul hpos]
  omega

/-- `n₁ / d₁ ≤ n₂ / d₂`, without the fractions. -/
def FracLe (n₁ d₁ n₂ d₂ : U256) : Prop := n₁.toNat * d₂.toNat ≤ n₂.toNat * d₁.toNat

theorem FracExact.mono {n₁ d₁ n₂ d₂ : U256} (h₁ : d₁ ≠ 0) (h₂ : d₂ ≠ 0) (hn₁ : FracExact n₁ d₁)
    (hn₂ : FracExact n₂ d₂) (hle : FracLe n₁ d₁ n₂ d₂) {p₁ p₂ : U32F96}
    (hp₁ : u32f96FromU256Frac n₁ d₁ = some p₁) (hp₂ : u32f96FromU256Frac n₂ d₂ = some p₂) :
    p₁ ≤ p₂ := by
  have hpos₁ := U256.toNat_pos h₁
  have hpos₂ := U256.toNat_pos h₂
  rw [le_iff_raw, hn₁ p₁ hp₁, hn₂ p₂ hp₂]
  calc n₁.toNat * 2 ^ 96 / d₁.toNat
      = n₁.toNat * 2 ^ 96 * d₂.toNat / (d₁.toNat * d₂.toNat) :=
        (Nat.mul_div_mul_right _ _ hpos₂).symm
    _ ≤ n₂.toNat * 2 ^ 96 * d₁.toNat / (d₁.toNat * d₂.toNat) := by
        refine Nat.div_le_div_right ?_
        rw [Nat.mul_right_comm, Nat.mul_right_comm n₂.toNat]
        exact Nat.mul_le_mul_right _ hle
    _ = n₂.toNat * 2 ^ 96 * d₁.toNat / (d₂.toNat * d₁.toNat) := by rw [Nat.mul_comm d₁.toNat]
    _ = n₂.toNat * 2 ^ 96 / d₂.toNat := Nat.mul_div_mul_right _ _ hpos₁

/-- Two conversions are exact, or panic, and are in the order of their fractions, if and only if
both fractions are below `2 ^ 32`. -/
theorem u32f96FromU256Frac_exact_iff {n₁ d₁ n₂ d₂ : U256} (h₁ : d₁ ≠ 0) (h₂ : d₂ ≠ 0) :
    (FracExact n₁ d₁ ∧ FracExact n₂ d₂ ∧ (FracLe n₁ d₁ n₂ d₂ →
      ∀ p₁ ∈ u32f96FromU256Frac n₁ d₁, ∀ p₂ ∈ u32f96FromU256Frac n₂ d₂, p₁ ≤ p₂)) ↔
      n₁.toNat < 2 ^ 32 * d₁.toNat ∧ n₂.toNat < 2 ^ 32 * d₂.toNat := by
  rw [← fracExact_iff h₁, ← fracExact_iff h₂]
  constructor
  · rintro ⟨hn₁, hn₂, -⟩
    exact ⟨hn₁, hn₂⟩
  · rintro ⟨hn₁, hn₂⟩
    exact ⟨hn₁, hn₂, fun hle p₁ hp₁ p₂ hp₂ => hn₁.mono h₁ h₂ hn₂ hle hp₁ hp₂⟩

theorem u32f96FromU256Frac_exact_thirds :
    (FracExact 1 3 ∧ FracExact 2 3 ∧ (FracLe 1 3 2 3 →
      ∀ p₁ ∈ u32f96FromU256Frac 1 3, ∀ p₂ ∈ u32f96FromU256Frac 2 3, p₁ ≤ p₂)) ↔
      (1 : U256).toNat < 2 ^ 32 * (3 : U256).toNat ∧ (2 : U256).toNat < 2 ^ 32 * (3 : U256).toNat :=
  u32f96FromU256Frac_exact_iff (by decide) (by decide)

/-- A price of `2 ^ 32` is converted to zero. -/
theorem u32f96FromU256Frac_not_exact :
    ¬∀ numerator denominator : U256, denominator ≠ 0 → FracExact numerator denominator := by
  intro h
  have hexact := h (2 ^ 32) 1 (by decide)
  rw [fracExact_iff (by decide)] at hexact
  revert hexact
  decide

end Frac

/-! ### Square roots -/

section Sqrt

variable {sqrtPriceX96 : U256} {inverse : Bool}

/-- The price of a square root, rounded down. -/
def sqrtPrice (sqrtPriceX96 : Nat) (inverse : Bool) : Nat :=
  if inverse then 2 ^ 288 / sqrtPriceX96 ^ 2 else sqrtPriceX96 ^ 2 / 2 ^ 96

/-- The conversion panics, or it is exact up to the last bit. -/
def SqrtExact (sqrtPriceX96 : U256) (inverse : Bool) : Prop :=
  ∀ price ∈ u32f96FromSqrtX96 sqrtPriceX96 inverse,
    price.raw = sqrtPrice sqrtPriceX96.toNat inverse

/-- The square roots whose price is below `2 ^ 32`. -/
def SqrtFits (sqrtPriceX96 : U256) (inverse : Bool) : Prop :=
  if inverse then 2 ^ 80 < sqrtPriceX96.toNat else sqrtPriceX96.toNat < 2 ^ 112

theorem sqrtPrice_lt_iff {s : Nat} (h : 0 < s) (inverse : Bool) : sqrtPrice s inverse < 2 ^ 128 ↔
    if inverse then 2 ^ 80 < s else s < 2 ^ 112 := by
  cases inverse with
  | false =>
    have hbits : (2 : Nat) ^ 128 * 2 ^ 96 = (2 ^ 112) ^ 2 := by
      rw [← Nat.pow_add, ← Nat.pow_mul]
    rw [sqrtPrice, if_neg Bool.false_ne_true, if_neg Bool.false_ne_true,
      Nat.div_lt_iff_lt_mul (Nat.two_pow_pos 96), hbits, Nat.pow_lt_pow_iff_left (by decide)]
  | true =>
    have hbits : (2 : Nat) ^ 288 = 2 ^ 128 * (2 ^ 80) ^ 2 := by
      rw [← Nat.pow_mul, ← Nat.pow_add]
    rw [sqrtPrice, if_pos rfl, if_pos rfl, Nat.div_lt_iff_lt_mul (Nat.pow_pos h), hbits,
      Nat.mul_lt_mul_left (Nat.two_pow_pos 128), Nat.pow_lt_pow_iff_left (by decide)]

theorem sqrtPrice_mono {s s' : Nat} (h : s ≤ s') : sqrtPrice s false ≤ sqrtPrice s' false :=
  Nat.div_le_div_right (Nat.pow_le_pow_left h 2)

theorem sqrtPrice_anti {s s' : Nat} (hpos : 0 < s) (h : s ≤ s') :
    sqrtPrice s' true ≤ sqrtPrice s true :=
  Nat.div_le_div_left (Nat.pow_le_pow_left h 2) (Nat.pow_pos hpos)

theorem sqrtExact_iff (h : sqrtPriceX96 ≠ 0) :
    SqrtExact sqrtPriceX96 inverse ↔ SqrtFits sqrtPriceX96 inverse := by
  have hpos := U256.toNat_pos h
  have hlt := sqrtPrice_lt_iff hpos inverse
  rw [SqrtFits, ← hlt]
  unfold SqrtExact u32f96FromSqrtX96
  cases inverse with
  | true =>
    simp only [if_true, if_neg h, Option.mem_def, Option.some.injEq, forall_eq']
    exact raw_ofRaw_eq_iff
  | false =>
    simp only [Bool.false_eq_true, if_false, Option.mem_def, Option.some.injEq, forall_eq']
    rw [raw_mul]
    constructor
    · intro heq
      rw [← heq]
      exact Nat.mod_lt _ (Nat.two_pow_pos 128)
    · intro hprice
      have hfits := hlt.mp hprice
      rw [if_neg Bool.false_ne_true] at hfits
      have hraw : (U32F96.ofRaw sqrtPriceX96.toNat).raw = sqrtPriceX96.toNat :=
        raw_ofRaw_eq_iff.mpr (by omega)
      rw [hraw, ← Nat.pow_two]
      exact Nat.mod_eq_of_lt hprice

/-- Two conversions are exact, or panic, and are in the order of the prices, if and only if
both prices are below `2 ^ 32`. -/
theorem u32f96FromSqrtX96_exact_iff {s₁ s₂ : U256} (h₁ : s₁ ≠ 0) (h₂ : s₂ ≠ 0) (inverse : Bool) :
    (SqrtExact s₁ inverse ∧ SqrtExact s₂ inverse ∧ (s₁ ≤ s₂ →
      ∀ p₁ ∈ u32f96FromSqrtX96 s₁ inverse, ∀ p₂ ∈ u32f96FromSqrtX96 s₂ inverse,
        if inverse then p₂ ≤ p₁ else p₁ ≤ p₂)) ↔ SqrtFits s₁ inverse ∧ SqrtFits s₂ inverse := by
  rw [← sqrtExact_iff h₁, ← sqrtExact_iff h₂]
  constructor
  · rintro ⟨hs₁, hs₂, -⟩
    exact ⟨hs₁, hs₂⟩
  · rintro ⟨hs₁, hs₂⟩
    refine ⟨hs₁, hs₂, fun hle p₁ hp₁ p₂ hp₂ => ?_⟩
    rw [le_iff_raw, le_iff_raw, hs₁ p₁ hp₁, hs₂ p₂ hp₂]
    cases inverse with
    | false => exact sqrtPrice_mono hle
    | true => exact sqrtPrice_anti (U256.toNat_pos h₁) hle

theorem u32f96FromSqrtX96_exact_halves :
    (SqrtExact (.ofNat 256 (2 ^ 95)) true ∧ SqrtExact (.ofNat 256 (2 ^ 96)) true ∧
      ((.ofNat 256 (2 ^ 95) : U256) ≤ .ofNat 256 (2 ^ 96) →
        ∀ p₁ ∈ u32f96FromSqrtX96 (.ofNat 256 (2 ^ 95)) true,
          ∀ p₂ ∈ u32f96FromSqrtX96 (.ofNat 256 (2 ^ 96)) true,
            if true then p₂ ≤ p₁ else p₁ ≤ p₂)) ↔
      SqrtFits (.ofNat 256 (2 ^ 95)) true ∧ SqrtFits (.ofNat 256 (2 ^ 96)) true :=
  u32f96FromSqrtX96_exact_iff (by decide) (by decide) true

/-- The bits of a square root of `2 ^ 32` are cut off, and its pool is priced at zero. -/
theorem u32f96FromSqrtX96_not_exact :
    ¬∀ sqrtPriceX96 : U256, 4295128739 ≤ sqrtPriceX96.toNat →
      sqrtPriceX96.toNat < 1461446703485210103287273052203988822378723970342 →
        SqrtExact sqrtPriceX96 false ∧ SqrtExact sqrtPriceX96 true := by
  intro h
  have hexact := (h (.ofNat 256 (2 ^ 128)) (by decide) (by decide)).1
  rw [sqrtExact_iff (by decide)] at hexact
  revert hexact
  unfold SqrtFits
  decide

end Sqrt

end Pochtecatl
