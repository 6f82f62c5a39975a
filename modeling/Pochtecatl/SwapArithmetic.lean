import Pochtecatl.ConstantProduct
import Pochtecatl.TradeSimulation

namespace Pochtecatl

open ConstantProduct

/-! ### Pool arithmetic -/

section AmountOut

variable {a x y : U256}

theorem toNat_amountInWithFee (halt : a.toNat < 2 ^ 114) : (a * 997).toNat = 997 * a.toNat := by
  rw [BitVec.toNat_mul, Nat.mul_comm]
  exact Nat.mod_eq_of_lt (show 997 * a.toNat < 2 ^ 256 by omega)

theorem toNat_denominator (hxlt : x.toNat < 2 ^ 114) (halt : a.toNat < 2 ^ 114) :
    (x * 1000 + a * 997).toNat = 1000 * x.toNat + 997 * a.toNat := by
  have hin : (x * 1000).toNat = 1000 * x.toNat := by
    rw [BitVec.toNat_mul, Nat.mul_comm]
    exact Nat.mod_eq_of_lt (show 1000 * x.toNat < 2 ^ 256 by omega)
  rw [BitVec.toNat_add, hin, toNat_amountInWithFee halt]
  exact Nat.mod_eq_of_lt (by omega)

/-- Numbers of at most 114 bits are too small for a product to wrap. -/
theorem getAmountOut_exact (hxlt : x.toNat < 2 ^ 114) (hylt : y.toNat < 2 ^ 114)
    (halt : a.toNat < 2 ^ 114) {out : U256} (h : getAmountOut a x y = some out) :
    out.toNat = amountOut 997 1000 a.toNat x.toNat y.toNat := by
  have hnumerator : (a * 997 * y).toNat = 997 * a.toNat * y.toNat := by
    rw [BitVec.toNat_mul, toNat_amountInWithFee halt]
    apply Nat.mod_eq_of_lt
    have hle : 997 * a.toNat * y.toNat ≤ 997 * 2 ^ 114 * 2 ^ 114 :=
      Nat.mul_le_mul (by omega) (by omega)
    omega
  unfold getAmountOut U256.checkedDiv at h
  dsimp only at h
  split at h
  next => cases h
  next =>
    cases h
    rw [BitVec.toNat_udiv, hnumerator, toNat_denominator hxlt halt]
    rfl

theorem getAmountOut_isSome (hx : 0 < x.toNat) (hxlt : x.toNat < 2 ^ 114)
    (halt : a.toNat < 2 ^ 114) : ∃ out, getAmountOut a x y = some out := by
  apply Option.ne_none_iff_exists'.mp
  intro hnone
  have hzero := congrArg BitVec.toNat (getAmountOut_eq_none_iff.mp hnone)
  rw [toNat_denominator hxlt halt, show (0 : U256).toNat = 0 from rfl] at hzero
  omega

/-- The subtraction of the amount out does not wrap. -/
theorem toNat_sub_amountOut {out : U256}
    (hout : out.toNat = amountOut 997 1000 a.toNat x.toNat y.toNat) :
    (y - out).toNat = y.toNat - out.toNat := by
  apply BitVec.toNat_sub_of_le
  rw [BitVec.le_def, hout]
  exact amountOut_le_reserve

/-- The reserve paid into and the other one, after a swap. -/
theorem mul_le_mul_reserves {out : U256} (hx : x.toNat < 2 ^ 112) (hy : y.toNat < 2 ^ 112)
    (ha : a.toNat ≤ 2 ^ 112) (h : getAmountOut a x y = some out) :
    x.toNat * y.toNat ≤ (x + a).toNat * (y - out).toNat := by
  have hout := getAmountOut_exact (by omega) (by omega) (by omega) h
  have hadd : (x + a).toNat = x.toNat + a.toNat := by
    rw [BitVec.toNat_add]
    exact Nat.mod_eq_of_lt (by omega)
  rw [hadd, toNat_sub_amountOut hout, hout]
  exact mul_le_mul_sub_amountOut (by decide) (by decide)

theorem getAmountOut_safe (hx : 1 ≤ x.toNat) (hxlt : x.toNat < 2 ^ 112) (hy : 1 ≤ y.toNat)
    (hylt : y.toNat < 2 ^ 112) (ha : a.toNat ≤ 2 ^ 112) :
    ∃ out back, getAmountOut a x y = some out ∧
      out.toNat = 997 * a.toNat * y.toNat / (1000 * x.toNat + 997 * a.toNat) ∧
      (∀ b more, a.toNat ≤ b.toNat → b.toNat ≤ 2 ^ 112 → getAmountOut b x y = some more →
        out.toNat ≤ more.toNat) ∧
      out.toNat < y.toNat ∧
      (x + a).toNat = x.toNat + a.toNat ∧ (y - out).toNat = y.toNat - out.toNat ∧
      x.toNat * y.toNat ≤ (x + a).toNat * (y - out).toNat ∧
      getAmountOut out (y - out) (x + a) = some back ∧ back.toNat ≤ a.toNat := by
  have hpos : 0 < 1000 * x.toNat := by omega
  obtain ⟨out, hsome⟩ := getAmountOut_isSome (a := a) (x := x) (y := y) hx (by omega) (by omega)
  have hout := getAmountOut_exact (by omega) (by omega) (by omega) hsome
  have hlt : out.toNat < y.toNat := by
    rw [hout]
    exact amountOut_lt_reserve hpos hy
  have hadd : (x + a).toNat = x.toNat + a.toNat := by
    rw [BitVec.toNat_add]
    exact Nat.mod_eq_of_lt (by omega)
  have hsub := toNat_sub_amountOut hout
  obtain ⟨back, hback⟩ :=
    getAmountOut_isSome (a := out) (x := y - out) (y := x + a) (by omega) (by omega) (by omega)
  have hbackEq := getAmountOut_exact (by omega) (by omega) (by omega) hback
  refine ⟨out, back, hsome, hout, ?_, hlt, hadd, hsub, ?_, hback, ?_⟩
  · intro b more hab hb hmore
    rw [getAmountOut_exact (by omega) (by omega) (by omega) hmore, hout]
    exact amountOut_mono hpos hab
  · exact mul_le_mul_reserves hxlt hylt ha hsome
  · rw [hbackEq, hadd, hsub, hout]
    exact amountOut_amountOut_le (by decide) (by decide)

theorem getAmountOut_safe_even_pool :
    ∃ out back : U256, getAmountOut 1000 1000000 1000000 = some out ∧
      out.toNat < 1000000 ∧ getAmountOut out (1000000 - out) (1000000 + 1000) = some back ∧
      back.toNat ≤ 1000 := by
  obtain ⟨out, back, hout, -, -, hlt, -, -, -, hback, hle⟩ :=
    getAmountOut_safe (a := 1000) (x := 1000000) (y := 1000000) (by decide) (by decide) (by decide)
      (by decide) (by decide)
  exact ⟨out, back, hout, hlt, hback, hle⟩

end AmountOut

/-! ### Simulated trades -/

section Simulate

variable {ε : Type} {abi : SwapAbi ε} {rpcProvider : RpcProvider ε}

theorem UniswapV2Pair.toNat_getReserves_lt {pair : UniswapV2Pair} {blockNumber : Nat}
    {tokenReserve wethReserve : U256}
    (h : pair.getReserves abi rpcProvider blockNumber = .ok (tokenReserve, wethReserve)) :
    tokenReserve.toNat < 2 ^ 112 ∧ wethReserve.toNat < 2 ^ 112 := by
  have hwidth : ∀ reserve : BitVec 112, (reserve.setWidth 256).toNat < 2 ^ 112 := by
    intro reserve
    rw [BitVec.toNat_setWidth]
    exact Nat.lt_of_le_of_lt (Nat.mod_le _ _) reserve.isLt
  obtain ⟨reserve, reserve', rfl, rfl⟩ := getReserves_eq_ok h
  exact ⟨hwidth reserve, hwidth reserve'⟩

/-- A simulated trade leaves the pool at least the product of the reserves that it found. -/
theorem UniswapV2Pair.simulateTradeRequest_product {pair : UniswapV2Pair} {op : TradeRequestOp}
    {blockNumber : Nat} {tokenReserve wethReserve : U256} {trade : UniswapV2IndexedTrade}
    (hreserves : pair.getReserves abi rpcProvider blockNumber = .ok (tokenReserve, wethReserve))
    (hbought : ∀ openTrade hash, op = .close (.uniswapV2 openTrade) hash →
      (pair.amountBought openTrade).toNat ≤ 2 ^ 112)
    (h : pair.simulateTradeRequest abi rpcProvider op blockNumber = some (.ok trade)) :
    tokenReserve.toNat * wethReserve.toNat ≤ trade.reserve0.toNat * trade.reserve1.toNat := by
  obtain ⟨htoken, hweth⟩ := toNat_getReserves_lt hreserves
  unfold simulateTradeRequest at h
  rw [hreserves] at h
  cases op with
  | open_ =>
    obtain ⟨out, hout, htrade⟩ := Option.map_eq_some_iff.mp h
    have hcap := toNat_getEthAmountIn_le wethReserve
    have hproduct := mul_le_mul_reserves hweth htoken (by omega) hout
    rw [Nat.mul_comm tokenReserve.toNat]
    split at htrade
    next =>
      cases htrade
      exact hproduct
    next =>
      cases htrade
      rw [Nat.mul_comm (tokenReserve - out).toNat]
      exact hproduct
  | close openTrade hash =>
    cases openTrade with
    | uniswapV2 openTrade =>
      obtain ⟨out, hout, htrade⟩ := Option.map_eq_some_iff.mp h
      have hproduct := mul_le_mul_reserves htoken hweth (hbought openTrade hash rfl) hout
      split at htrade
      next =>
        cases htrade
        rw [Nat.mul_comm (wethReserve - out).toNat]
        exact hproduct
      next =>
        cases htrade
        exact hproduct
    | uniswapV3 openTrade => cases h

end Simulate

/-! ### The size of a trade -/

theorem toNat_getEthAmountIn_mul_le {x : U256} (hxlt : x.toNat < 2 ^ 112) :
    200 * (getEthAmountIn x).toNat ≤ x.toNat := by
  have hproduct : (MAX_TRADE_SIZE_PRICE_IMPACT_BP * x).toNat = 50 * x.toNat := by
    rw [BitVec.toNat_mul]
    exact Nat.mod_eq_of_lt (show 50 * x.toNat < 2 ^ 256 by omega)
  have himpact : (MAX_TRADE_SIZE_PRICE_IMPACT_BP * x / BP_FACTOR).toNat = 50 * x.toNat / 10000 := by
    rw [BitVec.toNat_udiv, hproduct]
    rfl
  unfold getEthAmountIn
  dsimp only
  split
  next => omega
  next hge =>
    rw [BitVec.lt_def] at hge
    omega

/-- Half a percent of the reserve moves the price that the trade pays by at most 50 bp. -/
theorem execution_price_le {a x y : Nat} (hx : 0 < x) (ha : 200 * a ≤ x) :
    997 * a * y * 9950 ≤ (amountOut 997 1000 a x y + 1) * 1000 * x * 10000 := by
  have hround : 997 * a * y ≤ (amountOut 997 1000 a x y + 1) * (1000 * x + 997 * a) :=
    (lt_amountOut_succ_mul (by omega)).le
  have hfee : (1000 * x + 997 * a) * 9950 ≤ 1000 * x * 10000 := by omega
  calc 997 * a * y * 9950
      ≤ (amountOut 997 1000 a x y + 1) * (1000 * x + 997 * a) * 9950 :=
        Nat.mul_le_mul_right _ hround
    _ = (amountOut 997 1000 a x y + 1) * ((1000 * x + 997 * a) * 9950) := Nat.mul_assoc _ _ _
    _ ≤ (amountOut 997 1000 a x y + 1) * (1000 * x * 10000) := Nat.mul_le_mul_left _ hfee
    _ = (amountOut 997 1000 a x y + 1) * 1000 * x * 10000 := by ring

/-- Half a percent of the reserve moves the price of the pool by at most 101 bp. -/
theorem spot_price_le {a x y : Nat} (hx : 0 < x) (ha : 200 * a ≤ x) :
    (x + a) * y * 10000 ≤ 10101 * x * (y - amountOut 997 1000 a x y) := by
  obtain ⟨rest, hrest⟩ := Nat.exists_eq_add_of_le
    (amountOut_le_reserve (n := 997) (d := 1000) (a := a) (x := x) (y := y))
  have hsub : y - amountOut 997 1000 a x y = rest := by omega
  have hkept : 1000 * x * y ≤ rest * (1000 * x + 997 * a) := by
    have hpaid : amountOut 997 1000 a x y * (1000 * x + 997 * a) ≤ 997 * a * y := amountOut_mul_le
    have hwhole : amountOut 997 1000 a x y * (1000 * x + 997 * a) + rest * (1000 * x + 997 * a) =
        1000 * x * y + 997 * a * y := by
      rw [← Nat.add_mul, ← hrest]
      ring
    omega
  -- the reserve of WETH grows by at most a 200th
  have hgrown : 200 * (x + a) ≤ 201 * x := by omega
  have hfee : 200 * (1000 * x + 997 * a) ≤ 200997 * x := by omega
  have hprice : (x + a) * (1000 * x + 997 * a) * 10000 ≤ 10101 * x * (1000 * x) := by
    have hproduct : 200 * (x + a) * (200 * (1000 * x + 997 * a)) ≤ 201 * x * (200997 * x) :=
      Nat.mul_le_mul hgrown hfee
    have hleft : 200 * (x + a) * (200 * (1000 * x + 997 * a)) =
        40000 * ((x + a) * (1000 * x + 997 * a)) := by ring
    have hright : 201 * x * (200997 * x) = 40400397 * (x * x) := by ring
    have hgoal : 10101 * x * (1000 * x) = 10101000 * (x * x) := by ring
    omega
  rw [hsub]
  apply Nat.le_of_mul_le_mul_left _ (show 0 < 1000 * x by omega)
  calc 1000 * x * ((x + a) * y * 10000)
      = (x + a) * 10000 * (1000 * x * y) := by ring
    _ ≤ (x + a) * 10000 * (rest * (1000 * x + 997 * a)) := Nat.mul_le_mul_left _ hkept
    _ = rest * ((x + a) * (1000 * x + 997 * a) * 10000) := by ring
    _ ≤ rest * (10101 * x * (1000 * x)) := Nat.mul_le_mul_left _ hprice
    _ = 1000 * x * (10101 * x * rest) := by ring

theorem getEthAmountIn_price_impact {x y : U256} (hx : 1 ≤ x.toNat) (hxlt : x.toNat < 2 ^ 112)
    (hy : 1 ≤ y.toNat) (hylt : y.toNat < 2 ^ 112) :
    ∃ dy, getAmountOut (getEthAmountIn x) x y = some dy ∧ dy.toNat < y.toNat ∧
      997 * (getEthAmountIn x).toNat * y.toNat * 9950 ≤ (dy.toNat + 1) * 1000 * x.toNat * 10000 ∧
      (x.toNat + (getEthAmountIn x).toNat) * y.toNat * 10000 ≤
        10101 * x.toNat * (y.toNat - dy.toNat) := by
  have hcap := toNat_getEthAmountIn_mul_le hxlt
  obtain ⟨dy, hsome⟩ := getAmountOut_isSome (a := getEthAmountIn x) (x := x) (y := y) hx
    (by omega) (by omega)
  have hdy := getAmountOut_exact (by omega) (by omega) (by omega) hsome
  refine ⟨dy, hsome, ?_, ?_, ?_⟩
  · rw [hdy]
    exact amountOut_lt_reserve (by omega) hy
  · rw [hdy]
    exact execution_price_le (by omega) hcap
  · rw [hdy]
    exact spot_price_le (by omega) hcap

theorem getEthAmountIn_price_impact_even_pool :
    ∃ dy, getAmountOut (getEthAmountIn 1000000) 1000000 1000000 = some dy ∧
      997 * (getEthAmountIn 1000000).toNat * 1000000 * 9950 ≤
        (dy.toNat + 1) * 1000 * 1000000 * 10000 := by
  obtain ⟨dy, hdy, -, hprice, -⟩ := getEthAmountIn_price_impact (x := 1000000) (y := 1000000)
    (by decide) (by decide) (by decide) (by decide)
  exact ⟨dy, hdy, hprice⟩

end Pochtecatl
