import Mathlib.Tactic.Ring

namespace Pochtecatl.ConstantProduct

/-- What a pool with the reserves `x` and `y` pays for `a`, if `n` parts of `d` of `a` count. -/
def amountOut (n d a x y : Nat) : Nat := n * a * y / (d * x + n * a)

variable {n d a b x y : Nat}

theorem amountOut_mul_le : amountOut n d a x y * (d * x + n * a) ≤ n * a * y :=
  Nat.div_mul_le_self _ _

theorem lt_amountOut_succ_mul (hx : 0 < d * x) :
    n * a * y < (amountOut n d a x y + 1) * (d * x + n * a) := by
  rw [Nat.mul_comm (amountOut n d a x y + 1)]
  exact Nat.lt_mul_div_succ _ (by omega)

theorem le_amountOut (hx : 0 < d * x) {out : Nat}
    (h : out * (d * x + n * a) ≤ n * a * y) : out ≤ amountOut n d a x y :=
  (Nat.le_div_iff_mul_le (by omega)).mpr h

theorem amountOut_le_reserve : amountOut n d a x y ≤ y := by
  apply Nat.div_le_of_le_mul
  exact Nat.mul_le_mul_right y (Nat.le_add_left (n * a) (d * x))

theorem amountOut_lt_reserve (hx : 0 < d * x) (hy : 0 < y) : amountOut n d a x y < y := by
  apply Nat.div_lt_of_lt_mul
  exact Nat.mul_lt_mul_of_pos_right (by omega) hy

/-- The part `n * (b - a)` that is paid in addition costs at most `y` for each unit. -/
theorem amountOut_mono (hx : 0 < d * x) (hab : a ≤ b) :
    amountOut n d a x y ≤ amountOut n d b x y := by
  obtain ⟨more, rfl⟩ := Nat.exists_eq_add_of_le hab
  apply le_amountOut hx
  have hold : amountOut n d a x y * (d * x + n * a) ≤ n * a * y := amountOut_mul_le
  have hmore : amountOut n d a x y * (n * more) ≤ y * (n * more) :=
    Nat.mul_le_mul_right _ amountOut_le_reserve
  calc amountOut n d a x y * (d * x + n * (a + more))
      = amountOut n d a x y * (d * x + n * a) + amountOut n d a x y * (n * more) := by ring
    _ ≤ n * a * y + y * (n * more) := Nat.add_le_add hold hmore
    _ = n * (a + more) * y := by ring

/-- Without the fee the pool would pay at least as much. -/
theorem amountOut_mul_add_le (hn : 0 < n) (hnd : n ≤ d) :
    amountOut n d a x y * (x + a) ≤ a * y := by
  have hfee : amountOut n d a x y * (n * x + n * a) ≤ amountOut n d a x y * (d * x + n * a) :=
    Nat.mul_le_mul_left _ (Nat.add_le_add_right (Nat.mul_le_mul_right x hnd) _)
  apply Nat.le_of_mul_le_mul_left _ hn
  calc n * (amountOut n d a x y * (x + a))
      = amountOut n d a x y * (n * x + n * a) := by ring
    _ ≤ amountOut n d a x y * (d * x + n * a) := hfee
    _ ≤ n * a * y := amountOut_mul_le
    _ = n * (a * y) := by ring

/-- A swap does not shrink the product of the reserves. -/
theorem mul_le_mul_sub_amountOut (hn : 0 < n) (hnd : n ≤ d) :
    x * y ≤ (x + a) * (y - amountOut n d a x y) := by
  have hpaid : amountOut n d a x y * (x + a) ≤ a * y := amountOut_mul_add_le hn hnd
  have hsplit : (x + a) * (y - amountOut n d a x y) + amountOut n d a x y * (x + a) =
      x * y + a * y := by
    obtain ⟨rest, hrest⟩ :=
      Nat.exists_eq_add_of_le (amountOut_le_reserve (n := n) (d := d) (a := a) (x := x) (y := y))
    have hsub : y - amountOut n d a x y = rest := by omega
    calc (x + a) * (y - amountOut n d a x y) + amountOut n d a x y * (x + a)
        = (x + a) * rest + amountOut n d a x y * (x + a) := by rw [hsub]
      _ = (x + a) * (amountOut n d a x y + rest) := by ring
      _ = (x + a) * y := by rw [← hrest]
      _ = x * y + a * y := Nat.add_mul _ _ _
  omega

/-- What was bought, sold back at once. -/
theorem amountOut_amountOut_le (hn : 0 < n) (hnd : n ≤ d) :
    amountOut n d (amountOut n d a x y) (y - amountOut n d a x y) (x + a) ≤ a := by
  have hpaid : amountOut n d a x y * (x + a) ≤ a * y := amountOut_mul_add_le hn hnd
  have hle : amountOut n d a x y ≤ y := amountOut_le_reserve
  generalize amountOut n d a x y = out at hpaid hle
  obtain ⟨rest, rfl⟩ := Nat.exists_eq_add_of_le hle
  have hsub : out + rest - out = rest := by omega
  rw [hsub]
  have hback : out * x ≤ a * rest := by
    have hexpand : out * x + a * out ≤ a * rest + a * out :=
      calc out * x + a * out = out * (x + a) := by ring
        _ ≤ a * (out + rest) := hpaid
        _ = a * rest + a * out := by ring
    exact Nat.le_of_add_le_add_right hexpand
  apply Nat.div_le_of_le_mul
  calc n * out * (x + a)
      = n * (out * x) + n * out * a := by ring
    _ ≤ d * (a * rest) + n * out * a := Nat.add_le_add_right (Nat.mul_le_mul hnd hback) _
    _ = (d * rest + n * out) * a := by ring

/-- What was bought, sold back to the pool as it was before. -/
theorem amountOut_amountOut_same_le (hnd : n ≤ d) :
    amountOut n d (amountOut n d a x y) y x ≤ a := by
  have hpaid : amountOut n d a x y * (d * x + n * a) ≤ n * a * y := amountOut_mul_le
  generalize amountOut n d a x y = out at hpaid
  apply Nat.div_le_of_le_mul
  calc n * out * x
      ≤ d * out * x := Nat.mul_le_mul_right x (Nat.mul_le_mul_right out hnd)
    _ ≤ d * out * x + n * out * a := Nat.le_add_right _ _
    _ = out * (d * x + n * a) := by ring
    _ ≤ n * a * y := hpaid
    _ ≤ d * a * y := Nat.mul_le_mul_right y (Nat.mul_le_mul_right a hnd)
    _ ≤ d * a * y + n * out * a := Nat.le_add_right _ _
    _ = (d * y + n * out) * a := by ring

end Pochtecatl.ConstantProduct
