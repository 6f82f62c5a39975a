import Mathlib.Algebra.Ring.Int.Defs
import Mathlib.Algebra.Ring.Nat
import Pochtecatl.Fixed

namespace Pochtecatl

theorem oneBits_eq : oneBits = 2 ^ 96 := rfl

namespace U32F96

variable {a b : U32F96}

theorem raw_lt (a : U32F96) : a.raw < 2 ^ 128 := a.bits.isLt

@[simp] theorem raw_ofRaw (n : Nat) : (ofRaw n).raw = n % 2 ^ 128 := BitVec.toNat_ofNat n 128

theorem raw_ofRaw_eq_iff {n : Nat} : (ofRaw n).raw = n ↔ n < 2 ^ 128 := by
  rw [raw_ofRaw]
  omega

@[simp] theorem raw_zero : zero.raw = 0 := rfl

theorem raw_add (a b : U32F96) : (a.add b).raw = (a.raw + b.raw) % 2 ^ 128 :=
  BitVec.toNat_add a.bits b.bits

theorem raw_add_eq_iff : (a.add b).raw = a.raw + b.raw ↔ a.raw + b.raw < 2 ^ 128 := by
  rw [raw_add]
  omega

theorem raw_div (a b : U32F96) : (a.div b).raw = a.raw * 2 ^ 96 / b.raw % 2 ^ 128 := raw_ofRaw _

theorem raw_mul (a b : U32F96) : (a.mul b).raw = a.raw * b.raw / 2 ^ 96 % 2 ^ 128 := raw_ofRaw _

theorem raw_checkedSub (h : b ≤ a) : ∃ c, a.checkedSub b = some c ∧ c.raw = a.raw - b.raw := by
  refine ⟨⟨a.bits - b.bits⟩, if_pos h, ?_⟩
  exact BitVec.toNat_sub_of_le (BitVec.le_def.mpr (le_iff_raw.mp h))

/-- A sum wraps exactly when the sum of the integers is too large. -/
theorem raw_sum (l : List U32F96) : (sum l).raw = (l.map raw).sum % 2 ^ 128 := by
  have hfold : ∀ (l : List U32F96) (acc : U32F96),
      (l.foldl add acc).raw = (acc.raw + (l.map raw).sum) % 2 ^ 128 := by
    intro l
    induction l with
    | nil => exact fun acc => (Nat.mod_eq_of_lt acc.raw_lt).symm
    | cons a l ih =>
      intro acc
      rw [List.foldl_cons, ih, raw_add, List.map_cons, List.sum_cons, Nat.mod_add_mod, Nat.add_assoc]
  rw [sum, hfold, raw_zero, Nat.zero_add]

theorem raw_sum_eq_iff {l : List U32F96} :
    (sum l).raw = (l.map raw).sum ↔ (l.map raw).sum < 2 ^ 128 := by
  rw [raw_sum]
  omega

end U32F96

namespace I32F96

variable {a b : I32F96}

theorem raw_lt (a : I32F96) : a.raw < 2 ^ 127 := BitVec.toInt_lt

/-- The integers that a signed number can have as its raw value. -/
def InRange (z : Int) : Prop := -2 ^ 127 ≤ z ∧ z < 2 ^ 127

theorem bmod_eq_iff {z : Int} : z.bmod (2 ^ 128) = z ↔ InRange z := by
  have hlo := @Int.le_bmod z (2 ^ 128) (by decide)
  have hhi := @Int.bmod_lt z (2 ^ 128) (by decide)
  constructor
  · intro h
    rw [h] at hlo hhi
    unfold InRange
    omega
  · rintro ⟨hle, hlt⟩
    exact Int.bmod_eq_of_le (by omega) (by omega)

theorem raw_ofRaw_eq_iff {z : Int} : (ofRaw z).raw = z ↔ InRange z := by
  rw [raw, ofRaw, BitVec.toInt_ofInt]
  exact bmod_eq_iff

@[simp] theorem raw_zero : zero.raw = 0 := rfl

theorem raw_add_eq_iff : (a.add b).raw = a.raw + b.raw ↔ InRange (a.raw + b.raw) := by
  rw [raw, add, BitVec.toInt_add]
  exact bmod_eq_iff

theorem raw_sub_eq_iff : (a.sub b).raw = a.raw - b.raw ↔ InRange (a.raw - b.raw) := by
  rw [raw, sub, BitVec.toInt_sub]
  exact bmod_eq_iff

theorem raw_mul_eq_iff :
    (a.mul b).raw = a.raw * b.raw / 2 ^ 96 ↔ InRange (a.raw * b.raw / 2 ^ 96) :=
  raw_ofRaw_eq_iff

theorem raw_toU32F96_eq_iff : (a.toU32F96.raw : Int) = a.raw ↔ 0 ≤ a.raw := by
  have heq : a.raw = if 2 * a.toU32F96.raw < 2 ^ 128 then (a.toU32F96.raw : Int)
      else (a.toU32F96.raw : Int) - (2 ^ 128 : Nat) := BitVec.toInt_eq_toNat_cond a.bits
  have hlt := a.toU32F96.raw_lt
  rw [heq]
  split <;> omega

end I32F96

namespace U32F96

theorem raw_toI32F96_eq_iff {a : U32F96} : a.toI32F96.raw = a.raw ↔ a.raw < 2 ^ 127 := by
  have heq : a.toI32F96.raw = if 2 * a.raw < 2 ^ 128 then (a.raw : Int)
      else (a.raw : Int) - (2 ^ 128 : Nat) := BitVec.toInt_eq_toNat_cond a.bits
  have hlt := a.raw_lt
  rw [heq]
  split <;> omega

end U32F96

end Pochtecatl
