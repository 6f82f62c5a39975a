import Mathlib.Order.Lattice

namespace Pochtecatl

/-- The `u64` values of the source (timestamps, `BlockNumber`, the newtype
`ResolutionTimestamp`) are naturals here. Only subtraction can leave the range on
inputs of this program, so it alone is written with its wrap-around. -/
def wrappingSub (a b : Nat) : Nat :=
  if b ≤ a then a - b else (UInt64.size - (b - a) % UInt64.size) % UInt64.size

theorem wrappingSub_of_le {a b : Nat} (h : b ≤ a) : wrappingSub a b = a - b := if_pos h

def AVERAGE_BLOCK_TIME_SECONDS : Nat := 2

inductive Resolution where
  | fiveMinutes
  deriving DecidableEq

def Resolution.offset : Resolution → Nat
  | .fiveMinutes => 300

theorem Resolution.offset_pos (res : Resolution) : 0 < res.offset := by
  cases res
  decide

namespace ResolutionTimestamp

def fromTimestamp (timestamp : Nat) (res : Resolution) : Nat :=
  timestamp - timestamp % res.offset

def decrement (ts : Nat) (res : Resolution) (amount : Nat) : Nat :=
  wrappingSub ts (res.offset * amount)

def previous (ts : Nat) (res : Resolution) : Nat :=
  wrappingSub ts res.offset

def next (ts : Nat) (res : Resolution) : Nat :=
  ts + res.offset

theorem fromTimestamp_eq (t : Nat) (res : Resolution) :
    fromTimestamp t res = res.offset * (t / res.offset) := by
  exact (Nat.eq_sub_of_add_eq (Nat.div_add_mod t res.offset)).symm

theorem fromTimestamp_le (t : Nat) (res : Resolution) : fromTimestamp t res ≤ t :=
  Nat.sub_le _ _

theorem lt_fromTimestamp_add (t : Nat) (res : Resolution) :
    t < fromTimestamp t res + res.offset := by
  have h := Nat.mod_lt t res.offset_pos
  unfold fromTimestamp
  omega

theorem offset_dvd_fromTimestamp (t : Nat) (res : Resolution) :
    res.offset ∣ fromTimestamp t res := ⟨_, fromTimestamp_eq t res⟩

theorem fromTimestamp_mono {t u : Nat} (h : t ≤ u) (res : Resolution) :
    fromTimestamp t res ≤ fromTimestamp u res := by
  rw [fromTimestamp_eq, fromTimestamp_eq]
  exact Nat.mul_le_mul_left _ (Nat.div_le_div_right h)

/-- Two bucket starts that differ are a whole bucket apart. -/
theorem add_offset_le_of_lt {res : Resolution} {a b : Nat} (ha : res.offset ∣ a)
    (hb : res.offset ∣ b) (h : a < b) : a + res.offset ≤ b := by
  obtain ⟨x, rfl⟩ := ha
  obtain ⟨y, rfl⟩ := hb
  have hxy : x < y := Nat.lt_of_mul_lt_mul_left h
  calc res.offset * x + res.offset = res.offset * (x + 1) := by rw [Nat.mul_add, Nat.mul_one]
    _ ≤ res.offset * y := Nat.mul_le_mul_left _ hxy

theorem fromTimestamp_of_dvd {t : Nat} {res : Resolution} (h : res.offset ∣ t) :
    fromTimestamp t res = t := by
  unfold fromTimestamp
  rw [Nat.mod_eq_zero_of_dvd h, Nat.sub_zero]

/-- A timestamp at or past a bucket start lies in that bucket or a later one. -/
theorem le_fromTimestamp_of_dvd {a t : Nat} {res : Resolution} (ha : res.offset ∣ a)
    (h : a ≤ t) : a ≤ fromTimestamp t res :=
  (fromTimestamp_of_dvd ha).symm.le.trans (fromTimestamp_mono h res)

end ResolutionTimestamp

end Pochtecatl
