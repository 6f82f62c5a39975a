import Mathlib

namespace Pochtecatl

inductive BlockId where
  | latest
  | blockNumber (blockNumber : Nat)
  deriving DecidableEq

/-- `str::parse` to a u64: decimal digits after an optional plus sign, of a number that fits. -/
def parseU64 (s : String) : Option Nat :=
  let digits := match s.toList with
    | '+' :: digits => digits
    | digits => digits
  if digits ≠ [] ∧ digits.all Char.isDigit ∧ Nat.ofDigitChars 10 digits 0 < 2 ^ 64 then
    some (Nat.ofDigitChars 10 digits 0)
  else none

namespace BlockId

def fromStr (s : String) : Except String BlockId :=
  match parseU64 s with
  | some n => .ok (.blockNumber n)
  | none => if s = "latest" then .ok .latest else .error s!"Failed to parse block id: {s}"

/-- `START_BLOCK_ID` and `END_BLOCK_ID`: a variable that is not set or does not parse is the
latest block. -/
def fromEnv (value : Option String) : BlockId :=
  match value.map fromStr with
  | some (.ok blockId) => blockId
  | _ => latest

end BlockId

theorem parseU64_lt {s : String} {n : Nat} (h : parseU64 s = some n) : n < 2 ^ 64 := by
  unfold parseU64 at h
  obtain ⟨hdigits, hn⟩ := Option.ite_none_right_eq_some.mp h
  cases hn
  exact hdigits.2.2

namespace BlockId

theorem fromEnv_eq_blockNumber {value : Option String} {n : Nat}
    (h : fromEnv value = .blockNumber n) : ∃ s, value = some s ∧ parseU64 s = some n := by
  unfold fromEnv at h
  cases value with
  | none => cases h
  | some s =>
    refine ⟨s, rfl, ?_⟩
    simp only [Option.map_some, fromStr] at h
    cases hparse : parseU64 s with
    | some m =>
      rw [hparse] at h
      cases h
      rfl
    | none =>
      rw [hparse] at h
      by_cases hlatest : s = "latest"
      · rw [if_pos hlatest] at h
        cases h
      · rw [if_neg hlatest] at h
        cases h

end BlockId

end Pochtecatl
