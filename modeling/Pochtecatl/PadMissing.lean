import Pochtecatl.BarBlocks
import Pochtecatl.TimePriceBars

namespace Pochtecatl

namespace TimePriceBars

open ResolutionTimestamp

/-- The single bucket that receives every block padded by one call: the loop
computes it from the last stored block, so it does not vary. -/
def padTarget (bars : TimePriceBars) (blockNumber blockTimestamp lastBlockNumber : Nat) : Nat :=
  fromTimestamp (wrappingSub blockTimestamp
    ((blockNumber - lastBlockNumber) * AVERAGE_BLOCK_TIME_SECONDS)) bars.resolution

def paddedNumbers (lastBlockNumber blockNumber : Nat) : List Nat :=
  List.range' (lastBlockNumber + 1) (blockNumber - (lastBlockNumber + 1))

theorem mem_paddedNumbers {b n k : Nat} : k ∈ paddedNumbers b n ↔ b < k ∧ k < n := by
  simp only [paddedNumbers, List.mem_range'_1]
  omega

theorem padStep_of_none {res : Resolution} {n bts b : Nat} {d : TickData} {loop : PadLoop}
    (h : loop.resolutionTimestampToPad = none) (k : Nat) :
    padStep res n bts b d loop k =
      let key := fromTimestamp (wrappingSub bts ((n - b) * AVERAGE_BLOCK_TIME_SECONDS)) res
      let collected := { loop with blockNumbersToPad := loop.blockNumbersToPad ++ [k] }
      if k = n - 1 then collected.drainInto key key d else collected := by
  simp only [padStep, h]

/-- The flush on a bucket change never runs, so the loop only collects. -/
theorem foldl_padStep_collect {res : Resolution} {n bts b : Nat} {d : TickData} {ks : List Nat}
    (hks : ∀ k ∈ ks, k ≠ n - 1) {loop : PadLoop} (h : loop.resolutionTimestampToPad = none) :
    ks.foldl (padStep res n bts b d) loop =
      { loop with blockNumbersToPad := loop.blockNumbersToPad ++ ks } := by
  induction ks generalizing loop with
  | nil => simp
  | cons k ks ih =>
    have hk : k ≠ n - 1 := hks k (by simp)
    have hrest : ∀ j ∈ ks, j ≠ n - 1 := fun j hj => hks j (List.mem_cons_of_mem k hj)
    rw [List.foldl_cons, padStep_of_none h]
    simp only [hk, if_false]
    rw [@ih hrest { loop with blockNumbersToPad := loop.blockNumbersToPad ++ [k] } h]
    simp

theorem foldl_padStep_paddedNumbers {res : Resolution} {n bts b : Nat} {d : TickData}
    (hb : b + 1 < n) (data : OrdMap Nat TimePriceBar) :
    (paddedNumbers b n).foldl (padStep res n bts b d) ⟨data, [], none, []⟩ =
      let key := fromTimestamp (wrappingSub bts ((n - b) * AVERAGE_BLOCK_TIME_SECONDS)) res
      PadLoop.drainInto ⟨data, paddedNumbers b n, none, []⟩ key key d := by
  have hsplit : paddedNumbers b n = List.range' (b + 1) (n - b - 2) ++ [n - 1] := by
    have hlen : n - (b + 1) = (n - b - 2) + 1 := by omega
    have hlast : b + 1 + (n - b - 2) = n - 1 := by omega
    rw [paddedNumbers, hlen, List.range'_1_concat, hlast]
  have hfront : ∀ k ∈ List.range' (b + 1) (n - b - 2), k ≠ n - 1 := by
    intro k hk
    have := List.mem_range'_1.mp hk
    omega
  rw [hsplit, List.foldl_append, foldl_padStep_collect hfront rfl]
  simp only [List.foldl_cons, List.foldl_nil]
  rw [padStep_of_none rfl]
  simp

/-- Everything the padding can do. -/
theorem padMissing_cases (n bts : Nat) (bars : TimePriceBars) :
    (padMissing n bts bars = .ok [] bars ∧
      ∀ b d, bars.lastBlock = some (b, d) → b + 1 < n →
        ∃ f, bars.data.get? (bars.padTarget n bts b) = some (.finalized f)) ∨
    ∃ b d bar, bars.lastBlock = some (b, d) ∧ b + 1 < n ∧
      (bars.data.get? (bars.padTarget n bts b)).getD (.pending .new) = .pending bar ∧
      padMissing n bts bars = .ok [bars.padTarget n bts b] { bars with
        data := bars.data.insert (bars.padTarget n bts b)
          (.pending (bar.insertBlockPriceBarRange (paddedNumbers b n) d)) } := by
  unfold padMissing padFrom
  cases hl : bars.lastBlock with
  | none => exact Or.inl ⟨rfl, by simp⟩
  | some last =>
    obtain ⟨b, d⟩ := last
    by_cases hb : b + 1 < n
    · have hfilter : (some (b, d)).filter (fun last : Nat × TickData => last.1 + 1 ≠ n)
          = some (b, d) := by simp [Option.filter, hb.ne]
      have hloop := @foldl_padStep_paddedNumbers bars.resolution n bts b d hb bars.data
      simp only [hfilter]
      rw [paddedNumbers] at hloop
      rw [hloop]
      simp only [PadLoop.drainInto]
      cases ht : (bars.data.get? (bars.padTarget n bts b)).getD (.pending .new) with
      | pending bar =>
        refine Or.inr ⟨b, d, bar, rfl, hb, ht, ?_⟩
        rw [padTarget] at ht
        simp only [ht]
        rfl
      | finalized f =>
        have hget : bars.data.get? (bars.padTarget n bts b) = some (.finalized f) := by
          cases hg : bars.data.get? (bars.padTarget n bts b) with
          | none => simp [hg] at ht
          | some bar => simpa [hg] using ht
        rw [padTarget] at ht
        refine Or.inl ⟨by simp only [ht], fun b' d' he _ => ⟨f, ?_⟩⟩
        obtain ⟨rfl, rfl⟩ : b = b' ∧ d = d' := by simpa using he
        exact hget
    · refine Or.inl ⟨?_, ?_⟩
      · by_cases he : b + 1 = n
        · simp [Option.filter, he]
        · have hz : n - (b + 1) = 0 := by omega
          simp [Option.filter, he, hz]
      · intro b' d' he hb'
        obtain ⟨rfl, rfl⟩ : b = b' ∧ d = d' := by simpa using he
        exact absurd hb' hb

end TimePriceBars

end Pochtecatl
