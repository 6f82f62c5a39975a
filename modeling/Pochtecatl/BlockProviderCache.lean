import Pochtecatl.Machine
import Pochtecatl.OrdMapTrim

namespace Pochtecatl

def BLOCK_CACHE_SIZE : Nat := 100

/-- An error of the node, with its context. -/
structure GetBlockError (ε : Type) where
  context : String
  cause : ε
  deriving DecidableEq

/-- A call of `get_block`: it waits for the node, or has returned. -/
inductive GetBlockCall (β ε : Type) where
  | fetching (blockNumber : Nat)
  | returned (blockNumber : Nat) (result : Except (GetBlockError ε) (Option β))

/-- The block cache and the calls in the order in which they were made. `answers` records the
blocks that the node answered. -/
structure BlockProvider (β ε : Type) where
  blockCache : OrdMap Nat β
  calls : List (GetBlockCall β ε)
  answers : List (Nat × β)

/-- A call is made and reads the cache, or the node answers a call, which writes the cache. -/
inductive BlockProviderStep (β ε : Type) where
  | getBlock (blockNumber : Nat)
  | answer (call : Nat) (result : Except ε (Option β))

namespace BlockProvider

variable {β ε : Type}

def new : BlockProvider β ε := ⟨.empty, [], []⟩

/-- The cache with a fetched block. -/
def cacheBlock (cache : OrdMap Nat β) (blockNumber : Nat) (block : β) : OrdMap Nat β :=
  (cache.insert blockNumber block).trim (BLOCK_CACHE_SIZE + BLOCK_CACHE_SIZE / 2)

def step (s : BlockProvider β ε) : BlockProviderStep β ε → Option (BlockProvider β ε)
  | .getBlock blockNumber =>
    match s.blockCache.get? blockNumber with
    | some block => some { s with calls := s.calls ++ [.returned blockNumber (.ok (some block))] }
    | none => some { s with calls := s.calls ++ [.fetching blockNumber] }
  | .answer call result =>
    match s.calls[call]? with
    | some (.fetching blockNumber) =>
      match result with
      | .error cause => some { s with
          calls := s.calls.set call (.returned blockNumber
            (.error ⟨s!"get_block_by_number {blockNumber} failed", cause⟩)) }
      | .ok none => some { s with
          calls := s.calls.set call (.returned blockNumber (.ok none)) }
      | .ok (some block) => some {
          blockCache := cacheBlock s.blockCache blockNumber block
          calls := s.calls.set call (.returned blockNumber (.ok (some block)))
          answers := s.answers ++ [(blockNumber, block)] }
    | _ => none

def machine : Machine (BlockProvider β ε) (BlockProviderStep β ε) := ⟨step⟩

/-- The block that the node answered last for a number. -/
def lastAnswer (s : BlockProvider β ε) (blockNumber : Nat) : Option β :=
  ((s.answers.filter (·.1 = blockNumber)).getLast?).map Prod.snd

/-- How many different numbers from the given one on the node answered. -/
def answeredFrom (s : BlockProvider β ε) (blockNumber : Nat) : Nat :=
  ((s.answers.map Prod.fst).dedup.filter (blockNumber ≤ ·)).length

/-- The cache is the trimmed record of the answers, and what a call returned was answered. -/
structure Inv (s : BlockProvider β ε) : Prop where
  cache : s.blockCache =
    (OrdMap.ofList s.answers).trim (BLOCK_CACHE_SIZE + BLOCK_CACHE_SIZE / 2)
  returned : ∀ blockNumber block, .returned blockNumber (.ok (some block)) ∈ s.calls →
    (blockNumber, block) ∈ s.answers

variable {s s' : BlockProvider β ε}

theorem new_inv : (new : BlockProvider β ε).Inv :=
  ⟨rfl, fun _ _ h => by cases h⟩

theorem Inv.get?_blockCache (h : s.Inv) (n : Nat) :
    s.blockCache.get? n = if s.answeredFrom n ≤ 150 then s.lastAnswer n else none := by
  rw [h.cache, OrdMap.get?_trim, OrdMap.countFrom_ofList, OrdMap.get?_ofList]
  rfl

theorem mem_answers_of_lastAnswer {n : Nat} {block : β} (h : s.lastAnswer n = some block) :
    (n, block) ∈ s.answers := by
  obtain ⟨⟨m, b⟩, hlast, rfl⟩ := Option.map_eq_some_iff.mp h
  obtain ⟨hm, hn⟩ := List.mem_filter.mp (List.mem_of_getLast? hlast)
  cases of_decide_eq_true hn
  exact hm

/-- A call that the node answered without a block leaves the cache. -/
theorem Inv.setCall (h : s.Inv) {call n : Nat} {result : Except (GetBlockError ε) (Option β)}
    (hresult : ∀ block, result ≠ .ok (some block)) :
    Inv { s with calls := s.calls.set call (.returned n result) } := by
  refine ⟨h.cache, fun m block hm => ?_⟩
  rcases List.mem_or_eq_of_mem_set hm with hm | he
  · exact h.returned m block hm
  · injection he with _ he
    exact absurd he.symm (hresult block)

theorem step_inv {a : BlockProviderStep β ε} (h : s.Inv) (hstep : machine.step s a = some s') :
    s'.Inv := by
  simp only [machine, step] at hstep
  cases a with
  | getBlock n =>
    cases hget : s.blockCache.get? n with
    | some block =>
      simp only [hget] at hstep
      cases hstep
      refine ⟨h.cache, fun m block' hm => ?_⟩
      rcases List.mem_append.mp hm with hm | hm
      · exact h.returned m block' hm
      · cases List.mem_singleton.mp hm
        rw [h.get?_blockCache] at hget
        split at hget
        next => exact mem_answers_of_lastAnswer hget
        next => cases hget
    | none =>
      simp only [hget] at hstep
      cases hstep
      refine ⟨h.cache, fun m block' hm => ?_⟩
      rcases List.mem_append.mp hm with hm | hm
      · exact h.returned m block' hm
      · cases List.mem_singleton.mp hm
  | answer call result =>
    simp only at hstep
    split at hstep
    next n hcall =>
      cases result with
      | error cause =>
        cases hstep
        exact h.setCall fun block he => by cases he
      | ok answer =>
        cases answer with
        | none =>
          cases hstep
          exact h.setCall fun block he => by cases he
        | some block =>
          cases hstep
          refine ⟨?_, fun m block' hm => ?_⟩
          · rw [cacheBlock, h.cache, OrdMap.trim_insert_trim, OrdMap.ofList_concat]
          · rcases List.mem_or_eq_of_mem_set hm with hm | he
            · exact List.mem_append_left _ (h.returned m block' hm)
            · cases he
              exact List.mem_append_right _ (List.mem_singleton_self _)
    next => cases hstep

theorem run_inv {steps : List (BlockProviderStep β ε)} (hrun : machine.run new steps = some s) :
    s.Inv := Machine.run_invariant (fun _ _ _ h hstep => step_inv h hstep) hrun new_inv

/-- However the calls interleave, a block is in the cache exactly when its number is among the 150
highest ones that the node answered, and is then the one answered last. A call returns only what
the node answered for its number. -/
theorem run_blockCache {steps : List (BlockProviderStep β ε)}
    (hrun : machine.run new steps = some s) :
    s.blockCache.size ≤ 150 ∧
    (∀ n, s.blockCache.get? n = if s.answeredFrom n ≤ 150 then s.lastAnswer n else none) ∧
    ∀ n block, .returned n (.ok (some block)) ∈ s.calls → (n, block) ∈ s.answers := by
  have h := run_inv hrun
  refine ⟨?_, h.get?_blockCache, h.returned⟩
  rw [h.cache]
  exact OrdMap.size_trim_le _ _

/-- Of two calls at once for a block, the one that is answered last decides. -/
theorem run_blockCache_twoCalls : ∃ s : BlockProvider Nat Unit,
    machine.run new [.getBlock 5, .getBlock 5, .answer 1 (.ok (some 7)), .answer 0 (.ok (some 8))] =
      some s ∧ s.blockCache.get? 5 = some 8 ∧ s.blockCache.size ≤ 150 := by
  obtain ⟨s, hrun, hcount, hlast⟩ : ∃ s : BlockProvider Nat Unit,
      machine.run new [.getBlock 5, .getBlock 5, .answer 1 (.ok (some 7)),
        .answer 0 (.ok (some 8))] = some s ∧ s.answeredFrom 5 ≤ 150 ∧ s.lastAnswer 5 = some 8 :=
    ⟨_, rfl, by decide, rfl⟩
  obtain ⟨hsize, hcache, -⟩ := run_blockCache hrun
  refine ⟨s, hrun, ?_, hsize⟩
  rw [hcache, if_pos hcount, hlast]

end BlockProvider

end Pochtecatl
