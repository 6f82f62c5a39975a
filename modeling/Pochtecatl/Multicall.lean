import Pochtecatl.FetchedPairs
import Pochtecatl.ListChunks
import Pochtecatl.Pair

namespace Pochtecatl

def MULTICALL_CHUNK_SIZE : Nat := 50

/-- What comes back for the transaction of a chunk, by the number of its task; `none` is a task
that did not end. The returns of `aggregate3` are decoded by generated code. -/
structure Multicall3 (γ ρ ε : Type) where
  call : Nat → List γ → Option (Except ε (List (BitVec 8)))
  decodeReturns : List (BitVec 8) → Except ε (List ρ)

inductive ChunkError (ε : Type) where
  | call (e : ε)
  | decode (e : ε)

inductive MulticallError (ε : Type) where
  | execution (e : ChunkError ε)
  | join

section Multicall

variable {γ ρ ε : Type}

def Multicall3.chunkTask (rpcProvider : Multicall3 γ ρ ε) (idx : Nat) (chunk : List γ) :
    Option (Except (ChunkError ε) (Nat × List ρ)) :=
  (rpcProvider.call idx chunk).map fun result => do
    let res ← result.mapError .call
    let returnData ← (rpcProvider.decodeReturns res).mapError .decode
    pure (idx, returnData)

/-- The loop over `join_next`, which yields the tasks as they complete. -/
def joinChunks (chunkTask : Nat → Option (Except (ChunkError ε) (Nat × List ρ))) :
    List Nat → List (List ρ) → Except (MulticallError ε) (List (List ρ))
  | [], output => .ok output
  | idx :: completed, output => match chunkTask idx with
    | some (.ok (chunkIdx, chunkData)) =>
      joinChunks chunkTask completed (output.set chunkIdx chunkData)
    | some (.error e) => .error (.execution e)
    | none => .error .join

/-- `completed` is the order in which the chunk tasks complete. -/
def multicall (rpcProvider : Multicall3 γ ρ ε) (calls : List γ) (completed : List Nat) :
    Except (MulticallError ε) (List ρ) :=
  let chunks := calls.chunks MULTICALL_CHUNK_SIZE
  (joinChunks (fun idx => rpcProvider.chunkTask idx (chunks.getD idx [])) completed
    (List.replicate chunks.length [])).map List.flatten

/-- An order in which the tasks of the chunks can complete. -/
def CompletionOrder (calls : List γ) (completed : List Nat) : Prop :=
  completed.Perm (List.range (calls.chunks MULTICALL_CHUNK_SIZE).length)

/-- `aggregate3` answers each call of a chunk in order with one result. The result may depend on
the task and on the place of the call. -/
def Multicall3.Answers (rpcProvider : Multicall3 γ ρ ε) (answer : Nat → Nat → γ → ρ) : Prop :=
  ∀ idx chunk, ∃ res, rpcProvider.call idx chunk = some (.ok res) ∧
    rpcProvider.decodeReturns res = .ok (chunk.mapIdx (answer idx))

/-- The result of the call at place `i` of a multicall. -/
def resultAt (answer : Nat → Nat → γ → ρ) (i : Nat) (call : γ) : ρ :=
  answer (i / MULTICALL_CHUNK_SIZE) (i % MULTICALL_CHUNK_SIZE) call

variable {rpcProvider : Multicall3 γ ρ ε} {answer : Nat → Nat → γ → ρ}

theorem Multicall3.Answers.chunkTask (h : rpcProvider.Answers answer) (idx : Nat)
    (chunk : List γ) :
    rpcProvider.chunkTask idx chunk = some (.ok (idx, chunk.mapIdx (answer idx))) := by
  obtain ⟨res, hcall, hdecode⟩ := h idx chunk
  rw [Multicall3.chunkTask, hcall, Option.map_some]
  simp only [Except.mapError, bind, Except.bind, hdecode]
  rfl

/-- Each completed task writes its own place. -/
theorem joinChunks_eq_ok {chunkTask : Nat → Option (Except (ChunkError ε) (Nat × List ρ))}
    {f : Nat → List ρ} (h : ∀ idx, chunkTask idx = some (.ok (idx, f idx))) (completed : List Nat)
    (output : List (List ρ)) : joinChunks chunkTask completed output =
      .ok (completed.foldl (fun output idx => output.set idx (f idx)) output) := by
  induction completed generalizing output with
  | nil => rfl
  | cons idx completed ih =>
    rw [joinChunks, h idx]
    exact ih (output.set idx (f idx))

/-- The results come in the order of the calls, however the tasks complete. -/
theorem multicall_eq_ok (h : rpcProvider.Answers answer) {calls : List γ} {completed : List Nat}
    (hcompleted : CompletionOrder calls completed) :
    multicall rpcProvider calls completed = .ok (calls.mapIdx (resultAt answer)) := by
  have hsize : 0 < MULTICALL_CHUNK_SIZE := by decide
  have hplaces : (List.range (calls.chunks MULTICALL_CHUNK_SIZE).length).map
      (fun idx => ((calls.chunks MULTICALL_CHUNK_SIZE).getD idx []).mapIdx (answer idx)) =
        (calls.mapIdx (resultAt answer)).chunks MULTICALL_CHUNK_SIZE := by
    refine Eq.trans ?_ (List.chunks_mapIdx answer hsize calls).symm
    apply List.ext_getElem?
    intro i
    rw [List.getElem?_map, List.getElem?_mapIdx]
    by_cases hi : i < (calls.chunks MULTICALL_CHUNK_SIZE).length
    · rw [List.getElem?_range hi, Option.map_some, List.getD_eq_getElem?_getD,
        List.getElem?_eq_getElem hi]
      rfl
    · rw [List.getElem?_eq_none (by rw [List.length_range]; omega),
        List.getElem?_eq_none (Nat.le_of_not_lt hi)]
      rfl
  have hlength : (List.replicate (calls.chunks MULTICALL_CHUNK_SIZE).length
      ([] : List ρ)).length = (calls.chunks MULTICALL_CHUNK_SIZE).length := List.length_replicate
  have hwritten : completed.Perm (List.range (List.replicate
      (calls.chunks MULTICALL_CHUNK_SIZE).length ([] : List ρ)).length) := by
    rw [hlength]
    exact hcompleted
  rw [multicall, joinChunks_eq_ok (fun idx => h.chunkTask idx _), List.foldl_set_of_perm _ hwritten,
    hlength, hplaces, Except.map, List.flatten_chunks hsize]

end Multicall

end Pochtecatl
