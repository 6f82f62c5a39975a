import Pochtecatl.BlockRangeIndexer

namespace Pochtecatl

/-- Where a chunk of the range is, by its first block. A lost chunk was dropped with the
subtask that held it. -/
inductive Place where
  | waiting
  | subtask (task : Fin BLOCK_PARSER_CONCURRENCY)
  | channel
  | buffer
  | done
  | lost
  deriving DecidableEq

/-- The handler has taken the chunk. -/
def Place.handled : Place → Bool
  | .buffer | .done => true
  | _ => false

/-- At most, the chunk went from one place for handled chunks to another. -/
def Place.Follows (p' p : Place) : Prop := p' = p ∨ p.handled ∧ p'.handled

theorem Place.Follows.refl (p : Place) : p.Follows p := Or.inl rfl

theorem Place.Follows.trans {p p' p'' : Place} (h : p''.Follows p') (h' : p'.Follows p) :
    p''.Follows p := by
  rcases h with heq | ⟨hfrom, hto⟩
  · rwa [heq]
  · rcases h' with heq' | ⟨hfrom', -⟩
    · exact Or.inr ⟨by rwa [← heq'], hto⟩
    · exact Or.inr ⟨hfrom', hto⟩

theorem Place.Follows.lost {p p' : Place} (h : p'.Follows p) (hlost : p' = .lost) : p = .lost := by
  rcases h with rfl | ⟨-, hto⟩
  · exact hlost
  · rw [hlost] at hto
    cases hto

theorem Place.Follows.handled_eq {p p' : Place} (h : p'.Follows p) : p'.handled = p.handled := by
  rcases h with rfl | ⟨hfrom, hto⟩
  · rfl
  · rw [hfrom, hto]

def BlockChunk.start? {τ : Type} (blockChunk : BlockChunk τ) : Option Nat :=
  blockChunk.data.head?.map (·.blockNumber)

/-- The subtask is at work on the chunk that starts here. -/
def Subtask.Holds {τ ε : Type} (subtask : Subtask τ ε) (c : Nat) : Prop :=
  subtask = .fetching c ∨ ∃ blockChunk, subtask = .sending blockChunk ∧ blockChunk.start? = some c

theorem Subtask.not_holds_of_isOver {τ ε : Type} {subtask : Subtask τ ε} (h : subtask.isOver)
    (c : Nat) : ¬subtask.Holds c := by
  rintro (rfl | ⟨blockChunk, rfl, -⟩) <;> cases h

theorem Subtask.isOver_of_isReturned {τ ε : Type} {subtask : Subtask τ ε}
    (h : subtask.isReturned) : subtask.isOver := by
  cases subtask <;> first | rfl | cases h

namespace BlockRangeIndexer

variable {ρ θ π τ ε : Type} {s : BlockRangeIndexer ρ π τ ε} {place : Nat → Place}

/-- A first block of a chunk of the range. -/
def IsChunk (s : BlockRangeIndexer ρ π τ ε) (c : Nat) : Prop :=
  c ≤ s.endBlockNumber ∧ ∃ k, c = s.startBlockNumber + (BLOCK_PARSER_CHUNK_SIZE + 1) * k

def queued (s : BlockRangeIndexer ρ π τ ε) : List Nat := s.channel.filterMap BlockChunk.start?

/-- Every chunk is in the one place that `place` gives for it. -/
structure Placed (s : BlockRangeIndexer ρ π τ ε) (place : Nat → Place) : Prop where
  waiting : ∀ c, ¬(s.IsChunk c ∧ c < s.blockNumberChunkIter) ↔ place c = .waiting
  subtask : ∀ task c, (s.subtasks task).Holds c ↔ place c = .subtask task
  channel : ∀ c, c ∈ s.queued ↔ place c = .channel
  queued_nodup : s.queued.Nodup
  buffer : ∀ c, (s.chunkBuffer.get? c).isSome ↔ place c = .buffer
  done : ∀ c, s.IsChunk c ∧ c < s.nextBlockNumber ↔ place c = .done

theorem Placed.isChunk (h : Placed s place) {c : Nat} (hc : place c ≠ .waiting) : s.IsChunk c :=
  (not_not.mp fun hn => hc ((h.waiting c).mp hn)).1

theorem IsChunk.le_chunkEnd {c : Nat} (h : s.IsChunk c) : c ≤ s.chunkEndBlockNumber c :=
  Nat.le_min.mpr ⟨Nat.le_add_right _ _, h.1⟩

/-- Chunks start a chunk size apart. -/
theorem IsChunk.lt_of_ne {c c' : Nat} (h : s.IsChunk c) (h' : s.IsChunk c') (hne : c' ≠ c)
    (hlt : c' < s.chunkEndBlockNumber c + 1) : c' < c := by
  obtain ⟨-, k, hk⟩ := h
  obtain ⟨-, k', hk'⟩ := h'
  simp only [chunkEndBlockNumber, BLOCK_PARSER_CHUNK_SIZE] at hk hk' hlt
  omega

theorem new_placed (blocks : BlocksTable τ) (startBlockNumber endBlockNumber : Nat) :
    Placed (new blocks startBlockNumber endBlockNumber : BlockRangeIndexer ρ π τ ε)
      fun _ => .waiting where
  waiting := fun c => by
    simp only [iff_true, not_and, not_lt]
    rintro ⟨-, k, rfl⟩
    exact Nat.le_add_right _ _
  subtask := fun task c => by simp [new, Subtask.Holds]
  channel := fun c => by simp [new, queued]
  queued_nodup := List.nodup_nil
  buffer := fun c => by simp [new]
  done := fun c => by
    simp only [reduceCtorEq, iff_false, not_and, not_lt]
    rintro ⟨-, k, rfl⟩
    exact Nat.le_add_right _ _

section Move

variable {P P' : Nat → Prop} {x q : Place} {c : Nat}

/-- One chunk moves, the others stay. -/
theorem moveOne_iff (h : ∀ c', P c' ↔ place c' = x) (hother : ∀ c', c' ≠ c → (P' c' ↔ P c'))
    (hself : P' c ↔ q = x) (c' : Nat) : P' c' ↔ Function.update place c q c' = x := by
  by_cases hc : c' = c
  · rw [hc, Function.update_self, hself]
  · rw [Function.update_of_ne hc, hother c' hc, h c']

/-- One chunk moves between two places other than `x`. -/
theorem moveOne_iff_same (h : ∀ c', P c' ↔ place c' = x) (hp : place c ≠ x) (hq : q ≠ x)
    (c' : Nat) : P c' ↔ Function.update place c q c' = x :=
  moveOne_iff h (fun _ _ => Iff.rfl) (by rw [h c]; exact iff_of_false hp hq) c'

end Move

/-- A subtask that took no chunk yet takes the next one. -/
theorem Placed.next (h : Placed s place) {task : Fin BLOCK_PARSER_CONCURRENCY}
    (hidle : s.subtasks task = .idle) (hle : s.blockNumberChunkIter ≤ s.endBlockNumber)
    (hiter : ∃ k, s.blockNumberChunkIter = s.startBlockNumber + (BLOCK_PARSER_CHUNK_SIZE + 1) * k) :
    Placed (s.next task) (Function.update place s.blockNumberChunkIter (.subtask task)) := by
  have hwaiting : place s.blockNumberChunkIter = .waiting :=
    (h.waiting _).mp fun hlt => absurd hlt.2 (lt_irrefl _)
  have hchunk : s.IsChunk s.blockNumberChunkIter := ⟨hle, hiter⟩
  have hne : ∀ {x : Place}, x ≠ .waiting → place s.blockNumberChunkIter ≠ x :=
    fun hx he => hx (he.symm.trans hwaiting)
  rw [BlockRangeIndexer.next, if_pos hle]
  refine ⟨moveOne_iff h.waiting (fun c' hc => not_congr (and_congr_right fun hc' => ?_)) ?_,
    fun i => ?_, moveOne_iff_same h.channel (hne (by simp)) (by simp), h.queued_nodup,
    moveOne_iff_same h.buffer (hne (by simp)) (by simp),
    moveOne_iff_same h.done (hne (by simp)) (by simp)⟩
  · obtain ⟨-, k, hk⟩ := hchunk
    obtain ⟨-, k', hk'⟩ := hc'
    simp only [BLOCK_PARSER_CHUNK_SIZE, setSubtask] at hk hk' ⊢
    constructor <;> intro hlt
    · have := hc
      omega
    · omega
  · simp only [reduceCtorEq, iff_false, not_not]
    exact ⟨hchunk, by omega⟩
  · by_cases hi : i = task
    · subst hi
      refine moveOne_iff (h.subtask i) (fun c' hc => ?_) (by simp [setSubtask, Subtask.Holds])
      simp only [setSubtask, Function.update_self, hidle, Subtask.Holds, reduceCtorEq, false_and,
        exists_false, or_false, Subtask.fetching.injEq]
      exact iff_of_false (Ne.symm hc) (by simp)
    · simp only [setSubtask, Function.update_of_ne hi]
      exact moveOne_iff_same (h.subtask i) (hne (by simp)) (by simpa using Ne.symm hi)

/-- The places after the chunks at one place went to another. -/
def Place.moved (src dst p : Place) : Place := if p = src then dst else p

theorem Place.moved_eq_iff {src dst p x : Place} (hsrc : x ≠ src) (hdst : x ≠ dst) :
    Place.moved src dst p = x ↔ p = x := by
  unfold Place.moved
  split
  next hp => exact iff_of_false (Ne.symm hdst) fun he => hsrc (he.symm.trans hp)
  next => rfl

/-- A subtask that ends loses the chunk it is at work on, if any. -/
theorem Placed.lose (h : Placed s place) (task : Fin BLOCK_PARSER_CONCURRENCY)
    {subtask : Subtask τ ε} (hover : subtask.isOver) :
    Placed (s.setSubtask task subtask) (fun c => Place.moved (.subtask task) .lost (place c)) := by
  refine ⟨fun c => ?_, fun i c => ?_, fun c => ?_, h.queued_nodup, fun c => ?_, fun c => ?_⟩
  · exact (h.waiting c).trans (Place.moved_eq_iff (by simp) (by simp)).symm
  · by_cases hi : i = task
    · subst hi
      simp only [setSubtask, Function.update_self]
      refine iff_of_false (Subtask.not_holds_of_isOver hover c) ?_
      unfold Place.moved
      split
      next => simp
      next hne => exact hne
    · simp only [setSubtask, Function.update_of_ne hi]
      exact (h.subtask i c).trans (Place.moved_eq_iff (by simpa using hi) (by simp)).symm
  · exact (h.channel c).trans (Place.moved_eq_iff (by simp) (by simp)).symm
  · exact (h.buffer c).trans (Place.moved_eq_iff (by simp) (by simp)).symm
  · exact (h.done c).trans (Place.moved_eq_iff (by simp) (by simp)).symm

/-- A subtask goes on with the chunk it is at work on. -/
theorem Placed.keep (h : Placed s place) {task : Fin BLOCK_PARSER_CONCURRENCY}
    {subtask : Subtask τ ε} (hkeep : ∀ c, subtask.Holds c ↔ (s.subtasks task).Holds c) :
    Placed (s.setSubtask task subtask) place := by
  refine ⟨h.waiting, fun i c => ?_, h.channel, h.queued_nodup, h.buffer, h.done⟩
  by_cases hi : i = task
  · subst hi
    simp only [setSubtask, Function.update_self, hkeep]
    exact h.subtask i c
  · simp only [setSubtask, Function.update_of_ne hi]
    exact h.subtask i c

/-- A sent chunk goes from its subtask to the channel. -/
theorem Placed.send (h : Placed s place) {task : Fin BLOCK_PARSER_CONCURRENCY}
    {blockChunk : BlockChunk τ} {start : Nat} (hsending : s.subtasks task = .sending blockChunk)
    (hstart : blockChunk.start? = some start) :
    Placed { s.setSubtask task .idle with channel := s.channel ++ [blockChunk] }
      (fun c => Place.moved (.subtask task) .channel (place c)) := by
  have hheld : ∀ c, place c = .subtask task ↔ c = start := fun c => by
    rw [← h.subtask, hsending]
    simp [Subtask.Holds, hstart, eq_comm]
  have hqueued : queued { s.setSubtask task .idle with channel := s.channel ++ [blockChunk] } =
      s.queued ++ [start] := by
    simp [queued, List.filterMap_append, hstart]
  refine ⟨fun c => ?_, fun i c => ?_, fun c => ?_, ?_, fun c => ?_, fun c => ?_⟩
  · exact (h.waiting c).trans (Place.moved_eq_iff (by simp) (by simp)).symm
  · by_cases hi : i = task
    · subst hi
      simp only [setSubtask, Function.update_self]
      refine iff_of_false (by simp [Subtask.Holds]) ?_
      unfold Place.moved
      split
      next => simp
      next hne => exact hne
    · simp only [setSubtask, Function.update_of_ne hi]
      exact (h.subtask i c).trans (Place.moved_eq_iff (by simpa using hi) (by simp)).symm
  · rw [hqueued, List.mem_append, List.mem_singleton, h.channel, ← hheld]
    unfold Place.moved
    split
    next hp => simp [hp]
    next hp => simp [hp]
  · rw [hqueued]
    refine List.nodup_append.mpr ⟨h.queued_nodup, by simp, fun c hc c' hc' => ?_⟩
    rintro rfl
    rw [List.mem_singleton.mp hc'] at hc
    have hplace := (h.channel start).mp hc
    rw [(hheld start).mpr rfl] at hplace
    cases hplace
  · exact (h.buffer c).trans (Place.moved_eq_iff (by simp) (by simp)).symm
  · exact (h.done c).trans (Place.moved_eq_iff (by simp) (by simp)).symm

section Handler

variable {c : Nat} {blockChunk : BlockChunk τ}

/-- The handler takes a chunk off the channel. -/
theorem Placed.recv (h : Placed s place) {channel : List (BlockChunk τ)}
    (hchannel : s.channel = blockChunk :: channel) (hstart : blockChunk.start? = some c) :
    place c = .channel ∧ Placed { s with channel := channel } (Function.update place c .lost) := by
  have hqueued : s.queued = c :: queued { s with channel := channel } := by
    simp [queued, hchannel, hstart]
  have hplace : place c = .channel := (h.channel c).mp (by simp [hqueued])
  have hnodup := h.queued_nodup
  rw [hqueued, List.nodup_cons] at hnodup
  refine ⟨hplace, moveOne_iff_same h.waiting (by simp [hplace]) (by simp),
    fun i => moveOne_iff_same (h.subtask i) (by simp [hplace]) (by simp),
    moveOne_iff h.channel (fun c' hc => ?_) ?_, hnodup.2,
    moveOne_iff_same h.buffer (by simp [hplace]) (by simp),
    moveOne_iff_same h.done (by simp [hplace]) (by simp)⟩
  · rw [hqueued, List.mem_cons]
    simp [hc]
  · exact iff_of_false hnodup.1 (by simp)

/-- The handler takes the first chunk out of the buffer. -/
theorem Placed.popFirst (h : Placed s place)
    (hfirst : s.chunkBuffer.firstEntry = some (c, blockChunk)) :
    place c = .buffer ∧
      Placed { s with chunkBuffer := s.chunkBuffer.popFirst } (Function.update place c .lost) := by
  have hplace : place c = .buffer := (h.buffer c).mp (by
    simp [(OrdMap.firstEntry_eq_some_iff.mp hfirst).1])
  refine ⟨hplace, moveOne_iff_same h.waiting (by simp [hplace]) (by simp),
    fun i => moveOne_iff_same (h.subtask i) (by simp [hplace]) (by simp),
    moveOne_iff_same h.channel (by simp [hplace]) (by simp), h.queued_nodup,
    moveOne_iff h.buffer (fun c' hc => ?_) ?_,
    moveOne_iff_same h.done (by simp [hplace]) (by simp)⟩
  · simp only [OrdMap.get?_popFirst_of_ne hfirst hc]
  · simp [OrdMap.get?_popFirst_self hfirst]

/-- The handler buffers a chunk. -/
theorem Placed.insert (h : Placed s place) (hlost : place c = .lost) :
    Placed { s with chunkBuffer := s.chunkBuffer.insert c blockChunk }
      (Function.update place c .buffer) := by
  refine ⟨moveOne_iff_same h.waiting (by simp [hlost]) (by simp),
    fun i => moveOne_iff_same (h.subtask i) (by simp [hlost]) (by simp),
    moveOne_iff_same h.channel (by simp [hlost]) (by simp), h.queued_nodup,
    moveOne_iff h.buffer (fun c' hc => ?_) ?_,
    moveOne_iff_same h.done (by simp [hlost]) (by simp)⟩
  · simp only [OrdMap.get?_insert_ne hc]
  · simp

/-- The handler processes the chunk that is next in order. -/
theorem Placed.process (h : Placed s place) (hlost : place c = .lost)
    (hnext : c = s.nextBlockNumber) (executed : List (Block τ)) :
    Placed { s with
      executed := executed
      nextBlockNumber := s.chunkEndBlockNumber c + 1 } (Function.update place c .done) := by
  have hchunk : s.IsChunk c := h.isChunk (by simp [hlost])
  refine ⟨moveOne_iff_same h.waiting (by simp [hlost]) (by simp),
    fun i => moveOne_iff_same (h.subtask i) (by simp [hlost]) (by simp),
    moveOne_iff_same h.channel (by simp [hlost]) (by simp), h.queued_nodup,
    moveOne_iff_same h.buffer (by simp [hlost]) (by simp),
    moveOne_iff h.done (fun c' hc => and_congr_right fun hc' => ?_) ?_⟩
  · constructor
    · intro hlt
      exact hnext ▸ hchunk.lt_of_ne hc' hc hlt
    · have hle := hchunk.le_chunkEnd
      simp only
      omega
  · have hle := hchunk.le_chunkEnd
    simp only [iff_true]
    exact ⟨hchunk, by omega⟩

end Handler

end BlockRangeIndexer

end Pochtecatl
