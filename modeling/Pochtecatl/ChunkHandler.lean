import Pochtecatl.ChunkPlaces

namespace Pochtecatl

namespace BlockRangeIndexer

variable {ρ θ π τ ε : Type} {s : BlockRangeIndexer ρ π τ ε} {place : Nat → Place}

/-- The blocks executed so far are the first ones of the range. -/
def InOrder (s : BlockRangeIndexer ρ π τ ε) : Prop :=
  s.executed.map (·.blockNumber) <+:
    List.range' s.startBlockNumber (s.endBlockNumber + 1 - s.startBlockNumber)

/-- What the handler relies on between two chunks. -/
structure Held (s : BlockRangeIndexer ρ π τ ε) (place : Nat → Place) : Prop where
  placed : s.Placed place
  buffered : ∀ c blockChunk, s.chunkBuffer.get? c = some blockChunk →
    blockChunk.Covers c (s.chunkEndBlockNumber c)
  cursor : s.nextBlockNumber = s.startBlockNumber ∨ s.nextBlockNumber = s.endBlockNumber + 1 ∨
    s.IsChunk s.nextBlockNumber
  start_le : s.startBlockNumber ≤ s.nextBlockNumber
  executed : s.executed.map (·.blockNumber) =
    List.range' s.startBlockNumber (s.nextBlockNumber - s.startBlockNumber)

theorem prefix_of_count_le {start n m : Nat} (h : n ≤ m) :
    List.range' start n <+: List.range' start m := by
  obtain ⟨d, rfl⟩ := Nat.exists_eq_add_of_le h
  rw [← List.range'_append_1]
  exact List.prefix_append _ _

theorem Held.inOrder (h : Held s place) : s.InOrder := by
  rw [InOrder, h.executed]
  refine prefix_of_count_le ?_
  rcases h.cursor with hc | hc | ⟨hc, -⟩ <;> omega

/-- The calls made for a list of blocks: all of them, or those up to the first failure. -/
theorem executeBlocks_outcome (executes : Nat → Bool) (data : List (Block τ))
    (s : BlockRangeIndexer ρ π τ ε) :
    executeBlocks executes data s = .ok () { s with executed := s.executed ++ data } ∨
      ∃ e called, called <+: data ∧
        executeBlocks executes data s = .error e { s with executed := s.executed ++ called } := by
  induction data generalizing s with
  | nil => exact Or.inl (by simp [executeBlocks, pure, EStateM.pure])
  | cons block data ih =>
    unfold executeBlocks
    by_cases he : executes block.blockNumber = true
    · have hcall : executeStrategyForBlock executes block s =
          .ok () { s with executed := s.executed ++ [block] } := by
        simp [executeStrategyForBlock, he]
      rw [EStateM.bind_of_ok hcall]
      rcases ih { s with executed := s.executed ++ [block] } with hr | ⟨e, called, hpre, hr⟩
      · exact Or.inl (by simpa using hr)
      · exact Or.inr ⟨e, block :: called, List.cons_prefix_cons.mpr ⟨rfl, hpre⟩, by simpa using hr⟩
    · refine Or.inr ⟨.execute block.blockNumber, [block], by simp, ?_⟩
      exact EStateM.bind_of_error (by simp [executeStrategyForBlock, he])

section Handler

variable {c : Nat} {blockChunk : BlockChunk τ}

/-- The chunk that is next in order is executed whole, or the handler fails in it. -/
theorem Held.processChunk {stop : Nat} (h : Held s place) (hlost : place c = .lost)
    (hnext : c = s.nextBlockNumber) (hstop : s.chunkEndBlockNumber c = stop)
    (hcovers : blockChunk.Covers c stop) (executes : Nat → Bool) :
    (∃ executed, processChunk executes blockChunk.data stop s = .ok ()
        { s with executed := executed, nextBlockNumber := stop + 1 } ∧
      Held { s with executed := executed, nextBlockNumber := stop + 1 }
        (Function.update place c .done)) ∨
      ∃ e executed, processChunk executes blockChunk.data stop s =
        .error e { s with executed := executed } ∧ InOrder { s with executed := executed } := by
  subst hstop
  obtain ⟨hend, k, hk⟩ := h.placed.isChunk (c := c) (by simp [hlost])
  have hle : c ≤ s.chunkEndBlockNumber c := IsChunk.le_chunkEnd ⟨hend, k, hk⟩
  have hmax : s.chunkEndBlockNumber c ≤ s.endBlockNumber := Nat.min_le_right _ _
  have hstart := h.start_le
  have hall : (s.executed ++ blockChunk.data).map (·.blockNumber) =
      List.range' s.startBlockNumber (s.chunkEndBlockNumber c + 1 - s.startBlockNumber) := by
    rw [List.map_append, h.executed, hcovers, ← hnext]
    have hsplit : s.chunkEndBlockNumber c + 1 - s.startBlockNumber =
        (c - s.startBlockNumber) + (s.chunkEndBlockNumber c + 1 - c) := by omega
    have hc : s.startBlockNumber + (c - s.startBlockNumber) = c := by omega
    rw [hsplit, ← List.range'_append_1, hc]
  unfold BlockRangeIndexer.processChunk
  rcases executeBlocks_outcome executes blockChunk.data s with hr | ⟨e, called, hpre, hr⟩
  · refine Or.inl ⟨s.executed ++ blockChunk.data, EStateM.bind_of_ok hr, ?_⟩
    refine ⟨h.placed.process hlost hnext _, h.buffered, ?_, ?_, hall⟩
    · by_cases hlast : s.chunkEndBlockNumber c = s.endBlockNumber
      · exact Or.inr (Or.inl (by simp [hlast]))
      · refine Or.inr (Or.inr ⟨?_, k + 1, ?_⟩) <;>
          simp only [chunkEndBlockNumber, BLOCK_PARSER_CHUNK_SIZE] at hlast hmax hk ⊢ <;> omega
    · simp only
      omega
  · refine Or.inr ⟨e, s.executed ++ called, EStateM.bind_of_error hr, ?_⟩
    have hcalled : (s.executed ++ called).map (·.blockNumber) <+:
        (s.executed ++ blockChunk.data).map (·.blockNumber) :=
      ((List.prefix_append_right_inj _).mpr hpre).map _
    rw [hall] at hcalled
    exact hcalled.trans (prefix_of_count_le (by simp only; omega))

/-- The outcome of a part of the handler that ends between two chunks. -/
def Outcome (s : BlockRangeIndexer ρ π τ ε) (place : Nat → Place) :
    EStateM.Result HandlerError (BlockRangeIndexer ρ π τ ε) Unit → Prop
  | .ok _ s' => ∃ executed nextBlockNumber chunkBuffer place', s' = { s with
        executed := executed, nextBlockNumber := nextBlockNumber, chunkBuffer := chunkBuffer } ∧
      s'.Held place' ∧ s'.chunkBuffer.get? s'.nextBlockNumber = none ∧
      ∀ c, (place' c).Follows (place c)
  | .error _ s' => s'.InOrder

theorem Outcome.mono {r : EStateM.Result HandlerError (BlockRangeIndexer ρ π τ ε) Unit}
    {place' : Nat → Place} (h : Outcome s place r)
    (hfollows : ∀ c, (place c).Follows (place' c)) : Outcome s place' r := by
  cases r with
  | ok _ s' =>
    obtain ⟨executed, next, buffer, final, hs', hheld, hfront, hl⟩ := h
    exact ⟨executed, next, buffer, final, hs', hheld, hfront, fun c => (hl c).trans (hfollows c)⟩
  | error e s' => exact h

theorem Outcome.trans {r : EStateM.Result HandlerError (BlockRangeIndexer ρ π τ ε) Unit}
    {executed : List (Block τ)} {nextBlockNumber : Nat} {chunkBuffer : OrdMap Nat (BlockChunk τ)}
    (h : Outcome { s with
      executed := executed, nextBlockNumber := nextBlockNumber, chunkBuffer := chunkBuffer }
        place r) : Outcome s place r := by
  cases r with
  | ok _ s' =>
    obtain ⟨executed', next', buffer', final, rfl, hheld, hfront, hl⟩ := h
    exact ⟨executed', next', buffer', final, rfl, hheld, hfront, hl⟩
  | error e s' => exact h

/-- The first chunk of the buffer is out of the handler's hands. -/
theorem Held.popFirst (h : Held s place)
    (hfirst : s.chunkBuffer.firstEntry = some (c, blockChunk)) :
    Held { s with chunkBuffer := s.chunkBuffer.popFirst } (Function.update place c .lost) := by
  refine ⟨(h.placed.popFirst hfirst).2, fun c' other hget => ?_, h.cursor, h.start_le, h.executed⟩
  by_cases hc : c' = c
  · subst hc
    rw [OrdMap.get?_popFirst_self hfirst] at hget
    cases hget
  · rw [OrdMap.get?_popFirst_of_ne hfirst hc] at hget
    exact h.buffered c' other hget

/-- No buffered chunk comes before the block that is next. -/
theorem Held.next_le (h : Held s place) (hget : s.chunkBuffer.get? c = some blockChunk) :
    s.nextBlockNumber ≤ c := by
  by_contra hlt
  have hbuffer : place c = .buffer := (h.placed.buffer c).mp (by simp [hget])
  have hdone := (h.placed.done c).mp ⟨h.placed.isChunk (by simp [hbuffer]), Nat.lt_of_not_le hlt⟩
  rw [hbuffer] at hdone
  cases hdone

/-- The chunk that is next, followed by the buffered ones. -/
theorem Held.processThen {stop fuel : Nat} {executes : Nat → Bool}
    (hrest : ∀ {s : BlockRangeIndexer ρ π τ ε} {place : Nat → Place}, Held s place →
      s.chunkBuffer.size ≤ fuel → Outcome s place (processBuffered executes fuel s))
    (h : Held s place) (hlost : place c = .lost) (hnext : c = s.nextBlockNumber)
    (hstop : s.chunkEndBlockNumber c = stop) (hcovers : blockChunk.Covers c stop)
    (hfuel : s.chunkBuffer.size ≤ fuel) :
    Outcome s (Function.update place c .done) ((do
      BlockRangeIndexer.processChunk executes blockChunk.data stop
      BlockRangeIndexer.processBuffered executes fuel) s) := by
  rcases h.processChunk hlost hnext hstop hcovers executes with
    ⟨executed, hr, hheld⟩ | ⟨e, executed, hr, hord⟩
  · rw [EStateM.bind_of_ok hr]
    exact Outcome.trans (hrest hheld hfuel)
  · rw [EStateM.bind_of_error hr]
    exact hord

theorem Held.processBuffered (executes : Nat → Bool) (fuel : Nat) :
    ∀ {s : BlockRangeIndexer ρ π τ ε} {place : Nat → Place}, Held s place →
      s.chunkBuffer.size ≤ fuel → Outcome s place (processBuffered executes fuel s) := by
  induction fuel with
  | zero =>
    intro s place h hfuel
    have hempty := OrdMap.size_eq_zero_iff.mp (Nat.le_zero.mp hfuel)
    exact ⟨s.executed, s.nextBlockNumber, s.chunkBuffer, place, rfl, h, hempty _, fun _ => .refl _⟩
  | succ fuel ih =>
    intro s place h hfuel
    unfold BlockRangeIndexer.processBuffered
    rw [EStateM.bind_of_ok (show (get : HandlerM ρ π τ ε _) s = .ok s s from rfl)]
    cases hfirst : s.chunkBuffer.firstEntry with
    | none =>
      exact ⟨s.executed, s.nextBlockNumber, s.chunkBuffer, place, rfl, h,
        OrdMap.firstEntry_eq_none_iff.mp hfirst _, fun _ => .refl _⟩
    | some entry =>
      obtain ⟨c, blockChunk⟩ := entry
      obtain ⟨hget, hmin⟩ := OrdMap.firstEntry_eq_some_iff.mp hfirst
      simp only
      split
      next hnext =>
        have hcovers := h.buffered c blockChunk hget
        have hchunk := h.placed.isChunk (c := c) (by simp [(h.placed.popFirst hfirst).1])
        have hsize := OrdMap.size_popFirst s.chunkBuffer
        rw [hcovers.getLast? hchunk.le_chunkEnd, Option.getD_some, EStateM.bind_of_ok
          (show (set _ : HandlerM ρ π τ ε _) s = .ok _ _ from rfl)]
        refine (Outcome.trans ((h.popFirst hfirst).processThen ih (by simp) hnext (by rfl) hcovers
          (by simp only; omega))).mono fun c' => ?_
        by_cases hcc : c' = c
        · rw [hcc, Function.update_self, (h.placed.popFirst hfirst).1]
          exact Or.inr ⟨rfl, rfl⟩
        · rw [Function.update_of_ne hcc, Function.update_of_ne hcc]
          exact .refl _
      next hnext =>
        refine ⟨s.executed, s.nextBlockNumber, s.chunkBuffer, place, rfl, h, ?_, fun _ => .refl _⟩
        cases hn : s.chunkBuffer.get? s.nextBlockNumber with
        | none => rfl
        | some other =>
          exact absurd (Nat.le_antisymm (hmin _ _ hn) (h.next_le hget)) hnext

/-- A received chunk is processed when it is next, and buffered otherwise. -/
theorem Held.executeOrBuffer (h : Held s place) (hlost : place c = .lost)
    (hfront : s.chunkBuffer.get? s.nextBlockNumber = none)
    (hcovers : blockChunk.Covers c (s.chunkEndBlockNumber c)) (executes : Nat → Bool) :
    Outcome s (Function.update place c .done) (executeOrBuffer executes blockChunk s) := by
  have hchunk := h.placed.isChunk (c := c) (by simp [hlost])
  unfold BlockRangeIndexer.executeOrBuffer
  rw [EStateM.bind_of_ok (show (get : HandlerM ρ π τ ε _) s = .ok s s from rfl),
    hcovers.head? hchunk.le_chunkEnd, hcovers.getLast? hchunk.le_chunkEnd]
  simp only
  split
  next hnext =>
    exact h.processThen (Held.processBuffered executes _) hlost hnext rfl hcovers (Nat.le_refl _)
  next hnext =>
    refine ⟨s.executed, s.nextBlockNumber, s.chunkBuffer.insert c blockChunk,
      Function.update place c .buffer, rfl, ⟨h.placed.insert hlost, fun c' other hget => ?_,
        h.cursor, h.start_le, h.executed⟩, ?_, fun c' => ?_⟩
    · by_cases hc : c' = c
      · subst hc
        rw [OrdMap.get?_insert_self] at hget
        cases Option.some.inj hget
        exact hcovers
      · rw [OrdMap.get?_insert_ne hc] at hget
        exact h.buffered c' other hget
    · simp only [OrdMap.get?_insert_ne (Ne.symm hnext), hfront]
    · by_cases hcc : c' = c
      · rw [hcc, Function.update_self, Function.update_self]
        exact Or.inr ⟨rfl, rfl⟩
      · rw [Function.update_of_ne hcc, Function.update_of_ne hcc]
        exact .refl _

end Handler

end BlockRangeIndexer

end Pochtecatl
