import Pochtecatl.ChunkHandler
import Pochtecatl.HandlerEffects

namespace Pochtecatl

namespace BlockRangeIndexer

variable {ρ θ π τ ε : Type} {s : BlockRangeIndexer ρ π τ ε} {place : Nat → Place}
  {dex : Dex ρ θ π τ}

/-- What holds while the handler has not failed. A chunk is lost only with its subtask. -/
structure Running (s : BlockRangeIndexer ρ π τ ε) (place : Nat → Place) : Prop
    extends Held s place where
  front : s.chunkBuffer.get? s.nextBlockNumber = none
  lossless : ∀ c, place c = .lost → ∃ task, (s.subtasks task).isOver ∧ ¬(s.subtasks task).isReturned
  sending : ∀ task blockChunk, s.subtasks task = .sending blockChunk →
    ∃ c, s.IsChunk c ∧ blockChunk.Covers c (s.chunkEndBlockNumber c)
  queue : ∀ blockChunk ∈ s.channel,
    ∃ c, s.IsChunk c ∧ blockChunk.Covers c (s.chunkEndBlockNumber c)
  iter : ∃ k, s.blockNumberChunkIter = s.startBlockNumber + (BLOCK_PARSER_CHUNK_SIZE + 1) * k
  returned : ∀ task, (s.subtasks task).isReturned → s.endBlockNumber < s.blockNumberChunkIter
  parser_ok : s.parser = .ok → ∀ task, (s.subtasks task).isReturned
  handler_ok : s.handler = .ok → s.channel = [] ∧ ∀ task, (s.subtasks task).isOver

theorem new_running (blocks : BlocksTable τ) (startBlockNumber endBlockNumber : Nat) :
    Running (new blocks startBlockNumber endBlockNumber : BlockRangeIndexer ρ π τ ε)
      fun _ => .waiting where
  placed := new_placed blocks startBlockNumber endBlockNumber
  buffered := fun c blockChunk h => by simp [new] at h
  cursor := Or.inl rfl
  start_le := Nat.le_refl _
  executed := by simp [new]
  front := by simp [new]
  lossless := fun c h => by cases h
  sending := fun task blockChunk h => by cases h
  queue := fun blockChunk h => by cases h
  iter := ⟨0, rfl⟩
  returned := fun task h => by cases h
  parser_ok := fun h => by cases h
  handler_ok := fun h => by cases h

/-- A subtask at work goes on: the facts about the others stay. -/
theorem Running.setSubtask (h : Running s place) {task : Fin BLOCK_PARSER_CONCURRENCY}
    {subtask : Subtask τ ε} {place' : Nat → Place} {iter : Nat}
    {channel : List (BlockChunk τ)} {rpcFetches : List (RpcFetch ρ π ε)}
    {s' : BlockRangeIndexer ρ π τ ε}
    (hs' : s' = { s.setSubtask task subtask with
      blockNumberChunkIter := iter, channel := channel, rpcFetches := rpcFetches })
    (hwork : (s.subtasks task).isOver = false) (hplaced : s'.Placed place')
    (hlost : ∀ c, place' c = .lost → place c = .lost ∨ subtask.isOver ∧ ¬subtask.isReturned)
    (hsending : ∀ blockChunk, subtask = .sending blockChunk →
      ∃ c, s.IsChunk c ∧ blockChunk.Covers c (s.chunkEndBlockNumber c))
    (hqueue : ∀ blockChunk ∈ channel,
      ∃ c, s.IsChunk c ∧ blockChunk.Covers c (s.chunkEndBlockNumber c))
    (hiter : ∃ k, iter = s.startBlockNumber + (BLOCK_PARSER_CHUNK_SIZE + 1) * k)
    (hle : s.blockNumberChunkIter ≤ iter)
    (hreturned : subtask.isReturned → s.endBlockNumber < iter) : Running s' place' := by
  subst hs'
  refine ⟨⟨hplaced, h.buffered, h.cursor, h.start_le, h.executed⟩, h.front, fun c hc => ?_,
    fun i blockChunk hi => ?_, hqueue, hiter, fun i hi => ?_, fun hok => ?_, fun hok => ?_⟩
  · rcases hlost c hc with hl | hl
    · obtain ⟨i, hover, hnot⟩ := h.lossless c hl
      have hne : i ≠ task := fun he => by
        rw [he, hwork] at hover
        cases hover
      exact ⟨i, by simp [BlockRangeIndexer.setSubtask, hne, hover, hnot]⟩
    · exact ⟨task, by simp [BlockRangeIndexer.setSubtask, hl]⟩
  · by_cases hne : i = task
    · subst hne
      exact hsending blockChunk (by simpa [BlockRangeIndexer.setSubtask] using hi)
    · exact h.sending i blockChunk (by simpa [BlockRangeIndexer.setSubtask, hne] using hi)
  · by_cases hne : i = task
    · subst hne
      exact hreturned (by simpa [BlockRangeIndexer.setSubtask] using hi)
    · exact Nat.lt_of_lt_of_le
        (h.returned i (by simpa [BlockRangeIndexer.setSubtask, hne] using hi)) hle
  · have hover := Subtask.isOver_of_isReturned (h.parser_ok hok task)
    rw [hwork] at hover
    cases hover
  · have hover := (h.handler_ok hok).2 task
    rw [hwork] at hover
    cases hover

/-- A subtask that fails or is aborted loses its chunk. -/
theorem Running.lose (h : Running s place) {task : Fin BLOCK_PARSER_CONCURRENCY}
    {subtask : Subtask τ ε} {rpcFetches : List (RpcFetch ρ π ε)}
    (hwork : (s.subtasks task).isOver = false) (hover : subtask.isOver)
    (hnot : ¬subtask.isReturned) :
    ∃ place', Running { s.setSubtask task subtask with rpcFetches := rpcFetches } place' := by
  have hp := h.placed.lose task hover
  refine ⟨_, h.setSubtask rfl hwork
    ⟨hp.waiting, hp.subtask, hp.channel, hp.queued_nodup, hp.buffer, hp.done⟩
    (fun c _ => Or.inr ⟨hover, hnot⟩) (fun blockChunk he => ?_) h.queue h.iter (Nat.le_refl _)
    fun hr => absurd hr hnot⟩
  rw [he] at hover
  cases hover

/-- A subtask that still has, or has not, the chunk it had. -/
theorem Running.keep (h : Running s place) {task : Fin BLOCK_PARSER_CONCURRENCY}
    {subtask : Subtask τ ε} {rpcFetches : List (RpcFetch ρ π ε)}
    (hwork : (s.subtasks task).isOver = false)
    (hkeep : ∀ c, subtask.Holds c ↔ (s.subtasks task).Holds c)
    (hsending : ∀ blockChunk, subtask = .sending blockChunk →
      ∃ c, s.IsChunk c ∧ blockChunk.Covers c (s.chunkEndBlockNumber c))
    (hreturned : subtask.isReturned → s.endBlockNumber < s.blockNumberChunkIter) :
    Running { s.setSubtask task subtask with rpcFetches := rpcFetches } place := by
  have hp := h.placed.keep hkeep
  exact h.setSubtask rfl hwork
    ⟨hp.waiting, hp.subtask, hp.channel, hp.queued_nodup, hp.buffer, hp.done⟩
    (fun c hc => Or.inl hc) hsending h.queue h.iter (Nat.le_refl _) hreturned

theorem Running.next (h : Running s place) {task : Fin BLOCK_PARSER_CONCURRENCY}
    (hidle : s.subtasks task = .idle) : ∃ place', Running (s.next task) place' := by
  have hwork : (s.subtasks task).isOver = false := by rw [hidle]; rfl
  by_cases hle : s.blockNumberChunkIter ≤ s.endBlockNumber
  · obtain ⟨k, hk⟩ := h.iter
    have htaken : s.next task = { s.setSubtask task (.fetching s.blockNumberChunkIter) with
        blockNumberChunkIter := s.blockNumberChunkIter + (BLOCK_PARSER_CHUNK_SIZE + 1)
        channel := s.channel
        rpcFetches := s.rpcFetches } := by
      rw [BlockRangeIndexer.next, if_pos hle]
      rfl
    refine ⟨_, h.setSubtask htaken hwork (h.placed.next hidle hle h.iter) (fun c hc => Or.inl ?_)
      (fun blockChunk he => by cases he) h.queue ⟨k + 1, by rw [hk, Nat.mul_add_one, Nat.add_assoc]⟩ (Nat.le_add_right _ _)
      fun hr => by cases hr⟩
    by_cases hcc : c = s.blockNumberChunkIter
    · rw [hcc, Function.update_self] at hc
      cases hc
    · rwa [Function.update_of_ne hcc] at hc
  · rw [BlockRangeIndexer.next, if_neg hle]
    exact ⟨place, h.keep hwork (fun c => by simp [hidle, Subtask.Holds])
      (fun blockChunk he => by cases he) fun _ => Nat.lt_of_not_le hle⟩

theorem Running.fetch (h : Running s place) {task : Fin BLOCK_PARSER_CONCURRENCY} {c : Nat}
    (hfetching : s.subtasks task = .fetching c) (answers : FetchAnswers ρ π ε) :
    ∃ place', Running (s.fetch dex task c answers) place' := by
  have hwork : (s.subtasks task).isOver = false := by rw [hfetching]; rfl
  have hplace : place c = .subtask task := (h.placed.subtask task c).mp (Or.inl hfetching)
  have hchunk : s.IsChunk c := h.placed.isChunk (by simp [hplace])
  cases hfetch : BlockChunk.fetch dex s.blocks c (s.chunkEndBlockNumber c) answers with
  | error e =>
    simp only [BlockRangeIndexer.fetch, hfetch]
    exact h.lose hwork rfl (by simp [Subtask.isReturned])
  | ok blockChunk =>
    have hcovers := BlockChunk.fetch_covers hchunk.le_chunkEnd hfetch
    have hstart : blockChunk.start? = some c := hcovers.head? hchunk.le_chunkEnd
    simp only [BlockRangeIndexer.fetch, hfetch]
    refine ⟨place, h.keep hwork (fun c' => by simp [hfetching, Subtask.Holds, hstart])
      (fun other he => ?_) fun hr => by cases hr⟩
    cases he
    exact ⟨c, hchunk, hcovers⟩

theorem Running.sent (h : Running s place) {task : Fin BLOCK_PARSER_CONCURRENCY}
    {blockChunk : BlockChunk τ} (hsending : s.subtasks task = .sending blockChunk) :
    ∃ place', Running { s.setSubtask task .idle with channel := s.channel ++ [blockChunk] }
      place' := by
  have hwork : (s.subtasks task).isOver = false := by rw [hsending]; rfl
  obtain ⟨c, hchunk, hcovers⟩ := h.sending task blockChunk hsending
  refine ⟨_, h.setSubtask rfl hwork (h.placed.send hsending (hcovers.head? hchunk.le_chunkEnd))
    (fun c' hc' => Or.inl ?_) (fun other he => by cases he) (fun other hm => ?_) h.iter
    (Nat.le_refl _) fun hr => by cases hr⟩
  · exact (Place.moved_eq_iff (by simp) (by simp)).mp hc'
  · rcases List.mem_append.mp hm with hm | hm
    · exact h.queue other hm
    · rw [List.mem_singleton.mp hm]
      exact ⟨c, hchunk, hcovers⟩

theorem Running.setStatus (h : Running s place) {parser : TaskStatus (ParserError ε)}
    {handler : TaskStatus HandlerError}
    (hparser : parser = .ok → ∀ task, (s.subtasks task).isReturned)
    (hhandler : handler = .ok → s.channel = [] ∧ ∀ task, (s.subtasks task).isOver) :
    Running { s with parser := parser, handler := handler } place := by
  have hp := h.placed
  exact ⟨⟨⟨hp.waiting, hp.subtask, hp.channel, hp.queued_nodup, hp.buffer, hp.done⟩, h.buffered,
    h.cursor, h.start_le, h.executed⟩, h.front, h.lossless, h.sending, h.queue, h.iter, h.returned,
    hparser, hhandler⟩

/-- The handler takes a chunk: it stays in order, and goes on unless it fails. -/
theorem Running.handle (h : Running s place) {blockChunk : BlockChunk τ}
    {channel : List (BlockChunk τ)} (hchannel : s.channel = blockChunk :: channel)
    (hrunning : s.handler = .running) (executes : Nat → Bool) :
    (handle { s with channel := channel } executes blockChunk).InOrder ∧
      ((∀ e, (handle { s with channel := channel } executes blockChunk).handler ≠ .err e) →
        ∃ place', Running (handle { s with channel := channel } executes blockChunk) place' ∧
          ∀ c, blockChunk.start? = some c →
            ∀ c', (place' c').Follows (Function.update place c .done c')) := by
  obtain ⟨c, hchunk, hcovers⟩ := h.queue blockChunk (by simp [hchannel])
  have hstart : blockChunk.start? = some c := hcovers.head? hchunk.le_chunkEnd
  obtain ⟨-, hrecv⟩ := h.placed.recv hchannel hstart
  rcases handleBlockChunk_cases executes blockChunk { s with channel := channel } with
    ⟨n, -, -, hr⟩ | ⟨blocks, -, hr⟩
  · simp only [BlockRangeIndexer.handle, hr]
    exact ⟨h.inOrder, fun hne => absurd rfl (hne _)⟩
  · have hheld : Held { s with channel := channel, blocks := blocks }
        (Function.update place c .lost) :=
      ⟨⟨hrecv.waiting, hrecv.subtask, hrecv.channel, hrecv.queued_nodup, hrecv.buffer,
        hrecv.done⟩, h.buffered, h.cursor, h.start_le, h.executed⟩
    have hout := hheld.executeOrBuffer (by simp) h.front hcovers executes
    simp only [BlockRangeIndexer.handle, hr]
    cases hres : executeOrBuffer executes blockChunk
      { s with channel := channel, blocks := blocks } with
    | error e s' =>
      rw [hres] at hout
      exact ⟨hout, fun hne => absurd rfl (hne _)⟩
    | ok u s' =>
      rw [hres] at hout
      obtain ⟨executed, next, buffer, place', rfl, hheld', hfront, hfollows⟩ := hout
      refine ⟨hheld'.inOrder, fun _ => ⟨place', ⟨hheld', hfront, fun c' hc' => ?_, h.sending,
        fun other hm => h.queue other (by simp [hchannel, hm]), h.iter, h.returned, h.parser_ok,
        fun hok => ?_⟩, fun c' hc' => ?_⟩⟩
      · have hl := (hfollows c').lost hc'
        by_cases hcc : c' = c
        · rw [hcc, Function.update_self] at hl
          cases hl
        · rw [Function.update_of_ne hcc, Function.update_of_ne hcc] at hl
          exact h.lossless c' hl
      · rw [show s.handler = .ok from hok] at hrunning
        cases hrunning
      · cases Option.some.inj (hstart.symm.trans hc')
        simpa using hfollows

/-- The invariant of every run over a range. -/
structure Inv (startBlockNumber endBlockNumber : Nat) (s : BlockRangeIndexer ρ π τ ε) : Prop where
  start_eq : s.startBlockNumber = startBlockNumber
  end_eq : s.endBlockNumber = endBlockNumber
  inOrder : s.InOrder
  running : (∀ e, s.handler ≠ .err e) → ∃ place, s.Running place

theorem new_inv (blocks : BlocksTable τ) (startBlockNumber endBlockNumber : Nat) :
    Inv startBlockNumber endBlockNumber
      (new blocks startBlockNumber endBlockNumber : BlockRangeIndexer ρ π τ ε) :=
  have hrunning := new_running blocks startBlockNumber endBlockNumber
  ⟨rfl, rfl, hrunning.inOrder, fun _ => ⟨_, hrunning⟩⟩

theorem handle_range (executes : Nat → Bool) (blockChunk : BlockChunk τ)
    (s : BlockRangeIndexer ρ π τ ε) :
    (handle s executes blockChunk).startBlockNumber = s.startBlockNumber ∧
      (handle s executes blockChunk).endBlockNumber = s.endBlockNumber := by
  have hdata : ∀ block ∈ blockChunk.data, True := fun _ _ => trivial
  rcases handle_effect (s := s) executes (fun _ _ => trivial) (fun _ _ _ _ _ => trivial) hdata with
    ⟨n, -, -, hr⟩ | ⟨blocks, handler, -, -, ⟨executed, next, buffer, hr⟩, -⟩
  · rw [hr]
    exact ⟨rfl, rfl⟩
  · rw [hr]
    exact ⟨rfl, rfl⟩

theorem step_inv {startBlockNumber endBlockNumber : Nat} {s' : BlockRangeIndexer ρ π τ ε}
    {a : IndexerStep ρ π ε} (h : s.Inv startBlockNumber endBlockNumber)
    (hstep : s.step dex a = some s') : s'.Inv startBlockNumber endBlockNumber := by
  obtain ⟨hstart, hend, hord, hrun⟩ := h
  cases step_case hstep with
  | next task hidle =>
    have hfields : (s.next task).startBlockNumber = s.startBlockNumber ∧
        (s.next task).endBlockNumber = s.endBlockNumber ∧
        (s.next task).executed = s.executed ∧ (s.next task).handler = s.handler := by
      unfold BlockRangeIndexer.next
      split <;> exact ⟨rfl, rfl, rfl, rfl⟩
    obtain ⟨h1, h2, h3, h4⟩ := hfields
    refine ⟨h1.trans hstart, h2.trans hend, by rw [InOrder, h1, h2, h3]; exact hord, fun hne => ?_⟩
    obtain ⟨place, hr⟩ := hrun fun e => h4 ▸ hne e
    exact hr.next hidle
  | fetch task c answers hfetching =>
    refine ⟨hstart, hend, hord, fun hne => ?_⟩
    obtain ⟨place, hr⟩ := hrun hne
    exact hr.fetch hfetching answers
  | sent task blockChunk hsending hrunning =>
    refine ⟨hstart, hend, hord, fun hne => ?_⟩
    obtain ⟨place, hr⟩ := hrun hne
    exact hr.sent hsending
  | unsent task blockChunk hsending =>
    refine ⟨hstart, hend, hord, fun hne => ?_⟩
    obtain ⟨place, hr⟩ := hrun hne
    exact hr.lose (by rw [hsending]; rfl) rfl (by simp [Subtask.isReturned])
  | abort task e hparser hover =>
    refine ⟨hstart, hend, hord, fun hne => ?_⟩
    obtain ⟨place, hr⟩ := hrun hne
    exact hr.lose hover rfl (by simp [Subtask.isReturned])
  | joinNext task e hfailed =>
    refine ⟨hstart, hend, hord, fun hne => ?_⟩
    obtain ⟨place, hr⟩ := hrun hne
    exact ⟨place, hr.setStatus (fun hok => by cases hok) hr.handler_ok⟩
  | joinAll hreturned =>
    refine ⟨hstart, hend, hord, fun hne => ?_⟩
    obtain ⟨place, hr⟩ := hrun hne
    exact ⟨place, hr.setStatus (fun _ => hreturned) hr.handler_ok⟩
  | handle executes blockChunk channel hrunning hchannel =>
    obtain ⟨h1, h2⟩ := handle_range executes blockChunk { s with channel := channel }
    obtain ⟨place, hr⟩ := hrun fun e he => by rw [hrunning] at he; cases he
    obtain ⟨hord', hrun'⟩ := hr.handle hchannel hrunning executes
    refine ⟨h1.trans hstart, h2.trans hend, hord', fun hne => ?_⟩
    obtain ⟨place', hr', -⟩ := hrun' hne
    exact ⟨place', hr'⟩
  | databaseError blockChunk channel hrunning hchannel hrpc =>
    exact ⟨hstart, hend, hord, fun hne => absurd rfl (hne _)⟩
  | close hrunning hchannel hover =>
    refine ⟨hstart, hend, hord, fun hne => ?_⟩
    obtain ⟨place, hr⟩ := hrun fun e he => by rw [hrunning] at he; cases he
    exact ⟨place, hr.setStatus hr.parser_ok fun _ => ⟨hchannel, hover⟩⟩

/-- Once both tasks ended without an error, the handler is past the end. -/
theorem Running.end_lt (h : Running s place) (hhandler : s.handler = .ok)
    (hparser : s.parser = .ok) : s.endBlockNumber < s.nextBlockNumber := by
  have hreturned := h.parser_ok hparser
  obtain ⟨hchannel, hover⟩ := h.handler_ok hhandler
  have hiter := h.returned _ (hreturned ⟨0, by decide⟩)
  have hnotlost : ∀ c, place c ≠ .lost := fun c hl => by
    obtain ⟨task, -, hnot⟩ := h.lossless c hl
    exact hnot (hreturned task)
  have hcases : ∀ c, s.IsChunk c → place c = .buffer ∨ place c = .done := fun c hc => by
    cases hplace : place c with
    | waiting => exact absurd ⟨hc, Nat.lt_of_le_of_lt hc.1 hiter⟩ ((h.placed.waiting c).mpr hplace)
    | subtask task =>
      exact absurd ((h.placed.subtask task c).mpr hplace) (Subtask.not_holds_of_isOver (hover task) c)
    | channel =>
      have hq := (h.placed.channel c).mpr hplace
      simp [queued, hchannel] at hq
    | buffer => exact Or.inl rfl
    | done => exact Or.inr rfl
    | lost => exact absurd hplace (hnotlost c)
  by_contra hle
  have hnext : s.IsChunk s.nextBlockNumber := by
    rcases h.cursor with hc | hc | hc
    · exact ⟨Nat.le_of_not_lt hle, 0, hc⟩
    · omega
    · exact hc
  rcases hcases _ hnext with hb | hd
  · have hget := (h.placed.buffer _).mpr hb
    rw [h.front] at hget
    cases hget
  · exact absurd ((h.placed.done _).mpr hd).2 (lt_irrefl _)

/-- No chunk starts past the end, so none is left in the buffer. -/
theorem Held.chunkBuffer_eq_empty (h : Held s place) (hend : s.endBlockNumber < s.nextBlockNumber) :
    s.chunkBuffer = .empty := by
  refine OrdMap.ext_get? fun c => ?_
  rw [OrdMap.get?_empty]
  cases hget : s.chunkBuffer.get? c with
  | none => rfl
  | some blockChunk =>
    have hplace : place c = .buffer := (h.placed.buffer c).mp (by simp [hget])
    have hchunk : s.IsChunk c := h.placed.isChunk (by simp [hplace])
    exact absurd (Nat.lt_of_lt_of_le hend (h.next_le hget)) (Nat.not_lt_of_le hchunk.1)

/-- The strategy is executed for the first blocks of the range, each once and in order,
and for all of them when `exec` returns without an error. -/
structure ExecutesInOrder (startBlockNumber endBlockNumber : Nat)
    (s : BlockRangeIndexer ρ π τ ε) : Prop where
  ordered : s.executed.map (·.blockNumber) <+:
    List.range' startBlockNumber (endBlockNumber + 1 - startBlockNumber)
  complete : s.result = some (.ok ()) → s.chunkBuffer = .empty ∧
    s.executed.map (·.blockNumber) =
      List.range' startBlockNumber (endBlockNumber + 1 - startBlockNumber)

theorem Inv.executesInOrder {startBlockNumber endBlockNumber : Nat}
    (h : s.Inv startBlockNumber endBlockNumber) :
    s.ExecutesInOrder startBlockNumber endBlockNumber := by
  obtain ⟨rfl, rfl, hord, hrun⟩ := h
  refine ⟨hord, fun hresult => ?_⟩
  obtain ⟨hhandler, hparser⟩ := result_eq_ok hresult
  obtain ⟨place, hr⟩ := hrun fun e => by simp [hhandler]
  have hend := hr.end_lt hhandler hparser
  refine ⟨hr.chunkBuffer_eq_empty hend, ?_⟩
  have hnext : s.nextBlockNumber - s.startBlockNumber =
      s.endBlockNumber + 1 - s.startBlockNumber := by
    rcases hr.cursor with hc | hc | hc
    · omega
    · rw [hc]
    · exact absurd hc.1 (Nat.not_le_of_lt hend)
  rw [hr.executed, hnext]

/-- In every run over a range, whatever is cached in the database, blocks are executed
in order, each exactly once. -/
theorem exec_inOrder (dex : Dex ρ θ π τ) (blocks : BlocksTable τ)
    (startBlockNumber endBlockNumber : Nat) (steps : List (IndexerStep ρ π ε)) :
    (machine dex).Throughout (ExecutesInOrder startBlockNumber endBlockNumber)
      (new blocks startBlockNumber endBlockNumber) steps :=
  Machine.throughout_of_invariant (I := Inv startBlockNumber endBlockNumber)
    (fun _ h => h.executesInOrder) (fun _ _ _ h hstep => step_inv h hstep)
    (new_inv blocks startBlockNumber endBlockNumber)

end BlockRangeIndexer

end Pochtecatl
