import Pochtecatl.BlockRangeIndexer

namespace Pochtecatl

namespace BlockRangeIndexer

variable {ρ θ π τ ε : Type} {s : BlockRangeIndexer ρ π τ ε} {P : Block τ → Prop}
  {executes : Nat → Bool}

/-- The handler executes and buffers blocks that satisfy `P`, and touches nothing else. -/
structure HandlerEffect (s : BlockRangeIndexer ρ π τ ε) (P : Block τ → Prop)
    (t : BlockRangeIndexer ρ π τ ε) : Prop where
  frame : ∃ executed nextBlockNumber chunkBuffer, t = { s with
    executed := executed, nextBlockNumber := nextBlockNumber, chunkBuffer := chunkBuffer }
  executed : ∀ block ∈ t.executed, P block
  buffered : ∀ c blockChunk, t.chunkBuffer.get? c = some blockChunk →
    ∀ block ∈ blockChunk.data, P block

theorem executeBlocks_effect {data : List (Block τ)} (h : ∀ block ∈ data, P block) :
    EStateM.Keeps (HandlerEffect s P) (executeBlocks executes data) := by
  induction data with
  | nil => exact EStateM.Keeps.pure ()
  | cons block data ih =>
    refine EStateM.Keeps.bind (fun t ht => ?_) fun _ => ih fun b hb => h b (by simp [hb])
    obtain ⟨executed, next, buffer, rfl⟩ := ht.frame
    have hcalled : HandlerEffect s P { s with
        executed := executed ++ [block], nextBlockNumber := next, chunkBuffer := buffer } := by
      refine ⟨⟨_, _, _, rfl⟩, fun b hb => ?_, ht.buffered⟩
      rcases List.mem_append.mp hb with hb | hb
      · exact ht.executed b hb
      · rw [List.mem_singleton.mp hb]
        exact h block (by simp)
    simp only [executeStrategyForBlock]
    split <;> exact hcalled

theorem processChunk_effect {data : List (Block τ)} {chunkEnd : Nat}
    (h : ∀ block ∈ data, P block) :
    EStateM.Keeps (HandlerEffect s P) (processChunk executes data chunkEnd) := by
  refine EStateM.Keeps.bind (executeBlocks_effect h) fun _ => EStateM.Keeps.modify fun t ht => ?_
  obtain ⟨executed, next, buffer, rfl⟩ := ht.frame
  exact ⟨⟨_, _, _, rfl⟩, ht.executed, ht.buffered⟩

theorem processBuffered_effect (fuel : Nat) :
    EStateM.Keeps (HandlerEffect s P) (processBuffered executes fuel) := by
  induction fuel with
  | zero => exact EStateM.Keeps.pure ()
  | succ fuel ih =>
    intro t ht
    unfold processBuffered
    rw [EStateM.bind_of_ok (show (get : HandlerM ρ π τ ε _) t = .ok t t from rfl)]
    cases hfirst : t.chunkBuffer.firstEntry with
    | none => exact ht
    | some entry =>
      obtain ⟨c, blockChunk⟩ := entry
      simp only
      split
      next hnext =>
        rw [EStateM.bind_of_ok (show (set _ : HandlerM ρ π τ ε _) t = .ok _ _ from rfl)]
        have hdata := ht.buffered c blockChunk (OrdMap.firstEntry_eq_some_iff.mp hfirst).1
        refine EStateM.Keeps.bind (processChunk_effect hdata) (fun _ => ih) _ ?_
        obtain ⟨executed, next, buffer, rfl⟩ := ht.frame
        refine ⟨⟨_, _, _, rfl⟩, ht.executed, fun c' other hget => ?_⟩
        by_cases hc : c' = c
        · subst hc
          rw [OrdMap.get?_popFirst_self hfirst] at hget
          cases hget
        · rw [OrdMap.get?_popFirst_of_ne hfirst hc] at hget
          exact ht.buffered c' other hget
      next => exact ht

/-- Executing or buffering a chunk, whatever the outcome. -/
theorem executeOrBuffer_effect (executes : Nat → Bool) {blockChunk : BlockChunk τ}
    (hexecuted : ∀ block ∈ s.executed, P block)
    (hbuffered : ∀ c other, s.chunkBuffer.get? c = some other → ∀ block ∈ other.data, P block)
    (h : ∀ block ∈ blockChunk.data, P block) :
    HandlerEffect s P (executeOrBuffer executes blockChunk s).state := by
  have hs : HandlerEffect s P s := ⟨⟨_, _, _, rfl⟩, hexecuted, hbuffered⟩
  unfold executeOrBuffer
  rw [EStateM.bind_of_ok (show (get : HandlerM ρ π τ ε _) s = .ok s s from rfl)]
  cases blockChunk.data.head?.map (·.blockNumber) with
  | none => exact hs
  | some chunkStart =>
    cases blockChunk.data.getLast?.map (·.blockNumber) with
    | none => exact hs
    | some chunkEnd =>
      simp only
      split
      next =>
        exact EStateM.Keeps.bind (processChunk_effect h) (fun _ => processBuffered_effect _) s hs
      next =>
        refine ⟨⟨_, _, _, rfl⟩, hexecuted, fun c' other hget => ?_⟩
        replace hget : (s.chunkBuffer.insert chunkStart blockChunk).get? c' = some other := hget
        rw [OrdMap.get?_insert] at hget
        split at hget
        next =>
          cases Option.some.inj hget
          exact h
        next => exact hbuffered c' other hget

/-- The computation fails only in the execution of a block. -/
def FailsExecuting {α : Type} (x : HandlerM ρ π τ ε α) : Prop :=
  ∀ s e t, x s = .error e t → ∃ n, e = .execute n

theorem FailsExecuting.bind {α β : Type} {x : HandlerM ρ π τ ε α} {f : α → HandlerM ρ π τ ε β}
    (hx : FailsExecuting x) (hf : ∀ a, FailsExecuting (f a)) : FailsExecuting (x >>= f) := by
  intro s e t h
  rcases EStateM.bind_eq_error.mp h with he | ⟨a, u, -, he⟩
  · exact hx s e t he
  · exact hf a u e t he

theorem executeBlocks_fails (data : List (Block τ)) :
    FailsExecuting (executeBlocks executes data : HandlerM ρ π τ ε Unit) := by
  induction data with
  | nil => exact fun s e t h => by cases h
  | cons block data ih =>
    refine FailsExecuting.bind (fun s e t h => ?_) fun _ => ih
    simp only [executeStrategyForBlock] at h
    split at h
    next => cases h
    next =>
      cases h
      exact ⟨block.blockNumber, rfl⟩

theorem processChunk_fails (data : List (Block τ)) (chunkEnd : Nat) :
    FailsExecuting (processChunk executes data chunkEnd : HandlerM ρ π τ ε Unit) :=
  FailsExecuting.bind (executeBlocks_fails data) fun _ _ _ _ h => by cases h

theorem processBuffered_fails (fuel : Nat) :
    FailsExecuting (processBuffered executes fuel : HandlerM ρ π τ ε Unit) := by
  induction fuel with
  | zero => exact fun s e t h => by cases h
  | succ fuel ih =>
    refine FailsExecuting.bind (fun s e t h => by cases h) fun s => ?_
    cases s.chunkBuffer.firstEntry with
    | none => exact fun s e t h => by cases h
    | some entry =>
      obtain ⟨c, blockChunk⟩ := entry
      simp only
      split
      next =>
        exact FailsExecuting.bind (fun s e t h => by cases h) fun _ =>
          FailsExecuting.bind (processChunk_fails _ _) fun _ => ih
      next => exact fun s e t h => by cases h

theorem executeOrBuffer_fails (blockChunk : BlockChunk τ) :
    FailsExecuting (executeOrBuffer executes blockChunk : HandlerM ρ π τ ε Unit) := by
  refine FailsExecuting.bind (fun s e t h => by cases h) fun s => ?_
  cases blockChunk.data.head?.map (·.blockNumber) with
  | none => exact fun s e t h => by cases h
  | some chunkStart =>
    cases blockChunk.data.getLast?.map (·.blockNumber) with
    | none => exact fun s e t h => by cases h
    | some chunkEnd =>
      simp only
      split
      next => exact FailsExecuting.bind (processChunk_fails _ _) fun _ => processBuffered_fails _
      next => exact fun s e t h => by cases h

/-- What taking a chunk does: a chunk of the node is written whole before its blocks are
executed or buffered, or it is not written and the handler fails. -/
theorem handle_effect (executes : Nat → Bool) {blockChunk : BlockChunk τ}
    (hexecuted : ∀ block ∈ s.executed, P block)
    (hbuffered : ∀ c other, s.chunkBuffer.get? c = some other → ∀ block ∈ other.data, P block)
    (h : ∀ block ∈ blockChunk.data, P block) :
    (∃ n, blockChunk.source = .rpc ∧ s.blocks.insertBlocks blockChunk.data = .error n ∧
      handle s executes blockChunk = { s with handler := .err (.insert n) }) ∨
      ∃ blocks handler, (blockChunk.source = .db ∧ blocks = s.blocks ∨
          blockChunk.source = .rpc ∧ s.blocks.insertBlocks blockChunk.data = .ok blocks) ∧
        (handler = s.handler ∨ ∃ n, handler = .err (.execute n)) ∧
        HandlerEffect { s with blocks := blocks, handler := handler } P
          (handle s executes blockChunk) := by
  rcases handleBlockChunk_cases executes blockChunk s with ⟨n, hrpc, hinsert, hr⟩ | ⟨blocks, hb, hr⟩
  · exact Or.inl ⟨n, hrpc, hinsert, by simp only [handle, hr]⟩
  · have heffect := executeOrBuffer_effect (s := { s with blocks := blocks }) executes hexecuted
      hbuffered h
    refine Or.inr ⟨blocks, ?_⟩
    simp only [handle, hr]
    cases hres : executeOrBuffer executes blockChunk { s with blocks := blocks } with
    | ok u t =>
      rw [hres] at heffect
      exact ⟨s.handler, hb, Or.inl rfl, heffect⟩
    | error e t =>
      rw [hres] at heffect
      obtain ⟨n, rfl⟩ := executeOrBuffer_fails blockChunk _ _ _ hres
      obtain ⟨⟨executed, next, buffer, rfl⟩, hexecuted', hbuffered'⟩ := heffect
      exact ⟨.err (.execute n), hb, Or.inr ⟨n, rfl⟩, ⟨_, _, _, rfl⟩, hexecuted', hbuffered'⟩

/-- The handler leaves the other tasks and the channel alone. -/
theorem handle_tasks (executes : Nat → Bool) (blockChunk : BlockChunk τ)
    (s : BlockRangeIndexer ρ π τ ε) :
    (handle s executes blockChunk).subtasks = s.subtasks ∧
      (handle s executes blockChunk).parser = s.parser ∧
      (handle s executes blockChunk).channel = s.channel := by
  have hdata : ∀ block ∈ blockChunk.data, True := fun _ _ => trivial
  rcases handle_effect (s := s) executes (fun _ _ => trivial) (fun _ _ _ _ _ => trivial) hdata with
    ⟨n, -, -, hr⟩ | ⟨blocks, handler, -, -, ⟨executed, next, buffer, hr⟩, -⟩
  · rw [hr]
    exact ⟨rfl, rfl, rfl⟩
  · rw [hr]
    exact ⟨rfl, rfl, rfl⟩

/-- The chunk is on its way from a fetch to the handler. -/
def InFlight (s : BlockRangeIndexer ρ π τ ε) (blockChunk : BlockChunk τ) : Prop :=
  (∃ task, s.subtasks task = .sending blockChunk) ∨ blockChunk ∈ s.channel

theorem not_inFlight_new (blocks : BlocksTable τ) (startBlockNumber endBlockNumber : Nat)
    (blockChunk : BlockChunk τ) : ¬(new blocks startBlockNumber endBlockNumber :
      BlockRangeIndexer ρ π τ ε).InFlight blockChunk := by
  rintro (⟨task, h⟩ | h)
  · cases h
  · cases h

/-- After an update of one subtask, a chunk is sent by it or by another one. -/
theorem inFlight_of_update {task task' : Fin BLOCK_PARSER_CONCURRENCY} {subtask : Subtask τ ε}
    {blockChunk : BlockChunk τ}
    (h : Function.update s.subtasks task subtask task' = .sending blockChunk) :
    subtask = .sending blockChunk ∨ s.InFlight blockChunk := by
  by_cases ht : task' = task
  · rw [ht, Function.update_self] at h
    exact .inl h
  · rw [Function.update_of_ne ht] at h
    exact .inr (.inl ⟨task', h⟩)

/-- A chunk sets out when it is fetched. -/
theorem step_inFlight {dex : Dex ρ θ π τ} {s' : BlockRangeIndexer ρ π τ ε} {a : IndexerStep ρ π ε}
    (hstep : s.step dex a = some s') {blockChunk : BlockChunk τ} (h : s'.InFlight blockChunk) :
    s.InFlight blockChunk ∨ ∃ task c answers, a = .fetch task answers ∧
      s.subtasks task = .fetching c ∧
      BlockChunk.fetch dex s.blocks c (s.chunkEndBlockNumber c) answers = .ok blockChunk := by
  cases step_case hstep with
  | next task hidle =>
    unfold BlockRangeIndexer.next at h
    split at h
    next =>
      rcases h with ⟨task', hsending⟩ | hqueue
      · exact .inl ((inFlight_of_update hsending).resolve_left fun he => by cases he)
      · exact .inl (.inr hqueue)
    next =>
      rcases h with ⟨task', hsending⟩ | hqueue
      · exact .inl ((inFlight_of_update hsending).resolve_left fun he => by cases he)
      · exact .inl (.inr hqueue)
  | fetch task c answers hfetching =>
    rcases h with ⟨task', hsending⟩ | hqueue
    · rcases inFlight_of_update hsending with he | hold
      · refine .inr ⟨task, c, answers, rfl, hfetching, ?_⟩
        cases hfetch : BlockChunk.fetch dex s.blocks c (s.chunkEndBlockNumber c) answers with
        | error e =>
          rw [hfetch] at he
          cases he
        | ok fetched =>
          rw [hfetch] at he
          cases he
          rfl
      · exact .inl hold
    · exact .inl (.inr hqueue)
  | sent task sent hsending hrunning =>
    rcases h with ⟨task', hsending'⟩ | hqueue
    · exact .inl ((inFlight_of_update hsending').resolve_left fun he => by cases he)
    · rcases List.mem_append.mp hqueue with hqueue | hnew
      · exact .inl (.inr hqueue)
      · rw [List.mem_singleton.mp hnew]
        exact .inl (.inl ⟨task, hsending⟩)
  | unsent task _ _ | abort task _ _ _ =>
    rcases h with ⟨task', hsending'⟩ | hqueue
    · exact .inl ((inFlight_of_update hsending').resolve_left fun he => by cases he)
    · exact .inl (.inr hqueue)
  | handle executes taken channel hrunning hchannel =>
    obtain ⟨hsubtasks, -, hrest⟩ := handle_tasks executes taken { s with channel := channel }
    rw [InFlight, hsubtasks, hrest] at h
    exact .inl (h.imp_right fun hqueue => hchannel ▸ List.mem_cons_of_mem _ hqueue)
  | databaseError taken channel hrunning hchannel _ =>
    exact .inl (h.imp_right fun hqueue => hchannel ▸ List.mem_cons_of_mem _ hqueue)
  | joinNext | joinAll | close => exact .inl h

end BlockRangeIndexer

end Pochtecatl
