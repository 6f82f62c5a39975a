import Mathlib.Algebra.BigOperators.Group.Finset.Basic
import Mathlib.Data.Fintype.Card
import Pochtecatl.BlockCache

namespace Pochtecatl

/-- How many steps a fetch task may still take, with those of its chunk. -/
def Subtask.stepsLeft {τ ε : Type} : Subtask τ ε → Nat
  | .idle => 1
  | .fetching _ => 4
  | .sending _ => 3
  | .returned | .failed _ | .aborted => 0

theorem Subtask.stepsLeft_pos {τ ε : Type} {subtask : Subtask τ ε} (h : subtask.isOver = false) :
    0 < subtask.stepsLeft := by
  cases subtask <;> first | exact Nat.succ_pos _ | cases h

def TaskStatus.stepsLeft {ε : Type} : TaskStatus ε → Nat
  | .running => 1
  | .ok | .err _ => 0

namespace BlockRangeIndexer

variable {ρ θ π τ ε : Type} {s s' : BlockRangeIndexer ρ π τ ε} {dex : Dex ρ θ π τ}

/-- The number of chunks from a block on. -/
def chunkCount (startBlockNumber endBlockNumber : Nat) : Nat :=
  (endBlockNumber + 1 - startBlockNumber + BLOCK_PARSER_CHUNK_SIZE) / (BLOCK_PARSER_CHUNK_SIZE + 1)

def stepsLeft (s : BlockRangeIndexer ρ π τ ε) : Nat :=
  4 * chunkCount s.blockNumberChunkIter s.endBlockNumber + ∑ task, (s.subtasks task).stepsLeft +
    s.channel.length + s.parser.stepsLeft + s.handler.stepsLeft

theorem chunkCount_of_le {startBlockNumber endBlockNumber : Nat}
    (h : startBlockNumber ≤ endBlockNumber) :
    chunkCount startBlockNumber endBlockNumber =
      chunkCount (startBlockNumber + (BLOCK_PARSER_CHUNK_SIZE + 1)) endBlockNumber + 1 := by
  unfold chunkCount BLOCK_PARSER_CHUNK_SIZE
  omega

theorem sum_setSubtask (s : BlockRangeIndexer ρ π τ ε) (task : Fin BLOCK_PARSER_CONCURRENCY)
    (subtask : Subtask τ ε) :
    (∑ i, ((s.setSubtask task subtask).subtasks i).stepsLeft) + (s.subtasks task).stepsLeft =
      (∑ i, (s.subtasks i).stepsLeft) + subtask.stepsLeft := by
  have hrest : ∑ i ∈ Finset.univ.erase task,
      ((s.setSubtask task subtask).subtasks i).stepsLeft =
        ∑ i ∈ Finset.univ.erase task, (s.subtasks i).stepsLeft := by
    refine Finset.sum_congr rfl fun i hi => ?_
    exact congrArg Subtask.stepsLeft (Function.update_of_ne (Finset.ne_of_mem_erase hi) _ _)
  have hself : ((s.setSubtask task subtask).subtasks task).stepsLeft = subtask.stepsLeft :=
    congrArg Subtask.stepsLeft (Function.update_self _ _ _)
  rw [← Finset.add_sum_erase _ _ (Finset.mem_univ task), hrest, hself,
    ← Finset.add_sum_erase _ (fun i => (s.subtasks i).stepsLeft) (Finset.mem_univ task)]
  omega

theorem handle_stepsLeft (executes : Nat → Bool) (blockChunk : BlockChunk τ)
    (s : BlockRangeIndexer ρ π τ ε) :
    (handle s executes blockChunk).stepsLeft ≤ s.stepsLeft := by
  have hdata : ∀ block ∈ blockChunk.data, True := fun _ _ => trivial
  have hstatus : ∀ e : HandlerError, (TaskStatus.err e).stepsLeft ≤ s.handler.stepsLeft :=
    fun e => Nat.zero_le _
  rcases handle_effect (s := s) executes (fun _ _ => trivial) (fun _ _ _ _ _ => trivial) hdata with
    ⟨n, -, -, hr⟩ | ⟨blocks, handler, -, hhandler, ⟨executed, next, buffer, hr⟩, -⟩
  · rw [hr]
    have hle := hstatus (.insert n)
    simp only [stepsLeft]
    omega
  · rw [hr]
    have hle : handler.stepsLeft ≤ s.handler.stepsLeft := by
      rcases hhandler with rfl | ⟨n, rfl⟩
      · exact Nat.le_refl _
      · exact hstatus (.execute n)
    simp only [stepsLeft]
    omega

/-- A step of a task that is not over and leaves it with less to do. -/
theorem stepsLeft_setSubtask {task : Fin BLOCK_PARSER_CONCURRENCY} {subtask : Subtask τ ε}
    (h : subtask.stepsLeft < (s.subtasks task).stepsLeft) :
    (s.setSubtask task subtask).stepsLeft < s.stepsLeft := by
  have hsum := sum_setSubtask s task subtask
  simp only [stepsLeft, setSubtask] at hsum ⊢
  omega

/-- The task that joins the subtasks ends only once. -/
theorem parser_of_join {a : IndexerStep ρ π ε} (ha : a = .joinAll ∨ ∃ task, a = .joinNext task)
    (hstep : s.step dex a = some s') : s.parser = .running := by
  rcases ha with rfl | ⟨task, rfl⟩
  · simp only [step] at hstep
    split at hstep
    next hjoin => exact TaskStatus.eq_running hjoin.1
    next => simp at hstep
  · simp only [step] at hstep
    split at hstep
    next e hparser hfailed => exact hparser
    next => simp at hstep

/-- Every step uses one up. -/
theorem step_stepsLeft {a : IndexerStep ρ π ε} (hstep : s.step dex a = some s') :
    s'.stepsLeft < s.stepsLeft := by
  cases step_case hstep with
  | next task hidle =>
    unfold BlockRangeIndexer.next
    split
    next hle =>
      have hsum := sum_setSubtask s task (.fetching s.blockNumberChunkIter)
      have hchunks := chunkCount_of_le hle
      simp only [stepsLeft, setSubtask, hidle, Subtask.stepsLeft] at hsum ⊢
      omega
    next => exact stepsLeft_setSubtask (by rw [hidle]; exact Nat.zero_lt_one)
  | fetch task chunkStart answers hfetching =>
    have hlt : ∀ subtask : Subtask τ ε, subtask.stepsLeft < 4 →
        ∀ fetches : List (RpcFetch ρ π ε),
        stepsLeft { s.setSubtask task subtask with rpcFetches := fetches } < s.stepsLeft := by
      intro subtask h fetches
      have hsum := sum_setSubtask s task subtask
      have hfour : (s.subtasks task).stepsLeft = 4 := by
        rw [hfetching]
        rfl
      simp only [stepsLeft, setSubtask] at hsum ⊢
      omega
    unfold BlockRangeIndexer.fetch
    refine hlt _ ?_ _
    split
    next => exact Nat.lt_succ_self 3
    next => exact Nat.zero_lt_succ 3
  | sent task blockChunk hsending hhandler =>
    have hsum := sum_setSubtask s task (.idle : Subtask τ ε)
    simp only [stepsLeft, setSubtask, hsending, Subtask.stepsLeft, List.length_append,
      List.length_singleton] at hsum ⊢
    omega
  | unsent task blockChunk hsending =>
    exact stepsLeft_setSubtask (by rw [hsending]; exact Nat.succ_pos _)
  | abort task e hparser hover =>
    exact stepsLeft_setSubtask (Subtask.stepsLeft_pos hover)
  | joinNext task e hfailed =>
    have hparser := parser_of_join (Or.inr ⟨task, rfl⟩) hstep
    simp only [stepsLeft, hparser, TaskStatus.stepsLeft]
    omega
  | joinAll hreturned =>
    have hparser := parser_of_join (Or.inl rfl) hstep
    simp only [stepsLeft, hparser, TaskStatus.stepsLeft]
    omega
  | handle executes blockChunk channel hhandler hchannel =>
    refine Nat.lt_of_le_of_lt (handle_stepsLeft executes blockChunk _) ?_
    simp only [stepsLeft, hchannel, List.length_cons]
    omega
  | databaseError blockChunk channel hhandler hchannel hrpc =>
    simp only [stepsLeft, hchannel, List.length_cons, TaskStatus.stepsLeft]
    omega
  | close hhandler hchannel hover =>
    simp only [stepsLeft, hhandler, TaskStatus.stepsLeft]
    omega

/-- The tasks end in this order: the parser once all its subtasks returned, a subtask is
aborted once the parser failed. -/
structure EndsInOrder (s : BlockRangeIndexer ρ π τ ε) : Prop where
  parser_ok : s.parser = .ok → ∀ task, (s.subtasks task).isReturned
  aborted : ∀ task, s.subtasks task = .aborted → ∃ e, s.parser = .err e

theorem EndsInOrder.setSubtask (h : s.EndsInOrder) {task : Fin BLOCK_PARSER_CONCURRENCY}
    {subtask : Subtask τ ε} (hwork : s.parser = .ok → ¬(s.subtasks task).isReturned)
    (habort : subtask = .aborted → ∃ e, s.parser = .err e) :
    (s.setSubtask task subtask).EndsInOrder := by
  refine ⟨fun hok => absurd (h.parser_ok hok task) (hwork hok), fun i hi => ?_⟩
  by_cases hit : i = task
  · subst hit
    exact habort (by simpa [BlockRangeIndexer.setSubtask] using hi)
  · exact h.aborted i (by simpa [BlockRangeIndexer.setSubtask, hit] using hi)

theorem EndsInOrder.frame (h : s.EndsInOrder) (hsubtasks : s'.subtasks = s.subtasks)
    (hparser : s'.parser = s.parser) : s'.EndsInOrder :=
  ⟨fun hok => hsubtasks ▸ h.parser_ok (hparser ▸ hok), fun task ht => by
    rw [hparser]
    exact h.aborted task (hsubtasks ▸ ht)⟩

theorem new_endsInOrder (blocks : BlocksTable τ) (startBlockNumber endBlockNumber : Nat) :
    (new blocks startBlockNumber endBlockNumber : BlockRangeIndexer ρ π τ ε).EndsInOrder :=
  ⟨fun h => by (cases h), fun task h => by cases h⟩

theorem step_endsInOrder {a : IndexerStep ρ π ε} (h : s.EndsInOrder)
    (hstep : s.step dex a = some s') : s'.EndsInOrder := by
  cases step_case hstep with
  | next task hidle =>
    have hset : ∀ subtask : Subtask τ ε, subtask ≠ .aborted →
        (s.setSubtask task subtask).EndsInOrder := fun subtask hne =>
      h.setSubtask (fun _ => by simp [hidle, Subtask.isReturned]) fun he => absurd he hne
    unfold BlockRangeIndexer.next
    split
    next => exact (hset (.fetching _) (by simp)).frame rfl rfl
    next => exact hset .returned (by simp)
  | fetch task chunkStart answers hfetching =>
    have hset : ∀ subtask : Subtask τ ε, subtask ≠ .aborted →
        (s.setSubtask task subtask).EndsInOrder := fun subtask hne =>
      h.setSubtask (fun _ => by simp [hfetching, Subtask.isReturned]) fun he => absurd he hne
    unfold BlockRangeIndexer.fetch
    refine (hset _ ?_).frame rfl rfl
    split <;> simp
  | sent task blockChunk hsending hhandler =>
    have hset : (s.setSubtask task .idle).EndsInOrder :=
      h.setSubtask (fun _ => by simp [hsending, Subtask.isReturned]) fun he => by cases he
    exact hset.frame rfl rfl
  | unsent task blockChunk hsending =>
    exact h.setSubtask (fun _ => by simp [hsending, Subtask.isReturned]) fun he => by cases he
  | abort task e hparser hover =>
    refine h.setSubtask (fun hok => ?_) fun _ => ⟨e, hparser⟩
    rw [hparser] at hok
    cases hok
  | joinNext task e hfailed =>
    exact ⟨fun hok => by (cases hok), fun i hi => ⟨e, rfl⟩⟩
  | joinAll hreturned =>
    refine ⟨fun _ => hreturned, fun i hi => ?_⟩
    have hr := hreturned i
    rw [show s.subtasks i = .aborted from hi] at hr
    cases hr
  | handle executes blockChunk channel hhandler hchannel =>
    obtain ⟨hsubtasks, hparser, -⟩ := handle_tasks executes blockChunk { s with channel := channel }
    exact h.frame hsubtasks hparser
  | databaseError blockChunk channel hhandler hchannel hrpc => exact h.frame rfl rfl
  | close hhandler hchannel hover => exact h.frame rfl rfl

/-- What keeps a subtask going, while a full channel is emptied by the handler. -/
theorem subtask_enabled (dex : Dex ρ θ π τ) (answers : FetchAnswers ρ π ε) (executes : Nat → Bool)
    {task : Fin BLOCK_PARSER_CONCURRENCY} (hover : (s.subtasks task).isOver = false) :
    ∃ a ∈ [.next task, .fetch task answers, .send task, .handle executes],
      ∃ s', s.step dex a = some s' := by
  cases htask : s.subtasks task with
  | idle => exact ⟨.next task, by simp, s.next task, by simp only [step, htask]⟩
  | fetching c =>
    exact ⟨.fetch task answers, by simp, s.fetch dex task c answers, by simp only [step, htask]⟩
  | sending blockChunk =>
    by_cases hhandler : s.handler.isRunning
    · cases hchannel : s.channel with
      | nil =>
        have hroom : s.channel.length < PARSED_BLOCK_CHANNEL_CAPACITY := by
          rw [hchannel]
          exact Nat.succ_pos _
        refine ⟨.send task, by simp,
          { s.setSubtask task .idle with channel := s.channel ++ [blockChunk] }, ?_⟩
        simp only [step, htask, send, hhandler, hroom, if_true]
      | cons first channel =>
        refine ⟨.handle executes, by simp, handle { s with channel := channel } executes first, ?_⟩
        simp only [step, TaskStatus.eq_running hhandler, hchannel]
    · refine ⟨.send task, by simp, s.setSubtask task (.failed .blockChunkSender), ?_⟩
      simp only [step, htask, send, hhandler, Bool.false_eq_true, if_false]
  | returned | failed e | aborted =>
    rw [htask] at hover
    cases hover

/-- Until `exec` has a result, some task can take a step, whatever the node answers and the
strategy makes of the blocks. -/
theorem EndsInOrder.enabled (h : s.EndsInOrder) (dex : Dex ρ θ π τ) (answers : FetchAnswers ρ π ε)
    (executes : Nat → Bool) (hresult : s.result = none) :
    ∃ a s', s.step dex a = some s' ∧ a ≠ .databaseError ∧
      (∀ task other, a = .fetch task other → other = answers) ∧
      ∀ other, a = .handle other → other = executes := by
  by_cases hover : ∀ task, (s.subtasks task).isOver
  · cases hparser : s.parser with
    | running =>
      by_cases hreturned : ∀ task, (s.subtasks task).isReturned
      · exact ⟨.joinAll, { s with parser := .ok }, if_pos ⟨by simp [hparser, TaskStatus.isRunning],
          hreturned⟩, by simp⟩
      · obtain ⟨task, htask⟩ := not_forall.mp hreturned
        have hend := hover task
        cases hsubtask : s.subtasks task with
        | failed e =>
          refine ⟨.joinNext task, { s with parser := .err e }, ?_, by simp⟩
          simp only [step, hparser, hsubtask]
        | aborted =>
          obtain ⟨e, he⟩ := h.aborted task hsubtask
          rw [hparser] at he
          cases he
        | returned => exact absurd (by rw [hsubtask]; rfl) htask
        | idle | fetching c | sending b =>
          rw [hsubtask] at hend
          cases hend
    | ok | err e =>
      have hhandler : s.handler = .running := by
        cases hh : s.handler with
        | running => rfl
        | ok | err e => simp [result, hparser, hh] at hresult
      cases hchannel : s.channel with
      | cons first channel =>
        refine ⟨.handle executes, handle { s with channel := channel } executes first, ?_,
          by simp⟩
        simp only [step, hhandler, hchannel]
      | nil =>
        refine ⟨.close, { s with handler := .ok }, if_pos ?_, by simp⟩
        simp [hhandler, hchannel, hparser, TaskStatus.isRunning, hover]
  · obtain ⟨task, htask⟩ := not_forall.mp hover
    obtain ⟨a, ha, s', hs'⟩ :=
      subtask_enabled dex answers executes (Bool.eq_false_iff.mpr htask)
    refine ⟨a, s', hs', ?_⟩
    simp only [List.mem_cons, List.not_mem_nil, or_false] at ha
    rcases ha with rfl | rfl | rfl | rfl <;> simp

/-- Whatever the node answers, and in whatever order the tasks take their steps, `exec` returns:
no run is longer than four steps for a chunk, and one that has no result yet can go on. -/
theorem exec_returns (dex : Dex ρ θ π τ) (blocks : BlocksTable τ)
    (startBlockNumber endBlockNumber : Nat) (answers : FetchAnswers ρ π ε) :
    (machine dex).Inevitably (fun _ _ _ => True) (fun s => s.result.isSome)
        (new blocks startBlockNumber endBlockNumber : BlockRangeIndexer ρ π τ ε) ∧
      ∀ (steps : List (IndexerStep ρ π ε)) (s : BlockRangeIndexer ρ π τ ε),
        (machine dex).run (new blocks startBlockNumber endBlockNumber) steps = some s →
        steps.length ≤ 4 * chunkCount startBlockNumber endBlockNumber +
          (BLOCK_PARSER_CONCURRENCY + 2) := by
  have hstep : ∀ (s : BlockRangeIndexer ρ π τ ε) a s', s.EndsInOrder →
      (machine dex).step s a = some s' → True → s'.EndsInOrder ∧ s'.stepsLeft < s.stepsLeft :=
    fun s a s' h hs _ => ⟨step_endsInOrder h hs, step_stepsLeft hs⟩
  have hnew := new_endsInOrder (ρ := ρ) (π := π) (ε := ε) blocks startBlockNumber endBlockNumber
  refine ⟨Machine.inevitably_of_measure hstep (fun s h hresult => ?_) hnew, fun steps s hrun => ?_⟩
  · obtain ⟨a, s', hs', -⟩ := h.enabled dex answers (fun _ => true)
      (Option.not_isSome_iff_eq_none.mp hresult)
    exact ⟨a, s', hs', trivial⟩
  · have hlength := Machine.run_length_le hstep
      (Machine.along_of_forall fun _ _ _ _ => trivial) hrun hnew
    have hleft : (new blocks startBlockNumber endBlockNumber :
        BlockRangeIndexer ρ π τ ε).stepsLeft =
          4 * chunkCount startBlockNumber endBlockNumber + (BLOCK_PARSER_CONCURRENCY + 2) := by
      simp [stepsLeft, new, Subtask.stepsLeft, TaskStatus.stepsLeft, Nat.add_assoc,
        Finset.card_univ]
    omega

section Completion

variable {executes : Nat → Bool} {initial : BlocksTable τ}

theorem executeBlocks_returns (h : ∀ n, executes n) (data : List (Block τ)) :
    EStateM.Returns (executeBlocks executes data : HandlerM ρ π τ ε Unit) := by
  induction data with
  | nil => exact EStateM.Returns.pure ()
  | cons block data ih =>
    exact EStateM.Returns.bind (fun s => ⟨(), _, if_pos (h block.blockNumber)⟩) fun _ => ih

theorem processChunk_returns (h : ∀ n, executes n) (data : List (Block τ)) (chunkEnd : Nat) :
    EStateM.Returns (processChunk executes data chunkEnd : HandlerM ρ π τ ε Unit) :=
  (executeBlocks_returns h data).bind fun _ => EStateM.Returns.modify _

theorem processBuffered_returns (h : ∀ n, executes n) (fuel : Nat) :
    EStateM.Returns (processBuffered executes fuel : HandlerM ρ π τ ε Unit) := by
  induction fuel with
  | zero => exact EStateM.Returns.pure ()
  | succ fuel ih =>
    refine EStateM.Returns.get.bind fun s => ?_
    cases s.chunkBuffer.firstEntry with
    | none => exact EStateM.Returns.pure ()
    | some entry =>
      obtain ⟨c, blockChunk⟩ := entry
      simp only
      split
      next =>
        exact (EStateM.Returns.set _).bind fun _ =>
          (processChunk_returns h _ _).bind fun _ => ih
      next => exact EStateM.Returns.pure ()

/-- A strategy that executes every block never fails the handler. -/
theorem executeOrBuffer_returns (h : ∀ n, executes n) (blockChunk : BlockChunk τ) :
    EStateM.Returns (executeOrBuffer executes blockChunk : HandlerM ρ π τ ε Unit) := by
  refine EStateM.Returns.get.bind fun s => ?_
  cases blockChunk.data.head?.map (·.blockNumber) with
  | none => exact EStateM.Returns.pure ()
  | some chunkStart =>
    cases blockChunk.data.getLast?.map (·.blockNumber) with
    | none => exact EStateM.Returns.pure ()
    | some chunkEnd =>
      simp only
      split
      next => exact (processChunk_returns h _ _).bind fun _ => processBuffered_returns h _
      next => exact EStateM.Returns.set _

/-- Nothing outside fails in the step: the database can be read, the node's answers make a chunk,
the chunk can be written and the strategy executes every block. -/
def Succeeds (dex : Dex ρ θ π τ) (s : BlockRangeIndexer ρ π τ ε) (a : IndexerStep ρ π ε)
    (_ : BlockRangeIndexer ρ π τ ε) : Prop :=
  match a with
  | .fetch task answers => answers.readsDb ∧ ∀ c, s.subtasks task = .fetching c → ∃ blockChunk,
      BlockChunk.fetch dex s.blocks c (s.chunkEndBlockNumber c) answers = .ok blockChunk
  | .handle executes => ∀ n, executes n
  | .databaseError => False
  | _ => True

/-- No task has failed, and the table takes every chunk of the range. -/
structure Unfailing (initial : BlocksTable τ) (startBlockNumber endBlockNumber : Nat)
    (s : BlockRangeIndexer ρ π τ ε) : Prop
    extends CacheInv initial startBlockNumber endBlockNumber s, EndsInOrder s where
  whole : ∀ c, s.IsChunk c → CachedWhole initial s c
  read : ∀ blockChunk, s.InFlight blockChunk → ∀ c, blockChunk.start? = some c →
    BlockChunk.Cached initial c (s.chunkEndBlockNumber c) → blockChunk.source = .db
  handler : ∀ e, s.handler ≠ .err e
  parser : ∀ e, s.parser ≠ .err e
  subtasks : ∀ task e, s.subtasks task ≠ .failed e

variable {startBlockNumber endBlockNumber : Nat}

theorem Unfailing.setSubtask (h : s.Unfailing initial startBlockNumber endBlockNumber)
    {task : Fin BLOCK_PARSER_CONCURRENCY} {subtask : Subtask τ ε} (hne : ∀ e, subtask ≠ .failed e)
    (i : Fin BLOCK_PARSER_CONCURRENCY) (e : ParserError ε) :
    Function.update s.subtasks task subtask i ≠ .failed e := by
  by_cases hi : i = task
  · rw [hi, Function.update_self]
    exact hne e
  · rw [Function.update_of_ne hi]
    exact h.subtasks i e

theorem Unfailing.takesWhole (h : s.Unfailing initial startBlockNumber endBlockNumber)
    (a : IndexerStep ρ π ε) : TakesWhole initial s a s' := by
  intro executes blockChunk channel c _ hchannel hstart
  obtain ⟨place, hr⟩ := h.running h.handler
  obtain ⟨c', hchunk, hcovers⟩ := hr.queue blockChunk (by simp [hchannel])
  cases Option.some.inj (hstart.symm.trans (hcovers.head? hchunk.le_chunkEnd))
  refine (h.whole c hchunk).imp_right fun hcached => ⟨hcached, ?_⟩
  exact h.read blockChunk (.inr (by simp [hchannel])) c hstart hcached

/-- A fetched chunk is one of the range that the handler has not taken. -/
theorem Unfailing.isChunk_of_fetching (h : s.Unfailing initial startBlockNumber endBlockNumber)
    {task : Fin BLOCK_PARSER_CONCURRENCY} {c : Nat} (hfetching : s.subtasks task = .fetching c) :
    s.IsChunk c ∧ ¬s.Handled c := by
  obtain ⟨place, hr⟩ := h.running h.handler
  have hplace : place c = .subtask task := (hr.placed.subtask task c).mp (.inl hfetching)
  have hchunk : s.IsChunk c := hr.placed.isChunk (by simp [hplace])
  refine ⟨hchunk, ?_⟩
  rw [hr.placed.handled_iff hchunk, hplace]
  simp [Place.handled]

/-- A subtask with a chunk to send finds the channel open. -/
theorem Unfailing.handler_running (h : s.Unfailing initial startBlockNumber endBlockNumber)
    {task : Fin BLOCK_PARSER_CONCURRENCY} {blockChunk : BlockChunk τ}
    (hsending : s.subtasks task = .sending blockChunk) : s.handler = .running := by
  obtain ⟨place, hr⟩ := h.running h.handler
  cases hhandler : s.handler with
  | running => rfl
  | ok =>
    have hover := (hr.handler_ok hhandler).2 task
    rw [hsending] at hover
    cases hover
  | err e => exact absurd hhandler (h.handler e)

theorem Unfailing.handle (h : s.Unfailing initial startBlockNumber endBlockNumber)
    {blockChunk : BlockChunk τ} {channel : List (BlockChunk τ)} (hrunning : s.handler = .running)
    (hchannel : s.channel = blockChunk :: channel) (hexecutes : ∀ n, executes n) (e : HandlerError) :
    (handle { s with channel := channel } executes blockChunk).handler ≠ .err e := by
  obtain ⟨place, hr⟩ := h.running h.handler
  obtain ⟨c, hchunk, hcovers⟩ := hr.queue blockChunk (by simp [hchannel])
  have hstart := hcovers.head? hchunk.le_chunkEnd
  rcases handleBlockChunk_cases executes blockChunk { s with channel := channel } with
    ⟨n, hrpc, hinsert, -⟩ | ⟨blocks, -, hr'⟩
  · have hnone := (h.whole c hchunk).resolve_right fun hcached => by
      have hdb := h.read blockChunk (.inr (by simp [hchannel])) c hstart hcached
      rw [show blockChunk.source = .rpc from hrpc] at hdb
      cases hdb
    obtain ⟨blocks, hok⟩ := (h.insertBlocks hrunning hchannel hstart).mp hnone
    rw [show s.blocks.insertBlocks blockChunk.data = .error n from hinsert] at hok
    cases hok
  · have heffect := executeOrBuffer_effect (s := { s with channel := channel, blocks := blocks })
      (P := fun _ => True) executes (fun _ _ => trivial) (fun _ _ _ _ _ => trivial)
      fun block (_ : block ∈ blockChunk.data) => trivial
    obtain ⟨u, t, hok⟩ := executeOrBuffer_returns hexecutes blockChunk
      { s with channel := channel, blocks := blocks }
    rw [hok] at heffect
    obtain ⟨executed, next, buffer, rfl⟩ := heffect.frame
    simp only [BlockRangeIndexer.handle, hr', hok]
    exact h.handler e

theorem step_unfailing {a : IndexerStep ρ π ε}
    (h : s.Unfailing initial startBlockNumber endBlockNumber)
    (hstep : s.step dex a = some s') (hsucceeds : Succeeds dex s a s') :
    s'.Unfailing initial startBlockNumber endBlockNumber := by
  have hcache := step_cacheInv h.toCacheInv hstep (h.takesWhole a)
  have hends := step_endsInOrder h.toEndsInOrder hstep
  have hstart := hcache.start_eq.trans h.start_eq.symm
  have hend := hcache.end_eq.trans h.end_eq.symm
  have hwhole : ∀ c, s'.IsChunk c → CachedWhole initial s' c := by
    simp only [IsChunk, CachedWhole, chunkEndBlockNumber, hstart, hend]
    exact h.whole
  have hread : ∀ blockChunk, s'.InFlight blockChunk → ∀ c, blockChunk.start? = some c →
      BlockChunk.Cached initial c (s'.chunkEndBlockNumber c) → blockChunk.source = .db := by
    intro blockChunk hflight c hc hcached
    simp only [chunkEndBlockNumber, hend] at hcached
    rcases step_inFlight hstep hflight with hold | ⟨task, c', answers, rfl, hfetching, hfetch⟩
    · exact h.read blockChunk hold c hc hcached
    · have hchunk := h.isChunk_of_fetching hfetching
      have hcovers := BlockChunk.fetch_covers hchunk.1.le_chunkEnd hfetch
      cases Option.some.inj ((hcovers.head? hchunk.1.le_chunkEnd).symm.trans hc)
      exact ((h.stored h.handler).fetch_source hchunk.1 hchunk.2 hfetch).mpr
        ⟨hsucceeds.1, hcached⟩
  suffices hrest : (∀ e, s'.handler ≠ .err e) ∧ (∀ e, s'.parser ≠ .err e) ∧
      ∀ task e, s'.subtasks task ≠ .failed e from
    ⟨hcache, hends, hwhole, hread, hrest.1, hrest.2.1, hrest.2.2⟩
  cases step_case hstep with
  | next task hidle =>
    unfold BlockRangeIndexer.next
    split
    next => exact ⟨h.handler, h.parser, h.setSubtask fun e he => by cases he⟩
    next => exact ⟨h.handler, h.parser, h.setSubtask fun e he => by cases he⟩
  | fetch task chunkStart answers hfetching =>
    obtain ⟨blockChunk, hfetch⟩ := hsucceeds.2 chunkStart hfetching
    simp only [BlockRangeIndexer.fetch, hfetch]
    exact ⟨h.handler, h.parser, h.setSubtask fun e he => by cases he⟩
  | sent task blockChunk hsending hhandler =>
    exact ⟨h.handler, h.parser, h.setSubtask fun e he => by cases he⟩
  | unsent task blockChunk hsending hover =>
    exact absurd (h.handler_running hsending) hover
  | abort task e hparser hover => exact absurd hparser (h.parser e)
  | joinNext task e hfailed => exact absurd hfailed (h.subtasks task e)
  | joinAll hreturned => exact ⟨h.handler, fun e he => by (cases he), h.subtasks⟩
  | handle executes blockChunk channel hhandler hchannel =>
    obtain ⟨hsubtasks, hparser, -⟩ := handle_tasks executes blockChunk { s with channel := channel }
    rw [hsubtasks, hparser]
    exact ⟨h.handle hhandler hchannel hsucceeds, h.parser, h.subtasks⟩
  | databaseError blockChunk channel hhandler hchannel hrpc => exact hsucceeds.elim
  | close hhandler hchannel hover => exact ⟨fun e he => by (cases he), h.parser, h.subtasks⟩

/-- Answers without logs make a chunk of blocks without trades. -/
theorem fetch_of_noLogs (hlogs : dex.fromLogs [] = []) (table : BlocksTable τ) (pairs : π)
    (lo hi : Nat) : ∃ blockChunk, BlockChunk.fetch dex table lo hi
      (⟨⟨.ok [], .ok (some 0), .ok pairs⟩, true⟩ : FetchAnswers ρ π ε) = .ok blockChunk := by
  unfold BlockChunk.fetch
  split
  next chunk _ => exact ⟨chunk, rfl⟩
  next =>
    have hbuild : (BlockChunk.blockBuilders dex lo hi 0 OrdMap.empty).mapM
        (BlockBuilder.build dex pairs) ≠ none := by
      rw [Ne, List.mapM_option_eq_none_iff]
      rintro ⟨builder, hm, hnone⟩
      obtain ⟨n, -, rfl⟩ := List.mem_map.mp hm
      simp [BlockBuilder.build, BlockBuilder.new, hlogs] at hnone
    obtain ⟨data, hdata⟩ := Option.ne_none_iff_exists'.mp hbuild
    refine ⟨⟨data, .rpc⟩, ?_⟩
    simp [BlockChunk.fetchFromRpc, BlockChunk.logsByBlockNumber, BlockChunk.startBlockTimestamp,
      BlockBuilder.buildMany, Except.toOption, hdata, bind, Except.bind, pure, Except.pure]

theorem Unfailing.result_eq_ok (h : s.Unfailing initial startBlockNumber endBlockNumber)
    (hresult : s.result ≠ none) : s.result = some (.ok ()) := by
  unfold result at hresult ⊢
  cases hhandler : s.handler with
  | running => simp [hhandler] at hresult
  | err e => exact absurd hhandler (h.handler e)
  | ok =>
    cases hparser : s.parser with
    | running => simp [hhandler, hparser] at hresult
    | err e => exact absurd hparser (h.parser e)
    | ok => rfl

theorem new_unfailing (hwhole : ∀ c, (new initial startBlockNumber endBlockNumber :
      BlockRangeIndexer ρ π τ ε).IsChunk c → CachedWhole initial
        (new initial startBlockNumber endBlockNumber : BlockRangeIndexer ρ π τ ε) c) :
    (new initial startBlockNumber endBlockNumber : BlockRangeIndexer ρ π τ ε).Unfailing initial
      startBlockNumber endBlockNumber :=
  ⟨new_cacheInv initial startBlockNumber endBlockNumber, new_endsInOrder _ _ _, hwhole,
    fun blockChunk hflight => absurd hflight (not_inFlight_new _ _ _ _),
    fun e he => by (cases he), fun e he => by (cases he), fun task e he => by cases he⟩

/-- Nothing else can happen than that all chunks are handled. -/
theorem Unfailing.inevitably (h : s.Unfailing initial startBlockNumber endBlockNumber)
    (hlogs : dex.fromLogs [] = []) (pairs : π) :
    (machine dex).Inevitably (Succeeds dex) (fun t => t.result = some (.ok ()) ∧
      t.Unfailing initial startBlockNumber endBlockNumber) s := by
  have hstep : ∀ (s : BlockRangeIndexer ρ π τ ε) a s',
      s.Unfailing initial startBlockNumber endBlockNumber → (machine dex).step s a = some s' →
      Succeeds dex s a s' →
      s'.Unfailing initial startBlockNumber endBlockNumber ∧ s'.stepsLeft < s.stepsLeft :=
    fun s a s' h hs hp => ⟨step_unfailing h hs hp, step_stepsLeft hs⟩
  refine Machine.inevitably_of_measure hstep (fun s h hnot => ?_) h
  have hresult : s.result = none :=
    Classical.byContradiction fun hne => hnot ⟨h.result_eq_ok hne, h⟩
  obtain ⟨a, s', hs', hdb, hfetch, hhandle⟩ := h.enabled dex
    ⟨⟨.ok [], .ok (some 0), .ok pairs⟩, true⟩ (fun _ => true) hresult
  refine ⟨a, s', hs', ?_⟩
  cases a with
  | fetch task answers =>
    rw [hfetch task answers rfl]
    exact ⟨rfl, fun c _ => fetch_of_noLogs hlogs s.blocks pairs c _⟩
  | handle executes =>
    rw [hhandle executes rfl]
    exact fun _ => rfl
  | databaseError => exact hdb rfl
  | next | send | abort | joinNext | joinAll | close => trivial

end Completion

end BlockRangeIndexer

end Pochtecatl
