import Pochtecatl.BlockChunk
import Pochtecatl.Machine
import Pochtecatl.StateResult

namespace Pochtecatl

def BLOCK_PARSER_CHUNK_SIZE : Nat := 100

def BLOCK_PARSER_CONCURRENCY : Nat := 50

def PARSED_BLOCK_CHANNEL_CAPACITY : Nat := 360

inductive ParserError (ε : Type) where
  | getParsedBlocks (e : FetchError ε)
  | blockChunkSender

/-- Where one of the concurrent fetch tasks stands. -/
inductive Subtask (τ ε : Type) where
  | idle
  | fetching (chunkStartBlockNumber : Nat)
  | sending (blockChunk : BlockChunk τ)
  | returned
  | failed (e : ParserError ε)
  | aborted

def Subtask.isReturned {τ ε : Type} : Subtask τ ε → Bool
  | .returned => true
  | _ => false

/-- A subtask that no longer runs has dropped its sender. -/
def Subtask.isOver {τ ε : Type} : Subtask τ ε → Bool
  | .returned | .failed _ | .aborted => true
  | _ => false

inductive HandlerError where
  | insert (blockNumber : Nat)
  | execute (blockNumber : Nat)
  | database
  deriving DecidableEq

inductive TaskStatus (ε : Type) where
  | running
  | ok
  | err (e : ε)

def TaskStatus.isRunning {ε : Type} : TaskStatus ε → Bool
  | .running => true
  | _ => false

theorem TaskStatus.eq_running {ε : Type} {status : TaskStatus ε} (h : status.isRunning) :
    status = .running := by
  cases status with
  | running => rfl
  | ok => cases h
  | err e => cases h

inductive ExecError (ε : Type) where
  | strategyExecutor (e : HandlerError)
  | parser (e : ParserError ε)

/-- The calls that a chunk fetched from the node made, with their outcomes. -/
structure RpcFetch (ρ π ε : Type) where
  startBlockNumber : Nat
  endBlockNumber : Nat
  answers : RpcAnswers ρ π ε

/-- One execution of the indexer over the blocks table. `rpcFetches` and `executed`
record what happened: the code does not keep them. -/
structure BlockRangeIndexer (ρ π τ ε : Type) where
  startBlockNumber : Nat
  endBlockNumber : Nat
  blocks : BlocksTable τ
  blockNumberChunkIter : Nat
  subtasks : Fin BLOCK_PARSER_CONCURRENCY → Subtask τ ε
  parser : TaskStatus (ParserError ε)
  channel : List (BlockChunk τ)
  handler : TaskStatus HandlerError
  nextBlockNumber : Nat
  chunkBuffer : OrdMap Nat (BlockChunk τ)
  executed : List (Block τ)
  rpcFetches : List (RpcFetch ρ π ε)

/-- A step of a fetch task, of the task that joins them, or of the handler. `executes`
tells for which blocks the strategy executes without an error. -/
inductive IndexerStep (ρ π ε : Type) where
  | next (task : Fin BLOCK_PARSER_CONCURRENCY)
  | fetch (task : Fin BLOCK_PARSER_CONCURRENCY) (answers : FetchAnswers ρ π ε)
  | send (task : Fin BLOCK_PARSER_CONCURRENCY)
  | abort (task : Fin BLOCK_PARSER_CONCURRENCY)
  | joinNext (task : Fin BLOCK_PARSER_CONCURRENCY)
  | joinAll
  | handle (executes : Nat → Bool)
  | databaseError
  | close

namespace BlockRangeIndexer

variable {ρ θ π τ ε : Type}

def new (blocks : BlocksTable τ) (startBlockNumber endBlockNumber : Nat) :
    BlockRangeIndexer ρ π τ ε where
  startBlockNumber := startBlockNumber
  endBlockNumber := endBlockNumber
  blocks := blocks
  blockNumberChunkIter := startBlockNumber
  subtasks := fun _ => .idle
  parser := .running
  channel := []
  handler := .running
  nextBlockNumber := startBlockNumber
  chunkBuffer := .empty
  executed := []
  rpcFetches := []

/-- The sum is one of `u64`. It is taken without its bound, which no block number comes near. -/
def chunkEndBlockNumber (s : BlockRangeIndexer ρ π τ ε) (chunkStartBlockNumber : Nat) : Nat :=
  min (chunkStartBlockNumber + BLOCK_PARSER_CHUNK_SIZE) s.endBlockNumber

/-- In a range that ends a chunk below the bound of `u64` the sum does not wrap around. -/
theorem chunkEndBlockNumber_eq_mod {s : BlockRangeIndexer ρ π τ ε} {chunkStartBlockNumber : Nat}
    (hle : chunkStartBlockNumber ≤ s.endBlockNumber)
    (hend : s.endBlockNumber + BLOCK_PARSER_CHUNK_SIZE < UInt64.size) :
    s.chunkEndBlockNumber chunkStartBlockNumber =
      min ((chunkStartBlockNumber + BLOCK_PARSER_CHUNK_SIZE) % UInt64.size) s.endBlockNumber := by
  have hfits : chunkStartBlockNumber + BLOCK_PARSER_CHUNK_SIZE < UInt64.size :=
    Nat.lt_of_le_of_lt (Nat.add_le_add_right hle _) hend
  rw [chunkEndBlockNumber, Nat.mod_eq_of_lt hfits]

def setSubtask (s : BlockRangeIndexer ρ π τ ε) (task : Fin BLOCK_PARSER_CONCURRENCY)
    (subtask : Subtask τ ε) : BlockRangeIndexer ρ π τ ε :=
  { s with subtasks := Function.update s.subtasks task subtask }

/-- The next item of the iterator shared by the fetch tasks. -/
def next (s : BlockRangeIndexer ρ π τ ε) (task : Fin BLOCK_PARSER_CONCURRENCY) :
    BlockRangeIndexer ρ π τ ε :=
  if s.blockNumberChunkIter ≤ s.endBlockNumber then
    { s.setSubtask task (.fetching s.blockNumberChunkIter) with
      blockNumberChunkIter := s.blockNumberChunkIter + (BLOCK_PARSER_CHUNK_SIZE + 1) }
  else s.setSubtask task .returned

def fetch (dex : Dex ρ θ π τ) (s : BlockRangeIndexer ρ π τ ε)
    (task : Fin BLOCK_PARSER_CONCURRENCY) (chunkStartBlockNumber : Nat)
    (answers : FetchAnswers ρ π ε) : BlockRangeIndexer ρ π τ ε :=
  let chunkEndBlockNumber := s.chunkEndBlockNumber chunkStartBlockNumber
  { s with
    subtasks := Function.update s.subtasks task
      (match BlockChunk.fetch dex s.blocks chunkStartBlockNumber chunkEndBlockNumber answers with
      | .ok blockChunk => .sending blockChunk
      | .error e => .failed (.getParsedBlocks e))
    rpcFetches :=
      if (BlockChunk.fetchFromDb s.blocks answers.readsDb chunkStartBlockNumber
          chunkEndBlockNumber).isSome then s.rpcFetches
      else s.rpcFetches ++
        [⟨chunkStartBlockNumber, chunkEndBlockNumber, answers.toRpcAnswers⟩] }

/-- The channel is closed for sending once the handler is over. -/
def send (s : BlockRangeIndexer ρ π τ ε) (task : Fin BLOCK_PARSER_CONCURRENCY)
    (blockChunk : BlockChunk τ) : Option (BlockRangeIndexer ρ π τ ε) :=
  if s.handler.isRunning then
    if s.channel.length < PARSED_BLOCK_CHANNEL_CAPACITY then
      some { s.setSubtask task .idle with channel := s.channel ++ [blockChunk] }
    else none
  else some (s.setSubtask task (.failed .blockChunkSender))

abbrev HandlerM (ρ π τ ε : Type) : Type → Type :=
  EStateM HandlerError (BlockRangeIndexer ρ π τ ε)

/-- Writes a chunk in one transaction, which is rolled back when an insert fails. -/
def writeChunk (blockChunk : BlockChunk τ) : HandlerM ρ π τ ε Unit := fun s =>
  match s.blocks.insertBlocks blockChunk.data with
  | .ok blocks => .ok () { s with blocks := blocks }
  | .error blockNumber => .error (.insert blockNumber) s

def executeStrategyForBlock (executes : Nat → Bool) (block : Block τ) :
    HandlerM ρ π τ ε Unit := fun s =>
  let called := { s with executed := s.executed ++ [block] }
  if executes block.blockNumber then .ok () called
  else .error (.execute block.blockNumber) called

def executeBlocks (executes : Nat → Bool) : List (Block τ) → HandlerM ρ π τ ε Unit
  | [] => pure ()
  | block :: blocks => do
    executeStrategyForBlock executes block
    executeBlocks executes blocks

def processChunk (executes : Nat → Bool) (data : List (Block τ)) (chunkEndBlockNumber : Nat) :
    HandlerM ρ π τ ε Unit := do
  executeBlocks executes data
  modify fun s => { s with nextBlockNumber := chunkEndBlockNumber + 1 }

/-- Processes the buffered chunks that follow, at most as many as are buffered. -/
def processBuffered (executes : Nat → Bool) : Nat → HandlerM ρ π τ ε Unit
  | 0 => pure ()
  | fuel + 1 => do
    let s ← get
    match s.chunkBuffer.firstEntry with
    | none => pure ()
    | some (chunkStartBlockNumber, blockChunk) =>
      if chunkStartBlockNumber = s.nextBlockNumber then do
        set { s with chunkBuffer := s.chunkBuffer.popFirst }
        processChunk executes blockChunk.data
          ((blockChunk.data.getLast?.map (·.blockNumber)).getD chunkStartBlockNumber)
        processBuffered executes fuel
      else pure ()

/-- Processes a chunk that is next in order and what it was waited for by, or buffers it. -/
def executeOrBuffer (executes : Nat → Bool) (blockChunk : BlockChunk τ) :
    HandlerM ρ π τ ε Unit := do
  let s ← get
  match blockChunk.data.head?.map (·.blockNumber),
    blockChunk.data.getLast?.map (·.blockNumber) with
  | some chunkStartBlockNumber, some chunkEndBlockNumber =>
    if chunkStartBlockNumber = s.nextBlockNumber then do
      processChunk executes blockChunk.data chunkEndBlockNumber
      processBuffered executes s.chunkBuffer.size
    else
      set { s with chunkBuffer := s.chunkBuffer.insert chunkStartBlockNumber blockChunk }
  | _, _ => pure ()

/-- What the handler does with a chunk it received. -/
def handleBlockChunk (executes : Nat → Bool) (blockChunk : BlockChunk τ) :
    HandlerM ρ π τ ε Unit := do
  if blockChunk.source = .rpc then writeChunk blockChunk
  executeOrBuffer executes blockChunk

def handle (s : BlockRangeIndexer ρ π τ ε) (executes : Nat → Bool) (blockChunk : BlockChunk τ) :
    BlockRangeIndexer ρ π τ ε :=
  match handleBlockChunk executes blockChunk s with
  | .ok () s => s
  | .error e s => { s with handler := .err e }

def step (dex : Dex ρ θ π τ) (s : BlockRangeIndexer ρ π τ ε) :
    IndexerStep ρ π ε → Option (BlockRangeIndexer ρ π τ ε)
  | .next task =>
    match s.subtasks task with
    | .idle => some (s.next task)
    | _ => none
  | .fetch task answers =>
    match s.subtasks task with
    | .fetching chunkStartBlockNumber => some (s.fetch dex task chunkStartBlockNumber answers)
    | _ => none
  | .send task =>
    match s.subtasks task with
    | .sending blockChunk => s.send task blockChunk
    | _ => none
  | .abort task =>
    -- a failed parser drops its subtasks
    match s.parser with
    | .err _ => if (s.subtasks task).isOver then none else some (s.setSubtask task .aborted)
    | _ => none
  | .joinNext task =>
    match s.parser, s.subtasks task with
    | .running, .failed e => some { s with parser := .err e }
    | _, _ => none
  | .joinAll =>
    if s.parser.isRunning ∧ ∀ task, (s.subtasks task).isReturned then
      some { s with parser := .ok }
    else none
  | .handle executes =>
    match s.handler, s.channel with
    | .running, blockChunk :: channel =>
      some (handle { s with channel := channel } executes blockChunk)
    | _, _ => none
  | .databaseError =>
    match s.handler, s.channel with
    | .running, ⟨_, .rpc⟩ :: channel =>
      some { s with channel := channel, handler := .err .database }
    | _, _ => none
  | .close =>
    -- recv returns None once the channel is empty and every sender is dropped
    if s.handler.isRunning ∧ s.channel.isEmpty ∧ ¬s.parser.isRunning ∧
        ∀ task, (s.subtasks task).isOver then
      some { s with handler := .ok }
    else none

def machine (dex : Dex ρ θ π τ) : Machine (BlockRangeIndexer ρ π τ ε) (IndexerStep ρ π ε) :=
  ⟨step dex⟩

/-- The handler fails to write a chunk it got from the node, or executes or buffers it. -/
theorem handleBlockChunk_cases (executes : Nat → Bool) (blockChunk : BlockChunk τ)
    (s : BlockRangeIndexer ρ π τ ε) :
    (∃ n, blockChunk.source = .rpc ∧ s.blocks.insertBlocks blockChunk.data = .error n ∧
      handleBlockChunk executes blockChunk s = .error (.insert n) s) ∨
      ∃ blocks, (blockChunk.source = .db ∧ blocks = s.blocks ∨
          blockChunk.source = .rpc ∧ s.blocks.insertBlocks blockChunk.data = .ok blocks) ∧
        handleBlockChunk executes blockChunk s =
          executeOrBuffer executes blockChunk { s with blocks := blocks } := by
  unfold handleBlockChunk
  cases hsource : blockChunk.source with
  | db => exact Or.inr ⟨s.blocks, Or.inl ⟨rfl, rfl⟩, EStateM.bind_of_ok rfl⟩
  | rpc =>
    cases hinsert : s.blocks.insertBlocks blockChunk.data with
    | error n =>
      have hwrite : writeChunk blockChunk s = .error (.insert n) s := by simp [writeChunk, hinsert]
      exact Or.inl ⟨n, rfl, rfl, EStateM.bind_of_error hwrite⟩
    | ok blocks =>
      have hwrite : writeChunk blockChunk s = .ok () { s with blocks := blocks } := by
        simp [writeChunk, hinsert]
      exact Or.inr ⟨blocks, Or.inr ⟨rfl, rfl⟩, EStateM.bind_of_ok hwrite⟩

/-- What a step does, for each kind of step. -/
inductive StepCase (dex : Dex ρ θ π τ) (s : BlockRangeIndexer ρ π τ ε) :
    IndexerStep ρ π ε → BlockRangeIndexer ρ π τ ε → Prop where
  | next (task : Fin BLOCK_PARSER_CONCURRENCY) (hidle : s.subtasks task = .idle) :
    StepCase dex s (.next task) (s.next task)
  | fetch (task : Fin BLOCK_PARSER_CONCURRENCY) (chunkStart : Nat) (answers : FetchAnswers ρ π ε)
    (hfetching : s.subtasks task = .fetching chunkStart) :
    StepCase dex s (.fetch task answers) (s.fetch dex task chunkStart answers)
  | sent (task : Fin BLOCK_PARSER_CONCURRENCY) (blockChunk : BlockChunk τ)
    (hsending : s.subtasks task = .sending blockChunk) (hrunning : s.handler = .running) :
    StepCase dex s (.send task)
      { s.setSubtask task .idle with channel := s.channel ++ [blockChunk] }
  | unsent (task : Fin BLOCK_PARSER_CONCURRENCY) (blockChunk : BlockChunk τ)
    (hsending : s.subtasks task = .sending blockChunk) (hover : s.handler ≠ .running) :
    StepCase dex s (.send task) (s.setSubtask task (.failed .blockChunkSender))
  | abort (task : Fin BLOCK_PARSER_CONCURRENCY) (e : ParserError ε) (hparser : s.parser = .err e)
    (hover : (s.subtasks task).isOver = false) :
    StepCase dex s (.abort task) (s.setSubtask task .aborted)
  | joinNext (task : Fin BLOCK_PARSER_CONCURRENCY) (e : ParserError ε)
    (hfailed : s.subtasks task = .failed e) :
    StepCase dex s (.joinNext task) { s with parser := .err e }
  | joinAll (hreturned : ∀ task, (s.subtasks task).isReturned) :
    StepCase dex s .joinAll { s with parser := .ok }
  | handle (executes : Nat → Bool) (blockChunk : BlockChunk τ) (channel : List (BlockChunk τ))
    (hrunning : s.handler = .running) (hchannel : s.channel = blockChunk :: channel) :
    StepCase dex s (.handle executes)
      (handle { s with channel := channel } executes blockChunk)
  | databaseError (blockChunk : BlockChunk τ) (channel : List (BlockChunk τ))
    (hrunning : s.handler = .running) (hchannel : s.channel = blockChunk :: channel)
    (hrpc : blockChunk.source = .rpc) :
    StepCase dex s .databaseError { s with channel := channel, handler := .err .database }
  | close (hrunning : s.handler = .running) (hchannel : s.channel = [])
    (hover : ∀ task, (s.subtasks task).isOver) :
    StepCase dex s .close { s with handler := .ok }

theorem step_case {dex : Dex ρ θ π τ} {s s' : BlockRangeIndexer ρ π τ ε}
    {a : IndexerStep ρ π ε} (h : s.step dex a = some s') : StepCase dex s a s' := by
  cases a with
  | next task =>
    simp only [step] at h
    split at h
    next hidle =>
      cases h
      exact .next task hidle
    next => simp at h
  | fetch task answers =>
    simp only [step] at h
    split at h
    next chunkStart hfetching =>
      cases h
      exact .fetch task chunkStart answers hfetching
    next => simp at h
  | send task =>
    simp only [step] at h
    split at h
    next blockChunk hsending =>
      simp only [send] at h
      split at h
      next hrunning =>
        split at h
        next =>
          cases h
          exact .sent task blockChunk hsending (TaskStatus.eq_running hrunning)
        next => simp at h
      next hover =>
        cases h
        exact .unsent task blockChunk hsending fun hrunning => hover (by rw [hrunning]; rfl)
    next => simp at h
  | abort task =>
    simp only [step] at h
    split at h
    next e hparser =>
      split at h
      next => simp at h
      next hover =>
        cases h
        exact .abort task e hparser (by simpa using hover)
    next => simp at h
  | joinNext task =>
    simp only [step] at h
    split at h
    next e hparser hfailed =>
      cases h
      exact .joinNext task e hfailed
    next => simp at h
  | joinAll =>
    simp only [step] at h
    split at h
    next hjoin =>
      cases h
      exact .joinAll hjoin.2
    next => simp at h
  | handle executes =>
    simp only [step] at h
    split at h
    next blockChunk channel hrunning hchannel =>
      cases h
      exact .handle executes blockChunk channel hrunning hchannel
    next => simp at h
  | databaseError =>
    simp only [step] at h
    split at h
    next data channel hrunning hchannel =>
      cases h
      exact .databaseError ⟨data, .rpc⟩ channel hrunning hchannel rfl
    next => simp at h
  | close =>
    simp only [step] at h
    split at h
    next hclose =>
      cases h
      exact .close (TaskStatus.eq_running hclose.1) (List.isEmpty_iff.mp hclose.2.1) hclose.2.2.2
    next => simp at h

/-- The result of `exec`, once both of its tasks are over. -/
def result (s : BlockRangeIndexer ρ π τ ε) : Option (Except (ExecError ε) Unit) :=
  match s.handler, s.parser with
  | .running, _ | _, .running => none
  | .ok, .ok => some (.ok ())
  | .err e, _ => some (.error (.strategyExecutor e))
  | _, .err e => some (.error (.parser e))

theorem result_eq_ok {s : BlockRangeIndexer ρ π τ ε} (h : s.result = some (.ok ())) :
    s.handler = .ok ∧ s.parser = .ok := by
  unfold result at h
  split at h <;> first | exact ⟨by assumption, by assumption⟩ | simp at h

end BlockRangeIndexer

end Pochtecatl
