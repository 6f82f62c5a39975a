import Pochtecatl.IndexerProgress

namespace Pochtecatl

/-- A block as it is read back from the table. -/
def Block.withoutHash {τ : Type} (block : Block τ) : Block τ := { block with blockHash := none }

namespace BlocksTable

variable {τ : Type} {table table' : BlocksTable τ} {data : List (Block τ)} {block : Block τ}

def block? (table : BlocksTable τ) (n : Nat) : Option (Block τ) :=
  (table.get? n).map fun row => .ofModel ⟨n, row.timestamp, row.pairTicks⟩

/-- The row of the block is as the block was. -/
def Holds (table : BlocksTable τ) (block : Block τ) : Prop :=
  table.get? block.blockNumber = some ⟨block.blockTimestamp, block.pairTicks⟩

theorem Holds.block? (h : table.Holds block) :
    table.block? block.blockNumber = some block.withoutHash := by
  rw [BlocksTable.block?, h]
  rfl

theorem Holds.insertBlocks (h : table.Holds block) (hinsert : table.insertBlocks data = .ok table') :
    table'.Holds block := insertBlocks_keeps hinsert h

/-- Every inserted block has its row, a number that occurs twice being rejected. -/
theorem insertBlocks_holds (h : table.insertBlocks data = .ok table') :
    ∀ block ∈ data, table'.Holds block := by
  induction data generalizing table with
  | nil => exact fun block hm => by cases hm
  | cons first data ih =>
    cases hinsert : table.insert (.ofBlock first) with
    | error k => simp [BlocksTable.insertBlocks, hinsert, bind, Except.bind] at h
    | ok inserted =>
      replace h : inserted.insertBlocks data = .ok table' := by
        simpa [BlocksTable.insertBlocks, hinsert, bind, Except.bind] using h
      intro block hm
      rcases List.mem_cons.mp hm with rfl | hm
      · refine Holds.insertBlocks ?_ h
        unfold BlocksTable.insert at hinsert
        split at hinsert
        next => cases hinsert
        next =>
          cases hinsert
          exact OrdMap.get?_insert_self _ _ _
      · exact ih h block hm

/-- Blocks with their rows in the table are read back from their numbers. -/
theorem map_withoutHash (h : ∀ block ∈ data, table.Holds block) :
    data.map Block.withoutHash = (data.map (·.blockNumber)).filterMap table.block? := by
  induction data with
  | nil => rfl
  | cons block data ih =>
    have hrest := ih fun b hb => h b (List.mem_cons_of_mem _ hb)
    have hblock := (h block List.mem_cons_self).block?
    rw [List.map_cons, List.map_cons, List.filterMap_cons, hblock, hrest]

end BlocksTable

namespace BlockChunk

variable {ρ θ π τ ε : Type} {table : BlocksTable τ} {chunk : BlockChunk τ} {lo hi : Nat}
  {dex : Dex ρ θ π τ}

/-- The blocks of the chunk are the rows of the table. -/
def ReadFrom (table : BlocksTable τ) (chunk : BlockChunk τ) : Prop :=
  ∀ block ∈ chunk.data, table.Holds block ∧ block.withoutHash = block

theorem ReadFrom.mono {table' : BlocksTable τ} (h : chunk.ReadFrom table)
    (hkeep : ∀ n row, table.get? n = some row → table'.get? n = some row) :
    chunk.ReadFrom table' :=
  fun block hm => ⟨hkeep _ _ (h block hm).1, (h block hm).2⟩

theorem fetchFromDb_readFrom {readsDb : Bool} (h : fetchFromDb table readsDb lo hi = some chunk) :
    chunk.source = .db ∧ chunk.ReadFrom table := by
  obtain ⟨_, -, h⟩ := Option.bind_eq_some_iff.mp h
  simp only [BlocksTable.queryByNumberRange, Option.bind_eq_bind] at h
  split at h
  next =>
    simp only [Option.bind_some] at h
    split at h
    next =>
      cases h
      refine ⟨rfl, fun block hm => ?_⟩
      obtain ⟨model, hmodel, rfl⟩ := List.mem_map.mp hm
      obtain ⟨⟨n, row⟩, hrow, rfl⟩ := List.mem_map.mp hmodel
      exact ⟨(OrdMap.mem_rangeEntries.mp hrow).1, rfl⟩
    next => simp at h
  next => simp at h

theorem fetch_readFrom {answers : FetchAnswers ρ π ε} (h : fetch dex table lo hi answers = .ok chunk)
    (hdb : chunk.source = .db) : chunk.ReadFrom table := by
  unfold fetch at h
  split at h
  next found hfound =>
    cases h
    exact (fetchFromDb_readFrom hfound).2
  next =>
    rw [(fetchFromRpc_eq_ok h).1] at hdb
    cases hdb

end BlockChunk

namespace BlockRangeIndexer

variable {ρ θ π τ ε : Type} {s s' : BlockRangeIndexer ρ π τ ε} {dex : Dex ρ θ π τ}

/-- No step changes or removes a row. -/
theorem step_keepsRows {a : IndexerStep ρ π ε} (hstep : s.step dex a = some s') {n : Nat}
    {row : BlockRow τ} (hrow : s.blocks.get? n = some row) : s'.blocks.get? n = some row := by
  cases step_case hstep with
  | next task hidle =>
    unfold BlockRangeIndexer.next
    split <;> exact hrow
  | handle executes blockChunk channel hhandler hchannel =>
    have hdata : ∀ block ∈ blockChunk.data, True := fun _ _ => trivial
    rcases handle_effect (s := { s with channel := channel }) executes (fun _ _ => trivial)
      (fun _ _ _ _ _ => trivial) hdata with
      ⟨k, -, -, hr⟩ | ⟨blocks, handler, hblocks, -, ⟨executed, next, buffer, hr⟩, -⟩
    · rw [hr]
      exact hrow
    · rw [hr]
      rcases hblocks with ⟨-, rfl⟩ | ⟨-, hinsert⟩
      · exact hrow
      · exact BlocksTable.insertBlocks_keeps hinsert hrow
  | fetch | sent | unsent | abort | joinNext | joinAll | databaseError | close => exact hrow

/-- What the strategy was executed for, or will be, is in the table, but for the chunks of the
node that the handler did not take yet. -/
structure Recorded (s : BlockRangeIndexer ρ π τ ε) : Prop where
  executed : ∀ block ∈ s.executed, s.blocks.Holds block
  buffered : ∀ c blockChunk, s.chunkBuffer.get? c = some blockChunk →
    ∀ block ∈ blockChunk.data, s.blocks.Holds block
  inFlight : ∀ blockChunk, s.InFlight blockChunk → blockChunk.source = .db →
    blockChunk.ReadFrom s.blocks

theorem new_recorded (blocks : BlocksTable τ) (startBlockNumber endBlockNumber : Nat) :
    (new blocks startBlockNumber endBlockNumber : BlockRangeIndexer ρ π τ ε).Recorded where
  executed := fun block hm => by cases hm
  buffered := fun c blockChunk h => by simp [new] at h
  inFlight := fun blockChunk h => absurd h (not_inFlight_new _ _ _ blockChunk)

theorem step_recorded {a : IndexerStep ρ π ε} (h : s.Recorded) (hstep : s.step dex a = some s') :
    s'.Recorded := by
  have hflight : ∀ blockChunk, s'.InFlight blockChunk → blockChunk.source = .db →
      blockChunk.ReadFrom s'.blocks := by
    intro blockChunk hsent hdb
    rcases step_inFlight hstep hsent with hold | ⟨task, c, answers, -, -, hfetch⟩
    · exact (h.inFlight blockChunk hold hdb).mono fun _ _ => step_keepsRows hstep
    · exact (BlockChunk.fetch_readFrom hfetch hdb).mono fun _ _ => step_keepsRows hstep
  cases step_case hstep with
  | next task hidle =>
    unfold BlockRangeIndexer.next at hflight ⊢
    split at hflight
    next hle =>
      rw [if_pos hle]
      exact ⟨h.executed, h.buffered, hflight⟩
    next hle =>
      rw [if_neg hle]
      exact ⟨h.executed, h.buffered, hflight⟩
  | handle executes blockChunk channel hhandler hchannel =>
    have hsent : s.InFlight blockChunk := .inr (by simp [hchannel])
    rcases handleBlockChunk_cases executes blockChunk { s with channel := channel } with
      ⟨n, -, -, hr⟩ | ⟨blocks, hblocks, hr⟩
    · simp only [BlockRangeIndexer.handle, hr] at hflight ⊢
      exact ⟨h.executed, h.buffered, hflight⟩
    · have hkeep : ∀ {block}, s.blocks.Holds block → BlocksTable.Holds blocks block := by
        intro block hblock
        rcases hblocks with ⟨-, rfl⟩ | ⟨-, hinsert⟩
        · exact hblock
        · exact BlocksTable.insertBlocks_keeps hinsert hblock
      have hdata : ∀ block ∈ blockChunk.data, BlocksTable.Holds blocks block := by
        intro block hm
        rcases hblocks with ⟨hdb, rfl⟩ | ⟨-, hinsert⟩
        · exact (h.inFlight blockChunk hsent hdb block hm).1
        · exact BlocksTable.insertBlocks_holds hinsert block hm
      -- the chunk is in the table before its blocks are executed or buffered
      have heffect := executeOrBuffer_effect (s := { s with channel := channel, blocks := blocks })
        executes (fun block hm => hkeep (h.executed block hm))
        (fun c other hget block hm => hkeep (h.buffered c other hget block hm)) hdata
      simp only [BlockRangeIndexer.handle, hr] at hflight ⊢
      cases hres : executeOrBuffer executes blockChunk
        { s with channel := channel, blocks := blocks } with
      | ok u t | error e t =>
        rw [hres] at heffect
        simp only [hres] at hflight
        obtain ⟨⟨executed, next, buffer, rfl⟩, hexecuted, hbuffered⟩ := heffect
        exact ⟨hexecuted, hbuffered, hflight⟩
  | fetch | sent | unsent | abort | joinNext | joinAll | databaseError | close =>
    exact ⟨h.executed, h.buffered, hflight⟩

theorem run_inv {blocks : BlocksTable τ} {startBlockNumber endBlockNumber : Nat}
    {steps : List (IndexerStep ρ π ε)}
    (h : (machine dex).run (new blocks startBlockNumber endBlockNumber) steps = some s) :
    s.Inv startBlockNumber endBlockNumber :=
  Machine.run_invariant (I := Inv startBlockNumber endBlockNumber)
    (fun _ _ _ hs hstep => step_inv hs hstep) h (new_inv blocks startBlockNumber endBlockNumber)

theorem run_recorded {blocks : BlocksTable τ} {startBlockNumber endBlockNumber : Nat}
    {steps : List (IndexerStep ρ π ε)}
    (h : (machine dex).run (new blocks startBlockNumber endBlockNumber) steps = some s) :
    s.Recorded :=
  Machine.run_invariant (I := Recorded) (fun _ _ _ hs hstep => step_recorded hs hstep) h
    (new_recorded blocks startBlockNumber endBlockNumber)

/-- Whatever fails in a run, the rows of the table stay as they are, and a block that the strategy
was executed for has its row before. -/
theorem exec_persists (dex : Dex ρ θ π τ) (blocks : BlocksTable τ)
    (startBlockNumber endBlockNumber : Nat) (steps : List (IndexerStep ρ π ε)) :
    (machine dex).Throughout (fun s => (∀ block ∈ s.executed, s.blocks.Holds block) ∧
        ∀ n row, blocks.get? n = some row → s.blocks.get? n = some row)
      (new blocks startBlockNumber endBlockNumber) steps :=
  Machine.throughout_of_invariant
    (I := fun s => s.Recorded ∧ ∀ n row, blocks.get? n = some row → s.blocks.get? n = some row)
    (fun _ h => ⟨h.1.executed, h.2⟩)
    (fun _ _ _ h hstep => ⟨step_recorded h.1 hstep, fun n row hrow =>
      step_keepsRows hstep (h.2 n row hrow)⟩)
    ⟨new_recorded blocks startBlockNumber endBlockNumber, fun _ _ hrow => hrow⟩

section Rerun

variable {table : BlocksTable τ} {lo hi : Nat}

/-- A run over rows of the table has no other source for the blocks that it executes. -/
structure ReadsBack (table : BlocksTable τ) (lo hi : Nat) (s : BlockRangeIndexer ρ π τ ε) : Prop
    extends Inv lo hi s where
  blocks : s.blocks = table
  inFlight : ∀ blockChunk, s.InFlight blockChunk → blockChunk.source = .db →
    blockChunk.ReadFrom table
  buffered : ∀ c blockChunk, s.chunkBuffer.get? c = some blockChunk → blockChunk.ReadFrom table
  executed : ∀ block ∈ s.executed, table.Holds block ∧ block.withoutHash = block

theorem new_readsBack (table : BlocksTable τ) (lo hi : Nat) :
    (new table lo hi : BlockRangeIndexer ρ π τ ε).ReadsBack table lo hi where
  toInv := new_inv table lo hi
  blocks := rfl
  inFlight := fun blockChunk h => absurd h (not_inFlight_new table lo hi blockChunk)
  buffered := fun c blockChunk h => by simp [new] at h
  executed := fun block hm => by cases hm

/-- The rows of a chunk are there, so that a chunk of the node is rejected. -/
theorem ReadsBack.insertBlocks (h : s.ReadsBack table lo hi)
    (hcached : BlockChunk.Cached table lo hi) (hrunning : s.handler = .running)
    {blockChunk : BlockChunk τ} {channel : List (BlockChunk τ)}
    (hchannel : s.channel = blockChunk :: channel) (blocks : BlocksTable τ) :
    s.blocks.insertBlocks blockChunk.data ≠ .ok blocks := by
  intro hinsert
  obtain ⟨place, hr⟩ := h.running fun e he => by rw [hrunning] at he; cases he
  obtain ⟨c, hchunk, hcovers⟩ := hr.queue blockChunk (by simp [hchannel])
  have hle := hchunk.le_chunkEnd
  have hmem : c ∈ blockChunk.data.map (·.blockNumber) := by
    rw [hcovers, List.mem_range'_1]
    omega
  have habsent := ((BlocksTable.insertBlocks_get? hinsert c).1 hmem).1
  obtain ⟨hend, k, hk⟩ := hchunk
  have hrow := hcached.2 c (by rw [hk, h.start_eq]; exact Nat.le_add_right _ _) (h.end_eq ▸ hend)
  rw [h.blocks] at habsent
  rw [habsent] at hrow
  cases hrow

theorem step_readsBack (hcached : BlockChunk.Cached table lo hi) {a : IndexerStep ρ π ε}
    (h : s.ReadsBack table lo hi) (hstep : s.step dex a = some s') :
    s'.ReadsBack table lo hi := by
  have hinv := step_inv h.toInv hstep
  have hflight : ∀ blockChunk, s'.InFlight blockChunk → blockChunk.source = .db →
      blockChunk.ReadFrom table := by
    intro blockChunk hsent hdb
    rcases step_inFlight hstep hsent with hold | ⟨task, c, answers, -, -, hfetch⟩
    · exact h.inFlight blockChunk hold hdb
    · exact h.blocks ▸ BlockChunk.fetch_readFrom hfetch hdb
  cases step_case hstep with
  | next task hidle =>
    unfold BlockRangeIndexer.next at hinv hflight ⊢
    split at hinv
    next hle =>
      rw [if_pos hle] at hflight ⊢
      exact ⟨hinv, h.blocks, hflight, h.buffered, h.executed⟩
    next hle =>
      rw [if_neg hle] at hflight ⊢
      exact ⟨hinv, h.blocks, hflight, h.buffered, h.executed⟩
  | handle executes blockChunk channel hhandler hchannel =>
    cases hsource : blockChunk.source with
    | rpc =>
      rcases handleBlockChunk_cases executes blockChunk { s with channel := channel } with
        ⟨n, -, -, hr⟩ | ⟨blocks, ⟨hdb, -⟩ | ⟨-, hinsert⟩, -⟩
      · simp only [BlockRangeIndexer.handle, hr] at hinv hflight ⊢
        exact ⟨hinv, h.blocks, hflight, h.buffered, h.executed⟩
      · rw [hsource] at hdb
        cases hdb
      · exact absurd hinsert (h.insertBlocks hcached hhandler hchannel blocks)
    | db =>
      have hread := h.inFlight blockChunk (.inr (by simp [hchannel])) hsource
      rcases handle_effect (s := { s with channel := channel }) executes h.executed h.buffered hread
        with ⟨n, hrpc, -, -⟩ | ⟨blocks, handler, ⟨-, hblocks⟩ | ⟨hrpc, -⟩, -,
          ⟨executed, next, buffer, hr⟩, hexecuted, hbuffered⟩
      · rw [hsource] at hrpc
        cases hrpc
      · rw [hr] at hinv hflight hexecuted hbuffered ⊢
        exact ⟨hinv, hblocks.trans h.blocks, hflight, hbuffered, hexecuted⟩
      · rw [hsource] at hrpc
        cases hrpc
  | fetch | sent | unsent | abort | joinNext | joinAll | databaseError | close =>
    exact ⟨hinv, h.blocks, hflight, h.buffered, h.executed⟩

/-- The database can be read. -/
def ReadsDb (_ : BlockRangeIndexer ρ π τ ε) (a : IndexerStep ρ π ε)
    (_ : BlockRangeIndexer ρ π τ ε) : Prop :=
  ∀ task answers, a = .fetch task answers → answers.readsDb

/-- A subtask at work on the range, whose chunk is refused only by a handler that failed. -/
def SubtaskReads (lo hi : Nat) (handler : TaskStatus HandlerError) : Subtask τ ε → Prop
  | .fetching c => lo ≤ c ∧ c ≤ hi
  | .failed _ => ∃ n, handler = .err (.execute n)
  | .idle | .sending _ | .returned | .aborted => True

/-- A subtask that did not fail is independent of the handler. -/
theorem SubtaskReads.of_running {subtask : Subtask τ ε} {handler : TaskStatus HandlerError}
    (h : SubtaskReads lo hi .running subtask) : SubtaskReads lo hi handler subtask := by
  cases subtask with
  | failed e =>
    obtain ⟨n, hn⟩ := h
    cases hn
  | idle | fetching | sending | returned | aborted => exact h

/-- A run over rows of a table that can be read asks the node for nothing, and fails only on the
strategy. -/
structure AsksNothing (table : BlocksTable τ) (lo hi : Nat) (s : BlockRangeIndexer ρ π τ ε) : Prop
    extends ReadsBack table lo hi s where
  iter : lo ≤ s.blockNumberChunkIter
  subtasks : ∀ task, SubtaskReads lo hi s.handler (s.subtasks task)
  fromDb : ∀ blockChunk, s.InFlight blockChunk → blockChunk.source = .db
  handler : ∀ e, s.handler = .err e → ∃ n, e = .execute n
  parser : ∀ e, s.parser = .err e → ∃ n, s.handler = .err (.execute n)
  fetches : s.rpcFetches = []

theorem new_asksNothing (table : BlocksTable τ) (lo hi : Nat) :
    (new table lo hi : BlockRangeIndexer ρ π τ ε).AsksNothing table lo hi where
  toReadsBack := new_readsBack table lo hi
  iter := Nat.le_refl lo
  subtasks := fun _ => trivial
  fromDb := fun blockChunk h => absurd h (not_inFlight_new table lo hi blockChunk)
  handler := fun e h => by cases h
  parser := fun e h => by cases h
  fetches := rfl

theorem AsksNothing.update (h : s.AsksNothing table lo hi) {task : Fin BLOCK_PARSER_CONCURRENCY}
    (subtask : Subtask τ ε) (hsubtask : SubtaskReads lo hi s.handler subtask)
    (i : Fin BLOCK_PARSER_CONCURRENCY) :
    SubtaskReads lo hi s.handler (Function.update s.subtasks task subtask i) :=
  (Function.forall_update_iff s.subtasks fun _ x => SubtaskReads lo hi s.handler x).mpr
    ⟨hsubtask, fun i _ => h.subtasks i⟩ i

/-- While the handler is running no other task failed, and what it turns into is up to it. -/
theorem AsksNothing.of_running (h : s.AsksNothing table lo hi) (hrunning : s.handler = .running)
    (handler : TaskStatus HandlerError) :
    (∀ task, SubtaskReads lo hi handler (s.subtasks task)) ∧
      ∀ e, s.parser = .err e → ∃ n, handler = .err (.execute n) := by
  refine ⟨fun task => SubtaskReads.of_running (hrunning ▸ h.subtasks task), fun e he => ?_⟩
  obtain ⟨n, hn⟩ := h.parser e he
  rw [hrunning] at hn
  cases hn

/-- A chunk of a cached range is read from the table. -/
theorem AsksNothing.fetchFromDb (h : s.AsksNothing table lo hi)
    (hcached : BlockChunk.Cached table lo hi) {task : Fin BLOCK_PARSER_CONCURRENCY} {c : Nat}
    (hfetching : s.subtasks task = .fetching c) :
    ∃ chunk, BlockChunk.fetchFromDb s.blocks true c (s.chunkEndBlockNumber c) = some chunk := by
  have hsubtask := h.subtasks task
  rw [hfetching] at hsubtask
  obtain ⟨hlo, hhi⟩ := hsubtask
  have hle : c ≤ s.chunkEndBlockNumber c :=
    Nat.le_min.mpr ⟨Nat.le_add_right _ _, h.end_eq ▸ hhi⟩
  have hmax : s.chunkEndBlockNumber c ≤ hi := h.end_eq ▸ Nat.min_le_right _ _
  refine Option.ne_none_iff_exists'.mp fun hnone => ?_
  refine (BlockChunk.fetchFromDb_eq_none_iff hle).mp hnone ⟨rfl, Nat.le_trans hmax hcached.1, ?_⟩
  intro n hn hn'
  exact h.blocks ▸ hcached.2 n (Nat.le_trans hlo hn) (Nat.le_trans hn' hmax)

/-- A handler that is over before its chunks failed on the strategy. -/
theorem AsksNothing.handler_failed (h : s.AsksNothing table lo hi)
    {task : Fin BLOCK_PARSER_CONCURRENCY} {blockChunk : BlockChunk τ}
    (hsending : s.subtasks task = .sending blockChunk) (hover : s.handler ≠ .running) :
    ∃ n, s.handler = .err (.execute n) := by
  cases hhandler : s.handler with
  | running => exact absurd hhandler hover
  | ok =>
    obtain ⟨place, hr⟩ := h.running fun e he => by rw [hhandler] at he; cases he
    have htask := (hr.handler_ok hhandler).2 task
    rw [hsending] at htask
    cases htask
  | err e =>
    obtain ⟨n, rfl⟩ := h.handler e hhandler
    exact ⟨n, rfl⟩

theorem step_asksNothing (hcached : BlockChunk.Cached table lo hi) {a : IndexerStep ρ π ε}
    (h : s.AsksNothing table lo hi) (hstep : s.step dex a = some s') (hreads : ReadsDb s a s') :
    s'.AsksNothing table lo hi := by
  have hback := step_readsBack hcached h.toReadsBack hstep
  have hdb : ∀ blockChunk, s'.InFlight blockChunk → blockChunk.source = .db := by
    intro blockChunk hsent
    rcases step_inFlight hstep hsent with hold | ⟨task, c, answers, ha, hfetching, hfetch⟩
    · exact h.fromDb blockChunk hold
    · obtain ⟨chunk, hchunk⟩ := h.fetchFromDb hcached hfetching
      rw [BlockChunk.fetch, hreads task answers ha, hchunk] at hfetch
      cases hfetch
      exact (BlockChunk.fetchFromDb_readFrom hchunk).1
  cases step_case hstep with
  | next task hidle =>
    unfold BlockRangeIndexer.next at hback hdb ⊢
    split at hback
    next hle =>
      rw [if_pos hle] at hdb ⊢
      have htaken : SubtaskReads lo hi s.handler
          (.fetching s.blockNumberChunkIter : Subtask τ ε) := ⟨h.iter, h.end_eq ▸ hle⟩
      exact ⟨hback, Nat.le_trans h.iter (Nat.le_add_right _ _), h.update _ htaken, hdb, h.handler,
        h.parser, h.fetches⟩
    next hle =>
      rw [if_neg hle] at hdb ⊢
      exact ⟨hback, h.iter, h.update .returned trivial, hdb, h.handler, h.parser,
        h.fetches⟩
  | fetch task c answers hfetching =>
    obtain ⟨chunk, hchunk⟩ := h.fetchFromDb hcached hfetching
    rw [← hreads task answers rfl] at hchunk
    have hfetch : BlockChunk.fetch dex s.blocks c (s.chunkEndBlockNumber c) answers = .ok chunk := by
      simp only [BlockChunk.fetch, hchunk]
    simp only [BlockRangeIndexer.fetch, hfetch, hchunk, Option.isSome_some, if_true] at hback hdb ⊢
    exact ⟨hback, h.iter, h.update (.sending chunk) trivial, hdb, h.handler, h.parser,
      h.fetches⟩
  | sent task blockChunk hsending hhandler =>
    exact ⟨hback, h.iter, h.update .idle trivial, hdb, h.handler, h.parser, h.fetches⟩
  | unsent task blockChunk hsending hover =>
    have hfailed : ∃ n, s.handler = .err (.execute n) := h.handler_failed hsending hover
    exact ⟨hback, h.iter, h.update (.failed .blockChunkSender) hfailed, hdb, h.handler,
      h.parser, h.fetches⟩
  | abort task e hparser hover =>
    exact ⟨hback, h.iter, h.update .aborted trivial, hdb, h.handler, h.parser,
      h.fetches⟩
  | joinNext task e hfailed =>
    have hsubtask := h.subtasks task
    rw [hfailed] at hsubtask
    exact ⟨hback, h.iter, h.subtasks, hdb, h.handler, fun _ _ => hsubtask, h.fetches⟩
  | joinAll hreturned =>
    exact ⟨hback, h.iter, h.subtasks, hdb, h.handler, fun e he => by (cases he), h.fetches⟩
  | handle executes blockChunk channel hhandler hchannel =>
    have hsource := h.fromDb blockChunk (.inr (by simp [hchannel]))
    have hdata : ∀ block ∈ blockChunk.data, True := fun _ _ => trivial
    rcases handle_effect (s := { s with channel := channel }) executes (fun _ _ => trivial)
      (fun _ _ _ _ _ => trivial) hdata with
      ⟨n, hrpc, -, -⟩ | ⟨blocks, handler, -, herr, ⟨executed, next, buffer, hr⟩, -⟩
    · rw [hsource] at hrpc
      cases hrpc
    · obtain ⟨hsubtasks, hparser⟩ := h.of_running hhandler handler
      rw [hr] at hback hdb ⊢
      refine ⟨hback, h.iter, hsubtasks, hdb, fun e he => ?_, hparser, h.fetches⟩
      rcases herr with rfl | ⟨n, rfl⟩
      · exact h.handler e he
      · exact ⟨n, (TaskStatus.err.inj he).symm⟩
  | databaseError blockChunk channel hhandler hchannel hrpc =>
    rw [h.fromDb blockChunk (.inr (by simp [hchannel]))] at hrpc
    cases hrpc
  | close hhandler hchannel hover =>
    obtain ⟨hsubtasks, hparser⟩ := h.of_running hhandler .ok
    exact ⟨hback, h.iter, hsubtasks, hdb, fun e he => by (cases he), hparser, h.fetches⟩

/-- The blocks executed by a run over cached rows are these rows, from the first one on. -/
theorem ReadsBack.executed_eq (h : s.ReadsBack table lo hi) :
    s.executed = (s.executed.map (·.blockNumber)).filterMap table.block? := by
  rw [← BlocksTable.map_withoutHash fun block hm => (h.executed block hm).1]
  calc s.executed = s.executed.map id := (List.map_id _).symm
    _ = s.executed.map Block.withoutHash :=
      List.map_congr_left fun block hm => (h.executed block hm).2.symm

/-- The numbers of a part of a range. -/
theorem filter_range' {startBlockNumber endBlockNumber : Nat} (hlo : startBlockNumber ≤ lo)
    (hhi : hi ≤ endBlockNumber) :
    (List.range' startBlockNumber (endBlockNumber + 1 - startBlockNumber)).filter
      (fun n => lo ≤ n ∧ n ≤ hi) = List.range' lo (hi + 1 - lo) := by
  have hrange : (List.range' lo (hi + 1 - lo)).Pairwise (· < ·) := List.pairwise_lt_range' 1
  have hfilter : ((List.range' startBlockNumber (endBlockNumber + 1 - startBlockNumber)).filter
      (fun n => lo ≤ n ∧ n ≤ hi)).Pairwise (· < ·) := (List.pairwise_lt_range' 1).filter _
  refine List.Perm.eq_of_pairwise (fun x y _ _ hxy hyx => absurd hxy (lt_asymm hyx)) hfilter hrange
    ((List.perm_ext_iff_of_nodup (hfilter.imp fun h => ne_of_lt h)
      (hrange.imp fun h => ne_of_lt h)).mpr fun n => ?_)
  simp only [List.mem_filter, List.mem_range'_1, decide_eq_true_eq]
  omega

/-- The part of the executed blocks that lies in a range, as the table has it. -/
def executedIn (s : BlockRangeIndexer ρ π τ ε) (lo hi : Nat) : List (Block τ) :=
  (s.executed.filter fun block => lo ≤ block.blockNumber ∧ block.blockNumber ≤ hi).map
    Block.withoutHash

/-- After a completed run, the rows of a part of its range are the blocks it executed. -/
theorem executedIn_eq {startBlockNumber endBlockNumber : Nat}
    (h : s.Inv startBlockNumber endBlockNumber) (hrecorded : s.Recorded)
    (hresult : s.result = some (.ok ())) (hlo : startBlockNumber ≤ lo) (hhi : hi ≤ endBlockNumber) :
    s.executedIn lo hi = (List.range' lo (hi + 1 - lo)).filterMap s.blocks.block? := by
  have hnumbers : (s.executed.filter fun block =>
      lo ≤ block.blockNumber ∧ block.blockNumber ≤ hi).map (·.blockNumber) =
        List.range' lo (hi + 1 - lo) := by
    rw [← filter_range' hlo hhi, ← (h.executesInOrder.complete hresult).2, List.filter_map]
    rfl
  rw [executedIn, BlocksTable.map_withoutHash fun block hm =>
    hrecorded.executed block (List.mem_filter.mp hm).1, hnumbers]

theorem cached_of_completed {startBlockNumber endBlockNumber : Nat}
    (h : s.Inv startBlockNumber endBlockNumber) (hrecorded : s.Recorded)
    (hresult : s.result = some (.ok ())) (hmax : endBlockNumber ≤ i64Max)
    (hlo : startBlockNumber ≤ lo) (hhi : hi ≤ endBlockNumber) :
    BlockChunk.Cached s.blocks lo hi := by
  refine ⟨Nat.le_trans hhi hmax, fun n hn hn' => ?_⟩
  have hm : n ∈ s.executed.map (·.blockNumber) := by
    rw [(h.executesInOrder.complete hresult).2, List.mem_range'_1]
    omega
  obtain ⟨block, hblock, rfl⟩ := List.mem_map.mp hm
  exact Option.isSome_of_eq_some (hrecorded.executed block hblock)

theorem run_readsBack {dex' : Dex ρ θ π τ} {initial : BlocksTable τ}
    {startBlockNumber endBlockNumber : Nat} {steps steps' : List (IndexerStep ρ π ε)}
    {t : BlockRangeIndexer ρ π τ ε}
    (hrun : (machine dex).run (new initial startBlockNumber endBlockNumber) steps = some s)
    (hresult : s.result = some (.ok ())) (hmax : endBlockNumber ≤ i64Max)
    (hlo : startBlockNumber ≤ lo) (hhi : hi ≤ endBlockNumber)
    (hrerun : (machine dex').run (new s.blocks lo hi) steps' = some t) :
    t.ReadsBack s.blocks lo hi := by
  have hcached := cached_of_completed (run_inv hrun) (run_recorded hrun) hresult hmax hlo hhi
  exact Machine.run_invariant (I := ReadsBack s.blocks lo hi)
    (fun _ _ _ h hstep => step_readsBack hcached h hstep) hrerun (new_readsBack s.blocks lo hi)

theorem run_asksNothing {dex' : Dex ρ θ π τ} {initial : BlocksTable τ}
    {startBlockNumber endBlockNumber : Nat} {steps steps' : List (IndexerStep ρ π ε)}
    {t : BlockRangeIndexer ρ π τ ε}
    (hrun : (machine dex).run (new initial startBlockNumber endBlockNumber) steps = some s)
    (hresult : s.result = some (.ok ())) (hmax : endBlockNumber ≤ i64Max)
    (hlo : startBlockNumber ≤ lo) (hhi : hi ≤ endBlockNumber)
    (hrerun : (machine dex').run (new s.blocks lo hi) steps' = some t)
    (hreads : (machine dex').Along ReadsDb (new s.blocks lo hi) steps') :
    t.AsksNothing s.blocks lo hi := by
  have hcached := cached_of_completed (run_inv hrun) (run_recorded hrun) hresult hmax hlo hhi
  exact Machine.run_invariant_along (I := AsksNothing s.blocks lo hi)
    (fun _ _ _ h hstep hp => step_asksNothing hcached h hstep hp) hreads hrerun
    (new_asksNothing s.blocks lo hi)

theorem AsksNothing.result_eq_error (h : s.AsksNothing table lo hi) {e : ExecError ε}
    (hresult : s.result = some (.error e)) : ∃ n, e = .strategyExecutor (.execute n) := by
  cases hhandler : s.handler with
  | running => simp [result, hhandler] at hresult
  | ok =>
    cases hparser : s.parser with
    | running => simp [result, hhandler, hparser] at hresult
    | ok => simp [result, hhandler, hparser] at hresult
    | err e' =>
      obtain ⟨n, hn⟩ := h.parser e' hparser
      rw [hhandler] at hn
      cases hn
  | err e' =>
    obtain ⟨n, rfl⟩ := h.handler e' hhandler
    cases hparser : s.parser with
    | running => simp [result, hhandler, hparser] at hresult
    | ok | err e' =>
      simp only [result, hhandler, hparser, Option.some.injEq, Except.error.injEq] at hresult
      exact ⟨n, hresult.symm⟩

/-- A run over a part of a range that was indexed before writes nothing and executes the blocks of
the earlier run again, up to their hashes. When the database can be read, it asks the node for
nothing and fails only on the strategy. -/
theorem rerun_executed {dex' : Dex ρ θ π τ} {initial : BlocksTable τ}
    {startBlockNumber endBlockNumber : Nat} {steps steps' : List (IndexerStep ρ π ε)}
    {t : BlockRangeIndexer ρ π τ ε}
    (hrun : (machine dex).run (new initial startBlockNumber endBlockNumber) steps = some s)
    (hresult : s.result = some (.ok ())) (hmax : endBlockNumber ≤ i64Max)
    (hlo : startBlockNumber ≤ lo) (hhi : hi ≤ endBlockNumber)
    (hrerun : (machine dex').run (new s.blocks lo hi) steps' = some t) :
    t.blocks = s.blocks ∧ t.executed <+: s.executedIn lo hi ∧
      (t.result = some (.ok ()) → t.executed = s.executedIn lo hi) ∧
      ((machine dex').Along ReadsDb (new s.blocks lo hi) steps' → t.rpcFetches = [] ∧
        ∀ e, t.result = some (.error e) → ∃ n, e = .strategyExecutor (.execute n)) := by
  have hreads := run_readsBack hrun hresult hmax hlo hhi hrerun
  rw [executedIn_eq (run_inv hrun) (run_recorded hrun) hresult hlo hhi, hreads.executed_eq]
  refine ⟨hreads.blocks, ?_, fun hok => ?_, fun hdb => ?_⟩
  · exact hreads.executesInOrder.ordered.filterMap _
  · rw [(hreads.executesInOrder.complete hok).2]
  · have hnothing := run_asksNothing hrun hresult hmax hlo hhi hrerun hdb
    exact ⟨hnothing.fetches, fun e he => hnothing.result_eq_error he⟩

theorem rerun_executed_idle : ∃ s t : BlockRangeIndexer Unit Unit Unit Unit,
    s.executed.map (·.blockNumber) = List.range' 1 300 ∧ t.blocks = s.blocks ∧
      t.executed = s.executedIn 101 200 ∧ t.rpcFetches = [] := by
  have hnew : (new .empty 1 300 : BlockRangeIndexer Unit Unit Unit Unit).Unfailing .empty 1 300 :=
    new_unfailing fun _ _ => Or.inl fun n _ _ => OrdMap.get?_empty n
  obtain ⟨steps, s, hrun, -, hresult, hs⟩ :=
    (hnew.inevitably (rfl : idleDex.fromLogs [] = []) ()).exists_run
  have hcached : ∀ c, (new s.blocks 101 200 : BlockRangeIndexer Unit Unit Unit Unit).IsChunk c →
      CachedWhole s.blocks (new s.blocks 101 200 : BlockRangeIndexer Unit Unit Unit Unit) c := by
    rintro c ⟨hc, k, hk⟩
    refine Or.inr (cached_of_completed (run_inv hrun) (run_recorded hrun) hresult (by decide) ?_ ?_)
    · rw [hk]
      exact Nat.le_trans (by decide : 1 ≤ 101) (Nat.le_add_right _ _)
    · exact Nat.le_trans (Nat.min_le_right _ _) (by decide : 200 ≤ 300)
  obtain ⟨steps', t, hrerun, hsucceeds, hresult', -⟩ :=
    ((new_unfailing hcached).inevitably (rfl : idleDex.fromLogs [] = []) ()).exists_run
  obtain ⟨hblocks, -, hexecuted, hnothing⟩ :=
    rerun_executed hrun hresult (by decide) (by decide) (by decide) hrerun
  have hreads : ∀ (s : BlockRangeIndexer Unit Unit Unit Unit) a s', Succeeds idleDex s a s' →
      ReadsDb s a s' := by
    rintro s _ s' h task answers rfl
    exact h.1
  obtain ⟨hfetches, -⟩ := hnothing (Machine.along_imp hreads hsucceeds)
  exact ⟨s, t, (hs.executesInOrder.complete hresult).2, hblocks, hexecuted hresult', hfetches⟩

end Rerun

end BlockRangeIndexer

end Pochtecatl
