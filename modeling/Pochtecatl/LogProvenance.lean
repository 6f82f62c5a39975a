import Pochtecatl.BlockCache

namespace Pochtecatl

section Logs

variable {ρ θ π τ ε : Type} {dex : Dex ρ θ π τ}

/-- The logs of one block, in the order the node returned them. -/
def logsOf (logs : List (RpcLog ρ)) (n : Nat) : List (RpcLog ρ) :=
  logs.filter fun log => log.blockNumber = some n

/-- The ticks of the block are built from logs that the node returned for its chunk. -/
def FromLogs (dex : Dex ρ θ π τ) (rpcFetches : List (RpcFetch ρ π ε)) (n : Nat) (ticks : τ) :
    Prop :=
  ∃ rpcFetch ∈ rpcFetches, ∃ logs pairs,
    rpcFetch.startBlockNumber ≤ n ∧ n ≤ rpcFetch.endBlockNumber ∧
    rpcFetch.answers.getLogs = .ok logs ∧ rpcFetch.answers.getPairs = .ok pairs ∧
    (dex.fromLogs (logsOf logs n)).foldlM (dex.addTrade pairs) dex.noTicks = some ticks

theorem FromLogs.mono {rpcFetches more : List (RpcFetch ρ π ε)} {n : Nat} {ticks : τ}
    (h : FromLogs dex rpcFetches n ticks) (hsub : rpcFetches ⊆ more) : FromLogs dex more n ticks := by
  obtain ⟨rpcFetch, hm, hrest⟩ := h
  exact ⟨rpcFetch, hsub hm, hrest⟩

theorem logsByBlockNumber_get? {logs : List (RpcLog ρ)}
    {byNumber : OrdMap Nat (List (RpcLog ρ))}
    (h : BlockChunk.logsByBlockNumber logs = some byNumber) (n : Nat) :
    (byNumber.get? n).getD [] = logsOf logs n := by
  suffices hgen : ∀ (logs : List (RpcLog ρ)) (acc : OrdMap Nat (List (RpcLog ρ))),
      logs.foldlM (fun acc log => log.blockNumber.map fun n =>
        acc.insert n ((acc.get? n).getD [] ++ [log])) acc = some byNumber →
      (byNumber.get? n).getD [] = (acc.get? n).getD [] ++ logsOf logs n by
    simpa using hgen logs .empty h
  intro logs
  induction logs with
  | nil =>
    intro acc h
    cases h
    simp [logsOf]
  | cons log logs ih =>
    intro acc h
    rw [List.foldlM_cons] at h
    obtain ⟨acc', hacc, hrest⟩ := Option.bind_eq_some_iff.mp h
    obtain ⟨k, hk, rfl⟩ := Option.map_eq_some_iff.mp hacc
    rw [ih _ hrest]
    by_cases hkn : k = n
    · subst hkn
      simp [logsOf, hk]
    · rw [OrdMap.get?_insert_ne (Ne.symm hkn)]
      simp [logsOf, hk, hkn]

/-- When get_logs succeeds, the blocks of the chunk are built from its logs. -/
theorem fetchFromRpc_fromLogs {startBlockNumber endBlockNumber : Nat}
    {answers : RpcAnswers ρ π ε} {blockChunk : BlockChunk τ} {logs : List (RpcLog ρ)}
    (h : BlockChunk.fetchFromRpc dex startBlockNumber endBlockNumber answers = .ok blockChunk)
    (hlogs : answers.getLogs = .ok logs) {rpcFetches : List (RpcFetch ρ π ε)}
    (hmem : ⟨startBlockNumber, endBlockNumber, answers⟩ ∈ rpcFetches) :
    ∀ block ∈ blockChunk.data, FromLogs dex rpcFetches block.blockNumber block.pairTicks := by
  obtain ⟨-, timestamp, pairs, byNumber, -, hpairs, hby, hm⟩ := BlockChunk.fetchFromRpc_eq_ok h
  intro block hb
  have hrange := (BlockChunk.fetchFromRpc_covers h).mem hb
  obtain ⟨builder, hbuilder, hbuild⟩ := (List.mem_of_mapM_option hm).mp hb
  obtain ⟨n, -, rfl⟩ := List.mem_map.mp hbuilder
  obtain ⟨ticks, hticks, rfl⟩ := Option.map_eq_some_iff.mp hbuild
  rw [hlogs] at hby
  have hn : (byNumber.get? n).getD [] = logsOf logs n := logsByBlockNumber_get? hby n
  refine ⟨_, hmem, logs, pairs, hrange.1, hrange.2, hlogs, hpairs, ?_⟩
  change (dex.fromLogs (logsOf logs n)).foldlM (dex.addTrade pairs) dex.noTicks = some ticks
  rw [← hn]
  exact hticks

end Logs

namespace BlocksTable

/-- An inserted table holds its old rows and those of the blocks. -/
theorem insertBlocks_row {τ : Type} {data : List (Block τ)} {table table' : BlocksTable τ}
    (h : table.insertBlocks data = .ok table') {n : Nat} {row : BlockRow τ}
    (hrow : table'.get? n = some row) :
    table.get? n = some row ∨
      ∃ block ∈ data, block.blockNumber = n ∧ block.pairTicks = row.pairTicks := by
  induction data generalizing table with
  | nil =>
    cases h
    exact Or.inl hrow
  | cons block data ih =>
    cases hinsert : table.insert (.ofBlock block) with
    | error k => simp [insertBlocks, hinsert, bind, Except.bind] at h
    | ok inserted =>
      replace h : inserted.insertBlocks data = .ok table' := by
        simpa [insertBlocks, hinsert, bind, Except.bind] using h
      rcases ih h with hold | ⟨other, hm, hn⟩
      · unfold insert at hinsert
        split at hinsert
        next => cases hinsert
        next =>
          cases hinsert
          rw [OrdMap.get?_insert] at hold
          split at hold
          next hn =>
            cases Option.some.inj hold
            exact Or.inr ⟨block, List.mem_cons_self, hn.symm, rfl⟩
          next => exact Or.inl hold
      · exact Or.inr ⟨other, List.mem_cons_of_mem _ hm, hn⟩

end BlocksTable

namespace BlockRangeIndexer

variable {ρ θ π τ ε : Type} {s : BlockRangeIndexer ρ π τ ε} {dex : Dex ρ θ π τ}

/-- The process executes the indexer, again and again, over one database. -/
inductive ProcessStep (ρ π ε : Type) where
  | exec (startBlockNumber endBlockNumber : Nat)
  | step (a : IndexerStep ρ π ε)

/-- A new execution finds the blocks table as the one before left it. -/
def restart (s : BlockRangeIndexer ρ π τ ε) (startBlockNumber endBlockNumber : Nat) :
    BlockRangeIndexer ρ π τ ε :=
  { (new s.blocks startBlockNumber endBlockNumber : BlockRangeIndexer ρ π τ ε) with
    rpcFetches := s.rpcFetches }

def processStep (dex : Dex ρ θ π τ) (s : BlockRangeIndexer ρ π τ ε) :
    ProcessStep ρ π ε → Option (BlockRangeIndexer ρ π τ ε)
  | .exec startBlockNumber endBlockNumber => some (s.restart startBlockNumber endBlockNumber)
  | .step a => s.step dex a

def process (dex : Dex ρ θ π τ) : Machine (BlockRangeIndexer ρ π τ ε) (ProcessStep ρ π ε) :=
  ⟨processStep dex⟩

/-- Every block that was stored or executed has the ticks of logs the node returned. -/
structure TicksFromLogs (dex : Dex ρ θ π τ) (s : BlockRangeIndexer ρ π τ ε) : Prop where
  rows : ∀ n row, s.blocks.get? n = some row → FromLogs dex s.rpcFetches n row.pairTicks
  executed : ∀ block ∈ s.executed, FromLogs dex s.rpcFetches block.blockNumber block.pairTicks

/-- A chunk fetched from the node is given up when get_logs fails, because its header is not found
either. -/
def FailsWithLogs (s : BlockRangeIndexer ρ π τ ε) (a : ProcessStep ρ π ε)
    (_ : BlockRangeIndexer ρ π τ ε) : Prop :=
  ∀ task answers c e, a = .step (.fetch task answers) → s.subtasks task = .fetching c →
    BlockChunk.fetchFromDb s.blocks answers.readsDb c (s.chunkEndBlockNumber c) = none →
    answers.getLogs = .error e →
    ∀ timestamp, answers.getBlockHeader ≠ .ok (some timestamp)

/-- All blocks in the process, also those on their way to the handler. -/
structure ProvenanceInv (dex : Dex ρ θ π τ) (s : BlockRangeIndexer ρ π τ ε) : Prop
    extends TicksFromLogs dex s where
  buffered : ∀ c blockChunk, s.chunkBuffer.get? c = some blockChunk →
    ∀ block ∈ blockChunk.data, FromLogs dex s.rpcFetches block.blockNumber block.pairTicks
  queue : ∀ blockChunk ∈ s.channel, ∀ block ∈ blockChunk.data,
    FromLogs dex s.rpcFetches block.blockNumber block.pairTicks
  sending : ∀ task blockChunk, s.subtasks task = .sending blockChunk →
    ∀ block ∈ blockChunk.data, FromLogs dex s.rpcFetches block.blockNumber block.pairTicks
  fetching : ∀ task c, s.subtasks task = .fetching c → c ≤ s.endBlockNumber

/-- A fetched chunk has its ticks from logs: its own, or those behind the stored rows. -/
theorem fetch_fromLogs {table : BlocksTable τ} {c stop : Nat} {answers : FetchAnswers ρ π ε}
    {blockChunk : BlockChunk τ} {rpcFetches : List (RpcFetch ρ π ε)} (hle : c ≤ stop)
    (hrows : ∀ n row, table.get? n = some row → FromLogs dex rpcFetches n row.pairTicks)
    (hfetch : BlockChunk.fetch dex table c stop answers = .ok blockChunk)
    (hlogs : BlockChunk.fetchFromDb table answers.readsDb c stop = none →
      ∃ logs, answers.getLogs = .ok logs) :
    ∀ block ∈ blockChunk.data, FromLogs dex
      (if (BlockChunk.fetchFromDb table answers.readsDb c stop).isSome then rpcFetches
        else rpcFetches ++ [⟨c, stop, answers.toRpcAnswers⟩]) block.blockNumber
      block.pairTicks := by
  unfold BlockChunk.fetch at hfetch
  split at hfetch
  next found hdb =>
    cases hfetch
    obtain ⟨-, -, -, hdata⟩ := BlockChunk.fetchFromDb_eq_some hle hdb
    intro block hb
    rw [hdata] at hb
    obtain ⟨⟨n, row⟩, hmem, rfl⟩ := List.mem_map.mp hb
    rw [hdb]
    exact hrows n row (OrdMap.mem_rangeEntries.mp hmem).1
  next hdb =>
    obtain ⟨logs, hok⟩ := hlogs hdb
    rw [hdb]
    exact fetchFromRpc_fromLogs hfetch hok (by simp)

/-- A step of one subtask. -/
theorem ProvenanceInv.setSubtask (h : s.ProvenanceInv dex) {task : Fin BLOCK_PARSER_CONCURRENCY}
    {subtask : Subtask τ ε} {iter : Nat} {channel : List (BlockChunk τ)}
    {rpcFetches : List (RpcFetch ρ π ε)} {s' : BlockRangeIndexer ρ π τ ε}
    (hs' : s' = { s.setSubtask task subtask with
      blockNumberChunkIter := iter, channel := channel, rpcFetches := rpcFetches })
    (hsub : s.rpcFetches ⊆ rpcFetches)
    (hsending : ∀ blockChunk, subtask = .sending blockChunk →
      ∀ block ∈ blockChunk.data, FromLogs dex rpcFetches block.blockNumber block.pairTicks)
    (hfetching : ∀ c, subtask = .fetching c → c ≤ s.endBlockNumber)
    (hqueue : ∀ blockChunk ∈ channel, blockChunk ∈ s.channel ∨
      s.subtasks task = .sending blockChunk) : s'.ProvenanceInv dex := by
  subst hs'
  refine ⟨⟨fun n row hrow => (h.rows n row hrow).mono hsub, fun block hb =>
    (h.executed block hb).mono hsub⟩, fun c other hget block hb =>
    (h.buffered c other hget block hb).mono hsub, fun other hm block hb => ?_,
    fun i other hi block hb => ?_, fun i c hi => ?_⟩
  · rcases hqueue other hm with hm | hm
    · exact (h.queue other hm block hb).mono hsub
    · exact (h.sending task other hm block hb).mono hsub
  · by_cases hne : i = task
    · subst hne
      exact hsending other (by simpa [BlockRangeIndexer.setSubtask] using hi) block hb
    · exact (h.sending i other (by simpa [BlockRangeIndexer.setSubtask, hne] using hi)
        block hb).mono hsub
  · by_cases hne : i = task
    · subst hne
      exact hfetching c (by simpa [BlockRangeIndexer.setSubtask] using hi)
    · exact h.fetching i c (by simpa [BlockRangeIndexer.setSubtask, hne] using hi)

theorem ProvenanceInv.fetch (h : s.ProvenanceInv dex) {task : Fin BLOCK_PARSER_CONCURRENCY}
    {c : Nat} {answers : FetchAnswers ρ π ε} (hfetching : s.subtasks task = .fetching c)
    (hlogs : BlockChunk.fetchFromDb s.blocks answers.readsDb c (s.chunkEndBlockNumber c) = none →
      ∀ e, answers.getLogs = .error e →
        ∀ timestamp, answers.getBlockHeader ≠ .ok (some timestamp)) :
    (s.fetch dex task c answers).ProvenanceInv dex := by
  have hle : c ≤ s.chunkEndBlockNumber c :=
    Nat.le_min.mpr ⟨Nat.le_add_right _ _, h.fetching task c hfetching⟩
  refine h.setSubtask (by rfl) ?_ (fun blockChunk he => ?_) (fun c' he => ?_)
    fun other hm => Or.inl hm
  · split
    next => exact fun _ hm => hm
    next => exact List.subset_append_left _ _
  · cases hfetch : BlockChunk.fetch dex s.blocks c (s.chunkEndBlockNumber c) answers with
    | error e =>
      rw [hfetch] at he
      cases he
    | ok fetched =>
      rw [hfetch] at he
      cases he
      refine fetch_fromLogs hle h.rows hfetch fun hdb => ?_
      cases hget : answers.getLogs with
      | ok logs => exact ⟨logs, rfl⟩
      | error e =>
        rw [BlockChunk.fetch, hdb] at hfetch
        obtain ⟨-, timestamp, -, -, hheader, -⟩ := BlockChunk.fetchFromRpc_eq_ok hfetch
        exact absurd hheader (hlogs hdb e hget timestamp)
  · cases hfetch : BlockChunk.fetch dex s.blocks c (s.chunkEndBlockNumber c) answers with
    | error e =>
      rw [hfetch] at he
      cases he
    | ok fetched =>
      rw [hfetch] at he
      cases he

theorem ProvenanceInv.handle (h : s.ProvenanceInv dex) {blockChunk : BlockChunk τ}
    {channel : List (BlockChunk τ)} {executes : Nat → Bool}
    (hchannel : s.channel = blockChunk :: channel) :
    (handle { s with channel := channel } executes blockChunk).ProvenanceInv dex := by
  have hdata := h.queue blockChunk (by simp [hchannel])
  have hqueue : ∀ other ∈ channel, ∀ block ∈ other.data,
      FromLogs dex s.rpcFetches block.blockNumber block.pairTicks :=
    fun other hm => h.queue other (by simp [hchannel, hm])
  rcases handle_effect (s := { s with channel := channel })
    (P := fun block => FromLogs dex s.rpcFetches block.blockNumber block.pairTicks)
    executes h.executed h.buffered hdata with
    ⟨n, -, -, hs'⟩ | ⟨blocks, handler, hb, -, ⟨executed, next, buffer, hs'⟩, hexecuted, hbuffered⟩
  · rw [hs']
    exact ⟨⟨h.rows, h.executed⟩, h.buffered, hqueue, h.sending, h.fetching⟩
  · rw [hs'] at hexecuted hbuffered ⊢
    refine ⟨⟨fun n row hrow => ?_, hexecuted⟩, hbuffered, hqueue, h.sending, h.fetching⟩
    rcases hb with ⟨-, rfl⟩ | ⟨-, hinsert⟩
    · exact h.rows n row hrow
    · rcases BlocksTable.insertBlocks_row hinsert hrow with hold | ⟨block, hm, rfl, hticks⟩
      · exact h.rows n row hold
      · rw [← hticks]
        exact hdata block hm

/-- A new execution has no blocks but those of the table. -/
theorem restart_provenance
    (h : ∀ n row, s.blocks.get? n = some row → FromLogs dex s.rpcFetches n row.pairTicks)
    (startBlockNumber endBlockNumber : Nat) :
    (s.restart startBlockNumber endBlockNumber).ProvenanceInv dex where
  rows := h
  executed := fun _ hb => by cases hb
  buffered := fun _ _ hget => by cases hget
  queue := fun _ hm => by cases hm
  sending := fun _ _ he => by cases he
  fetching := fun _ _ he => by cases he

theorem processStep_provenance {s' : BlockRangeIndexer ρ π τ ε} {a : ProcessStep ρ π ε}
    (h : s.ProvenanceInv dex) (hstep : s.processStep dex a = some s')
    (hfails : FailsWithLogs s a s') : s'.ProvenanceInv dex := by
  cases a with
  | exec startBlockNumber endBlockNumber =>
    cases Option.some.inj hstep
    exact restart_provenance h.rows startBlockNumber endBlockNumber
  | step a =>
    cases step_case hstep with
    | next task hidle =>
      unfold BlockRangeIndexer.next
      split
      next hle =>
        exact h.setSubtask (by rfl) (fun _ hm => hm) (fun _ he => by cases he)
          (fun c he => by cases he; exact hle) fun _ hm => Or.inl hm
      next =>
        exact h.setSubtask (by rfl) (fun _ hm => hm) (fun _ he => by cases he)
          (fun c he => by cases he) fun _ hm => Or.inl hm
    | fetch task c answers hfetching =>
      exact h.fetch hfetching fun hdb e he => hfails task answers c e rfl hfetching hdb he
    | sent task blockChunk hsending hrunning =>
      refine h.setSubtask (by rfl) (fun _ hm => hm) (fun _ he => by cases he)
        (fun c he => by cases he) fun other hm => ?_
      exact (List.mem_append.mp hm).imp_right fun hm => by rw [List.mem_singleton.mp hm]; exact hsending
    | unsent task blockChunk hsending =>
      exact h.setSubtask (by rfl) (fun _ hm => hm) (fun _ he => by cases he)
        (fun c he => by cases he) fun _ hm => Or.inl hm
    | abort task e hparser hover =>
      exact h.setSubtask (by rfl) (fun _ hm => hm) (fun _ he => by cases he)
        (fun c he => by cases he) fun _ hm => Or.inl hm
    | joinNext task e hfailed =>
      exact ⟨⟨h.rows, h.executed⟩, h.buffered, h.queue, h.sending, h.fetching⟩
    | joinAll hreturned =>
      exact ⟨⟨h.rows, h.executed⟩, h.buffered, h.queue, h.sending, h.fetching⟩
    | handle executes blockChunk channel hrunning hchannel => exact h.handle hchannel
    | databaseError blockChunk channel hrunning hchannel hrpc =>
      exact ⟨⟨h.rows, h.executed⟩, h.buffered, fun other hm => h.queue other (by simp [hchannel, hm]),
        h.sending, h.fetching⟩
    | close hrunning hchannel hover =>
      exact ⟨⟨h.rows, h.executed⟩, h.buffered, h.queue, h.sending, h.fetching⟩

theorem new_provenance (dex : Dex ρ θ π τ) (startBlockNumber endBlockNumber : Nat) :
    (new .empty startBlockNumber endBlockNumber : BlockRangeIndexer ρ π τ ε).ProvenanceInv dex :=
  restart_provenance (s := new .empty startBlockNumber endBlockNumber)
    (fun _ _ hrow => by cases hrow) startBlockNumber endBlockNumber

/-- Over any number of executions on a fresh database, blocks are stored and executed with
the ticks of returned logs, as long as no chunk outlives the failure of its get_logs. -/
theorem process_ticksFromLogs (dex : Dex ρ θ π τ) (startBlockNumber endBlockNumber : Nat)
    (steps : List (ProcessStep ρ π ε))
    (h : (process dex).Along FailsWithLogs (new .empty startBlockNumber endBlockNumber) steps) :
    (process dex).Throughout (TicksFromLogs dex) (new .empty startBlockNumber endBlockNumber)
      steps :=
  Machine.throughout_of_along (I := ProvenanceInv dex) (fun _ h => h.toTicksFromLogs)
    (fun _ _ _ h hstep hp => processStep_provenance h hstep hp) h
    (new_provenance dex startBlockNumber endBlockNumber)

/-- A task takes the first chunk, fetches it with these answers and hands it over. -/
def fetchFirst (answers : RpcAnswers ρ Unit Unit) : List (ProcessStep ρ Unit Unit) :=
  [.step (.next firstTask), .step (.fetch firstTask ⟨answers, true⟩),
    .step (.send firstTask), .step (.handle fun _ => true)]

/-- The ticks of a block are the events of its logs. -/
def eventsDex : Dex Nat Nat Unit (List Nat) :=
  ⟨fun logs => logs.map (·.event), [], fun _ ticks event => some (ticks ++ [event])⟩

/-- An execution whose node is down, and one that then gets its logs. -/
def failureThenLogs : List (ProcessStep Nat Unit Unit) :=
  [.step (.next firstTask),
    .step (.fetch firstTask ⟨⟨.error (), .error (), .ok ()⟩, true⟩), .exec 1 2] ++
    fetchFirst ⟨.ok [⟨some 1, none, none, 7⟩, ⟨some 2, none, none, 8⟩, ⟨some 1, none, none, 9⟩],
      .ok (some 100), .ok ()⟩

theorem process_ticksFromLogs_after_failure :
    ((process eventsDex).run (new .empty 1 2) failureThenLogs).map
        (fun s => s.executed.map (·.pairTicks)) = some [[7, 9], [8]] ∧
      (process eventsDex).Throughout (TicksFromLogs eventsDex) (new .empty 1 2)
        failureThenLogs := by
  refine ⟨by decide +kernel, process_ticksFromLogs eventsDex 1 2 _ (Machine.along_of_forall ?_)⟩
  intro a ha s s' task answers c e rfl _ _ hlogs
  simp only [failureThenLogs, fetchFirst, List.cons_append, List.nil_append, List.mem_cons,
    List.not_mem_nil, or_false, reduceCtorEq, false_or, ProcessStep.step.injEq,
    IndexerStep.fetch.injEq] at ha
  rcases ha with ⟨-, rfl⟩ | ⟨-, rfl⟩
  · exact fun timestamp h => by cases h
  · cases hlogs

/-- When only get_logs fails, the chunk is stored and executed as blocks without trades. -/
theorem silentFailure_executed : ∃ s : BlockRangeIndexer Nat Unit (List Nat) Unit,
    (process eventsDex).run (new .empty 1 1) (fetchFirst ⟨.error (), .ok (some 100), .ok ()⟩) =
        some s ∧
      s.executed.map (·.blockNumber) = [1] ∧ (s.blocks.get? 1).isSome ∧
      ¬s.TicksFromLogs eventsDex := by
  refine ⟨_, rfl, rfl, rfl, fun h => ?_⟩
  obtain ⟨rpcFetch, hm, logs, -, -, -, hlogs, -⟩ := h.rows 1 ⟨100, []⟩ rfl
  cases List.mem_singleton.mp hm
  cases hlogs

end BlockRangeIndexer

end Pochtecatl
