import Pochtecatl.ExecutionOrder

namespace Pochtecatl

namespace BlocksTable

variable {τ : Type}

theorem insert_of_absent {table : BlocksTable τ} {model : BlockModel τ}
    (h : table.get? model.number = none) :
    table.insert model =
      .ok (OrdMap.insert table model.number ⟨model.timestamp, model.pairTicks⟩) := by
  simp [insert, h]

/-- Inserted blocks are there afterwards, were not before, and are all that changed. -/
theorem insertBlocks_get? {data : List (Block τ)} {table table' : BlocksTable τ}
    (h : table.insertBlocks data = .ok table') (n : Nat) :
    (n ∈ data.map (·.blockNumber) → table.get? n = none ∧ (table'.get? n).isSome) ∧
      (n ∉ data.map (·.blockNumber) → table'.get? n = table.get? n) := by
  induction data generalizing table with
  | nil =>
    cases h
    exact ⟨fun hn => by simp at hn, fun _ => rfl⟩
  | cons block data ih =>
    cases hinsert : table.insert (.ofBlock block) with
    | error k => simp [insertBlocks, hinsert, bind, Except.bind] at h
    | ok inserted =>
      replace h : inserted.insertBlocks data = .ok table' := by
        simpa [insertBlocks, hinsert, bind, Except.bind] using h
      obtain ⟨hin, hout⟩ := ih h
      unfold insert at hinsert
      split at hinsert
      next => cases hinsert
      next habsent =>
        cases hinsert
        rw [List.map_cons, List.mem_cons]
        by_cases hn : n = block.blockNumber
        · subst hn
          refine ⟨fun _ => ⟨by simpa [BlockModel.ofBlock] using habsent, ?_⟩, by simp⟩
          by_cases hm : block.blockNumber ∈ data.map (·.blockNumber)
          · exact (hin hm).2
          · rw [hout hm]
            simp [BlockModel.ofBlock]
        · have hget : (OrdMap.insert table (BlockModel.ofBlock block).number
              ⟨(BlockModel.ofBlock block).timestamp, (BlockModel.ofBlock block).pairTicks⟩).get? n =
              table.get? n := OrdMap.get?_insert_ne hn
          rw [hget] at hin hout
          exact ⟨fun hm => hin (hm.resolve_left hn), fun hm => hout fun hd => hm (Or.inr hd)⟩

/-- Blocks that are absent and distinct can be inserted. -/
theorem exists_insertBlocks {data : List (Block τ)} {table : BlocksTable τ}
    (habsent : ∀ block ∈ data, table.get? block.blockNumber = none)
    (hnodup : (data.map (·.blockNumber)).Nodup) :
    ∃ table', table.insertBlocks data = .ok table' := by
  induction data generalizing table with
  | nil => exact ⟨table, rfl⟩
  | cons block data ih =>
    rw [List.map_cons, List.nodup_cons] at hnodup
    have hinsert : table.insert (BlockModel.ofBlock block) = .ok (OrdMap.insert table
        block.blockNumber ⟨block.blockTimestamp, block.pairTicks⟩) :=
      insert_of_absent (habsent block List.mem_cons_self)
    have hrest : ∀ other ∈ data, (OrdMap.insert table block.blockNumber
        ⟨block.blockTimestamp, block.pairTicks⟩).get? other.blockNumber = none := by
      intro other hm
      have hne : other.blockNumber ≠ block.blockNumber := fun he =>
        hnodup.1 (he ▸ List.mem_map_of_mem hm)
      rw [OrdMap.get?_insert_ne hne]
      exact habsent other (List.mem_cons_of_mem _ hm)
    obtain ⟨table', h⟩ := ih hrest hnodup.2
    refine ⟨table', ?_⟩
    rw [insertBlocks, List.foldlM_cons, hinsert]
    exact h

theorem insertBlocks_keeps {data : List (Block τ)} {table table' : BlocksTable τ}
    (h : table.insertBlocks data = .ok table') {n : Nat} {row : BlockRow τ}
    (hrow : table.get? n = some row) : table'.get? n = some row := by
  by_cases hn : n ∈ data.map (·.blockNumber)
  · rw [((insertBlocks_get? h n).1 hn).1] at hrow
    cases hrow
  · rw [(insertBlocks_get? h n).2 hn, hrow]

end BlocksTable

namespace BlockRangeIndexer

variable {ρ θ π τ ε : Type} {s : BlockRangeIndexer ρ π τ ε} {place : Nat → Place}
  {dex : Dex ρ θ π τ} {initial : BlocksTable τ}

/-- The rows of the chunk that the table held before: none, or all in reach of a query. -/
def CachedWhole (initial : BlocksTable τ) (s : BlockRangeIndexer ρ π τ ε) (c : Nat) : Prop :=
  (∀ n, c ≤ n → n ≤ s.chunkEndBlockNumber c → initial.get? n = none) ∨
    BlockChunk.Cached initial c (s.chunkEndBlockNumber c)

def Handled (s : BlockRangeIndexer ρ π τ ε) (c : Nat) : Prop :=
  (s.chunkBuffer.get? c).isSome ∨ c < s.nextBlockNumber

theorem Placed.handled_iff (h : s.Placed place) {c : Nat} (hchunk : s.IsChunk c) :
    s.Handled c ↔ (place c).handled := by
  unfold Handled
  rw [h.buffer c, ← and_iff_right_of_imp (fun _ : c < s.nextBlockNumber => hchunk), h.done c]
  cases place c <;> simp [Place.handled]

/-- What the table holds next to its initial rows: the blocks of the handled chunks. -/
structure Stored (initial : BlocksTable τ) (s : BlockRangeIndexer ρ π τ ε) : Prop where
  untouched : ∀ c, s.IsChunk c → ¬s.Handled c → ∀ n, c ≤ n → n ≤ s.chunkEndBlockNumber c →
    s.blocks.get? n = initial.get? n
  inRange : ∀ n, (s.blocks.get? n).isSome → (initial.get? n).isSome ∨
    s.startBlockNumber ≤ n ∧ n ≤ s.endBlockNumber
  stored : ∀ c, s.IsChunk c → s.Handled c → ∀ n, c ≤ n → n ≤ s.chunkEndBlockNumber c →
    (s.blocks.get? n).isSome
  sending : ∀ task blockChunk c, s.subtasks task = .sending blockChunk →
    blockChunk.start? = some c → blockChunk.source = .db →
      BlockChunk.Cached initial c (s.chunkEndBlockNumber c)
  queue : ∀ blockChunk ∈ s.channel, ∀ c, blockChunk.start? = some c → blockChunk.source = .db →
    BlockChunk.Cached initial c (s.chunkEndBlockNumber c)

structure CacheInv (initial : BlocksTable τ) (startBlockNumber endBlockNumber : Nat)
    (s : BlockRangeIndexer ρ π τ ε) : Prop extends Inv startBlockNumber endBlockNumber s where
  persisted : ∀ n, s.handler ≠ .err (.insert n)
  kept : ∀ n row, initial.get? n = some row → s.blocks.get? n = some row
  stored : (∀ e, s.handler ≠ .err e) → s.Stored initial

theorem new_cacheInv (initial : BlocksTable τ) (startBlockNumber endBlockNumber : Nat) :
    CacheInv initial startBlockNumber endBlockNumber
      (new initial startBlockNumber endBlockNumber : BlockRangeIndexer ρ π τ ε) where
  toInv := new_inv initial startBlockNumber endBlockNumber
  persisted := fun n h => by cases h
  kept := fun _ _ h => h
  stored := fun _ => by
    refine ⟨fun _ _ _ _ _ _ => rfl, fun n h => Or.inl h, fun c hc hh => ?_, fun task b c h => ?_,
      fun b h => ?_⟩
    · obtain ⟨-, k, hk⟩ := hc
      rcases hh with hb | hlt
      · simp [new] at hb
      · simp only [new] at hk hlt
        omega
    · cases h
    · cases h

/-- The steps of the fetch tasks leave the table and the chunks handled as they are. -/
theorem Stored.frame (h : s.Stored initial) {s' : BlockRangeIndexer ρ π τ ε} {iter : Nat}
    {subtasks : Fin BLOCK_PARSER_CONCURRENCY → Subtask τ ε} {channel : List (BlockChunk τ)}
    {parser : TaskStatus (ParserError ε)} {handler : TaskStatus HandlerError}
    {rpcFetches : List (RpcFetch ρ π ε)}
    (hs' : s' = { s with
      blockNumberChunkIter := iter, subtasks := subtasks, channel := channel, parser := parser
      handler := handler, rpcFetches := rpcFetches })
    (hsending : ∀ task blockChunk c, subtasks task = .sending blockChunk →
      blockChunk.start? = some c → blockChunk.source = .db →
        BlockChunk.Cached initial c (s.chunkEndBlockNumber c))
    (hqueue : ∀ blockChunk ∈ channel, ∀ c, blockChunk.start? = some c → blockChunk.source = .db →
      BlockChunk.Cached initial c (s.chunkEndBlockNumber c)) :
    s'.Stored initial := by
  subst hs'
  exact ⟨h.untouched, h.inRange, h.stored, hsending, hqueue⟩

/-- A subtask that does not send, or sends a chunk with the right source. -/
theorem Stored.setSubtask (h : s.Stored initial) {task : Fin BLOCK_PARSER_CONCURRENCY}
    {subtask : Subtask τ ε}
    (hsending : ∀ blockChunk c, subtask = .sending blockChunk → blockChunk.start? = some c →
      blockChunk.source = .db → BlockChunk.Cached initial c (s.chunkEndBlockNumber c)) :
    ∀ task' blockChunk c, Function.update s.subtasks task subtask task' = .sending blockChunk →
      blockChunk.start? = some c → blockChunk.source = .db →
        BlockChunk.Cached initial c (s.chunkEndBlockNumber c) := by
  intro task' blockChunk c he hc
  by_cases ht : task' = task
  · subst ht
    rw [Function.update_self] at he
    exact hsending blockChunk c he hc
  · rw [Function.update_of_ne ht] at he
    exact h.sending task' blockChunk c he hc

/-- Chunks of the range do not overlap. -/
theorem IsChunk.eq_of_mem {c c' n : Nat} (h : s.IsChunk c) (h' : s.IsChunk c') (hn : c ≤ n)
    (hne : n ≤ s.chunkEndBlockNumber c) (hn' : c' ≤ n) (hne' : n ≤ s.chunkEndBlockNumber c') :
    c = c' := by
  obtain ⟨-, k, hk⟩ := h
  obtain ⟨-, k', hk'⟩ := h'
  simp only [chunkEndBlockNumber, BLOCK_PARSER_CHUNK_SIZE] at hk hk' hne hne'
  omega

theorem cached_congr {table table' : BlocksTable τ} {lo hi : Nat}
    (h : ∀ n, lo ≤ n → n ≤ hi → table.get? n = table'.get? n) :
    BlockChunk.Cached table lo hi ↔ BlockChunk.Cached table' lo hi :=
  and_congr_right fun _ => forall_congr' fun n => forall_congr' fun hlo =>
    forall_congr' fun hhi => by rw [h n hlo hhi]

/-- A fetched chunk comes from the database when its range was cached before the run and the
database can be read. -/
theorem Stored.fetch_source (h : s.Stored initial) {c : Nat} (hchunk : s.IsChunk c)
    (hnot : ¬s.Handled c) {answers : FetchAnswers ρ π ε} {blockChunk : BlockChunk τ}
    (hfetch : BlockChunk.fetch dex s.blocks c (s.chunkEndBlockNumber c) answers = .ok blockChunk) :
    blockChunk.source = .db ↔
      answers.readsDb ∧ BlockChunk.Cached initial c (s.chunkEndBlockNumber c) :=
  (BlockChunk.fetch_source hchunk.le_chunkEnd hfetch).trans
    (and_congr_right fun _ => cached_congr (h.untouched c hchunk hnot))

/-- The handler inserts a chunk of the node unless some of its rows were there before. -/
theorem CacheInv.insertBlocks {startBlockNumber endBlockNumber : Nat}
    (h : s.CacheInv initial startBlockNumber endBlockNumber) (hrunning : s.handler = .running)
    {blockChunk : BlockChunk τ} {channel : List (BlockChunk τ)}
    (hchannel : s.channel = blockChunk :: channel) {c : Nat}
    (hstart : blockChunk.start? = some c) :
    (∀ n, c ≤ n → n ≤ s.chunkEndBlockNumber c → initial.get? n = none) ↔
      ∃ blocks, s.blocks.insertBlocks blockChunk.data = .ok blocks := by
  have hne : ∀ e, s.handler ≠ .err e := fun e he => by rw [hrunning] at he; cases he
  obtain ⟨place, hr⟩ := h.running hne
  have hs := h.stored hne
  obtain ⟨c', hchunk, hcovers⟩ := hr.queue blockChunk (by simp [hchannel])
  cases Option.some.inj (hstart.symm.trans (hcovers.head? hchunk.le_chunkEnd))
  have hplace := (hr.placed.recv hchannel hstart).1
  have hnot : ¬s.Handled c := by
    rw [hr.placed.handled_iff hchunk, hplace]
    simp [Place.handled]
  constructor
  · intro hnone
    refine BlocksTable.exists_insertBlocks (fun block hm => ?_) ?_
    · obtain ⟨hlo, hhi⟩ := hcovers.mem hm
      rw [hs.untouched c hchunk hnot _ hlo hhi]
      exact hnone _ hlo hhi
    · rw [hcovers]
      exact List.nodup_range'
  · rintro ⟨blocks, hinsert⟩
    intro n hlo hhi
    have hn : n ∈ blockChunk.data.map (·.blockNumber) := by
      rw [hcovers]
      exact List.mem_range'_1.mpr ⟨hlo, by omega⟩
    rw [← hs.untouched c hchunk hnot n hlo hhi]
    exact ((BlocksTable.insertBlocks_get? hinsert n).1 hn).1

/-- The chunks that the handler takes were not cached at all, or were cached whole and could be
read. -/
def TakesWhole (initial : BlocksTable τ) (s : BlockRangeIndexer ρ π τ ε)
    (a : IndexerStep ρ π ε) (_ : BlockRangeIndexer ρ π τ ε) : Prop :=
  ∀ executes blockChunk channel c, a = .handle executes → s.channel = blockChunk :: channel →
    blockChunk.start? = some c →
      (∀ n, c ≤ n → n ≤ s.chunkEndBlockNumber c → initial.get? n = none) ∨
        BlockChunk.Cached initial c (s.chunkEndBlockNumber c) ∧ blockChunk.source = .db

/-- Once a chunk is written, or was cached, the table holds its range. -/
theorem CacheInv.written {startBlockNumber endBlockNumber : Nat}
    (h : s.CacheInv initial startBlockNumber endBlockNumber) (hrunning : s.handler = .running)
    {blockChunk : BlockChunk τ} {channel : List (BlockChunk τ)}
    (hchannel : s.channel = blockChunk :: channel) {c : Nat}
    (hcovers : blockChunk.Covers c (s.chunkEndBlockNumber c))
    (hstart : blockChunk.start? = some c) {blocks : BlocksTable τ}
    (hb : blockChunk.source = .db ∧ blocks = s.blocks ∨
      blockChunk.source = .rpc ∧ s.blocks.insertBlocks blockChunk.data = .ok blocks) (n : Nat) :
    (c ≤ n ∧ n ≤ s.chunkEndBlockNumber c → (blocks.get? n).isSome) ∧
      (¬(c ≤ n ∧ n ≤ s.chunkEndBlockNumber c) → blocks.get? n = s.blocks.get? n) := by
  have hs := h.stored fun e he => by rw [hrunning] at he; cases he
  rcases hb with ⟨hdb, rfl⟩ | ⟨-, hinsert⟩
  · refine ⟨fun ⟨hlo, hhi⟩ => ?_, fun _ => rfl⟩
    obtain ⟨-, hall⟩ := hs.queue blockChunk (by simp [hchannel]) c hstart hdb
    obtain ⟨row, hrow⟩ := Option.isSome_iff_exists.mp (hall n hlo hhi)
    rw [h.kept n row hrow]
    rfl
  · have hmem : n ∈ blockChunk.data.map (·.blockNumber) ↔
        c ≤ n ∧ n ≤ s.chunkEndBlockNumber c := by
      rw [hcovers, List.mem_range'_1]
      omega
    rw [← hmem]
    exact ⟨fun hm => ((BlocksTable.insertBlocks_get? hinsert n).1 hm).2,
      (BlocksTable.insertBlocks_get? hinsert n).2⟩

theorem CacheInv.handle {startBlockNumber endBlockNumber : Nat}
    (h : s.CacheInv initial startBlockNumber endBlockNumber) (hrunning : s.handler = .running)
    {blockChunk : BlockChunk τ} {channel : List (BlockChunk τ)} {executes : Nat → Bool}
    (hchannel : s.channel = blockChunk :: channel)
    (hwhole : ∀ c, blockChunk.start? = some c →
      (∀ n, c ≤ n → n ≤ s.chunkEndBlockNumber c → initial.get? n = none) ∨
        BlockChunk.Cached initial c (s.chunkEndBlockNumber c) ∧ blockChunk.source = .db)
    (hinv : Inv startBlockNumber endBlockNumber
      (handle { s with channel := channel } executes blockChunk)) :
    CacheInv initial startBlockNumber endBlockNumber
      (handle { s with channel := channel } executes blockChunk) := by
  have hne : ∀ e, s.handler ≠ .err e := fun e he => by rw [hrunning] at he; cases he
  obtain ⟨place, hr⟩ := h.running hne
  have hs := h.stored hne
  obtain ⟨c, hchunk, hcovers⟩ := hr.queue blockChunk (by simp [hchannel])
  have hstart : blockChunk.start? = some c := hcovers.head? hchunk.le_chunkEnd
  have hrun := (hr.handle hchannel hrunning executes).2
  have hdata : ∀ block ∈ blockChunk.data, True := fun _ _ => trivial
  rcases handle_effect (s := { s with channel := channel }) executes (fun _ _ => trivial)
    (fun _ _ _ _ _ => trivial) hdata with
    ⟨n, hrpc, hinsert, -⟩ | ⟨blocks, handler, hb, hh, ⟨executed, next, buffer, hs'⟩, -, -⟩
  · have hnone := (hwhole c hstart).resolve_right fun ⟨_, hdb⟩ => by
      rw [hrpc] at hdb
      cases hdb
    obtain ⟨blocks, hok⟩ := (h.insertBlocks hrunning hchannel hstart).mp hnone
    rw [show s.blocks.insertBlocks blockChunk.data = .error n from hinsert] at hok
    cases hok
  · rw [hs'] at hrun hinv ⊢
    refine ⟨hinv, fun n he => ?_, fun n row hrow => ?_, fun hne' => ?_⟩
    · rcases hh with rfl | ⟨k, rfl⟩
      · exact h.persisted n he
      · cases he
    · rcases hb with ⟨-, rfl⟩ | ⟨-, hinsert⟩
      · exact h.kept n row hrow
      · exact BlocksTable.insertBlocks_keeps hinsert (h.kept n row hrow)
    · obtain ⟨place', hr', hfollows⟩ := hrun hne'
      have hwritten := h.written hrunning hchannel hcovers hstart hb
      have hhandled : ∀ c', s.IsChunk c' → ((buffer.get? c').isSome ∨ c' < next ↔
          c' = c ∨ s.Handled c') := by
        intro c' hc'
        rw [hr.placed.handled_iff hc']
        refine (hr'.placed.handled_iff hc').trans ?_
        rw [(hfollows c hstart c').handled_eq]
        by_cases hcc : c' = c
        · simp [hcc, Place.handled]
        · simp [hcc]
      refine ⟨fun c' hc' hnot n hlo hhi => ?_, fun n hn => ?_, fun c' hc' hh' n hlo hhi => ?_,
        hs.sending, fun other hm => hs.queue other (by simp [hchannel, hm])⟩
      · have hnot' := not_or.mp (mt (hhandled c' hc').mpr hnot)
        rw [← hs.untouched c' hc' hnot'.2 n hlo hhi]
        refine (hwritten n).2 fun hin => hnot'.1 ?_
        exact IsChunk.eq_of_mem hc' hchunk hlo hhi hin.1 hin.2
      · by_cases hin : c ≤ n ∧ n ≤ s.chunkEndBlockNumber c
        · obtain ⟨-, k, hk⟩ := hchunk
          have hlo : s.startBlockNumber ≤ c := hk ▸ Nat.le_add_right _ _
          exact Or.inr ⟨Nat.le_trans hlo hin.1, Nat.le_trans hin.2 (Nat.min_le_right _ _)⟩
        · rw [(hwritten n).2 hin] at hn
          exact hs.inRange n hn
      · by_cases hin : c ≤ n ∧ n ≤ s.chunkEndBlockNumber c
        · exact (hwritten n).1 hin
        · rw [(hwritten n).2 hin]
          rcases (hhandled c' hc').mp hh' with rfl | hold
          · exact absurd ⟨hlo, hhi⟩ hin
          · exact hs.stored c' hc' hold n hlo hhi

theorem step_cacheInv {startBlockNumber endBlockNumber : Nat} {s' : BlockRangeIndexer ρ π τ ε}
    {a : IndexerStep ρ π ε} (h : s.CacheInv initial startBlockNumber endBlockNumber)
    (hstep : s.step dex a = some s') (hwhole : TakesWhole initial s a s') :
    s'.CacheInv initial startBlockNumber endBlockNumber := by
  have hinv := step_inv h.toInv hstep
  cases step_case hstep with
  | next task hidle =>
    have hsub : ∀ subtask : Subtask τ ε, (∀ blockChunk, subtask ≠ .sending blockChunk) →
        ∀ iter, s.Stored initial → Stored initial
          { s.setSubtask task subtask with blockNumberChunkIter := iter } := by
      intro subtask hns iter hs
      exact hs.frame (by rfl) (hs.setSubtask fun blockChunk c he => absurd he (hns blockChunk))
        hs.queue
    unfold BlockRangeIndexer.next at hinv ⊢
    split at hinv
    next hle =>
      rw [if_pos hle]
      exact ⟨hinv, h.persisted, h.kept, fun hne => hsub _ (by simp) _ (h.stored hne)⟩
    next hle =>
      rw [if_neg hle]
      exact ⟨hinv, h.persisted, h.kept, fun hne => hsub _ (by simp) _ (h.stored hne)⟩
  | fetch task c answers hfetching =>
    refine ⟨hinv, h.persisted, h.kept, fun hne => ?_⟩
    have hs := h.stored hne
    obtain ⟨place, hr⟩ := h.running hne
    have hplace : place c = .subtask task := (hr.placed.subtask task c).mp (Or.inl hfetching)
    have hchunk : s.IsChunk c := hr.placed.isChunk (by simp [hplace])
    have hnot : ¬s.Handled c := by
      rw [hr.placed.handled_iff hchunk, hplace]
      simp [Place.handled]
    refine hs.frame (by rfl) (hs.setSubtask fun blockChunk c' he hstart => ?_) hs.queue
    cases hfetch : BlockChunk.fetch dex s.blocks c (s.chunkEndBlockNumber c) answers with
    | error e =>
      rw [hfetch] at he
      cases he
    | ok fetched =>
      rw [hfetch] at he
      cases he
      have hcovers := BlockChunk.fetch_covers hchunk.le_chunkEnd hfetch
      cases Option.some.inj ((hcovers.head? hchunk.le_chunkEnd).symm.trans hstart)
      exact fun hdb => ((hs.fetch_source hchunk hnot hfetch).mp hdb).2
  | sent task blockChunk hsending hrunning =>
    refine ⟨hinv, h.persisted, h.kept, fun hne => ?_⟩
    have hs := h.stored hne
    refine hs.frame (by rfl) (hs.setSubtask fun _ _ he => by cases he) fun other hm c hc => ?_
    rcases List.mem_append.mp hm with hm | hm
    · exact hs.queue other hm c hc
    · rw [List.mem_singleton.mp hm] at hc ⊢
      exact hs.sending task blockChunk c hsending hc
  | unsent task blockChunk hsending =>
    refine ⟨hinv, h.persisted, h.kept, fun hne => ?_⟩
    have hs := h.stored hne
    exact hs.frame (by rfl) (hs.setSubtask fun _ _ he => by cases he) hs.queue
  | abort task e hparser hover =>
    refine ⟨hinv, h.persisted, h.kept, fun hne => ?_⟩
    have hs := h.stored hne
    exact hs.frame (by rfl) (hs.setSubtask fun _ _ he => by cases he) hs.queue
  | joinNext task e hfailed =>
    refine ⟨hinv, h.persisted, h.kept, fun hne => ?_⟩
    have hs := h.stored hne
    exact hs.frame (by rfl) hs.sending hs.queue
  | joinAll hreturned =>
    refine ⟨hinv, h.persisted, h.kept, fun hne => ?_⟩
    have hs := h.stored hne
    exact hs.frame (by rfl) hs.sending hs.queue
  | handle executes blockChunk channel hrunning hchannel =>
    exact h.handle hrunning hchannel
      (fun c hc => hwhole executes blockChunk channel c rfl hchannel hc) hinv
  | databaseError blockChunk channel hrunning hchannel hrpc =>
    exact ⟨hinv, fun n he => (by cases he), h.kept, fun hne => absurd rfl (hne _)⟩
  | close hrunning hchannel hover =>
    refine ⟨hinv, fun n he => (by cases he), h.kept, fun _ => ?_⟩
    have hs := h.stored fun e he => by rw [hrunning] at he; cases he
    exact hs.frame (by rfl) hs.sending hs.queue

/-- The table takes every chunk that comes from the node and keeps its rows. After an
execution without an error it has a row for each block of the range next to them. -/
structure AcceptsRerun (initial : BlocksTable τ) (startBlockNumber endBlockNumber : Nat)
    (s : BlockRangeIndexer ρ π τ ε) : Prop where
  persisted : ∀ n, s.handler ≠ .err (.insert n)
  kept : ∀ n row, initial.get? n = some row → s.blocks.get? n = some row
  complete : s.result = some (.ok ()) → ∀ n, (s.blocks.get? n).isSome ↔
    (initial.get? n).isSome ∨ startBlockNumber ≤ n ∧ n ≤ endBlockNumber

theorem exists_isChunk {n : Nat} (hlo : s.startBlockNumber ≤ n) (hhi : n ≤ s.endBlockNumber) :
    ∃ c, s.IsChunk c ∧ c ≤ n ∧ n ≤ s.chunkEndBlockNumber c := by
  have hdiv := Nat.div_add_mod (n - s.startBlockNumber) (BLOCK_PARSER_CHUNK_SIZE + 1)
  have hmod : (n - s.startBlockNumber) % (BLOCK_PARSER_CHUNK_SIZE + 1) <
      BLOCK_PARSER_CHUNK_SIZE + 1 := Nat.mod_lt _ (Nat.succ_pos _)
  refine ⟨s.startBlockNumber + (BLOCK_PARSER_CHUNK_SIZE + 1) *
    ((n - s.startBlockNumber) / (BLOCK_PARSER_CHUNK_SIZE + 1)), ⟨?_, _, rfl⟩, ?_, ?_⟩
  · omega
  · omega
  · exact Nat.le_min.mpr ⟨by omega, hhi⟩

theorem CacheInv.acceptsRerun {startBlockNumber endBlockNumber : Nat}
    (h : s.CacheInv initial startBlockNumber endBlockNumber) :
    s.AcceptsRerun initial startBlockNumber endBlockNumber := by
  refine ⟨h.persisted, h.kept, fun hresult n => ?_⟩
  obtain ⟨hhandler, hparser⟩ := result_eq_ok hresult
  have hne : ∀ e, s.handler ≠ .err e := fun e he => by rw [hhandler] at he; cases he
  obtain ⟨place, hr⟩ := h.running hne
  have hs := h.stored hne
  have hend := hr.end_lt hhandler hparser
  rw [← h.start_eq, ← h.end_eq]
  refine ⟨hs.inRange n, ?_⟩
  rintro (hn | ⟨hlo, hhi⟩)
  · obtain ⟨row, hrow⟩ := Option.isSome_iff_exists.mp hn
    rw [h.kept n row hrow]
    rfl
  · obtain ⟨c, hchunk, hcn, hnc⟩ := exists_isChunk hlo hhi
    exact hs.stored c hchunk (Or.inr (Nat.lt_of_le_of_lt hchunk.1 hend)) n hcn hnc

theorem step_rejects {startBlockNumber endBlockNumber : Nat} {s' : BlockRangeIndexer ρ π τ ε}
    {a : IndexerStep ρ π ε} (h : s.CacheInv initial startBlockNumber endBlockNumber)
    (hstep : s.step dex a = some s') (hwhole : ¬TakesWhole initial s a s') :
    ¬s'.AcceptsRerun initial startBlockNumber endBlockNumber := by
  simp only [TakesWhole, not_forall] at hwhole
  obtain ⟨executes, blockChunk, channel, c, rfl, hchannel, hstart, hnot⟩ := hwhole
  intro haccepts
  cases step_case hstep with
  | handle _ taken rest hrunning htaken =>
    cases hchannel.symm.trans htaken
    have hne : ∀ e, s.handler ≠ .err e := fun e he => by rw [hrunning] at he; cases he
    have hqueue := (h.stored hne).queue blockChunk (by simp [hchannel]) c hstart
    have hdata : ∀ block ∈ blockChunk.data, True := fun _ _ => trivial
    rcases handle_effect (s := { s with channel := channel }) executes (fun _ _ => trivial)
      (fun _ _ _ _ _ => trivial) hdata with
      ⟨n, -, -, hs'⟩ | ⟨blocks, handler, ⟨hdb, -⟩ | ⟨-, hinsert⟩, -⟩
    · exact haccepts.persisted n (by rw [hs'])
    · exact hnot (Or.inr ⟨hqueue hdb, hdb⟩)
    · exact hnot (Or.inl ((h.insertBlocks hrunning hchannel hstart).mpr ⟨blocks, hinsert⟩))

/-- Along a run, the table accepts every chunk exactly when each chunk that the handler takes was
not cached at all before the run, or was cached whole and could be read. -/
theorem acceptsRerun_iff (dex : Dex ρ θ π τ) (initial : BlocksTable τ)
    (startBlockNumber endBlockNumber : Nat) (steps : List (IndexerStep ρ π ε)) :
    (machine dex).Throughout (AcceptsRerun initial startBlockNumber endBlockNumber)
        (new initial startBlockNumber endBlockNumber) steps ↔
      (machine dex).Along (TakesWhole initial) (new initial startBlockNumber endBlockNumber)
        steps :=
  Machine.throughout_iff_along (I := CacheInv initial startBlockNumber endBlockNumber)
    (fun _ h => h.acceptsRerun) (fun _ _ _ h hstep hp => step_cacheInv h hstep hp)
    (fun _ _ _ h hstep hp => step_rejects h hstep hp)
    (new_cacheInv initial startBlockNumber endBlockNumber)

def firstTask : Fin BLOCK_PARSER_CONCURRENCY := ⟨0, Nat.succ_pos _⟩

/-- Blocks without trades. -/
def idleDex : Dex Unit Unit Unit Unit := ⟨fun _ => [], (), fun _ ticks _ => some ticks⟩

/-- A table with the block 1 alone. -/
def firstBlockCached : BlocksTable Unit := OrdMap.empty.insert 1 ⟨100, ()⟩

/-- The only chunk of the blocks 1 and 2 is fetched from the node and handled. -/
def oneChunk : List (IndexerStep Unit Unit Unit) :=
  [.next firstTask, .fetch firstTask ⟨⟨.ok [], .ok (some 100), .ok ()⟩, true⟩,
    .send firstTask, .handle fun _ => true]

/-- The chunk is not cached whole, so it is fetched again and its first row is rejected. -/
theorem oneChunk_rejected : ∃ s,
    (machine idleDex).run (new firstBlockCached 1 2) oneChunk = some s ∧
      s.handler = .err (.insert 1) ∧ ¬s.AcceptsRerun firstBlockCached 1 2 := by
  refine ⟨_, rfl, rfl, fun h => h.persisted 1 rfl⟩

end BlockRangeIndexer

end Pochtecatl
