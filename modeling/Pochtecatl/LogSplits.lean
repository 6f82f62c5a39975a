import Pochtecatl.DexLogs
import Pochtecatl.LogProvenance

namespace Pochtecatl

/-- The logs that a trade is parsed from: its swap, and for a V2 pair the sync before it, of the
same pair and block. -/
inductive ParsedFrom : Option (RpcLog DexLog) → RpcLog DexLog → IndexedTrade → Prop
  | uniswapV2 {prevLog log : RpcLog DexLog} {swap : UniswapV2Swap} {sync : UniswapV2Sync}
      (hblock : prevLog.blockHash = log.blockHash)
      (hpair : prevLog.event.address = log.event.address)
      (hindex : log.event.follows prevLog.event)
      (hswap : log.event.event = .uniswapV2Swap swap)
      (hsync : prevLog.event.event = .uniswapV2Sync sync) :
      ParsedFrom (some prevLog) log (.uniswapV2 (.ofSwap log.event.address swap sync))
  | uniswapV3 {prevLog : Option (RpcLog DexLog)} {log : RpcLog DexLog} {swap : UniswapV3Swap}
      (hswap : log.event.event = .uniswapV3Swap swap) :
      ParsedFrom prevLog log (.uniswapV3 (.ofSwap log.event.address swap))

/-- A log is the swap of at most one trade. -/
theorem ParsedFrom.unique {prevLog : Option (RpcLog DexLog)} {log : RpcLog DexLog}
    {trade trade' : IndexedTrade} (h : ParsedFrom prevLog log trade)
    (h' : ParsedFrom prevLog log trade') : trade = trade' := by
  cases h with
  | uniswapV2 _ _ _ hswap hsync =>
    cases h' with
    | uniswapV2 _ _ _ hswap' hsync' =>
      cases hswap.symm.trans hswap'
      cases hsync.symm.trans hsync'
      rfl
    | uniswapV3 hswap' => cases hswap.symm.trans hswap'
  | uniswapV3 hswap =>
    cases h' with
    | uniswapV2 _ _ _ hswap' _ => cases hswap.symm.trans hswap'
    | uniswapV3 hswap' =>
      cases hswap.symm.trans hswap'
      rfl

section Parse

namespace IndexedTradeParseContext

@[simp] theorem prevLog_zero {logs : List (RpcLog DexLog)} : prevLog ⟨0, logs⟩ = none := rfl

@[simp] theorem prevLog_succ {i : Nat} {logs : List (RpcLog DexLog)} :
    prevLog ⟨i + 1, logs⟩ = logs[i]? := rfl

end IndexedTradeParseContext

variable {ctx : IndexedTradeParseContext}

theorem tryParseSwapEvent_eq_some {log : DexLog} {swap : UniswapV2Swap} :
    tryParseSwapEvent log = some swap ↔ log.event = .uniswapV2Swap swap := by
  unfold tryParseSwapEvent
  cases log.event <;> simp

theorem tryParseSyncEvent_eq_some {log : DexLog} {sync : UniswapV2Sync} :
    tryParseSyncEvent log = some sync ↔ log.event = .uniswapV2Sync sync := by
  unfold tryParseSyncEvent
  cases log.event <;> simp

theorem tryParsePoolSwapEvent_eq_some {log : DexLog} {swap : UniswapV3Swap} :
    tryParsePoolSwapEvent log = some swap ↔ log.event = .uniswapV3Swap swap := by
  unfold tryParsePoolSwapEvent
  cases log.event <;> simp

theorem UniswapV2IndexedTrade.tryFrom_eq_some {trade : UniswapV2IndexedTrade} :
    tryFrom ctx = some trade ↔ ∃ log, ctx.logs[ctx.idx]? = some log ∧
      ParsedFrom ctx.prevLog log (.uniswapV2 trade) := by
  simp only [tryFrom, Option.bind_eq_bind, Option.bind_eq_some_iff, Option.ite_none_right_eq_some,
    tryParseSwapEvent_eq_some, tryParseSyncEvent_eq_some, Option.pure_def, Option.some.injEq]
  constructor
  · rintro ⟨log, hlog, prevLog, hprev, ⟨hblock, hpair, hindex⟩, swap, hswap, sync, hsync, rfl⟩
    rw [hprev]
    exact ⟨log, hlog, .uniswapV2 hblock hpair hindex hswap hsync⟩
  · rintro ⟨log, hlog, hfrom⟩
    generalize ctx.prevLog = prev at hfrom ⊢
    cases hfrom with
    | uniswapV2 hblock hpair hindex hswap hsync =>
      exact ⟨log, hlog, _, rfl, ⟨hblock, hpair, hindex⟩, _, hswap, _, hsync, rfl⟩

theorem UniswapV3IndexedTrade.tryFrom_eq_some {trade : UniswapV3IndexedTrade} :
    tryFrom ctx = some trade ↔ ∃ log, ctx.logs[ctx.idx]? = some log ∧
      ParsedFrom ctx.prevLog log (.uniswapV3 trade) := by
  simp only [tryFrom, Option.bind_eq_bind, Option.bind_eq_some_iff,
    tryParsePoolSwapEvent_eq_some, Option.pure_def, Option.some.injEq]
  constructor
  · rintro ⟨log, hlog, swap, hswap, rfl⟩
    exact ⟨log, hlog, .uniswapV3 hswap⟩
  · rintro ⟨log, hlog, hfrom⟩
    generalize ctx.prevLog = prev at hfrom
    cases hfrom with
    | uniswapV3 hswap => exact ⟨log, hlog, _, hswap, rfl⟩

namespace IndexedTrade

theorem tryFrom_eq_some {trade : IndexedTrade} :
    tryFrom ctx = some trade ↔
      ∃ log, ctx.logs[ctx.idx]? = some log ∧ ParsedFrom ctx.prevLog log trade := by
  constructor
  · intro h
    unfold tryFrom at h
    split at h
    next v2 hv2 =>
      cases h
      exact UniswapV2IndexedTrade.tryFrom_eq_some.mp hv2
    next =>
      obtain ⟨v3, hv3, rfl⟩ := Option.map_eq_some_iff.mp h
      exact UniswapV3IndexedTrade.tryFrom_eq_some.mp hv3
  · rintro ⟨log, hlog, hfrom⟩
    unfold tryFrom
    cases trade with
    | uniswapV2 trade =>
      rw [UniswapV2IndexedTrade.tryFrom_eq_some.mpr ⟨log, hlog, hfrom⟩]
    | uniswapV3 trade =>
      split
      next v2 hv2 =>
        obtain ⟨log', hlog', hfrom'⟩ := UniswapV2IndexedTrade.tryFrom_eq_some.mp hv2
        cases hlog.symm.trans hlog'
        exact congrArg some (hfrom'.unique hfrom)
      next =>
        rw [UniswapV3IndexedTrade.tryFrom_eq_some.mpr ⟨log, hlog, hfrom⟩]
        rfl

/-- The context parses by the log that it is at and the one before. -/
theorem tryFrom_congr {ctx' : IndexedTradeParseContext}
    (hlog : ctx.logs[ctx.idx]? = ctx'.logs[ctx'.idx]?)
    (hprev : ∀ log trade, ctx.logs[ctx.idx]? = some log →
      (ParsedFrom ctx.prevLog log trade ↔ ParsedFrom ctx'.prevLog log trade)) :
    tryFrom ctx = tryFrom ctx' := by
  refine Option.ext fun trade => ?_
  rw [tryFrom_eq_some, tryFrom_eq_some, ← hlog]
  refine exists_congr fun log => and_congr_right fun hat => hprev log trade hat

end IndexedTrade

end Parse

/-- A previous log of another block is as good as none. -/
theorem parsedFrom_of_otherBlock {prevLog log : RpcLog DexLog} {trade : IndexedTrade}
    (h : prevLog.blockHash ≠ log.blockHash) :
    ParsedFrom (some prevLog) log trade ↔ ParsedFrom none log trade := by
  constructor
  · intro hfrom
    cases hfrom with
    | uniswapV2 hblock => exact absurd hblock h
    | uniswapV3 hswap => exact .uniswapV3 hswap
  · intro hfrom
    cases hfrom with
    | uniswapV3 hswap => exact .uniswapV3 hswap

namespace IndexedTrade

open IndexedTradeParseContext

/-- Logs are split between blocks. -/
theorem fromLogs_append {before after : List (RpcLog DexLog)}
    (h : ∀ prevLog ∈ before, ∀ log ∈ after, prevLog.blockHash ≠ log.blockHash) :
    fromLogs (before ++ after) = fromLogs before ++ fromLogs after := by
  unfold fromLogs
  rw [List.length_append, List.range_add, List.filterMap_append, List.filterMap_map]
  refine congrArg₂ (· ++ ·) (List.filterMap_congr fun idx hidx => ?_)
    (List.filterMap_congr fun idx hidx => ?_)
  · have hlt := List.mem_range.mp hidx
    have hprev : ∀ i ≤ idx, (before ++ after)[i]? = before[i]? := fun i hi =>
      List.getElem?_append_left (Nat.lt_of_le_of_lt hi hlt)
    refine tryFrom_congr (hprev idx (Nat.le_refl idx)) fun log trade _ => ?_
    unfold IndexedTradeParseContext.prevLog
    rw [hprev (idx - 1) (Nat.sub_le idx 1)]
  · have hright : ∀ i, (before ++ after)[before.length + i]? = after[i]? := fun i => by
      rw [List.getElem?_append_right (Nat.le_add_right ..), Nat.add_sub_cancel_left]
    refine tryFrom_congr (hright idx) fun log trade hlog => ?_
    change ParsedFrom (prevLog ⟨before.length + idx, before ++ after⟩) log trade ↔
      ParsedFrom (prevLog ⟨idx, after⟩) log trade
    cases idx with
    | zero =>
      rw [prevLog_zero]
      cases hlen : before.length with
      | zero => exact Iff.rfl
      | succ n =>
        have hlt : n < before.length := by omega
        rw [Nat.add_zero, prevLog_succ, List.getElem?_append_left hlt, List.getElem?_eq_getElem hlt]
        exact parsedFrom_of_otherBlock (h _ (List.getElem_mem hlt) log
          (List.mem_of_getElem? ((hright 0).symm.trans hlog)))
    | succ i =>
      rw [← Nat.add_assoc, prevLog_succ, prevLog_succ, hright i]

end IndexedTrade

/-! ### Blocks and chunks -/

/-- The logs are in the order of their blocks and of their indices in them, and the hash of a
block identifies it. -/
structure BlocksInOrder (logs : List (RpcLog DexLog)) : Prop where
  sorted : logs.Pairwise fun log log' => ∀ m ∈ log.blockNumber, ∀ n ∈ log'.blockNumber,
    m ≤ n ∧ (m = n → ∀ i ∈ log.event.logIndex, ∀ j ∈ log'.event.logIndex, i ≤ j)
  hashes : ∀ log ∈ logs, ∀ log' ∈ logs,
    log.blockHash = log'.blockHash ↔ log.blockNumber = log'.blockNumber

theorem filter_append_filter_not {α : Type} {p : α → Bool} {l : List α}
    (h : l.Pairwise fun a b => p b → p a) : l.filter p ++ l.filter (fun a => !p a) = l := by
  induction l with
  | nil => rfl
  | cons a l ih =>
    obtain ⟨hhead, htail⟩ := List.pairwise_cons.mp h
    by_cases ha : p a
    · rw [List.filter_cons_of_pos ha, List.filter_cons_of_neg (by simp [ha]), List.cons_append,
        ih htail]
    · have hnone : l.filter p = [] := List.filter_eq_nil_iff.mpr fun b hb hp => ha (hhead b hb hp)
      have hall : l.filter (fun b => !p b) = l :=
        List.filter_eq_self.mpr fun b hb => by simp [mt (hhead b hb) ha]
      rw [List.filter_cons_of_neg ha, List.filter_cons_of_pos (by simp [ha]), hnone, hall,
        List.nil_append]

section Split

variable {logs : List (RpcLog DexLog)}

theorem BlocksInOrder.sublist {logs' : List (RpcLog DexLog)} (h : BlocksInOrder logs)
    (hsub : logs'.Sublist logs) : BlocksInOrder logs' :=
  ⟨h.sorted.sublist hsub, fun log hlog log' hlog' =>
    h.hashes log (hsub.subset hlog) log' (hsub.subset hlog')⟩

/-- The trades of the logs, block by block. -/
theorem BlocksInOrder.flatMap_fromLogs (h : BlocksInOrder logs) {start count : Nat}
    (hrange : ∀ log ∈ logs, ∃ n, log.blockNumber = some n ∧ start ≤ n ∧ n < start + count) :
    (List.range' start count).flatMap (fun n => IndexedTrade.fromLogs (logsOf logs n)) =
      IndexedTrade.fromLogs logs := by
  induction count generalizing start logs with
  | zero =>
    have hnil : logs = [] := List.eq_nil_iff_forall_not_mem.mpr fun log hlog => by
      obtain ⟨n, -, hlo, hhi⟩ := hrange log hlog
      omega
    rw [hnil]
    rfl
  | succ count ih =>
    have hsplit : logsOf logs start ++ logs.filter (fun log => !(log.blockNumber = some start)) =
        logs := by
      refine filter_append_filter_not (h.sorted.imp_of_mem fun {a b} ha _ hle hb => ?_)
      obtain ⟨m, hm, hlo, -⟩ := hrange a ha
      have hmn : m ≤ start := (hle m hm start (of_decide_eq_true hb)).1
      rw [hm]
      exact decide_eq_true (congrArg some (Nat.le_antisymm hmn hlo))
    have hrest : ∀ log ∈ logs.filter (fun log => !(log.blockNumber = some start)),
        log ∈ logs ∧ log.blockNumber ≠ some start := fun log hlog => by
      simpa using List.mem_filter.mp hlog
    have hboundary : ∀ prevLog ∈ logsOf logs start,
        ∀ log ∈ logs.filter (fun log => !(log.blockNumber = some start)),
          prevLog.blockHash ≠ log.blockHash := by
      intro prevLog hprev log hlog heq
      obtain ⟨hprev, hstart⟩ := List.mem_filter.mp hprev
      obtain ⟨hlog, hne⟩ := hrest log hlog
      rw [← (h.hashes prevLog hprev log hlog).mp heq] at hne
      exact hne (of_decide_eq_true hstart)
    have hrangeRest : ∀ log ∈ logs.filter (fun log => !(log.blockNumber = some start)),
        ∃ n, log.blockNumber = some n ∧ start + 1 ≤ n ∧ n < start + 1 + count := by
      intro log hlog
      obtain ⟨hlog, hne⟩ := hrest log hlog
      obtain ⟨n, hn, hlo, hhi⟩ := hrange log hlog
      rw [hn, ne_eq, Option.some.injEq] at hne
      exact ⟨n, hn, by omega, by omega⟩
    have htail := ih (h.sublist List.filter_sublist) hrangeRest
    rw [List.range'_succ, List.flatMap_cons]
    conv_rhs => rw [← hsplit, IndexedTrade.fromLogs_append hboundary, ← htail]
    refine congrArg (_ ++ ·) (List.flatMap_congr fun n hn => congrArg IndexedTrade.fromLogs ?_)
    have hne : n ≠ start := by
      have hlo := (List.mem_range'_1.mp hn).1
      omega
    unfold logsOf
    rw [List.filter_filter]
    refine List.filter_congr fun log _ => ?_
    by_cases heq : log.blockNumber = some n
    · simp [heq, hne]
    · simp [heq]

/-- A chunk of a range, with the timestamp of its first block. -/
structure ChunkRange where
  startBlockNumber : Nat
  endBlockNumber : Nat
  timestamp : Nat

namespace ChunkRange

variable (chunk : ChunkRange)

def blockNumbers : List Nat :=
  List.range' chunk.startBlockNumber (chunk.endBlockNumber + 1 - chunk.startBlockNumber)

/-- What `get_logs` returns for the chunk. -/
def getLogs (logs : List (RpcLog DexLog)) : List (RpcLog DexLog) :=
  logs.filter fun log => log.blockNumber.any (· ∈ chunk.blockNumbers)

/-- The trades of the builders that `fetch_from_rpc` makes for the chunk. -/
def indexedTrades (logs : List (RpcLog DexLog)) : Option (List IndexedTrade) :=
  (BlockChunk.logsByBlockNumber logs).map fun byNumber =>
    (BlockChunk.blockBuilders (uniswapDex IndexedTrade.fromLogs) chunk.startBlockNumber
      chunk.endBlockNumber chunk.timestamp byNumber).flatMap (·.indexedTrades)

variable {chunk}

theorem logsOf_getLogs {n : Nat} (hn : n ∈ chunk.blockNumbers) :
    logsOf (chunk.getLogs logs) n = logsOf logs n := by
  unfold logsOf getLogs
  rw [List.filter_filter]
  refine List.filter_congr fun log _ => ?_
  by_cases heq : log.blockNumber = some n
  · simp [heq, hn]
  · simp [heq]

theorem logsByBlockNumber_isSome (h : ∀ log ∈ logs, log.blockNumber.isSome) :
    (BlockChunk.logsByBlockNumber logs).isSome := by
  suffices hgen : ∀ (logs : List (RpcLog DexLog)) (acc : OrdMap Nat (List (RpcLog DexLog))),
      (∀ log ∈ logs, log.blockNumber.isSome) →
      (logs.foldlM (m := Option) (fun acc (log : RpcLog DexLog) => log.blockNumber.map fun n =>
        acc.insert n ((acc.get? n).getD [] ++ [log])) acc).isSome from hgen logs .empty h
  intro logs
  induction logs with
  | nil => exact fun acc _ => rfl
  | cons log logs ih =>
    intro acc h
    obtain ⟨n, hn⟩ := Option.isSome_iff_exists.mp (h log List.mem_cons_self)
    rw [List.foldlM_cons, hn]
    exact ih _ fun log hlog => h log (List.mem_cons_of_mem _ hlog)

theorem indexedTrades_getLogs (h : ∀ log ∈ logs, log.blockNumber.isSome) :
    chunk.indexedTrades (chunk.getLogs logs) =
      some (chunk.blockNumbers.flatMap fun n => IndexedTrade.fromLogs (logsOf logs n)) := by
  have hnumbers : ∀ log ∈ chunk.getLogs logs, log.blockNumber.isSome :=
    fun log hlog => h log (List.mem_filter.mp hlog).1
  obtain ⟨byNumber, hby⟩ := Option.isSome_iff_exists.mp (logsByBlockNumber_isSome hnumbers)
  rw [indexedTrades, hby, Option.map_some, BlockChunk.blockBuilders, List.flatMap_map]
  refine congrArg some (List.flatMap_congr fun n hn => ?_)
  change IndexedTrade.fromLogs ((byNumber.get? n).getD []) = _
  rw [logsByBlockNumber_get? hby, logsOf_getLogs hn]

end ChunkRange

end Split

/-! ### Sources -/

section Sources

variable (logs : List (RpcLog DexLog))

/-- The trades with the places of their swaps in the logs. -/
def tradeSources : List (Nat × IndexedTrade) :=
  (List.range logs.length).filterMap fun idx => (IndexedTrade.tryFrom ⟨idx, logs⟩).map (idx, ·)

/-- The places of the logs that a trade is made of. -/
def logsUsed : Nat × IndexedTrade → List Nat
  | (idx, .uniswapV2 _) => [idx - 1, idx]
  | (idx, .uniswapV3 _) => [idx]

variable {logs}

theorem map_tradeSources : (tradeSources logs).map Prod.snd = IndexedTrade.fromLogs logs := by
  unfold tradeSources IndexedTrade.fromLogs
  rw [List.map_filterMap]
  refine List.filterMap_congr fun idx _ => ?_
  rw [Option.map_map]
  exact Option.map_id'

theorem mem_tradeSources {source : Nat × IndexedTrade} (h : source ∈ tradeSources logs) :
    ∃ log, logs[source.1]? = some log ∧
      ParsedFrom (IndexedTradeParseContext.prevLog ⟨source.1, logs⟩) log source.2 := by
  obtain ⟨idx, -, hsource⟩ := List.mem_filterMap.mp h
  obtain ⟨trade, htrade, rfl⟩ := Option.map_eq_some_iff.mp hsource
  exact IndexedTrade.tryFrom_eq_some.mp htrade

theorem pairwise_tradeSources : (tradeSources logs).Pairwise fun s s' => s.1 < s'.1 := by
  refine List.pairwise_filterMap.mpr (List.pairwise_lt_range.imp fun hlt s hs s' hs' => ?_)
  obtain ⟨trade, -, rfl⟩ := Option.map_eq_some_iff.mp hs
  obtain ⟨trade', -, rfl⟩ := Option.map_eq_some_iff.mp hs'
  exact hlt

/-- The last log used is a swap, the other one a sync. -/
theorem logsUsed_cases {source : Nat × IndexedTrade} (h : source ∈ tradeSources logs) :
    (∀ log sync, logs[source.1]? = some log → log.event.event ≠ .uniswapV2Sync sync) ∧
      (logsUsed source = [source.1] ∨ ∃ k prevLog sync, source.1 = k + 1 ∧
        logsUsed source = [k, k + 1] ∧ logs[k]? = some prevLog ∧
          prevLog.event.event = .uniswapV2Sync sync) := by
  obtain ⟨log, hlog, hfrom⟩ := mem_tradeSources h
  obtain ⟨idx, trade⟩ := source
  dsimp only at hlog hfrom ⊢
  generalize hprev : IndexedTradeParseContext.prevLog ⟨idx, logs⟩ = prev at hfrom
  cases hfrom with
  | uniswapV2 _ _ _ hswap hsync =>
    refine ⟨fun log' sync' hlog' heq => ?_, .inr ?_⟩
    · cases hlog.symm.trans hlog'
      cases hswap.symm.trans heq
    · cases idx with
      | zero => cases hprev
      | succ k => exact ⟨k, _, _, rfl, rfl, hprev, hsync⟩
  | uniswapV3 hswap =>
    refine ⟨fun log' sync' hlog' heq => ?_, .inl rfl⟩
    cases hlog.symm.trans hlog'
    cases hswap.symm.trans heq

theorem le_of_mem_logsUsed {source : Nat × IndexedTrade} (h : source ∈ tradeSources logs) :
    ∀ i ∈ logsUsed source, i ≤ source.1 := by
  intro i hi
  rcases (logsUsed_cases h).2 with hused | ⟨k, -, -, hk, hused, -⟩
  · rw [hused, List.mem_singleton] at hi
    omega
  · rw [hused, List.mem_pair] at hi
    omega

/-- A trade does not reach back to the swap of an earlier one. -/
theorem lt_of_mem_logsUsed {source source' : Nat × IndexedTrade}
    (h : source ∈ tradeSources logs) (h' : source' ∈ tradeSources logs)
    (hlt : source.1 < source'.1) : ∀ i ∈ logsUsed source', source.1 < i := by
  intro i hi
  rcases (logsUsed_cases h').2 with hused | ⟨k, prevLog, sync, hk, hused, hprev, hsync⟩
  · rw [hused, List.mem_singleton] at hi
    omega
  · have hne : source.1 ≠ k := fun heq => by
      rw [← heq] at hprev
      exact (logsUsed_cases h).1 prevLog sync hprev hsync
    rw [hused, List.mem_pair] at hi
    omega

/-- No log is used twice, and the trades are in the order of their logs. -/
theorem pairwise_logsUsed : ((tradeSources logs).flatMap logsUsed).Pairwise (· < ·) := by
  refine List.pairwise_flatMap.mpr ⟨fun source h => ?_, ?_⟩
  · rcases (logsUsed_cases h).2 with hused | ⟨k, -, -, -, hused, -⟩
    · rw [hused]
      exact List.pairwise_singleton _ _
    · rw [hused, List.pairwise_pair]
      exact Nat.lt_succ_self k
  · refine pairwise_tradeSources.imp_of_mem fun h h' hlt i hi j hj => ?_
    exact Nat.lt_of_le_of_lt (le_of_mem_logsUsed h i hi) (lt_of_mem_logsUsed h h' hlt j hj)

/-- A trade comes from its swap. That of a V2 pair comes from the sync at the log index before
it, too. -/
def ComesFrom (prevLog : Option (RpcLog DexLog)) (log : RpcLog DexLog) (trade : IndexedTrade) :
    Prop :=
  ParsedFrom prevLog log trade ∧ ∀ sync ∈ prevLog, ∀ v2, trade = .uniswapV2 v2 →
    ∃ logIndex, sync.event.logIndex = some logIndex ∧ log.event.logIndex = some (logIndex + 1)

theorem BlocksInOrder.comesFrom (h : BlocksInOrder logs)
    (hsome : ∀ log ∈ logs, log.blockNumber.isSome) {source : Nat × IndexedTrade}
    (hsource : source ∈ tradeSources logs) : ∃ log, logs[source.1]? = some log ∧
      ComesFrom (IndexedTradeParseContext.prevLog ⟨source.1, logs⟩) log source.2 := by
  obtain ⟨log, hlog, hparsed⟩ := mem_tradeSources hsource
  refine ⟨log, hlog, hparsed, fun sync hsync v2 hv2 => ?_⟩
  obtain ⟨idx, trade⟩ := source
  cases idx with
  | zero => cases hsync
  | succ k =>
    rw [IndexedTradeParseContext.prevLog_succ] at hparsed hsync
    have hat : logs[k]? = some sync := hsync
    dsimp only at hlog hparsed hv2
    rw [hat, hv2] at hparsed
    cases hparsed with
    | uniswapV2 hblock _ hindex =>
      obtain ⟨hk, hgetk⟩ := List.getElem?_eq_some_iff.mp hat
      obtain ⟨hk', hgetk'⟩ := List.getElem?_eq_some_iff.mp hlog
      have hnumber := (h.hashes sync (List.mem_of_getElem? hat) log
        (List.mem_of_getElem? hlog)).mp hblock
      obtain ⟨n, hn⟩ := Option.isSome_iff_exists.mp (hsome log (List.mem_of_getElem? hlog))
      have hsorted := List.pairwise_iff_getElem.mp h.sorted k (k + 1) hk hk' (Nat.lt_succ_self k)
      rw [hgetk, hgetk'] at hsorted
      have hle := (hsorted n (hnumber.trans hn) n hn).2 rfl
      simp only [DexLog.follows, Option.any_eq_true, decide_eq_true_eq] at hindex
      obtain ⟨i, hi, j, hj, hnext⟩ := hindex
      have hij : i ≤ j := hle i hi j hj
      exact ⟨i, hi, by rw [hj]; exact congrArg some (by omega)⟩

end Sources

/-- The trades of a range of blocks are those of its logs, whatever the chunks that it is fetched
in. Each comes from one swap, and no log is used for two of them. -/
theorem fromLogs_split {logs : List (RpcLog DexLog)} {startBlockNumber endBlockNumber : Nat}
    {chunks : List ChunkRange} (h : BlocksInOrder logs)
    (hrange : ∀ log ∈ logs, ∃ n, log.blockNumber = some n ∧
      startBlockNumber ≤ n ∧ n ≤ endBlockNumber)
    (hchunks : chunks.flatMap ChunkRange.blockNumbers =
      List.range' startBlockNumber (endBlockNumber + 1 - startBlockNumber)) :
    (∃ trades, chunks.mapM (fun chunk => chunk.indexedTrades (chunk.getLogs logs)) = some trades ∧
      trades.flatten = IndexedTrade.fromLogs logs) ∧
    (tradeSources logs).map Prod.snd = IndexedTrade.fromLogs logs ∧
    (∀ source ∈ tradeSources logs, ∃ log, logs[source.1]? = some log ∧
      ComesFrom (IndexedTradeParseContext.prevLog ⟨source.1, logs⟩) log source.2) ∧
    ((tradeSources logs).flatMap logsUsed).Pairwise (· < ·) := by
  have hsome : ∀ log ∈ logs, log.blockNumber.isSome := fun log hlog => by
    obtain ⟨n, hn, -⟩ := hrange log hlog
    rw [hn]
    rfl
  refine ⟨⟨chunks.map fun chunk => chunk.blockNumbers.flatMap fun n =>
    IndexedTrade.fromLogs (logsOf logs n), ?_, ?_⟩, map_tradeSources,
    fun _ hsource => h.comesFrom hsome hsource, pairwise_logsUsed⟩
  · simp only [ChunkRange.indexedTrades_getLogs hsome]
    exact List.mapM_pure
  · rw [← List.flatMap_def, ← List.flatMap_assoc, hchunks]
    refine h.flatMap_fromLogs fun log hlog => ?_
    obtain ⟨n, hn, hlo, hhi⟩ := hrange log hlog
    exact ⟨n, hn, hlo, by omega⟩

/-- A V2 trade of pair 1 in block 5, then a V3 trade of pair 2 in block 6. -/
def twoBlockLogs : List (RpcLog DexLog) :=
  [⟨some 5, some 50, none, 1, some 0, .uniswapV2Sync ⟨1000, 1000⟩⟩,
    ⟨some 5, some 50, none, 1, some 1, .uniswapV2Swap ⟨10, 0, 0, 9, 3⟩⟩,
    ⟨some 6, some 60, none, 2, some 0, .uniswapV3Swap ⟨3, 10, -9, 1 <<< 96, 1000⟩⟩]

theorem fromLogs_split_twoBlockLogs :
    ∃ trades, [(⟨5, 5, 10⟩ : ChunkRange), ⟨6, 6, 12⟩].mapM (fun chunk =>
        chunk.indexedTrades (chunk.getLogs twoBlockLogs)) = some trades ∧
      trades.flatten = IndexedTrade.fromLogs twoBlockLogs := by
  have hblocks : BlocksInOrder twoBlockLogs :=
    ⟨by simp [twoBlockLogs], by simp [twoBlockLogs]⟩
  have hrange : ∀ log ∈ twoBlockLogs, ∃ n, log.blockNumber = some n ∧ 5 ≤ n ∧ n ≤ 6 := by
    simp [twoBlockLogs]
  exact (fromLogs_split hblocks hrange (by rfl)).1

end Pochtecatl
