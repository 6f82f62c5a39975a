import Mathlib.Data.List.Range
import Mathlib.Data.Option.Basic
import Pochtecatl.ListMapM
import Pochtecatl.OrdMapEnds
import Pochtecatl.ResolutionTimestamp

namespace Pochtecatl

/-- A log as the node returns it, with the fields a block is built from. -/
structure RpcLog (ρ : Type) where
  blockNumber : Option Nat
  blockHash : Option Nat
  blockTimestamp : Option Nat
  event : ρ
  deriving DecidableEq

structure Block (τ : Type) where
  blockHash : Option Nat
  blockNumber : Nat
  blockTimestamp : Nat
  pairTicks : τ
  deriving DecidableEq

structure BlockModel (τ : Type) where
  number : Nat
  timestamp : Nat
  pairTicks : τ
  deriving DecidableEq

/-- The columns of the blocks table next to its primary key. -/
structure BlockRow (τ : Type) where
  timestamp : Nat
  pairTicks : τ
  deriving DecidableEq

def BlockModel.ofBlock {τ : Type} (block : Block τ) : BlockModel τ :=
  ⟨block.blockNumber, block.blockTimestamp, block.pairTicks⟩

def Block.ofModel {τ : Type} (model : BlockModel τ) : Block τ :=
  ⟨none, model.number, model.timestamp, model.pairTicks⟩

/-- The parsing of logs into trades, and `Block::add_trade` with the lookup of the pair,
where `none` is a panic. -/
structure Dex (ρ θ π τ : Type) where
  fromLogs : List (RpcLog ρ) → List θ
  noTicks : τ
  addTrade : π → τ → θ → Option τ

structure BlockBuilder (θ : Type) where
  blockNumber : Nat
  blockHash : Option Nat
  blockTimestamp : Nat
  indexedTrades : List θ

/-- The outcomes of the calls that `fetch_from_rpc` makes. The header is its timestamp. -/
structure RpcAnswers (ρ π ε : Type) where
  getLogs : Except ε (List (RpcLog ρ))
  getBlockHeader : Except ε (Option Nat)
  getPairs : Except ε π

/-- What a fetch meets: the database, whose connection, transaction or query can fail, and the
outcomes of its calls. -/
structure FetchAnswers (ρ π ε : Type) extends RpcAnswers ρ π ε where
  readsDb : Bool

inductive FetchError (ε : Type) where
  | rpc (e : ε)
  | expectedBlock (blockNumber : Nat)
  | panic
  deriving DecidableEq

inductive BlockChunkSource where
  | rpc
  | db
  deriving DecidableEq

structure BlockChunk (τ : Type) where
  data : List (Block τ)
  source : BlockChunkSource
  deriving DecidableEq

/-- The blocks table, as a map from the primary key. -/
abbrev BlocksTable (τ : Type) : Type := OrdMap Nat (BlockRow τ)

/-- The largest parameter that can be bound to a query. -/
def i64Max : Nat := 0x7fffffffffffffff

variable {ρ θ π τ ε : Type}

namespace BlockBuilder

def new (dex : Dex ρ θ π τ) (blockNumber defaultBlockTimestamp : Nat) (logs : List (RpcLog ρ)) :
    BlockBuilder θ where
  blockNumber := blockNumber
  blockHash := logs.findSome? (·.blockHash)
  blockTimestamp := (logs.findSome? (·.blockTimestamp)).getD defaultBlockTimestamp
  indexedTrades := dex.fromLogs logs

def build (dex : Dex ρ θ π τ) (pairs : π) (builder : BlockBuilder θ) : Option (Block τ) :=
  (builder.indexedTrades.foldlM (dex.addTrade pairs) dex.noTicks).map fun ticks =>
    ⟨builder.blockHash, builder.blockNumber, builder.blockTimestamp, ticks⟩

def buildMany (dex : Dex ρ θ π τ) (builders : List (BlockBuilder θ))
    (getPairs : Except ε π) : Except (FetchError ε) (List (Block τ)) :=
  match getPairs with
  | .error e => .error (.rpc e)
  | .ok pairs =>
    match builders.mapM (build dex pairs) with
    | none => .error .panic
    | some blocks => .ok blocks

end BlockBuilder

namespace BlocksTable

/-- The insert statement: a number that is present already violates the primary key. -/
def insert (table : BlocksTable τ) (model : BlockModel τ) : Except Nat (BlocksTable τ) :=
  if (table.get? model.number).isSome then .error model.number
  else .ok (OrdMap.insert table model.number ⟨model.timestamp, model.pairTicks⟩)

def insertBlocks (table : BlocksTable τ) (blocks : List (Block τ)) :
    Except Nat (BlocksTable τ) :=
  blocks.foldlM (fun table block => table.insert (.ofBlock block)) table

def queryByNumberRange (table : BlocksTable τ) (minNumber maxNumber : Nat) :
    Option (List (BlockModel τ)) :=
  if minNumber ≤ i64Max ∧ maxNumber ≤ i64Max then
    some ((table.rangeEntries minNumber maxNumber).map fun (number, row) =>
      ⟨number, row.timestamp, row.pairTicks⟩)
  else none

end BlocksTable

namespace BlockChunk

def logsByBlockNumber (logs : List (RpcLog ρ)) : Option (OrdMap Nat (List (RpcLog ρ))) :=
  logs.foldlM (fun acc log => log.blockNumber.map fun n =>
    acc.insert n ((acc.get? n).getD [] ++ [log])) OrdMap.empty

def startBlockTimestamp (startBlockNumber : Nat) :
    Except ε (Option Nat) → Except (FetchError ε) Nat
  | .error e => .error (.rpc e)
  | .ok none => .error (.expectedBlock startBlockNumber)
  | .ok (some timestamp) => .ok timestamp

/-- The builders of a chunk, one for each block number. -/
def blockBuilders (dex : Dex ρ θ π τ) (startBlockNumber endBlockNumber timestamp : Nat)
    (logs : OrdMap Nat (List (RpcLog ρ))) : List (BlockBuilder θ) :=
  (List.range' startBlockNumber (endBlockNumber + 1 - startBlockNumber)).map fun n =>
    .new dex n (timestamp + (n - startBlockNumber) * AVERAGE_BLOCK_TIME_SECONDS)
      ((logs.get? n).getD [])

def fetchFromRpc (dex : Dex ρ θ π τ) (startBlockNumber endBlockNumber : Nat)
    (answers : RpcAnswers ρ π ε) : Except (FetchError ε) (BlockChunk τ) :=
  -- a failed get_logs is only logged
  let logs := answers.getLogs.toOption.getD []
  match logsByBlockNumber logs with
  | none => .error .panic
  | some logs => do
    let timestamp ← startBlockTimestamp startBlockNumber answers.getBlockHeader
    let builders := blockBuilders dex startBlockNumber endBlockNumber timestamp logs
    let data ← BlockBuilder.buildMany dex builders answers.getPairs
    pure ⟨data, .rpc⟩

/-- A chunk is in the database when its number of rows is right. `none` is any error. -/
def fetchFromDb (table : BlocksTable τ) (readsDb : Bool) (startBlockNumber endBlockNumber : Nat) :
    Option (BlockChunk τ) := do
  guard readsDb
  let blocks ← table.queryByNumberRange startBlockNumber endBlockNumber
  if blocks.length = endBlockNumber - startBlockNumber + 1 then
    some ⟨blocks.map Block.ofModel, .db⟩
  else none

def fetch (dex : Dex ρ θ π τ) (table : BlocksTable τ) (startBlockNumber endBlockNumber : Nat)
    (answers : FetchAnswers ρ π ε) : Except (FetchError ε) (BlockChunk τ) :=
  match fetchFromDb table answers.readsDb startBlockNumber endBlockNumber with
  | some chunk => .ok chunk
  -- whatever the error was, the node is asked
  | none => fetchFromRpc dex startBlockNumber endBlockNumber answers.toRpcAnswers

/-- The chunk holds the blocks of its range in ascending order. -/
def Covers (chunk : BlockChunk τ) (startBlockNumber endBlockNumber : Nat) : Prop :=
  chunk.data.map (·.blockNumber) =
    List.range' startBlockNumber (endBlockNumber + 1 - startBlockNumber)

theorem fetchFromRpc_eq_ok {dex : Dex ρ θ π τ} {startBlockNumber endBlockNumber : Nat}
    {answers : RpcAnswers ρ π ε} {chunk : BlockChunk τ}
    (h : fetchFromRpc dex startBlockNumber endBlockNumber answers = .ok chunk) :
    chunk.source = .rpc ∧ ∃ timestamp pairs logs,
      answers.getBlockHeader = .ok (some timestamp) ∧ answers.getPairs = .ok pairs ∧
      logsByBlockNumber (answers.getLogs.toOption.getD []) = some logs ∧
      (blockBuilders dex startBlockNumber endBlockNumber timestamp logs).mapM
        (BlockBuilder.build dex pairs) = some chunk.data := by
  unfold fetchFromRpc at h
  cases hl : logsByBlockNumber (answers.getLogs.toOption.getD []) with
  | none => simp [hl] at h
  | some logs =>
    simp only [hl] at h
    rcases hh : answers.getBlockHeader with e | (_ | timestamp)
    · simp [hh, startBlockTimestamp, bind, Except.bind] at h
    · simp [hh, startBlockTimestamp, bind, Except.bind] at h
    · rcases hp : answers.getPairs with e | pairs
      · simp [hh, hp, startBlockTimestamp, BlockBuilder.buildMany, bind, Except.bind] at h
      · cases hm : (blockBuilders dex startBlockNumber endBlockNumber timestamp logs).mapM
          (BlockBuilder.build dex pairs) with
        | none => simp [hh, hp, hm, startBlockTimestamp, BlockBuilder.buildMany, bind,
            Except.bind] at h
        | some data =>
          simp only [hh, hp, hm, startBlockTimestamp, BlockBuilder.buildMany, bind, Except.bind,
            pure, Except.pure, Except.ok.injEq] at h
          subst h
          exact ⟨rfl, timestamp, pairs, logs, rfl, rfl, rfl, hm⟩

theorem build_blockNumber {dex : Dex ρ θ π τ} {pairs : π} {builder : BlockBuilder θ}
    {block : Block τ} (h : builder.build dex pairs = some block) :
    block.blockNumber = builder.blockNumber := by
  obtain ⟨ticks, -, rfl⟩ := Option.map_eq_some_iff.mp h
  rfl

theorem mapM_build_blockNumber {dex : Dex ρ θ π τ} {pairs : π} :
    ∀ {builders : List (BlockBuilder θ)} {data : List (Block τ)},
      builders.mapM (BlockBuilder.build dex pairs) = some data →
        data.map (·.blockNumber) = builders.map (·.blockNumber)
  | [], data, h => by
    cases Option.some.inj h
    rfl
  | builder :: builders, data, h => by
    simp only [List.mapM_cons, Option.bind_eq_bind, Option.bind_eq_some_iff, Option.pure_def,
      Option.some.injEq] at h
    obtain ⟨block, hb, blocks, hbs, rfl⟩ := h
    rw [List.map_cons, List.map_cons, build_blockNumber hb, mapM_build_blockNumber hbs]

theorem fetchFromRpc_covers {dex : Dex ρ θ π τ} {startBlockNumber endBlockNumber : Nat}
    {answers : RpcAnswers ρ π ε} {chunk : BlockChunk τ}
    (h : fetchFromRpc dex startBlockNumber endBlockNumber answers = .ok chunk) :
    chunk.Covers startBlockNumber endBlockNumber := by
  obtain ⟨-, timestamp, pairs, logs, -, -, -, hm⟩ := fetchFromRpc_eq_ok h
  rw [Covers, mapM_build_blockNumber hm, blockBuilders, List.map_map]
  exact List.map_id _

/-- The numbers of the rows in a range: those numbers of the range that are present. -/
theorem rangeEntries_keys (table : BlocksTable τ) (lo hi : Nat) :
    (table.rangeEntries lo hi).map Prod.fst =
      (List.range' lo (hi + 1 - lo)).filter fun k => (table.get? k).isSome := by
  have hkeys : ((table.rangeEntries lo hi).map Prod.fst).Pairwise (· < ·) :=
    List.pairwise_map.mpr (table.sorted.filter _)
  have hrange : ((List.range' lo (hi + 1 - lo)).filter fun k =>
      (table.get? k).isSome).Pairwise (· < ·) := (List.pairwise_lt_range' 1).filter _
  refine List.Perm.eq_of_pairwise (fun x y _ _ hxy hyx => absurd hxy (lt_asymm hyx)) hkeys hrange
    ((List.perm_ext_iff_of_nodup (hkeys.imp fun h => ne_of_lt h)
      (hrange.imp fun h => ne_of_lt h)).mpr fun k => ?_)
  simp only [List.mem_map, Prod.exists, exists_and_right, exists_eq_right, List.mem_filter,
    List.mem_range'_1, OrdMap.mem_rangeEntries, Option.isSome_iff_exists]
  constructor
  · rintro ⟨hrow, hlo, hhi⟩
    exact ⟨⟨hlo, by omega⟩, hrow⟩
  · rintro ⟨⟨hlo, hhi⟩, hrow⟩
    exact ⟨hrow, hlo, by omega⟩

/-- A range is in the database when all its rows are, below the bound on parameters. -/
def Cached (table : BlocksTable τ) (startBlockNumber endBlockNumber : Nat) : Prop :=
  endBlockNumber ≤ i64Max ∧
    ∀ n, startBlockNumber ≤ n → n ≤ endBlockNumber → (table.get? n).isSome

theorem fetchFromDb_eq_some {table : BlocksTable τ} {readsDb : Bool}
    {startBlockNumber endBlockNumber : Nat} {chunk : BlockChunk τ}
    (hle : startBlockNumber ≤ endBlockNumber)
    (h : fetchFromDb table readsDb startBlockNumber endBlockNumber = some chunk) :
    readsDb ∧ Cached table startBlockNumber endBlockNumber ∧ chunk.source = .db ∧
      chunk.data = (table.rangeEntries startBlockNumber endBlockNumber).map fun (number, row) =>
        Block.ofModel ⟨number, row.timestamp, row.pairTicks⟩ := by
  obtain ⟨_, hreads, h⟩ := Option.bind_eq_some_iff.mp h
  replace hreads := (Option.guard_eq_some' _).mp hreads
  simp only [BlocksTable.queryByNumberRange, Option.bind_eq_bind] at h
  split at h
  next hmax =>
    simp only [Option.bind_some, List.length_map] at h
    split at h
    next hcount =>
      cases Option.some.inj h
      refine ⟨hreads, ⟨hmax.2, fun n hlo hhi => ?_⟩, rfl, List.map_map⟩
      have hkeys := congrArg List.length (rangeEntries_keys table startBlockNumber endBlockNumber)
      have hall : ∀ k ∈ List.range' startBlockNumber (endBlockNumber + 1 - startBlockNumber),
          (table.get? k).isSome = true := by
        refine List.length_filter_eq_length_iff.mp ?_
        rw [← hkeys, List.length_map, List.length_range', hcount]
        omega
      exact hall n (List.mem_range'_1.mpr ⟨hlo, by omega⟩)
    next => simp at h
  next => simp at h

theorem rangeEntries_keys_of_cached {table : BlocksTable τ}
    {startBlockNumber endBlockNumber : Nat}
    (h : Cached table startBlockNumber endBlockNumber) :
    (table.rangeEntries startBlockNumber endBlockNumber).map Prod.fst =
      List.range' startBlockNumber (endBlockNumber + 1 - startBlockNumber) := by
  rw [rangeEntries_keys, List.filter_eq_self]
  intro n hn
  obtain ⟨hlo, hhi⟩ := List.mem_range'_1.mp hn
  exact h.2 n hlo (by omega)

theorem fetchFromDb_eq_none_iff {table : BlocksTable τ} {readsDb : Bool}
    {startBlockNumber endBlockNumber : Nat} (hle : startBlockNumber ≤ endBlockNumber) :
    fetchFromDb table readsDb startBlockNumber endBlockNumber = none ↔
      ¬(readsDb ∧ Cached table startBlockNumber endBlockNumber) := by
  constructor
  · rintro h ⟨rfl, hc⟩
    have hlen := congrArg List.length (rangeEntries_keys_of_cached hc)
    rw [List.length_map, List.length_range'] at hlen
    have hstart : startBlockNumber ≤ i64Max := Nat.le_trans hle hc.1
    have hcount : endBlockNumber + 1 - startBlockNumber =
        endBlockNumber - startBlockNumber + 1 := by omega
    simp [fetchFromDb, BlocksTable.queryByNumberRange, hstart, hc.1, hlen, hcount] at h
  · intro hc
    cases h : fetchFromDb table readsDb startBlockNumber endBlockNumber with
    | none => rfl
    | some chunk =>
      obtain ⟨hreads, hcached, -⟩ := fetchFromDb_eq_some hle h
      exact absurd ⟨hreads, hcached⟩ hc

theorem fetchFromDb_covers {table : BlocksTable τ} {readsDb : Bool}
    {startBlockNumber endBlockNumber : Nat} {chunk : BlockChunk τ}
    (hle : startBlockNumber ≤ endBlockNumber)
    (h : fetchFromDb table readsDb startBlockNumber endBlockNumber = some chunk) :
    chunk.Covers startBlockNumber endBlockNumber := by
  obtain ⟨-, hcached, -, hdata⟩ := fetchFromDb_eq_some hle h
  rw [Covers, hdata, List.map_map, ← rangeEntries_keys_of_cached hcached]
  rfl

/-- Whatever its source, a fetched chunk holds the blocks of its range in order. -/
theorem fetch_covers {dex : Dex ρ θ π τ} {table : BlocksTable τ}
    {startBlockNumber endBlockNumber : Nat} {answers : FetchAnswers ρ π ε} {chunk : BlockChunk τ}
    (hle : startBlockNumber ≤ endBlockNumber)
    (h : fetch dex table startBlockNumber endBlockNumber answers = .ok chunk) :
    chunk.Covers startBlockNumber endBlockNumber := by
  unfold fetch at h
  split at h
  next found hdb =>
    cases h
    exact fetchFromDb_covers hle hdb
  next => exact fetchFromRpc_covers h

/-- A chunk comes from the database exactly when its range is cached and can be read there. -/
theorem fetch_source {dex : Dex ρ θ π τ} {table : BlocksTable τ}
    {startBlockNumber endBlockNumber : Nat} {answers : FetchAnswers ρ π ε} {chunk : BlockChunk τ}
    (hle : startBlockNumber ≤ endBlockNumber)
    (h : fetch dex table startBlockNumber endBlockNumber answers = .ok chunk) :
    chunk.source = .db ↔ answers.readsDb ∧ Cached table startBlockNumber endBlockNumber := by
  unfold fetch at h
  split at h
  next found hdb =>
    cases h
    obtain ⟨hreads, hcached, hsource, -⟩ := fetchFromDb_eq_some hle hdb
    exact ⟨fun _ => ⟨hreads, hcached⟩, fun _ => hsource⟩
  next hdb =>
    have hnot := (fetchFromDb_eq_none_iff hle).mp hdb
    rw [(fetchFromRpc_eq_ok h).1]
    exact iff_of_false (fun hsource => by cases hsource) hnot

section Covers

variable {chunk : BlockChunk τ} {startBlockNumber endBlockNumber : Nat}

theorem Covers.head? (h : chunk.Covers startBlockNumber endBlockNumber)
    (hle : startBlockNumber ≤ endBlockNumber) :
    chunk.data.head?.map (·.blockNumber) = some startBlockNumber := by
  rw [← List.head?_map, h]
  have hlen : endBlockNumber + 1 - startBlockNumber =
      endBlockNumber - startBlockNumber + 1 := by omega
  rw [hlen, List.range'_succ]
  rfl

theorem Covers.getLast? (h : chunk.Covers startBlockNumber endBlockNumber)
    (hle : startBlockNumber ≤ endBlockNumber) :
    chunk.data.getLast?.map (·.blockNumber) = some endBlockNumber := by
  rw [← List.getLast?_map, h, List.getLast?_range', if_neg (by omega)]
  exact congrArg some (by omega)

theorem Covers.mem (h : chunk.Covers startBlockNumber endBlockNumber) {block : Block τ}
    (hb : block ∈ chunk.data) :
    startBlockNumber ≤ block.blockNumber ∧ block.blockNumber ≤ endBlockNumber := by
  have hm : block.blockNumber ∈ chunk.data.map (·.blockNumber) := List.mem_map_of_mem hb
  rw [h, List.mem_range'_1] at hm
  omega

end Covers

end BlockChunk

end Pochtecatl
