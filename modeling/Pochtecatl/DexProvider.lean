import Pochtecatl.AsyncValue
import Pochtecatl.LruCache
import Pochtecatl.Machine
import Mathlib.Logic.Function.Basic

namespace Pochtecatl

def PAIR_CACHE_CAPACITY : Nat := 2500

/-- What `get_pairs` asks of a pair input. A pair input calls its own address only. -/
structure DexPairInput (α γ ι ρ π : Type) where
  address : ι → α
  calls : ι → List γ
  target : γ → α
  target_calls : ∀ i, ∀ call ∈ calls i, target call = address i
  decode : ι → List ρ → Option π

inductive GetPairsError (ε : Type) where
  | multicall (e : ε)
  | resolveMap

/-- The local state of a `get_pairs` call, with its result once it returned. -/
structure GetPairs (α ι ρ π ε : Type) where
  asyncValues : List (α × AsyncReceiverOrValue (Option π))
  pairResults : List (α × ι)
  callTargets : List α
  multicallResults : Option (List ρ)
  waiting : List (α × Receiver)
  resolved : List (α × π)
  fetched : List (α × π)
  result : Option (Except (GetPairsError ε) (List (α × π)))

/-- The cache of the provider, the channels of its values, and the calls made so far. -/
structure DexProvider (α ι ρ π ε : Type) where
  pairCache : LruCache α (AsyncValue (Option π))
  channels : Nat → Channel (Option π)
  nextChannel : Nat
  calls : Nat → Option (GetPairs α ι ρ π ε)

/-- The critical sections of a call, the end of its multicall, and the arrival of a value
that it waits for. `order` is that of the map of fetched pairs. -/
inductive DexStep (α ι ρ ε : Type) where
  | getPairs (id : Nat) (pairInputs : List ι)
  | multicall (id : Nat) (result : Except ε (List ρ))
  | recv (id : Nat) (pairAddress : α)
  | publish (id : Nat) (order : List α)

/-- The step is the failure of a multicall. -/
def DexStep.multicallFails {α ι ρ ε : Type} : DexStep α ι ρ ε → Bool
  | .multicall _ (.error _) => true
  | _ => false

namespace GetPairs

variable {α ι ρ π ε : Type}

def new : GetPairs α ι ρ π ε := ⟨[], [], [], none, [], [], [], none⟩

/-- The addresses whose placeholders the call put into the cache and has not filled. -/
def registered (call : GetPairs α ι ρ π ε) : List α := call.pairResults.map Prod.fst

def contains [DecidableEq α] (call : GetPairs α ι ρ π ε) (a : α) : Bool :=
  a ∈ call.asyncValues.map Prod.fst ∨ a ∈ call.registered

/-- The start of `resolve_map`: the values that are there, and the receivers it awaits. -/
def resolveMap (call : GetPairs α ι ρ π ε) : GetPairs α ι ρ π ε :=
  { call with
    waiting := call.asyncValues.filterMap fun
      | (a, .receiver r) => some (a, r)
      | (_, .value _) => none
    resolved := call.asyncValues.filterMap fun
      | (a, .value (some pair)) => some (a, pair)
      | _ => none }

end GetPairs

namespace DexProvider

variable {α γ ι ρ π ε : Type} [DecidableEq α]

def new : DexProvider α ι ρ π ε := ⟨.empty, fun _ => .new, 0, fun _ => none⟩

def setCall (s : DexProvider α ι ρ π ε) (id : Nat) (call : GetPairs α ι ρ π ε) :
    DexProvider α ι ρ π ε :=
  { s with calls := Function.update s.calls id (some call) }

/-- Closes the channel of an evicted value. -/
def evict (channels : Nat → Channel (Option π)) (evicted : Option (α × AsyncValue (Option π))) :
    Nat → Channel (Option π) :=
  match evicted with
  | some (_, asyncValue) => Function.update channels asyncValue.tx (channels asyncValue.tx).close
  | none => channels

/-- Adds a placeholder for an address that is not cached. -/
def register (s : DexProvider α ι ρ π ε) (id : Nat) (call : GetPairs α ι ρ π ε) (a : α)
    (pairInput : ι) : DexProvider α ι ρ π ε :=
  let put := s.pairCache.put PAIR_CACHE_CAPACITY a (.new s.nextChannel)
  { pairCache := put.1
    channels := evict (Function.update s.channels s.nextChannel .new) put.2
    nextChannel := s.nextChannel + 1
    calls := Function.update s.calls id
      (some { call with pairResults := call.pairResults ++ [(a, pairInput)] }) }

/-- Subscribes to the value of a cached address, or takes it. -/
def subscribe (s : DexProvider α ι ρ π ε) (id : Nat) (call : GetPairs α ι ρ π ε) (a : α)
    (asyncValue : AsyncValue (Option π)) : DexProvider α ι ρ π ε :=
  { s with
    pairCache := s.pairCache.touch a
    calls := Function.update s.calls id (some { call with
      asyncValues := call.asyncValues ++ [(a, asyncValue.getReceiverOrValue s.channels)] }) }

/-- One round of the registration loop. -/
def registerOne (dex : DexPairInput α γ ι ρ π) (id : Nat) (s : DexProvider α ι ρ π ε)
    (pairInput : ι) : DexProvider α ι ρ π ε :=
  match s.calls id with
  | none => s
  | some call =>
    if call.contains (dex.address pairInput) then s
    else
      match s.pairCache.get? (dex.address pairInput) with
      | some asyncValue => s.subscribe id call (dex.address pairInput) asyncValue
      | none => s.register id call (dex.address pairInput) pairInput

/-- The targets of the calls, in the order of the multicall. -/
def callTargets (dex : DexPairInput α γ ι ρ π) (call : GetPairs α ι ρ π ε) : List α :=
  call.pairResults.flatMap fun e => (dex.calls e.2).map dex.target

/-- The registration critical section, up to the awaited futures. -/
def getPairs (dex : DexPairInput α γ ι ρ π) (s : DexProvider α ι ρ π ε) (id : Nat)
    (pairInputs : List ι) : DexProvider α ι ρ π ε :=
  let s := pairInputs.foldl (registerOne dex id) (s.setCall id .new)
  match s.calls id with
  | none => s
  | some call => s.setCall id { call.resolveMap with callTargets := callTargets dex call }

/-- The end of the multicall. Without calls there is no request that can fail. -/
def multicall (s : DexProvider α ι ρ π ε) (id : Nat) (call : GetPairs α ι ρ π ε) :
    Except ε (List ρ) → Option (DexProvider α ι ρ π ε)
  | .ok results => some (s.setCall id { call with multicallResults := some results })
  | .error e =>
    if call.callTargets.isEmpty then none
    else some (s.setCall id { call with result := some (.error (.multicall e)) })

/-- The arrival of an awaited value. -/
def recv (s : DexProvider α ι ρ π ε) (id : Nat) (call : GetPairs α ι ρ π ε) (a : α) :
    Option (DexProvider α ι ρ π ε) :=
  match call.waiting.find? fun e => e.1 = a with
  | none => none
  | some (_, r) =>
    match (s.channels r.tx).recv r with
    | .pending => none
    | .error => some (s.setCall id { call with result := some (.error .resolveMap) })
    | .value pair => some (s.setCall id { call with
        waiting := call.waiting.filter fun e => e.1 ≠ a
        resolved := call.resolved ++ pair.toList.map fun pair => (a, pair) })

/-- The results of the calls to one address, in order. -/
def resultsOf (callTargets : List α) (results : List ρ) (a : α) : List ρ :=
  (results.zip callTargets).filterMap fun e => if e.2 = a then some e.1 else none

/-- Fills the cache entry of the address, if it still has one. -/
def setPair (s : DexProvider α ι ρ π ε) (a : α) (pair : Option π) : DexProvider α ι ρ π ε :=
  match s.pairCache.get? a with
  | none => s
  | some asyncValue =>
    { s with
      pairCache := s.pairCache.modify a fun asyncValue => asyncValue.set pair
      channels := Function.update s.channels asyncValue.tx
        ((s.channels asyncValue.tx).send pair) }

/-- One round of the publication loop. -/
def publishOne (dex : DexPairInput α γ ι ρ π) (id : Nat) (results : List ρ)
    (s : DexProvider α ι ρ π ε) (a : α) : DexProvider α ι ρ π ε :=
  match s.calls id with
  | none => s
  | some call =>
    match call.pairResults.find? fun e => e.1 = a with
    | none => s
    | some (_, pairInput) =>
      let pair := dex.decode pairInput (resultsOf call.callTargets results a)
      (s.setPair a pair).setCall id { call with
        pairResults := call.pairResults.filter fun e => e.1 ≠ a
        fetched := call.fetched ++ pair.toList.map fun pair => (a, pair) }

/-- The publication critical section. -/
def publish (dex : DexPairInput α γ ι ρ π) (s : DexProvider α ι ρ π ε) (id : Nat)
    (results : List ρ) (order : List α) : DexProvider α ι ρ π ε :=
  let s := order.foldl (publishOne dex id results) s
  match s.calls id with
  | none => s
  | some call => s.setCall id { call with result := some (.ok (call.fetched ++ call.resolved)) }

/-- The call with this id has not returned. -/
def inFlight (s : DexProvider α ι ρ π ε) (id : Nat) : Option (GetPairs α ι ρ π ε) :=
  (s.calls id).filter fun call => call.result.isNone

def step (dex : DexPairInput α γ ι ρ π) (s : DexProvider α ι ρ π ε) :
    DexStep α ι ρ ε → Option (DexProvider α ι ρ π ε)
  | .getPairs id pairInputs =>
    if (s.calls id).isNone then some (s.getPairs dex id pairInputs) else none
  | .multicall id result => (s.inFlight id).bind fun call =>
    if call.multicallResults.isNone then s.multicall id call result else none
  | .recv id a => (s.inFlight id).bind fun call => s.recv id call a
  | .publish id order => (s.inFlight id).bind fun call =>
    match call.multicallResults with
    | none => none
    | some results =>
      if call.waiting.isEmpty ∧ order.isPerm call.registered then
        some (s.publish dex id results order)
      else none

def machine (dex : DexPairInput α γ ι ρ π) :
    Machine (DexProvider α ι ρ π ε) (DexStep α ι ρ ε) := ⟨step dex⟩

/-- Every entry without a value belongs to a call that is still in flight. -/
def NoAbandonedEntry (s : DexProvider α ι ρ π ε) : Prop :=
  ∀ a asyncValue, s.pairCache.get? a = some asyncValue → asyncValue.value = none →
    ∃ id call, s.inFlight id = some call ∧ a ∈ call.registered

end DexProvider

end Pochtecatl
