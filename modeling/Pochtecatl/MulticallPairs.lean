import Pochtecatl.Multicall
import Pochtecatl.PairFlights
import Pochtecatl.PriceOrientation
import Pochtecatl.ServedCalls

namespace Pochtecatl

namespace DexProvider

variable {α γ ι ρ π ε : Type} [DecidableEq α] {dex : DexPairInput α γ ι ρ π}
  {answer : Nat → Nat → γ → ρ}

/-- The calls of the multicall, for one registered address after the other. -/
def fetchCalls (dex : DexPairInput α γ ι ρ π) {ε : Type} (call : GetPairs α ι ρ π ε) : List γ :=
  call.pairResults.flatMap fun e => dex.calls e.2

/-- The results of the calls of a pair input that come after `offset` others. -/
def ownResults (dex : DexPairInput α γ ι ρ π) (answer : Nat → Nat → γ → ρ) (offset : Nat)
    (pairInput : ι) : List ρ :=
  (dex.calls pairInput).mapIdx fun j => resultAt answer (offset + j)

/-- Every multicall asks the node, and its chunks complete in some order. -/
def CallsNode (dex : DexPairInput α γ ι ρ π) (rpcProvider : Nat → Multicall3 γ ρ ε)
    (s : DexProvider α ι ρ π (MulticallError ε)) :
    DexStep α ι ρ (MulticallError ε) → DexProvider α ι ρ π (MulticallError ε) → Prop
  | .multicall id result, _ => ∃ call completed, s.inFlight id = some call ∧
      CompletionOrder (fetchCalls dex call) completed ∧
      result = Pochtecatl.multicall (rpcProvider id) (fetchCalls dex call) completed
  | _, _ => True

/-! ### Calls in flight -/

section Fetches

variable {pairInputs : List ι}

/-- What the registration loop made of the pair inputs it visited. -/
structure Registers (dex : DexPairInput α γ ι ρ π) {ε : Type} (pairInputs : List ι)
    (call : GetPairs α ι ρ π ε) : Prop where
  visited : ∀ pairInput ∈ pairInputs, call.contains (dex.address pairInput)
  nodup : call.registered.Nodup
  first : ∀ e ∈ call.pairResults, pairInputs.find? (fun i => dex.address i = e.1) = some e.2

theorem Registers.address_of_mem {ε : Type} {call : GetPairs α ι ρ π ε}
    (h : Registers dex pairInputs call) : ∀ e ∈ call.pairResults, dex.address e.2 = e.1 := by
  intro e he
  simpa using List.find?_some (h.first e he)

theorem new_registers {ε : Type} :
    Registers dex [] (.new : GetPairs α ι ρ π ε) where
  visited := fun _ h => by cases h
  nodup := List.nodup_nil
  first := fun _ h => by cases h

/-- A later pair input of an address does not take the place of an earlier one. -/
theorem Registers.registerRound {ε : Type} {s s' : DexProvider α ι ρ π ε} {id : Nat}
    {call : GetPairs α ι ρ π ε} {pairInput : ι} (h : Registers dex pairInputs call)
    (hcall : s.calls id = some call) (hround : RegisterRound dex s id call pairInput s') :
    ∃ call', s'.calls id = some call' ∧ Registers dex (pairInputs ++ [pairInput]) call' := by
  have hcontains : ∀ (call : GetPairs α ι ρ π ε) (a : α), call.contains a ↔
      a ∈ call.asyncValues.map Prod.fst ∨ a ∈ call.registered := fun call a => by
    simp [GetPairs.contains]
  have hfirst : ∀ e ∈ call.pairResults,
      (pairInputs ++ [pairInput]).find? (fun i => dex.address i = e.1) = some e.2 := by
    intro e he
    rw [List.find?_append, h.first e he, Option.some_or]
  cases hround with
  | known hknown =>
    refine ⟨call, hcall, fun i hi => ?_, h.nodup, hfirst⟩
    rcases List.mem_append.mp hi with hi | hi
    · exact h.visited i hi
    · rw [List.mem_singleton.mp hi]
      exact hknown
  | subscribe hnew hget =>
    refine ⟨_, Function.update_self .., fun i hi => ?_, h.nodup, hfirst⟩
    rw [hcontains]
    rcases List.mem_append.mp hi with hi | hi
    · exact ((hcontains call _).mp (h.visited i hi)).imp_left fun hm => by
        rw [List.map_append]
        exact List.mem_append_left _ hm
    · rw [List.mem_singleton.mp hi]
      exact .inl (by simp)
  | register hnew hget =>
    have hnot := hnew
    rw [hcontains, not_or] at hnot
    refine ⟨_, Function.update_self .., fun i hi => ?_, ?_, fun e he => ?_⟩
    · rw [hcontains]
      rcases List.mem_append.mp hi with hi | hi
      · exact ((hcontains call _).mp (h.visited i hi)).imp_right fun hm => by
          rw [GetPairs.registered, List.map_append]
          exact List.mem_append_left _ hm
      · rw [List.mem_singleton.mp hi]
        exact .inr (by simp [GetPairs.registered])
    · rw [GetPairs.registered, List.map_append]
      exact nodup_concat h.nodup hnot.2
    · rcases List.mem_append.mp he with he | he
      · exact hfirst e he
      · -- no earlier pair input has the new address
        have hnone : pairInputs.find? (fun i => dex.address i = dex.address pairInput) = none := by
          refine List.find?_eq_none.mpr fun i hi heq => hnew ?_
          rw [← of_decide_eq_true heq]
          exact h.visited i hi
        rw [List.mem_singleton.mp he, List.find?_append, hnone, Option.none_or]
        simp

theorem registerAll_registers {ε : Type} {s : DexProvider α ι ρ π ε} {id : Nat}
    {call : GetPairs α ι ρ π ε} (hcall : (registerAll dex s id pairInputs).calls id = some call) :
    Registers dex pairInputs call := by
  obtain ⟨call', hcall', h⟩ : ∃ call', (registerAll dex s id pairInputs).calls id = some call' ∧
      Registers dex pairInputs call' := by
    refine registerAll_induct (M := fun done s₁ => ∃ call', s₁.calls id = some call' ∧
      Registers dex done call') ⟨.new, Function.update_self .., new_registers⟩
      fun done pairInput rest call₁ s₁ _ hcall₁ hregisters hround => ?_
    obtain ⟨call₂, hcall₂, hregisters⟩ := hregisters
    cases hcall₁.symm.trans hcall₂
    exact hregisters.registerRound hcall₁ hround
  cases hcall.symm.trans hcall'
  exact h

/-- A call in flight, with the results of its multicall in the order of its calls. -/
structure Fetches (dex : DexPairInput α γ ι ρ π) {ε : Type} (answer : Nat → Nat → γ → ρ)
    (pairInputs : List ι) (call : GetPairs α ι ρ π ε) : Prop
    extends Registers dex pairInputs call where
  targets : call.callTargets = callTargets dex call
  results : ∀ results, call.multicallResults = some results →
    results = (fetchCalls dex call).mapIdx (resultAt answer)
  fetched : call.fetched = []

/-- A registered address is decoded from the results of its own calls. -/
theorem Fetches.resultsOf {ε : Type} {call : GetPairs α ι ρ π ε}
    (h : Fetches dex answer pairInputs call) {results : List ρ}
    (hresults : call.multicallResults = some results) {before after : List (α × ι)} {a : α}
    {pairInput : ι} (hsplit : call.pairResults = before ++ (a, pairInput) :: after) :
    resultsOf call.callTargets results a =
      ownResults dex answer (before.flatMap fun e => dex.calls e.2).length pairInput := by
  have hinputs := h.address_of_mem
  have hnodup := h.nodup
  rw [GetPairs.registered, hsplit] at hnodup
  rw [hsplit] at hinputs
  let offset := (before.flatMap fun e => dex.calls e.2).length
  have hown : (dex.calls pairInput).mapIdx (fun i => resultAt answer (i + offset)) =
      ownResults dex answer offset pairInput := by
    refine congrArg (fun f => (dex.calls pairInput).mapIdx f) (funext fun i => ?_)
    rw [Nat.add_comm]
  have hcalls : (fetchCalls dex call).mapIdx (resultAt answer) =
      (before.flatMap fun e => dex.calls e.2).mapIdx (resultAt answer) ++
        (ownResults dex answer offset pairInput ++ (after.flatMap fun e => dex.calls e.2).mapIdx
          fun i => resultAt answer (i + (dex.calls pairInput).length + offset)) := by
    rw [fetchCalls, hsplit, List.flatMap_append, List.flatMap_cons, List.mapIdx_append,
      List.mapIdx_append, hown]
  rw [h.targets, h.results results hresults, callTargets, hcalls, hsplit]
  apply resultsOf_entry hinputs hnodup
  · simp [List.length_flatMap]
  · simp [ownResults]

end Fetches

/-! ### Runs -/

section Run

variable {answer : Nat → Nat → Nat → γ → ρ} {rpcProvider : Nat → Multicall3 γ ρ ε}
  {s s' : DexProvider α ι ρ π (MulticallError ε)} {steps : List (DexStep α ι ρ (MulticallError ε))}
  {id : Nat} {call : GetPairs α ι ρ π (MulticallError ε)}

/-- Every call in flight fetches what one of the requests asked for. -/
def Fetching (dex : DexPairInput α γ ι ρ π) (answer : Nat → Nat → Nat → γ → ρ)
    (steps : List (DexStep α ι ρ (MulticallError ε)))
    (s : DexProvider α ι ρ π (MulticallError ε)) : Prop :=
  ∀ id call, s.inFlight id = some call → ∃ pairInputs, .getPairs id pairInputs ∈ steps ∧
    Fetches dex (answer id) pairInputs call

/-- One call goes on or returns. -/
theorem Fetching.update {call' : GetPairs α ι ρ π (MulticallError ε)}
    {a : DexStep α ι ρ (MulticallError ε)} (h : Fetching dex answer steps s)
    (hcall : s.inFlight id = some call) (hcalls : s'.calls = Function.update s.calls id (some call'))
    (hown : call'.result = none → ∀ pairInputs, Fetches dex (answer id) pairInputs call →
      Fetches dex (answer id) pairInputs call') : Fetching dex answer (steps ++ [a]) s' := by
  intro i c hc
  rcases inFlight_cases hcalls hc with ⟨rfl, rfl, hresult⟩ | ⟨-, hc⟩
  · obtain ⟨pairInputs, hm, hfetches⟩ := h i call hcall
    exact ⟨pairInputs, List.mem_append_left _ hm, hown hresult pairInputs hfetches⟩
  · obtain ⟨pairInputs, hm, hfetches⟩ := h i c hc
    exact ⟨pairInputs, List.mem_append_left _ hm, hfetches⟩

theorem Fetching.step {a : DexStep α ι ρ (MulticallError ε)} (h : Fetching dex answer steps s)
    (hanswers : ∀ id, (rpcProvider id).Answers (answer id)) (hstep : step dex s a = some s')
    (hnode : CallsNode dex rpcProvider s a s') : Fetching dex answer (steps ++ [a]) s' := by
  cases stepped hstep with
  | @getPairs id pairInputs call hid hcall =>
    have hframe := registerAll_call hcall
    have hnew : Fetches dex (answer id) pairInputs (awaiting dex call) := by
      obtain ⟨hvisited, hnodup, hfirst⟩ := registerAll_registers hcall
      refine ⟨⟨hvisited, hnodup, hfirst⟩, rfl, fun results hr => ?_, ?_⟩
      · rw [hframe] at hr
        cases hr
      · rw [hframe]
        rfl
    intro i c hc
    rcases inFlight_cases (setCall_registerAll_calls dex s id pairInputs _) hc with
      ⟨rfl, rfl, -⟩ | ⟨-, hc⟩
    · exact ⟨pairInputs, by simp, hnew⟩
    · obtain ⟨pairInputs, hm, hfetches⟩ := h i c hc
      exact ⟨pairInputs, List.mem_append_left _ hm, hfetches⟩
  | @multicall id results call hcall hnone =>
    obtain ⟨call', completed, hcall', hcompleted, hresult⟩ := hnode
    cases hcall.symm.trans hcall'
    rw [multicall_eq_ok (hanswers id) hcompleted] at hresult
    cases hresult
    refine h.update hcall rfl fun _ pairInputs hfetches => { hfetches with results := ?_ }
    intro results hr
    exact (Option.some.inj hr).symm
  | multicallFails hcall =>
    exact h.update hcall rfl fun hresult => by cases hresult
  | recv hcall =>
    exact h.update hcall rfl fun _ pairInputs hfetches => { hfetches with }
  | recvFails hcall =>
    exact h.update hcall rfl fun hresult => by cases hresult
  | @publish id order call call' results hcall hresults hwaiting horder hcall' =>
    have hcalls := setCall_publishAll_calls dex (inFlight_eq_some.mp hcall).1 results order
    exact h.update hcall (hcalls _) fun hresult => by cases hresult

/-- What a call publishes: each address that it registered was decoded, with the first pair input
of the request for it, from the results of the calls of that pair input. -/
structure PublishesOwn (dex : DexPairInput α γ ι ρ π) (answer : Nat → Nat → γ → ρ)
    (pairInputs : List ι) (call call' : GetPairs α ι ρ π ε)
    (pairCache : LruCache α (AsyncValue (Option π))) : Prop where
  result : call'.result = some (.ok (call'.fetched ++ call.resolved))
  registered : ∀ a pair, (a, pair) ∈ call'.fetched → a ∈ call.registered
  first : ∀ e ∈ call.pairResults, pairInputs.find? (fun i => dex.address i = e.1) = some e.2
  fetched : ∀ before a pairInput after, call.pairResults = before ++ (a, pairInput) :: after →
    ∀ pair, (a, pair) ∈ call'.fetched ↔ dex.decode pairInput
      (ownResults dex answer (before.flatMap fun e => dex.calls e.2).length pairInput) = some pair
  cached : ∀ before a pairInput after, call.pairResults = before ++ (a, pairInput) :: after →
    ∀ asyncValue, pairCache.get? a = some asyncValue → asyncValue.value = some (dex.decode pairInput
      (ownResults dex answer (before.flatMap fun e => dex.calls e.2).length pairInput))

theorem Fetching.publishesOwn {order : List α} (h : Fetching dex answer steps s)
    (hstep : DexProvider.step dex s (.publish id order) = some s') :
    ∃ pairInputs call call', .getPairs id pairInputs ∈ steps ∧ s.inFlight id = some call ∧
      s'.calls id = some call' ∧
      PublishesOwn dex (answer id) pairInputs call call' s'.pairCache := by
  cases stepped hstep with
  | @publish _ _ call call' results hcall hresults hwaiting horder hcall' =>
    obtain ⟨pairInputs, hm, hfetches⟩ := h id call hcall
    let metadata : α → Option π := fun a => (call.pairResults.find? fun e => e.1 = a).bind fun e =>
      dex.decode e.2 (resultsOf call.callTargets results a)
    have hmetadata : ∀ e ∈ call.pairResults,
        dex.decode e.2 (resultsOf call.callTargets results e.1) = metadata e.1 := by
      intro e he
      obtain ⟨e', hfind⟩ : ∃ e', call.pairResults.find? (fun e' => e'.1 = e.1) = some e' :=
        Option.isSome_iff_exists.mp (List.find?_isSome.mpr ⟨e, he, by simp⟩)
      have hsame : e'.1 = e.1 := by simpa using List.find?_some hfind
      have heq : e' = e :=
        List.inj_on_of_nodup_map hfetches.nodup (List.mem_of_find?_eq_some hfind) he hsame
      subst heq
      simp only [metadata, hfind, Option.bind_some]
    obtain ⟨⟨left, hleft⟩, hcached⟩ := publishAll_fetched (inFlight_eq_some.mp hcall).1
      hfetches.nodup hfetches.fetched hmetadata horder
    cases hcall'.symm.trans hleft
    have hown : ∀ before a pairInput after,
        call.pairResults = before ++ (a, pairInput) :: after → a ∈ order ∧
          metadata a = dex.decode pairInput (ownResults dex (answer id)
            (before.flatMap fun e => dex.calls e.2).length pairInput) := by
      intro before a pairInput after hsplit
      have he : (a, pairInput) ∈ call.pairResults := by
        rw [hsplit]
        exact List.mem_append_right _ List.mem_cons_self
      rw [← hfetches.resultsOf hresults hsplit]
      exact ⟨horder.mem_iff.mpr (List.mem_map_of_mem he), (hmetadata _ he).symm⟩
    refine ⟨pairInputs, call, _, hm, hcall, Function.update_self .., rfl, ?_, hfetches.first, ?_, ?_⟩
    · intro a pair hpair
      exact horder.mem_iff.mp (mem_fetchedPairs.mp hpair).1
    · intro before a pairInput after hsplit pair
      obtain ⟨horder, hdecode⟩ := hown before a pairInput after hsplit
      rw [← hdecode]
      exact mem_fetchedPairs.trans (and_iff_right horder)
    · intro before a pairInput after hsplit asyncValue hget
      obtain ⟨horder, hdecode⟩ := hown before a pairInput after hsplit
      rw [← hdecode]
      exact hcached a horder asyncValue hget

/-- The results of a multicall are those of its calls in order, however it is cut into chunks and
in whatever order these complete, and a call decodes each address from the results of its own
calls. -/
theorem getPairs_publishesOwn (dex : DexPairInput α γ ι ρ π) (rpcProvider : Nat → Multicall3 γ ρ ε)
    (answer : Nat → Nat → Nat → γ → ρ) (hanswers : ∀ id, (rpcProvider id).Answers (answer id)) :
    (∀ id calls completed, CompletionOrder calls completed →
      Pochtecatl.multicall (rpcProvider id) calls completed =
        .ok (calls.mapIdx (resultAt (answer id)))) ∧
    ∀ s₀ steps s, (∀ id, s₀.calls id = none) → (machine dex).run s₀ steps = some s →
      (machine dex).Along (CallsNode dex rpcProvider) s₀ steps →
      ∀ id order s', DexProvider.step dex s (.publish id order) = some s' →
        ∃ pairInputs call call', .getPairs id pairInputs ∈ steps ∧ s.inFlight id = some call ∧
          s'.calls id = some call' ∧
          PublishesOwn dex (answer id) pairInputs call call' s'.pairCache := by
  refine ⟨fun id calls completed => multicall_eq_ok (hanswers id), ?_⟩
  intro s₀ steps s hnone hrun hnode id order s' hstep
  have hfetching : Fetching dex answer steps s := by
    refine Machine.run_history (I := Fetching dex answer)
      (fun before t a t' hbefore hstep hp => hbefore.step hanswers hstep hp) hnode hrun ?_
    intro id call hcall
    have hget := (inFlight_eq_some.mp hcall).1
    rw [hnone id] at hget
    cases hget
  exact hfetching.publishesOwn hstep

end Run

open PairInput (answerWith wordAbi)

/-- A chain whose pairs hold WETH and a token that has the address of the pair. -/
def pairAnswer (call : Call3) : MulticallResult :=
  match call.callData with
  | .token0 => answerWith WETH_ADDRESS
  | .token1 => answerWith call.target
  | .fee => answerWith 3000
  | .factory => answerWith UNISWAP_V3_FACTORY_ADDRESS

/-- A node that returns the words of the results, one after the other. -/
def wordNode : Multicall3 Call3 MulticallResult Unit where
  call _ chunk := some (.ok (chunk.flatMap fun call => (pairAnswer call).returnData))
  decodeReturns bytes := .ok ((bytes.chunks 32).map fun word => ⟨true, word⟩)

theorem wordNode_answers : wordNode.Answers fun _ _ => pairAnswer := by
  intro idx chunk
  refine ⟨_, rfl, congrArg Except.ok ?_⟩
  have hword : ∀ call ∈ chunk, (pairAnswer call).returnData.length = 32 := by
    intro call _
    cases hdata : call.callData <;> simp [pairAnswer, hdata, answerWith]
  have hsuccess : ∀ call, pairAnswer call = ⟨true, (pairAnswer call).returnData⟩ := by
    intro call
    cases hdata : call.callData <;> simp [pairAnswer, hdata, answerWith]
  rw [List.chunks_flatMap (by decide) chunk hword, List.map_map]
  refine Eq.symm (List.mapIdx_eq_iff.mpr fun i => ?_)
  rw [List.getElem?_map]
  exact congrArg (fun f => Option.map f chunk[i]?) (funext fun call => (hsuccess call).symm)

/-- Fifty-two calls: the last pair has two of its calls in each chunk. -/
def straddlingInputs : List PairInput :=
  (List.range 13).map fun n => .uniswapV3 ⟨Fin.ofNat _ n⟩

/-- Both variants of one address, and another pair between them. -/
def mixedInputs : List PairInput := [.uniswapV3 ⟨1⟩, .uniswapV2 ⟨2⟩, .uniswapV2 ⟨1⟩]

def mixedCalls : List Call3 :=
  (UniswapV3PairInput.mk 1).calls ++ (UniswapV2PairInput.mk 2).calls

def mixedFlight : List (DexStep Address PairInput MulticallResult (MulticallError Unit)) :=
  [.getPairs 0 mixedInputs, .multicall 0 (.ok (mixedCalls.mapIdx (resultAt fun _ _ => pairAnswer)))]

theorem mixedFlight_callsNode : (machine (uniswapPairInput wordAbi)).Along
    (CallsNode (uniswapPairInput wordAbi) fun _ => wordNode) new mixedFlight := by
  have hone : CompletionOrder mixedCalls [0] := List.Perm.refl _
  intro s₁ h₁
  cases h₁
  refine ⟨trivial, fun s₂ h₂ => ⟨⟨_, [0], rfl, hone, ?_⟩, trivial⟩⟩
  exact (multicall_eq_ok wordNode_answers hone).symm

theorem getPairs_publishesOwn_mixedFlight :
    Pochtecatl.multicall wordNode (straddlingInputs.flatMap PairInput.calls) [1, 0] =
        .ok ((straddlingInputs.flatMap PairInput.calls).mapIdx (resultAt fun _ _ => pairAnswer)) ∧
    ∃ s s', (machine (uniswapPairInput wordAbi)).run new mixedFlight = some s ∧
      step (uniswapPairInput wordAbi) s (.publish 0 [2, 1]) = some s' ∧
      ∃ pairInputs call call', .getPairs 0 pairInputs ∈ mixedFlight ∧ s.inFlight 0 = some call ∧
        s'.calls 0 = some call' ∧ PublishesOwn (uniswapPairInput wordAbi) (fun _ _ => pairAnswer)
          pairInputs call call' s'.pairCache := by
  obtain ⟨hmulticall, hpublish⟩ := getPairs_publishesOwn (uniswapPairInput wordAbi)
    (fun _ => wordNode) (fun _ _ _ => pairAnswer) fun _ => wordNode_answers
  obtain ⟨s, s', hrun, hstep⟩ : ∃ s s',
      (machine (uniswapPairInput wordAbi)).run new mixedFlight = some s ∧
        step (uniswapPairInput wordAbi) s (.publish 0 [2, 1]) = some s' := ⟨_, _, rfl, rfl⟩
  have hswapped : CompletionOrder (straddlingInputs.flatMap PairInput.calls) [1, 0] := by
    have hlength : (straddlingInputs.flatMap PairInput.calls).length = 52 := by decide
    rw [CompletionOrder, List.length_chunks, hlength]
    exact List.Perm.swap 0 1 []
  exact ⟨hmulticall 0 _ _ hswapped, s, s', hrun, hstep,
    hpublish new mixedFlight s (fun _ => rfl) hrun mixedFlight_callsNode 0 [2, 1] s' hstep⟩

end DexProvider

end Pochtecatl
