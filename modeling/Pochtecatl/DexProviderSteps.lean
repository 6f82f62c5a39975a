import Pochtecatl.DexProvider
import Mathlib.Data.List.Induction

namespace Pochtecatl

namespace DexProvider

variable {α γ ι ρ π ε : Type} [DecidableEq α] {s s' : DexProvider α ι ρ π ε}
  {dex : DexPairInput α γ ι ρ π} {id : Nat} {call : GetPairs α ι ρ π ε}

/-- The registration loop of a new call. -/
def registerAll (dex : DexPairInput α γ ι ρ π) (s : DexProvider α ι ρ π ε) (id : Nat)
    (pairInputs : List ι) : DexProvider α ι ρ π ε :=
  pairInputs.foldl (registerOne dex id) (s.setCall id .new)

/-- The publication loop. -/
def publishAll (dex : DexPairInput α γ ι ρ π) (s : DexProvider α ι ρ π ε) (id : Nat)
    (results : List ρ) (order : List α) : DexProvider α ι ρ π ε :=
  order.foldl (publishOne dex id results) s

/-- What the registration loop leaves of a call, once its futures are set up. -/
def awaiting (dex : DexPairInput α γ ι ρ π) (call : GetPairs α ι ρ π ε) : GetPairs α ι ρ π ε :=
  { call.resolveMap with callTargets := callTargets dex call }

/-- The call after a pair of its multicall was decoded. -/
def published (call : GetPairs α ι ρ π ε) (a : α) (pair : Option π) : GetPairs α ι ρ π ε :=
  { call with
    pairResults := call.pairResults.filter fun e => e.1 ≠ a
    fetched := call.fetched ++ pair.toList.map fun pair => (a, pair) }

omit [DecidableEq α] in
/-- An update of one call leaves the others. -/
theorem calls_cases {id' : Nat} {other : GetPairs α ι ρ π ε}
    (hcalls : s'.calls = Function.update s.calls id (some call))
    (hget : s'.calls id' = some other) :
    id' = id ∧ other = call ∨ id' ≠ id ∧ s.calls id' = some other := by
  rw [hcalls] at hget
  by_cases hid : id' = id
  · rw [hid, Function.update_self] at hget
    exact .inl ⟨hid, (Option.some.inj hget).symm⟩
  · rw [Function.update_of_ne hid] at hget
    exact .inr ⟨hid, hget⟩

/-- The rounds of the registration loop. -/
inductive RegisterRound (dex : DexPairInput α γ ι ρ π) (s : DexProvider α ι ρ π ε) (id : Nat)
    (call : GetPairs α ι ρ π ε) (pairInput : ι) : DexProvider α ι ρ π ε → Prop where
  | known (h : call.contains (dex.address pairInput)) : RegisterRound dex s id call pairInput s
  | subscribe {asyncValue : AsyncValue (Option π)} (h : ¬call.contains (dex.address pairInput))
      (hget : s.pairCache.get? (dex.address pairInput) = some asyncValue) :
      RegisterRound dex s id call pairInput
        (s.subscribe id call (dex.address pairInput) asyncValue)
  | register (h : ¬call.contains (dex.address pairInput))
      (hget : s.pairCache.get? (dex.address pairInput) = none) :
      RegisterRound dex s id call pairInput (s.register id call (dex.address pairInput) pairInput)

theorem registerOne_round (dex : DexPairInput α γ ι ρ π) 
    (hcall : s.calls id = some call) (pairInput : ι) :
    RegisterRound dex s id call pairInput (registerOne dex id s pairInput) := by
  unfold registerOne
  rw [hcall]
  dsimp only
  split
  next h => exact .known h
  next h =>
    split
    next asyncValue hget => exact .subscribe h hget
    next hget => exact .register h hget

theorem RegisterRound.calls {pairInput : ι} (h : RegisterRound dex s id call pairInput s')
    (hcall : s.calls id = some call) :
    ∃ call', s'.calls = Function.update s.calls id (some call') ∧
      call' = { call with asyncValues := call'.asyncValues, pairResults := call'.pairResults } := by
  cases h with
  | known => exact ⟨call, by rw [← hcall, Function.update_eq_self], rfl⟩
  | subscribe => exact ⟨_, rfl, rfl⟩
  | register => exact ⟨_, rfl, rfl⟩

/-- The registration loop works on its own call. -/
theorem foldl_registerOne_calls (dex : DexPairInput α γ ι ρ π) 
    (hcall : s.calls id = some call) (pairInputs : List ι) :
    ∃ call', (pairInputs.foldl (registerOne dex id) s).calls =
        Function.update s.calls id (some call') ∧
      call' = { call with asyncValues := call'.asyncValues, pairResults := call'.pairResults } := by
  induction pairInputs generalizing s call with
  | nil => exact ⟨call, by rw [← hcall, List.foldl_nil, Function.update_eq_self], rfl⟩
  | cons pairInput pairInputs ih =>
    obtain ⟨call₁, hcalls₁, hframe₁⟩ := (registerOne_round dex hcall pairInput).calls hcall
    have hcall₁ : (registerOne dex id s pairInput).calls id = some call₁ := by
      rw [hcalls₁, Function.update_self]
    obtain ⟨call₂, hcalls₂, hframe₂⟩ := ih hcall₁
    refine ⟨call₂, ?_, ?_⟩
    · rw [List.foldl_cons, hcalls₂, hcalls₁, Function.update_idem]
    · rw [hframe₂, hframe₁]

theorem registerAll_calls (dex : DexPairInput α γ ι ρ π) (s : DexProvider α ι ρ π ε) (id : Nat)
    (pairInputs : List ι) :
    ∃ call', (registerAll dex s id pairInputs).calls =
        Function.update s.calls id (some call') ∧
      call' = { (GetPairs.new : GetPairs α ι ρ π ε) with
        asyncValues := call'.asyncValues, pairResults := call'.pairResults } := by
  have hnew : (s.setCall id .new).calls id = some .new := Function.update_self ..
  obtain ⟨call', hcalls, hframe⟩ := foldl_registerOne_calls dex hnew pairInputs
  refine ⟨call', ?_, hframe⟩
  rw [registerAll, hcalls]
  exact Function.update_idem ..

/-- What a call takes over from its registration loop. -/
theorem registerAll_call {pairInputs : List ι}
    (hcall : (registerAll dex s id pairInputs).calls id = some call) :
    call = { (GetPairs.new : GetPairs α ι ρ π ε) with
      asyncValues := call.asyncValues, pairResults := call.pairResults } := by
  obtain ⟨call', hcalls, hframe⟩ := registerAll_calls dex s id pairInputs
  rw [hcalls, Function.update_self] at hcall
  cases hcall
  exact hframe

theorem setCall_registerAll_calls (dex : DexPairInput α γ ι ρ π) (s : DexProvider α ι ρ π ε)
    (id : Nat) (pairInputs : List ι) (call : GetPairs α ι ρ π ε) :
    ((registerAll dex s id pairInputs).setCall id call).calls =
      Function.update s.calls id (some call) := by
  obtain ⟨call', hcalls, -⟩ := registerAll_calls dex s id pairInputs
  rw [setCall, hcalls, Function.update_idem]

theorem registerAll_concat (s : DexProvider α ι ρ π ε) (id : Nat) (done : List ι) (pairInput : ι) :
    registerAll dex s id (done ++ [pairInput]) =
      registerOne dex id (registerAll dex s id done) pairInput := by
  rw [registerAll, List.foldl_append]
  rfl

/-- What holds before the loop and is kept by every round holds after it. -/
theorem registerAll_induct {M : List ι → DexProvider α ι ρ π ε → Prop} {pairInputs : List ι}
    (hnil : M [] (s.setCall id .new))
    (hround : ∀ done pairInput rest call s₁, pairInputs = done ++ pairInput :: rest →
      (registerAll dex s id done).calls id = some call → M done (registerAll dex s id done) →
      RegisterRound dex (registerAll dex s id done) id call pairInput s₁ →
      M (done ++ [pairInput]) s₁) :
    M pairInputs (registerAll dex s id pairInputs) := by
  have hprefix : ∀ done rest, pairInputs = done ++ rest → M done (registerAll dex s id done) := by
    intro done
    induction done using List.reverseRecOn with
    | nil => exact fun _ _ => hnil
    | append_singleton done pairInput ih =>
      intro rest hrest
      rw [List.append_assoc] at hrest
      obtain ⟨call, hcalls, -⟩ := registerAll_calls dex s id done
      have hcall : (registerAll dex s id done).calls id = some call := by
        rw [hcalls, Function.update_self]
      rw [registerAll_concat]
      exact hround done pairInput rest call _ hrest hcall (ih _ hrest)
        (registerOne_round dex hcall pairInput)
  exact hprefix pairInputs [] (List.append_nil _).symm

/-- The rounds of the publication loop. -/
inductive PublishRound (dex : DexPairInput α γ ι ρ π) (s : DexProvider α ι ρ π ε) (id : Nat)
    (call : GetPairs α ι ρ π ε) (results : List ρ) (a : α) : DexProvider α ι ρ π ε → Prop where
  | absent (h : a ∉ call.registered) : PublishRound dex s id call results a s
  | publish {pairInput : ι} {pair : Option π} (hmem : (a, pairInput) ∈ call.pairResults)
      (hpair : dex.decode pairInput (resultsOf call.callTargets results a) = pair) :
      PublishRound dex s id call results a ((s.setPair a pair).setCall id (published call a pair))

theorem publishOne_round (dex : DexPairInput α γ ι ρ π) 
    (hcall : s.calls id = some call) (results : List ρ) (a : α) :
    PublishRound dex s id call results a (publishOne dex id results s a) := by
  unfold publishOne
  rw [hcall]
  dsimp only
  split
  next hfind =>
    refine .absent fun hm => ?_
    obtain ⟨e, he, rfl⟩ := List.mem_map.mp hm
    simpa using List.find?_eq_none.mp hfind e he
  next a' pairInput hfind =>
    have ha : a' = a := by simpa using List.find?_some hfind
    subst ha
    exact .publish (List.mem_of_find?_eq_some hfind) rfl

theorem setPair_calls (a : α) (pair : Option π) :
    (s.setPair a pair).calls = s.calls := by
  unfold setPair
  split <;> rfl

theorem PublishRound.calls {results : List ρ} {a : α}
    (h : PublishRound dex s id call results a s') (hcall : s.calls id = some call) :
    ∃ call', s'.calls = Function.update s.calls id (some call') ∧
      call' = { call with pairResults := call'.pairResults, fetched := call'.fetched } := by
  cases h with
  | absent => exact ⟨call, by rw [← hcall, Function.update_eq_self], rfl⟩
  | publish => exact ⟨_, by rw [setCall, setPair_calls], rfl⟩

/-- The publication loop works on its own call. -/
theorem publishAll_calls (dex : DexPairInput α γ ι ρ π) 
    (hcall : s.calls id = some call) (results : List ρ) (order : List α) :
    ∃ call', (publishAll dex s id results order).calls =
        Function.update s.calls id (some call') ∧
      call' = { call with pairResults := call'.pairResults, fetched := call'.fetched } := by
  induction order generalizing s call with
  | nil => exact ⟨call, by rw [← hcall, publishAll, List.foldl_nil, Function.update_eq_self], rfl⟩
  | cons a order ih =>
    obtain ⟨call₁, hcalls₁, hframe₁⟩ := (publishOne_round dex hcall results a).calls hcall
    have hcall₁ : (publishOne dex id results s a).calls id = some call₁ := by
      rw [hcalls₁, Function.update_self]
    obtain ⟨call₂, hcalls₂, hframe₂⟩ := ih hcall₁
    refine ⟨call₂, ?_, ?_⟩
    · rw [publishAll, List.foldl_cons, ← publishAll, hcalls₂, hcalls₁, Function.update_idem]
    · rw [hframe₂, hframe₁]

theorem setCall_publishAll_calls (dex : DexPairInput α γ ι ρ π) (hcall : s.calls id = some call)
    (results : List ρ) (order : List α) (call' : GetPairs α ι ρ π ε) :
    ((publishAll dex s id results order).setCall id call').calls =
      Function.update s.calls id (some call') := by
  obtain ⟨call₁, hcalls, -⟩ := publishAll_calls dex hcall results order
  rw [setCall, hcalls, Function.update_idem]

theorem publishAll_concat (s : DexProvider α ι ρ π ε) (id : Nat) (results : List ρ)
    (done : List α) (a : α) :
    publishAll dex s id results (done ++ [a]) =
      publishOne dex id results (publishAll dex s id results done) a := by
  rw [publishAll, List.foldl_append]
  rfl

theorem publishAll_induct {M : List α → DexProvider α ι ρ π ε → Prop} {results : List ρ}
    {order : List α} (hcall : s.calls id = some call) (hnil : M [] s)
    (hround : ∀ done a rest call s₁, order = done ++ a :: rest →
      (publishAll dex s id results done).calls id = some call →
      M done (publishAll dex s id results done) →
      PublishRound dex (publishAll dex s id results done) id call results a s₁ →
      M (done ++ [a]) s₁) :
    M order (publishAll dex s id results order) := by
  have hprefix : ∀ done rest, order = done ++ rest → M done (publishAll dex s id results done) := by
    intro done
    induction done using List.reverseRecOn with
    | nil => exact fun _ _ => hnil
    | append_singleton done a ih =>
      intro rest hrest
      rw [List.append_assoc] at hrest
      obtain ⟨call', hcalls, -⟩ := publishAll_calls dex hcall results done
      have hcall' : (publishAll dex s id results done).calls id = some call' := by
        rw [hcalls, Function.update_self]
      rw [publishAll_concat]
      exact hround done a rest call' _ hrest hcall' (ih _ hrest) (publishOne_round dex hcall' results a)
  exact hprefix order [] (List.append_nil _).symm

/-- What the steps do. -/
inductive Stepped (dex : DexPairInput α γ ι ρ π) (s : DexProvider α ι ρ π ε) :
    DexStep α ι ρ ε → DexProvider α ι ρ π ε → Prop where
  | getPairs {id : Nat} {pairInputs : List ι} {call : GetPairs α ι ρ π ε}
      (hid : s.calls id = none) (hcall : (registerAll dex s id pairInputs).calls id = some call) :
      Stepped dex s (.getPairs id pairInputs)
        ((registerAll dex s id pairInputs).setCall id (awaiting dex call))
  | multicall {id : Nat} {results : List ρ} {call : GetPairs α ι ρ π ε}
      (hcall : s.inFlight id = some call) (hnone : call.multicallResults = none) :
      Stepped dex s (.multicall id (.ok results))
        (s.setCall id { call with multicallResults := some results })
  | multicallFails {id : Nat} {e : ε} {call : GetPairs α ι ρ π ε}
      (hcall : s.inFlight id = some call) (hnone : call.multicallResults = none)
      (htargets : call.callTargets ≠ []) :
      Stepped dex s (.multicall id (.error e))
        (s.setCall id { call with result := some (.error (.multicall e)) })
  | recv {id : Nat} {a : α} {call : GetPairs α ι ρ π ε} {r : Receiver} {pair : Option π}
      (hcall : s.inFlight id = some call) (hwaiting : (a, r) ∈ call.waiting)
      (hvalue : (s.channels r.tx).recv r = .value pair) :
      Stepped dex s (.recv id a) (s.setCall id { call with
        waiting := call.waiting.filter fun e => e.1 ≠ a
        resolved := call.resolved ++ pair.toList.map fun pair => (a, pair) })
  | recvFails {id : Nat} {a : α} {call : GetPairs α ι ρ π ε} {r : Receiver}
      (hcall : s.inFlight id = some call) (hwaiting : (a, r) ∈ call.waiting)
      (herror : (s.channels r.tx).recv r = .error) :
      Stepped dex s (.recv id a) (s.setCall id { call with result := some (.error .resolveMap) })
  | publish {id : Nat} {order : List α} {call call' : GetPairs α ι ρ π ε} {results : List ρ}
      (hcall : s.inFlight id = some call) (hresults : call.multicallResults = some results)
      (hwaiting : call.waiting = []) (horder : order.Perm call.registered)
      (hcall' : (publishAll dex s id results order).calls id = some call') :
      Stepped dex s (.publish id order) ((publishAll dex s id results order).setCall id
        { call' with result := some (.ok (call'.fetched ++ call'.resolved)) })

omit [DecidableEq α] in
theorem inFlight_eq_some :
    s.inFlight id = some call ↔ s.calls id = some call ∧ call.result = none := by
  simp [inFlight, Option.filter_eq_some_iff]

theorem stepped {a : DexStep α ι ρ ε} (h : step dex s a = some s') : Stepped dex s a s' := by
  cases a with
  | getPairs id pairInputs =>
    simp only [step] at h
    split at h
    next hid =>
      obtain ⟨call, hcalls, -⟩ := registerAll_calls dex s id pairInputs
      have hcall : (registerAll dex s id pairInputs).calls id = some call := by
        rw [hcalls, Function.update_self]
      cases h
      rw [getPairs, ← registerAll]
      simp only [hcall]
      exact .getPairs (Option.isNone_iff_eq_none.mp hid) hcall
    next => cases h
  | multicall id result =>
    obtain ⟨call, hcall, h⟩ := Option.bind_eq_some_iff.mp h
    split at h
    next hnone =>
      have hnone := Option.isNone_iff_eq_none.mp hnone
      cases result with
      | ok results =>
        cases h
        exact .multicall hcall hnone
      | error e =>
        simp only [multicall] at h
        split at h
        next => cases h
        next htargets =>
          cases h
          exact .multicallFails hcall hnone (by simpa using htargets)
    next => cases h
  | recv id a =>
    obtain ⟨call, hcall, h⟩ := Option.bind_eq_some_iff.mp h
    unfold recv at h
    split at h
    next => cases h
    next a' r hfind =>
      have ha : a' = a := by simpa using List.find?_some hfind
      subst ha
      have hmem := List.mem_of_find?_eq_some hfind
      split at h
      next => cases h
      next herror =>
        cases h
        exact .recvFails hcall hmem herror
      next pair hvalue =>
        cases h
        exact .recv hcall hmem hvalue
  | publish id order =>
    obtain ⟨call, hcall, h⟩ := Option.bind_eq_some_iff.mp h
    split at h
    next => cases h
    next results hresults =>
      split at h
      next hready =>
        obtain ⟨call', hcalls, -⟩ :=
          publishAll_calls dex (inFlight_eq_some.mp hcall).1 results order
        have hcall' : (publishAll dex s id results order).calls id = some call' := by
          rw [hcalls, Function.update_self]
        cases h
        rw [publish, ← publishAll]
        simp only [hcall']
        exact .publish hcall hresults (List.isEmpty_iff.mp hready.1)
          (List.isPerm_iff.mp hready.2) hcall'
      next => cases h

end DexProvider

end Pochtecatl
