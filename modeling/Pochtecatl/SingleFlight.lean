import Pochtecatl.AbandonedEntries
import Pochtecatl.RegistrationOrder
import Pochtecatl.Pair
import Pochtecatl.ServedCalls
import Mathlib.Algebra.Order.BigOperators.Group.List
import Mathlib.Algebra.Order.Group.Nat

namespace Pochtecatl

namespace DexProvider

variable {α γ ι ρ π ε : Type} [DecidableEq α] {s s' : DexProvider α ι ρ π ε}
  {dex : DexPairInput α γ ι ρ π} {id : Nat} {call : GetPairs α ι ρ π ε}
  {answer : γ → ρ} {metadata : α → Option π} {steps : List (DexStep α ι ρ ε)}

/-- The calls that started can take a step. -/
def CanStep (dex : DexPairInput α γ ι ρ π) (answer : γ → ρ) (metadata : α → Option π)
    (s : DexProvider α ι ρ π ε) : Prop :=
  ∃ a s', step dex s a = some s' ∧ ¬a.isGetPairs ∧ Assumed dex answer metadata s a s'

theorem canStep_multicall (hcall : s.inFlight id = some call)
    (hnone : call.multicallResults = none) : CanStep dex answer metadata s := by
  obtain ⟨s', hstep⟩ : ∃ s', step dex s
      (.multicall id (.ok (call.pairResults.flatMap fun e => answers dex answer e.2))) = some s' := by
    simp only [step, hcall, Option.bind_some, hnone, multicall]
    exact ⟨_, rfl⟩
  exact ⟨_, s', hstep, Bool.false_ne_true, call, hcall, rfl⟩

theorem canStep_publish (hcall : s.inFlight id = some call) {results : List ρ}
    (hresults : call.multicallResults = some results) (hwaiting : call.waiting = []) :
    CanStep dex answer metadata s := by
  obtain ⟨s', hstep⟩ : ∃ s', step dex s (.publish id call.registered) = some s' := by
    have hready : call.waiting.isEmpty ∧ call.registered.isPerm call.registered :=
      ⟨by rw [hwaiting]; rfl, List.isPerm_iff.mpr (List.Perm.refl _)⟩
    simp only [step, hcall, Option.bind_some, hresults, if_pos hready]
    exact ⟨_, rfl⟩
  exact ⟨_, s', hstep, Bool.false_ne_true, trivial⟩

theorem canStep_recv (hcall : s.inFlight id = some call) {a : α} {r : Receiver}
    {rest : List (α × Receiver)} (hwaiting : call.waiting = (a, r) :: rest) {pair : Option π}
    (hvalue : (s.channels r.tx).recv r = .value pair) : CanStep dex answer metadata s := by
  obtain ⟨s', hstep⟩ : ∃ s', step dex s (.recv id a) = some s' := by
    have hfind : call.waiting.find? (fun e => e.1 = a) = some (a, r) := by
      rw [hwaiting, List.find?_cons_of_pos (by simp)]
    simp only [step, hcall, Option.bind_some, recv, hfind, hvalue]
    exact ⟨_, rfl⟩
  exact ⟨_, s', hstep, Bool.false_ne_true, trivial⟩

/-- Some call in flight can go on, the first that registered if no other. -/
theorem canStep_of_inFlight (hflights : Flights s) (hordered : Ordered steps s)
    (howned : NoAbandonedEntry s) (hcall : s.inFlight id = some call) :
    CanStep dex answer metadata s := by
  induction hn : registrationIndex steps id using Nat.strong_induction_on generalizing id call with
  | _ n ih =>
    subst hn
    cases hresults : call.multicallResults with
    | none => exact canStep_multicall hcall hresults
    | some results =>
      cases hwaiting : call.waiting with
      | nil => exact canStep_publish hcall hresults hwaiting
      | cons e rest =>
        obtain ⟨a, r⟩ := e
        have hok := hflights.calls id call hcall
        have hr := hok.waiting a r (by rw [hwaiting]; exact List.mem_cons_self)
        obtain ⟨hseen, -, ⟨asyncValue, hget, htx⟩ | ⟨pair, hchannel⟩⟩ := hok.subscribed a r hr
        · have hchannel := (hflights.cache.channel a asyncValue hget).2
          rw [htx] at hchannel
          cases hvalue : asyncValue.value with
          | none =>
            -- the value is still to come from a call that registered before
            obtain ⟨id', call', hcall', ha⟩ := howned a asyncValue hget hvalue
            exact ih _ (hordered.earlier id id' call call' a r asyncValue hcall hcall' hr ha hget htx)
              hcall' rfl
          | some pair =>
            have hrecv : (s.channels r.tx).recv r = .value pair := by
              rw [hchannel, Channel.recv, hseen, hvalue]
              rfl
            exact canStep_recv hcall hwaiting hrecv
        · have hrecv : (s.channels r.tx).recv r = .value pair := by
            rw [hchannel, Channel.recv, hseen]
            rfl
          exact canStep_recv hcall hwaiting hrecv

/-! ### The steps that are left -/

/-- The steps that a call can still take. -/
def remaining : Option (GetPairs α ι ρ π ε) → Nat
  | some call =>
    if call.result.isSome then 0
    else 1 + (if call.multicallResults.isSome then 0 else 1) + call.waiting.length
  | none => 0

def work (ids : List Nat) (s : DexProvider α ι ρ π ε) : Nat :=
  (ids.map fun id => remaining (s.calls id)).sum

omit [DecidableEq α] in
theorem remaining_of_inFlight (hcall : s.inFlight id = some call) :
    remaining (s.calls id) =
      1 + (if call.multicallResults.isSome then 0 else 1) + call.waiting.length := by
  obtain ⟨hget, hresult⟩ := inFlight_eq_some.mp hcall
  rw [hget, remaining, hresult]
  rfl

omit [DecidableEq α] in
theorem work_lt {ids : List Nat} {call' : GetPairs α ι ρ π ε} (hmem : id ∈ ids)
    (hcalls : s'.calls = Function.update s.calls id (some call'))
    (hlt : remaining (some call') < remaining (s.calls id)) : work ids s' < work ids s := by
  refine List.sum_lt_sum _ _ (fun i _ => ?_) ⟨id, hmem, ?_⟩
  · rw [hcalls]
    by_cases hi : i = id
    · rw [hi, Function.update_self]
      exact hlt.le
    · rw [Function.update_of_ne hi]
  · rw [hcalls, Function.update_self]
    exact hlt

omit [DecidableEq α] in
theorem length_filter_lt [DecidableEq α] {waiting : List (α × Receiver)} {a : α} {r : Receiver}
    (h : (a, r) ∈ waiting) : (waiting.filter fun e => e.1 ≠ a).length < waiting.length :=
  List.length_filter_lt_length_iff_exists.mpr ⟨(a, r), h, by simp⟩

/-- A step of a call that started leaves it less to do. -/
theorem work_step {ids : List Nat} {a : DexStep α ι ρ ε} (hstep : step dex s a = some s')
    (ha : ¬a.isGetPairs) (hids : ∀ id call, s.calls id = some call → id ∈ ids) :
    work ids s' < work ids s := by
  have hmem : ∀ {i c}, s.inFlight i = some c → i ∈ ids :=
    fun hc => hids _ _ (inFlight_eq_some.mp hc).1
  cases stepped hstep with
  | getPairs => exact absurd rfl ha
  | multicall hcall hnone =>
    refine work_lt (hmem hcall) rfl ?_
    rw [remaining_of_inFlight hcall, remaining, hnone, (inFlight_eq_some.mp hcall).2]
    simp
  | multicallFails hcall _ _ =>
    refine work_lt (hmem hcall) rfl ?_
    rw [remaining_of_inFlight hcall]
    simp only [remaining, Option.isSome_some, if_true]
    omega
  | recv hcall hwaiting _ =>
    refine work_lt (hmem hcall) rfl ?_
    have hlt := length_filter_lt hwaiting
    rw [remaining_of_inFlight hcall, remaining, (inFlight_eq_some.mp hcall).2]
    simp only [Option.isSome_none, Bool.false_eq_true, if_false]
    omega
  | recvFails hcall _ _ =>
    refine work_lt (hmem hcall) rfl ?_
    rw [remaining_of_inFlight hcall]
    simp only [remaining, Option.isSome_some, if_true]
    omega
  | @publish id order call call' results hcall _ _ _ _ =>
    refine work_lt (hmem hcall)
      (setCall_publishAll_calls dex (inFlight_eq_some.mp hcall).1 results order _) ?_
    rw [remaining_of_inFlight hcall]
    simp only [remaining, Option.isSome_some, if_true]
    omega

/-! ### Runs -/

/-- What holds while the assumptions do and no entry is evicted before it has a value. -/
structure FlightInv (dex : DexPairInput α γ ι ρ π) (answer : γ → ρ) (metadata : α → Option π)
    (steps : List (DexStep α ι ρ ε)) (s : DexProvider α ι ρ π ε) : Prop where
  flights : Flights s
  ordered : Ordered steps s
  owned : NoAbandonedEntry s
  holds : Holds dex (fun a pair => pair = metadata a) s
  served : Served dex answer metadata steps s

theorem new_flightInv : FlightInv dex answer metadata [] (new : DexProvider α ι ρ π ε) where
  flights := new_flights
  ordered := new_ordered
  owned := new_noAbandonedEntry
  holds := ⟨fun _ => none, new_holdsFor _⟩
  served := new_served

omit [DecidableEq α] in
theorem Assumed.not_multicallFails {a : DexStep α ι ρ ε} (h : Assumed dex answer metadata s a s') :
    ¬a.multicallFails := by
  cases a with
  | multicall id result =>
    obtain ⟨call, -, rfl⟩ := h
    exact Bool.false_ne_true
  | _ => exact Bool.false_ne_true

theorem FlightInv.step {a : DexStep α ι ρ ε} (h : FlightInv dex answer metadata steps s)
    (hstep : step dex s a = some s') (hassumed : Assumed dex answer metadata s a s')
    (hkeeps : KeepsPending dex s a s') : FlightInv dex answer metadata (steps ++ [a]) s' where
  flights := h.flights.step hstep hkeeps
  ordered := h.ordered.step h.flights hstep hkeeps
  owned := h.owned.step h.flights hstep hassumed.not_multicallFails
  holds := h.holds.step hstep (h.served.decodes a s')
  served := h.served.step h.flights h.holds hstep hassumed

theorem keepsPending_of_not_getPairs {a : DexStep α ι ρ ε} (ha : ¬a.isGetPairs) :
    KeepsPending dex s a s' := by
  cases a with
  | getPairs id pairInputs => exact absurd rfl ha
  | _ => trivial

omit [DecidableEq α] in
theorem registrations_of_not_getPairs {a : DexStep α ι ρ ε} (ha : ¬a.isGetPairs) :
    registrations (steps ++ [a]) = registrations steps := by
  rw [registrations_append]
  cases a with
  | getPairs id pairInputs => exact absurd rfl ha
  | _ => exact List.append_nil _

/-- The calls that started all return after a bounded number of steps, in whatever order. -/
theorem FlightInv.settles (h : FlightInv dex answer metadata steps s)
    {more : List (DexStep α ι ρ ε)} (hrun : (machine dex).run s more = some s')
    (hassumed : (machine dex).Along (Assumed dex answer metadata) s more)
    (hmore : ∀ a ∈ more, ¬a.isGetPairs) :
    more.length ≤ work (registrations steps) s ∧
      ((∀ id, s'.inFlight id = none) ∨ CanStep dex answer metadata s') := by
  have hinv : FlightInv dex answer metadata (steps ++ more) s' ∧
      registrations (steps ++ more) = registrations steps ∧
      more.length + work (registrations steps) s' ≤ work (registrations steps) s := by
    refine Machine.run_history (I := fun more s' => FlightInv dex answer metadata (steps ++ more) s' ∧
      registrations (steps ++ more) = registrations steps ∧
      more.length + work (registrations steps) s' ≤ work (registrations steps) s)
      (P := fun s a s' => Assumed dex answer metadata s a s' ∧ ¬a.isGetPairs)
      (fun before t a t' hbefore hstep hp => ?_)
      (Machine.along_and hassumed (Machine.along_of_forall fun a ha _ _ => hmore a ha)) hrun ?_
    · obtain ⟨hinv, hsame, hwork⟩ := hbefore
      obtain ⟨hassumed, ha⟩ := hp
      rw [← List.append_assoc]
      refine ⟨hinv.step hstep hassumed (keepsPending_of_not_getPairs ha),
        (registrations_of_not_getPairs ha).trans hsame, ?_⟩
      have hlt : work (registrations steps) t' < work (registrations steps) t := by
        refine work_step hstep ha fun id call hcall => ?_
        rw [← hsame, hinv.ordered.started, hcall]
        exact Option.some_ne_none _
      rw [List.length_append, List.length_singleton]
      omega
    · rw [List.append_nil]
      exact ⟨h, rfl, Nat.le_of_eq (Nat.zero_add _)⟩
  obtain ⟨hinv, -, hwork⟩ := hinv
  refine ⟨by omega, ?_⟩
  by_cases hnone : ∀ id, s'.inFlight id = none
  · exact .inl hnone
  · obtain ⟨id, hid⟩ := not_forall.mp hnone
    obtain ⟨call, hcall⟩ := Option.ne_none_iff_exists'.mp hid
    exact .inr (canStep_of_inFlight hinv.flights hinv.ordered hinv.owned hcall)

/-- While no entry is evicted before it has a value, every call returns the map of the requested
addresses that decode, and the calls that started return after finitely many steps. -/
theorem getPairs_singleFlight (dex : DexPairInput α γ ι ρ π) (answer : γ → ρ)
    (metadata : α → Option π) (hrun : (machine dex).run new steps = some s)
    (hassumed : (machine dex).Along (Assumed dex answer metadata) new steps)
    (hkeeps : (machine dex).Along (KeepsPending dex) new steps) :
    (∀ id pairInputs, .getPairs id pairInputs ∈ steps → ∃ call, s.calls id = some call ∧
      ∀ result, call.result = some result →
        ∃ pairs, result = .ok pairs ∧ IsPairMap dex metadata pairInputs pairs) ∧
    ∃ bound, ∀ more s', (machine dex).run s more = some s' →
      (machine dex).Along (Assumed dex answer metadata) s more → (∀ a ∈ more, ¬a.isGetPairs) →
      more.length ≤ bound ∧ ((∀ id, s'.inFlight id = none) ∨ CanStep dex answer metadata s') := by
  have hinv : FlightInv dex answer metadata steps s :=
    Machine.run_history (fun before t a t' hbefore hstep hp => hbefore.step hstep hp.1 hp.2)
      (Machine.along_and hassumed hkeeps) hrun new_flightInv
  refine ⟨fun id pairInputs hm => ?_, work (registrations steps) s, fun more s' hrun' hassumed' hmore =>
    hinv.settles hrun' hassumed' hmore⟩
  obtain ⟨call, hcall, -, hreturned⟩ := hinv.served.served id pairInputs hm
  exact ⟨call, hcall, hreturned⟩

/-- Every pair has WETH on both sides. -/
def wethAbi : PairAbi := ⟨fun _ => some WETH_ADDRESS, fun _ => some 0⟩

def wethAnswer (_ : Call3) : MulticallResult := ⟨true, []⟩

def wethMetadata (address : Address) : Option Pair :=
  decoded (uniswapPairInput wethAbi) wethAnswer (.uniswapV2 ⟨address⟩)

/-- The second call waits for what the first one fetches. -/
def waitingFlight : List (DexStep Address PairInput MulticallResult Unit) :=
  [.getPairs 0 [.uniswapV2 ⟨1⟩], .getPairs 1 [.uniswapV2 ⟨1⟩],
    .multicall 0 (.ok (answers (uniswapPairInput wethAbi) wethAnswer (.uniswapV2 ⟨1⟩))),
    .publish 0 [1], .recv 1 1, .multicall 1 (.ok []), .publish 1 []]

theorem waitingFlight_assumed : (machine (uniswapPairInput wethAbi)).Along
    (Assumed (uniswapPairInput wethAbi) wethAnswer wethMetadata) new waitingFlight := by
  have hinput : ∀ pairInput ∈ [PairInput.uniswapV2 ⟨1⟩],
      decoded (uniswapPairInput wethAbi) wethAnswer pairInput =
        wethMetadata ((uniswapPairInput wethAbi).address pairInput) := by
    intro pairInput hm
    rw [List.mem_singleton.mp hm]
    rfl
  intro _ h₁
  cases h₁
  refine ⟨hinput, fun _ h₂ => ⟨hinput, fun _ h₃ => ?_⟩⟩
  cases h₂
  cases h₃
  refine ⟨⟨_, rfl, rfl⟩, fun _ h₄ => ⟨trivial, fun _ h₅ => ⟨trivial, fun _ h₆ => ?_⟩⟩⟩
  cases h₄
  cases h₅
  cases h₆
  exact ⟨⟨_, rfl, rfl⟩, fun _ _ => ⟨trivial, trivial⟩⟩

theorem getPairs_singleFlight_waitingFlight :
    ∃ s, (machine (uniswapPairInput wethAbi)).run new waitingFlight = some s ∧
      (∃ call pairs, s.calls 1 = some call ∧ call.result = some (.ok pairs) ∧
        IsPairMap (uniswapPairInput wethAbi) wethMetadata [.uniswapV2 ⟨1⟩] pairs) ∧
      ∃ bound, ∀ more s', (machine (uniswapPairInput wethAbi)).run s more = some s' →
        (machine (uniswapPairInput wethAbi)).Along
          (Assumed (uniswapPairInput wethAbi) wethAnswer wethMetadata) s more →
        (∀ a ∈ more, ¬a.isGetPairs) → more.length ≤ bound ∧
          ((∀ id, s'.inFlight id = none) ∨
            CanStep (uniswapPairInput wethAbi) wethAnswer wethMetadata s') := by
  obtain ⟨s, pairs, hrestrict, call, hcall, hresult⟩ :
      ∃ s pairs, ((machine (uniswapPairInput wethAbi)).restrict belowCapacity).run new
        waitingFlight = some s ∧
        ∃ call, s.calls 1 = some call ∧ call.result = some (.ok pairs) :=
    ⟨_, _, rfl, _, rfl, rfl⟩
  obtain ⟨hrun, hbelow⟩ := Machine.run_of_restrict hrestrict
  have hkeeps : (machine (uniswapPairInput wethAbi)).Along
      (KeepsPending (uniswapPairInput wethAbi)) new waitingFlight :=
    Machine.along_imp (fun _ _ _ h => keepsPending_of_belowCapacity h.1 h.2) hbelow
  obtain ⟨hserved, hsettles⟩ := getPairs_singleFlight (uniswapPairInput wethAbi) wethAnswer
    wethMetadata hrun waitingFlight_assumed hkeeps
  obtain ⟨call', hcall', hreturned⟩ := hserved 1 [.uniswapV2 ⟨1⟩] (by simp [waitingFlight])
  cases hcall.symm.trans hcall'
  obtain ⟨pairs', hpairs, hmap⟩ := hreturned _ hresult
  cases hpairs
  exact ⟨s, hrun, ⟨call, pairs, hcall, hresult, hmap⟩, hsettles⟩

end DexProvider

end Pochtecatl
