import Pochtecatl.Machine
import Pochtecatl.PairFlights

namespace Pochtecatl

namespace DexProvider

variable {α γ ι ρ π ε : Type} [DecidableEq α] {s s' : DexProvider α ι ρ π ε}
  {dex : DexPairInput α γ ι ρ π} {id : Nat} {call : GetPairs α ι ρ π ε}

/-- The calls of a multicall are those of the addresses that its call registered. -/
def Targeted (dex : DexPairInput α γ ι ρ π) (s : DexProvider α ι ρ π ε) : Prop :=
  ∀ id call, s.inFlight id = some call → call.callTargets = callTargets dex call

omit [DecidableEq α] in
theorem new_targeted : Targeted dex (new : DexProvider α ι ρ π ε) := fun _ _ h => by cases h

theorem new_noAbandonedEntry : NoAbandonedEntry (new : DexProvider α ι ρ π ε) :=
  fun _ _ h => by cases h

omit [DecidableEq α] in
theorem Targeted.setCall {call' : GetPairs α ι ρ π ε} (h : Targeted dex s)
    (htargets : call'.result = none → call'.callTargets = callTargets dex call') :
    Targeted dex (s.setCall id call') := by
  intro id' other hf
  rcases inFlight_cases rfl hf with ⟨-, rfl, hresult⟩ | ⟨-, hf⟩
  · exact htargets hresult
  · exact h id' other hf

theorem Targeted.step {a : DexStep α ι ρ ε} (h : Targeted dex s) (hstep : step dex s a = some s') :
    Targeted dex s' := by
  cases stepped hstep with
  | @getPairs id pairInputs call hid hcall =>
    intro id' other hf
    rcases inFlight_cases (setCall_registerAll_calls dex s id pairInputs _) hf with
      ⟨-, rfl, -⟩ | ⟨-, hf⟩
    · rfl
    · exact h id' other hf
  | multicall hcall _ => exact h.setCall fun _ => (h _ _ hcall :)
  | multicallFails hcall _ _ => exact h.setCall fun hresult => by cases hresult
  | recv hcall _ _ => exact h.setCall fun _ => (h _ _ hcall :)
  | recvFails hcall _ _ => exact h.setCall fun hresult => by cases hresult
  | @publish id order call _ results hcall _ _ _ _ =>
    intro id' other hf
    rcases inFlight_cases
      (setCall_publishAll_calls dex (inFlight_eq_some.mp hcall).1 results order _) hf with
      ⟨-, rfl, hresult⟩ | ⟨-, hf⟩
    · cases hresult
    · exact h id' other hf

omit [DecidableEq α] in
theorem Targeted.registered_ne_nil (h : Targeted dex s) (hcall : s.inFlight id = some call)
    (htargets : call.callTargets ≠ []) : call.registered ≠ [] := by
  intro hnil
  rw [GetPairs.registered, List.map_eq_nil_iff] at hnil
  rw [h id call hcall, callTargets, hnil] at htargets
  exact htargets rfl

/-! ### Owners of placeholders -/

/-- A call goes on, and the entries without a value stay those of calls in flight. -/
theorem NoAbandonedEntry.update {call' : GetPairs α ι ρ π ε} (h : NoAbandonedEntry s)
    (hcalls : s'.calls = Function.update s.calls id (some call'))
    (hentry : ∀ a tx, s'.pairCache.get? a = some ⟨none, tx⟩ →
      call'.result = none ∧ a ∈ call'.registered ∨
        s.pairCache.get? a = some ⟨none, tx⟩ ∧
          ∀ call, s.inFlight id = some call → a ∉ call.registered) :
    NoAbandonedEntry s' := by
  rintro a ⟨value, tx⟩ hget hnone
  cases hnone
  rcases hentry a tx hget with ⟨hresult, ha⟩ | ⟨hget, hnot⟩
  · exact ⟨id, call', inFlight_eq_some.mpr ⟨by rw [hcalls, Function.update_self], hresult⟩, ha⟩
  · obtain ⟨id', other, hf, ha⟩ := h a _ hget rfl
    have hne : id' ≠ id := by
      rintro rfl
      exact hnot other hf ha
    refine ⟨id', other, inFlight_eq_some.mpr ⟨?_, (inFlight_eq_some.mp hf).2⟩, ha⟩
    rw [hcalls, Function.update_of_ne hne]
    exact (inFlight_eq_some.mp hf).1

/-- A call goes on, and nothing changes in the cache or in what it registered. -/
theorem NoAbandonedEntry.setCall {call' : GetPairs α ι ρ π ε} (h : NoAbandonedEntry s)
    (hcall : s.inFlight id = some call) (hresult : call'.result = none)
    (hregistered : call'.registered = call.registered) : NoAbandonedEntry (s.setCall id call') := by
  refine NoAbandonedEntry.update h rfl fun a tx hget => ?_
  by_cases ha : a ∈ call.registered
  · exact .inl ⟨hresult, hregistered ▸ ha⟩
  · refine .inr ⟨hget, fun call₁ hcall₁ => ?_⟩
    cases hcall.symm.trans hcall₁
    exact ha

theorem NoAbandonedEntry.registerRound {pairInput : ι} (h : NoAbandonedEntry s)
    (hcall : s.inFlight id = some call) (hround : RegisterRound dex s id call pairInput s') :
    NoAbandonedEntry s' := by
  obtain ⟨-, hresult⟩ := inFlight_eq_some.mp hcall
  cases hround with
  | known => exact h
  | subscribe _ hget =>
    refine NoAbandonedEntry.update h rfl fun a tx ha => ?_
    rw [DexProvider.subscribe, LruCache.get?_touch] at ha
    by_cases hm : a ∈ call.registered
    · exact .inl ⟨hresult, hm⟩
    · refine .inr ⟨ha, fun call₁ hcall₁ => ?_⟩
      cases hcall.symm.trans hcall₁
      exact hm
  | register _ habsent =>
    refine NoAbandonedEntry.update h rfl fun a tx ha => ?_
    rw [register_get? habsent] at ha
    split at ha
    next heq => exact .inl ⟨hresult, by simp [GetPairs.registered, heq]⟩
    next =>
      split at ha
      next => cases ha
      next =>
        by_cases hm : a ∈ call.registered
        · refine .inl ⟨hresult, ?_⟩
          rw [GetPairs.registered, List.map_append]
          exact List.mem_append_left _ hm
        · refine .inr ⟨ha, fun call₁ hcall₁ => ?_⟩
          cases hcall.symm.trans hcall₁
          exact hm

theorem NoAbandonedEntry.publishRound {results : List ρ} {a : α} (h : NoAbandonedEntry s)
    (hflights : Flights s) (hcall : s.inFlight id = some call)
    (hround : PublishRound dex s id call results a s') : NoAbandonedEntry s' := by
  obtain ⟨-, hresult⟩ := inFlight_eq_some.mp hcall
  cases hround with
  | absent => exact h
  | @publish pairInput pair hmem _ =>
    obtain ⟨tx, hget⟩ := (hflights.calls id call hcall).placeholder a (List.mem_map_of_mem hmem)
    refine @update _ _ _ _ _ _ _ _ id (published call a pair) h
      (by rw [DexProvider.setCall, setPair_calls]) fun b tx' hb => ?_
    change (s.setPair a pair).pairCache.get? b = _ at hb
    rw [setPair_get? hget] at hb
    split at hb
    next => cases hb
    next hne =>
      by_cases hm : b ∈ call.registered
      · exact .inl ⟨hresult, mem_registered_published.mpr ⟨hm, hne⟩⟩
      · refine .inr ⟨hb, fun call₁ hcall₁ => ?_⟩
        cases hcall.symm.trans hcall₁
        exact hm

theorem NoAbandonedEntry.publish {results : List ρ} {order : List α} (h : NoAbandonedEntry s)
    (hflights : Flights s) (hcall : s.inFlight id = some call) (horder : order.Perm call.registered)
    (call' : GetPairs α ι ρ π ε) :
    NoAbandonedEntry ((publishAll dex s id results order).setCall id call') := by
  have hloop : NoAbandonedEntry (publishAll dex s id results order) ∧
      Flights (publishAll dex s id results order) ∧
      ∃ call', (publishAll dex s id results order).inFlight id = some call' := by
    refine publishAll_induct (M := fun _ s₁ => NoAbandonedEntry s₁ ∧ Flights s₁ ∧
      ∃ call', s₁.inFlight id = some call') (inFlight_eq_some.mp hcall).1 ⟨h, hflights, call, hcall⟩
      fun done a rest call₁ s₁ _ hcall₁ ⟨howned, hflights₁, call₂, hcall₂⟩ hround => ?_
    cases hcall₁.symm.trans (inFlight_eq_some.mp hcall₂).1
    obtain ⟨call₃, hcall₃, -⟩ := hround.inFlight hcall₂
    exact ⟨howned.publishRound hflights₁ hcall₂ hround, hflights₁.publishRound hcall₂ hround,
      call₃, hcall₃⟩
  obtain ⟨-, call₁, hcall₁, hleft⟩ := hflights.publishAll dex hcall results order
  refine NoAbandonedEntry.update hloop.1 rfl fun a tx hget => .inr ⟨hget, fun call₂ hcall₂ hm => ?_⟩
  cases hcall₁.symm.trans hcall₂
  exact (hleft a hm).2 (horder.mem_iff.mpr (hleft a hm).1)

theorem NoAbandonedEntry.step {a : DexStep α ι ρ ε} (h : NoAbandonedEntry s) (hflights : Flights s)
    (hstep : DexProvider.step dex s a = some s') (hok : ¬a.multicallFails) :
    NoAbandonedEntry s' := by
  cases stepped hstep with
  | @getPairs id pairInputs call hid hcall =>
    have hnew : s.inFlight id = none := by rw [inFlight, hid, Option.filter_none]
    have hloop : NoAbandonedEntry (registerAll dex s id pairInputs) := by
      refine registerAll_induct (M := fun _ s₁ => NoAbandonedEntry s₁) ?_
        fun done pairInput rest call₁ s₁ _ hcall₁ howned hround =>
          howned.registerRound (registerAll_inFlight hcall₁) hround
      refine NoAbandonedEntry.update h rfl fun a tx hget => .inr ⟨hget, fun call₁ hcall₁ => ?_⟩
      rw [hnew] at hcall₁
      cases hcall₁
    have hinFlight := registerAll_inFlight hcall
    exact hloop.setCall hinFlight (inFlight_eq_some.mp hinFlight).2 rfl
  | multicall hcall _ => exact h.setCall hcall (inFlight_eq_some.mp hcall).2 rfl
  | multicallFails => exact absurd rfl hok
  | recv hcall _ _ => exact h.setCall hcall (inFlight_eq_some.mp hcall).2 rfl
  | recvFails hcall hwaiting herror => exact absurd herror (hflights.recv_ne_error hcall hwaiting)
  | publish hcall _ _ horder _ => exact h.publish hflights hcall horder _

/-- The placeholders of a call whose multicall fails stay in the cache. -/
theorem Flights.abandoned {a : DexStep α ι ρ ε} (h : Flights s) (htargets : Targeted dex s)
    (hstep : DexProvider.step dex s a = some s') (hfails : a.multicallFails) :
    ¬NoAbandonedEntry s' := by
  intro howned
  cases stepped hstep with
  | @multicallFails id e call hcall _ hne =>
    obtain ⟨a, ha⟩ := List.exists_mem_of_ne_nil _ (htargets.registered_ne_nil hcall hne)
    obtain ⟨tx, hget⟩ := (h.calls id call hcall).placeholder a ha
    obtain ⟨id', other, hother, hm⟩ := howned a ⟨none, tx⟩ hget rfl
    rcases inFlight_cases rfl hother with ⟨-, -, hresult⟩ | ⟨hne', hother⟩
    · cases hresult
    · exact h.unregistered hcall ha id' other hne' hother hm
  | _ => cases hfails

/-! ### Runs -/

/-- As long as the cache does not reach its capacity, no entry is abandoned exactly as long
as no multicall fails. -/
theorem noAbandonedEntry_iff (dex : DexPairInput α γ ι ρ π) (steps : List (DexStep α ι ρ ε)) :
    ((machine (ε := ε) dex).restrict belowCapacity).Throughout NoAbandonedEntry new steps ↔
      ((machine dex).restrict belowCapacity).Along
        (fun _ a (_ : DexProvider α ι ρ π ε) => ¬a.multicallFails) new steps := by
  refine Machine.throughout_iff_along (I := fun s => Flights s ∧ Targeted dex s ∧ NoAbandonedEntry s)
    (fun s h => h.2.2) (fun s a s' ⟨hflights, htargets, howned⟩ hstep hok => ?_)
    (fun s a s' ⟨hflights, htargets, _⟩ hstep hfails => ?_)
    ⟨new_flights, new_targeted, new_noAbandonedEntry⟩
  · obtain ⟨hstep, hbelow⟩ := Machine.restrict_step_eq_some.mp hstep
    exact ⟨hflights.step hstep (keepsPending_of_belowCapacity hstep hbelow), htargets.step hstep,
      howned.step hflights hstep hok⟩
  · obtain ⟨hstep, -⟩ := Machine.restrict_step_eq_some.mp hstep
    exact hflights.abandoned htargets hstep (Classical.not_not.mp hfails)

/-- One address that is its own input, and has one call. -/
def onePair : DexPairInput Unit Unit Unit Unit Unit where
  address := fun a => a
  calls := fun _ => [()]
  target := fun a => a
  target_calls := fun _ _ _ => rfl
  decode := fun _ _ => some ()

/-- The multicall of the only call fails. -/
theorem failedMulticall_abandons :
    ¬((machine (ε := Unit) onePair).restrict belowCapacity).Throughout NoAbandonedEntry new
      [.getPairs 0 [()], .multicall 0 (.error ())] := by
  intro h
  have hrun : ∃ s, ((machine (ε := Unit) onePair).restrict belowCapacity).run new
      [.getPairs 0 [()], .multicall 0 (.error ())] = some s ∧
        s.pairCache.get? () = some ⟨none, 0⟩ ∧ ∀ id, s.inFlight id = none := by
    refine ⟨_, rfl, rfl, fun id => ?_⟩
    cases id <;> rfl
  obtain ⟨s, hrun, hget, hnone⟩ := hrun
  obtain ⟨id, call, hcall, -⟩ := Machine.run_throughout h hrun () ⟨none, 0⟩ hget rfl
  rw [hnone id] at hcall
  cases hcall

end DexProvider

end Pochtecatl
