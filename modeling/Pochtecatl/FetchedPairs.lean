import Pochtecatl.DexProviderSteps

namespace Pochtecatl

namespace DexProvider

variable {α γ ι ρ π ε : Type} [DecidableEq α] {s s' : DexProvider α ι ρ π ε}
  {dex : DexPairInput α γ ι ρ π} {R : α → Option π → Prop} {owner : Nat → Option α} {id : Nat}
  {call : GetPairs α ι ρ π ε}

/-- What a call holds for an address is related to it by `R`. -/
structure CallHolds (dex : DexPairInput α γ ι ρ π) (R : α → Option π → Prop) (owner : Nat → Option α)
    (nextChannel : Nat) (call : GetPairs α ι ρ π ε) : Prop where
  receivers : ∀ a r, (a, .receiver r) ∈ call.asyncValues → r.tx < nextChannel ∧ owner r.tx = some a
  values : ∀ a pair, (a, .value pair) ∈ call.asyncValues → R a pair
  waiting : ∀ a r, (a, r) ∈ call.waiting → r.tx < nextChannel ∧ owner r.tx = some a
  resolved : ∀ a pair, (a, pair) ∈ call.resolved → R a (some pair)
  fetched : ∀ a pair, (a, pair) ∈ call.fetched → R a (some pair)
  result : ∀ pairs, call.result = some (.ok pairs) → ∀ a pair, (a, pair) ∈ pairs → R a (some pair)
  inputs : ∀ a pairInput, (a, pairInput) ∈ call.pairResults → dex.address pairInput = a

/-- Every value lies under an address that it is related to by `R`, each channel being that
of the address which it was made for. -/
structure HoldsFor (dex : DexPairInput α γ ι ρ π) (R : α → Option π → Prop) (owner : Nat → Option α)
    (s : DexProvider α ι ρ π ε) : Prop where
  cached : ∀ a asyncValue, s.pairCache.get? a = some asyncValue →
    asyncValue.tx < s.nextChannel ∧ owner asyncValue.tx = some a ∧
      ∀ pair, asyncValue.value = some pair → R a pair
  sent : ∀ tx < s.nextChannel, ∀ a, owner tx = some a → ∀ pair ∈ (s.channels tx).sent, R a pair
  calls : ∀ id call, s.calls id = some call → CallHolds dex R owner s.nextChannel call

def Holds (dex : DexPairInput α γ ι ρ π) (R : α → Option π → Prop)
    (s : DexProvider α ι ρ π ε) : Prop :=
  ∃ owner, HoldsFor dex R owner s

/-- The pairs that a step decodes from the results of its multicall are related to their
addresses by `R`. -/
def Decodes (dex : DexPairInput α γ ι ρ π) (R : α → Option π → Prop)
    (s : DexProvider α ι ρ π ε) : DexStep α ι ρ ε → DexProvider α ι ρ π ε → Prop
  | .publish id _, _ => ∀ call results, s.inFlight id = some call →
      call.multicallResults = some results → ∀ e ∈ call.pairResults,
        R e.1 (dex.decode e.2 (resultsOf call.callTargets results e.1))
  | _, _ => True

omit [DecidableEq α] in
theorem new_callHolds (nextChannel : Nat) :
    CallHolds dex R owner nextChannel (.new : GetPairs α ι ρ π ε) where
  receivers := fun _ _ h => by cases h
  values := fun _ _ h => by cases h
  waiting := fun _ _ h => by cases h
  resolved := fun _ _ h => by cases h
  fetched := fun _ _ h => by cases h
  result := fun _ h => by cases h
  inputs := fun _ _ h => by cases h

omit [DecidableEq α] in
/-- A new channel belongs to the address it is made for. -/
theorem CallHolds.newChannel {nextChannel : Nat} (h : CallHolds dex R owner nextChannel call)
    (a : α) :
    CallHolds dex R (Function.update owner nextChannel (some a)) (nextChannel + 1) call := by
  have hkeep : ∀ {tx : Nat} {b : α}, tx < nextChannel ∧ owner tx = some b →
      tx < nextChannel + 1 ∧ Function.update owner nextChannel (some a) tx = some b := by
    rintro tx b ⟨hlt, hb⟩
    exact ⟨by omega, by rw [Function.update_of_ne (by omega), hb]⟩
  exact ⟨fun b r hm => hkeep (h.receivers b r hm), h.values, fun b r hm => hkeep (h.waiting b r hm),
    h.resolved, h.fetched, h.result, h.inputs⟩

/-- A call goes on while the cache and the channels stay. -/
theorem HoldsFor.setCall (h : HoldsFor dex R owner s)
    (hcall : CallHolds dex R owner s.nextChannel call) : HoldsFor dex R owner (s.setCall id call) := by
  refine ⟨h.cached, h.sent, fun id' other hget => ?_⟩
  rcases calls_cases rfl hget with ⟨-, rfl⟩ | ⟨-, hget⟩
  · exact hcall
  · exact h.calls id' other hget

theorem HoldsFor.subscribe (h : HoldsFor dex R owner s) (hcall : s.calls id = some call) {a : α}
    {asyncValue : AsyncValue (Option π)} (hget : s.pairCache.get? a = some asyncValue) :
    HoldsFor dex R owner (s.subscribe id call a asyncValue) := by
  have hc := h.calls id call hcall
  obtain ⟨hlt, howner, hvalue⟩ := h.cached a asyncValue hget
  have hnew : CallHolds dex R owner s.nextChannel { call with
      asyncValues := call.asyncValues ++ [(a, asyncValue.getReceiverOrValue s.channels)] } := by
    refine { hc with receivers := fun b r hm => ?_, values := fun b pair hm => ?_ }
    · rcases List.mem_append.mp hm with hm | hm
      · exact hc.receivers b r hm
      · obtain ⟨rfl, hr⟩ := Prod.mk.inj (List.mem_singleton.mp hm)
        unfold AsyncValue.getReceiverOrValue at hr
        split at hr
        next => cases hr
        next =>
          cases hr
          exact ⟨hlt, howner⟩
    · rcases List.mem_append.mp hm with hm | hm
      · exact hc.values b pair hm
      · obtain ⟨rfl, hr⟩ := Prod.mk.inj (List.mem_singleton.mp hm)
        unfold AsyncValue.getReceiverOrValue at hr
        split at hr
        next v hv =>
          cases hr
          exact hvalue pair hv
        next => cases hr
  refine ⟨fun b v hb => h.cached b v ?_, h.sent, (h.setCall hnew :
    HoldsFor dex R owner (s.setCall id _)).calls⟩
  exact (LruCache.get?_touch s.pairCache a b).symm.trans hb

omit [DecidableEq α] in
/-- Eviction closes a channel, and takes no value from it. -/
theorem evict_sent (channels : Nat → Channel (Option π))
    (evicted : Option (α × AsyncValue (Option π))) (tx : Nat) :
    (evict channels evicted tx).sent = (channels tx).sent := by
  unfold evict
  split
  next a asyncValue =>
    by_cases htx : tx = asyncValue.tx
    · rw [htx, Function.update_self]
      rfl
    · rw [Function.update_of_ne htx]
  next => rfl

theorem HoldsFor.register (h : HoldsFor dex R owner s) (hcall : s.calls id = some call)
    {pairInput : ι} (habsent : s.pairCache.get? (dex.address pairInput) = none) :
    HoldsFor dex R (Function.update owner s.nextChannel (some (dex.address pairInput)))
      (s.register id call (dex.address pairInput) pairInput) := by
  have hc := (h.calls id call hcall).newChannel (dex.address pairInput)
  refine ⟨fun a v hget => ?_, fun tx htx a ha pair hm => ?_, fun id' other hget => ?_⟩
  · simp only [DexProvider.register, LruCache.get?_put habsent] at hget ⊢
    split at hget
    next ha =>
      cases hget
      refine ⟨Nat.lt_succ_self _, ?_, fun _ hv => by cases hv⟩
      rw [ha]
      exact Function.update_self ..
    next =>
      split at hget
      next => cases hget
      next =>
        obtain ⟨hlt, howner, hvalue⟩ := h.cached a v hget
        exact ⟨by omega, by rw [Function.update_of_ne (by omega), howner], hvalue⟩
  · simp only [DexProvider.register, evict_sent] at htx hm
    by_cases hnew : tx = s.nextChannel
    · rw [hnew, Function.update_self] at hm
      cases hm
    · rw [Function.update_of_ne hnew] at hm ha
      exact h.sent tx (by omega) a ha pair hm
  · rcases calls_cases rfl hget with ⟨-, rfl⟩ | ⟨-, hget⟩
    · refine { hc with inputs := fun a i hm => ?_ }
      rcases List.mem_append.mp hm with hm | hm
      · exact hc.inputs a i hm
      · cases List.mem_singleton.mp hm
        rfl
    · exact (h.calls id' other hget).newChannel _

theorem HoldsFor.foldl_registerOne (h : HoldsFor dex R owner s) (hcall : s.calls id = some call)
    (pairInputs : List ι) : Holds dex R (pairInputs.foldl (registerOne dex id) s) := by
  induction pairInputs generalizing s owner call with
  | nil => exact ⟨owner, h⟩
  | cons pairInput pairInputs ih =>
    have hround := registerOne_round dex hcall pairInput
    obtain ⟨call', hcalls, -⟩ := hround.calls hcall
    have hcall' : (registerOne dex id s pairInput).calls id = some call' := by
      rw [hcalls, Function.update_self]
    rw [List.foldl_cons]
    generalize registerOne dex id s pairInput = s₁ at hround hcall' ⊢
    cases hround with
    | known => exact ih h hcall'
    | subscribe _ hget => exact ih (h.subscribe hcall hget) hcall'
    | register _ habsent => exact ih (h.register hcall habsent) hcall'

omit [DecidableEq α] in
theorem CallHolds.awaiting {nextChannel : Nat} (h : CallHolds dex R owner nextChannel call) :
    CallHolds dex R owner nextChannel (awaiting dex call) := by
  refine ⟨h.receivers, h.values, fun a r hm => ?_, fun a pair hm => ?_, h.fetched, h.result,
    h.inputs⟩
  · obtain ⟨⟨b, v⟩, hmem, heq⟩ := List.mem_filterMap.mp hm
    cases v with
    | receiver r' =>
      cases Option.some.inj heq
      exact h.receivers a r hmem
    | value v => cases heq
  · obtain ⟨⟨b, v⟩, hmem, heq⟩ := List.mem_filterMap.mp hm
    cases v with
    | receiver r' => cases heq
    | value v =>
      cases v with
      | none => cases heq
      | some pair' =>
        cases Option.some.inj heq
        exact h.values a (some pair) hmem

/-- The value of a channel, once it arrives. -/
theorem mem_sent_of_recv {β : Type} {c : Channel β} {r : Receiver} {v : β}
    (h : c.recv r = .value v) : v ∈ c.sent := by
  unfold Channel.recv at h
  split at h
  next => split at h <;> cases h
  next v' hdrop =>
    cases h
    exact List.mem_of_mem_drop (by rw [hdrop]; exact List.mem_singleton_self v)
  next => cases h

theorem HoldsFor.setPair (h : HoldsFor dex R owner s) {a : α} {pair : Option π} (hpair : R a pair) :
    HoldsFor dex R owner (s.setPair a pair) := by
  unfold DexProvider.setPair
  split
  next => exact h
  next asyncValue hget =>
    obtain ⟨hlt, howner, -⟩ := h.cached a asyncValue hget
    refine ⟨fun b v hb => ?_, fun tx htx b hb p hm => ?_, h.calls⟩
    · simp only [LruCache.get?_modify, hget, Option.map_some] at hb
      split at hb
      next heq =>
        cases hb
        refine ⟨hlt, heq ▸ howner, fun p hp => ?_⟩
        cases hp
        rwa [heq]
      next => exact h.cached b v hb
    · dsimp only at hm
      by_cases heq : tx = asyncValue.tx
      · subst heq
        cases hb.symm.trans howner
        rw [Function.update_self] at hm
        rcases List.mem_append.mp hm with hm | hm
        · exact h.sent _ hlt a howner p hm
        · rw [List.mem_singleton.mp hm]
          exact hpair
      · rw [Function.update_of_ne heq] at hm
        exact h.sent tx htx b hb p hm

theorem CallHolds.published {nextChannel : Nat} (h : CallHolds dex R owner nextChannel call) {a : α}
    {pair : Option π} (hpair : R a pair) :
    CallHolds dex R owner nextChannel (published call a pair) := by
  refine { h with
    fetched := fun b p hm => ?_
    inputs := fun b i hm => h.inputs b i (List.mem_of_mem_filter hm) }
  rcases List.mem_append.mp hm with hm | hm
  · exact h.fetched b p hm
  · obtain ⟨p', hp, heq⟩ := List.mem_map.mp hm
    cases heq
    rwa [Option.mem_toList.mp hp] at hpair

theorem HoldsFor.publishAll (h : HoldsFor dex R owner s) (hcall : s.calls id = some call)
    {results : List ρ} (hdecode : ∀ e ∈ call.pairResults,
      R e.1 (dex.decode e.2 (resultsOf call.callTargets results e.1))) (order : List α) :
    HoldsFor dex R owner (publishAll dex s id results order) := by
  induction order generalizing s call with
  | nil => exact h
  | cons a order ih =>
    have hround := publishOne_round dex hcall results a
    rw [DexProvider.publishAll, List.foldl_cons, ← DexProvider.publishAll]
    generalize publishOne dex id results s a = s₁ at hround ⊢
    cases hround with
    | absent => exact ih h hcall hdecode
    | publish hmem hpair =>
      subst hpair
      have hR := hdecode _ hmem
      refine ih ((h.setPair hR).setCall (CallHolds.published ?_ hR))
        (Function.update_self ..) fun e he => hdecode e (List.mem_of_mem_filter he)
      rw [show (s.setPair a _).nextChannel = s.nextChannel by
        unfold DexProvider.setPair; split <;> rfl]
      exact h.calls id call hcall

theorem new_holdsFor (owner : Nat → Option α) :
    HoldsFor dex R owner (new : DexProvider α ι ρ π ε) where
  cached := fun _ _ h => by cases h
  sent := fun _ h => absurd h (Nat.not_lt_zero _)
  calls := fun _ _ h => by cases h

theorem Holds.step {a : DexStep α ι ρ ε} (h : Holds dex R s) (hstep : step dex s a = some s')
    (hdecode : Decodes dex R s a s') : Holds dex R s' := by
  obtain ⟨owner, h⟩ := h
  cases stepped hstep with
  | getPairs hid hcall =>
    obtain ⟨owner', h'⟩ := (h.setCall (new_callHolds _)).foldl_registerOne
      (Function.update_self ..) _
    exact ⟨owner', h'.setCall (h'.calls _ _ hcall).awaiting⟩
  | multicall hcall _ =>
    exact ⟨owner, h.setCall { h.calls _ _ (inFlight_eq_some.mp hcall).1 with }⟩
  | multicallFails hcall _ _ =>
    exact ⟨owner, h.setCall { h.calls _ _ (inFlight_eq_some.mp hcall).1 with
      result := fun _ hr => by cases hr }⟩
  | recv hcall hwaiting hvalue =>
    have hc := h.calls _ _ (inFlight_eq_some.mp hcall).1
    obtain ⟨hlt, howner⟩ := hc.waiting _ _ hwaiting
    have hR := h.sent _ hlt _ howner _ (mem_sent_of_recv hvalue)
    refine ⟨owner, h.setCall { hc with
      waiting := fun b r hm => hc.waiting b r (List.mem_of_mem_filter hm)
      resolved := fun b p hm => ?_ }⟩
    rcases List.mem_append.mp hm with hm | hm
    · exact hc.resolved b p hm
    · obtain ⟨p', hp, heq⟩ := List.mem_map.mp hm
      cases heq
      rwa [Option.mem_toList.mp hp] at hR
  | recvFails hcall _ _ =>
    exact ⟨owner, h.setCall { h.calls _ _ (inFlight_eq_some.mp hcall).1 with
      result := fun _ hr => by cases hr }⟩
  | @publish id order _ _ _ hcall hresults _ _ hcall' =>
    have h' := h.publishAll (inFlight_eq_some.mp hcall).1
      (hdecode _ _ hcall hresults) order
    have hc := h'.calls _ _ hcall'
    refine ⟨owner, h'.setCall { hc with result := fun pairs hr b p hm => ?_ }⟩
    cases hr
    rcases List.mem_append.mp hm with hm | hm
    · exact hc.fetched b p hm
    · exact hc.resolved b p hm

theorem Holds.address_of_mem (h : Holds dex R s) (hcall : s.calls id = some call) {e : α × ι}
    (he : e ∈ call.pairResults) : dex.address e.2 = e.1 := by
  obtain ⟨owner, h⟩ := h
  exact (h.calls id call hcall).inputs e.1 e.2 he

end DexProvider

end Pochtecatl
