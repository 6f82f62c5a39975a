import Pochtecatl.Pair
import Pochtecatl.PairFlights
import Mathlib.Logic.Relation
import Mathlib.Data.List.Basic

namespace Pochtecatl

namespace DexProvider

variable {α γ ι ρ π ε : Type} [DecidableEq α] {s s' : DexProvider α ι ρ π ε}
  {dex : DexPairInput α γ ι ρ π} {id : Nat} {call : GetPairs α ι ρ π ε}
  {steps : List (DexStep α ι ρ ε)}

/-- The calls in the order of their registration critical sections. -/
def registrations (steps : List (DexStep α ι ρ ε)) : List Nat :=
  steps.filterMap fun
    | .getPairs id _ => some id
    | _ => none

/-- The place of the registration critical section of a call among those of the run. -/
def registrationIndex (steps : List (DexStep α ι ρ ε)) (id : Nat) : Nat :=
  (registrations steps).idxOf id

/-- A call in flight waits for an address that another one registered and has not published. -/
def WaitsFor (s : DexProvider α ι ρ π ε) (id id' : Nat) : Prop :=
  ∃ call call' a r, s.inFlight id = some call ∧ s.inFlight id' = some call' ∧
    (a, r) ∈ call.waiting ∧ a ∈ call'.registered

/-- A call awaits a cached entry that was registered before it by the call that fills it. -/
structure Ordered (steps : List (DexStep α ι ρ ε)) (s : DexProvider α ι ρ π ε) : Prop where
  started : ∀ id, id ∈ registrations steps ↔ s.calls id ≠ none
  earlier : ∀ id id' call call' a r asyncValue, s.inFlight id = some call →
    s.inFlight id' = some call' → (a, .receiver r) ∈ call.asyncValues → a ∈ call'.registered →
    s.pairCache.get? a = some asyncValue → asyncValue.tx = r.tx →
    registrationIndex steps id' < registrationIndex steps id

theorem new_ordered : Ordered [] (new : DexProvider α ι ρ π ε) where
  started := fun _ => iff_of_false (fun h => by cases h) fun h => h rfl
  earlier := fun _ _ _ _ _ _ _ h => by cases h

omit [DecidableEq α] in
theorem registrations_append (before after : List (DexStep α ι ρ ε)) :
    registrations (before ++ after) = registrations before ++ registrations after :=
  List.filterMap_append

omit [DecidableEq α] in
/-- The sections that ran keep their places. -/
theorem registrationIndex_append (after : List (DexStep α ι ρ ε))
    (h : id ∈ registrations steps) :
    registrationIndex (steps ++ after) id = registrationIndex steps id := by
  rw [registrationIndex, registrations_append, List.idxOf_append_of_mem h, registrationIndex]

omit [DecidableEq α] in
theorem registrationIndex_lt {pairInputs : List ι} (hid : id ∉ registrations steps) {id' : Nat}
    (h : id' ∈ registrations steps) :
    registrationIndex (steps ++ [.getPairs id pairInputs]) id' <
      registrationIndex (steps ++ [.getPairs id pairInputs]) id := by
  rw [registrationIndex_append _ h, registrationIndex, registrationIndex, registrations_append,
    List.idxOf_append_of_notMem hid]
  exact Nat.lt_of_lt_of_le (List.idxOf_lt_length_of_mem h) (Nat.le_add_right _ _)

omit [DecidableEq α] in
theorem calls_ne_none_update {call' : GetPairs α ι ρ π ε} (hcall : s.calls id = some call)
    (hcalls : s'.calls = Function.update s.calls id (some call')) (id' : Nat) :
    s'.calls id' ≠ none ↔ s.calls id' ≠ none := by
  rw [hcalls]
  by_cases hid : id' = id
  · simp [hid, hcall]
  · rw [Function.update_of_ne hid]

/-- A call goes on without new receivers and registrations. -/
theorem Ordered.progress {call' : GetPairs α ι ρ π ε} (h : Ordered steps s)
    (hcall : s.inFlight id = some call)
    (hcalls : s'.calls = Function.update s.calls id (some call'))
    (hasync : call'.asyncValues = call.asyncValues)
    (hregistered : ∀ a ∈ call'.registered, a ∈ call.registered)
    (hcached : ∀ a asyncValue, s'.pairCache.get? a = some asyncValue →
      ∃ old, s.pairCache.get? a = some old ∧ old.tx = asyncValue.tx) : Ordered steps s' := by
  have hback : ∀ i c, s'.inFlight i = some c → ∃ old, s.inFlight i = some old ∧
      c.asyncValues = old.asyncValues ∧ ∀ a ∈ c.registered, a ∈ old.registered := by
    intro i c hi
    rcases inFlight_cases hcalls hi with ⟨rfl, rfl, -⟩ | ⟨-, hi⟩
    · exact ⟨call, hcall, hasync, hregistered⟩
    · exact ⟨c, hi, rfl, fun _ ha => ha⟩
  refine ⟨fun i => ?_, fun i j ci cj a r v hi hj hr ha hv htx => ?_⟩
  · rw [h.started, calls_ne_none_update (inFlight_eq_some.mp hcall).1 hcalls]
  · obtain ⟨oldi, hi, hsame, -⟩ := hback i ci hi
    obtain ⟨oldj, hj, -, hsub⟩ := hback j cj hj
    obtain ⟨old, hold, hotx⟩ := hcached a v hv
    exact h.earlier i j oldi oldj a r old hi hj (hsame ▸ hr) (hsub a ha) hold (hotx.trans htx)

theorem Ordered.setCall {call' : GetPairs α ι ρ π ε} (h : Ordered steps s)
    (hcall : s.inFlight id = some call) (hasync : call'.asyncValues = call.asyncValues)
    (hregistered : call'.registered = call.registered) : Ordered steps (s.setCall id call') :=
  h.progress hcall rfl hasync (fun _ ha => hregistered ▸ ha) fun _ v hv => ⟨v, hv, rfl⟩

omit [DecidableEq α] in
theorem calls_iff {call' : GetPairs α ι ρ π ε} (hcall : s.inFlight id = some call)
    (hcalls : s'.calls = Function.update s.calls id (some call')) (i : Nat) :
    s.calls i ≠ none ↔ s'.calls i ≠ none :=
  (calls_ne_none_update (inFlight_eq_some.mp hcall).1 hcalls i).symm

theorem Ordered.mem_registrations (h : Ordered steps s) (hcall : s.inFlight id = some call) :
    id ∈ registrations steps :=
  (h.started id).mpr (by rw [(inFlight_eq_some.mp hcall).1]; exact Option.some_ne_none _)

/-- A new call is the last one in the order. -/
theorem Ordered.start (h : Ordered steps s) (pairInputs : List ι) :
    Ordered (steps ++ [.getPairs id pairInputs]) (s.setCall id .new) := by
  refine ⟨fun i => ?_, fun i j ci cj a r v hi hj hr ha hv htx => ?_⟩
  · have hsame : registrations (steps ++ [.getPairs id pairInputs]) = registrations steps ++ [id] :=
      registrations_append _ _
    rw [hsame, List.mem_append, List.mem_singleton, h.started, DexProvider.setCall]
    by_cases hi : i = id
    · simp [hi]
    · simp [hi]
  · rcases inFlight_cases rfl hi with ⟨-, rfl, -⟩ | ⟨-, hi⟩
    · cases hr
    · rcases inFlight_cases rfl hj with ⟨-, rfl, -⟩ | ⟨-, hj⟩
      · cases ha
      · rw [registrationIndex_append _ (h.mem_registrations hi),
          registrationIndex_append _ (h.mem_registrations hj)]
        exact h.earlier i j ci cj a r v hi hj hr ha hv htx

theorem Ordered.subscribe (h : Ordered steps s) (hcall : s.inFlight id = some call) {a : α}
    (hcontains : ¬call.contains a) (asyncValue : AsyncValue (Option π))
    (hlast : ∀ id' ∈ registrations steps, id' ≠ id →
      registrationIndex steps id' < registrationIndex steps id) :
    Ordered steps (s.subscribe id call a asyncValue) := by
  refine ⟨fun i => (h.started i).trans (calls_iff hcall rfl i),
    fun i j ci cj b r v hi hj hr hb hv htx => ?_⟩
  rw [DexProvider.subscribe, LruCache.get?_touch] at hv
  obtain ⟨cj', hj', hb'⟩ : ∃ cj', s.inFlight j = some cj' ∧ b ∈ cj'.registered := by
    rcases inFlight_cases rfl hj with ⟨hjd, rfl, -⟩ | ⟨-, hj'⟩
    · exact ⟨call, hjd ▸ hcall, hb⟩
    · exact ⟨cj, hj', hb⟩
  rcases inFlight_cases rfl hi with ⟨hid, rfl, -⟩ | ⟨-, hi'⟩
  · rw [hid]
    rcases List.mem_append.mp hr with hr | hr
    · exact h.earlier id j call cj' b r v hcall hj' hr hb' hv htx
    · have hba : b = a := congrArg Prod.fst (List.mem_singleton.mp hr)
      refine hlast j (h.mem_registrations hj') fun hjd => hcontains ?_
      rw [hjd] at hj'
      cases hcall.symm.trans hj'
      simp [GetPairs.contains, ← hba, hb']
  · exact h.earlier i j ci cj' b r v hi' hj' hr hb' hv htx

/-- Nobody awaits a new placeholder. -/
theorem Ordered.register (h : Ordered steps s) (hflights : Flights s)
    (hcall : s.inFlight id = some call) {a : α} (habsent : s.pairCache.get? a = none)
    (pairInput : ι) : Ordered steps (s.register id call a pairInput) := by
  refine ⟨fun i => (h.started i).trans (calls_iff hcall rfl i),
    fun i j ci cj b r v hi hj hr hb hv htx => ?_⟩
  obtain ⟨ci', hi', hr'⟩ : ∃ ci', s.inFlight i = some ci' ∧ (b, .receiver r) ∈ ci'.asyncValues := by
    rcases inFlight_cases rfl hi with ⟨hid, rfl, -⟩ | ⟨-, hi'⟩
    · exact ⟨call, hid ▸ hcall, hr⟩
    · exact ⟨ci, hi', hr⟩
  rcases hflights.cache.register_cases habsent hv with ⟨-, rfl⟩ | ⟨hv', -⟩
  · have hlt := ((hflights.calls i ci' hi').subscribed b r hr').2.1
    rw [← htx] at hlt
    exact absurd hlt (Nat.lt_irrefl _)
  · obtain ⟨cj', hj', hb'⟩ : ∃ cj', s.inFlight j = some cj' ∧ (b ∈ cj'.registered ∨ b = a) := by
      rcases inFlight_cases rfl hj with ⟨hjd, rfl, -⟩ | ⟨-, hj'⟩
      · exact ⟨call, hjd ▸ hcall, by simpa [GetPairs.registered] using hb⟩
      · exact ⟨cj, hj', .inl hb⟩
    rcases hb' with hb' | rfl
    · exact h.earlier i j ci' cj' b r v hi' hj' hr' hb' hv' htx
    · rw [habsent] at hv'
      cases hv'

theorem Ordered.publishRound (h : Ordered steps s) (hflights : Flights s)
    (hcall : s.inFlight id = some call) {results : List ρ} {a : α}
    (hround : PublishRound dex s id call results a s') : Ordered steps s' := by
  cases hround with
  | absent => exact h
  | @publish pairInput pair hmem _ =>
    obtain ⟨tx, hget⟩ := (hflights.calls id call hcall).placeholder a (List.mem_map_of_mem hmem)
    have hcalls : ((s.setPair a pair).setCall id (published call a pair)).calls =
        Function.update s.calls id (some (published call a pair)) := by
      rw [DexProvider.setCall, setPair_calls]
    refine @progress _ _ _ _ _ _ _ _ id call steps (published call a pair) h hcall hcalls rfl
      (fun b hb => (mem_registered_published.mp hb).1) fun b v hv => ?_
    change (s.setPair a pair).pairCache.get? b = some v at hv
    rw [setPair_get? hget] at hv
    split at hv
    next heq =>
      cases hv
      exact ⟨⟨none, tx⟩, heq ▸ hget, rfl⟩
    next => exact ⟨v, hv, rfl⟩

theorem Ordered.registerAll (h : Ordered steps s) (hflights : Flights s) (hid : s.calls id = none)
    {pairInputs : List ι}
    (hkeeps : KeepsPending dex s (.getPairs id pairInputs : DexStep α ι ρ ε) s') :
    Ordered (steps ++ [.getPairs id pairInputs]) (registerAll dex s id pairInputs) := by
  have hnew : id ∉ registrations steps := fun hm => (h.started id).mp hm hid
  have hlast : ∀ id' ∈ registrations (steps ++ [.getPairs id pairInputs]), id' ≠ id →
      registrationIndex (steps ++ [.getPairs id pairInputs]) id' <
        registrationIndex (steps ++ [.getPairs id pairInputs]) id := by
    intro id' hm hne
    have hsame : registrations (steps ++ [.getPairs id pairInputs]) = registrations steps ++ [id] :=
      registrations_append _ _
    rw [hsame, List.mem_append, List.mem_singleton] at hm
    exact registrationIndex_lt hnew (hm.resolve_right hne)
  have hloop : Flights (DexProvider.registerAll dex s id pairInputs) ∧
      Ordered (steps ++ [.getPairs id pairInputs]) (DexProvider.registerAll dex s id pairInputs) := by
    refine registerAll_induct (M := fun _ s₁ => Flights s₁ ∧
      Ordered (steps ++ [.getPairs id pairInputs]) s₁) ⟨hflights.start, h.start pairInputs⟩
      fun done pairInput rest call₁ s₁ hsplit hcall₁ hboth hround => ?_
    obtain ⟨hf, ho⟩ := hboth
    have hinFlight := registerAll_inFlight hcall₁
    refine ⟨hf.registerRound hinFlight (hkeeps done pairInput rest hsplit) hround, ?_⟩
    cases hround with
    | known => exact ho
    | subscribe hcontains _ => exact ho.subscribe hinFlight hcontains _ hlast
    | register _ habsent => exact ho.register hf hinFlight habsent pairInput
  exact hloop.2

theorem Ordered.publishAll (dex : DexPairInput α γ ι ρ π) (h : Ordered steps s)
    (hflights : Flights s)
    (hcall : s.inFlight id = some call) (results : List ρ) (order : List α) :
    Ordered steps (publishAll dex s id results order) := by
  have hloop : Flights (DexProvider.publishAll dex s id results order) ∧
      Ordered steps (DexProvider.publishAll dex s id results order) ∧
      ∃ call', (DexProvider.publishAll dex s id results order).inFlight id = some call' := by
    refine publishAll_induct (M := fun _ s₁ => Flights s₁ ∧ Ordered steps s₁ ∧
      ∃ call', s₁.inFlight id = some call') (inFlight_eq_some.mp hcall).1 ⟨hflights, h, call, hcall⟩
      fun done a rest call₁ s₁ _ hcall₁ hall hround => ?_
    obtain ⟨hf, ho, call₂, hcall₂⟩ := hall
    cases hcall₁.symm.trans (inFlight_eq_some.mp hcall₂).1
    obtain ⟨call₃, hcall₃, -⟩ := hround.inFlight hcall₂
    exact ⟨hf.publishRound hcall₂ hround, ho.publishRound hf hcall₂ hround, call₃, hcall₃⟩
  exact hloop.2.1

theorem Ordered.congr {steps' : List (DexStep α ι ρ ε)} (h : Ordered steps s)
    (hsame : registrations steps' = registrations steps) : Ordered steps' s := by
  refine ⟨fun i => by rw [hsame, h.started], fun i j ci cj a r v hi hj hr ha hv htx => ?_⟩
  rw [registrationIndex, registrationIndex, hsame]
  exact h.earlier i j ci cj a r v hi hj hr ha hv htx

theorem Ordered.step {a : DexStep α ι ρ ε} (h : Ordered steps s) (hflights : Flights s)
    (hstep : step dex s a = some s') (hkeeps : KeepsPending dex s a s') :
    Ordered (steps ++ [a]) s' := by
  have hsame : ∀ b : DexStep α ι ρ ε, registrations [b] = [] →
      registrations (steps ++ [b]) = registrations steps := fun b hb => by
    rw [registrations_append, hb, List.append_nil]
  cases stepped hstep with
  | getPairs hid hcall =>
    exact (h.registerAll hflights hid hkeeps).setCall (registerAll_inFlight hcall) rfl rfl
  | multicall hcall _ => exact (h.congr (hsame _ rfl)).setCall hcall rfl rfl
  | multicallFails hcall _ _ => exact (h.congr (hsame _ rfl)).setCall hcall rfl rfl
  | recv hcall _ _ => exact (h.congr (hsame _ rfl)).setCall hcall rfl rfl
  | recvFails hcall _ _ => exact (h.congr (hsame _ rfl)).setCall hcall rfl rfl
  | @publish id order _ _ results hcall _ _ _ hcall' =>
    have ho := (h.congr (hsame (.publish id order) rfl)).publishAll dex hflights
      hcall results order
    obtain ⟨-, call', hinFlight, -⟩ := hflights.publishAll dex hcall results order
    cases hcall'.symm.trans (inFlight_eq_some.mp hinFlight).1
    exact ho.setCall hinFlight rfl rfl

/-- No sender is gone, since nothing was evicted. -/
def NothingClosed (s : DexProvider α ι ρ π ε) : Prop := ∀ tx, (s.channels tx).closed = false

theorem NothingClosed.registerAll (h : NothingClosed s) (id : Nat) {pairInputs : List ι}
    (hlt : (registerAll dex s id pairInputs).pairCache.size < PAIR_CACHE_CAPACITY) :
    NothingClosed (registerAll dex s id pairInputs) := by
  refine registerAll_induct (M := fun _ s₁ => NothingClosed s₁) h
    fun done pairInput rest call₁ s₁ hsplit _ hopen hround => ?_
  cases hround with
  | known => exact hopen
  | subscribe => exact hopen
  | register _ habsent =>
    have hnone := registerAll_evictedFor hsplit hlt habsent
    intro tx
    have hchannels : ((DexProvider.registerAll dex s id done).register id call₁
        (dex.address pairInput) pairInput).channels =
        evict (Function.update (DexProvider.registerAll dex s id done).channels
          (DexProvider.registerAll dex s id done).nextChannel .new)
          ((DexProvider.registerAll dex s id done).evictedFor (dex.address pairInput)) := rfl
    rw [hchannels, hnone, evict]
    by_cases htx : tx = (DexProvider.registerAll dex s id done).nextChannel
    · rw [htx, Function.update_self]
      rfl
    · rw [Function.update_of_ne htx]
      exact hopen tx

theorem NothingClosed.setPair (h : NothingClosed s) (a : α) (pair : Option π) :
    NothingClosed (s.setPair a pair) := by
  unfold DexProvider.setPair
  split
  next => exact h
  next asyncValue _ =>
    intro tx
    by_cases htx : tx = asyncValue.tx
    · simp only [htx, Function.update_self]
      exact h asyncValue.tx
    · simp only [Function.update_of_ne htx]
      exact h tx

theorem NothingClosed.publishAll (h : NothingClosed s) (hcall : s.calls id = some call)
    (results : List ρ) (order : List α) : NothingClosed (publishAll dex s id results order) := by
  refine publishAll_induct (M := fun _ s₁ => NothingClosed s₁) hcall h
    fun done a rest call₁ s₁ _ _ hopen hround => ?_
  cases hround with
  | absent => exact hopen
  | publish => exact hopen.setPair a _

theorem NothingClosed.step {a : DexStep α ι ρ ε} (h : NothingClosed s)
    (hstep : step dex s a = some s') (hbelow : s'.belowCapacity) : NothingClosed s' := by
  cases stepped hstep with
  | getPairs => exact h.registerAll _ (of_decide_eq_true hbelow)
  | publish hcall => exact h.publishAll (inFlight_eq_some.mp hcall).1 _ _
  | _ => exact h

/-- Below the capacity of the cache a call waits only for calls that registered before it. -/
theorem waitsFor_acyclic (dex : DexPairInput α γ ι ρ π)
    (hrun : ((machine dex).restrict belowCapacity).run new steps = some s) :
    (∀ id id', WaitsFor s id id' → id' ∈ registrations steps ∧ id ∈ registrations steps ∧
      registrationIndex steps id' < registrationIndex steps id) ∧
    ∀ id, ¬Relation.TransGen (WaitsFor s) id id := by
  have hinv : Flights s ∧ Ordered steps s ∧ NothingClosed s := by
    refine Machine.run_history (P := fun _ _ _ => True)
      (I := fun steps s => Flights s ∧ Ordered steps s ∧ NothingClosed s)
      (fun before s a s' h hstep _ => ?_) (Machine.along_of_forall fun _ _ _ _ => trivial) hrun
      ⟨new_flights, new_ordered, fun _ => rfl⟩
    obtain ⟨hflights, hordered, hopen⟩ := h
    obtain ⟨hstep, hbelow⟩ := Machine.restrict_step_eq_some.mp hstep
    have hkeeps := keepsPending_of_belowCapacity hstep hbelow
    exact ⟨hflights.step hstep hkeeps, hordered.step hflights hstep hkeeps,
      hopen.step hstep hbelow⟩
  obtain ⟨hflights, hordered, hopen⟩ := hinv
  have hearlier : ∀ id id', WaitsFor s id id' → id' ∈ registrations steps ∧
      id ∈ registrations steps ∧ registrationIndex steps id' < registrationIndex steps id := by
    rintro id id' ⟨call, call', a, r, hcall, hcall', hm, ha⟩
    refine ⟨hordered.mem_registrations hcall', hordered.mem_registrations hcall, ?_⟩
    have hok := hflights.calls id call hcall
    have hr := hok.waiting a r hm
    obtain ⟨-, -, ⟨v, hv, htx⟩ | ⟨pair, hclosed⟩⟩ := hok.subscribed a r hr
    · exact hordered.earlier id id' call call' a r v hcall hcall' hr ha hv htx
    · have htx := hopen r.tx
      rw [hclosed] at htx
      cases htx
  refine ⟨hearlier, fun id hcycle => ?_⟩
  have hlt : ∀ {i j}, Relation.TransGen (WaitsFor s) i j →
      registrationIndex steps j < registrationIndex steps i := by
    intro i j hij
    induction hij with
    | single h => exact (hearlier _ _ h).2.2
    | tail _ h ih => exact Nat.lt_trans (hearlier _ _ h).2.2 ih
  exact Nat.lt_irrefl _ (hlt hcycle)

/-- Two calls for the same pair. -/
def overlappingCalls : List (DexStep Address PairInput MulticallResult Unit) :=
  [.getPairs 0 [.uniswapV2 ⟨1⟩], .getPairs 1 [.uniswapV2 ⟨1⟩]]

theorem waitsFor_acyclic_overlappingCalls :
    ∃ s, ((machine (uniswapPairInput ⟨fun _ => none, fun _ => none⟩)).restrict belowCapacity).run new
        overlappingCalls = some s ∧ WaitsFor s 1 0 ∧
      registrationIndex overlappingCalls 0 < registrationIndex overlappingCalls 1 ∧
      ¬Relation.TransGen (WaitsFor s) 1 1 := by
  obtain ⟨s, hrun, hwaits⟩ :
      ∃ s, ((machine (uniswapPairInput ⟨fun _ => none, fun _ => none⟩)).restrict belowCapacity).run
        new overlappingCalls = some s ∧ WaitsFor s 1 0 :=
    ⟨_, rfl, _, _, 1, ⟨0, 0⟩, rfl, rfl, by decide, by decide⟩
  obtain ⟨hearlier, hacyclic⟩ := waitsFor_acyclic _ hrun
  exact ⟨s, hrun, hwaits, (hearlier 1 0 hwaits).2.2, hacyclic 1⟩

end DexProvider

end Pochtecatl
