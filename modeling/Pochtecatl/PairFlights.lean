import Pochtecatl.DexProviderSteps

namespace Pochtecatl

namespace DexProvider

variable {α γ ι ρ π ε : Type} [DecidableEq α] {s s' : DexProvider α ι ρ π ε}
  {dex : DexPairInput α γ ι ρ π} {id : Nat} {call : GetPairs α ι ρ π ε}

/-- The entry that is evicted for a placeholder. -/
def evictedFor (s : DexProvider α ι ρ π ε) (a : α) : Option (α × AsyncValue (Option π)) :=
  (s.pairCache.put PAIR_CACHE_CAPACITY a (.new s.nextChannel)).2

/-- The round evicts an entry that has no value yet. -/
def EvictsPending (dex : DexPairInput α γ ι ρ π) (s : DexProvider α ι ρ π ε) (id : Nat)
    (pairInput : ι) : Prop :=
  ∃ call, s.calls id = some call ∧ ¬call.contains (dex.address pairInput) ∧
    s.pairCache.get? (dex.address pairInput) = none ∧
    ∃ a tx, s.evictedFor (dex.address pairInput) = some (a, ⟨none, tx⟩)

/-- No round of the step evicts an entry that has no value yet. -/
def KeepsPending (dex : DexPairInput α γ ι ρ π) (s : DexProvider α ι ρ π ε) :
    DexStep α ι ρ ε → DexProvider α ι ρ π ε → Prop
  | .getPairs id pairInputs, _ => ∀ done pairInput rest, pairInputs = done ++ pairInput :: rest →
      ¬EvictsPending dex (registerAll dex s id done) id pairInput
  | _, _ => True

/-- Every entry has an open channel of its own, to which its value was sent. -/
structure CacheOk (s : DexProvider α ι ρ π ε) : Prop where
  channel : ∀ a asyncValue, s.pairCache.get? a = some asyncValue →
    asyncValue.tx < s.nextChannel ∧ s.channels asyncValue.tx = ⟨asyncValue.value.toList, false⟩
  tx_inj : ∀ a a' asyncValue asyncValue', s.pairCache.get? a = some asyncValue →
    s.pairCache.get? a' = some asyncValue' → asyncValue.tx = asyncValue'.tx → a = a'

/-- The placeholders of a call are cached. What it awaits is cached too, or was evicted after
its value was sent. -/
structure CallOk (s : DexProvider α ι ρ π ε) (call : GetPairs α ι ρ π ε) : Prop where
  placeholder : ∀ a ∈ call.registered, ∃ tx, s.pairCache.get? a = some ⟨none, tx⟩
  subscribed : ∀ a r, (a, .receiver r) ∈ call.asyncValues → r.seen = 0 ∧ r.tx < s.nextChannel ∧
    ((∃ asyncValue, s.pairCache.get? a = some asyncValue ∧ asyncValue.tx = r.tx) ∨
      ∃ pair, s.channels r.tx = ⟨[pair], true⟩)
  waiting : ∀ a r, (a, r) ∈ call.waiting → (a, .receiver r) ∈ call.asyncValues

/-- What holds as long as no entry without a value is evicted. -/
structure Flights (s : DexProvider α ι ρ π ε) : Prop where
  cache : CacheOk s
  calls : ∀ id call, s.inFlight id = some call → CallOk s call
  unique : ∀ id id' call call' a, s.inFlight id = some call → s.inFlight id' = some call' →
    a ∈ call.registered → a ∈ call'.registered → id = id'

theorem new_cacheOk : CacheOk (new : DexProvider α ι ρ π ε) where
  channel := fun _ _ h => by cases h
  tx_inj := fun _ _ _ _ h => by cases h

theorem new_flights : Flights (new : DexProvider α ι ρ π ε) where
  cache := new_cacheOk
  calls := fun _ _ h => by cases h
  unique := fun _ _ _ _ _ h => by cases h

theorem new_callOk : CallOk s (.new : GetPairs α ι ρ π ε) where
  placeholder := fun _ h => by cases h
  subscribed := fun _ _ h => by cases h
  waiting := fun _ _ h => by cases h

omit [DecidableEq α] in
theorem inFlight_cases {call' : GetPairs α ι ρ π ε}
    (hcalls : s'.calls = Function.update s.calls id (some call')) {id' : Nat}
    {other : GetPairs α ι ρ π ε} (h : s'.inFlight id' = some other) :
    id' = id ∧ other = call' ∧ call'.result = none ∨ id' ≠ id ∧ s.inFlight id' = some other := by
  obtain ⟨hget, hresult⟩ := inFlight_eq_some.mp h
  rcases calls_cases hcalls hget with ⟨hid, rfl⟩ | ⟨hid, hget⟩
  · exact .inl ⟨hid, rfl, hresult⟩
  · exact .inr ⟨hid, inFlight_eq_some.mpr ⟨hget, hresult⟩⟩

/-- A call keeps what it holds while its placeholders stay, and entries that go had a value. -/
theorem CallOk.of_cache (h : CallOk s call)
    (hplaceholder : ∀ a ∈ call.registered, s'.pairCache.get? a = s.pairCache.get? a)
    (hkeeps : ∀ a asyncValue, s.pairCache.get? a = some asyncValue →
      (∃ asyncValue', s'.pairCache.get? a = some asyncValue' ∧ asyncValue'.tx = asyncValue.tx) ∨
        ∃ pair, s'.channels asyncValue.tx = ⟨[pair], true⟩)
    (hclosed : ∀ tx < s.nextChannel, ∀ pair, s.channels tx = ⟨[pair], true⟩ →
      s'.channels tx = ⟨[pair], true⟩)
    (hnext : s.nextChannel ≤ s'.nextChannel) : CallOk s' call := by
  refine ⟨fun a ha => ?_, fun a r hm => ?_, h.waiting⟩
  · rw [hplaceholder a ha]
    exact h.placeholder a ha
  · obtain ⟨hseen, hlt, hentry⟩ := h.subscribed a r hm
    refine ⟨hseen, Nat.lt_of_lt_of_le hlt hnext, ?_⟩
    rcases hentry with ⟨asyncValue, hget, htx⟩ | ⟨pair, hchannel⟩
    · rw [← htx]
      exact (hkeeps a asyncValue hget).imp_left fun ⟨v, hv, htx'⟩ => ⟨v, hv, htx'⟩
    · exact .inr ⟨pair, hclosed r.tx hlt pair hchannel⟩

/-- One call goes on, starts or returns. -/
theorem Flights.update {call' : GetPairs α ι ρ π ε} (h : Flights s)
    (hcalls : s'.calls = Function.update s.calls id (some call')) (hcache : CacheOk s')
    (hothers : ∀ id' other, id' ≠ id → s.inFlight id' = some other → CallOk s' other)
    (hown : call'.result = none → CallOk s' call')
    (hunique : ∀ a ∈ call'.registered, ∀ id' other, id' ≠ id → s.inFlight id' = some other →
      a ∉ other.registered) : Flights s' := by
  refine ⟨hcache, fun id' other hf => ?_, fun i j ci cj a hi hj ha ha' => ?_⟩
  · rcases inFlight_cases hcalls hf with ⟨-, rfl, hresult⟩ | ⟨hid, hf⟩
    · exact hown hresult
    · exact hothers id' other hid hf
  · rcases inFlight_cases hcalls hi with ⟨rfl, rfl, -⟩ | ⟨hid, hi⟩
    · rcases inFlight_cases hcalls hj with ⟨rfl, -, -⟩ | ⟨hjd, hj⟩
      · rfl
      · exact absurd ha' (hunique a ha j cj hjd hj)
    · rcases inFlight_cases hcalls hj with ⟨rfl, rfl, -⟩ | ⟨hjd, hj⟩
      · exact absurd ha (hunique a ha' i ci hid hi)
      · exact h.unique i j ci cj a hi hj ha ha'

theorem Flights.unregistered (h : Flights s) (hcall : s.inFlight id = some call) {a : α}
    (ha : a ∈ call.registered) :
    ∀ id' other, id' ≠ id → s.inFlight id' = some other → a ∉ other.registered :=
  fun id' other hne hother hm => hne (h.unique id' id other call a hother hcall hm ha)

/-- A call goes on or returns while the cache and the channels stay. -/
theorem Flights.setCall {call' : GetPairs α ι ρ π ε} (h : Flights s)
    (hcall : s.inFlight id = some call) (hregistered : call'.registered = call.registered)
    (hown : call'.result = none → CallOk s call') : Flights (s.setCall id call') := by
  refine h.update rfl ⟨h.cache.channel, h.cache.tx_inj⟩ (fun id' other _ hf => ?_)
    (fun hresult => ?_) fun a ha => h.unregistered hcall (hregistered ▸ ha)
  · have hok := h.calls id' other hf
    exact ⟨hok.placeholder, hok.subscribed, hok.waiting⟩
  · have hok := hown hresult
    exact ⟨hok.placeholder, hok.subscribed, hok.waiting⟩

/-! ### Registration -/

theorem Flights.start (h : Flights s) : Flights (s.setCall id .new) := by
  refine h.update rfl ⟨h.cache.channel, h.cache.tx_inj⟩ (fun id' other _ hf => ?_)
    (fun _ => new_callOk) fun a ha => by cases ha
  have hok := h.calls id' other hf
  exact ⟨hok.placeholder, hok.subscribed, hok.waiting⟩

theorem Flights.subscribe (h : Flights s) (hcall : s.inFlight id = some call) {a : α}
    {asyncValue : AsyncValue (Option π)} (hget : s.pairCache.get? a = some asyncValue) :
    Flights (s.subscribe id call a asyncValue) := by
  have htouch := LruCache.get?_touch s.pairCache a
  have hcache : CacheOk (s.subscribe id call a asyncValue) := by
    refine ⟨fun b v hb => h.cache.channel b v ?_, fun b b' v v' hb hb' => h.cache.tx_inj b b' v v' ?_ ?_⟩
    · exact (htouch b).symm.trans hb
    · exact (htouch b).symm.trans hb
    · exact (htouch b').symm.trans hb'
  have hkeeps : ∀ other, CallOk s other → CallOk (s.subscribe id call a asyncValue) other :=
    fun other hok => hok.of_cache (fun b _ => htouch b)
      (fun b v hb => .inl ⟨v, (htouch b).trans hb, rfl⟩) (fun _ _ _ hc => hc) (Nat.le_refl _)
  have hown := hkeeps call (h.calls id call hcall)
  refine h.update rfl hcache (fun id' other _ hf => hkeeps other (h.calls id' other hf)) (fun _ => ?_)
    fun b hb => h.unregistered hcall hb
  refine ⟨hown.placeholder, fun b r hm => ?_, fun b r hm =>
    List.mem_append_left _ (hown.waiting b r hm)⟩
  rcases List.mem_append.mp hm with hm | hm
  · exact hown.subscribed b r hm
  · obtain ⟨rfl, hr⟩ := Prod.mk.inj (List.mem_singleton.mp hm)
    unfold AsyncValue.getReceiverOrValue at hr
    split at hr
    next => cases hr
    next hnone =>
      cases hr
      obtain ⟨hlt, hchannel⟩ := h.cache.channel b asyncValue hget
      refine ⟨?_, hlt, .inl ⟨asyncValue, (htouch b).trans hget, rfl⟩⟩
      show (s.channels asyncValue.tx).sent.length = 0
      rw [hchannel, hnone]
      rfl

omit [DecidableEq α] in
theorem evict_of_ne {channels : Nat → Channel (Option π)}
    {evicted : Option (α × AsyncValue (Option π))} {tx : Nat}
    (h : ∀ e, evicted = some e → e.2.tx ≠ tx) : evict channels evicted tx = channels tx := by
  unfold evict
  split
  next a asyncValue => exact Function.update_of_ne (h (a, asyncValue) rfl).symm ..
  next => rfl

section Register

variable {a : α} {pairInput : ι} (habsent : s.pairCache.get? a = none)

include habsent

theorem register_get? (b : α) :
    (s.register id call a pairInput).pairCache.get? b =
      if b = a then some (.new s.nextChannel)
      else if (s.evictedFor a).map Prod.fst = some b then none else s.pairCache.get? b :=
  LruCache.get?_put habsent b

omit habsent in
theorem get?_of_evictedFor {e : α × AsyncValue (Option π)} (h : s.evictedFor a = some e) :
    s.pairCache.get? e.1 = some e.2 :=
  LruCache.get?_of_evicted h

/-- What is cached after a registration is the placeholder or was not evicted. -/
theorem CacheOk.register_cases (h : CacheOk s) {b : α} {asyncValue : AsyncValue (Option π)}
    (hb : (s.register id call a pairInput).pairCache.get? b = some asyncValue) :
    b = a ∧ asyncValue = .new s.nextChannel ∨
      s.pairCache.get? b = some asyncValue ∧ ∀ e, s.evictedFor a = some e → e.2.tx ≠ asyncValue.tx := by
  rw [register_get? habsent] at hb
  split at hb
  next heq => exact .inl ⟨heq, (Option.some.inj hb).symm⟩
  next hne =>
    split at hb
    next => cases hb
    next hkept =>
      refine .inr ⟨hb, fun e he htx => hkept ?_⟩
      rw [he, Option.map_some, h.tx_inj e.1 b e.2 asyncValue (get?_of_evictedFor he) hb htx]

omit habsent in
theorem register_channels {tx : Nat} (hlt : tx < s.nextChannel)
    (hne : ∀ e, s.evictedFor a = some e → e.2.tx ≠ tx) :
    (s.register id call a pairInput).channels tx = s.channels tx :=
  (evict_of_ne hne).trans (Function.update_of_ne (by omega) ..)

omit habsent in
theorem CacheOk.register_channels_new (h : CacheOk s) :
    (s.register id call a pairInput).channels s.nextChannel = .new := by
  refine (evict_of_ne fun e he htx => ?_).trans (Function.update_self ..)
  have hlt := (h.channel e.1 e.2 (get?_of_evictedFor he)).1
  omega

omit habsent in
theorem CacheOk.register_channels_evicted (h : CacheOk s) {e : α × AsyncValue (Option π)}
    (he : s.evictedFor a = some e) :
    (s.register id call a pairInput).channels e.2.tx = ⟨e.2.value.toList, true⟩ := by
  obtain ⟨hlt, hchannel⟩ := h.channel e.1 e.2 (get?_of_evictedFor he)
  have hevict : (s.register id call a pairInput).channels =
      evict (Function.update s.channels s.nextChannel .new) (s.evictedFor a) := rfl
  rw [hevict, he, evict, Function.update_self, Function.update_of_ne (by omega), hchannel]
  rfl

theorem CacheOk.register (h : CacheOk s) : CacheOk (s.register id call a pairInput) := by
  refine ⟨fun b v hb => ?_, fun b b' v v' hb hb' htx => ?_⟩
  · rcases h.register_cases habsent hb with ⟨-, rfl⟩ | ⟨hb, hne⟩
    · exact ⟨Nat.lt_succ_self _, h.register_channels_new⟩
    · obtain ⟨hlt, hchannel⟩ := h.channel b v hb
      exact ⟨Nat.lt_succ_of_lt hlt, (register_channels hlt hne).trans hchannel⟩
  · rcases h.register_cases habsent hb with ⟨rfl, rfl⟩ | ⟨hb, -⟩
    · rcases h.register_cases habsent hb' with ⟨rfl, -⟩ | ⟨hb', -⟩
      · rfl
      · have hlt := (h.channel b' v' hb').1
        rw [← htx] at hlt
        exact absurd hlt (Nat.lt_irrefl _)
    · rcases h.register_cases habsent hb' with ⟨-, rfl⟩ | ⟨hb', -⟩
      · have hlt := (h.channel b v hb).1
        rw [htx] at hlt
        exact absurd hlt (Nat.lt_irrefl _)
      · exact h.tx_inj b b' v v' hb hb' htx

/-- A registration that evicts no placeholder takes nothing from a call. -/
theorem CallOk.register {other : GetPairs α ι ρ π ε} (h : CallOk s other) (hcache : CacheOk s)
    (hvalue : ∀ e, s.evictedFor a = some e → e.2.value ≠ none) :
    CallOk (s.register id call a pairInput) other := by
  have hne : ∀ {b v}, s.pairCache.get? b = some v → b ≠ a := by
    rintro b v hb rfl
    rw [habsent] at hb
    cases hb
  refine h.of_cache (fun b hb => ?_) (fun b v hb => ?_) (fun tx hlt pair hc => ?_) (Nat.le_succ _)
  · obtain ⟨tx, hplaceholder⟩ := h.placeholder b hb
    rw [register_get? habsent, if_neg (hne hplaceholder), if_neg]
    intro hmap
    obtain ⟨e, he, rfl⟩ := Option.map_eq_some_iff.mp hmap
    have heq := (get?_of_evictedFor he).symm.trans hplaceholder
    exact hvalue e he (congrArg AsyncValue.value (Option.some.inj heq))
  · by_cases hmap : (s.evictedFor a).map Prod.fst = some b
    · obtain ⟨e, he, rfl⟩ := Option.map_eq_some_iff.mp hmap
      cases (get?_of_evictedFor he).symm.trans hb
      obtain ⟨pair, hpair⟩ := Option.ne_none_iff_exists'.mp (hvalue e he)
      refine .inr ⟨pair, ?_⟩
      rw [hcache.register_channels_evicted he, hpair]
      rfl
    · exact .inl ⟨v, by rw [register_get? habsent, if_neg (hne hb), if_neg hmap, hb], rfl⟩
  · refine (register_channels hlt fun e he htx => ?_).trans hc
    have hopen := (hcache.channel e.1 e.2 (get?_of_evictedFor he)).2
    rw [htx, hc] at hopen
    exact Bool.noConfusion (congrArg Channel.closed hopen)

theorem Flights.register (h : Flights s) (hcall : s.inFlight id = some call)
    (hvalue : ∀ e, s.evictedFor a = some e → e.2.value ≠ none) :
    Flights (s.register id call a pairInput) := by
  have hregistered : ∀ b, b ∈ ({ call with
      pairResults := call.pairResults ++ [(a, pairInput)] } : GetPairs α ι ρ π ε).registered →
        b ∈ call.registered ∨ b = a := fun b hb => by
    simpa [GetPairs.registered] using hb
  refine h.update rfl (h.cache.register habsent)
    (fun id' other _ hf => (h.calls id' other hf).register habsent h.cache hvalue) (fun _ => ?_)
    fun b hb id' other hne hf hm => ?_
  · have hok : CallOk (s.register id call a pairInput) call :=
      (h.calls id call hcall).register habsent h.cache hvalue
    refine ⟨fun b hb => ?_, hok.subscribed, hok.waiting⟩
    rcases hregistered b hb with hb | rfl
    · exact hok.placeholder b hb
    · exact ⟨s.nextChannel, (register_get? habsent b).trans (if_pos rfl)⟩
  · rcases hregistered b hb with hb | rfl
    · exact h.unregistered hcall hb id' other hne hf hm
    · obtain ⟨tx, hplaceholder⟩ := (h.calls id' other hf).placeholder b hm
      rw [habsent] at hplaceholder
      cases hplaceholder

end Register

theorem registerAll_inFlight {pairInputs : List ι}
    (hcall : (registerAll dex s id pairInputs).calls id = some call) :
    (registerAll dex s id pairInputs).inFlight id = some call := by
  refine inFlight_eq_some.mpr ⟨hcall, ?_⟩
  rw [registerAll_call hcall]
  rfl

theorem Flights.registerRound {pairInput : ι} (h : Flights s) (hcall : s.inFlight id = some call)
    (hkeeps : ¬EvictsPending dex s id pairInput)
    (hround : RegisterRound dex s id call pairInput s') : Flights s' := by
  cases hround with
  | known => exact h
  | subscribe _ hget => exact h.subscribe hcall hget
  | register hcontains habsent =>
    refine h.register habsent hcall fun e he hnone => ?_
    obtain ⟨b, value, tx⟩ := e
    cases hnone
    exact hkeeps ⟨call, (inFlight_eq_some.mp hcall).1, hcontains, habsent, b, tx, he⟩

theorem Flights.registerAll (h : Flights s) {pairInputs : List ι}
    (hkeeps : KeepsPending dex s (.getPairs id pairInputs : DexStep α ι ρ ε) s') :
    Flights (registerAll dex s id pairInputs) :=
  registerAll_induct (M := fun _ s => Flights s) h.start
    fun done pairInput rest _ _ hsplit hcall hflights hround =>
      hflights.registerRound (registerAll_inFlight hcall) (hkeeps done pairInput rest hsplit) hround

omit [DecidableEq α] in
theorem mem_waiting_resolveMap {a : α} {r : Receiver} (hm : (a, r) ∈ call.resolveMap.waiting) :
    (a, .receiver r) ∈ call.asyncValues := by
  obtain ⟨⟨a', v⟩, hmem, heq⟩ := List.mem_filterMap.mp hm
  cases v with
  | receiver r' =>
    cases Option.some.inj heq
    exact hmem
  | value v => cases heq

theorem CallOk.awaiting (h : CallOk s call) : CallOk s (awaiting dex call) :=
  ⟨h.placeholder, h.subscribed, fun _ _ hm => mem_waiting_resolveMap hm⟩

/-! ### Publication -/

section SetPair

variable {a : α} {tx : Nat} (hget : s.pairCache.get? a = some ⟨none, tx⟩) (pair : Option π)

include hget

theorem setPair_get? (b : α) : (s.setPair a pair).pairCache.get? b =
    if b = a then some ⟨some pair, tx⟩ else s.pairCache.get? b := by
  simp only [setPair, hget, LruCache.get?_modify]
  rfl

theorem setPair_channels : (s.setPair a pair).channels =
    Function.update s.channels tx ((s.channels tx).send pair) := by
  simp only [setPair, hget]

theorem setPair_nextChannel : (s.setPair a pair).nextChannel = s.nextChannel := by
  simp only [setPair, hget]

theorem CacheOk.setPair_channels_of_ne (h : CacheOk s) {b : α} {asyncValue : AsyncValue (Option π)}
    (hb : s.pairCache.get? b = some asyncValue) (hne : b ≠ a) :
    (s.setPair a pair).channels asyncValue.tx = s.channels asyncValue.tx := by
  rw [setPair_channels hget]
  exact Function.update_of_ne (fun htx => hne (h.tx_inj b a _ _ hb hget htx)) ..

theorem CacheOk.setPair (h : CacheOk s) : CacheOk (s.setPair a pair) := by
  have hcases : ∀ b v, (s.setPair a pair).pairCache.get? b = some v →
      b = a ∧ v = ⟨some pair, tx⟩ ∨ b ≠ a ∧ s.pairCache.get? b = some v := by
    intro b v hb
    rw [setPair_get? hget] at hb
    split at hb
    next heq => exact .inl ⟨heq, (Option.some.inj hb).symm⟩
    next hne => exact .inr ⟨hne, hb⟩
  obtain ⟨hlt, hchannel⟩ := h.channel a _ hget
  refine ⟨fun b v hb => ?_, fun b b' v v' hb hb' htx => ?_⟩
  · rw [setPair_nextChannel hget]
    rcases hcases b v hb with ⟨-, rfl⟩ | ⟨hne, hb⟩
    · refine ⟨hlt, ?_⟩
      rw [setPair_channels hget, Function.update_self, hchannel]
      rfl
    · rw [h.setPair_channels_of_ne hget pair hb hne]
      exact h.channel b v hb
  · rcases hcases b v hb with ⟨rfl, rfl⟩ | ⟨-, hold⟩
    · rcases hcases b' v' hb' with ⟨rfl, -⟩ | ⟨-, hold'⟩
      · rfl
      · exact h.tx_inj b b' _ v' hget hold' htx
    · rcases hcases b' v' hb' with ⟨rfl, rfl⟩ | ⟨-, hold'⟩
      · exact h.tx_inj b b' v _ hold hget htx
      · exact h.tx_inj b b' v v' hold hold' htx

theorem CallOk.setPair {other : GetPairs α ι ρ π ε} (h : CallOk s other) (hcache : CacheOk s)
    (hother : a ∉ other.registered) : CallOk (s.setPair a pair) other := by
  refine h.of_cache (fun b hb => ?_) (fun b v hb => ?_) (fun tx' _ p hc => ?_)
    (Nat.le_of_eq (setPair_nextChannel hget pair).symm)
  · have hne : b ≠ a := fun heq => hother (heq ▸ hb)
    rw [setPair_get? hget, if_neg hne]
  · rw [setPair_get? hget]
    by_cases heq : b = a
    · subst heq
      cases hget.symm.trans hb
      exact .inl ⟨_, if_pos rfl, rfl⟩
    · exact .inl ⟨v, (if_neg heq).trans hb, rfl⟩
  · have hopen := (hcache.channel a _ hget).2
    rw [setPair_channels hget, Function.update_of_ne, hc]
    rintro rfl
    rw [hc] at hopen
    exact Bool.noConfusion (congrArg Channel.closed hopen)

end SetPair

theorem mem_registered_published {a b : α} {pair : Option π} :
    b ∈ (published call a pair).registered ↔ b ∈ call.registered ∧ b ≠ a := by
  simp only [published, GetPairs.registered, List.mem_map, List.mem_filter, decide_eq_true_eq]
  constructor
  · rintro ⟨e, ⟨he, hne⟩, rfl⟩
    exact ⟨⟨e, he, rfl⟩, hne⟩
  · rintro ⟨⟨e, he, rfl⟩, hne⟩
    exact ⟨e, ⟨he, hne⟩, rfl⟩

theorem Flights.publishRound (h : Flights s) (hcall : s.inFlight id = some call)
    {results : List ρ} {a : α} (hround : PublishRound dex s id call results a s') :
    Flights s' := by
  cases hround with
  | absent => exact h
  | @publish pairInput pair hmem _ =>
    have ha : a ∈ call.registered := List.mem_map_of_mem hmem
    have hok := h.calls id call hcall
    obtain ⟨tx, hget⟩ := hok.placeholder a ha
    have hcalls : ((s.setPair a pair).setCall id (published call a pair)).calls =
        Function.update s.calls id (some (published call a pair)) := by
      rw [DexProvider.setCall, setPair_calls]
    have hcache := h.cache.setPair hget pair
    refine h.update hcalls ⟨hcache.channel, hcache.tx_inj⟩ (fun id' other hne hf => ?_) (fun _ => ?_)
      fun b hb id' other hne hf => h.unregistered hcall (mem_registered_published.mp hb).1 id' other hne hf
    · have hother := (h.calls id' other hf).setPair hget pair h.cache
        (h.unregistered hcall ha id' other hne hf)
      exact ⟨hother.placeholder, hother.subscribed, hother.waiting⟩
    · have hpublished : CallOk s (published call a pair) :=
        ⟨fun b hb => hok.placeholder b (mem_registered_published.mp hb).1, hok.subscribed, hok.waiting⟩
      have hown := hpublished.setPair hget pair h.cache
        fun ha => (mem_registered_published.mp ha).2 rfl
      exact ⟨hown.placeholder, hown.subscribed, hown.waiting⟩

theorem PublishRound.inFlight {results : List ρ} {a : α}
    (h : PublishRound dex s id call results a s') (hcall : s.inFlight id = some call) :
    ∃ call', s'.inFlight id = some call' ∧ ∀ b ∈ call'.registered, b ∈ call.registered ∧ b ≠ a := by
  cases h with
  | absent hnot => exact ⟨call, hcall, fun b hb => ⟨hb, fun heq => hnot (heq ▸ hb)⟩⟩
  | publish =>
    refine ⟨_, inFlight_eq_some.mpr ⟨Function.update_self .., ?_⟩,
      fun b hb => mem_registered_published.mp hb⟩
    exact (inFlight_eq_some.mp hcall).2

theorem Flights.publishAll (dex : DexPairInput α γ ι ρ π) (h : Flights s)
    (hcall : s.inFlight id = some call) (results : List ρ)
    (order : List α) :
    Flights (publishAll dex s id results order) ∧
      ∃ call', (DexProvider.publishAll dex s id results order).inFlight id = some call' ∧
        ∀ a ∈ call'.registered, a ∈ call.registered ∧ a ∉ order := by
  refine publishAll_induct (M := fun done s₁ => Flights s₁ ∧ ∃ call', s₁.inFlight id = some call' ∧
    ∀ a ∈ call'.registered, a ∈ call.registered ∧ a ∉ done) (inFlight_eq_some.mp hcall).1
    ⟨h, call, hcall, fun a ha => ⟨ha, List.not_mem_nil⟩⟩
    fun done a rest call₁ s₁ _ hcall₁ ⟨hflights, call₂, hcall₂, hleft⟩ hround => ?_
  cases hcall₁.symm.trans (inFlight_eq_some.mp hcall₂).1
  obtain ⟨call₃, hcall₃, hleft₃⟩ := hround.inFlight hcall₂
  refine ⟨hflights.publishRound hcall₂ hround, call₃, hcall₃, fun b hb => ?_⟩
  obtain ⟨hb, hne⟩ := hleft₃ b hb
  obtain ⟨hb, hnot⟩ := hleft b hb
  refine ⟨hb, fun hm => (List.mem_append.mp hm).elim hnot fun hm => ?_⟩
  exact hne (List.mem_singleton.mp hm)

/-! ### Steps -/

theorem Flights.step {a : DexStep α ι ρ ε} (h : Flights s) (hstep : step dex s a = some s')
    (hkeeps : KeepsPending dex s a s') : Flights s' := by
  cases stepped hstep with
  | getPairs hid hcall =>
    have hflights := h.registerAll hkeeps
    have hinFlight := registerAll_inFlight hcall
    exact hflights.setCall hinFlight rfl fun _ => (hflights.calls _ _ hinFlight).awaiting
  | multicall hcall _ =>
    refine h.setCall hcall rfl fun _ => ?_
    exact { h.calls _ _ hcall with }
  | multicallFails hcall _ _ => exact h.setCall hcall rfl fun hresult => by cases hresult
  | recv hcall _ _ =>
    have hok := h.calls _ _ hcall
    exact h.setCall hcall rfl fun _ =>
      { hok with waiting := fun b r hm => hok.waiting b r (List.mem_of_mem_filter hm) }
  | recvFails hcall _ _ => exact h.setCall hcall rfl fun hresult => by cases hresult
  | @publish id order _ _ results hcall _ _ _ hcall' =>
    obtain ⟨hflights, call', hinFlight, -⟩ := h.publishAll dex hcall results order
    cases hcall'.symm.trans (inFlight_eq_some.mp hinFlight).1
    exact hflights.setCall hinFlight rfl fun hresult => by cases hresult

/-- Nobody waits in vain for a sender, or misses a value. -/
theorem Flights.recv_ne_error (h : Flights s) (hcall : s.inFlight id = some call) {a : α}
    {r : Receiver} (hm : (a, r) ∈ call.waiting) : (s.channels r.tx).recv r ≠ .error := by
  have hok := h.calls id call hcall
  obtain ⟨hseen, -, hentry⟩ := hok.subscribed a r (hok.waiting a r hm)
  rcases hentry with ⟨asyncValue, hget, htx⟩ | ⟨pair, hchannel⟩
  · rw [← htx, (h.cache.channel a asyncValue hget).2, Channel.recv, hseen]
    cases asyncValue.value <;> simp
  · rw [hchannel, Channel.recv, hseen]
    simp

/-! ### Capacity -/

def belowCapacity (s : DexProvider α ι ρ π ε) : Bool := s.pairCache.size < PAIR_CACHE_CAPACITY

theorem size_le_registerOne (dex : DexPairInput α γ ι ρ π) (pairInput : ι) :
    s.pairCache.size ≤ (registerOne dex id s pairInput).pairCache.size := by
  unfold registerOne
  split
  next => exact Nat.le_refl _
  next =>
    split
    next => exact Nat.le_refl _
    next =>
      split
      next => exact Nat.le_of_eq (LruCache.size_touch ..).symm
      next hget => exact LruCache.size_le_put hget

theorem size_le_foldl_registerOne (dex : DexPairInput α γ ι ρ π) (pairInputs : List ι) :
    s.pairCache.size ≤ (pairInputs.foldl (registerOne dex id) s).pairCache.size := by
  induction pairInputs generalizing s with
  | nil => exact Nat.le_refl _
  | cons pairInput pairInputs ih => exact Nat.le_trans (size_le_registerOne dex pairInput) ih

theorem evictedFor_eq_none {a : α} (habsent : s.pairCache.get? a = none)
    (hlt : s.pairCache.size < PAIR_CACHE_CAPACITY) : s.evictedFor a = none := by
  rw [evictedFor, LruCache.put_of_lt habsent hlt]

/-- Below the capacity of the cache nothing is evicted. -/
theorem registerAll_evictedFor {pairInputs done rest : List ι}
    (hsplit : pairInputs = done ++ rest)
    (hlt : (registerAll dex s id pairInputs).pairCache.size < PAIR_CACHE_CAPACITY) {a : α}
    (habsent : (registerAll dex s id done).pairCache.get? a = none) :
    (registerAll dex s id done).evictedFor a = none := by
  refine evictedFor_eq_none habsent (Nat.lt_of_le_of_lt ?_ hlt)
  rw [hsplit, registerAll, registerAll, List.foldl_append]
  exact size_le_foldl_registerOne dex rest

theorem keepsPending_of_belowCapacity {a : DexStep α ι ρ ε} (hstep : step dex s a = some s')
    (hbelow : s'.belowCapacity) : KeepsPending dex s a s' := by
  cases stepped hstep with
  | getPairs hid hcall =>
    intro done pairInput rest hsplit hevicts
    obtain ⟨-, -, -, habsent, b, tx, he⟩ := hevicts
    rw [registerAll_evictedFor hsplit (of_decide_eq_true hbelow) habsent] at he
    cases he
  | _ => trivial

end DexProvider

end Pochtecatl
