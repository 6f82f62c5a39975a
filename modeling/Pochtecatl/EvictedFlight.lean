import Pochtecatl.SingleFlight

namespace Pochtecatl

namespace DexProvider

section Overflow

variable {α γ ι ρ π ε : Type} [DecidableEq α] {s : DexProvider α ι ρ π ε}
  {dex : DexPairInput α γ ι ρ π} {id : Nat} {a : α} {tx : Nat}

/-- The cache after a call registered addresses, in front of the only entry that was cached. -/
structure Overflowing (dex : DexPairInput α γ ι ρ π) (id : Nat) (a : α) (tx : Nat) (done : List ι)
    (s : DexProvider α ι ρ π ε) : Prop where
  entries : ∃ news, s.pairCache.entries = news ++ [(a, ⟨none, tx⟩)] ∧
    news.map Prod.fst = (done.map dex.address).reverse
  call : ∃ call, s.calls id = some call ∧ call.asyncValues = [] ∧
    call.registered = done.map dex.address
  channel : s.channels tx = ⟨[], false⟩
  next : tx < s.nextChannel

theorem Overflowing.absent {done : List ι} (h : Overflowing dex id a tx done s) {b : α}
    (hnew : b ∉ done.map dex.address) (hne : b ≠ a) : s.pairCache.get? b = none := by
  obtain ⟨news, hentries, hkeys⟩ := h.entries
  rw [LruCache.get?_eq_none_iff, hentries, List.map_append, List.mem_append, hkeys,
    List.mem_reverse, not_or]
  exact ⟨hnew, by simpa using hne⟩

omit [DecidableEq α] in
theorem Overflowing.size {done : List ι} (h : Overflowing dex id a tx done s) :
    s.pairCache.size = done.length + 1 := by
  obtain ⟨news, hentries, hkeys⟩ := h.entries
  have hlength := congrArg List.length hkeys
  rw [List.length_map, List.length_reverse, List.length_map] at hlength
  rw [LruCache.size, hentries, List.length_append, hlength]
  rfl

/-- The round of an address that is new registers it. -/
theorem Overflowing.round {done : List ι} (h : Overflowing dex id a tx done s) {pairInput : ι}
    (hnew : dex.address pairInput ∉ done.map dex.address) (hne : dex.address pairInput ≠ a)
    {call : GetPairs α ι ρ π ε} (hcall : s.calls id = some call) {s' : DexProvider α ι ρ π ε}
    (hround : RegisterRound dex s id call pairInput s') :
    s' = s.register id call (dex.address pairInput) pairInput := by
  obtain ⟨call', hcall', hasync, hregistered⟩ := h.call
  cases hcall.symm.trans hcall'
  have habsent := h.absent hnew hne
  cases hround with
  | known hknown =>
    rw [GetPairs.contains, hasync, hregistered] at hknown
    simp only [List.map_nil, List.not_mem_nil, false_or, decide_eq_true_eq] at hknown
    exact absurd hknown hnew
  | subscribe _ hget =>
    rw [habsent] at hget
    cases hget
  | register => rfl

theorem Overflowing.register {done : List ι} (h : Overflowing dex id a tx done s) {pairInput : ι}
    (hnew : dex.address pairInput ∉ done.map dex.address) (hne : dex.address pairInput ≠ a)
    (hlt : done.length + 1 < PAIR_CACHE_CAPACITY) {call : GetPairs α ι ρ π ε}
    (hcall : s.calls id = some call) :
    Overflowing dex id a tx (done ++ [pairInput])
      (s.register id call (dex.address pairInput) pairInput) := by
  have habsent := h.absent hnew hne
  have hsize : s.pairCache.size < PAIR_CACHE_CAPACITY := by rwa [h.size]
  obtain ⟨news, hentries, hkeys⟩ := h.entries
  obtain ⟨call', hcall', hasync, hregistered⟩ := h.call
  cases hcall.symm.trans hcall'
  have hput : s.pairCache.put PAIR_CACHE_CAPACITY (dex.address pairInput) (.new s.nextChannel) =
      (s.pairCache.insertFront (dex.address pairInput) (.new s.nextChannel), none) :=
    LruCache.put_of_lt habsent hsize
  refine ⟨⟨(dex.address pairInput, .new s.nextChannel) :: news, ?_, ?_⟩,
    ⟨_, Function.update_self .., hasync, ?_⟩, ?_, Nat.lt_succ_of_lt h.next⟩
  · simp only [DexProvider.register, hput, LruCache.insertFront, LruCache.erase_of_absent habsent,
      hentries, List.cons_append]
  · simp [hkeys]
  · simp [GetPairs.registered, ← hregistered]
  · simp only [DexProvider.register, hput, evict]
    rw [Function.update_of_ne (Nat.ne_of_lt h.next)]
    exact h.channel

/-- The address that exceeds the capacity takes the place of the entry, and its sender is gone. -/
theorem Overflowing.evict {done : List ι} (h : Overflowing dex id a tx done s) {pairInput : ι}
    (hnew : dex.address pairInput ∉ done.map dex.address) (hne : dex.address pairInput ≠ a)
    (hfull : done.length + 1 = PAIR_CACHE_CAPACITY) (call : GetPairs α ι ρ π ε) :
    (s.register id call (dex.address pairInput) pairInput).channels tx = ⟨[], true⟩ := by
  have habsent := h.absent hnew hne
  have hsize : ¬s.pairCache.size < PAIR_CACHE_CAPACITY := by
    rw [h.size, hfull]
    exact Nat.lt_irrefl _
  obtain ⟨news, hentries, -⟩ := h.entries
  have hevicted : s.evictedFor (dex.address pairInput) = some (a, ⟨none, tx⟩) := by
    rw [evictedFor, LruCache.put, LruCache.erase_of_absent habsent, if_neg hsize, hentries]
    simp
  have hchannels : (s.register id call (dex.address pairInput) pairInput).channels =
      DexProvider.evict (Function.update s.channels s.nextChannel .new)
        (s.evictedFor (dex.address pairInput)) := rfl
  rw [hchannels, hevicted, DexProvider.evict, Function.update_self,
    Function.update_of_ne (Nat.ne_of_lt h.next), h.channel]
  rfl

/-- A call for as many new addresses as the cache holds evicts the only entry there was. -/
theorem registerAll_evicts {pairInputs : List ι} (hentries : s.pairCache.entries = [(a, ⟨none, tx⟩)])
    (hchannel : s.channels tx = ⟨[], false⟩) (hnext : tx < s.nextChannel)
    (hnodup : (pairInputs.map dex.address).Nodup) (hnew : a ∉ pairInputs.map dex.address)
    (hlength : pairInputs.length = PAIR_CACHE_CAPACITY) :
    (registerAll dex s id pairInputs).channels tx = ⟨[], true⟩ := by
  have hfresh : ∀ done pairInput rest, pairInputs = done ++ pairInput :: rest →
      dex.address pairInput ∉ done.map dex.address ∧ dex.address pairInput ≠ a := by
    rintro done pairInput rest rfl
    rw [List.map_append, List.map_cons, List.nodup_append] at hnodup
    refine ⟨fun hm => hnodup.2.2 _ hm _ List.mem_cons_self rfl, fun heq => hnew ?_⟩
    rw [← heq]
    simp
  have hloop : ∀ done rest, pairInputs = done ++ rest → rest ≠ [] →
      Overflowing dex id a tx done (registerAll dex s id done) := by
    intro done
    induction done using List.reverseRecOn with
    | nil =>
      intro _ _ _
      exact ⟨⟨[], hentries, rfl⟩, ⟨.new, Function.update_self .., rfl, rfl⟩, hchannel, hnext⟩
    | append_singleton done pairInput ih =>
      intro rest hrest hne
      have hsplit : pairInputs = done ++ pairInput :: rest := by rw [hrest]; simp
      obtain ⟨hnotMem, hnotA⟩ := hfresh done pairInput rest hsplit
      have hdone := ih (pairInput :: rest) hsplit (List.cons_ne_nil _ _)
      obtain ⟨call, hcall, -⟩ := hdone.call
      rw [registerAll_concat,
        hdone.round hnotMem hnotA hcall (registerOne_round dex hcall pairInput)]
      refine hdone.register hnotMem hnotA ?_ hcall
      have hrest' := List.length_pos_iff.mpr hne
      rw [hsplit, List.length_append, List.length_cons] at hlength
      omega
  obtain ⟨init, last, hsplit⟩ : ∃ init last, pairInputs = init ++ [last] := by
    rcases List.eq_nil_or_concat pairInputs with hnil | ⟨init, last, hlast⟩
    · rw [hnil] at hlength
      cases hlength
    · exact ⟨init, last, by rw [hlast, List.concat_eq_append]⟩
  obtain ⟨hnotMem, hnotA⟩ := hfresh init last [] hsplit
  have hinit := hloop init [last] hsplit (List.cons_ne_nil _ _)
  obtain ⟨call, hcall, -⟩ := hinit.call
  rw [hsplit, List.length_append, List.length_singleton] at hlength
  rw [hsplit, registerAll_concat,
    hinit.round hnotMem hnotA hcall (registerOne_round dex hcall last)]
  exact hinit.evict hnotMem hnotA hlength call

end Overflow

/-- The second call waits for the first one while the third fills the cache. -/
def evictedFlight (others : List PairInput) : List (DexStep Address PairInput MulticallResult Unit) :=
  [.getPairs 0 [.uniswapV2 ⟨1⟩], .getPairs 1 [.uniswapV2 ⟨1⟩], .getPairs 2 others, .recv 1 1]

theorem evictedFlight_run {others : List PairInput}
    (hnodup : (others.map (uniswapPairInput wethAbi).address).Nodup)
    (hnew : (1 : Address) ∉ others.map (uniswapPairInput wethAbi).address)
    (hlength : others.length = PAIR_CACHE_CAPACITY) :
    ∃ s call, (machine (uniswapPairInput wethAbi)).run new (evictedFlight others) = some s ∧
      s.calls 1 = some call ∧ call.result = some (.error .resolveMap) := by
  obtain ⟨s, hrun, hentries, hchannel, hnext, ⟨call, hcall, hwaiting, hresult⟩, hnone⟩ :
      ∃ s, (machine (ε := Unit) (uniswapPairInput wethAbi)).run new
        [.getPairs 0 [.uniswapV2 ⟨1⟩], .getPairs 1 [.uniswapV2 ⟨1⟩]] = some s ∧
      s.pairCache.entries = [(1, ⟨none, 0⟩)] ∧ s.channels 0 = ⟨[], false⟩ ∧ s.nextChannel = 1 ∧
      (∃ call, s.calls 1 = some call ∧ call.waiting = [(1, ⟨0, 0⟩)] ∧ call.result = none) ∧
      s.calls 2 = none := ⟨_, rfl, rfl, rfl, rfl, ⟨_, rfl, rfl, rfl⟩, rfl⟩
  obtain ⟨s', hstep⟩ : ∃ s', step (uniswapPairInput wethAbi) s (.getPairs 2 others) = some s' := by
    simp only [step, hnone, Option.isNone_none, if_true]
    exact ⟨_, rfl⟩
  obtain ⟨hchannel', hcall'⟩ : s'.channels 0 = ⟨[], true⟩ ∧ s'.calls 1 = some call := by
    cases stepped hstep with
    | getPairs _ _ =>
      refine ⟨registerAll_evicts hentries hchannel (by rw [hnext]; decide) hnodup hnew hlength, ?_⟩
      rw [setCall_registerAll_calls, Function.update_of_ne (by decide)]
      exact hcall
  have hfails : step (uniswapPairInput wethAbi) s' (.recv 1 1) =
      some (s'.setCall 1 { call with result := some (.error .resolveMap) }) := by
    have hinFlight : s'.inFlight 1 = some call := inFlight_eq_some.mpr ⟨hcall', hresult⟩
    have hfind : call.waiting.find? (fun e => e.1 = 1) = some (1, ⟨0, 0⟩) := by
      rw [hwaiting]
      rfl
    simp only [step, hinFlight, Option.bind_some, recv, hfind, hchannel', Channel.recv]
    rfl
  have hall : (machine (uniswapPairInput wethAbi)).run new (evictedFlight others) =
      some (s'.setCall 1 { call with result := some (.error .resolveMap) }) := by
    have hsplit : evictedFlight others =
        [.getPairs 0 [.uniswapV2 ⟨1⟩], .getPairs 1 [.uniswapV2 ⟨1⟩]] ++
          [.getPairs 2 others, .recv 1 1] := rfl
    rw [hsplit]
    refine Machine.run_append_eq_some.mpr ⟨s, hrun, ?_⟩
    exact Machine.run_cons_eq_some.mpr ⟨s', hstep,
      Machine.run_cons_eq_some.mpr ⟨_, hfails, Machine.run_nil _⟩⟩
  have hself : (s'.setCall 1 { call with result := some (.error .resolveMap) }).calls 1 =
      some { call with result := some (.error .resolveMap) } := by
    simp only [setCall]
    rw [Function.update_self]
  exact ⟨_, _, hall, hself, rfl⟩

/-- As many other pairs as the cache holds. -/
def otherInputs : List PairInput :=
  (List.range PAIR_CACHE_CAPACITY).map fun i => .uniswapV2 ⟨Fin.ofNat _ (i + 2)⟩

theorem otherInputs_address :
    otherInputs.map (uniswapPairInput wethAbi).address =
      (List.range PAIR_CACHE_CAPACITY).map fun i => (Fin.ofNat _ (i + 2) : Address) := by
  rw [otherInputs, List.map_map]
  rfl

theorem otherInputs_val {i : Nat} (h : i ∈ List.range PAIR_CACHE_CAPACITY) :
    (Fin.ofNat (2 ^ 160) (i + 2)).val = i + 2 := by
  have hlt : i < PAIR_CACHE_CAPACITY := List.mem_range.mp h
  rw [PAIR_CACHE_CAPACITY] at hlt
  exact Nat.mod_eq_of_lt (by omega)

theorem otherInputs_nodup : (otherInputs.map (uniswapPairInput wethAbi).address).Nodup := by
  rw [otherInputs_address]
  refine List.Nodup.map_on (fun i hi j hj heq => ?_) List.nodup_range
  have hval := congrArg Fin.val heq
  rw [otherInputs_val hi, otherInputs_val hj] at hval
  omega

theorem otherInputs_new : (1 : Address) ∉ otherInputs.map (uniswapPairInput wethAbi).address := by
  rw [otherInputs_address]
  intro hm
  obtain ⟨i, hi, heq⟩ := List.mem_map.mp hm
  have hval := congrArg Fin.val heq
  rw [otherInputs_val hi, show (1 : Address).val = 1 from rfl] at hval
  omega

/-- A call for a pair whose entry is evicted while it is fetched fails. -/
theorem getPairs_not_singleFlight :
    ¬∀ (abi : PairAbi) (answer : Call3 → MulticallResult) (metadata : Address → Option Pair)
      (steps : List (DexStep Address PairInput MulticallResult Unit))
      (s : DexProvider Address PairInput MulticallResult Pair Unit),
      (machine (uniswapPairInput abi)).run new steps = some s →
      (machine (uniswapPairInput abi)).Along (Assumed (uniswapPairInput abi) answer metadata) new
        steps →
      ∀ id call result, s.calls id = some call → call.result = some result →
        ∃ pairs, result = .ok pairs := by
  intro h
  obtain ⟨s, call, hrun, hcall, hresult⟩ := evictedFlight_run otherInputs_nodup otherInputs_new
    (by rw [otherInputs, List.length_map, List.length_range])
  have hassumed : (machine (uniswapPairInput wethAbi)).Along
      (Assumed (uniswapPairInput wethAbi) wethAnswer wethMetadata) new
        (evictedFlight otherInputs) := by
    refine Machine.along_of_forall fun a ha _ _ => ?_
    simp only [evictedFlight, List.mem_cons, List.not_mem_nil, or_false] at ha
    rcases ha with rfl | rfl | rfl | rfl
    · intro pairInput hm
      rw [List.mem_singleton.mp hm]
      rfl
    · intro pairInput hm
      rw [List.mem_singleton.mp hm]
      rfl
    · intro pairInput hm
      obtain ⟨i, -, rfl⟩ := List.mem_map.mp hm
      rfl
    · trivial
  obtain ⟨pairs, hpairs⟩ := h wethAbi wethAnswer wethMetadata _ s hrun hassumed 1 call _ hcall hresult
  cases hpairs

end DexProvider

end Pochtecatl
