import Pochtecatl.FetchedPairs
import Pochtecatl.PairFlights

namespace Pochtecatl

/-- The step starts a call. -/
def DexStep.isGetPairs {α ι ρ ε : Type} : DexStep α ι ρ ε → Bool
  | .getPairs _ _ => true
  | _ => false

namespace DexProvider

variable {α γ ι ρ π ε : Type} [DecidableEq α] {s s' : DexProvider α ι ρ π ε}
  {dex : DexPairInput α γ ι ρ π} {id : Nat} {call : GetPairs α ι ρ π ε}

/-- The answers to the calls of a pair input. -/
def answers (dex : DexPairInput α γ ι ρ π) (answer : γ → ρ) (pairInput : ι) : List ρ :=
  (dex.calls pairInput).map answer

/-- What the answers to a pair input decode to. -/
def decoded (dex : DexPairInput α γ ι ρ π) (answer : γ → ρ) (pairInput : ι) : Option π :=
  dex.decode pairInput (answers dex answer pairInput)

/-- The requests for one address decode to its pair, and a multicall returns the answers to
its calls. -/
def Assumed (dex : DexPairInput α γ ι ρ π) (answer : γ → ρ) (metadata : α → Option π)
    (s : DexProvider α ι ρ π ε) : DexStep α ι ρ ε → DexProvider α ι ρ π ε → Prop
  | .getPairs _ pairInputs, _ =>
    ∀ pairInput ∈ pairInputs, decoded dex answer pairInput = metadata (dex.address pairInput)
  | .multicall id result, _ => ∃ call, s.inFlight id = some call ∧
      result = .ok (call.pairResults.flatMap fun e => answers dex answer e.2)
  | _, _ => True

/-! ### The results of a multicall -/

theorem resultsOf_append {targets targets' : List α} {results results' : List ρ}
    (h : results.length = targets.length) (a : α) :
    resultsOf (targets ++ targets') (results ++ results') a =
      resultsOf targets results a ++ resultsOf targets' results' a := by
  rw [resultsOf, List.zip_append h, List.filterMap_append, resultsOf, resultsOf]

theorem resultsOf_of_forall_ne {targets : List α} {results : List ρ} {a : α}
    (h : ∀ target ∈ targets, target ≠ a) : resultsOf targets results a = [] := by
  refine List.filterMap_eq_nil_iff.mpr fun e he => ?_
  rw [if_neg (h e.2 (List.of_mem_zip he).2)]

theorem resultsOf_of_forall_eq {targets : List α} {results : List ρ} {a : α}
    (hlength : results.length = targets.length) (h : ∀ target ∈ targets, target = a) :
    resultsOf targets results a = results := by
  have hall : ∀ e ∈ results.zip targets, (if e.2 = a then some e.1 else none) = some e.1 :=
    fun e he => if_pos (h e.2 (List.of_mem_zip he).2)
  rw [resultsOf, List.filterMap_congr hall, List.filterMap_eq_map',
    List.map_fst_zip (Nat.le_of_eq hlength)]

omit [DecidableEq α] in
/-- The targets of the calls for some entries are the addresses of these. -/
theorem mem_targets {pairResults : List (α × ι)}
    (hinputs : ∀ e ∈ pairResults, dex.address e.2 = e.1) {target : α}
    (h : target ∈ pairResults.flatMap fun e => (dex.calls e.2).map dex.target) :
    target ∈ pairResults.map Prod.fst := by
  obtain ⟨e, he, hm⟩ := List.mem_flatMap.mp h
  obtain ⟨c, hc, rfl⟩ := List.mem_map.mp hm
  rw [dex.target_calls e.2 c hc, hinputs e he]
  exact List.mem_map_of_mem he

/-- The results of a registered address are those of its own calls, in order, wherever these are
in the multicall. -/
theorem resultsOf_entry {before after : List (α × ι)} {a : α} {pairInput : ι}
    (hinputs : ∀ e ∈ before ++ (a, pairInput) :: after, dex.address e.2 = e.1)
    (hnodup : ((before ++ (a, pairInput) :: after).map Prod.fst).Nodup)
    {earlier own later : List ρ}
    (hearlier : earlier.length = (before.flatMap fun e => (dex.calls e.2).map dex.target).length)
    (hlength : own.length = ((dex.calls pairInput).map dex.target).length) :
    resultsOf ((before ++ (a, pairInput) :: after).flatMap fun e => (dex.calls e.2).map dex.target)
      (earlier ++ (own ++ later)) a = own := by
  rw [List.map_append, List.map_cons, List.nodup_append] at hnodup
  obtain ⟨-, hrest, hdisjoint⟩ := hnodup
  have hbefore : ∀ target ∈ before.flatMap fun e => (dex.calls e.2).map dex.target, target ≠ a := by
    intro target ht
    have hm := mem_targets (fun e he => hinputs e (List.mem_append_left _ he)) ht
    exact hdisjoint target hm a List.mem_cons_self
  have hafter : ∀ target ∈ after.flatMap fun e => (dex.calls e.2).map dex.target, target ≠ a := by
    intro target ht heq
    subst heq
    exact (List.nodup_cons.mp hrest).1 (mem_targets (fun e he =>
      hinputs e (List.mem_append_right _ (List.mem_cons_of_mem _ he))) ht)
  have hown : ∀ target ∈ (dex.calls pairInput).map dex.target, target = a := by
    intro target ht
    obtain ⟨c, hc, rfl⟩ := List.mem_map.mp ht
    rw [dex.target_calls pairInput c hc]
    exact hinputs (a, pairInput) (List.mem_append_right _ List.mem_cons_self)
  rw [List.flatMap_append, List.flatMap_cons, resultsOf_append hearlier, resultsOf_append hlength,
    resultsOf_of_forall_ne hbefore, resultsOf_of_forall_ne hafter,
    resultsOf_of_forall_eq hlength hown, List.nil_append, List.append_nil]

/-- Each pair input gets the answers to its own calls. -/
theorem resultsOf_flatMap {answer : γ → ρ} {pairResults : List (α × ι)}
    (hinputs : ∀ e ∈ pairResults, dex.address e.2 = e.1)
    (hnodup : (pairResults.map Prod.fst).Nodup) {e : α × ι} (he : e ∈ pairResults) :
    resultsOf (pairResults.flatMap fun e => (dex.calls e.2).map dex.target)
      (pairResults.flatMap fun e => answers dex answer e.2) e.1 = answers dex answer e.2 := by
  obtain ⟨before, after, rfl⟩ := List.append_of_mem he
  have hlength : ∀ pairInput, (answers dex answer pairInput).length =
      ((dex.calls pairInput).map dex.target).length := by
    intro pairInput
    rw [answers, List.length_map, List.length_map]
  have hearlier : (before.flatMap fun e => answers dex answer e.2).length =
      (before.flatMap fun e => (dex.calls e.2).map dex.target).length := by
    rw [List.length_flatMap, List.length_flatMap]
    exact congrArg List.sum (List.map_congr_left fun e _ => hlength e.2)
  have hsplit : (before ++ e :: after).flatMap (fun e => answers dex answer e.2) =
      before.flatMap (fun e => answers dex answer e.2) ++
        (answers dex answer e.2 ++ after.flatMap fun e => answers dex answer e.2) := by
    rw [List.flatMap_append, List.flatMap_cons]
  rw [hsplit]
  exact resultsOf_entry hinputs hnodup hearlier (hlength e.2)

/-! ### Calls in flight -/

section Serves

variable {answer : γ → ρ} {metadata : α → Option π} {pairInputs : List ι}

/-- What the registration loop made of the pair inputs it visited. -/
structure Requests (dex : DexPairInput α γ ι ρ π) (answer : γ → ρ) (metadata : α → Option π)
    (pairInputs : List ι) (call : GetPairs α ι ρ π ε) : Prop where
  requested : ∀ a, a ∈ call.asyncValues.map Prod.fst ∨ a ∈ call.registered ↔
    ∃ pairInput ∈ pairInputs, dex.address pairInput = a
  asyncNodup : (call.asyncValues.map Prod.fst).Nodup
  registeredNodup : call.registered.Nodup
  disjoint : ∀ a ∈ call.asyncValues.map Prod.fst, a ∉ call.registered
  inputs : ∀ e ∈ call.pairResults, dex.address e.2 = e.1 ∧ decoded dex answer e.2 = metadata e.1

/-- A call in flight: what it fetches, and what it found of the values that it does not await
any more. -/
structure Serves (dex : DexPairInput α γ ι ρ π) (answer : γ → ρ) (metadata : α → Option π)
    (pairInputs : List ι) (call : GetPairs α ι ρ π ε) : Prop
    extends Requests dex answer metadata pairInputs call where
  targets : call.callTargets = callTargets dex call
  results : ∀ results, call.multicallResults = some results →
    results = call.pairResults.flatMap fun e => answers dex answer e.2
  fetched : call.fetched = []
  waiting : ∀ a ∈ call.waiting.map Prod.fst, a ∈ call.asyncValues.map Prod.fst
  resolvedNodup : (call.resolved.map Prod.fst).Nodup
  resolved : ∀ a pair, (a, pair) ∈ call.resolved ↔ a ∈ call.asyncValues.map Prod.fst ∧
    a ∉ call.waiting.map Prod.fst ∧ metadata a = some pair

/-- The map of the requested addresses that decode to a pair. -/
structure IsPairMap (dex : DexPairInput α γ ι ρ π) (metadata : α → Option π) (pairInputs : List ι)
    (pairs : List (α × π)) : Prop where
  nodup : (pairs.map Prod.fst).Nodup
  mem : ∀ a pair, (a, pair) ∈ pairs ↔
    (∃ pairInput ∈ pairInputs, dex.address pairInput = a) ∧ metadata a = some pair

omit [DecidableEq α] in
theorem nodup_concat {l : List α} {a : α} (h : l.Nodup) (ha : a ∉ l) : (l ++ [a]).Nodup := by
  refine List.nodup_append.mpr ⟨h, List.nodup_singleton a, fun b hb c hc heq => ha ?_⟩
  rw [← List.mem_singleton.mp hc, ← heq]
  exact hb

omit [DecidableEq α] in
theorem new_requests : Requests dex answer metadata [] (.new : GetPairs α ι ρ π ε) where
  requested := fun a => by simp [GetPairs.new, GetPairs.registered]
  asyncNodup := List.nodup_nil
  registeredNodup := List.nodup_nil
  disjoint := fun _ h => by cases h
  inputs := fun _ h => by cases h

theorem Requests.registerRound {done : List ι} {pairInput : ι}
    (h : Requests dex answer metadata done call)
    (hinput : decoded dex answer pairInput = metadata (dex.address pairInput))
    (hcall : s.calls id = some call) (hround : RegisterRound dex s id call pairInput s') :
    ∃ call', s'.calls id = some call' ∧
      Requests dex answer metadata (done ++ [pairInput]) call' := by
  have hrequested : ∀ a, (∃ i ∈ done ++ [pairInput], dex.address i = a) ↔
      (∃ i ∈ done, dex.address i = a) ∨ a = dex.address pairInput := by
    intro a
    constructor
    · rintro ⟨i, hi, rfl⟩
      rcases List.mem_append.mp hi with hi | hi
      · exact .inl ⟨i, hi, rfl⟩
      · exact .inr (by rw [List.mem_singleton.mp hi])
    · rintro (⟨i, hi, rfl⟩ | rfl)
      · exact ⟨i, List.mem_append_left _ hi, rfl⟩
      · exact ⟨pairInput, by simp, rfl⟩
  have hcontains : ∀ a, call.contains a ↔
      a ∈ call.asyncValues.map Prod.fst ∨ a ∈ call.registered := fun a => by
    simp [GetPairs.contains]
  cases hround with
  | known hknown =>
    refine ⟨call, hcall, { h with requested := fun a => ?_ }⟩
    rw [hrequested, h.requested]
    refine (or_iff_left_of_imp ?_).symm
    rintro rfl
    exact (h.requested _).mp ((hcontains _).mp hknown)
  | subscribe hnew hget =>
    rw [hcontains, not_or] at hnew
    refine ⟨_, Function.update_self .., ?_, ?_, h.registeredNodup, fun a ha => ?_, h.inputs⟩
    · intro a
      rw [hrequested, ← h.requested]
      simp only [List.map_append, List.map_cons, List.map_nil, List.mem_append, List.mem_singleton,
        GetPairs.registered]
      tauto
    · rw [List.map_append]
      exact nodup_concat h.asyncNodup hnew.1
    · rw [List.map_append, List.mem_append, List.map_singleton, List.mem_singleton] at ha
      rcases ha with ha | rfl
      · exact h.disjoint a ha
      · exact hnew.2
  | register hnew hget =>
    rw [hcontains, not_or] at hnew
    refine ⟨_, Function.update_self .., ?_, h.asyncNodup, ?_, fun a ha => ?_, fun e he => ?_⟩
    · intro a
      rw [hrequested, ← h.requested]
      simp only [GetPairs.registered, List.map_append, List.map_cons, List.map_nil,
        List.mem_append, List.mem_singleton]
      tauto
    · rw [GetPairs.registered, List.map_append]
      exact nodup_concat h.registeredNodup hnew.2
    · rw [GetPairs.registered, List.map_append, List.mem_append, not_or]
      refine ⟨h.disjoint a ha, fun hm => ?_⟩
      have heq : a = dex.address pairInput := List.mem_singleton.mp hm
      exact hnew.1 (heq ▸ ha)
    · rcases List.mem_append.mp he with he | he
      · exact h.inputs e he
      · cases List.mem_singleton.mp he
        exact ⟨rfl, hinput⟩

theorem registerAll_requests
    (hinputs : ∀ i ∈ pairInputs, decoded dex answer i = metadata (dex.address i))
    (hcall : (registerAll dex s id pairInputs).calls id = some call) :
    Requests dex answer metadata pairInputs call := by
  obtain ⟨call', hcall', h⟩ : ∃ call', (registerAll dex s id pairInputs).calls id = some call' ∧
      Requests dex answer metadata pairInputs call' := by
    refine registerAll_induct (M := fun done s₁ => ∃ call', s₁.calls id = some call' ∧
      Requests dex answer metadata done call') ⟨.new, Function.update_self .., new_requests⟩
      fun done pairInput rest call₁ s₁ hsplit hcall₁ hrequests hround => ?_
    obtain ⟨call₂, hcall₂, hrequests⟩ := hrequests
    cases hcall₁.symm.trans hcall₂
    refine hrequests.registerRound (hinputs pairInput ?_) hcall₁ hround
    rw [hsplit]
    simp
  cases hcall.symm.trans hcall'
  exact h

omit [DecidableEq α] in
theorem mem_keys_waiting {a : α} :
    a ∈ (awaiting dex call).waiting.map Prod.fst ↔ ∃ r, (a, .receiver r) ∈ call.asyncValues := by
  constructor
  · intro h
    obtain ⟨⟨b, r⟩, hm, rfl⟩ := List.mem_map.mp h
    exact ⟨r, mem_waiting_resolveMap hm⟩
  · rintro ⟨r, hm⟩
    exact List.mem_map.mpr ⟨(a, r), List.mem_filterMap.mpr ⟨_, hm, rfl⟩, rfl⟩

omit [DecidableEq α] in
theorem mem_resolved_awaiting {a : α} {pair : π} :
    (a, pair) ∈ (awaiting dex call).resolved ↔ (a, .value (some pair)) ∈ call.asyncValues := by
  constructor
  · intro h
    obtain ⟨⟨b, v⟩, hm, heq⟩ := List.mem_filterMap.mp h
    match v, heq with
    | .value (some p), heq =>
      cases Option.some.inj heq
      exact hm
  · exact fun hm => List.mem_filterMap.mpr ⟨_, hm, rfl⟩

omit [DecidableEq α] in
theorem resolved_awaiting_sublist :
    ((awaiting dex call).resolved.map Prod.fst).Sublist (call.asyncValues.map Prod.fst) := by
  change ((call.asyncValues.filterMap _).map Prod.fst).Sublist _
  induction call.asyncValues with
  | nil => exact List.Sublist.slnil
  | cons e l ih =>
    obtain ⟨a, v⟩ := e
    rw [List.filterMap_cons]
    match v with
    | .receiver r => exact ih.cons _
    | .value none => exact ih.cons _
    | .value (some pair) => exact ih.cons_cons _

omit [DecidableEq α] in
/-- The futures of a call are set up. -/
theorem Requests.awaiting (h : Requests dex answer metadata pairInputs call)
    (hvalues : ∀ a pair, (a, .value pair) ∈ call.asyncValues → pair = metadata a)
    (hresults : call.multicallResults = none) (hfetched : call.fetched = []) :
    Serves dex answer metadata pairInputs (awaiting dex call) := by
  refine { h with
    targets := rfl
    results := fun results hr => by cases hresults.symm.trans hr
    fetched := hfetched
    waiting := fun a ha => ?_
    resolvedNodup := resolved_awaiting_sublist.nodup h.asyncNodup
    resolved := fun a pair => ?_ }
  · obtain ⟨r, hm⟩ := mem_keys_waiting.mp ha
    exact List.mem_map_of_mem hm
  · rw [mem_resolved_awaiting, mem_keys_waiting]
    constructor
    · intro hm
      refine ⟨List.mem_map_of_mem hm, fun hr => ?_, (hvalues a _ hm).symm⟩
      obtain ⟨r, hr⟩ := hr
      cases List.inj_on_of_nodup_map h.asyncNodup hm hr rfl
    · rintro ⟨ha, hnot, hpair⟩
      obtain ⟨⟨b, v⟩, hm, rfl⟩ := List.mem_map.mp ha
      cases v with
      | receiver r => exact absurd ⟨r, hm⟩ hnot
      | value v => rwa [← hpair, ← hvalues b v hm]

/-- An awaited value arrives. -/
theorem Serves.recv (h : Serves dex answer metadata pairInputs call) {a : α}
    (ha : a ∈ call.waiting.map Prod.fst) :
    Serves dex answer metadata pairInputs { call with
      waiting := call.waiting.filter fun e => e.1 ≠ a
      resolved := call.resolved ++ (metadata a).toList.map fun pair => (a, pair) } := by
  have hwaiting : ∀ b, b ∈ (call.waiting.filter fun e => e.1 ≠ a).map Prod.fst ↔
      b ∈ call.waiting.map Prod.fst ∧ b ≠ a := by
    intro b
    simp only [List.mem_map, List.mem_filter, decide_eq_true_eq]
    constructor
    · rintro ⟨e, ⟨he, hne⟩, rfl⟩
      exact ⟨⟨e, he, rfl⟩, hne⟩
    · rintro ⟨⟨e, he, rfl⟩, hne⟩
      exact ⟨e, ⟨he, hne⟩, rfl⟩
  refine { h with
    waiting := fun b hb => h.waiting b ((hwaiting b).mp hb).1
    resolvedNodup := ?_
    resolved := fun b pair => ?_ }
  · cases hmeta : metadata a with
    | none => simpa using h.resolvedNodup
    | some p =>
      rw [Option.toList_some, List.map_singleton, List.map_append]
      refine nodup_concat h.resolvedNodup fun hm => ?_
      obtain ⟨e, he, rfl⟩ := List.mem_map.mp hm
      exact ((h.resolved e.1 e.2).mp he).2.1 ha
  · rw [List.mem_append, h.resolved, hwaiting]
    by_cases hba : b = a
    · subst hba
      have hkey := h.waiting b ha
      cases hmeta : metadata b with
      | none => simp
      | some p =>
        simp only [Option.toList_some, List.map_singleton, List.mem_singleton, Prod.mk.injEq,
          Option.some.injEq, true_and, ne_eq, not_true_eq_false, and_false, not_false_eq_true]
        tauto
    · have hnot : (b, pair) ∉ (metadata a).toList.map fun pair => (a, pair) := by
        intro hm
        obtain ⟨p, -, heq⟩ := List.mem_map.mp hm
        exact hba (congrArg Prod.fst heq).symm
      simp only [hnot, hba, or_false, ne_eq, not_false_eq_true, and_true]

/-- The pairs of a call's own multicall. -/
def fetchedPairs (metadata : α → Option π) (order : List α) : List (α × π) :=
  order.flatMap fun a => (metadata a).toList.map fun pair => (a, pair)

omit [DecidableEq α] in
theorem mem_fetchedPairs {order : List α} {a : α} {pair : π} :
    (a, pair) ∈ fetchedPairs metadata order ↔ a ∈ order ∧ metadata a = some pair := by
  simp only [fetchedPairs, List.mem_flatMap, List.mem_map, Option.mem_toList, Prod.mk.injEq]
  constructor
  · rintro ⟨b, hb, p, hp, rfl, rfl⟩
    exact ⟨hb, hp⟩
  · rintro ⟨ha, hpair⟩
    exact ⟨a, ha, pair, hpair, rfl, rfl⟩

omit [DecidableEq α] in
theorem fetchedPairs_sublist (metadata : α → Option π) (order : List α) :
    ((fetchedPairs metadata order).map Prod.fst).Sublist order := by
  induction order with
  | nil => exact List.Sublist.slnil
  | cons a order ih =>
    rw [fetchedPairs, List.flatMap_cons, List.map_append, ← fetchedPairs]
    cases metadata a with
    | none => exact ih.cons _
    | some pair => exact ih.cons_cons _

/-- The entry of the published address gets the value, the others stay. -/
theorem setPair_cases {a b : α} {pair : Option π} {asyncValue : AsyncValue (Option π)}
    (h : (s.setPair a pair).pairCache.get? b = some asyncValue) :
    b = a ∧ asyncValue.value = some pair ∨ b ≠ a ∧ s.pairCache.get? b = some asyncValue := by
  by_cases hb : b = a
  · subst hb
    refine .inl ⟨rfl, ?_⟩
    unfold DexProvider.setPair at h
    split at h
    next hnone =>
      rw [hnone] at h
      cases h
    next old hold =>
      simp only [LruCache.get?_modify, if_pos, hold, Option.map_some] at h
      cases h
      rfl
  · refine .inr ⟨hb, ?_⟩
    unfold DexProvider.setPair at h
    split at h
    next => exact h
    next old hold =>
      simp only [LruCache.get?_modify, if_neg hb] at h
      exact h

/-- The publication loop fills the map and the cache with what the results decode to. -/
theorem publishAll_fetched (hcall : s.calls id = some call) (hnodup : call.registered.Nodup)
    (hfetched : call.fetched = []) {results : List ρ}
    (hdecode : ∀ e ∈ call.pairResults,
      dex.decode e.2 (resultsOf call.callTargets results e.1) = metadata e.1)
    {order : List α} (horder : order.Perm call.registered) :
    (∃ left, (publishAll dex s id results order).calls id =
      some { call with pairResults := left, fetched := fetchedPairs metadata order }) ∧
    ∀ a ∈ order, ∀ asyncValue, (publishAll dex s id results order).pairCache.get? a =
      some asyncValue → asyncValue.value = some (metadata a) := by
  have hloop : (publishAll dex s id results order).calls id = some { call with
        pairResults := call.pairResults.filter fun e => e.1 ∉ order
        fetched := fetchedPairs metadata order } ∧
      ∀ a ∈ order, ∀ asyncValue, (publishAll dex s id results order).pairCache.get? a =
        some asyncValue → asyncValue.value = some (metadata a) := by
    refine publishAll_induct (M := fun done s₁ => s₁.calls id = some { call with
        pairResults := call.pairResults.filter fun e => e.1 ∉ done
        fetched := fetchedPairs metadata done } ∧
      ∀ a ∈ done, ∀ asyncValue, s₁.pairCache.get? a = some asyncValue →
        asyncValue.value = some (metadata a)) hcall ⟨?_, fun _ h => by cases h⟩
      fun done a rest call₁ s₁ hsplit hcall₁ hdone hround => ?_
    · have hnil : fetchedPairs metadata [] = call.fetched := hfetched.symm
      rw [hcall, hnil]
      simp
    · obtain ⟨hdone, hcached⟩ := hdone
      cases hcall₁.symm.trans hdone
      have hleftNodup := horder.nodup_iff.mpr hnodup
      rw [hsplit, List.nodup_append] at hleftNodup
      have hnot : a ∉ done := fun hm => hleftNodup.2.2 a hm a List.mem_cons_self rfl
      cases hround with
      | absent habsent =>
        have ha : a ∈ call.registered := horder.mem_iff.mp (by rw [hsplit]; simp)
        obtain ⟨e, he, rfl⟩ := List.mem_map.mp ha
        exact absurd (List.mem_map_of_mem (List.mem_filter.mpr ⟨he, by simpa using hnot⟩)) habsent
      | @publish pairInput pair hmem hpair =>
        have hpair' : pair = metadata a :=
          hpair.symm.trans (hdecode _ (List.mem_of_mem_filter hmem))
        subst hpair'
        refine ⟨(Function.update_self ..).trans (congrArg some ?_), fun b hb asyncValue hget => ?_⟩
        · have hleft : (call.pairResults.filter fun e => e.1 ∉ done).filter (fun e => e.1 ≠ a) =
              call.pairResults.filter fun e => e.1 ∉ done ++ [a] := by
            rw [List.filter_filter]
            refine List.filter_congr fun e _ => ?_
            simp [and_comm]
          have hnext : fetchedPairs metadata (done ++ [a]) = fetchedPairs metadata done ++
              (metadata a).toList.map fun pair => (a, pair) := by
            simp [fetchedPairs]
          simp only [published, hleft, hnext]
        · rcases setPair_cases hget with ⟨rfl, hvalue⟩ | ⟨hne, hget⟩
          · exact hvalue
          · refine hcached b ?_ asyncValue hget
            rcases List.mem_append.mp hb with hb | hb
            · exact hb
            · exact absurd (List.mem_singleton.mp hb) hne
  exact ⟨⟨_, hloop.1⟩, hloop.2⟩

/-- What a round of the publication loop decodes. -/
theorem Serves.decode_eq (h : Serves dex answer metadata pairInputs call) {results : List ρ}
    (hresults : call.multicallResults = some results) {e : α × ι} (he : e ∈ call.pairResults) :
    dex.decode e.2 (resultsOf call.callTargets results e.1) = metadata e.1 := by
  rw [h.targets, h.results results hresults, callTargets,
    resultsOf_flatMap (fun e he => (h.inputs e he).1) h.registeredNodup he]
  exact (h.inputs e he).2

/-- The call after its publication loop. -/
theorem Serves.publishAll (h : Serves dex answer metadata pairInputs call)
    (hcall : s.calls id = some call) {results : List ρ}
    (hresults : call.multicallResults = some results) {order : List α}
    (horder : order.Perm call.registered) :
    ∃ left, (publishAll dex s id results order).calls id =
      some { call with pairResults := left, fetched := fetchedPairs metadata order } :=
  (publishAll_fetched hcall h.registeredNodup h.fetched (fun _ he => h.decode_eq hresults he)
    horder).1

omit [DecidableEq α] in
/-- The result of a call. -/
theorem Serves.isPairMap (h : Serves dex answer metadata pairInputs call)
    (hwaiting : call.waiting = []) {order : List α} (horder : order.Perm call.registered) :
    IsPairMap dex metadata pairInputs (fetchedPairs metadata order ++ call.resolved) := by
  have hresolved : ∀ a pair, (a, pair) ∈ call.resolved ↔
      a ∈ call.asyncValues.map Prod.fst ∧ metadata a = some pair := fun a pair => by
    rw [h.resolved, hwaiting]
    simp
  refine ⟨?_, fun a pair => ?_⟩
  · rw [List.map_append, List.nodup_append]
    refine ⟨(fetchedPairs_sublist metadata order).nodup (horder.nodup_iff.mpr h.registeredNodup),
      h.resolvedNodup, fun a ha b hb heq => ?_⟩
    subst heq
    obtain ⟨e, he, rfl⟩ := List.mem_map.mp hb
    have hkey := ((hresolved e.1 e.2).mp he).1
    exact h.disjoint e.1 hkey (horder.mem_iff.mp ((fetchedPairs_sublist metadata order).subset ha))
  · rw [List.mem_append, mem_fetchedPairs, hresolved, horder.mem_iff, ← h.requested]
    tauto

end Serves

/-! ### Runs -/

/-- Every call that started is served: it is in flight, or returned the map of its pairs. -/
structure Served (dex : DexPairInput α γ ι ρ π) (answer : γ → ρ) (metadata : α → Option π)
    (steps : List (DexStep α ι ρ ε)) (s : DexProvider α ι ρ π ε) : Prop where
  started : ∀ id call, s.calls id = some call → ∃ pairInputs, .getPairs id pairInputs ∈ steps
  served : ∀ id pairInputs, .getPairs id pairInputs ∈ steps → ∃ call, s.calls id = some call ∧
    (call.result = none → Serves dex answer metadata pairInputs call) ∧
    ∀ result, call.result = some result →
      ∃ pairs, result = .ok pairs ∧ IsPairMap dex metadata pairInputs pairs

section Served

variable {answer : γ → ρ} {metadata : α → Option π} {steps : List (DexStep α ι ρ ε)}

omit [DecidableEq α] in
theorem new_served : Served dex answer metadata [] (new : DexProvider α ι ρ π ε) where
  started := fun _ _ h => by cases h
  served := fun _ _ h => by cases h

omit [DecidableEq α] in
theorem Served.serves (h : Served dex answer metadata steps s) (hcall : s.inFlight id = some call) :
    ∃ pairInputs, .getPairs id pairInputs ∈ steps ∧ Serves dex answer metadata pairInputs call := by
  obtain ⟨hget, hresult⟩ := inFlight_eq_some.mp hcall
  obtain ⟨pairInputs, hm⟩ := h.started id call hget
  obtain ⟨call', hget', hserves, -⟩ := h.served id pairInputs hm
  cases hget.symm.trans hget'
  exact ⟨pairInputs, hm, hserves hresult⟩

omit [DecidableEq α] in
/-- A call that started goes on or returns. -/
theorem Served.update {call' : GetPairs α ι ρ π ε} {a : DexStep α ι ρ ε}
    (h : Served dex answer metadata steps s) (ha : ¬a.isGetPairs)
    (hcall : s.inFlight id = some call) (hcalls : s'.calls = Function.update s.calls id (some call'))
    (hnew : ∀ pairInputs, Serves dex answer metadata pairInputs call →
      (call'.result = none → Serves dex answer metadata pairInputs call') ∧
      ∀ result, call'.result = some result →
        ∃ pairs, result = .ok pairs ∧ IsPairMap dex metadata pairInputs pairs) :
    Served dex answer metadata (steps ++ [a]) s' := by
  obtain ⟨hget, hresult⟩ := inFlight_eq_some.mp hcall
  have hmem : ∀ i pairInputs, .getPairs i pairInputs ∈ steps ++ [a] ↔
      .getPairs i pairInputs ∈ steps := by
    intro i pairInputs
    rw [List.mem_append, List.mem_singleton]
    refine or_iff_left fun heq => ha ?_
    rw [← heq]
    rfl
  refine ⟨fun i c hc => ?_, fun i pairInputs hm => ?_⟩
  · have hold : ∃ c', s.calls i = some c' := by
      rcases calls_cases hcalls hc with ⟨rfl, -⟩ | ⟨-, hc⟩
      · exact ⟨call, hget⟩
      · exact ⟨c, hc⟩
    obtain ⟨c', hc'⟩ := hold
    obtain ⟨pairInputs, hm⟩ := h.started i c' hc'
    exact ⟨pairInputs, (hmem i pairInputs).mpr hm⟩
  · obtain ⟨c, hc, hserves, hreturned⟩ := h.served i pairInputs ((hmem i pairInputs).mp hm)
    rw [hcalls]
    by_cases hid : i = id
    · subst hid
      cases hget.symm.trans hc
      exact ⟨call', Function.update_self .., hnew pairInputs (hserves hresult)⟩
    · exact ⟨c, (Function.update_of_ne hid ..).trans hc, hserves, hreturned⟩

theorem Served.getPairs (h : Served dex answer metadata steps s)
    (hholds : Holds dex (fun a pair => pair = metadata a) s) (hid : s.calls id = none)
    {pairInputs : List ι}
    (hinputs : ∀ i ∈ pairInputs, decoded dex answer i = metadata (dex.address i))
    (hcall : (registerAll dex s id pairInputs).calls id = some call) :
    Served dex answer metadata (steps ++ [.getPairs id pairInputs])
      ((registerAll dex s id pairInputs).setCall id (awaiting dex call)) := by
  have hframe := registerAll_call hcall
  have hvalues : ∀ a pair, (a, .value pair) ∈ call.asyncValues → pair = metadata a := by
    obtain ⟨owner, hholds⟩ := hholds
    obtain ⟨owner', hholds'⟩ := (hholds.setCall (new_callHolds _)).foldl_registerOne
      (Function.update_self ..) pairInputs
    exact (hholds'.calls id call hcall).values
  have hserves : Serves dex answer metadata pairInputs (awaiting dex call) :=
    (registerAll_requests hinputs hcall).awaiting hvalues (by rw [hframe]; rfl) (by rw [hframe]; rfl)
  have hresult : (awaiting dex call).result = none := by
    rw [hframe]
    rfl
  have hcalls := setCall_registerAll_calls dex s id pairInputs (awaiting dex call)
  refine ⟨fun i c hc => ?_, fun i inputs hm => ?_⟩
  · rcases calls_cases hcalls hc with ⟨rfl, -⟩ | ⟨-, hc⟩
    · exact ⟨pairInputs, by simp⟩
    · obtain ⟨inputs, hm⟩ := h.started i c hc
      exact ⟨inputs, List.mem_append_left _ hm⟩
  · rw [hcalls]
    rcases List.mem_append.mp hm with hm | hm
    · obtain ⟨c, hc, hserved⟩ := h.served i inputs hm
      have hne : i ≠ id := by
        rintro rfl
        rw [hid] at hc
        cases hc
      exact ⟨c, (Function.update_of_ne hne ..).trans hc, hserved⟩
    · cases List.mem_singleton.mp hm
      refine ⟨_, Function.update_self .., fun _ => hserves, fun result hr => ?_⟩
      rw [hresult] at hr
      cases hr

theorem Served.step {a : DexStep α ι ρ ε} (h : Served dex answer metadata steps s)
    (hflights : Flights s) (hholds : Holds dex (fun a pair => pair = metadata a) s)
    (hstep : step dex s a = some s') (hassumed : Assumed dex answer metadata s a s') :
    Served dex answer metadata (steps ++ [a]) s' := by
  have hreturned : ∀ {c : GetPairs α ι ρ π ε}, c.result = none → ∀ pairInputs result,
      c.result = some result → ∃ pairs, result = .ok pairs ∧
        IsPairMap dex metadata pairInputs pairs := by
    intro c hnone pairInputs result hr
    rw [hnone] at hr
    cases hr
  cases stepped hstep with
  | getPairs hid hcall => exact h.getPairs hholds hid hassumed hcall
  | @multicall id results call hcall hnone =>
    have hresult := (inFlight_eq_some.mp hcall).2
    refine h.update Bool.false_ne_true hcall rfl fun pairInputs hserves =>
      ⟨fun _ => { hserves with results := fun results' hr => ?_ },
        fun result hr => hreturned hresult pairInputs result hr⟩
    obtain ⟨call', hcall', hok⟩ := hassumed
    cases hcall.symm.trans hcall'
    cases hok
    exact (Option.some.inj hr).symm
  | multicallFails =>
    obtain ⟨call', -, hok⟩ := hassumed
    cases hok
  | @recv id a call r pair hcall hwaiting hvalue =>
    have hresult := (inFlight_eq_some.mp hcall).2
    have hpair : pair = metadata a := by
      obtain ⟨owner, hholds⟩ := hholds
      obtain ⟨hlt, howner⟩ := (hholds.calls id call (inFlight_eq_some.mp hcall).1).waiting a r hwaiting
      exact hholds.sent r.tx hlt a howner pair (mem_sent_of_recv hvalue)
    subst hpair
    exact h.update Bool.false_ne_true hcall rfl fun pairInputs hserves =>
      ⟨fun _ => hserves.recv (List.mem_map_of_mem hwaiting),
        fun result hr => hreturned hresult pairInputs result hr⟩
  | recvFails hcall hwaiting herror => exact absurd herror (hflights.recv_ne_error hcall hwaiting)
  | @publish id order call call' results hcall hresults hwaiting horder hcall' =>
    refine h.update Bool.false_ne_true hcall
      (setCall_publishAll_calls dex (inFlight_eq_some.mp hcall).1 results order _)
      fun pairInputs hserves => ⟨fun hnone => (by cases hnone), fun result hr => ?_⟩
    obtain ⟨left, hleft⟩ := hserves.publishAll (inFlight_eq_some.mp hcall).1 hresults horder
    cases hcall'.symm.trans hleft
    exact ⟨_, (Option.some.inj hr).symm, hserves.isPairMap hwaiting horder⟩

/-- The pairs that a served call publishes are those of its addresses. -/
theorem Served.decodes (h : Served dex answer metadata steps s) (a : DexStep α ι ρ ε)
    (s' : DexProvider α ι ρ π ε) : Decodes dex (fun a pair => pair = metadata a) s a s' := by
  cases a with
  | publish id order =>
    intro call results hcall hresults e he
    obtain ⟨pairInputs, -, hserves⟩ := h.serves hcall
    exact hserves.decode_eq hresults he
  | _ => trivial

end Served

end DexProvider

end Pochtecatl
