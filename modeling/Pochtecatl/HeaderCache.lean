import Mathlib.Data.List.Basic

namespace Pochtecatl

/-- `ttl` is a time since the epoch, in seconds. -/
structure TTLCache (η : Type) where
  value : η
  ttl : Option Nat
  deriving DecidableEq

def TTLCache.isExpired {η : Type} (cache : TTLCache η) (now : Nat) : Bool :=
  match cache.ttl with
  | none => false
  | some ttl => now < ttl

/-- A call of `get_finalized_block_header`, and what the node answers if it is asked. `none` is a
failure. -/
structure HeaderCall (η : Type) where
  time : Nat
  answer : Option η

/-- What a call returns, where `none` is `Err`, and whether it asked the node. -/
structure ServedHeader (η : Type) where
  time : Nat
  asked : Bool
  header : Option η
  deriving DecidableEq

variable {η : Type}

namespace BlockProvider

/-- The cache that a call leaves, and what it returns. -/
def getFinalizedBlockHeader (isBacktest : Bool) (cache : Option (TTLCache η))
    (call : HeaderCall η) : Option (TTLCache η) × ServedHeader η :=
  match cache.filter fun cached => !cached.isExpired call.time with
  | some cached => (cache, ⟨call.time, false, some cached.value⟩)
  | none => match call.answer with
    | some header => (some ⟨header, if isBacktest then none else some (call.time + 300)⟩,
        ⟨call.time, true, some header⟩)
    | none => (cache, ⟨call.time, true, none⟩)

/-- The calls one after the other. -/
def serve (isBacktest : Bool) : Option (TTLCache η) → List (HeaderCall η) → List (ServedHeader η)
  | _, [] => []
  | cache, call :: calls =>
    let (cache, served) := getFinalizedBlockHeader isBacktest cache call
    served :: serve isBacktest cache calls

end BlockProvider

/-- The header that a call got from the node, and when. -/
def ServedHeader.fetched (served : ServedHeader η) : Option (η × Nat) :=
  if served.asked then served.header.map (·, served.time) else none

def lastFetched (before : List (ServedHeader η)) : Option (η × Nat) :=
  (before.filterMap ServedHeader.fetched).getLast?

/-- The header returned was fetched at most 300 s ago, and one that was fetched less than 300 s
ago is returned without asking the node. -/
def Fresh (before : List (ServedHeader η)) (served : ServedHeader η) : Prop :=
  (∀ header, served.header = some header → ∃ time,
    (header, time) ∈ (before ++ [served]).filterMap ServedHeader.fetched ∧
      served.time ≤ time + 300) ∧
  ∀ header time, lastFetched before = some (header, time) → served.time < time + 300 →
    served.asked = false ∧ served.header = some header

/-- Every call is fresh, after those before it. -/
def AllFresh : List (ServedHeader η) → List (ServedHeader η) → Prop
  | _, [] => True
  | before, served :: rest => Fresh before served ∧ AllFresh (before ++ [served]) rest

theorem lastFetched_concat {before : List (ServedHeader η)} {served : ServedHeader η} :
    lastFetched (before ++ [served]) = served.fetched.or (lastFetched before) := by
  unfold lastFetched
  rw [List.filterMap_append]
  cases h : served.fetched with
  | none => simp [h]
  | some fetched => simp [h]

section Serve

open BlockProvider

variable {before : List (ServedHeader η)} {calls : List (HeaderCall η)} {header : η} {time : Nat}

/-- A header that is cached is returned from the time on at which it should expire. -/
theorem getFinalizedBlockHeader_cached {call : HeaderCall η} (h : time ≤ call.time) :
    getFinalizedBlockHeader false (some ⟨header, some time⟩) call =
      (some ⟨header, some time⟩, ⟨call.time, false, some header⟩) := by
  have hkept : (some (⟨header, some time⟩ : TTLCache η)).filter
      (fun cached => !cached.isExpired call.time) = some ⟨header, some time⟩ := by
    rw [Option.filter_some, if_pos]
    simp [TTLCache.isExpired, h]
  unfold getFinalizedBlockHeader
  rw [hkept]

/-- Until then the node is asked. -/
theorem asked_getFinalizedBlockHeader {call : HeaderCall η} (h : call.time < time) :
    (getFinalizedBlockHeader false (some ⟨header, some time⟩) call).2.asked = true := by
  have hdropped : (some (⟨header, some time⟩ : TTLCache η)).filter
      (fun cached => !cached.isExpired call.time) = none := by
    rw [Option.filter_some, if_neg]
    simp [TTLCache.isExpired, h]
  unfold getFinalizedBlockHeader
  rw [hdropped]
  cases call.answer with
  | none => rfl
  | some header => rfl

theorem time_getFinalizedBlockHeader {isBacktest : Bool} {cache : Option (TTLCache η)}
    {call : HeaderCall η} : (getFinalizedBlockHeader isBacktest cache call).2.time = call.time := by
  unfold getFinalizedBlockHeader
  split
  next => rfl
  next => split <;> rfl

/-- After a header was fetched, the calls are fresh if and only if they all come when it
expires. -/
theorem allFresh_cached_iff (hlast : lastFetched before = some (header, time))
    (hbefore : ∀ fetched ∈ before.filterMap ServedHeader.fetched, fetched.2 ≤ time)
    (hcalls : ∀ call ∈ calls, time ≤ call.time) :
    AllFresh before (serve false (some ⟨header, some (time + 300)⟩) calls) ↔
      ∀ call ∈ calls, call.time = time + 300 := by
  induction calls generalizing before with
  | nil => simp [serve, AllFresh]
  | cons call calls ih =>
    rw [List.forall_mem_cons]
    by_cases hearly : call.time < time + 300
    · refine iff_of_false (fun hfresh => ?_) fun hall => ?_
      · have hasked := @asked_getFinalizedBlockHeader η header _ call hearly
        have htime :=
          @time_getFinalizedBlockHeader η false (some ⟨header, some (time + 300)⟩) call
        rw [← htime] at hearly
        have hnot := (hfresh.1.2 header time hlast hearly).1
        exact Bool.false_ne_true (hnot.symm.trans hasked)
      · omega
    · have hcached := @getFinalizedBlockHeader_cached η header _ call (Nat.not_lt.mp hearly)
      have hlist : (before ++ [(⟨call.time, false, some header⟩ : ServedHeader η)]).filterMap
          ServedHeader.fetched = before.filterMap ServedHeader.fetched := by
        simp [ServedHeader.fetched]
      have hfresh : Fresh before ⟨call.time, false, some header⟩ ↔ call.time = time + 300 := by
        unfold Fresh
        rw [hlist]
        constructor
        · rintro ⟨hrecent, -⟩
          obtain ⟨t, hm, hle⟩ := hrecent header rfl
          have ht : t ≤ time := hbefore _ hm
          dsimp only at hle
          omega
        · intro heq
          refine ⟨fun h hh => ?_, fun h t ht _ => ?_⟩
          · cases hh
            exact ⟨time, List.mem_of_getLast? hlast, Nat.le_of_eq heq⟩
          · cases hlast.symm.trans ht
            exact ⟨rfl, rfl⟩
      have htail := @ih (before ++ [⟨call.time, false, some header⟩])
        (lastFetched_concat.trans (by exact hlast)) (by rwa [hlist]) fun c hc =>
          hcalls c (List.mem_cons_of_mem _ hc)
      unfold serve
      rw [hcached]
      exact and_congr hfresh htail

theorem getFinalizedBlockHeader_empty {call : HeaderCall η} :
    getFinalizedBlockHeader false none call =
      (call.answer.map fun header => ⟨header, some (call.time + 300)⟩,
        ⟨call.time, true, call.answer⟩) := by
  unfold getFinalizedBlockHeader
  cases call.answer with
  | none => rfl
  | some header => rfl

/-- The first header that is fetched is fresh. -/
theorem fresh_asked {answer : Option η} (hlast : before.filterMap ServedHeader.fetched = []) :
    Fresh before ⟨time, true, answer⟩ := by
  refine ⟨fun header hh => ⟨time, ?_, Nat.le_add_right ..⟩, fun header t ht => ?_⟩
  · cases hh
    rw [List.filterMap_append, hlast]
    exact List.mem_singleton_self _
  · rw [lastFetched, hlast] at ht
    cases ht

/-- When no header was fetched yet, the calls are fresh if and only if all calls after the
first fetch come when its header expires. -/
theorem allFresh_empty_iff (hlast : before.filterMap ServedHeader.fetched = [])
    (hsorted : calls.Pairwise fun call call' => call.time ≤ call'.time) :
    AllFresh before (serve false none calls) ↔ ∀ failed call later,
      calls = failed ++ call :: later → (∀ c ∈ failed, c.answer = none) → call.answer.isSome →
        ∀ c ∈ later, c.time = call.time + 300 := by
  induction calls generalizing before with
  | nil => simp [serve, AllFresh]
  | cons call calls ih =>
    obtain ⟨hhead, htail⟩ := List.pairwise_cons.mp hsorted
    unfold serve
    rw [getFinalizedBlockHeader_empty]
    cases hanswer : call.answer with
    | none =>
      have hrest := @ih (before ++ [⟨call.time, true, none⟩])
        (by rw [List.filterMap_append, hlast]; rfl) htail
      refine (and_iff_right (fresh_asked hlast)).trans (hrest.trans
        ⟨fun h failed c later heq => ?_, fun h failed c later heq hall => ?_⟩)
      · cases failed with
        | nil =>
          cases heq
          rw [hanswer]
          exact nofun
        | cons b failed =>
          cases heq
          exact fun hall => h failed c later rfl fun b hb => hall b (List.mem_cons_of_mem _ hb)
      · refine h (call :: failed) c later (congrArg (call :: ·) heq) fun b hb => ?_
        rcases List.mem_cons.mp hb with rfl | hb
        · exact hanswer
        · exact hall b hb
    | some header =>
      have hlist : (before ++ [(⟨call.time, true, some header⟩ : ServedHeader η)]).filterMap
          ServedHeader.fetched = [(header, call.time)] := by
        rw [List.filterMap_append, hlast]
        rfl
      have hrest := @allFresh_cached_iff _ (before ++ [⟨call.time, true, some header⟩]) calls header
        call.time (by rw [lastFetched, hlist]; rfl) (by rw [hlist]; simp) hhead
      refine (and_iff_right (fresh_asked hlast)).trans (hrest.trans
        ⟨fun h failed c later heq hall _ => ?_, fun h => ?_⟩)
      · cases failed with
        | nil =>
          cases heq
          exact h
        | cons b failed =>
          cases heq
          have hb := hall call List.mem_cons_self
          rw [hanswer] at hb
          cases hb
      · exact h [] call calls rfl nofun (by rw [hanswer]; rfl)

/-- The headers that a provider serves are fresh if and only if, after the first one that it
fetched, every call comes exactly when that one expires. -/
theorem serve_allFresh_iff {calls : List (HeaderCall η)}
    (hsorted : calls.Pairwise fun call call' => call.time ≤ call'.time) :
    AllFresh [] (serve false none calls) ↔ ∀ failed call later,
      calls = failed ++ call :: later → (∀ c ∈ failed, c.answer = none) → call.answer.isSome →
        ∀ c ∈ later, c.time = call.time + 300 :=
  allFresh_empty_iff rfl hsorted

theorem serve_allFresh_twoCalls :
    AllFresh [] (serve false none [(⟨1000, some 7⟩ : HeaderCall Nat), ⟨1300, some 8⟩]) ↔
      ∀ failed call later, [(⟨1000, some 7⟩ : HeaderCall Nat), ⟨1300, some 8⟩] =
        failed ++ call :: later → (∀ c ∈ failed, c.answer = none) → call.answer.isSome →
          ∀ c ∈ later, c.time = call.time + 300 :=
  serve_allFresh_iff (by simp)

/-- A header is still returned 1000 s after it was fetched. -/
theorem serve_not_allFresh :
    ¬∀ calls : List (HeaderCall Nat), (calls.Pairwise fun call call' => call.time ≤ call'.time) →
      AllFresh [] (serve false none calls) := by
  intro h
  obtain ⟨-, hsecond, -⟩ := h [⟨1000, some 7⟩, ⟨2000, some 8⟩] (by simp)
  obtain ⟨time, hm, hle⟩ := hsecond.1 7 rfl
  have hfetched : (7, time) = (7, 1000) := List.mem_singleton.mp hm
  cases hfetched
  exact absurd hle (by decide)

end Serve

end Pochtecatl
