import Pochtecatl.TradeLedger

namespace Pochtecatl

namespace TradeController

variable {α μ ε : Type} [DecidableEq α]

/-- A step writes the call it belongs to and no other. -/
theorem step_calls {mode : ControllerMode} {s s' : TradeController α μ}
    {a : ControllerStep α μ ε} (h : s.step mode a = some s') :
    s'.calls = s.calls ∨ ∃ call, s'.calls = Function.update s.calls a.id (some call) ∧
      (s.calls a.id = none ∨ ∃ old, s.InFlight a.id old ∧ call.token = old.token ∧
        call.request = old.request) := by
  cases step_case h with
  | rejected hid _ hsame => exact Or.inl rfl
  | opened hid => exact Or.inr ⟨_, rfl, Or.inl hid⟩
  | closing hid => exact Or.inr ⟨_, rfl, Or.inl hid⟩
  | advanced hcall => exact Or.inr ⟨_, rfl, Or.inr ⟨_, hcall, rfl, rfl⟩⟩
  | failed hcall => exact Or.inr ⟨_, rfl, Or.inr ⟨_, hcall, rfl, rfl⟩⟩
  | confirmed hcall => exact Or.inr ⟨_, rfl, Or.inr ⟨_, hcall, rfl, rfl⟩⟩

/-- A call after a step was there before with its token, or the step registers it. -/
theorem step_token {mode : ControllerMode} {s s' : TradeController α μ}
    {a : ControllerStep α μ ε} (h : s.step mode a = some s') {id : Nat} {call : TradeCall α μ}
    (hc : s'.calls id = some call) : (∃ old, s.calls id = some old ∧ old.token = call.token) ∨
      id = a.id ∧ (a = .openPosition a.id call.token ∨ a = .closePosition a.id call.token) := by
  have hupdated : ∀ {new : TradeCall α μ}, Function.update s.calls a.id (some new) id = some call →
      id ≠ a.id ∧ s.calls id = some call ∨ id = a.id ∧ new = call := by
    intro new hnew
    by_cases hid : id = a.id
    · rw [hid, Function.update_self] at hnew
      exact Or.inr ⟨hid, Option.some.inj hnew⟩
    · rw [Function.update_of_ne hid] at hnew
      exact Or.inl ⟨hid, hnew⟩
  cases step_case h with
  | rejected hid _ hsame => exact Or.inl ⟨call, hc, rfl⟩
  | opened hid hactive htoken ha =>
    rcases hupdated hc with ⟨-, hold⟩ | ⟨hid', rfl⟩
    · exact Or.inl ⟨call, hold, rfl⟩
    · exact Or.inr ⟨hid', Or.inl ha⟩
  | closing hid hactive htoken ha =>
    rcases hupdated hc with ⟨-, hold⟩ | ⟨hid', rfl⟩
    · exact Or.inl ⟨call, hold, rfl⟩
    · exact Or.inr ⟨hid', Or.inr ha⟩
  | advanced hcall =>
    rcases hupdated hc with ⟨-, hold⟩ | ⟨rfl, rfl⟩
    · exact Or.inl ⟨call, hold, rfl⟩
    · exact Or.inl ⟨_, hcall.1, rfl⟩
  | failed hcall =>
    rcases hupdated hc with ⟨-, hold⟩ | ⟨rfl, rfl⟩
    · exact Or.inl ⟨call, hold, rfl⟩
    · exact Or.inl ⟨_, hcall.1, rfl⟩
  | confirmed hcall =>
    rcases hupdated hc with ⟨-, hold⟩ | ⟨rfl, rfl⟩
    · exact Or.inl ⟨call, hold, rfl⟩
    · exact Or.inl ⟨_, hcall.1, rfl⟩

/-- Only a confirmed transaction is recorded. -/
theorem step_confirmed {mode : ControllerMode} {s s' : TradeController α μ}
    {a : ControllerStep α μ ε} (h : s.step mode a = some s') : s'.confirmed = s.confirmed ∨
      ∃ id call m, a = .confirm id (.ok m) ∧ s.calls id = some call ∧
        s'.confirmed = s.confirmed ++ [(call.token, call.request.confirmation m)] := by
  cases step_case h with
  | rejected => exact Or.inl rfl
  | opened => exact Or.inl rfl
  | closing => exact Or.inl rfl
  | advanced => exact Or.inl rfl
  | failed => exact Or.inl rfl
  | confirmed hcall _ ha => exact Or.inr ⟨_, _, _, ha, hcall.1, rfl⟩

/-- A registered call keeps its token and request, and stays resolved. -/
theorem step_call {mode : ControllerMode} {s s' : TradeController α μ}
    {a : ControllerStep α μ ε} (h : s.step mode a = some s') {id : Nat} {call : TradeCall α μ}
    (hc : s.calls id = some call) : ∃ stage, s'.calls id = some ⟨call.token, call.request, stage⟩ ∧
      (call.stage = .resolved → stage = .resolved) := by
  rcases step_calls h with he | ⟨new, he, hnew⟩
  · exact ⟨call.stage, by rw [he, hc], fun hs => hs⟩
  · by_cases hid : id = a.id
    · subst hid
      rcases hnew with hn | ⟨old, hold, ht, hr⟩
      · rw [hc] at hn
        cases hn
      · have : call = old := Option.some.inj (hc.symm.trans hold.1)
        subst this
        refine ⟨new.stage, ?_, fun hs => absurd hs hold.2⟩
        rw [he, Function.update_self, ← ht, ← hr]
    · exact ⟨call.stage, by rw [he, Function.update_of_ne hid, hc], fun hs => hs⟩

theorem run_call {mode : ControllerMode} {as : List (ControllerStep α μ ε)}
    {s s' : TradeController α μ} (h : (machine α μ ε mode).run s as = some s') {id : Nat}
    {call : TradeCall α μ} (hc : s.calls id = some call) :
    ∃ stage, s'.calls id = some ⟨call.token, call.request, stage⟩ ∧
      (call.stage = .resolved → stage = .resolved) := by
  induction as generalizing s call with
  | nil => exact ⟨call.stage, by rw [← Option.some.inj h, hc], fun hs => hs⟩
  | cons a as ih =>
    obtain ⟨t, ht, hr⟩ := Machine.run_cons_eq_some.mp h
    obtain ⟨stage, hs, hres⟩ := step_call ht hc
    obtain ⟨stage', hs', hres'⟩ := ih hr hs
    exact ⟨stage', hs', fun he => hres' (hres he)⟩

/-- While a call is pending, nothing else is confirmed for its token. -/
theorem step_confirmedOf {mode : ControllerMode} {s s' : TradeController α μ}
    {a : ControllerStep α μ ε} (hs : ∀ token, s.Agrees token) (h : s.step mode a = some s')
    {token : α} {id : Nat} {request : PendingRequest μ} (hp : s.Pending token id request)
    (hp' : s'.Pending token id request) : s'.confirmedOf token = s.confirmedOf token := by
  cases step_case h with
  | rejected hid _ hsame => rfl
  | opened hid => rfl
  | closing hid => rfl
  | advanced hcall => rfl
  | failed hcall => rfl
  | @confirmed call m hcall htoken =>
    by_cases ht : call.token = token
    · subst ht
      obtain ⟨-, -, -, -, hu, -⟩ := (hs call.token).of_pending hp
      have hid := hu _ _ hcall.pending
      have hgone : (s.finish a.id call (.ok m : Except ε μ)).calls id =
          some { call with stage := .resolved } := by
        rw [← hid]
        exact Function.update_self _ _ _
      obtain ⟨stage, hc, hne⟩ := hp'
      rw [hgone] at hc
      cases Option.some.inj hc
      exact absurd rfl hne
    · exact (confirmedOf_append s _ _ _).trans (by simp [ht])

theorem run_confirmedOf {mode : ControllerMode} {as : List (ControllerStep α μ ε)}
    {s s' : TradeController α μ} (hs : ∀ token, s.Agrees token)
    (h : (machine α μ ε mode).run s as = some s') {token : α} {id : Nat}
    {request : PendingRequest μ} (hp : s.Pending token id request)
    (hp' : s'.Pending token id request) : s'.confirmedOf token = s.confirmedOf token := by
  induction as generalizing s with
  | nil => rw [Option.some.inj h]
  | cons a as ih =>
    obtain ⟨t, ht, hr⟩ := Machine.run_cons_eq_some.mp h
    obtain ⟨stage, hc, hpend⟩ := hp
    obtain ⟨stage', hc', -⟩ := step_call ht hc
    -- a call resolved on the way would still be resolved at the end
    have hpt : t.Pending token id request := by
      refine ⟨stage', hc', fun hres => ?_⟩
      obtain ⟨last, hlast, hres'⟩ := run_call hr hc'
      obtain ⟨stage'', hc'', hne⟩ := hp'
      rw [hlast] at hc''
      cases Option.some.inj hc''
      exact hne (hres' hres)
    rw [ih (step_agrees hs ht) hr hpt, step_confirmedOf hs ht ⟨stage, hc, hpend⟩ hpt]

/-- A step leaves the other tokens alone. -/
theorem step_view_of_ne {mode : ControllerMode} {s s' : TradeController α μ}
    {a : ControllerStep α μ ε} (hs : ∀ token, s.Agrees token) (h : s.step mode a = some s')
    {token : α} (ht : s.tokenOf a ≠ some token) : s'.trades.view token = s.trades.view token := by
  cases step_case h with
  | rejected hid _ hsame => exact hsame.view token
  | opened hid hactive htoken =>
    exact Trades.view_withActive_of_ne _ fun he => ht (he ▸ htoken)
  | closing hid hactive htoken =>
    exact Trades.view_withActive_of_ne _ fun he => ht (he ▸ htoken)
  | advanced hcall => rfl
  | failed hcall htoken =>
    rw [resolve_trades (revert_eq hs hcall)]
    exact Trades.view_withActive_of_ne _ fun he => ht (he ▸ htoken)
  | @confirmed call m hcall htoken =>
    obtain ⟨trades, heffect, hother, -⟩ := onConfirmed_eq (ε := ε) hs hcall m
    simp only [finish, resolve_trades heffect]
    rw [Trades.view, hother token fun he => ht (he ▸ htoken), Trades.view]

/-- A registration that passed leaves its call pending and kept the token's position. -/
theorem step_registered {mode : ControllerMode} {s s' : TradeController α μ}
    {a : ControllerStep α μ ε} (h : s.step mode a = some s') (hid : s.calls a.id = none)
    {call : TradeCall α μ} (hc : s'.calls a.id = some call) :
    s'.Pending call.token a.id call.request ∧
      (s.trades.view call.token).active = call.request.reverted ∧
      (s'.trades.view call.token).closed = (s.trades.view call.token).closed ∧
      s'.confirmed = s.confirmed := by
  cases step_case h with
  | rejected hid' _ hsame =>
    change s.calls a.id = some call at hc
    rw [hid] at hc
    cases hc
  | opened hid' hactive =>
    change Function.update _ _ _ _ = _ at hc
    rw [Function.update_self] at hc
    cases Option.some.inj hc
    exact ⟨pending_setCall.mpr (Or.inl ⟨rfl, rfl, rfl, by simp⟩), hactive, by simp [setCall], rfl⟩
  | closing hid' hactive =>
    change Function.update _ _ _ _ = _ at hc
    rw [Function.update_self] at hc
    cases Option.some.inj hc
    exact ⟨pending_setCall.mpr (Or.inl ⟨rfl, rfl, rfl, by simp⟩), hactive, by simp [setCall], rfl⟩
  | advanced hcall => cases hid.symm.trans hcall.1
  | failed hcall => cases hid.symm.trans hcall.1
  | confirmed hcall => cases hid.symm.trans hcall.1

/-- A failed request, at whatever stage, leaves its token as its registration found it. -/
theorem failed_view {mode : ControllerMode} {ys : List (ControllerStep α μ ε)}
    {s s₁ s₂ s₃ : TradeController α μ} {a b : ControllerStep α μ ε} {call : TradeCall α μ}
    (hs : ∀ token, s.Agrees token) (hid : s.calls a.id = none) (ha : s.step mode a = some s₁)
    (hc : s₁.calls a.id = some call) (hys : (machine α μ ε mode).run s₁ ys = some s₂)
    (hb : s₂.step mode b = some s₃) (hba : b.id = a.id) (hfails : b.Fails) :
    s₃.trades.view call.token = s.trades.view call.token ∧
      (s.trades.view call.token).active = call.request.reverted := by
  obtain ⟨hp₁, hactive, hclosed, hconf⟩ := step_registered ha hid hc
  have hs₁ := fun token => step_agrees hs ha token
  have hs₂ : ∀ token, s₂.Agrees token := Machine.run_invariant
    (I := fun s => ∀ token, s.Agrees token) (fun _ _ _ hs hstep => step_agrees hs hstep) hys hs₁
  obtain ⟨last, resolvedBy, hlast, rfl⟩ := step_fails hb hfails
  obtain ⟨stage, hc₂, -⟩ := run_call hys hc
  rw [← hba] at hc₂
  have hcall : last = ⟨call.token, call.request, stage⟩ :=
    Option.some.inj (hlast.1.symm.trans hc₂)
  subst hcall
  have hp₂ : s₂.Pending call.token a.id call.request := hba ▸ hlast.pending
  have hsame : s₂.confirmedOf call.token = s.confirmedOf call.token := by
    rw [run_confirmedOf hs₁ hys hp₁ hp₂, confirmedOf, hconf, confirmedOf]
  obtain ⟨held, past, hr, hpast, -⟩ := hs call.token
  obtain ⟨held₂, past₂, hr₂, hpast₂, -⟩ := (hs₂ call.token).of_pending hp₂
  rw [hsame, hr] at hr₂
  obtain ⟨rfl, rfl⟩ : held = held₂ ∧ past = past₂ := by simpa using hr₂
  refine ⟨?_, hactive⟩
  rw [resolve_trades (revert_eq hs₂ hlast)]
  simp only [Trades.view_withActive_self, hpast₂, ← hactive, ← hpast]

/-- The ledger under any interleaving: an idle token shows the replay of its confirmed
requests, with every opened position open or closed once; a step touches only its own
token; rejected and failed requests leave no trace. -/
theorem ledger_atomic {mode : ControllerMode} {as : List (ControllerStep α μ ε)}
    {s : TradeController α μ} (h : (machine α μ ε mode).run new as = some s) :
    (∀ token, s.Idle token → ∃ position, replay (s.confirmedOf token) = some position ∧
      s.trades.view token = position.trades ∧
      (s.confirmedOf token).filterMap Confirmation.opened? =
        position.2.map Prod.fst ++ position.1.toList ∧
      (s.confirmedOf token).filterMap Confirmation.closed? = position.2.map Prod.snd) ∧
    (∀ (a : ControllerStep α μ ε) s', s.step mode a = some s' → ∀ token,
      s.tokenOf a ≠ some token →
      s'.trades.view token = s.trades.view token) ∧
    (∀ (a : ControllerStep α μ ε) s', s.step mode a = some s' → s'.calls a.id = none →
      ∀ token, s'.trades.view token = s.trades.view token) ∧
    ∀ (a : ControllerStep α μ ε) s₁ call ys s₂ (b : ControllerStep α μ ε) s₃, s.calls a.id = none → s.step mode a = some s₁ →
      s₁.calls a.id = some call → (machine α μ ε mode).run s₁ ys = some s₂ →
      s₂.step mode b = some s₃ → b.id = a.id → b.Fails →
      s₃.trades.view call.token = s.trades.view call.token ∧
        (s.trades.view call.token).active = call.request.reverted := by
  have hs := fun token => run_agrees h token
  refine ⟨fun token hidle => ?_, fun a s' hstep token ht => step_view_of_ne hs hstep ht,
    fun a s' hstep hnone token => ?_, fun a s₁ call ys s₂ b s₃ hid ha hc hys hb hba hfails =>
      failed_view hs hid ha hc hys hb hba hfails⟩
  · obtain ⟨held, past, hr, hpast, ⟨-, hactive⟩ | ⟨id, request, hp, -⟩⟩ := hs token
    · obtain ⟨hopened, hclosed⟩ := replay_opened hr
      refine ⟨(held, past), hr, ?_, hopened, hclosed⟩
      rw [Position.trades, ← hactive, ← hpast]
    · exact absurd hp (hidle id request)
  · cases step_case hstep with
    | rejected hid _ hsame => exact hsame.view token
    | opened hid => simp [setCall] at hnone
    | closing hid => simp [setCall] at hnone
    | advanced hcall => simp [setCall] at hnone
    | failed hcall => simp [resolve, setCall] at hnone
    | confirmed hcall => simp [finish, resolve, setCall] at hnone

/-- An open, then a close that fails its trace. -/
def openThenFailedClose : List (ControllerStep Nat Nat Unit) :=
  [.openPosition 0 7, .trace 0 (.ok ()), .makeTradeTransactionRequest 0 (.ok ()),
    .send 0 (.ok ()), .confirm 0 (.ok 100), .closePosition 1 7, .trace 1 (.error ())]

theorem ledger_atomic_after_failed_close :
    ∃ s, (machine Nat Nat Unit .live).run new openThenFailedClose = some s ∧
      (s.trades.view 7).active = some (.opened 100) ∧
      ∃ position, replay (s.confirmedOf 7) = some position ∧
        s.trades.view 7 = position.trades := by
  have hreplay : ∀ s, (machine Nat Nat Unit .live).run new openThenFailedClose = some s →
      (s.trades.view 7).active = some (.opened 100) →
      ∃ position, replay (s.confirmedOf 7) = some position ∧
        s.trades.view 7 = position.trades := by
    intro s hr ha
    have hidle : s.Idle 7 := (run_agrees hr 7).idle_of_opened ha
    obtain ⟨position, hp, hv, -⟩ := (ledger_atomic hr).1 7 hidle
    exact ⟨position, hp, hv⟩
  exact ⟨_, rfl, rfl, hreplay _ rfl rfl⟩

/-- A registered call is resolved once it is over and not before, without an error. -/
structure Accounted (s : TradeController α μ) : Prop where
  registered : ∀ id call, s.calls id = some call →
    s.resolutions.countP (·.id = id) = if call.stage = .resolved then 1 else 0
  unregistered : ∀ id, s.calls id = none → s.resolutions.countP (·.id = id) = 0
  succeeded : ∀ e ∈ s.resolutions, e.result = .ok ()

omit [DecidableEq α] in
theorem Accounted.setCall {s : TradeController α μ} {id : Nat} {call : TradeCall α μ}
    (h : s.Accounted) (hold : s.calls id = none ∨ ∃ old, s.InFlight id old)
    (hstage : call.stage ≠ .resolved) : (s.setCall id call).Accounted := by
  have hzero : s.resolutions.countP (·.id = id) = 0 := by
    rcases hold with hn | ⟨old, hc, hs⟩
    · exact h.unregistered id hn
    · simpa [hs] using h.registered id old hc
  refine ⟨fun id' call' hc => ?_, fun id' hc => ?_, h.succeeded⟩
  · simp only [TradeController.setCall] at hc ⊢
    by_cases hid : id' = id
    · subst hid
      rw [Function.update_self] at hc
      cases Option.some.inj hc
      rw [if_neg hstage, hzero]
    · rw [Function.update_of_ne hid] at hc
      exact h.registered id' call' hc
  · simp only [TradeController.setCall] at hc ⊢
    by_cases hid : id' = id
    · subst hid
      simp at hc
    · rw [Function.update_of_ne hid] at hc
      exact h.unregistered id' hc

omit [DecidableEq α] in
theorem Accounted.resolved {s s' : TradeController α μ} {id : Nat} {call : TradeCall α μ}
    {resolvedBy : ResolvedBy} (h : s.Accounted) (hcall : s.InFlight id call)
    (hcalls : s'.calls = Function.update s.calls id (some { call with stage := .resolved }))
    (hres : s'.resolutions = s.resolutions ++ [⟨id, resolvedBy, .ok ()⟩]) : s'.Accounted := by
  have hzero : s.resolutions.countP (·.id = id) = 0 := by
    simpa [hcall.2] using h.registered id call hcall.1
  refine ⟨fun id' call' hc => ?_, fun id' hc => ?_, fun e he => ?_⟩
  · rw [hcalls] at hc
    rw [hres, List.countP_append]
    by_cases hid : id' = id
    · subst hid
      rw [Function.update_self] at hc
      cases Option.some.inj hc
      simp [hzero]
    · rw [Function.update_of_ne hid] at hc
      simpa [Ne.symm hid] using h.registered id' call' hc
  · rw [hcalls] at hc
    rw [hres, List.countP_append]
    by_cases hid : id' = id
    · subst hid
      simp at hc
    · rw [Function.update_of_ne hid] at hc
      simpa [Ne.symm hid] using h.unregistered id' hc
  · rw [hres] at he
    rcases List.mem_append.mp he with he | he
    · exact h.succeeded e he
    · rw [List.mem_singleton.mp he]

theorem step_accounted {mode : ControllerMode} {s s' : TradeController α μ}
    {a : ControllerStep α μ ε} (hs : ∀ token, s.Agrees token) (h : s.Accounted)
    (hstep : s.step mode a = some s') : s'.Accounted := by
  cases step_case hstep with
  | rejected hid _ hsame => exact ⟨h.registered, h.unregistered, h.succeeded⟩
  | opened hid => exact Accounted.setCall ⟨h.registered, h.unregistered, h.succeeded⟩ (Or.inl hid) (by simp)
  | closing hid => exact Accounted.setCall ⟨h.registered, h.unregistered, h.succeeded⟩ (Or.inl hid) (by simp)
  | advanced hcall _ hnext => exact h.setCall (Or.inr ⟨_, hcall⟩) hnext
  | failed hcall =>
    rw [resolve_trades (revert_eq hs hcall)]
    exact h.resolved hcall (by rfl) (by rfl)
  | @confirmed call m hcall =>
    obtain ⟨trades, heffect, -⟩ := onConfirmed_eq (ε := ε) hs hcall m
    simp only [finish, resolve_trades heffect]
    exact h.resolved hcall (by rfl) (by rfl)

theorem run_accounted {mode : ControllerMode} {as : List (ControllerStep α μ ε)}
    {s : TradeController α μ} (h : (machine α μ ε mode).run new as = some s) : s.Accounted := by
  have hboth := Machine.run_invariant
    (I := fun s : TradeController α μ => (∀ token, s.Agrees token) ∧ s.Accounted)
    (fun _ _ _ hs hstep => ⟨step_agrees hs.1 hstep, step_accounted hs.1 hs.2 hstep⟩) h
    ⟨new_agrees, fun id call hc => by simp [new] at hc, fun _ _ => rfl, by simp [new]⟩
  exact hboth.2

/-- The mark of a token is the mark of the request pending on it. -/
theorem Agrees.active_eq_pending_iff {s : TradeController α μ} {token : α} (h : s.Agrees token)
    {mark : Trade μ} (hmark : ∀ m, mark ≠ .opened m) :
    (s.trades.view token).active = some mark ↔
      ∃ id request, s.Pending token id request ∧ request.pending = mark := by
  constructor
  · intro ha
    obtain ⟨held, past, -, -, ⟨-, hactive⟩ | ⟨id, request, hp, -, -, -, hactive⟩⟩ := h
    · rw [hactive] at ha
      obtain ⟨m, -, hm⟩ := Option.map_eq_some_iff.mp ha
      exact absurd hm.symm (hmark m)
    · exact ⟨id, request, hp, Option.some.inj (hactive.symm.trans ha)⟩
  · rintro ⟨id, request, hp, rfl⟩
    obtain ⟨-, -, -, -, -, -, -, hactive⟩ := h.of_pending hp
    exact hactive

/-- Requests exclude each other per token: at most one call is pending, the mark tells
which kind it is, a pending close holds the metadata of the position it replaced, and each
call is resolved once, without an error. -/
theorem requests_exclusive {mode : ControllerMode} {as : List (ControllerStep α μ ε)}
    {s : TradeController α μ} (h : (machine α μ ε mode).run new as = some s) :
    (∀ token id request id' request', s.Pending token id request →
      s.Pending token id' request' → id = id' ∧ request = request') ∧
    (∀ token, (s.trades.view token).active = some .pendingOpen ↔
      ∃ id, s.Pending token id .open_) ∧
    (∀ token, (s.trades.view token).active = some .pendingClose ↔
      ∃ id m, s.Pending token id (.close m)) ∧
    (∀ (a : ControllerStep α μ ε) s₁ ys s₂ token m, s.calls a.id = none →
      s.step mode a = some s₁ → (s₁.calls a.id).isSome →
      (machine α μ ε mode).run s₁ ys = some s₂ → s₂.Pending token a.id (.close m) →
      (s.trades.view token).active = some (.opened m)) ∧
    (∀ id call, s.calls id = some call →
      s.resolutions.countP (·.id = id) = if call.stage = .resolved then 1 else 0) ∧
    ∀ e ∈ s.resolutions, e.result = .ok () := by
  have hs := fun token => run_agrees h token
  have hacc := run_accounted h
  refine ⟨fun token id request id' request' hp hp' => ?_, fun token => ?_, fun token => ?_,
    fun a s₁ ys s₂ token m hid ha hsome hys hp => ?_, hacc.registered, hacc.succeeded⟩
  · obtain ⟨-, -, -, -, hu, -⟩ := (hs token).of_pending hp'
    have hid := hu id request hp
    subst hid
    obtain ⟨stage, hc, -⟩ := hp
    obtain ⟨stage', hc', -⟩ := hp'
    rw [hc] at hc'
    cases Option.some.inj hc'
    exact ⟨rfl, rfl⟩
  · rw [(hs token).active_eq_pending_iff (by simp)]
    constructor
    · rintro ⟨id, request, hp, hr⟩
      cases request with
      | open_ => exact ⟨id, hp⟩
      | close m => cases hr
    · rintro ⟨id, hp⟩
      exact ⟨id, _, hp, rfl⟩
  · rw [(hs token).active_eq_pending_iff (by simp)]
    constructor
    · rintro ⟨id, request, hp, hr⟩
      cases request with
      | open_ => cases hr
      | close m => exact ⟨id, m, hp⟩
    · rintro ⟨id, m, hp⟩
      exact ⟨id, _, hp, rfl⟩
  · obtain ⟨⟨token', request, stage₁⟩, hc⟩ := Option.isSome_iff_exists.mp hsome
    obtain ⟨-, hactive, -⟩ := step_registered ha hid hc
    obtain ⟨stage, hlast, -⟩ := run_call hys hc
    obtain ⟨stage', hp', -⟩ := hp
    rw [hlast] at hp'
    cases Option.some.inj hp'
    exact hactive

theorem requests_exclusive_while_closing :
    ∃ s, (machine Nat Nat Unit .live).run new (openThenFailedClose.take 6) = some s ∧
      ∃ id m, s.Pending 7 id (.close m) := by
  have hclosing : ∀ s, (machine Nat Nat Unit .live).run new (openThenFailedClose.take 6) = some s →
      (s.trades.view 7).active = some .pendingClose → ∃ id m, s.Pending 7 id (.close m) :=
    fun s hr ha => ((requests_exclusive hr).2.2.1 7).mp ha
  exact ⟨_, rfl, hclosing _ rfl rfl⟩

end TradeController

end Pochtecatl
