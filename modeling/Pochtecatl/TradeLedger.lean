import Mathlib.Data.List.Induction
import Pochtecatl.TradeController

namespace Pochtecatl

variable {α μ ε : Type}

/-- A token's position as its confirmed requests determine it: the metadata of the
open position, and the positions opened and closed before. -/
abbrev Position (μ : Type) := Option μ × List (μ × μ)

/-- An open needs no position, a close needs one. -/
def Confirmation.apply : Position μ → Confirmation μ → Option (Position μ)
  | (none, past), .opened m => some (some m, past)
  | (some m, past), .closed c => some (none, past ++ [(m, c)])
  | (some _, _), .opened _ => none
  | (none, _), .closed _ => none

/-- Sequential replay of confirmed requests. -/
def replay (confirmations : List (Confirmation μ)) : Option (Position μ) :=
  confirmations.foldlM Confirmation.apply (none, [])

def Position.trades (position : Position μ) : AddressTrades μ :=
  ⟨position.1.map .opened, position.2⟩

def Confirmation.opened? : Confirmation μ → Option μ
  | opened m => some m
  | closed _ => none

def Confirmation.closed? : Confirmation μ → Option μ
  | opened _ => none
  | closed m => some m

theorem replay_append_singleton (cs : List (Confirmation μ)) (c : Confirmation μ) :
    replay (cs ++ [c]) = (replay cs).bind fun position => c.apply position := by
  simp only [replay, List.foldlM_append, List.foldlM_cons, List.foldlM_nil, bind_pure]
  rfl

/-- Replay keeps every opened position, as the open one or closed once. -/
theorem replay_opened {cs : List (Confirmation μ)} {position : Position μ}
    (h : replay cs = some position) :
    cs.filterMap Confirmation.opened? = position.2.map Prod.fst ++ position.1.toList ∧
      cs.filterMap Confirmation.closed? = position.2.map Prod.snd := by
  induction cs using List.reverseRecOn generalizing position with
  | nil =>
    cases Option.some.inj h
    exact ⟨rfl, rfl⟩
  | append_singleton cs c ih =>
    rw [replay_append_singleton] at h
    obtain ⟨⟨held, closed⟩, hr, hc⟩ := Option.bind_eq_some_iff.mp h
    obtain ⟨hopened, hclosed⟩ := ih hr
    simp only [List.filterMap_append, hopened, hclosed]
    cases c with
    | opened m =>
      cases held with
      | some _ => simp [Confirmation.apply] at hc
      | none =>
        cases Option.some.inj hc
        simp [Confirmation.opened?, Confirmation.closed?]
    | closed m =>
      cases held with
      | none => simp [Confirmation.apply] at hc
      | some o =>
        cases Option.some.inj hc
        simp [Confirmation.opened?, Confirmation.closed?]

def PendingRequest.pending : PendingRequest μ → Trade μ
  | .open_ => .pendingOpen
  | .close _ => .pendingClose

/-- The position after a pending request is confirmed. -/
def PendingRequest.confirmed (past : List (μ × μ)) (m : μ) : PendingRequest μ → Position μ
  | .open_ => (some m, past)
  | .close openTrade => (none, past ++ [(openTrade, m)])

theorem PendingRequest.apply_confirmation {request : PendingRequest μ} {held : Option μ}
    (h : request.reverted = held.map Trade.opened) (past : List (μ × μ)) (m : μ) :
    (request.confirmation m).apply (held, past) = some (request.confirmed past m) := by
  cases request with
  | open_ =>
    cases held with
    | none => rfl
    | some o => cases h
  | close openTrade =>
    cases held with
    | none => cases h
    | some o =>
      have ho : openTrade = o := Trade.opened.inj (Option.some.inj h)
      subst ho
      rfl

namespace TradeController

variable [DecidableEq α]

/-- The confirmed requests of a token, in confirmation order. -/
def confirmedOf (s : TradeController α μ) (token : α) : List (Confirmation μ) :=
  s.confirmed.filterMap fun e => if e.1 = token then some e.2 else none

/-- A call on the token passed registration and is not resolved. -/
def Pending (s : TradeController α μ) (token : α) (id : Nat) (request : PendingRequest μ) : Prop :=
  ∃ stage, s.calls id = some ⟨token, request, stage⟩ ∧ stage ≠ .resolved

/-- No call on the token is in flight. -/
def Idle (s : TradeController α μ) (token : α) : Prop := ∀ id request, ¬s.Pending token id request

omit [DecidableEq α] in
theorem InFlight.pending {s : TradeController α μ} {id : Nat} {call : TradeCall α μ}
    (h : s.InFlight id call) : s.Pending call.token id call.request := ⟨call.stage, h⟩

omit [DecidableEq α] in
theorem pending_setCall {s : TradeController α μ} {token : α} {id id' : Nat}
    {call : TradeCall α μ} {request : PendingRequest μ} :
    (s.setCall id call).Pending token id' request ↔
      (id' = id ∧ call.token = token ∧ call.request = request ∧ call.stage ≠ .resolved) ∨
        id' ≠ id ∧ s.Pending token id' request := by
  simp only [Pending, setCall]
  by_cases h : id' = id
  · subst h
    simp only [Function.update_self, Option.some.injEq, true_and, ne_eq, not_true_eq_false,
      false_and, or_false]
    constructor
    · rintro ⟨stage, rfl, hs⟩
      exact ⟨rfl, rfl, hs⟩
    · rintro ⟨rfl, rfl, hs⟩
      exact ⟨call.stage, rfl, hs⟩
  · simp [h]

/-- The map shows a token's replayed position, or the mark of the only call on it,
which would revert to that position. -/
def Agrees (s : TradeController α μ) (token : α) : Prop :=
  ∃ held closed, replay (s.confirmedOf token) = some (held, closed) ∧
    (s.trades.view token).closed = closed ∧
    (s.Idle token ∧ (s.trades.view token).active = held.map .opened ∨
      ∃ id request, s.Pending token id request ∧
        (∀ id' request', s.Pending token id' request' → id' = id) ∧
        (s.trades token).isSome ∧ request.reverted = held.map .opened ∧
        (s.trades.view token).active = some request.pending)

/-- A step on another token changes nothing for this one. -/
theorem Agrees.frame {s s' : TradeController α μ} {token : α} (h : s.Agrees token)
    (hview : s'.trades.view token = s.trades.view token)
    (hpresent : (s.trades token).isSome → (s'.trades token).isSome)
    (hconfirmed : s'.confirmedOf token = s.confirmedOf token)
    (hpending : ∀ id request, s'.Pending token id request ↔ s.Pending token id request) :
    s'.Agrees token := by
  obtain ⟨held, closed, hr, hc, hactive⟩ := h
  refine ⟨held, closed, by rw [hconfirmed, hr], by rw [hview, hc], ?_⟩
  simp only [Idle, hpending, hview]
  exact hactive.imp_right fun ⟨id, request, hp, hu, hs, hrev, ha⟩ =>
    ⟨id, request, hp, hu, hpresent hs, hrev, ha⟩

theorem Agrees.idle_of_active {s : TradeController α μ} {token : α} (h : s.Agrees token)
    (hactive : ∀ request : PendingRequest μ,
      (s.trades.view token).active ≠ some request.pending) : s.Idle token := by
  obtain ⟨held, closed, -, -, ⟨hidle, -⟩ | ⟨id, request, -, -, -, -, ha⟩⟩ := h
  · exact hidle
  · exact absurd ha (hactive request)

theorem Agrees.idle_of_opened {s : TradeController α μ} {token : α} {m : μ} (h : s.Agrees token)
    (hactive : (s.trades.view token).active = some (.opened m)) : s.Idle token := by
  apply h.idle_of_active
  intro request
  rw [hactive]
  cases request <;> simp [PendingRequest.pending]

omit [DecidableEq α] in
/-- A call on an idle token is over. -/
theorem resolved_of_idle {s : TradeController α μ} {token : α} {id : Nat}
    {request : PendingRequest μ} {stage : CallStage} (h : s.Idle token)
    (hc : s.calls id = some ⟨token, request, stage⟩) : stage = .resolved := by
  by_contra hne
  exact h id request ⟨stage, hc, hne⟩

omit [DecidableEq α] in
/-- The pending calls on a token other than the one the call is on. -/
theorem pending_setCall_of_ne {s : TradeController α μ} {token : α} {id : Nat}
    {call : TradeCall α μ} (hne : token ≠ call.token)
    (hid : ∀ request, ¬s.Pending token id request) (id' : Nat) (request : PendingRequest μ) :
    (s.setCall id call).Pending token id' request ↔ s.Pending token id' request := by
  rw [pending_setCall]
  constructor
  · rintro (⟨-, ht, -⟩ | ⟨-, hp⟩)
    · exact absurd ht.symm hne
    · exact hp
  · intro hp
    exact Or.inr ⟨fun he => hid request (he ▸ hp), hp⟩

omit [DecidableEq α] in
theorem not_pending_of_call {s : TradeController α μ} {token : α} {id : Nat}
    {call : TradeCall α μ} (hc : s.calls id = some call) (hne : token ≠ call.token)
    (request : PendingRequest μ) : ¬s.Pending token id request := by
  rintro ⟨stage, hs, -⟩
  rw [hc] at hs
  cases Option.some.inj hs
  exact hne rfl

omit [DecidableEq α] in
theorem not_pending_of_none {s : TradeController α μ} {token : α} {id : Nat}
    (hc : s.calls id = none) (request : PendingRequest μ) : ¬s.Pending token id request := by
  rintro ⟨stage, hs, -⟩
  simp [hc] at hs

/-- In-flight calls know the position they would fall back to. -/
theorem Agrees.of_pending {s : TradeController α μ} {token : α} {id : Nat}
    {request : PendingRequest μ} (h : s.Agrees token) (hp : s.Pending token id request) :
    ∃ held closed, replay (s.confirmedOf token) = some (held, closed) ∧
      (s.trades.view token).closed = closed ∧
      (∀ id' request', s.Pending token id' request' → id' = id) ∧
      (s.trades token).isSome ∧ request.reverted = held.map .opened ∧
      (s.trades.view token).active = some request.pending := by
  obtain ⟨held, closed, hr, hc, ⟨hidle, -⟩ | ⟨id', request', hp', hu, hs, hrev, ha⟩⟩ := h
  · exact absurd hp (hidle id request)
  · have hid := hu id request hp
    subst hid
    obtain ⟨stage, hcall, -⟩ := hp
    obtain ⟨stage', hcall', -⟩ := hp'
    rw [hcall] at hcall'
    cases Option.some.inj hcall'
    exact ⟨held, closed, hr, hc, hu, hs, hrev, ha⟩

/-- A call on a token beside the pending one is over. -/
theorem Agrees.resolved_of_pending {s : TradeController α μ} {token : α} {id id' : Nat}
    {request request' : PendingRequest μ} {stage : CallStage} (h : s.Agrees token)
    (hp : s.Pending token id request) (hne : id' ≠ id)
    (hc : s.calls id' = some ⟨token, request', stage⟩) : stage = .resolved := by
  obtain ⟨-, -, -, -, hu, -⟩ := h.of_pending hp
  by_contra hstage
  exact hne (hu id' request' ⟨stage, hc, hstage⟩)

/-- An accepted registration. -/
theorem Agrees.registered {s : TradeController α μ} {token : α} {id : Nat}
    {request : PendingRequest μ} (h : ∀ token, s.Agrees token) (hid : s.calls id = none)
    (hactive : (s.trades.view token).active = request.reverted) (other : α) :
    (setCall { s with trades := s.trades.withActive token (some request.pending) } id
      ⟨token, request, .tracing⟩).Agrees other := by
  by_cases ho : other = token
  · subst ho
    have hidle := (h other).idle_of_active (fun r => by
      rw [hactive]
      cases request <;> cases r <;> simp [PendingRequest.reverted, PendingRequest.pending])
    obtain ⟨held, closed, hr, hc, ⟨-, ha⟩ | ⟨id', r, hp, -⟩⟩ := h other
    · refine ⟨held, closed, hr, by simpa [setCall] using hc, Or.inr ⟨id, request, ?_, ?_, ?_, ?_, ?_⟩⟩
      · exact pending_setCall.mpr (Or.inl ⟨rfl, rfl, rfl, by simp⟩)
      · intro id' r hp
        rcases pending_setCall.mp hp with ⟨hid', -⟩ | ⟨-, hp⟩
        · exact hid'
        · exact absurd hp (hidle id' r)
      · simp [setCall, Trades.withActive]
      · exact hactive.symm.trans ha
      · simp [setCall]
    · exact absurd hp (hidle id' r)
  · refine (h other).frame (Trades.view_withActive_of_ne _ ho) (fun hs => ?_) rfl ?_
    · simpa [setCall, Trades.withActive, Function.update_of_ne ho] using hs
    · exact pending_setCall_of_ne ho (not_pending_of_none (s := { s with trades := _ }) hid)

omit [DecidableEq α] in
/-- A call that goes on keeps the same calls pending. -/
theorem pending_advance {s : TradeController α μ} {id : Nat} {call : TradeCall α μ}
    {next : CallStage} (hcall : s.InFlight id call) (hnext : next ≠ .resolved) {token : α}
    {id' : Nat} {request : PendingRequest μ} :
    (s.setCall id { call with stage := next }).Pending token id' request ↔
      s.Pending token id' request := by
  rw [pending_setCall]
  constructor
  · rintro (⟨rfl, rfl, rfl, -⟩ | ⟨-, hp⟩)
    · exact hcall.pending
    · exact hp
  · intro hp
    by_cases hid : id' = id
    · subst hid
      obtain ⟨stage, hs, -⟩ := hp
      rw [hcall.1] at hs
      cases Option.some.inj hs
      exact Or.inl ⟨rfl, rfl, rfl, hnext⟩
    · exact Or.inr ⟨hid, hp⟩

theorem Agrees.advanced {s : TradeController α μ} {id : Nat} {call : TradeCall α μ}
    {next : CallStage} (h : ∀ token, s.Agrees token) (hcall : s.InFlight id call)
    (hnext : next ≠ .resolved) (token : α) :
    (s.setCall id { call with stage := next }).Agrees token :=
  (h token).frame rfl (fun hs => hs) rfl fun _ _ => pending_advance hcall hnext

/-- A resolution leaves its token idle at a replayed position. -/
theorem Agrees.resolved {s s' : TradeController α μ} {id : Nat} {call : TradeCall α μ}
    (h : ∀ token, s.Agrees token) (hcall : s.InFlight id call)
    (hcalls : s'.calls = (s.setCall id { call with stage := .resolved }).calls)
    (hother : ∀ token, token ≠ call.token →
      s'.trades token = s.trades token ∧ s'.confirmedOf token = s.confirmedOf token)
    (hself : ∃ position, replay (s'.confirmedOf call.token) = some position ∧
      s'.trades.view call.token = position.trades) (token : α) : s'.Agrees token := by
  have hpending : ∀ token id' request, s'.Pending token id' request ↔
      (s.setCall id { call with stage := .resolved }).Pending token id' request := by
    simp only [Pending, hcalls, implies_true]
  by_cases ht : token = call.token
  · subst ht
    obtain ⟨⟨held, past⟩, hr, hv⟩ := hself
    obtain ⟨-, -, -, -, hu, -⟩ := (h call.token).of_pending hcall.pending
    refine ⟨held, past, hr, by rw [hv]; rfl, Or.inl ⟨fun id' request hp => ?_, by rw [hv]; rfl⟩⟩
    rcases pending_setCall.mp ((hpending _ _ _).mp hp) with ⟨-, -, -, hs⟩ | ⟨hne, hp⟩
    · exact hs rfl
    · exact hne (hu id' request hp)
  · obtain ⟨htrades, hconfirmed⟩ := hother token ht
    refine (h token).frame (by rw [Trades.view, htrades]; rfl) (fun hs => by rwa [htrades])
      hconfirmed fun id' request => ?_
    rw [hpending]
    exact @pending_setCall_of_ne _ _ s token id { call with stage := .resolved } ht
      (not_pending_of_call hcall.1 ht) id' request

omit [DecidableEq α] in
theorem resolve_trades {s : TradeController α μ} {id : Nat} {call : TradeCall α μ}
    {resolvedBy : ResolvedBy} {effect : TradesM α μ Unit} {trades : Trades α μ}
    (h : effect s.trades = .ok () trades) :
    s.resolve id call resolvedBy effect =
      { s.setCall id { call with stage := .resolved } with
        trades := trades
        resolutions := s.resolutions ++ [⟨id, resolvedBy, .ok ()⟩] } := by
  simp only [resolve, h, EStateM.Result.state_ok]

theorem revert_eq {s : TradeController α μ} {id : Nat} {call : TradeCall α μ}
    (h : ∀ token, s.Agrees token) (hcall : s.InFlight id call) :
    Trades.revert call.token call.request s.trades =
      .ok () (s.trades.withActive call.token call.request.reverted) := by
  obtain ⟨-, -, -, -, -, hs, -⟩ := (h call.token).of_pending hcall.pending
  exact Trades.revert_of_present hs call.request

theorem Agrees.failed {s : TradeController α μ} {id : Nat} {call : TradeCall α μ}
    {resolvedBy : ResolvedBy} (h : ∀ token, s.Agrees token) (hcall : s.InFlight id call)
    (token : α) :
    (s.resolve id call resolvedBy (Trades.revert call.token call.request)).Agrees token := by
  rw [resolve_trades (revert_eq h hcall)]
  refine Agrees.resolved h hcall (by rfl) (fun other ho => ⟨?_, by rfl⟩) ?_ token
  · exact Function.update_of_ne ho _ _
  · obtain ⟨held, past, hr, hc, -, -, hrev, -⟩ := (h call.token).of_pending hcall.pending
    exact ⟨(held, past), hr, by simp [Position.trades, hrev, hc]⟩

/-- The callback on a token that is in the map: an error reverts the request, metadata
confirms it. -/
theorem onConfirmed_of_present {trades : Trades α μ} {token : α} (h : (trades token).isSome)
    (request : PendingRequest μ) (result : Except ε μ) :
    ∃ trades', Trades.onConfirmed token request result trades = .ok () trades' ∧
      (∀ other, other ≠ token → trades' other = trades other) ∧
      trades'.view token = match result with
        | .ok m => (request.confirmed (trades.view token).closed m).trades
        | .error _ => { trades.view token with active := request.reverted } := by
  cases result with
  | error e =>
    refine ⟨_, Trades.revert_of_present h request, fun other ho => ?_, ?_⟩
    · exact Function.update_of_ne ho _ _
    · exact Trades.view_withActive_self _
  | ok m =>
    cases request with
    | open_ =>
      refine ⟨_, Trades.setActive_of_present h (some (.opened m)), fun other ho => ?_, ?_⟩
      · exact Function.update_of_ne ho _ _
      · simp [PendingRequest.confirmed, Position.trades]
    | close openTrade =>
      refine ⟨_, Trades.close_of_present h openTrade m, fun other ho => ?_, ?_⟩
      · exact Function.update_of_ne ho _ _
      · rw [Trades.view_update_self]
        simp [PendingRequest.confirmed, Position.trades, AddressTrades.close]

theorem onConfirmed_eq {s : TradeController α μ} {id : Nat} {call : TradeCall α μ}
    (h : ∀ token, s.Agrees token) (hcall : s.InFlight id call) (m : μ) :
    ∃ trades, Trades.onConfirmed call.token call.request (.ok m : Except ε μ) s.trades =
        .ok () trades ∧
      (∀ token, token ≠ call.token → trades token = s.trades token) ∧
      trades.view call.token =
        (call.request.confirmed (s.trades.view call.token).closed m).trades := by
  obtain ⟨-, -, -, -, -, hs, -⟩ := (h call.token).of_pending hcall.pending
  exact onConfirmed_of_present hs call.request (.ok m)

theorem confirmedOf_append (s : TradeController α μ) (token other : α) (c : Confirmation μ) :
    confirmedOf { s with confirmed := s.confirmed ++ [(token, c)] } other =
      s.confirmedOf other ++ if token = other then [c] else [] := by
  simp only [confirmedOf, List.filterMap_append]
  by_cases h : token = other <;> simp [h]

theorem Agrees.confirmed {s : TradeController α μ} {id : Nat} {call : TradeCall α μ} {m : μ}
    (h : ∀ token, s.Agrees token) (hcall : s.InFlight id call) (token : α) :
    (s.finish id call (.ok m : Except ε μ)).Agrees token := by
  obtain ⟨trades, heffect, hother, hself⟩ := onConfirmed_eq (ε := ε) h hcall m
  have hfinish : s.finish id call (.ok m : Except ε μ) =
      { s.setCall id { call with stage := .resolved } with
        trades := trades
        resolutions := s.resolutions ++ [⟨id, .callback, .ok ()⟩]
        confirmed := s.confirmed ++ [(call.token, call.request.confirmation m)] } := by
    simp only [finish, resolve_trades heffect]
  rw [hfinish]
  refine Agrees.resolved h hcall (by rfl) (fun other ho => ⟨hother other ho, ?_⟩) ?_ token
  · exact (confirmedOf_append s _ _ _).trans (by simp [Ne.symm ho])
  · obtain ⟨held, past, hr, hc, -, -, hrev, -⟩ := (h call.token).of_pending hcall.pending
    refine ⟨call.request.confirmed past m, ?_, by rw [← hc]; exact hself⟩
    refine (congrArg replay (confirmedOf_append s _ _ _)).trans ?_
    rw [if_pos rfl, replay_append_singleton, hr]
    exact PendingRequest.apply_confirmation hrev past m

theorem new_agrees (token : α) : (new : TradeController α μ).Agrees token :=
  ⟨none, [], rfl, rfl, Or.inl ⟨fun id request ⟨stage, hs, _⟩ => by simp [new] at hs, rfl⟩⟩

theorem step_agrees {mode : ControllerMode} {s s' : TradeController α μ}
    {a : ControllerStep α μ ε} (h : ∀ token, s.Agrees token) (hstep : s.step mode a = some s')
    (token : α) : s'.Agrees token := by
  cases step_case hstep with
  | rejected hid _ hsame =>
    exact (h token).frame (hsame.view token) (hsame.present token) rfl fun _ _ => Iff.rfl
  | opened hid hactive => exact @Agrees.registered _ _ _ s _ _ .open_ h hid hactive token
  | closing hid hactive => exact @Agrees.registered _ _ _ s _ _ (.close _) h hid hactive token
  | advanced hcall _ hnext => exact Agrees.advanced h hcall hnext token
  | failed hcall => exact Agrees.failed h hcall token
  | confirmed hcall => exact Agrees.confirmed h hcall token

theorem run_agrees {mode : ControllerMode} {as : List (ControllerStep α μ ε)}
    {s : TradeController α μ} (h : (machine α μ ε mode).run new as = some s) (token : α) :
    s.Agrees token :=
  Machine.run_invariant (I := fun s => ∀ token, s.Agrees token)
    (fun _ _ _ hs hstep => step_agrees hs hstep) h new_agrees token

end TradeController

end Pochtecatl
