import Pochtecatl.Machine
import Pochtecatl.Trades

namespace Pochtecatl

/-- How the process runs: under `cfg!(test)`, as a backtest, or against the chain. -/
inductive ControllerMode where
  | test
  | backtest
  | live
  deriving DecidableEq

/-- Where a call that passed registration stands. -/
inductive CallStage where
  | tracing
  | requesting
  | sending
  | confirming
  | resolved
  deriving DecidableEq

structure TradeCall (α μ : Type) where
  token : α
  request : PendingRequest μ
  stage : CallStage

/-- A confirmed request, with the metadata of its transaction. -/
inductive Confirmation (μ : Type) where
  | opened (metadata : μ)
  | closed (metadata : μ)

def PendingRequest.confirmation {μ : Type} : PendingRequest μ → μ → Confirmation μ
  | .open_, m => .opened m
  | .close _, m => .closed m

/-- What ends a call: the error it returns, or its confirmation callback. -/
inductive ResolvedBy where
  | errorReturn
  | callback
  deriving DecidableEq

structure CallResolution (α μ : Type) where
  id : Nat
  resolvedBy : ResolvedBy
  result : Except (TradesError α μ) Unit

/-- The shared map with the calls in progress. `confirmed` and `resolutions` record
what happened: the code does not keep them. -/
structure TradeController (α μ : Type) where
  trades : Trades α μ
  calls : Nat → Option (TradeCall α μ)
  confirmed : List (α × Confirmation μ)
  resolutions : List (CallResolution α μ)

/-- A step of some call. `ε` is the error a request to the node may return. -/
inductive ControllerStep (α μ ε : Type) where
  | openPosition (id : Nat) (token : α)
  | closePosition (id : Nat) (token : α)
  | trace (id : Nat) (result : Except ε Unit)
  | makeTradeTransactionRequest (id : Nat) (result : Except ε Unit)
  | send (id : Nat) (result : Except ε Unit)
  | confirm (id : Nat) (result : Except ε μ)

def ControllerStep.id {α μ ε : Type} : ControllerStep α μ ε → Nat
  | openPosition id _ => id
  | closePosition id _ => id
  | trace id _ => id
  | makeTradeTransactionRequest id _ => id
  | send id _ => id
  | confirm id _ => id

/-- The steps in which a call that passed registration fails. -/
def ControllerStep.Fails {α μ ε : Type} : ControllerStep α μ ε → Prop
  | openPosition _ _ => False
  | closePosition _ _ => False
  | trace _ result => ∃ e, result = .error e
  | makeTradeTransactionRequest _ result => ∃ e, result = .error e
  | send _ result => ∃ e, result = .error e
  | confirm _ result => ∃ e, result = .error e

namespace TradeController

variable {α μ ε : Type} [DecidableEq α]

def new : TradeController α μ := ⟨fun _ => none, fun _ => none, [], []⟩

def setCall (controller : TradeController α μ) (id : Nat) (call : TradeCall α μ) :
    TradeController α μ :=
  { controller with calls := Function.update controller.calls id (some call) }

def register (controller : TradeController α μ) (id : Nat) (token : α)
    (registration : TradesM α μ (PendingRequest μ)) : Option (TradeController α μ) :=
  match controller.calls id with
  | some _ => none
  | none => match registration controller.trades with
    | .ok request trades =>
      some ({ controller with trades := trades }.setCall id ⟨token, request, .tracing⟩)
    | .error _ trades => some { controller with trades := trades }

/-- The last step of a call: its effect on the map, whose error is only logged. -/
def resolve (controller : TradeController α μ) (id : Nat) (call : TradeCall α μ)
    (resolvedBy : ResolvedBy) (effect : TradesM α μ Unit) : TradeController α μ :=
  let result := effect controller.trades
  { controller.setCall id { call with stage := .resolved } with
    trades := result.state
    resolutions := controller.resolutions ++ [⟨id, resolvedBy, match result with
      | .ok _ _ => .ok ()
      | .error e _ => .error e⟩] }

/-- Carry on after an `Ok`, or revert the registration and return the error. -/
def proceed (controller : TradeController α μ) (id : Nat) (call : TradeCall α μ)
    (next : CallStage) : Except ε Unit → TradeController α μ
  | .ok _ => controller.setCall id { call with stage := next }
  | .error _ => controller.resolve id call .errorReturn (Trades.revert call.token call.request)

def finish (controller : TradeController α μ) (id : Nat) (call : TradeCall α μ)
    (result : Except ε μ) : TradeController α μ :=
  let resolved := controller.resolve id call .callback
    (Trades.onConfirmed call.token call.request result)
  match result with
  | .ok m => { resolved with
      confirmed := controller.confirmed ++ [(call.token, call.request.confirmation m)] }
  | .error _ => resolved

/-- `send_tx` spawns the callback in test mode, awaits it in a backtest, and live
builds and sends a transaction before it spawns the callback. -/
def step (mode : ControllerMode) (controller : TradeController α μ) :
    ControllerStep α μ ε → Option (TradeController α μ)
  | .openPosition id token => controller.register id token (Trades.registerOpen token)
  | .closePosition id token => controller.register id token (Trades.registerClose token)
  | .trace id result => (controller.calls id).bind fun call =>
    if call.stage = .tracing then some (controller.proceed id call .requesting result) else none
  | .makeTradeTransactionRequest id result => (controller.calls id).bind fun call =>
    if mode = .live ∧ call.stage = .requesting then
      some (controller.proceed id call .sending result)
    else none
  | .send id result => (controller.calls id).bind fun call =>
    match mode, call.stage, result with
    | .live, .sending, result => some (controller.proceed id call .confirming result)
    | .test, .requesting, .ok _ => some (controller.setCall id { call with stage := .confirming })
    | _, _, _ => none
  | .confirm id result => (controller.calls id).bind fun call =>
    if call.stage = .confirming ∨ mode = .backtest ∧ call.stage = .requesting then
      some (controller.finish id call result)
    else none

def machine (α μ ε : Type) [DecidableEq α] (mode : ControllerMode) :
    Machine (TradeController α μ) (ControllerStep α μ ε) := ⟨step mode⟩

def InFlight (controller : TradeController α μ) (id : Nat) (call : TradeCall α μ) : Prop :=
  controller.calls id = some call ∧ call.stage ≠ .resolved

/-- The token of the call a step belongs to. -/
def tokenOf (controller : TradeController α μ) : ControllerStep α μ ε → Option α
  | .openPosition _ token => some token
  | .closePosition _ token => some token
  | a => (controller.calls a.id).map TradeCall.token

/-- Everything a step can do. -/
inductive StepCase (s : TradeController α μ) (a : ControllerStep α μ ε) :
    TradeController α μ → Prop where
  | rejected {token : α} {trades : Trades α μ} (hid : s.calls a.id = none)
      (ha : a = .openPosition a.id token ∨ a = .closePosition a.id token)
      (hsame : s.trades.Unchanged trades) : StepCase s a { s with trades := trades }
  | opened {token : α} (hid : s.calls a.id = none) (hactive : (s.trades.view token).active = none)
      (htoken : s.tokenOf a = some token) (ha : a = .openPosition a.id token) :
      StepCase s a (setCall
        { s with trades := s.trades.withActive token (some .pendingOpen) } a.id
        ⟨token, .open_, .tracing⟩)
  | closing {token : α} {m : μ} (hid : s.calls a.id = none)
      (hactive : (s.trades.view token).active = some (.opened m))
      (htoken : s.tokenOf a = some token) (ha : a = .closePosition a.id token) :
      StepCase s a (setCall
        { s with trades := s.trades.withActive token (some .pendingClose) } a.id
        ⟨token, .close m, .tracing⟩)
  | advanced {call : TradeCall α μ} {next : CallStage} (hcall : s.InFlight a.id call)
      (htoken : s.tokenOf a = some call.token) (hnext : next ≠ .resolved)
      (hstage : call.stage ≠ .confirming)
      (hsend : next = .confirming ↔ ∃ u, a = .send a.id (.ok u)) :
      StepCase s a (s.setCall a.id { call with stage := next })
  | failed {call : TradeCall α μ} {resolvedBy : ResolvedBy} (hcall : s.InFlight a.id call)
      (htoken : s.tokenOf a = some call.token) (ha : a.Fails)
      (hstage : call.stage ≠ .confirming ∨ ∃ e, a = .confirm a.id (.error e)) :
      StepCase s a (s.resolve a.id call resolvedBy (Trades.revert call.token call.request))
  | confirmed {call : TradeCall α μ} {m : μ} (hcall : s.InFlight a.id call)
      (htoken : s.tokenOf a = some call.token) (ha : a = .confirm a.id (.ok m)) :
      StepCase s a (s.finish a.id call (Except.ok m : Except ε μ))

omit [DecidableEq α] in
theorem tokenOf_of_call {s : TradeController α μ} {a : ControllerStep α μ ε}
    {call : TradeCall α μ} (hc : s.calls a.id = some call)
    (hopen : ∀ token, a ≠ .openPosition a.id token)
    (hclose : ∀ token, a ≠ .closePosition a.id token) : s.tokenOf a = some call.token := by
  cases a with
  | openPosition id token => exact absurd rfl (hopen token)
  | closePosition id token => exact absurd rfl (hclose token)
  | trace id result => simpa [tokenOf] using ⟨call, hc, rfl⟩
  | makeTradeTransactionRequest id result => simpa [tokenOf] using ⟨call, hc, rfl⟩
  | send id result => simpa [tokenOf] using ⟨call, hc, rfl⟩
  | confirm id result => simpa [tokenOf] using ⟨call, hc, rfl⟩

theorem proceed_case {s : TradeController α μ} {a : ControllerStep α μ ε} {call : TradeCall α μ}
    {next : CallStage} (hcall : s.InFlight a.id call) (htoken : s.tokenOf a = some call.token)
    (hnext : next ≠ .resolved) (hstage : call.stage ≠ .confirming) (result : Except ε Unit)
    (hsend : ∀ u, result = .ok u → (next = .confirming ↔ ∃ u, a = .send a.id (.ok u)))
    (hfails : ∀ e, result = .error e → a.Fails) :
    StepCase s a (s.proceed a.id call next result) := by
  cases result with
  | ok u => exact .advanced hcall htoken hnext hstage (hsend u rfl)
  | error e => exact .failed hcall htoken (hfails e rfl) (Or.inl hstage)

theorem step_case {mode : ControllerMode} {s s' : TradeController α μ} {a : ControllerStep α μ ε}
    (h : s.step mode a = some s') : StepCase s a s' := by
  cases a with
  | openPosition id token =>
    simp only [step, register] at h
    split at h
    next => simp at h
    next hid =>
      split at h
      next request trades hr =>
        obtain ⟨rfl, hactive, rfl⟩ := Trades.registerOpen_eq_ok hr
        cases Option.some.inj h
        exact .opened hid hactive rfl rfl
      next e trades hr =>
        cases Option.some.inj h
        exact .rejected hid (Or.inl rfl) (Trades.registerOpen_eq_error hr)
  | closePosition id token =>
    simp only [step, register] at h
    split at h
    next => simp at h
    next hid =>
      split at h
      next request trades hr =>
        obtain ⟨m, rfl, hactive, rfl⟩ := Trades.registerClose_eq_ok hr
        cases Option.some.inj h
        exact .closing hid hactive rfl rfl
      next e trades hr =>
        cases Option.some.inj h
        exact .rejected hid (Or.inr rfl) (Trades.registerClose_eq_error hr)
  | trace id result =>
    obtain ⟨call, hc, h⟩ := Option.bind_eq_some_iff.mp h
    split at h
    next hstage =>
      cases Option.some.inj h
      exact proceed_case (a := .trace id result) ⟨hc, by simp [hstage]⟩
        (tokenOf_of_call hc (by simp) (by simp)) (by decide) (by simp [hstage]) result (by simp)
        fun e he => ⟨e, he⟩
    next => simp at h
  | makeTradeTransactionRequest id result =>
    obtain ⟨call, hc, h⟩ := Option.bind_eq_some_iff.mp h
    split at h
    next hstage =>
      cases Option.some.inj h
      exact proceed_case (a := .makeTradeTransactionRequest id result) ⟨hc, by simp [hstage.2]⟩
        (tokenOf_of_call hc (by simp) (by simp)) (by decide) (by simp [hstage.2]) result (by simp)
        fun e he => ⟨e, he⟩
    next => simp at h
  | send id result =>
    obtain ⟨call, hc, h⟩ := Option.bind_eq_some_iff.mp h
    split at h
    next hstage _ =>
      cases Option.some.inj h
      exact proceed_case (a := .send id _) ⟨hc, by simp [hstage]⟩
        (tokenOf_of_call hc (by simp) (by simp)) (by decide) (by simp [hstage]) _
        (fun u hu => ⟨fun _ => ⟨u, hu ▸ rfl⟩, fun _ => rfl⟩) fun e he => ⟨e, he⟩
    next hstage _ =>
      cases Option.some.inj h
      exact .advanced ⟨hc, by simp [hstage]⟩ (tokenOf_of_call hc (by simp) (by simp)) (by decide)
        (by simp [hstage]) ⟨fun _ => ⟨_, rfl⟩, fun _ => rfl⟩
    next => simp at h
  | confirm id result =>
    obtain ⟨call, hc, h⟩ := Option.bind_eq_some_iff.mp h
    split at h
    next hstage =>
      cases Option.some.inj h
      have hcall : s.InFlight id call := ⟨hc, by rcases hstage with h | ⟨-, h⟩ <;> simp [h]⟩
      have htoken := tokenOf_of_call (a := .confirm id result) hc (by simp) (by simp)
      cases result with
      | ok m => exact .confirmed hcall htoken rfl
      | error e => exact .failed hcall htoken ⟨e, rfl⟩ (Or.inr ⟨e, rfl⟩)
    next => simp at h

/-- A failing step puts back what the registration of its call replaced. -/
theorem step_fails {mode : ControllerMode} {s s' : TradeController α μ} {a : ControllerStep α μ ε}
    (h : s.step mode a = some s') (ha : a.Fails) : ∃ call resolvedBy, s.InFlight a.id call ∧
      s' = s.resolve a.id call resolvedBy (Trades.revert call.token call.request) := by
  cases a with
  | openPosition id token => exact ha.elim
  | closePosition id token => exact ha.elim
  | trace id result =>
    obtain ⟨e, rfl⟩ := ha
    obtain ⟨call, hc, h⟩ := Option.bind_eq_some_iff.mp h
    split at h
    next hstage => exact ⟨call, _, ⟨hc, by simp [hstage]⟩, (Option.some.inj h).symm⟩
    next => simp at h
  | makeTradeTransactionRequest id result =>
    obtain ⟨e, rfl⟩ := ha
    obtain ⟨call, hc, h⟩ := Option.bind_eq_some_iff.mp h
    split at h
    next hstage => exact ⟨call, _, ⟨hc, by simp [hstage.2]⟩, (Option.some.inj h).symm⟩
    next => simp at h
  | send id result =>
    obtain ⟨e, rfl⟩ := ha
    obtain ⟨call, hc, h⟩ := Option.bind_eq_some_iff.mp h
    split at h
    next hstage _ => exact ⟨call, _, ⟨hc, by simp [hstage]⟩, (Option.some.inj h).symm⟩
    next => contradiction
    next => simp at h
  | confirm id result =>
    obtain ⟨e, rfl⟩ := ha
    obtain ⟨call, hc, h⟩ := Option.bind_eq_some_iff.mp h
    split at h
    next hstage =>
      refine ⟨call, _, ⟨hc, ?_⟩, (Option.some.inj h).symm⟩
      rcases hstage with h | ⟨-, h⟩ <;> simp [h]
    next => simp at h

end TradeController

end Pochtecatl
