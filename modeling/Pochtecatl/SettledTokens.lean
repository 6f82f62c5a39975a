import Pochtecatl.TradeTasks

namespace Pochtecatl

variable {α μ ε : Type} [DecidableEq α]

/-- What a pending position of these trades is marked as. -/
def AddressTrades.pendingMark (trades : AddressTrades μ) : Trade μ :=
  match trades.active with
  | some (.opened _) => .pendingClose
  | _ => .pendingOpen

/-- The trades after a request that panicked, failed or was confirmed. -/
def AddressTrades.settle (trades : AddressTrades μ) : Option (Option μ) → AddressTrades μ
  | none => { trades with active := some trades.pendingMark }
  | some none => trades
  | some (some m) =>
    match trades.active with
    | some (.opened openTrade) => trades.close openTrade m
    | _ => { trades with active := some (.opened m) }

/-- The outcome of a task without its error, which is only logged. -/
def TradeTask.outcome (task : TradeTask α μ ε) : Option (Option μ) :=
  task.simulated.map Except.toOption

namespace TradeTasks

variable {tasks : List (TradeTask α μ ε)} {trades : Trades α μ} {s s' : TradeTasks α μ}

/-- The calls are those of the tasks. What is over is resolved, or panicked. -/
def CallsOk (tasks : List (TradeTask α μ ε)) (s : TradeTasks α μ) : Prop :=
  ∀ id call, s.controller.calls id = some call → ∃ task, tasks[id]? = some task ∧
    call.token = task.token ∧
      (call.stage = .tracing ∧ s.ended id = false ∨
        call.stage = .requesting ∧ (s.ended id → task.simulated = none) ∨
        call.stage = .resolved ∧ s.ended id ∧ task.simulated ≠ none)

/-- What became of a token since the tasks were spawned. -/
inductive TokenState (tasks : List (TradeTask α μ ε)) (trades : Trades α μ) (s : TradeTasks α μ)
    (token : α) : Prop where
  | fresh (hview : s.controller.trades.view token = trades.view token)
      (hidle : s.controller.Idle token)
      (hfresh : ∀ id task, tasks[id]? = some task → task.token = token →
        s.ended id = false ∧ s.controller.calls id = none)
  | pending {id : Nat} {request : PendingRequest μ}
      (hpending : s.controller.Pending token id request)
      (honly : ∀ id' request', s.controller.Pending token id' request' → id' = id)
      (hpresent : (s.controller.trades token).isSome)
      (hactive : (trades.view token).active = request.reverted)
      (hview : s.controller.trades.view token = (trades.view token).settle none)
  | settled {id : Nat} {task : TradeTask α μ ε} {outcome : Option μ}
      (htask : tasks[id]? = some task) (htoken : task.token = token)
      (houtcome : task.outcome = some outcome) (hidle : s.controller.Idle token)
      (hview : s.controller.trades.view token = (trades.view token).settle (some outcome))

omit [DecidableEq α] in
theorem spawn_callsOk : CallsOk tasks (spawn trades) := fun _ _ h => by cases h

omit [DecidableEq α] in
theorem spawn_tokenState (token : α) : TokenState tasks trades (spawn trades) token :=
  .fresh rfl (fun _ _ ⟨_, hcall, _⟩ => by cases hcall) fun _ _ _ _ => ⟨rfl, rfl⟩

omit [DecidableEq α] in
/-- A step of another task keeps what it finds. -/
theorem CallsOk.update {id : Nat} (h : CallsOk tasks s)
    (hcalls : ∀ id', id' ≠ id → s'.controller.calls id' = s.controller.calls id')
    (hended : ∀ id', id' ≠ id → s'.ended id' = s.ended id')
    (hid : ∀ call, s'.controller.calls id = some call → ∃ task, tasks[id]? = some task ∧
      call.token = task.token ∧
        (call.stage = .tracing ∧ s'.ended id = false ∨
          call.stage = .requesting ∧ (s'.ended id → task.simulated = none) ∨
          call.stage = .resolved ∧ s'.ended id ∧ task.simulated ≠ none)) : CallsOk tasks s' := by
  intro id' call hcall
  by_cases heq : id' = id
  · subst heq
    exact hid call hcall
  · rw [hcalls id' heq] at hcall
    rw [hended id' heq]
    exact h id' call hcall

theorem CallsOk.step {id : Nat} (h : CallsOk tasks s) (hstep : step tasks s id = some s') :
    CallsOk tasks s' := by
  obtain ⟨task, htask, hended, hcase⟩ := step_case hstep
  cases hcase with
  | rejected hcall =>
    refine h.update (fun _ _ => rfl) (fun id' hne => Function.update_of_ne hne ..) fun call hc => ?_
    rw [hcall] at hc
    cases hc
  | registered =>
    refine h.update (fun id' hne => Function.update_of_ne hne ..)
      (fun id' hne => Function.update_of_ne hne ..) fun call hc => ?_
    cases (Function.update_self ..).symm.trans hc
    exact ⟨task, htask, rfl, .inl ⟨rfl, Function.update_self ..⟩⟩
  | traced hcall hstage =>
    refine h.update (fun id' hne => Function.update_of_ne hne ..)
      (fun id' hne => Function.update_of_ne hne ..) fun call' hc => ?_
    cases (Function.update_self ..).symm.trans hc
    obtain ⟨task', htask', htoken, -⟩ := h id _ hcall
    refine ⟨task', htask', htoken, .inr (.inl ⟨rfl, fun hover => ?_⟩)⟩
    cases (Function.update_self ..).symm.trans hover
  | panicked hcall hstage hpanic =>
    refine h.update (fun _ _ => rfl) (fun id' hne => Function.update_of_ne hne ..) fun call' hc => ?_
    cases hcall.symm.trans hc
    obtain ⟨task', htask', htoken, hcases⟩ := h id _ hcall
    cases htask.symm.trans htask'
    refine ⟨task, htask, htoken, ?_⟩
    rcases hcases with ⟨htracing, -⟩ | ⟨hrequesting, -⟩ | ⟨-, hover, -⟩
    · exact absurd htracing hstage
    · exact .inr (.inl ⟨hrequesting, fun _ => hpanic⟩)
    · rw [hended] at hover
      cases hover
  | @simulated call result hcall hstage hresult =>
    have hfinish : (s.controller.finish id call result).calls =
        Function.update s.controller.calls id (some { call with stage := .resolved }) := by
      cases result with
      | ok m => rfl
      | error e => rfl
    obtain ⟨task', htask', htoken, -⟩ := h id _ hcall
    refine h.update (fun id' hne => ?_) (fun id' hne => Function.update_of_ne hne ..)
      fun call' hc => ?_
    · rw [hfinish, Function.update_of_ne hne]
    · rw [hfinish, Function.update_self] at hc
      cases hc
      cases htask.symm.trans htask'
      refine ⟨task, htask, htoken, .inr (.inr ⟨rfl, Function.update_self .., ?_⟩)⟩
      rw [hresult]
      exact Option.some_ne_none _

omit [DecidableEq α] in
/-- A step that is none of the token's keeps its state. -/
theorem TokenState.frame {token : α} (h : TokenState tasks trades s token)
    (hview : s'.controller.trades.view token = s.controller.trades.view token)
    (hpresent : (s.controller.trades token).isSome → (s'.controller.trades token).isSome)
    (hpending : ∀ id request,
      s'.controller.Pending token id request ↔ s.controller.Pending token id request)
    (hfresh : ∀ id task, tasks[id]? = some task → task.token = token →
      s.ended id = false → s.controller.calls id = none →
        s'.ended id = false ∧ s'.controller.calls id = none) : TokenState tasks trades s' token := by
  have hidle' : s.controller.Idle token → s'.controller.Idle token :=
    fun hidle id request hp => hidle id request ((hpending id request).mp hp)
  cases h with
  | fresh hv hidle hnew =>
    refine .fresh (hview.trans hv) (hidle' hidle) fun id task htask htoken => ?_
    obtain ⟨hended, hcall⟩ := hnew id task htask htoken
    exact hfresh id task htask htoken hended hcall
  | pending hp honly hsome hactive hv =>
    exact .pending ((hpending _ _).mpr hp) (fun id' r hp' => honly id' r ((hpending _ _).mp hp'))
      (hpresent hsome) hactive (hview.trans hv)
  | settled htask htoken houtcome hidle hv =>
    exact .settled htask htoken houtcome (hidle' hidle) (hview.trans hv)

end TradeTasks

/-! ### What a registration finds -/

section Settle

variable {task : TradeTask α μ ε} {t : AddressTrades μ}

omit [DecidableEq α] in
theorem pendingMark_of_reverted {request : PendingRequest μ} (h : t.active = request.reverted) :
    t.pendingMark = request.pending := by
  rw [AddressTrades.pendingMark, h]
  cases request with
  | open_ => rfl
  | close openTrade => rfl

omit [DecidableEq α] in
theorem TradeTask.admits_close {active : Option (Trade μ)} (h : task.closes) :
    task.Admits active ↔ ∃ m, active = some (.opened m) := by
  rw [Admits, if_pos h]

omit [DecidableEq α] in
theorem TradeTask.admits_open {active : Option (Trade μ)} (h : ¬task.closes) :
    task.Admits active ↔ active = none := by
  rw [Admits, if_neg h]

omit [DecidableEq α] in
theorem pendingMark_ne_opened (m : μ) : t.pendingMark ≠ .opened m := by
  unfold AddressTrades.pendingMark
  split
  next => simp
  next => simp

omit [DecidableEq α] in
theorem TradeTask.not_admits_pending : ¬task.Admits (t.settle none).active := by
  have hactive : (t.settle none).active = some t.pendingMark := rfl
  by_cases hcloses : task.closes
  · rw [admits_close hcloses, hactive]
    rintro ⟨m, hm⟩
    exact pendingMark_ne_opened m (Option.some.inj hm)
  · rw [admits_open hcloses, hactive]
    exact Option.some_ne_none _

omit [DecidableEq α] in
/-- A position is opened once and closed once. -/
theorem TradeTask.not_admits_confirmed (h : task.Admits t.active) (m : μ) :
    ¬task.Admits (t.settle (some (some m))).active := by
  by_cases hcloses : task.closes
  · obtain ⟨openTrade, hactive⟩ := (admits_close hcloses).mp h
    simp only [AddressTrades.settle, hactive, AddressTrades.close]
    rw [admits_close hcloses]
    rintro ⟨m', hm'⟩
    cases hm'
  · have hactive := (admits_open hcloses).mp h
    simp only [AddressTrades.settle, hactive]
    rw [admits_open hcloses]
    exact Option.some_ne_none _

omit [DecidableEq α] in
theorem confirmed_eq_settle {request : PendingRequest μ} (h : t.active = request.reverted) (m : μ) :
    (request.confirmed t.closed m).trades = t.settle (some (some m)) := by
  cases request with
  | open_ =>
    have hactive : t.active = none := h
    simp only [AddressTrades.settle, hactive]
    rfl
  | close openTrade =>
    have hactive : t.active = some (.opened openTrade) := h
    simp only [AddressTrades.settle, hactive]
    rfl

end Settle

namespace TradeTasks

variable {tasks : List (TradeTask α μ ε)} {trades : Trades α μ} {s s' : TradeTasks α μ}
  {task : TradeTask α μ ε} {id : Nat}

omit [DecidableEq α] in
theorem ne_of_token {id' : Nat} {task' : TradeTask α μ ε} (htask : tasks[id]? = some task)
    (htask' : tasks[id']? = some task') (h : task'.token ≠ task.token) : id' ≠ id := by
  rintro rfl
  cases htask.symm.trans htask'
  exact h rfl

/-- A rejected registration. One that the snapshot admits comes after the token was settled,
or while it is pending. -/
theorem TokenState.rejected {trades' : Trades α μ}
    (h : ∀ token, TokenState tasks trades s token) (htask : tasks[id]? = some task)
    (hdispatched : task.Admits (trades.view task.token).active)
    (hrejected : ¬task.Admits (s.controller.trades.view task.token).active)
    (hsame : s.controller.trades.Unchanged trades') (token : α) :
    TokenState tasks trades
      ⟨{ s.controller with trades := trades' }, Function.update s.ended id true⟩ token := by
  by_cases htoken : token = task.token
  · subst htoken
    have hview := hsame.view task.token
    cases h task.token with
    | fresh hv _ _ =>
      rw [hv] at hrejected
      exact absurd hdispatched hrejected
    | pending hp honly hsome hactive hv =>
      exact .pending hp honly (hsame.present _ hsome) hactive (hview.trans hv)
    | settled htask' htoken' houtcome hidle hv =>
      exact .settled htask' htoken' houtcome hidle (hview.trans hv)
  · refine (h token).frame (hsame.view token) (hsame.present token) (fun _ _ => Iff.rfl)
      fun id' task' htask' htoken' hended hcall' => ⟨?_, hcall'⟩
    have hne : id' ≠ id := ne_of_token htask htask' (htoken' ▸ htoken)
    exact (Function.update_of_ne hne ..).trans hended

omit [DecidableEq α] in
/-- A token that admits a registration is as the snapshot has it. -/
theorem TokenState.of_admits {token : α} (h : TokenState tasks trades s token)
    (hdispatched : task.Admits (trades.view token).active)
    (hadmits : task.Admits (s.controller.trades.view token).active) :
    s.controller.Idle token ∧ s.controller.trades.view token = trades.view token := by
  cases h with
  | fresh hv hidle _ => exact ⟨hidle, hv⟩
  | pending _ _ _ _ hv =>
    rw [hv] at hadmits
    exact absurd hadmits TradeTask.not_admits_pending
  | @settled _ _ outcome _ _ _ hidle hv =>
    cases outcome with
    | none => exact ⟨hidle, hv⟩
    | some m =>
      rw [hv] at hadmits
      exact absurd hadmits (TradeTask.not_admits_confirmed hdispatched m)

/-- An accepted registration makes its token pending. -/
theorem TokenState.registered {request : PendingRequest μ}
    (h : ∀ token, TokenState tasks trades s token) (htask : tasks[id]? = some task)
    (hdispatched : task.Admits (trades.view task.token).active)
    (hcall : s.controller.calls id = none)
    (hadmits : task.Admits (s.controller.trades.view task.token).active)
    (hactive : (s.controller.trades.view task.token).active = request.reverted) (token : α) :
    TokenState tasks trades ⟨TradeController.setCall
      { s.controller with
        trades := s.controller.trades.withActive task.token (some request.pending) } id
      ⟨task.token, request, .tracing⟩, Function.update s.ended id false⟩ token := by
  by_cases htoken : token = task.token
  · subst htoken
    obtain ⟨hidle, hview⟩ := (h task.token).of_admits hdispatched hadmits
    rw [hview] at hactive
    refine .pending (TradeController.pending_setCall.mpr (.inl ⟨rfl, rfl, rfl, CallStage.noConfusion⟩))
      (fun id' request' hp => ?_) ?_ hactive ?_
    · rcases TradeController.pending_setCall.mp hp with ⟨hid, -⟩ | ⟨-, hp⟩
      · exact hid
      · exact absurd hp (hidle id' request')
    · simp [TradeController.setCall, Trades.withActive]
    · rw [AddressTrades.settle, pendingMark_of_reverted hactive, ← hview]
      exact Trades.view_withActive_self _
  · refine (h token).frame (Trades.view_withActive_of_ne _ htoken) (fun hsome => ?_) ?_
      fun id' task' htask' htoken' hended hcall' => ?_
    · simpa [TradeController.setCall, Trades.withActive, Function.update_of_ne htoken] using hsome
    · exact TradeController.pending_setCall_of_ne htoken
        (TradeController.not_pending_of_none (s := { s.controller with trades := _ }) hcall)
    · have hne : id' ≠ id := ne_of_token htask htask' (htoken' ▸ htoken)
      exact ⟨(Function.update_of_ne hne ..).trans hended, (Function.update_of_ne hne ..).trans hcall'⟩

omit [DecidableEq α] in
/-- A trace does not touch the trades. -/
theorem TokenState.traced {call : TradeCall α μ} {token : α}
    (h : TokenState tasks trades s token) (hcall : s.controller.calls id = some call)
    (hstage : call.stage = .tracing) :
    TokenState tasks trades ⟨s.controller.setCall id { call with stage := .requesting },
      Function.update s.ended id false⟩ token := by
  refine h.frame rfl (fun hsome => hsome) (fun id' request => ?_)
    fun id' task' _ _ hended hcall' => ?_
  · exact TradeController.pending_advance ⟨hcall, by rw [hstage]; decide⟩ (by decide)
  · have hne : id' ≠ id := by
      rintro rfl
      rw [hcall] at hcall'
      cases hcall'
    exact ⟨(Function.update_of_ne hne ..).trans hended, (Function.update_of_ne hne ..).trans hcall'⟩

omit [DecidableEq α] in
/-- A task that panics leaves the trades as they are. -/
theorem TokenState.panicked {call : TradeCall α μ} {token : α}
    (h : TokenState tasks trades s token) (hcall : s.controller.calls id = some call) :
    TokenState tasks trades { s with ended := Function.update s.ended id true } token := by
  refine h.frame rfl (fun hsome => hsome) (fun _ _ => Iff.rfl)
    fun id' task' _ _ hended hcall' => ⟨?_, hcall'⟩
  have hne : id' ≠ id := by
    rintro rfl
    rw [hcall] at hcall'
    cases hcall'
  exact (Function.update_of_ne hne ..).trans hended

theorem finish_eq {controller : TradeController α μ} {call : TradeCall α μ}
    {result : Except ε μ} {trades' : Trades α μ}
    (h : Trades.onConfirmed call.token call.request result controller.trades = .ok () trades') :
    (controller.finish id call result).trades = trades' ∧
      (controller.finish id call result).calls =
        (controller.setCall id { call with stage := .resolved }).calls := by
  cases result with
  | ok m => simp only [TradeController.finish, TradeController.resolve_trades h, and_self]
  | error e => simp only [TradeController.finish, TradeController.resolve_trades h, and_self]

/-- A callback settles the token of its call. -/
theorem TokenState.simulated {call : TradeCall α μ} {result : Except ε μ}
    (h : ∀ token, TokenState tasks trades s token) (htask : tasks[id]? = some task)
    (hcall : s.controller.InFlight id call) (htoken : call.token = task.token)
    (hresult : task.simulated = some result) (token : α) :
    TokenState tasks trades
      ⟨s.controller.finish id call result, Function.update s.ended id true⟩ token := by
  obtain ⟨honly, hpresent, hactive, hview⟩ :
      (∀ id' request', s.controller.Pending call.token id' request' → id' = id) ∧
        (s.controller.trades call.token).isSome ∧
        (trades.view call.token).active = call.request.reverted ∧
        s.controller.trades.view call.token = (trades.view call.token).settle none := by
    cases h call.token with
    | fresh _ hidle _ => exact absurd hcall.pending (hidle id call.request)
    | settled _ _ _ hidle _ => exact absurd hcall.pending (hidle id call.request)
    | @pending id' request hp honly hpresent hactive hview =>
      have hid : id = id' := honly id call.request hcall.pending
      subst hid
      obtain ⟨stage, hp, -⟩ := hp
      have hrequest : call.request = request :=
        congrArg TradeCall.request (Option.some.inj (hcall.1.symm.trans hp))
      exact ⟨honly, hpresent, hrequest ▸ hactive, hview⟩
  obtain ⟨trades', hok, hother, hview'⟩ := TradeController.onConfirmed_of_present hpresent
    call.request result
  obtain ⟨htrades, hcalls⟩ := @finish_eq _ _ _ _ id _ _ _ _ hok
  have hpending : ∀ token id' request, (s.controller.finish id call result).Pending token id' request ↔
      (s.controller.setCall id { call with stage := .resolved }).Pending token id' request := by
    simp only [TradeController.Pending, hcalls, implies_true]
  by_cases heq : token = call.token
  · subst heq
    have houtcome : task.outcome = some result.toOption := by
      rw [TradeTask.outcome, hresult, Option.map_some]
    refine .settled htask htoken.symm houtcome (fun id' request hp => ?_) ?_
    · rcases TradeController.pending_setCall.mp ((hpending _ _ _).mp hp) with ⟨-, -, -, hs⟩ | ⟨hne, hp⟩
      · exact hs rfl
      · exact hne (honly id' request hp)
    · rw [htrades, hview', hview]
      cases result with
      | ok m => exact confirmed_eq_settle hactive m
      | error e =>
        rw [← hactive]
        rfl
  · refine (h token).frame ?_ (fun hsome => ?_) (fun id' request => ?_)
      fun id' task' htask' htoken' hended hcall' => ?_
    · rw [htrades, Trades.view, hother token heq]
      rfl
    · rw [htrades, hother token heq]
      exact hsome
    · rw [hpending]
      exact @TradeController.pending_setCall_of_ne _ _ s.controller token id
        { call with stage := .resolved } heq (TradeController.not_pending_of_call hcall.1 heq) id'
        request
    · have hne : id' ≠ id := ne_of_token htask htask' (by rw [htoken', ← htoken]; exact heq)
      refine ⟨(Function.update_of_ne hne ..).trans hended, ?_⟩
      rw [hcalls]
      exact (Function.update_of_ne hne ..).trans hcall'

/-! ### Runs -/

/-- The executor spawned the tasks for the trades it saw. -/
def Dispatched (tasks : List (TradeTask α μ ε)) (trades : Trades α μ) : Prop :=
  ∀ task ∈ tasks, task.Admits (trades.view task.token).active

theorem TokenState.step (hdispatched : Dispatched tasks trades) (hcalls : CallsOk tasks s)
    (h : ∀ token, TokenState tasks trades s token) (hstep : step tasks s id = some s')
    (token : α) : TokenState tasks trades s' token := by
  obtain ⟨task, htask, hended, hcase⟩ := step_case hstep
  have hadmits := hdispatched task (List.mem_of_getElem? htask)
  cases hcase with
  | rejected _ hrejected hsame => exact TokenState.rejected h htask hadmits hrejected hsame token
  | registered hcall hadmits' hactive =>
    exact TokenState.registered h htask hadmits hcall hadmits' hactive token
  | traced hcall hstage => exact (h token).traced hcall hstage
  | panicked hcall _ _ => exact (h token).panicked hcall
  | simulated hcall hstage hresult =>
    obtain ⟨task', htask', htoken, -⟩ := hcalls id _ hcall
    cases htask.symm.trans htask'
    exact TokenState.simulated h htask ⟨hcall, hstage⟩ htoken hresult token

theorem run_tokenState (hdispatched : Dispatched tasks trades) {schedule : List Nat}
    (hrun : (machine tasks).run (spawn trades) schedule = some s) :
    CallsOk tasks s ∧ ∀ token, TokenState tasks trades s token := by
  refine Machine.run_invariant (I := fun s => CallsOk tasks s ∧
    ∀ token, TokenState tasks trades s token) (fun s id s' hs hstep => ?_) hrun
    ⟨spawn_callsOk, spawn_tokenState⟩
  exact ⟨hs.1.step hstep, TokenState.step hdispatched hs.1 hs.2 hstep⟩

/-- When all tasks are over, a token is as one of its tasks left it, if it had one. -/
theorem joined_view (hdispatched : Dispatched tasks trades) {schedule : List Nat}
    (hrun : (machine tasks).run (spawn trades) schedule = some s) (hjoined : s.Joined tasks)
    (token : α) :
    (∀ task ∈ tasks, task.token ≠ token) ∧
        s.controller.trades.view token = trades.view token ∨
      ∃ task ∈ tasks, task.token = token ∧
        s.controller.trades.view token = (trades.view token).settle task.outcome := by
  obtain ⟨hcalls, hstate⟩ := run_tokenState hdispatched hrun
  cases hstate token with
  | fresh hview _ hfresh =>
    refine .inl ⟨fun task htask htoken => ?_, hview⟩
    obtain ⟨id, hid⟩ := List.mem_iff_getElem?.mp htask
    obtain ⟨hended, -⟩ := hfresh id task hid htoken
    have hlt : id < tasks.length := (List.getElem?_eq_some_iff.mp hid).1
    rw [hjoined id hlt] at hended
    cases hended
  | @pending id request hp _ _ _ hview =>
    obtain ⟨stage, hcall, hstage⟩ := hp
    obtain ⟨task, htask, htoken, hcases⟩ := hcalls id _ hcall
    have hended : s.ended id = true := hjoined id (List.getElem?_eq_some_iff.mp htask).1
    refine .inr ⟨task, List.mem_of_getElem? htask, htoken.symm, ?_⟩
    rcases hcases with ⟨-, hrunning⟩ | ⟨-, hpanic⟩ | ⟨hresolved, -⟩
    · rw [hended] at hrunning
      cases hrunning
    · rw [hview, TradeTask.outcome, hpanic hended]
      rfl
    · exact absurd hresolved hstage
  | settled htask htoken houtcome _ hview =>
    refine .inr ⟨_, List.mem_of_getElem? htask, htoken, ?_⟩
    rw [houtcome]
    exact hview

/-! ### Completion -/

theorem step_frame (hstep : step tasks s id = some s') :
    (∀ id', id' ≠ id → s'.ended id' = s.ended id') ∧
      ∀ id', (s.controller.calls id').isSome → (s'.controller.calls id').isSome := by
  obtain ⟨task, -, -, hcase⟩ := step_case hstep
  have hsetCall : ∀ (calls : Nat → Option (TradeCall α μ)) call id', (calls id').isSome →
      (Function.update calls id (some call) id').isSome := by
    intro calls call id' hsome
    by_cases heq : id' = id
    · rw [heq, Function.update_self]
      rfl
    · rwa [Function.update_of_ne heq]
  cases hcase with
  | rejected => exact ⟨fun id' hne => Function.update_of_ne hne .., fun _ hsome => hsome⟩
  | registered => exact ⟨fun id' hne => Function.update_of_ne hne .., hsetCall _ _⟩
  | traced => exact ⟨fun id' hne => Function.update_of_ne hne .., hsetCall _ _⟩
  | panicked => exact ⟨fun id' hne => Function.update_of_ne hne .., fun _ hsome => hsome⟩
  | @simulated call result =>
    refine ⟨fun id' hne => Function.update_of_ne hne .., ?_⟩
    cases result with
    | ok m => exact hsetCall _ _
    | error e => exact hsetCall _ _

/-- A task that is not over can go on. -/
theorem exists_step (hcalls : CallsOk tasks s) (htask : tasks[id]? = some task)
    (hended : s.ended id = false) : ∃ s', step tasks s id = some s' := by
  simp only [step, htask, Option.bind_some, hended, Bool.false_eq_true, if_false]
  unfold TradeTask.next
  cases hcall : s.controller.calls id with
  | none =>
    obtain ⟨controller, hcontroller⟩ : ∃ controller,
        s.controller.step .backtest (task.register id) = some controller := by
      unfold TradeTask.register
      split
      all_goals
        simp only [TradeController.step, TradeController.register, hcall]
        split
        next => exact ⟨_, rfl⟩
        next => exact ⟨_, rfl⟩
    simp only [hcontroller, Option.map_some]
    exact ⟨_, rfl⟩
  | some call =>
    obtain ⟨task', htask', -, hcases⟩ := hcalls id call hcall
    by_cases hstage : call.stage = .tracing
    · simp only [if_pos hstage, TradeController.step, hcall, Option.bind_some]
      exact ⟨_, rfl⟩
    · simp only [if_neg hstage]
      cases hresult : task.simulated with
      | none => exact ⟨_, rfl⟩
      | some result =>
        have hready : call.stage = .requesting := by
          rcases hcases with ⟨htracing, -⟩ | ⟨hrequesting, -⟩ | ⟨-, hover, -⟩
          · exact absurd htracing hstage
          · exact hrequesting
          · rw [hended] at hover
            cases hover
        simp only [Option.map_some, TradeController.step, hcall, Option.bind_some, hready]
        exact ⟨_, rfl⟩

/-- The steps that a task has left. -/
def stepsLeft (s : TradeTasks α μ) (id : Nat) : Nat :=
  if s.ended id then 0
  else
    match s.controller.calls id with
    | none => 3
    | some call => if call.stage = .tracing then 2 else 1

theorem stepsLeft_lt (hstep : step tasks s id = some s') : stepsLeft s' id < stepsLeft s id := by
  obtain ⟨task, -, hended, hcase⟩ := step_case hstep
  have hpos : 0 < stepsLeft s id := by
    unfold stepsLeft
    rw [if_neg (by rw [hended]; exact Bool.false_ne_true)]
    split
    next => decide
    next => split <;> decide
  have hover : s'.ended id = true → stepsLeft s' id < stepsLeft s id := fun h => by
    rw [stepsLeft, if_pos h]
    exact hpos
  cases hcase with
  | rejected => exact hover (Function.update_self ..)
  | registered hcall => simp [stepsLeft, hended, hcall, TradeController.setCall]
  | traced hcall hstage => simp [stepsLeft, hended, hcall, hstage, TradeController.setCall]
  | panicked => exact hover (Function.update_self ..)
  | simulated => exact hover (Function.update_self ..)

theorem exists_ended (hcalls : CallsOk tasks s) (htask : tasks[id]? = some task) :
    ∃ schedule s', (machine tasks).run s schedule = some s' ∧ CallsOk tasks s' ∧ s'.ended id ∧
      ∀ id', s.ended id' → s'.ended id' := by
  induction hn : stepsLeft s id using Nat.strongRecOn generalizing s with
  | ind n ih =>
    by_cases hended : s.ended id
    · exact ⟨[], s, rfl, hcalls, hended, fun _ h => h⟩
    · obtain ⟨t, hstep⟩ := exists_step hcalls htask (Bool.eq_false_iff.mpr hended)
      obtain ⟨schedule, s', hrun, hcalls', hended', hkeeps⟩ :=
        ih (stepsLeft t id) (hn ▸ stepsLeft_lt hstep) (hcalls.step hstep) rfl
      refine ⟨id :: schedule, s', Machine.run_cons_eq_some.mpr ⟨t, hstep, hrun⟩, hcalls', hended',
        fun id' h => hkeeps id' ?_⟩
      have hne : id' ≠ id := fun heq => hended (heq ▸ h)
      rw [(step_frame hstep).1 id' hne]
      exact h

/-- The tasks can always be joined. -/
theorem exists_joined (hcalls : CallsOk tasks s) :
    ∃ schedule s', (machine tasks).run s schedule = some s' ∧ s'.Joined tasks := by
  have hupTo : ∀ n, ∃ schedule s', (machine tasks).run s schedule = some s' ∧ CallsOk tasks s' ∧
      ∀ id < n, id < tasks.length → s'.ended id := by
    intro n
    induction n with
    | zero => exact ⟨[], s, rfl, hcalls, fun id h => absurd h (Nat.not_lt_zero id)⟩
    | succ n ih =>
      obtain ⟨schedule, t, hrun, hcalls', hended⟩ := ih
      by_cases hlt : n < tasks.length
      · obtain ⟨more, s', hmore, hcalls'', hn, hkeeps⟩ :=
          exists_ended hcalls' (List.getElem?_eq_getElem hlt)
        refine ⟨schedule ++ more, s', Machine.run_append_eq_some.mpr ⟨t, hrun, hmore⟩, hcalls'',
          fun id hid hidlt => ?_⟩
        rcases Nat.lt_succ_iff_lt_or_eq.mp hid with hid | rfl
        · exact hkeeps id (hended id hid hidlt)
        · exact hn
      · exact ⟨schedule, t, hrun, hcalls', fun id hid hidlt => hended id (by omega) hidlt⟩
  obtain ⟨schedule, s', hrun, -, hended⟩ := hupTo tasks.length
  exact ⟨schedule, s', hrun, fun id hlt => hended id hlt hlt⟩

end TradeTasks

end Pochtecatl
