import Pochtecatl.TradeLedger

namespace Pochtecatl

/-- A trade task of a backtest: the call it makes, and what its simulation gives. `none` is
a panic. -/
structure TradeTask (α μ ε : Type) where
  token : α
  closes : Bool
  simulated : Option (Except ε μ)

/-- The controller that the tasks of a block share, and which of them are over. -/
structure TradeTasks (α μ : Type) where
  controller : TradeController α μ
  ended : Nat → Bool

variable {α μ ε : Type} [DecidableEq α]

/-- `open_position` or `close_position` up to the release of its write lock. -/
def TradeTask.register (task : TradeTask α μ ε) (id : Nat) : ControllerStep α μ ε :=
  if task.closes then .closePosition id task.token else .openPosition id task.token

/-- The registration of the task succeeds on a token with this active trade. -/
def TradeTask.Admits (task : TradeTask α μ ε) (active : Option (Trade μ)) : Prop :=
  if task.closes then ∃ m, active = some (.opened m) else active = none

/-- What the task does next. Its trace is always `Ok`, and a panic is no step of the call. -/
def TradeTask.next (task : TradeTask α μ ε) (controller : TradeController α μ) (id : Nat) :
    Option (ControllerStep α μ ε) :=
  match controller.calls id with
  | none => some (task.register id)
  | some call =>
    if call.stage = .tracing then some (.trace id (.ok ()))
    else task.simulated.map fun result => .confirm id result

/-- The call returned, or its registration was rejected. -/
def TradeController.isOver (controller : TradeController α μ) (id : Nat) : Bool :=
  (controller.calls id).all fun call => call.stage = .resolved

namespace TradeTasks

/-- The tasks of a block before any of them runs. -/
def spawn (trades : Trades α μ) : TradeTasks α μ :=
  ⟨{ TradeController.new with trades := trades }, fun _ => false⟩

/-- The task with this id goes on, unless it is over. -/
def step (tasks : List (TradeTask α μ ε)) (s : TradeTasks α μ) (id : Nat) :
    Option (TradeTasks α μ) :=
  tasks[id]?.bind fun task =>
    if s.ended id then none
    else
      match task.next s.controller id with
      | none => some { s with ended := Function.update s.ended id true }
      | some a => (s.controller.step .backtest a).map fun controller =>
        ⟨controller, Function.update s.ended id (controller.isOver id)⟩

def machine (tasks : List (TradeTask α μ ε)) : Machine (TradeTasks α μ) Nat := ⟨step tasks⟩

/-- `join_next` has nothing more to wait for. -/
def Joined (tasks : List (TradeTask α μ ε)) (s : TradeTasks α μ) : Prop :=
  ∀ id < tasks.length, s.ended id

instance (tasks : List (TradeTask α μ ε)) (s : TradeTasks α μ) : Decidable (s.Joined tasks) :=
  inferInstanceAs (Decidable (∀ _ < _, _))

/-- Everything a step of a task can do. -/
inductive StepCase (task : TradeTask α μ ε) (id : Nat) (s : TradeTasks α μ) :
    TradeTasks α μ → Prop where
  | rejected {trades : Trades α μ} (hcall : s.controller.calls id = none)
      (hactive : ¬task.Admits (s.controller.trades.view task.token).active)
      (hsame : s.controller.trades.Unchanged trades) :
      StepCase task id s ⟨{ s.controller with trades := trades }, Function.update s.ended id true⟩
  | registered {request : PendingRequest μ} (hcall : s.controller.calls id = none)
      (hadmits : task.Admits (s.controller.trades.view task.token).active)
      (hactive : (s.controller.trades.view task.token).active = request.reverted) :
      StepCase task id s ⟨TradeController.setCall
        { s.controller with
          trades := s.controller.trades.withActive task.token (some request.pending) } id
        ⟨task.token, request, .tracing⟩, Function.update s.ended id false⟩
  | traced {call : TradeCall α μ} (hcall : s.controller.calls id = some call)
      (hstage : call.stage = .tracing) :
      StepCase task id s ⟨s.controller.setCall id { call with stage := .requesting },
        Function.update s.ended id false⟩
  | panicked {call : TradeCall α μ} (hcall : s.controller.calls id = some call)
      (hstage : call.stage ≠ .tracing) (hpanic : task.simulated = none) :
      StepCase task id s { s with ended := Function.update s.ended id true }
  | simulated {call : TradeCall α μ} {result : Except ε μ}
      (hcall : s.controller.calls id = some call) (hstage : call.stage ≠ .resolved)
      (hresult : task.simulated = some result) :
      StepCase task id s ⟨s.controller.finish id call result, Function.update s.ended id true⟩

omit [DecidableEq α] in
theorem isOver_setCall (controller : TradeController α μ) (id : Nat) (call : TradeCall α μ) :
    (controller.setCall id call).isOver id = decide (call.stage = .resolved) := by
  simp [TradeController.isOver, TradeController.setCall]

omit [DecidableEq α] in
theorem isOver_of_none {controller : TradeController α μ} {id : Nat}
    (h : controller.calls id = none) : controller.isOver id = true := by
  rw [TradeController.isOver, h]
  rfl

theorem isOver_finish (controller : TradeController α μ) (id : Nat) (call : TradeCall α μ)
    (result : Except ε μ) : (controller.finish id call result).isOver id = true := by
  have hcalls : (controller.finish id call result).calls id =
      some { call with stage := .resolved } := by
    cases result with
    | ok m => exact Function.update_self ..
    | error e => exact Function.update_self ..
  rw [TradeController.isOver, hcalls]
  rfl

/-- A registration succeeds exactly on the active trades that it admits. -/
theorem register_case {task : TradeTask α μ ε} {id : Nat} {s : TradeTasks α μ}
    {controller : TradeController α μ} (hcall : s.controller.calls id = none)
    (hstep : s.controller.step .backtest (task.register id) = some controller) :
    StepCase task id s ⟨controller, Function.update s.ended id (controller.isOver id)⟩ := by
  have hrejected : ∀ trades : Trades α μ,
      ¬task.Admits (s.controller.trades.view task.token).active →
      s.controller.trades.Unchanged trades →
      StepCase task id s ⟨{ s.controller with trades := trades }, Function.update s.ended id
        (TradeController.isOver { s.controller with trades := trades } id)⟩ := by
    intro trades hnot hsame
    have hover : TradeController.isOver { s.controller with trades := trades } id = true :=
      isOver_of_none hcall
    rw [hover]
    exact .rejected hcall hnot hsame
  unfold TradeTask.register at hstep
  split at hstep
  next hcloses =>
    simp only [TradeController.step, TradeController.register, hcall] at hstep
    split at hstep
    next request trades hr =>
      obtain ⟨m, rfl, hactive, rfl⟩ := Trades.registerClose_eq_ok hr
      cases hstep
      rw [isOver_setCall]
      exact @StepCase.registered _ _ _ _ task id s (.close m) hcall
        (by rw [TradeTask.Admits, if_pos hcloses]; exact ⟨m, hactive⟩) hactive
    next e trades hr =>
      cases hstep
      refine hrejected trades ?_ (Trades.registerClose_eq_error hr)
      rw [TradeTask.Admits, if_pos hcloses]
      rintro ⟨m, hm⟩
      rw [Trades.registerClose_of_opened hm] at hr
      cases hr
  next hcloses =>
    simp only [TradeController.step, TradeController.register, hcall] at hstep
    split at hstep
    next request trades hr =>
      obtain ⟨rfl, hactive, rfl⟩ := Trades.registerOpen_eq_ok hr
      cases hstep
      rw [isOver_setCall]
      exact @StepCase.registered _ _ _ _ task id s .open_ hcall
        (by rw [TradeTask.Admits, if_neg hcloses]; exact hactive) hactive
    next e trades hr =>
      cases hstep
      refine hrejected trades ?_ (Trades.registerOpen_eq_error hr)
      rw [TradeTask.Admits, if_neg hcloses]
      intro hnone
      rw [Trades.registerOpen_of_inactive hnone] at hr
      cases hr

theorem step_case {tasks : List (TradeTask α μ ε)} {s s' : TradeTasks α μ} {id : Nat}
    (h : step tasks s id = some s') :
    ∃ task, tasks[id]? = some task ∧ s.ended id = false ∧ StepCase task id s s' := by
  obtain ⟨task, htask, h⟩ := Option.bind_eq_some_iff.mp h
  split at h
  next => cases h
  next hended =>
    refine ⟨task, htask, Bool.eq_false_iff.mpr hended, ?_⟩
    unfold TradeTask.next at h
    cases hcall : s.controller.calls id with
    | none =>
      simp only [hcall] at h
      obtain ⟨controller, hstep, rfl⟩ := Option.map_eq_some_iff.mp h
      exact register_case hcall hstep
    | some call =>
      simp only [hcall] at h
      by_cases hstage : call.stage = .tracing
      · rw [if_pos hstage] at h
        obtain ⟨controller, hstep, rfl⟩ := Option.map_eq_some_iff.mp h
        simp only [TradeController.step, hcall, Option.bind_some, if_pos hstage,
          TradeController.proceed] at hstep
        cases hstep
        rw [isOver_setCall]
        exact .traced hcall hstage
      · rw [if_neg hstage] at h
        cases hresult : task.simulated with
        | none =>
          simp only [hresult, Option.map_none] at h
          cases h
          exact .panicked hcall hstage hresult
        | some result =>
          simp only [hresult, Option.map_some] at h
          obtain ⟨controller, hstep, rfl⟩ := Option.map_eq_some_iff.mp h
          simp only [TradeController.step, hcall, Option.bind_some] at hstep
          split at hstep
          next hready =>
            cases hstep
            rw [isOver_finish]
            refine .simulated hcall ?_ hresult
            rcases hready with hs | ⟨-, hs⟩
            · simp [hs]
            · simp [hs]
          next => cases hstep

end TradeTasks

end Pochtecatl
