import Pochtecatl.SettledTokens

namespace Pochtecatl

variable {α μ ε : Type} [DecidableEq α] {task : TradeTask α μ ε} {t : AddressTrades μ}

/-- There is no position, or an open one. -/
def AddressTrades.NotPending (t : AddressTrades μ) : Prop :=
  t.active = none ∨ ∃ m, t.active = some (.opened m)

/-- No token is marked as pending. -/
def Trades.NonePending (trades : Trades α μ) : Prop := ∀ token, (trades.view token).NotPending

omit [DecidableEq α] in
theorem TradeTask.Admits.notPending (h : task.Admits t.active) : t.NotPending := by
  by_cases hcloses : task.closes
  · exact .inr ((admits_close hcloses).mp h)
  · exact .inl ((admits_open hcloses).mp h)

omit [DecidableEq α] in
theorem not_notPending_settle : ¬(t.settle none).NotPending := by
  have hactive : (t.settle none).active = some t.pendingMark := rfl
  rintro (hnone | ⟨m, hm⟩)
  · rw [hactive] at hnone
    cases hnone
  · rw [hactive] at hm
    exact pendingMark_ne_opened m (Option.some.inj hm)

omit [DecidableEq α] in
theorem notPending_settle (h : t.NotPending) (outcome : Option μ) :
    (t.settle (some outcome)).NotPending := by
  cases outcome with
  | none => exact h
  | some m =>
    rcases h with hactive | ⟨openTrade, hactive⟩
    · simp only [AddressTrades.settle, hactive]
      exact .inr ⟨m, rfl⟩
    · simp only [AddressTrades.settle, hactive]
      exact .inl rfl

namespace TradeTasks

variable {tasks : List (TradeTask α μ ε)} {trades : Trades α μ} {s : TradeTasks α μ} {id : Nat}

/-- The first task to run is registered. -/
theorem step_spawn (hdispatched : Dispatched tasks trades)
    (hstep : step tasks (spawn trades) id = some s) : (s.controller.calls id).isSome := by
  obtain ⟨task, htask, -, hcase⟩ := step_case hstep
  cases hcase with
  | rejected _ hrejected _ =>
    exact absurd (hdispatched task (List.mem_of_getElem? htask)) hrejected
  | registered =>
    dsimp only [TradeController.setCall]
    rw [Function.update_self]
    rfl
  | traced hcall _ => cases hcall
  | panicked hcall _ _ => cases hcall
  | simulated hcall _ _ => cases hcall

/-- A task that panics after it was registered leaves its token pending. -/
theorem not_notPending_of_panic (hdispatched : Dispatched tasks trades) {schedule : List Nat}
    (hrun : (machine tasks).run (spawn trades) schedule = some s)
    (htask : tasks[id]? = some task) (hpanic : task.simulated = none)
    (hcall : (s.controller.calls id).isSome) : ¬(s.controller.trades.view task.token).NotPending := by
  obtain ⟨hcalls, hstate⟩ := run_tokenState hdispatched hrun
  obtain ⟨call, hcall⟩ := Option.isSome_iff_exists.mp hcall
  obtain ⟨task', htask', htoken, hcases⟩ := hcalls id call hcall
  cases htask.symm.trans htask'
  have hp : s.controller.Pending task.token id call.request := by
    rw [← htoken]
    refine TradeController.InFlight.pending ⟨hcall, ?_⟩
    rcases hcases with ⟨hstage, -⟩ | ⟨hstage, -⟩ | ⟨-, -, hreturn⟩
    · rw [hstage]
      decide
    · rw [hstage]
      decide
    · exact absurd hpanic hreturn
  cases hstate task.token with
  | fresh _ hidle _ => exact absurd hp (hidle id call.request)
  | settled _ _ _ hidle _ => exact absurd hp (hidle id call.request)
  | pending _ _ _ _ hview =>
    rw [hview]
    exact not_notPending_settle

/-- Every way to join the tasks leaves no token pending if and only if none was pending before
and no task panics. -/
theorem joined_nonePending_iff (hdispatched : Dispatched tasks trades) :
    (∀ schedule s, (machine tasks).run (spawn trades) schedule = some s → s.Joined tasks →
        s.controller.trades.NonePending) ↔
      trades.NonePending ∧ ∀ task ∈ tasks, task.simulated ≠ none := by
  have hspawn : CallsOk tasks (spawn trades) := spawn_callsOk
  constructor
  · intro h
    refine ⟨fun token => ?_, fun task htask hpanic => ?_⟩
    · obtain ⟨schedule, s, hrun, hjoined⟩ := exists_joined hspawn
      rcases joined_view hdispatched hrun hjoined token with ⟨-, hview⟩ | ⟨task, htask, rfl, -⟩
      · have hnone := h schedule s hrun hjoined token
        rwa [hview] at hnone
      · exact (hdispatched task htask).notPending
    · obtain ⟨id, hid⟩ := List.mem_iff_getElem?.mp htask
      obtain ⟨t, hstep⟩ := exists_step hspawn hid rfl
      obtain ⟨schedule, s, hrun, hjoined⟩ := exists_joined (hspawn.step hstep)
      have hfull : (machine tasks).run (spawn trades) (id :: schedule) = some s :=
        Machine.run_cons_eq_some.mpr ⟨t, hstep, hrun⟩
      have hcall : (s.controller.calls id).isSome :=
        Machine.run_invariant (I := fun s : TradeTasks α μ => (s.controller.calls id).isSome)
          (fun _ _ _ hsome hstep => (step_frame hstep).2 id hsome) hrun
          (step_spawn hdispatched hstep)
      exact not_notPending_of_panic hdispatched hfull hid hpanic hcall
        (h (id :: schedule) s hfull hjoined task.token)
  · rintro ⟨hnone, hreturn⟩ schedule s hrun hjoined token
    rcases joined_view hdispatched hrun hjoined token with ⟨-, hview⟩ | ⟨task, htask, -, hview⟩
    · rw [hview]
      exact hnone token
    · obtain ⟨result, hresult⟩ := Option.ne_none_iff_exists'.mp (hreturn task htask)
      rw [hview, TradeTask.outcome, hresult, Option.map_some]
      exact notPending_settle (hnone token) _

end TradeTasks

end Pochtecatl
