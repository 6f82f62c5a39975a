import Pochtecatl.LiveTrading
import Pochtecatl.TradeAtomicity

namespace Pochtecatl

namespace TradeController

variable {α μ ε : Type} [DecidableEq α]

/-- The metadata of the position the confirmed requests of a token left open. -/
def held (s : TradeController α μ) (token : α) : Option μ :=
  (replay (s.confirmedOf token)).bind Prod.fst

theorem Agrees.held_of_pending {s : TradeController α μ} {token : α} {id : Nat}
    {request : PendingRequest μ} (h : s.Agrees token) (hp : s.Pending token id request) :
    request.reverted = (s.held token).map .opened := by
  obtain ⟨held, past, hr, -, -, -, hrev, -⟩ := h.of_pending hp
  rw [hrev, TradeController.held, hr]
  rfl

theorem Agrees.held_of_idle {s : TradeController α μ} {token : α} (h : s.Agrees token)
    (hidle : s.Idle token) : (s.trades.view token).active = (s.held token).map .opened := by
  obtain ⟨held, past, hr, -, ⟨-, hactive⟩ | ⟨id, request, hp, -⟩⟩ := h
  · rw [hactive, TradeController.held, hr]
    rfl
  · exact absurd hp (hidle id request)

theorem Agrees.held_of_opened {s : TradeController α μ} {token : α} {m : μ} (h : s.Agrees token)
    (hactive : (s.trades.view token).active = some (.opened m)) : s.held token = some m := by
  have hheld := (h.held_of_idle (h.idle_of_opened hactive)).symm.trans hactive
  obtain ⟨m', hm, he⟩ := Option.map_eq_some_iff.mp hheld
  rw [hm, Trade.opened.inj he]

theorem Agrees.held_of_close {s : TradeController α μ} {token : α} {id : Nat} {m : μ}
    (h : s.Agrees token) (hp : s.Pending token id (.close m)) : s.held token = some m := by
  have hrev := h.held_of_pending hp
  obtain ⟨m', hm, he⟩ := Option.map_eq_some_iff.mp hrev.symm
  rw [hm, Trade.opened.inj he]

theorem Agrees.held_of_open {s : TradeController α μ} {token : α} {id : Nat}
    (h : s.Agrees token) (hp : s.Pending token id .open_) : s.held token = none :=
  Option.map_eq_none_iff.mp (h.held_of_pending hp).symm

/-- A confirmation replaces the position of its token. -/
theorem finish_held {s : TradeController α μ} {id : Nat} {call : TradeCall α μ} {m : μ}
    (h : ∀ token, s.Agrees token) (hcall : s.InFlight id call) (token : α) :
    (s.finish id call (.ok m : Except ε μ)).held token =
      if token = call.token then (call.request.confirmed [] m).1 else s.held token := by
  have hconf : (s.finish id call (.ok m : Except ε μ)).confirmedOf token =
      s.confirmedOf token ++ if call.token = token then [call.request.confirmation m] else [] :=
    confirmedOf_append s _ _ _
  rw [held, hconf]
  by_cases ht : token = call.token
  · subst ht
    obtain ⟨held, past, hr, -, -, -, hrev, -⟩ := (h call.token).of_pending hcall.pending
    rw [if_pos rfl, if_pos rfl, replay_append_singleton, hr, Option.bind_some,
      PendingRequest.apply_confirmation hrev past m]
    cases call.request <;> rfl
  · rw [if_neg (Ne.symm ht), if_neg ht, List.append_nil, held]

end TradeController

namespace LiveTrading

variable {α ι ο ε : Type} [DecidableEq α]

/-- What the controller knows of the transactions of its finished calls: an effective
opening one is held or closed on chain, an effective closing one is no longer held. -/
structure Inv (live : LiveTrading α ι ο) : Prop where
  agrees : ∀ token, live.controller.Agrees token
  unsent : ∀ id, live.txs id ≠ none → ∃ call, live.controller.calls id = some call ∧
    (call.stage = .confirming ∨ call.stage = .resolved)
  opens : ∀ id token, live.controller.calls id = some ⟨token, .open_, .resolved⟩ →
    TxStatus.Effective (live.txs id) → live.txs id = some .mined ∧
      ((∃ m, live.controller.held token = some m ∧ m.txHash = id) ∨ live.ClosedOnChain id)
  closes : ∀ id token m, live.controller.calls id = some ⟨token, .close m, .resolved⟩ →
    TxStatus.Effective (live.txs id) → live.txs id = some .mined ∧
      ∀ m', live.controller.held token = some m' → m'.txHash ≠ m.txHash
  origin : ∀ id token m stage, live.controller.calls id = some ⟨token, .close m, stage⟩ →
    live.controller.calls m.txHash = some ⟨token, .open_, .resolved⟩
  holds : ∀ token m, live.controller.held token = some m →
    live.controller.calls m.txHash = some ⟨token, .open_, .resolved⟩

theorem new_inv : Inv (new : LiveTrading α ι ο) where
  agrees := TradeController.new_agrees
  unsent := fun id h => absurd rfl h
  opens := fun id token h => by cases h
  closes := fun id token m h => by cases h
  origin := fun id token m stage h => by cases h
  holds := fun token m h => by cases h

/-- Agreement with the chain, once the finished calls are accounted for. -/
theorem Inv.agreesWithChain {live : LiveTrading α ι ο} (h : live.Inv) : live.AgreesWithChain where
  empty := by
    rintro token hactive id ⟨stage, hc, heff⟩
    have hidle := (h.agrees token).idle_of_active fun request => by simp [hactive]
    have hheld : live.controller.held token = none := Option.map_eq_none_iff.mp
      (((h.agrees token).held_of_idle hidle).symm.trans hactive)
    have hres := TradeController.resolved_of_idle hidle hc
    subst hres
    obtain ⟨hmined, ⟨m, hm, -⟩ | hclosed⟩ := h.opens id token hc (heff.imp_right And.left)
    · rw [hheld] at hm
      cases hm
    · rcases heff with hp | ⟨-, hnot⟩
      · rw [hmined] at hp
        cases hp
      · exact hnot hclosed
  opened := by
    rintro token m hactive id ⟨stage, hc, heff⟩
    have hidle := (h.agrees token).idle_of_opened hactive
    have hheld := (h.agrees token).held_of_opened hactive
    have hres := TradeController.resolved_of_idle hidle hc
    subst hres
    exact (h.closes id token m hc heff).2 m hheld rfl
  opening := by
    rintro token id hp id' hne ⟨stage, hc, heff⟩
    have hheld := (h.agrees token).held_of_open hp
    have hres := (h.agrees token).resolved_of_pending hp hne hc
    subst hres
    obtain ⟨hmined, ⟨m, hm, -⟩ | hclosed⟩ := h.opens id' token hc (heff.imp_right And.left)
    · rw [hheld] at hm
      cases hm
    · rcases heff with hpend | ⟨-, hnot⟩
      · rw [hmined] at hpend
        cases hpend
      · exact hnot hclosed
  closing := by
    rintro token id m hp id' hne ⟨stage, hc, heff⟩
    have hheld := (h.agrees token).held_of_close hp
    have hres := (h.agrees token).resolved_of_pending hp hne hc
    subst hres
    exact (h.closes id' token m hc heff).2 m hheld rfl

omit [DecidableEq α] in
theorem ClosedOnChain.mono {live live' : LiveTrading α ι ο} {opening : Nat}
    (h : live.ClosedOnChain opening)
    (hkeep : ∀ id call, live.controller.calls id = some call → live.txs id = some .mined →
      ∃ stage, live'.controller.calls id = some ⟨call.token, call.request, stage⟩ ∧
        live'.txs id = some .mined) : live'.ClosedOnChain opening := by
  obtain ⟨id, token, m, stage, hc, ho, hm⟩ := h
  obtain ⟨stage', hc', hm'⟩ := hkeep id _ hc hm
  exact ⟨id, token, m, stage', hc', ho, hm'⟩

omit [DecidableEq α] in
/-- A call that is started or goes on was not resolved, so it is no position's opening call. -/
theorem ne_of_opened {live : LiveTrading α ι ο} {id i : Nat}
    {call : TradeCall α (TradeMetadata α ι ο)} {token : α}
    (hold : live.controller.calls id = none ∨ ∃ old, live.controller.InFlight id old ∧
      call.token = old.token ∧ call.request = old.request)
    (hc : live.controller.calls i = some ⟨token, .open_, .resolved⟩) : i ≠ id := by
  intro hid
  rw [hid] at hc
  rcases hold with hn | ⟨old, hin, -⟩
  · rw [hn] at hc
    cases hc
  · rw [hin.1] at hc
    cases Option.some.inj hc
    exact hin.2 rfl

omit [DecidableEq α] in
theorem ClosedOnChain.update {live live' : LiveTrading α ι ο} {id opening : Nat}
    {call : TradeCall α (TradeMetadata α ι ο)} (h : live.ClosedOnChain opening)
    (hcalls : live'.controller.calls = Function.update live.controller.calls id (some call))
    (hold : live.controller.calls id = none ∨ ∃ old, live.controller.InFlight id old ∧
      call.token = old.token ∧ call.request = old.request)
    (htxs : ∀ id', id' ≠ id → live'.txs id' = live.txs id')
    (hmined : live.txs id = some .mined → live'.txs id = some .mined) :
    live'.ClosedOnChain opening := by
  apply h.mono
  intro id' call' hc hm
  rw [hcalls]
  by_cases hid : id' = id
  · subst hid
    rcases hold with hn | ⟨old, hin, ht, hr⟩
    · rw [hn] at hc
      cases hc
    · cases Option.some.inj (hin.1.symm.trans hc)
      exact ⟨call.stage, by rw [Function.update_self, ← ht, ← hr], hmined hm⟩
  · rw [Function.update_of_ne hid, htxs id' hid]
    exact ⟨call'.stage, hc, hm⟩

/-- A step of one call: the invariant is at stake for that call only. -/
theorem Inv.update {live live' : LiveTrading α ι ο} {id : Nat} (h : live.Inv)
    (call : TradeCall α (TradeMetadata α ι ο))
    (hagrees : ∀ token, live'.controller.Agrees token)
    (hcalls : live'.controller.calls = Function.update live.controller.calls id (some call))
    (hold : live.controller.calls id = none ∨ ∃ old, live.controller.InFlight id old ∧
      call.token = old.token ∧ call.request = old.request)
    (htxs : ∀ id', id' ≠ id → live'.txs id' = live.txs id')
    (hunsent : live'.txs id ≠ none → call.stage = .confirming ∨ call.stage = .resolved)
    (hmined : live.txs id = some .mined → live'.txs id = some .mined)
    (hkeep : ∀ token m, live.controller.held token = some m →
      live'.controller.held token = some m ∨ live'.ClosedOnChain m.txHash)
    (hnew : ∀ token m, live'.controller.held token = some m →
      live.controller.held token = some m ∨ m.txHash = id ∧ call = ⟨token, .open_, .resolved⟩)
    (hopen : ∀ token, call = ⟨token, .open_, .resolved⟩ → TxStatus.Effective (live'.txs id) →
      live'.txs id = some .mined ∧ ∃ m, live'.controller.held token = some m ∧ m.txHash = id)
    (hclose : ∀ token m, call = ⟨token, .close m, .resolved⟩ →
      TxStatus.Effective (live'.txs id) → live'.txs id = some .mined ∧
        live'.controller.held token = none)
    (horigin : ∀ m, call.request = .close m →
      live.controller.calls m.txHash = some ⟨call.token, .open_, .resolved⟩) : live'.Inv := by
  have hself : live'.controller.calls id = some call := by rw [hcalls, Function.update_self]
  have hother : ∀ id', id' ≠ id → live'.controller.calls id' = live.controller.calls id' :=
    fun id' hne => by rw [hcalls, Function.update_of_ne hne]
  have hunresolved : ∀ i token, live.controller.calls i = some ⟨token, .open_, .resolved⟩ →
      i ≠ id := fun i token hc => ne_of_opened hold hc
  have hclosed : ∀ i, live.ClosedOnChain i → live'.ClosedOnChain i :=
    fun i hi => hi.update hcalls hold htxs hmined
  refine ⟨hagrees, fun id' hne => ?_, fun id' token hc heff => ?_, fun id' token m hc heff => ?_,
    fun id' token m stage hc => ?_, fun token m hm => ?_⟩
  · by_cases hid : id' = id
    · subst hid
      exact ⟨call, hself, hunsent hne⟩
    · rw [htxs id' hid] at hne
      rw [hother id' hid]
      exact h.unsent id' hne
  · by_cases hid : id' = id
    · subst hid
      obtain ⟨hm, hheld⟩ := hopen token (Option.some.inj (hself.symm.trans hc)) heff
      exact ⟨hm, Or.inl hheld⟩
    · rw [hother id' hid] at hc
      rw [htxs id' hid] at heff ⊢
      obtain ⟨hm, ⟨m, hheld, rfl⟩ | hcl⟩ := h.opens id' token hc heff
      · exact ⟨hm, (hkeep token m hheld).imp_left fun hk => ⟨m, hk, rfl⟩⟩
      · exact ⟨hm, Or.inr (hclosed id' hcl)⟩
  · by_cases hid : id' = id
    · subst hid
      obtain ⟨hm, hnone⟩ := hclose token m (Option.some.inj (hself.symm.trans hc)) heff
      refine ⟨hm, fun m' hm' => ?_⟩
      rw [hnone] at hm'
      cases hm'
    · rw [hother id' hid] at hc
      rw [htxs id' hid] at heff ⊢
      obtain ⟨hm, hgone⟩ := h.closes id' token m hc heff
      refine ⟨hm, fun m' hm' => ?_⟩
      rcases hnew token m' hm' with hm' | ⟨hid', -⟩
      · exact hgone m' hm'
      · rw [hid']
        exact fun he => hunresolved m.txHash token (h.origin id' token m .resolved hc) he.symm
  · by_cases hid : id' = id
    · subst hid
      cases Option.some.inj (hself.symm.trans hc)
      have ho := horigin m rfl
      rw [hother _ (hunresolved _ _ ho)]
      exact ho
    · rw [hother id' hid] at hc
      have ho := h.origin id' token m stage hc
      rw [hother _ (hunresolved _ _ ho)]
      exact ho
  · rcases hnew token m hm with hm' | ⟨hid, rfl⟩
    · have ho := h.holds token m hm'
      rw [hother _ (hunresolved _ _ ho)]
      exact ho
    · rw [hid]
      exact hself

/-- A step of the chain settles a pending transaction. -/
theorem Inv.settleTx {live live' : LiveTrading α ι ο} {id : Nat} {status : TxStatus}
    (h : live.Inv) (hs : live.settleTx id status = some live') : live'.Inv := by
  simp only [LiveTrading.settleTx] at hs
  split at hs
  next hp =>
    cases Option.some.inj hs
    have hstage : ∀ call, live.controller.calls id = some call →
        ∀ token, call ≠ ⟨token, .open_, .resolved⟩ ∧ ∀ m, call ≠ ⟨token, .close m, .resolved⟩ := by
      rintro call hc token
      constructor
      · rintro rfl
        have := (h.opens id token hc (Or.inl hp)).1
        rw [hp] at this
        cases this
      · rintro m rfl
        have := (h.closes id token m hc (Or.inl hp)).1
        rw [hp] at this
        cases this
    have hclosed : ∀ i, live.ClosedOnChain i → ClosedOnChain
        { live with txs := Function.update live.txs id (some status) } i := by
      refine fun i hi => hi.mono fun id' call hc hm => ⟨call.stage, hc, ?_⟩
      have hne : id' ≠ id := fun he => by rw [he, hp] at hm; cases hm
      simp only [Function.update_of_ne hne, hm]
    refine ⟨h.agrees, fun id' hne => ?_, fun id' token hc heff => ?_, fun id' token m hc heff => ?_,
      h.origin, h.holds⟩
    · by_cases hid : id' = id
      · subst hid
        exact h.unsent id' (by rw [hp]; simp)
      · exact h.unsent id' (by simpa [Function.update_of_ne hid] using hne)
    · have hid : id' ≠ id := fun he => (hstage _ (he ▸ hc) token).1 rfl
      simp only [Function.update_of_ne hid] at heff ⊢
      obtain ⟨hm, hheld⟩ := h.opens id' token hc heff
      exact ⟨hm, hheld.imp_right (hclosed id')⟩
    · have hid : id' ≠ id := fun he => (hstage _ (he ▸ hc) token).2 m rfl
      simp only [Function.update_of_ne hid] at heff ⊢
      exact h.closes id' token m hc heff
  next => simp at hs

omit [DecidableEq α] in
theorem sent_of_ne {live : LiveTrading α ι ο}
    {a : ControllerStep α (TradeMetadata α ι ο) (MetadataError ε)}
    (h : ∀ u, a ≠ .send a.id (.ok u)) : live.sent a = live.txs := by
  cases a with
  | send id result =>
    cases result with
    | ok u => exact absurd rfl (h u)
    | error e => rfl
  | _ => rfl

theorem Inv.txs_none {live : LiveTrading α ι ο} {id : Nat}
    {call : TradeCall α (TradeMetadata α ι ο)} (h : live.Inv)
    (hcall : live.controller.InFlight id call) (hstage : call.stage ≠ .confirming) :
    live.txs id = none := by
  by_contra hne
  obtain ⟨call', hc', hs'⟩ := h.unsent id hne
  cases Option.some.inj (hcall.1.symm.trans hc')
  exact hs'.elim hstage hcall.2

/-- A call that fails leaves its transaction, if any, without effect. -/
theorem Inv.failed {live : LiveTrading α ι ο} {id : Nat} {resolvedBy : ResolvedBy}
    {call : TradeCall α (TradeMetadata α ι ο)} (h : live.Inv)
    (hagrees : ∀ token, (live.controller.resolve id call resolvedBy
      (Trades.revert call.token call.request)).Agrees token)
    (hcall : live.controller.InFlight id call) (heff : ¬TxStatus.Effective (live.txs id)) :
    Inv ⟨live.controller.resolve id call resolvedBy (Trades.revert call.token call.request),
      live.txs⟩ := by
  refine h.update { call with stage := .resolved } hagrees (by rfl)
    (Or.inr ⟨call, hcall, rfl, rfl⟩) (fun _ _ => rfl) (fun _ => Or.inr rfl) (fun hm => hm)
    (fun token m hm => Or.inl hm) (fun token m hm => Or.inl hm) (fun token _ he => absurd he heff)
    (fun token m _ he => absurd he heff) (fun m he => ?_)
  have hc := hcall.1
  exact h.origin id call.token m call.stage (by rw [hc]; simp only [← he])

/-- A call is confirmed by the receipt of its mined transaction. -/
theorem Inv.confirmed {live : LiveTrading α ι ο} {id : Nat}
    {call : TradeCall α (TradeMetadata α ι ο)} {m : TradeMetadata α ι ο} (h : live.Inv)
    (hagrees : ∀ token, (live.controller.finish id call (Except.ok m : Except ε _)).Agrees token)
    (hcall : live.controller.InFlight id call) (hmined : live.txs id = some .mined)
    (hhash : m.txHash = id) :
    Inv ⟨live.controller.finish id call (Except.ok m : Except ε _), live.txs⟩ := by
  have hheld := TradeController.finish_held (ε := ε) (m := m) h.agrees hcall
  obtain ⟨token, request, stage⟩ := call
  cases request with
  | open_ =>
    have hnone := (h.agrees token).held_of_open hcall.pending
    refine h.update ⟨token, .open_, .resolved⟩ hagrees (by rfl) (Or.inr ⟨_, hcall, rfl, rfl⟩)
      (fun _ _ => rfl) (fun _ => Or.inr rfl) (fun hm => hm) (fun other m' hm' => Or.inl ?_)
      (fun other m' hm' => ?_) (fun other he _ => ⟨hmined, m, ?_, hhash⟩)
      (fun other m' he => by cases he) (fun m' he => by cases he)
    · rw [hheld other]
      by_cases ho : other = token
      · rw [ho, hnone] at hm'
        cases hm'
      · rw [if_neg ho]
        exact hm'
    · rw [hheld other] at hm'
      by_cases ho : other = token
      · rw [if_pos ho] at hm'
        cases Option.some.inj hm'
        exact Or.inr ⟨hhash, by rw [ho]⟩
      · rw [if_neg ho] at hm'
        exact Or.inl hm'
    · cases he
      rw [hheld token, if_pos rfl]
      rfl
  | close openTrade =>
    have hsome := (h.agrees token).held_of_close hcall.pending
    refine h.update ⟨token, .close openTrade, .resolved⟩ hagrees (by rfl)
      (Or.inr ⟨_, hcall, rfl, rfl⟩)
      (fun _ _ => rfl) (fun _ => Or.inr rfl) (fun hm => hm) (fun other m' hm' => ?_)
      (fun other m' hm' => Or.inl ?_) (fun other he => by cases he)
      (fun other m' he _ => ⟨hmined, ?_⟩) (fun m' he => ?_)
    · by_cases ho : other = token
      · rw [ho, hsome] at hm'
        cases Option.some.inj hm'
        exact Or.inr ⟨id, token, openTrade, .resolved, Function.update_self _ _ _, rfl, hmined⟩
      · rw [hheld other, if_neg ho]
        exact Or.inl hm'
    · rw [hheld other] at hm'
      by_cases ho : other = token
      · rw [if_pos ho] at hm'
        cases hm'
      · rw [if_neg ho] at hm'
        exact hm'
    · cases he
      rw [hheld token, if_pos rfl]
      rfl
    · cases he
      exact h.origin id token openTrade stage hcall.1

/-- A registration, trace, request or send. -/
theorem Inv.call {live : LiveTrading α ι ο} {controller : TradeController α (TradeMetadata α ι ο)}
    {a : ControllerStep α (TradeMetadata α ι ο) (MetadataError ε)} (h : live.Inv)
    (ha : isConfirm a = false) (hstep : live.controller.step .live a = some controller) :
    Inv ⟨controller, live.sent a⟩ := by
  have hagrees := fun token => TradeController.step_agrees h.agrees hstep token
  cases TradeController.step_case hstep with
  | rejected hid hreg hsame =>
    have htxs : live.sent a = live.txs := sent_of_ne fun u he => by
      rcases hreg with hr | hr <;> rw [he] at hr <;> cases hr
    rw [htxs]
    exact ⟨hagrees, h.unsent, h.opens, h.closes, h.origin, h.holds⟩
  | opened hid hactive htoken hreg =>
    have htxs : live.sent a = live.txs := sent_of_ne fun u he => by rw [he] at hreg; cases hreg
    rw [htxs]
    refine h.update _ hagrees (by rfl) (Or.inl hid) (fun _ _ => rfl) (fun hne => ?_) (fun hm => hm)
      (fun token m hm => Or.inl hm) (fun token m hm => Or.inl hm) (fun token he => by cases he)
      (fun token m he => by cases he) (fun m he => by cases he)
    obtain ⟨call, hc, -⟩ := h.unsent a.id hne
    rw [hid] at hc
    cases hc
  | @closing token m hid hactive htoken hreg =>
    have htxs : live.sent a = live.txs := sent_of_ne fun u he => by rw [he] at hreg; cases hreg
    have hheld := (h.agrees token).held_of_opened hactive
    rw [htxs]
    refine h.update _ hagrees (by rfl) (Or.inl hid) (fun _ _ => rfl) (fun hne => ?_) (fun hm => hm)
      (fun token m hm => Or.inl hm) (fun token m hm => Or.inl hm) (fun token he => by cases he)
      (fun token m he => by cases he) (fun m' he => ?_)
    · obtain ⟨call, hc, -⟩ := h.unsent a.id hne
      rw [hid] at hc
      cases hc
    · cases he
      exact h.holds token m hheld
  | @advanced call next hcall htoken hnext hstage hsend =>
    have hnone := h.txs_none hcall hstage
    refine h.update { call with stage := next } hagrees (by rfl)
      (Or.inr ⟨call, hcall, rfl, rfl⟩) (fun id' hne => ?_)
      (fun hne => Or.inl ?_) (fun hm => ?_) (fun token m hm => Or.inl hm)
      (fun token m hm => Or.inl hm) (fun token he => ?_) (fun token m he => ?_) (fun m he => ?_)
    · by_cases hs : ∃ u, a = .send a.id (.ok u)
      · obtain ⟨u, hs⟩ := hs
        simp only [sent]
        rw [hs]
        exact Function.update_of_ne hne _ _
      · exact congrFun (sent_of_ne fun u he => hs ⟨u, he⟩) id'
    · by_contra hc
      refine hne ?_
      have htxs : live.sent a = live.txs := sent_of_ne fun u he => hc (hsend.mpr ⟨u, he⟩)
      simp only [htxs, hnone]
    · rw [hnone] at hm
      cases hm
    · exact absurd (congrArg TradeCall.stage he) hnext
    · exact absurd (congrArg TradeCall.stage he) hnext
    · have hc := hcall.1
      exact h.origin a.id call.token m call.stage (by rw [hc]; simp only [← he])
  | @failed call resolvedBy hcall htoken hfails hstage =>
    have hconf : call.stage ≠ .confirming := by
      rcases hstage with hs | ⟨e, he⟩
      · exact hs
      · rw [he] at ha
        cases ha
    have htxs : live.sent a = live.txs := sent_of_ne fun u he => by
      rw [he] at hfails
      obtain ⟨e, he⟩ := hfails
      cases he
    rw [htxs]
    exact h.failed hagrees hcall (by simp [TxStatus.Effective, h.txs_none hcall hconf])
  | confirmed hcall htoken hconf =>
    rw [hconf] at ha
    cases ha

/-- A callback without a complete answer reverts its call; the others confirm it. -/
theorem step_callback {live live' : LiveTrading α ι ο} {id : Nat} {op : ο}
    {receipt : Except ε (Receipt ι)} {header : Except ε (Option Nat)}
    (h : live.step (.callback id op receipt header) = some live') :
    ∃ call, live.controller.InFlight id call ∧ call.stage = .confirming ∧
      ((¬Answered receipt header ∧ live' = ⟨live.controller.resolve id call .callback
          (Trades.revert call.token call.request), live.txs⟩) ∨
        ∃ m, Answered receipt header ∧ live.txs id = some .mined ∧ m.txHash = id ∧ live' =
          ⟨live.controller.finish id call (Except.ok m : Except (MetadataError ε) _), live.txs⟩) := by
  obtain ⟨call, hc, h⟩ := Option.bind_eq_some_iff.mp h
  split at h
  next htrue =>
    obtain ⟨controller, hstep, rfl⟩ := Option.map_eq_some_iff.mp h
    obtain ⟨call', hc', hstep⟩ := Option.bind_eq_some_iff.mp hstep
    cases Option.some.inj (hc.symm.trans hc')
    split at hstep
    next hstage =>
      have hconf : call.stage = .confirming := by simpa using hstage
      cases Option.some.inj hstep
      refine ⟨call, ⟨hc, by simp [hconf]⟩, hconf, ?_⟩
      cases hr : intoTradeMetadata id op call.token receipt header with
      | ok m =>
        obtain ⟨hanswered, r, rfl, hhash, htrades⟩ := intoTradeMetadata_eq_ok hr
        obtain ⟨hid, hmined | ⟨-, hempty⟩⟩ := htrue
        · exact Or.inr ⟨m, hanswered, hmined, hhash.trans hid, rfl⟩
        · exact absurd (List.isEmpty_iff.mp hempty) htrades
      | error e =>
        refine Or.inl ⟨fun hanswered => ?_, rfl⟩
        obtain ⟨m, hm⟩ := @intoTradeMetadata_of_answered _ _ _ _ id op call.token _ _ hanswered
        rw [hr] at hm
        cases hm
    next => simp at hstep
  next => simp at h

theorem step_inv {live live' : LiveTrading α ι ο} {a : LiveStep α ι ο ε} (h : live.Inv)
    (hstep : live.step a = some live') (hfinal : live.SilenceIsFinal a live') : live'.Inv := by
  cases a with
  | call a =>
    simp only [step] at hstep
    split at hstep
    next => simp at hstep
    next ha =>
      obtain ⟨controller, hc, rfl⟩ := Option.map_eq_some_iff.mp hstep
      exact h.call (by simpa using ha) hc
  | callback id op receipt header =>
    obtain ⟨call, hcall, -, ⟨hno, rfl⟩ | ⟨m, -, hmined, hhash, rfl⟩⟩ := step_callback hstep
    · refine h.failed (fun token => ?_) hcall (hfinal id op receipt header rfl hno)
      exact TradeController.Agrees.failed h.agrees hcall token
    · refine h.confirmed (fun token => ?_) hcall hmined hhash
      exact TradeController.Agrees.confirmed h.agrees hcall token
  | mine id => exact h.settleTx hstep
  | revert id => exact h.settleTx hstep
  | drop id => exact h.settleTx hstep

/-- A call reverted while its transaction is pending or mined breaks the agreement. -/
theorem step_breaks {live live' : LiveTrading α ι ο} {a : LiveStep α ι ο ε} (h : live.Inv)
    (hstep : live.step a = some live') (hfinal : ¬live.SilenceIsFinal a live') :
    ¬live'.AgreesWithChain := by
  simp only [SilenceIsFinal, not_forall, not_not] at hfinal
  obtain ⟨id, op, receipt, header, rfl, hno, heff⟩ := hfinal
  obtain ⟨⟨token, request, stage⟩, hcall, hstage, ⟨-, rfl⟩ | ⟨m, hanswered, -⟩⟩ :=
    step_callback hstep
  · have hresolved : live.controller.resolve id ⟨token, request, stage⟩ .callback
        (Trades.revert token request) = _ :=
      TradeController.resolve_trades (TradeController.revert_eq h.agrees hcall)
    intro hagree
    cases request with
    | open_ =>
      refine hagree.empty token ?_ id ⟨.resolved, Function.update_self _ _ _, ?_⟩
      · simp only [hresolved, Trades.view_withActive_self, PendingRequest.reverted]
      · refine heff.imp_right fun hm => ⟨hm, ?_⟩
        rintro ⟨id', token', m, stage', hc', ho, -⟩
        -- a close of this opening would need it to be confirmed already
        have hne : id' ≠ id := fun he => by
          rw [he] at hc'
          cases (Function.update_self _ _ _).symm.trans hc'
        have hold := (Function.update_of_ne hne _ _).symm.trans hc'
        have horigin := h.origin id' token' m stage' hold
        rw [ho, hcall.1] at horigin
        cases horigin
        exact hcall.2 rfl
    | close m =>
      refine hagree.opened token m ?_ id ⟨.resolved, Function.update_self _ _ _, heff⟩
      simp only [hresolved, Trades.view_withActive_self, PendingRequest.reverted]
  · exact absurd hanswered hno

/-- Along a run, ledger and chain agree throughout exactly when every callback left
without a complete answer is for a transaction that has no effect. -/
theorem agreesWithChain_iff (steps : List (LiveStep α ι ο ε)) :
    (machine α ι ο ε).Throughout AgreesWithChain new steps ↔
      (machine α ι ο ε).Along SilenceIsFinal new steps :=
  Machine.throughout_iff_along (I := Inv) (fun _ h => h.agreesWithChain)
    (fun _ _ _ h hstep hp => step_inv h hstep hp)
    (fun _ _ _ h hstep hp => step_breaks h hstep hp) new_inv

/-- An open whose transaction is still pending when the node gives no receipt in time. -/
def lateOpen : List (LiveStep Nat Unit Unit Unit) :=
  [.call (.openPosition 0 7), .call (.trace 0 (.ok ())),
    .call (.makeTradeTransactionRequest 0 (.ok ())), .call (.send 0 (.ok ())),
    .callback 0 () (.error ()) (.error ()), .mine 0]

/-- The ledger shows no position although the open is mined after the timeout. -/
theorem lateOpen_disagrees : ∃ live,
    (machine Nat Unit Unit Unit).run new lateOpen = some live ∧
      (live.controller.trades.view 7).active = none ∧ live.txs 0 = some .mined ∧
      ¬live.AgreesWithChain := by
  refine ⟨_, rfl, rfl, rfl, fun hagree => ?_⟩
  refine hagree.empty 7 rfl 0 ⟨.resolved, rfl, Or.inr ⟨rfl, ?_⟩⟩
  rintro ⟨id, token, m, stage, hc, -, -⟩
  rcases id with - | id
  · cases hc
  · cases hc

end LiveTrading

end Pochtecatl
