import Mathlib.Logic.Function.Basic
import Pochtecatl.StateResult

namespace Pochtecatl

inductive Trade (μ : Type) where
  | pendingOpen
  | opened (metadata : μ)
  | pendingClose
  deriving DecidableEq

def Trade.label {μ : Type} : Trade μ → String
  | pendingOpen => "Pending Open"
  | opened _ => "Open"
  | pendingClose => "Pending Close"

structure AddressTrades (μ : Type) where
  active : Option (Trade μ)
  closed : List (μ × μ)

namespace AddressTrades

variable {μ : Type}

def empty : AddressTrades μ := ⟨none, []⟩

def close (trades : AddressTrades μ) (openTrade committedTrade : μ) : AddressTrades μ :=
  ⟨none, trades.closed ++ [(openTrade, committedTrade)]⟩

/-- `std::mem::replace` on the active trade. -/
def setActive (trades : AddressTrades μ) (trade : Option (Trade μ)) :
    Option (Trade μ) × AddressTrades μ :=
  (trades.active, { trades with active := trade })

end AddressTrades

inductive TradesError (α μ : Type) where
  | missingTrade (address : α)
  | noOpenTrade (address : α)
  | unexpectedActive (existing : Option (Trade μ))
  | positionExists (address : α)

/-- The map behind the lock. -/
abbrev Trades (α μ : Type) := α → Option (AddressTrades μ)

abbrev TradesM (α μ : Type) := EStateM (TradesError α μ) (Trades α μ)

/-- What a reader of the map sees of a token. -/
def Trades.view {α μ : Type} (trades : Trades α μ) (token : α) : AddressTrades μ :=
  (trades token).getD .empty

/-- The map with the active trade of a token replaced. -/
def Trades.withActive {α μ : Type} [DecidableEq α] (trades : Trades α μ) (token : α)
    (trade : Option (Trade μ)) : Trades α μ :=
  Function.update trades token (some { trades.view token with active := trade })

/-- The map after a rejected call: readers see no difference. -/
structure Trades.Unchanged {α μ : Type} (trades trades' : Trades α μ) : Prop where
  view : ∀ token, trades'.view token = trades.view token
  present : ∀ token, (trades token).isSome → (trades' token).isSome

/-- A position being opened, or an open one being closed. -/
inductive PendingRequest (μ : Type) where
  | open_
  | close (openTrade : μ)

/-- The active trade a failed request goes back to. -/
def PendingRequest.reverted {μ : Type} : PendingRequest μ → Option (Trade μ)
  | .open_ => none
  | .close openTrade => some (.opened openTrade)

namespace Trades

variable {α μ ε : Type} [DecidableEq α]

def setActive (address : α) (trade : Option (Trade μ)) : TradesM α μ (Option (Trade μ)) :=
  fun trades => match trades address with
    | some addressTrades =>
      let (existing, addressTrades) := addressTrades.setActive trade
      .ok existing (Function.update trades address (some addressTrades))
    | none => .error (.missingTrade address) trades

def close (address : α) (openTrade committedTrade : μ) : TradesM α μ Unit :=
  fun trades => match trades address with
    | some addressTrades =>
      .ok () (Function.update trades address (some (addressTrades.close openTrade committedTrade)))
    | none => .error (.missingTrade address) trades

/-- `open_position` up to the release of its write lock. -/
def registerOpen (token : α) : TradesM α μ (PendingRequest μ) := fun trades =>
  let addressTrades := (trades token).getD .empty
  match addressTrades.active with
  | none => .ok .open_ (Function.update trades token
      (some (addressTrades.setActive (some .pendingOpen)).2))
  | some _ => .error (.positionExists token) (Function.update trades token (some addressTrades))

/-- `close_position` up to the release of its write lock. -/
def registerClose (token : α) : TradesM α μ (PendingRequest μ) := fun trades =>
  match trades token with
  | none => .error (.noOpenTrade token) trades
  | some addressTrades =>
    let (existing, pending) := addressTrades.setActive (some .pendingClose)
    match existing with
    | some (.opened openTrade) =>
      .ok (.close openTrade) (Function.update trades token (some pending))
    | existing =>
      .error (.unexpectedActive existing)
        (Function.update trades token (some (pending.setActive existing).2))

/-- What a failed trace, request, send or confirmation does. -/
def revert (token : α) : PendingRequest μ → TradesM α μ Unit
  | .open_ => do let _ ← setActive token none
  | .close openTrade => do let _ ← setActive token (some (.opened openTrade))

/-- The confirmation callback. -/
def onConfirmed (token : α) (request : PendingRequest μ) : Except ε μ → TradesM α μ Unit
  | .ok committedTrade => match request with
    | .open_ => do let _ ← setActive token (some (.opened committedTrade))
    | .close openTrade => close token openTrade committedTrade
  | .error _ => revert token request

section View

variable {trades : Trades α μ} {token : α} {t : AddressTrades μ}

theorem view_update_self (t : AddressTrades μ) :
    view (Function.update trades token (some t)) token = t := by simp [view]

theorem view_update_of_ne {other : α} (t : Option (AddressTrades μ)) (h : other ≠ token) :
    view (Function.update trades token t) other = view trades other := by
  simp [view, Function.update_of_ne h]

@[simp] theorem view_withActive_self (trade : Option (Trade μ)) :
    view (withActive trades token trade) token = { view trades token with active := trade } :=
  view_update_self _

theorem view_withActive_of_ne {other : α} (trade : Option (Trade μ)) (h : other ≠ token) :
    view (withActive trades token trade) other = view trades other := view_update_of_ne _ h

theorem unchanged_update (h : trades token = some t ∨ trades token = none ∧ t = .empty) :
    Unchanged trades (Function.update trades token (some t)) := by
  constructor
  · intro other
    by_cases ho : other = token
    · subst ho
      rcases h with h | ⟨h, rfl⟩ <;> simp [view, h]
    · exact view_update_of_ne _ ho
  · intro other hp
    by_cases ho : other = token
    · simp [ho]
    · rwa [Function.update_of_ne ho]

theorem setActive_of_present (h : (trades token).isSome) (trade : Option (Trade μ)) :
    (do let _ ← setActive token trade : TradesM α μ Unit) trades =
      .ok () (withActive trades token trade) := by
  obtain ⟨t, ht⟩ := Option.isSome_iff_exists.mp h
  refine EStateM.bind_of_ok (a := t.active) ?_
  simp only [setActive, ht, AddressTrades.setActive, withActive, view, Option.getD_some]

theorem revert_of_present (h : (trades token).isSome) (request : PendingRequest μ) :
    revert token request trades = .ok () (withActive trades token request.reverted) := by
  cases request with
  | open_ => exact setActive_of_present h none
  | close openTrade => exact setActive_of_present h _

theorem close_of_present (h : (trades token).isSome) (openTrade committedTrade : μ) :
    close token openTrade committedTrade trades = .ok () (Function.update trades token
      (some ((view trades token).close openTrade committedTrade))) := by
  obtain ⟨t, ht⟩ := Option.isSome_iff_exists.mp h
  simp only [close, ht, view, Option.getD_some]

/-- An accepted open finds no position and marks the token. -/
theorem registerOpen_eq_ok {request : PendingRequest μ} {trades' : Trades α μ}
    (h : registerOpen token trades = .ok request trades') :
    request = .open_ ∧ (view trades token).active = none ∧
      trades' = withActive trades token (some .pendingOpen) := by
  unfold registerOpen at h
  simp only [AddressTrades.setActive] at h
  split at h
  next hn =>
    injection h with hr ht
    exact ⟨hr.symm, hn, ht.symm⟩
  next => simp at h

theorem registerOpen_of_inactive (h : (view trades token).active = none) :
    registerOpen token trades =
      .ok .open_ (withActive trades token (some .pendingOpen)) := by
  have hactive : ((trades token).getD .empty).active = none := h
  simp only [registerOpen, hactive, AddressTrades.setActive, withActive, view]

theorem registerOpen_eq_error {e : TradesError α μ} {trades' : Trades α μ}
    (h : registerOpen token trades = .error e trades') : Unchanged trades trades' := by
  unfold registerOpen at h
  simp only at h
  split at h
  next => simp at h
  next =>
    injection h with _ ht
    subst ht
    refine unchanged_update ?_
    cases trades token <;> simp

/-- An accepted close takes the metadata of the open position it found. -/
theorem registerClose_eq_ok {request : PendingRequest μ} {trades' : Trades α μ}
    (h : registerClose token trades = .ok request trades') :
    ∃ m, request = .close m ∧ (view trades token).active = some (.opened m) ∧
      trades' = withActive trades token (some .pendingClose) := by
  unfold registerClose at h
  split at h
  next => simp at h
  next t ht =>
    simp only [AddressTrades.setActive] at h
    split at h
    next m hm =>
      injection h with hr hs
      refine ⟨m, hr.symm, by simp [view, ht, hm], ?_⟩
      simpa [withActive, view, ht] using hs.symm
    next => simp at h

theorem registerClose_of_opened {m : μ} (h : (view trades token).active = some (.opened m)) :
    registerClose token trades =
      .ok (.close m) (withActive trades token (some .pendingClose)) := by
  cases ht : trades token with
  | none => simp [view, ht, AddressTrades.empty] at h
  | some t =>
    have hactive : t.active = some (.opened m) := by simpa [view, ht] using h
    simp only [registerClose, ht, AddressTrades.setActive, hactive, withActive, view,
      Option.getD_some]

theorem registerClose_eq_error {e : TradesError α μ} {trades' : Trades α μ}
    (h : registerClose token trades = .error e trades') : Unchanged trades trades' := by
  unfold registerClose at h
  split at h
  next =>
    injection h with _ ht
    exact ht ▸ ⟨fun _ => rfl, fun _ hp => hp⟩
  next t ht =>
    simp only [AddressTrades.setActive] at h
    split at h
    next => simp at h
    next =>
      injection h with _ hs
      subst hs
      exact unchanged_update (Or.inl ht)

end View

end Trades

end Pochtecatl
