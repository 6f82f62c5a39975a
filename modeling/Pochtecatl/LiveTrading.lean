import Pochtecatl.TradeLedger
import Pochtecatl.Transaction

namespace Pochtecatl

/-- What became of a sent transaction. A pending one may be mined at any later time. -/
inductive TxStatus where
  | pending
  | mined
  | reverted
  | dropped
  deriving DecidableEq

/-- A transaction that moved funds or still can. -/
def TxStatus.Effective (status : Option TxStatus) : Prop :=
  status = some .pending ∨ status = some .mined

/-- The live controller and the chain. Each call sends at most one transaction, which
goes by the call's id. -/
structure LiveTrading (α ι ο : Type) where
  controller : TradeController α (TradeMetadata α ι ο)
  txs : Nat → Option TxStatus

/-- A step of a call up to its send, a confirmation callback with the answers of the
node, or a step of the chain. -/
inductive LiveStep (α ι ο ε : Type) where
  | call (a : ControllerStep α (TradeMetadata α ι ο) (MetadataError ε))
  | callback (id : Nat) (op : ο) (receipt : Except ε (Receipt ι)) (header : Except ε (Option Nat))
  | mine (id : Nat)
  | revert (id : Nat)
  | drop (id : Nat)

namespace LiveTrading

variable {α ι ο ε : Type} [DecidableEq α]

def new : LiveTrading α ι ο := ⟨.new, fun _ => none⟩

/-- The node answers with the receipt of the transaction it was asked for, once that is
in a block. A reverted transaction has no logs. -/
def Truthful (live : LiveTrading α ι ο) (id : Nat) : Except ε (Receipt ι) → Prop
  | .ok receipt => receipt.transactionHash = id ∧
      (live.txs id = some .mined ∨ live.txs id = some .reverted ∧ receipt.trades.isEmpty)
  | .error _ => True

instance (live : LiveTrading α ι ο) (id : Nat) (receipt : Except ε (Receipt ι)) :
    Decidable (live.Truthful id receipt) :=
  match receipt with
  | .ok _ => inferInstanceAs (Decidable (_ ∧ _))
  | .error _ => isTrue trivial

/-- The transactions after a step of a call: a successful send adds one. -/
def sent (live : LiveTrading α ι ο) :
    ControllerStep α (TradeMetadata α ι ο) (MetadataError ε) → Nat → Option TxStatus
  | .send id (.ok _) => Function.update live.txs id (some .pending)
  | _ => live.txs

def isConfirm {μ : Type} : ControllerStep α μ (MetadataError ε) → Bool
  | .confirm _ _ => true
  | _ => false

def settleTx (live : LiveTrading α ι ο) (id : Nat) (status : TxStatus) :
    Option (LiveTrading α ι ο) :=
  if live.txs id = some .pending then
    some { live with txs := Function.update live.txs id (some status) }
  else none

def step (live : LiveTrading α ι ο) : LiveStep α ι ο ε → Option (LiveTrading α ι ο)
  | .call a =>
    if isConfirm a then none
    else (live.controller.step .live a).map fun controller => ⟨controller, live.sent a⟩
  | .callback id op receipt header => (live.controller.calls id).bind fun call =>
    if live.Truthful id receipt then
      (live.controller.step .live
        (.confirm id (intoTradeMetadata id op call.token receipt header))).map
          fun controller => ⟨controller, live.txs⟩
    else none
  | .mine id => live.settleTx id .mined
  | .revert id => live.settleTx id .reverted
  | .drop id => live.settleTx id .dropped

def machine (α ι ο ε : Type) [DecidableEq α] :
    Machine (LiveTrading α ι ο) (LiveStep α ι ο ε) := ⟨step⟩

/-- The node leaves a callback without a complete answer only for a transaction that
has no effect. -/
def SilenceIsFinal (live : LiveTrading α ι ο) (a : LiveStep α ι ο ε) (_ : LiveTrading α ι ο) :
    Prop :=
  ∀ id op receipt header, a = .callback id op receipt header → ¬Answered receipt header →
    ¬TxStatus.Effective (live.txs id)

/-- The call's transaction closed the position with this opening transaction. -/
def ClosedOnChain (live : LiveTrading α ι ο) (opening : Nat) : Prop :=
  ∃ id token m stage, live.controller.calls id = some ⟨token, .close m, stage⟩ ∧
    m.txHash = opening ∧ live.txs id = some .mined

/-- An opening transaction of the token that exists on chain, unclosed, or still may. -/
def OpenOnChain (live : LiveTrading α ι ο) (token : α) (id : Nat) : Prop :=
  ∃ stage, live.controller.calls id = some ⟨token, .open_, stage⟩ ∧
    (live.txs id = some .pending ∨ live.txs id = some .mined ∧ ¬live.ClosedOnChain id)

/-- A closing transaction for this metadata that is on chain or still may be. -/
def CloseOnChain (live : LiveTrading α ι ο) (token : α) (m : TradeMetadata α ι ο) (id : Nat) :
    Prop :=
  ∃ stage, live.controller.calls id = some ⟨token, .close m, stage⟩ ∧
    TxStatus.Effective (live.txs id)

/-- The ledger agrees with the chain, and a call in flight does not repeat an effective
transaction. -/
structure AgreesWithChain (live : LiveTrading α ι ο) : Prop where
  empty : ∀ token, (live.controller.trades.view token).active = none →
    ∀ id, ¬live.OpenOnChain token id
  opened : ∀ token m, (live.controller.trades.view token).active = some (.opened m) →
    ∀ id, ¬live.CloseOnChain token m id
  opening : ∀ token id, live.controller.Pending token id .open_ →
    ∀ id', id' ≠ id → ¬live.OpenOnChain token id'
  closing : ∀ token id m, live.controller.Pending token id (.close m) →
    ∀ id', id' ≠ id → ¬live.CloseOnChain token m id'

end LiveTrading

end Pochtecatl
