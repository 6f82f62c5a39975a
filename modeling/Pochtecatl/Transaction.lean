import Mathlib.Init

namespace Pochtecatl

variable {α ι ο ε : Type}

/-- A transaction receipt. `trades` are the indexed trades its logs parse to. -/
structure Receipt (ι : Type) where
  transactionHash : Nat
  blockNumber : Option Nat
  gasUsed : Option Nat
  effectiveGasPrice : Nat
  trades : List ι

structure TradeMetadata (α ι ο : Type) where
  txHash : Nat
  blockNumber : Nat
  blockTimestamp : Nat
  op : ο
  tokenAddress : α
  gasFee : Nat
  indexedTrade : ι

/-- Why a sent transaction yields no metadata. -/
inductive MetadataError (ε : Type) where
  | node (e : ε)
  | receipt (txHash : Nat) (e : ε)
  | blockNumberNotFound
  | gasUsedNotFound
  | headerNotFound (blockNumber : Option Nat)
  | noIndexedTrade (txHash : Nat)

/-- `Transaction::into_trade_metadata`, given what the node answers: the receipt within
the timeout, then the timestamp of the header of its block. -/
def intoTradeMetadata (txHash : Nat) (op : ο) (tokenAddress : α)
    (receipt : Except ε (Receipt ι)) (header : Except ε (Option Nat)) :
    Except (MetadataError ε) (TradeMetadata α ι ο) := do
  let confirmedReceipt ← receipt.mapError (.receipt txHash)
  let blockNumber ← match confirmedReceipt.blockNumber with
    | some blockNumber => .ok blockNumber
    | none => .error .blockNumberNotFound
  let gasUsed ← match confirmedReceipt.gasUsed with
    | some gasUsed => .ok gasUsed
    | none => .error .gasUsedNotFound
  let header ← header.mapError .node
  let blockTimestamp ← match header with
    | some timestamp => .ok timestamp
    | none => .error (.headerNotFound confirmedReceipt.blockNumber)
  let indexedTrade ← match confirmedReceipt.trades.head? with
    | some trade => .ok trade
    | none => .error (.noIndexedTrade confirmedReceipt.transactionHash)
  pure ⟨confirmedReceipt.transactionHash, blockNumber, blockTimestamp, op, tokenAddress,
    gasUsed * confirmedReceipt.effectiveGasPrice, indexedTrade⟩

/-- The node answered everything that metadata needs. -/
def Answered (receipt : Except ε (Receipt ι)) (header : Except ε (Option Nat)) : Prop :=
  ∃ r timestamp, receipt = .ok r ∧ r.blockNumber.isSome ∧ r.gasUsed.isSome ∧
    header = .ok (some timestamp) ∧ r.trades ≠ []

/-- Metadata comes from a complete answer, under the hash of its receipt. -/
theorem intoTradeMetadata_eq_ok {txHash : Nat} {op : ο} {token : α}
    {receipt : Except ε (Receipt ι)} {header : Except ε (Option Nat)} {m : TradeMetadata α ι ο}
    (h : intoTradeMetadata txHash op token receipt header = .ok m) :
    Answered receipt header ∧ ∃ r, receipt = .ok r ∧ m.txHash = r.transactionHash ∧
      r.trades ≠ [] := by
  cases receipt with
  | error e => cases h
  | ok r =>
    obtain ⟨hash, blockNumber, gasUsed, price, trades⟩ := r
    cases blockNumber with
    | none => cases h
    | some n =>
      cases gasUsed with
      | none => cases h
      | some g =>
        cases header with
        | error e => cases h
        | ok header =>
          cases header with
          | none => cases h
          | some t =>
            cases trades with
            | nil => cases h
            | cons trade rest =>
              cases h
              exact ⟨⟨_, t, rfl, rfl, rfl, rfl, List.cons_ne_nil _ _⟩, _, rfl, rfl,
                List.cons_ne_nil _ _⟩

theorem intoTradeMetadata_of_answered {txHash : Nat} {op : ο} {token : α}
    {receipt : Except ε (Receipt ι)} {header : Except ε (Option Nat)}
    (h : Answered receipt header) : ∃ m : TradeMetadata α ι ο,
      intoTradeMetadata txHash op token receipt header = .ok m := by
  obtain ⟨⟨hash, blockNumber, gasUsed, price, trades⟩, t, rfl, hn, hg, rfl, htrades⟩ := h
  obtain ⟨n, rfl⟩ := Option.isSome_iff_exists.mp hn
  obtain ⟨g, rfl⟩ := Option.isSome_iff_exists.mp hg
  cases trades with
  | nil => exact absurd rfl htrades
  | cons trade rest => exact ⟨_, rfl⟩

end Pochtecatl
