import Mathlib.Init

namespace Pochtecatl

/-- A broadcast channel for one value: what was sent, and whether its sender is gone. -/
structure Channel (β : Type) where
  sent : List β
  closed : Bool

/-- A subscription to a channel. It sees what is sent after the first `seen` values. -/
structure Receiver where
  tx : Nat
  seen : Nat
  deriving DecidableEq

inductive Recv (β : Type) where
  | pending
  | value (v : β)
  | error

structure AsyncValue (β : Type) where
  value : Option β
  tx : Nat

inductive AsyncReceiverOrValue (β : Type) where
  | receiver (r : Receiver)
  | value (v : β)

variable {β : Type}

def Channel.new : Channel β := ⟨[], false⟩

def Channel.send (c : Channel β) (v : β) : Channel β := { c with sent := c.sent ++ [v] }

def Channel.close (c : Channel β) : Channel β := { c with closed := true }

/-- What `recv` gives: the one value that is buffered, an error when it was overwritten or
can no longer come, and otherwise it waits. -/
def Channel.recv (c : Channel β) (r : Receiver) : Recv β :=
  match c.sent.drop r.seen with
  | [] => if c.closed then .error else .pending
  | [v] => .value v
  | _ => .error

def AsyncValue.new (tx : Nat) : AsyncValue β := ⟨none, tx⟩

def AsyncValue.getReceiverOrValue (asyncValue : AsyncValue β) (channels : Nat → Channel β) :
    AsyncReceiverOrValue β :=
  match asyncValue.value with
  | some v => .value v
  | none => .receiver ⟨asyncValue.tx, (channels asyncValue.tx).sent.length⟩

def AsyncValue.set (asyncValue : AsyncValue β) (v : β) : AsyncValue β :=
  { asyncValue with value := some v }

end Pochtecatl
