import Mathlib.Order.Lattice
import Mathlib.Data.Nat.Sqrt

namespace Pochtecatl

/-- One, in units of the last of the 96 bits behind the binary point. -/
def oneBits : Nat := 1 <<< 96

/-- `fixed::types::U32F96`: 128 unsigned bits, 96 of them behind the binary
point. Arithmetic wraps, as in the release build the repository's README asks for. -/
structure U32F96 where
  bits : BitVec 128
  deriving DecidableEq

/-- `fixed::types::I32F96`: 128 signed bits, 96 of them behind the binary point. -/
structure I32F96 where
  bits : BitVec 128
  deriving DecidableEq

namespace U32F96

def raw (a : U32F96) : Nat := a.bits.toNat

theorem raw_injective : Function.Injective raw := by
  intro a b h
  cases a
  cases b
  simpa [raw, BitVec.toNat_inj] using h

instance : LinearOrder U32F96 := LinearOrder.lift' raw raw_injective

theorem le_iff_raw {a b : U32F96} : a ≤ b ↔ a.raw ≤ b.raw := Iff.rfl

def ofRaw (n : Nat) : U32F96 := ⟨BitVec.ofNat 128 n⟩

def fromNum (n : Nat) : U32F96 := ofRaw (n * oneBits)

def zero : U32F96 := ofRaw 0

def one : U32F96 := fromNum 1

def add (a b : U32F96) : U32F96 := ⟨a.bits + b.bits⟩

def mul (a b : U32F96) : U32F96 := ofRaw (a.raw * b.raw / oneBits)

/-- Division truncates; every divisor in the code is a non-zero constant. -/
def div (a b : U32F96) : U32F96 := ofRaw (a.raw * oneBits / b.raw)

def checkedSub (a b : U32F96) : Option U32F96 :=
  if b ≤ a then some ⟨a.bits - b.bits⟩ else none

/-- The square root, rounded down. -/
def sqrt (a : U32F96) : U32F96 := ofRaw (Nat.sqrt (a.raw * oneBits))

/-- `to_num::<I32F96>`: the same bits read as signed. -/
def toI32F96 (a : U32F96) : I32F96 := ⟨a.bits⟩

/-- `Iterator::sum::<U32F96>`. -/
def sum (l : List U32F96) : U32F96 := l.foldl add zero

end U32F96

namespace I32F96

def raw (a : I32F96) : Int := a.bits.toInt

def ofRaw (z : Int) : I32F96 := ⟨BitVec.ofInt 128 z⟩

def fromNum (n : Nat) : I32F96 := ofRaw (n * oneBits)

def zero : I32F96 := ofRaw 0

def one : I32F96 := fromNum 1

def add (a b : I32F96) : I32F96 := ⟨a.bits + b.bits⟩

def sub (a b : I32F96) : I32F96 := ⟨a.bits - b.bits⟩

/-- Multiplication rounds down. -/
def mul (a b : I32F96) : I32F96 := ofRaw (a.raw * b.raw / oneBits)

def div (a b : I32F96) : I32F96 := ofRaw (Int.tdiv (a.raw * oneBits) b.raw)

/-- `to_num::<U32F96>`: the same bits read as unsigned. -/
def toU32F96 (a : I32F96) : U32F96 := ⟨a.bits⟩

end I32F96

/-- `fixed::traits::LossyInto` for the floats `F`, which may lose digits. -/
structure LossyInto (F : Type) where
  ofU32F96 : U32F96 → F
  ofI32F96 : I32F96 → F

/-- All digits are kept, in units of the last one. -/
def LossyInto.raw : LossyInto Int := ⟨fun a => a.raw, I32F96.raw⟩

end Pochtecatl
