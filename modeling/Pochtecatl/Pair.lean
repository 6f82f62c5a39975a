import Pochtecatl.DexProvider
import Pochtecatl.IndexedTrade

namespace Pochtecatl

def UNISWAP_V3_FACTORY_ADDRESS : Address := 0x33128a8fC17869897dcE68Ed026d694621f6FDfD

structure UniswapV2Pair where
  address : Address
  token0 : Address
  token1 : Address
  deriving DecidableEq

structure UniswapV3Pair where
  address : Address
  token0 : Address
  token1 : Address
  fee : BitVec 32
  deriving DecidableEq

def UniswapV2Pair.tokenAddress (pair : UniswapV2Pair) : Address :=
  if pair.token0 = WETH_ADDRESS then pair.token1 else pair.token0

def UniswapV3Pair.tokenAddress (pair : UniswapV3Pair) : Address :=
  if pair.token0 = WETH_ADDRESS then pair.token1 else pair.token0

inductive Pair where
  | uniswapV2 (pair : UniswapV2Pair)
  | uniswapV3 (pair : UniswapV3Pair)
  deriving DecidableEq

namespace Pair

def address : Pair → Address
  | uniswapV2 pair => pair.address
  | uniswapV3 pair => pair.address

def tokenAddress : Pair → Address
  | uniswapV2 pair => pair.tokenAddress
  | uniswapV3 pair => pair.tokenAddress

end Pair

/-- The getters that a pair input calls. -/
inductive PairCall where
  | token0
  | token1
  | fee
  | factory
  deriving DecidableEq

/-- The data is the call of a getter. -/
structure Call3 where
  target : Address
  allowFailure : Bool
  callData : PairCall
  deriving DecidableEq

/-- `multicall3::Result`. -/
structure MulticallResult where
  success : Bool
  returnData : List (BitVec 8)
  deriving DecidableEq

/-- The generated decoders of the returned bytes. -/
structure PairAbi where
  decodeAddress : List (BitVec 8) → Option Address
  decodeFee : List (BitVec 8) → Option (BitVec 32)

/-- The value of the call at position `i`, if it was answered and succeeded. -/
def MulticallResult.decodeAt {β : Type} (decode : List (BitVec 8) → Option β)
    (results : List MulticallResult) (i : Nat) : Option β :=
  results[i]?.bind fun r => if r.success then decode r.returnData else none

structure UniswapV2PairInput where
  address : Address
  deriving DecidableEq

structure UniswapV3PairInput where
  address : Address
  deriving DecidableEq

def UniswapV2PairInput.calls (pairInput : UniswapV2PairInput) : List Call3 :=
  [⟨pairInput.address, true, .token0⟩, ⟨pairInput.address, true, .token1⟩]

def UniswapV3PairInput.calls (pairInput : UniswapV3PairInput) : List Call3 :=
  [⟨pairInput.address, true, .token0⟩, ⟨pairInput.address, true, .token1⟩,
    ⟨pairInput.address, true, .fee⟩, ⟨pairInput.address, true, .factory⟩]

def UniswapV2PairInput.decode (abi : PairAbi) (pairInput : UniswapV2PairInput)
    (results : List MulticallResult) : Option UniswapV2Pair := do
  let token0 ← MulticallResult.decodeAt abi.decodeAddress results 0
  let token1 ← MulticallResult.decodeAt abi.decodeAddress results 1
  if token0 = WETH_ADDRESS ∨ token1 = WETH_ADDRESS then some ⟨pairInput.address, token0, token1⟩
  else none

def UniswapV3PairInput.decode (abi : PairAbi) (pairInput : UniswapV3PairInput)
    (results : List MulticallResult) : Option UniswapV3Pair := do
  let token0 ← MulticallResult.decodeAt abi.decodeAddress results 0
  let token1 ← MulticallResult.decodeAt abi.decodeAddress results 1
  let fee ← MulticallResult.decodeAt abi.decodeFee results 2
  let factory ← MulticallResult.decodeAt abi.decodeAddress results 3
  if factory ≠ UNISWAP_V3_FACTORY_ADDRESS then none
  else if token0 ≠ WETH_ADDRESS ∧ token1 ≠ WETH_ADDRESS then none
  else some ⟨pairInput.address, token0, token1, fee⟩

inductive PairInput where
  | uniswapV2 (pairInput : UniswapV2PairInput)
  | uniswapV3 (pairInput : UniswapV3PairInput)
  deriving DecidableEq

namespace PairInput

def address : PairInput → Address
  | uniswapV2 pairInput => pairInput.address
  | uniswapV3 pairInput => pairInput.address

def calls : PairInput → List Call3
  | uniswapV2 pairInput => pairInput.calls
  | uniswapV3 pairInput => pairInput.calls

def decode (abi : PairAbi) : PairInput → List MulticallResult → Option Pair
  | uniswapV2 pairInput, results => (pairInput.decode abi results).map .uniswapV2
  | uniswapV3 pairInput, results => (pairInput.decode abi results).map .uniswapV3

def ofIndexedTrade : IndexedTrade → PairInput
  | .uniswapV2 trade => uniswapV2 ⟨trade.pairAddress⟩
  | .uniswapV3 trade => uniswapV3 ⟨trade.pairAddress⟩

theorem target_of_mem_calls (pairInput : PairInput) :
    ∀ call ∈ pairInput.calls, call.target = pairInput.address := by
  intro call hm
  cases pairInput with
  | uniswapV2 pairInput =>
    simp only [calls, UniswapV2PairInput.calls, List.mem_cons, List.not_mem_nil, or_false] at hm
    rcases hm with rfl | rfl <;> rfl
  | uniswapV3 pairInput =>
    simp only [calls, UniswapV3PairInput.calls, List.mem_cons, List.not_mem_nil, or_false] at hm
    rcases hm with rfl | rfl | rfl | rfl <;> rfl

/-- A pair is built with the address that was asked for. -/
theorem address_of_decode {abi : PairAbi} {pairInput : PairInput}
    {results : List MulticallResult} {pair : Pair}
    (h : pairInput.decode abi results = some pair) : pair.address = pairInput.address := by
  cases pairInput with
  | uniswapV2 pairInput =>
    obtain ⟨pair, hp, rfl⟩ := Option.map_eq_some_iff.mp h
    simp only [UniswapV2PairInput.decode, bind, Option.bind_eq_some_iff] at hp
    obtain ⟨token0, -, token1, -, hp⟩ := hp
    split at hp
    next => cases hp; rfl
    next => cases hp
  | uniswapV3 pairInput =>
    obtain ⟨pair, hp, rfl⟩ := Option.map_eq_some_iff.mp h
    simp only [UniswapV3PairInput.decode, bind, Option.bind_eq_some_iff] at hp
    obtain ⟨token0, -, token1, -, fee, -, factory, -, hp⟩ := hp
    split at hp
    next => cases hp
    next =>
      split at hp
      next => cases hp
      next => cases hp; rfl

end PairInput

/-- The pair inputs that `get_pairs` takes. -/
def uniswapPairInput (abi : PairAbi) :
    DexPairInput Address Call3 PairInput MulticallResult Pair where
  address := PairInput.address
  calls := PairInput.calls
  target := Call3.target
  target_calls := PairInput.target_of_mem_calls
  decode := PairInput.decode abi

end Pochtecatl
