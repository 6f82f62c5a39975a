import Pochtecatl.AbiCalls
import Pochtecatl.TradeTransaction

namespace Pochtecatl

open Abi

namespace Calldata

def MULTICALL3_ADDRESS : Address := 0xca11bde05977b3631167028862be2a173976ca11

/-- The fields of a request that the builders set. -/
structure TransactionRequest where
  from_ : Option Address := none
  to_ : Option Address := none
  value : Option U256 := none
  input : List Byte := []
  deriving DecidableEq

/-! ### The called functions

A selector is the first four bytes of the Keccak hash of the signature. -/

/-- `getReserves()` -/
def getReserves : SolCall Unit :=
  ⟨0x0902f1ac, .nil⟩

structure SwapExactETHForTokensCall where
  amountOutMin : U256
  path : List Address
  to_ : Address
  deadline : U256
  deriving DecidableEq

/-- `swapExactETHForTokens(uint256,address[],address,uint256)` -/
def swapExactETHForTokens : SolCall SwapExactETHForTokensCall :=
  ⟨0x7ff36ab5, (Fields.cons .uint256 (.cons (.array .address) (.cons .address
    (.cons .uint256 .nil)))).struct
      (fun call => (call.amountOutMin, call.path, call.to_, call.deadline, ()))
      (fun (amountOutMin, path, to_, deadline, _) => ⟨amountOutMin, path, to_, deadline⟩)
      fun _ => rfl⟩

structure SwapExactTokensForETHCall where
  amountIn : U256
  amountOutMin : U256
  path : List Address
  to_ : Address
  deadline : U256
  deriving DecidableEq

/-- `swapExactTokensForETH(uint256,uint256,address[],address,uint256)` -/
def swapExactTokensForETH : SolCall SwapExactTokensForETHCall :=
  ⟨0x18cbafe5, (Fields.cons .uint256 (.cons .uint256 (.cons (.array .address) (.cons .address
    (.cons .uint256 .nil))))).struct
      (fun call => (call.amountIn, call.amountOutMin, call.path, call.to_, call.deadline, ()))
      (fun (amountIn, amountOutMin, path, to_, deadline, _) =>
        ⟨amountIn, amountOutMin, path, to_, deadline⟩)
      fun _ => rfl⟩

/-- The fee is a `uint24` and the limit a `uint160`. -/
def quoteExactInputSingleParams : Fields QuoteExactInputSingleParams :=
  (Fields.cons .address (.cons .address (.cons .uint256 (.cons .uint24
    (.cons (.uintWord 160) .nil))))).struct
      (fun params => (params.tokenIn, params.tokenOut, params.amountIn, params.fee,
        params.sqrtPriceLimitX96, ()))
      (fun (tokenIn, tokenOut, amountIn, fee, sqrtPriceLimitX96, _) =>
        ⟨tokenIn, tokenOut, amountIn, fee, sqrtPriceLimitX96⟩)
      fun _ => rfl

structure QuoteExactInputSingleCall where
  params : QuoteExactInputSingleParams
  deriving DecidableEq

/-- `quoteExactInputSingle((address,address,uint256,uint24,uint160))` -/
def quoteExactInputSingle : SolCall QuoteExactInputSingleCall :=
  ⟨0xc6a5026a, (Fields.cons (quoteExactInputSingleParams.codec (by decide)) .nil).struct
    (fun call => (call.params, ())) (fun (params, _) => ⟨params⟩) fun _ => rfl⟩

structure Call3 where
  target : Address
  allowFailure : Bool
  callData : List Byte
  deriving DecidableEq

def Call3.fields : Fields Call3 :=
  (Fields.cons .address (.cons .bool (.cons .bytes .nil))).struct
    (fun call => (call.target, call.allowFailure, call.callData, ()))
    (fun (target, allowFailure, callData, _) => ⟨target, allowFailure, callData⟩)
    fun _ => rfl

def Call3.codec : Codec Call3 :=
  Call3.fields.codec (by decide)

structure Aggregate3Call where
  calls : List Call3
  deriving DecidableEq

/-- `aggregate3((address,bool,bytes)[])` -/
def aggregate3 : SolCall Aggregate3Call :=
  ⟨0x82ad56cb, (Fields.cons (.array Call3.codec) .nil).struct
    (fun call => (call.calls, ())) (fun (calls, _) => ⟨calls⟩) fun _ => rfl⟩

/-! ### The builders

A `Vec<u8>` is itself a value, and has some encoding as bytes. -/

/-- A vector holds at most `isize::MAX` bytes; `none` is the panic beyond. -/
def allocate (bytes : List Byte) : Option (List Byte) :=
  if bytes.length < 2 ^ 63 then some bytes else none

/-- The data is encoded once more. -/
def getReservesTxRequest (encoding : BytesEncoding) (signerAddress pairAddress : Address) :
    Option TransactionRequest := do
  let data ← allocate (getReserves.abiEncode ())
  let input ← allocate (encoding.abiEncode data)
  pure { from_ := some signerAddress, to_ := some pairAddress, input := input }

def swapExactEthForTokensTxRequest (signerAddress : Address)
    (inputEthAmount outputTokenAmountMin : U256) (outputTokenAddress : Address) (deadline : U256) :
    Option TransactionRequest := do
  let data ← allocate (swapExactETHForTokens.abiEncode
    ⟨outputTokenAmountMin, [WETH_ADDRESS, outputTokenAddress], signerAddress, deadline⟩)
  pure { from_ := some signerAddress, to_ := some UNISWAP_V2_ROUTER_02_ADDRESS,
         value := some inputEthAmount, input := data }

def swapExactTokensForEthTxRequest (signerAddress : Address)
    (inputTokenAmount outputEthAmountMin : U256) (inputTokenAddress : Address) (deadline : U256) :
    Option TransactionRequest := do
  let data ← allocate (swapExactTokensForETH.abiEncode
    ⟨inputTokenAmount, outputEthAmountMin, [inputTokenAddress, WETH_ADDRESS], signerAddress,
      deadline⟩)
  pure { from_ := some signerAddress, to_ := some UNISWAP_V2_ROUTER_02_ADDRESS, input := data }

/-- The data is encoded once more. -/
def quoteExactInputSingleTxRequest (encoding : BytesEncoding)
    (signerAddress tokenIn tokenOut : Address) (amountIn : U256) (fee : BitVec 32)
    (sqrtPriceLimitX96 : U256) : Option TransactionRequest := do
  let data ← allocate (quoteExactInputSingle.abiEncode
    ⟨⟨tokenIn, tokenOut, amountIn, fee, sqrtPriceLimitX96⟩⟩)
  let input ← allocate (encoding.abiEncode data)
  pure { from_ := some signerAddress, to_ := some UNISWAP_V3_QUOTER_V2_ADDRESS, input := input }

def multicallTxRequest (calls : List Call3) : Option TransactionRequest := do
  let data ← allocate (aggregate3.abiEncode ⟨calls⟩)
  pure { to_ := some MULTICALL3_ADDRESS, input := data }

/-- A builder and its arguments. -/
inductive TxRequestBuilder where
  | getReserves (signerAddress pairAddress : Address)
  | swapExactEthForTokens (signerAddress : Address) (inputEthAmount outputTokenAmountMin : U256)
    (outputTokenAddress : Address) (deadline : U256)
  | swapExactTokensForEth (signerAddress : Address) (inputTokenAmount outputEthAmountMin : U256)
    (inputTokenAddress : Address) (deadline : U256)
  | quoteExactInputSingle (signerAddress tokenIn tokenOut : Address) (amountIn : U256)
    (fee : BitVec 32) (sqrtPriceLimitX96 : U256)
  | multicall (calls : List Call3)

namespace TxRequestBuilder

def build (encoding : BytesEncoding) : TxRequestBuilder → Option TransactionRequest
  | getReserves signerAddress pairAddress =>
    getReservesTxRequest encoding signerAddress pairAddress
  | swapExactEthForTokens signerAddress inputEthAmount outputTokenAmountMin outputTokenAddress
      deadline =>
    swapExactEthForTokensTxRequest signerAddress inputEthAmount outputTokenAmountMin
      outputTokenAddress deadline
  | swapExactTokensForEth signerAddress inputTokenAmount outputEthAmountMin inputTokenAddress
      deadline =>
    swapExactTokensForEthTxRequest signerAddress inputTokenAmount outputEthAmountMin
      inputTokenAddress deadline
  | quoteExactInputSingle signerAddress tokenIn tokenOut amountIn fee sqrtPriceLimitX96 =>
    quoteExactInputSingleTxRequest encoding signerAddress tokenIn tokenOut amountIn fee
      sqrtPriceLimitX96
  | multicall calls => multicallTxRequest calls

/-- The input decodes to the named call with the arguments of the builder. -/
def Decodes (input : List Byte) : TxRequestBuilder → Prop
  | getReserves _ _ => Calldata.getReserves.abiDecode input = some ()
  | swapExactEthForTokens signerAddress _ outputTokenAmountMin outputTokenAddress deadline =>
    swapExactETHForTokens.abiDecode input =
      some ⟨outputTokenAmountMin, [WETH_ADDRESS, outputTokenAddress], signerAddress, deadline⟩
  | swapExactTokensForEth signerAddress inputTokenAmount outputEthAmountMin inputTokenAddress
      deadline =>
    swapExactTokensForETH.abiDecode input =
      some ⟨inputTokenAmount, outputEthAmountMin, [inputTokenAddress, WETH_ADDRESS],
        signerAddress, deadline⟩
  | quoteExactInputSingle _ tokenIn tokenOut amountIn fee sqrtPriceLimitX96 =>
    Calldata.quoteExactInputSingle.abiDecode input =
      some ⟨⟨tokenIn, tokenOut, amountIn, fee, sqrtPriceLimitX96⟩⟩
  | multicall calls => aggregate3.abiDecode input = some ⟨calls⟩

/-- The builder encodes the data of its call once more. -/
def EncodesTwice : TxRequestBuilder → Prop
  | getReserves _ _ | quoteExactInputSingle _ _ _ _ _ _ => True
  | swapExactEthForTokens _ _ _ _ _ | swapExactTokensForEth _ _ _ _ _ | multicall _ => False

/-- The calls of a multicall do not fit into a vector. -/
def TooLong : TxRequestBuilder → Prop
  | multicall calls => 2 ^ 63 ≤ (aggregate3.abiEncode ⟨calls⟩).length
  | _ => False

end TxRequestBuilder

/-! ### What the builders encode -/

section Allocate

variable {bytes input : List Byte}

theorem allocate_eq_some_iff :
    allocate bytes = some input ↔ bytes.length < 2 ^ 63 ∧ bytes = input := by
  unfold allocate
  split
  next h => exact ⟨fun heq => ⟨h, Option.some.inj heq⟩, fun heq => congrArg some heq.2⟩
  next h => exact ⟨fun heq => (by cases heq), fun heq => absurd heq.1 h⟩

theorem allocate_eq_none_iff : allocate bytes = none ↔ 2 ^ 63 ≤ bytes.length := by
  unfold allocate
  split
  next h => exact ⟨fun heq => (by cases heq), fun heq => by omega⟩
  next h => exact ⟨fun _ => by omega, fun _ => rfl⟩

end Allocate

/-! ### Every argument fits its type -/

theorem uint256_valid (v : U256) : Codec.uint256.Valid v :=
  v.isLt

theorem path_valid (path : List Address) : (Codec.array .address).Valid path :=
  fun _ _ => trivial

theorem swapExactETHForTokens_valid (call : SwapExactETHForTokensCall) :
    swapExactETHForTokens.arguments.Valid call :=
  ⟨uint256_valid _, path_valid _, trivial, uint256_valid _, trivial⟩

theorem swapExactTokensForETH_valid (call : SwapExactTokensForETHCall) :
    swapExactTokensForETH.arguments.Valid call :=
  ⟨uint256_valid _, uint256_valid _, path_valid _, trivial, uint256_valid _, trivial⟩

theorem aggregate3_valid (call : Aggregate3Call) : aggregate3.arguments.Valid call :=
  ⟨fun _ _ => ⟨trivial, trivial, trivial, trivial⟩, trivial⟩

/-! ### The lengths of the calls -/

theorem length_getReserves : (getReserves.abiEncode ()).length = 4 := by
  have hwords : (layout (getReserves.arguments.items ())).length = 0 := rfl
  rw [SolCall.length_abiEncode, hwords]

example : getReserves.abiEncode () = [0x09, 0x02, 0xf1, 0xac] := by decide

/-- Four heads, and the two tokens of the path behind their number. -/
theorem length_swapExactETHForTokens (amountOutMin : U256) (token0 token1 to_ : Address)
    (deadline : U256) : (swapExactETHForTokens.abiEncode
      ⟨amountOutMin, [token0, token1], to_, deadline⟩).length = 228 := by
  have hwords : (layout (swapExactETHForTokens.arguments.items
      ⟨amountOutMin, [token0, token1], to_, deadline⟩)).length = 7 := rfl
  rw [SolCall.length_abiEncode, hwords]

theorem length_swapExactTokensForETH (amountIn amountOutMin : U256) (token0 token1 to_ : Address)
    (deadline : U256) : (swapExactTokensForETH.abiEncode
      ⟨amountIn, amountOutMin, [token0, token1], to_, deadline⟩).length = 260 := by
  have hwords : (layout (swapExactTokensForETH.arguments.items
      ⟨amountIn, amountOutMin, [token0, token1], to_, deadline⟩)).length = 8 := rfl
  rw [SolCall.length_abiEncode, hwords]

theorem length_quoteExactInputSingle (params : QuoteExactInputSingleParams) :
    (quoteExactInputSingle.abiEncode ⟨params⟩).length = 164 := by
  have hwords : (layout (quoteExactInputSingle.arguments.items ⟨params⟩)).length = 5 := rfl
  rw [SolCall.length_abiEncode, hwords]

/-! ### What the builders build

A call of fixed length is always allocated, also when it is encoded twice. -/

theorem bind_allocate {β : Type} {bytes : List Byte} (h : bytes.length < 2 ^ 63)
    (f : List Byte → Option β) : (allocate bytes >>= f) = f bytes := by
  rw [allocate_eq_some_iff.mpr ⟨h, rfl⟩]
  rfl

theorem bind_allocate_encoded {β : Type} (encoding : BytesEncoding) {bytes : List Byte}
    (h : bytes.length < 2 ^ 57) (f : List Byte → Option β) :
    (allocate bytes >>= fun data => allocate (encoding.abiEncode data) >>= f) =
      f (encoding.abiEncode bytes) := by
  have hlength := encoding.length_abiEncode_le bytes
  have hinput : (encoding.abiEncode bytes).length < 2 ^ 63 := by omega
  rw [bind_allocate (by omega), bind_allocate hinput]

theorem getReservesTxRequest_eq (encoding : BytesEncoding) (signerAddress pairAddress : Address) :
    getReservesTxRequest encoding signerAddress pairAddress =
      some { from_ := some signerAddress, to_ := some pairAddress,
             input := encoding.abiEncode (getReserves.abiEncode ()) } := by
  have hlength : (getReserves.abiEncode ()).length < 2 ^ 57 := by
    rw [length_getReserves]
    omega
  exact bind_allocate_encoded encoding hlength _

theorem swapExactEthForTokensTxRequest_eq (signerAddress : Address)
    (inputEthAmount outputTokenAmountMin : U256) (outputTokenAddress : Address) (deadline : U256) :
    swapExactEthForTokensTxRequest signerAddress inputEthAmount outputTokenAmountMin
      outputTokenAddress deadline =
        some { from_ := some signerAddress, to_ := some UNISWAP_V2_ROUTER_02_ADDRESS,
               value := some inputEthAmount,
               input := swapExactETHForTokens.abiEncode ⟨outputTokenAmountMin,
                 [WETH_ADDRESS, outputTokenAddress], signerAddress, deadline⟩ } := by
  have hlength : (swapExactETHForTokens.abiEncode ⟨outputTokenAmountMin,
      [WETH_ADDRESS, outputTokenAddress], signerAddress, deadline⟩).length < 2 ^ 63 := by
    rw [length_swapExactETHForTokens]
    omega
  exact bind_allocate hlength _

theorem swapExactTokensForEthTxRequest_eq (signerAddress : Address)
    (inputTokenAmount outputEthAmountMin : U256) (inputTokenAddress : Address) (deadline : U256) :
    swapExactTokensForEthTxRequest signerAddress inputTokenAmount outputEthAmountMin
      inputTokenAddress deadline =
        some { from_ := some signerAddress, to_ := some UNISWAP_V2_ROUTER_02_ADDRESS,
               input := swapExactTokensForETH.abiEncode ⟨inputTokenAmount, outputEthAmountMin,
                 [inputTokenAddress, WETH_ADDRESS], signerAddress, deadline⟩ } := by
  have hlength : (swapExactTokensForETH.abiEncode ⟨inputTokenAmount, outputEthAmountMin,
      [inputTokenAddress, WETH_ADDRESS], signerAddress, deadline⟩).length < 2 ^ 63 := by
    rw [length_swapExactTokensForETH]
    omega
  exact bind_allocate hlength _

theorem quoteExactInputSingleTxRequest_eq (encoding : BytesEncoding)
    (signerAddress tokenIn tokenOut : Address) (amountIn : U256) (fee : BitVec 32)
    (sqrtPriceLimitX96 : U256) :
    quoteExactInputSingleTxRequest encoding signerAddress tokenIn tokenOut amountIn fee
      sqrtPriceLimitX96 =
        some { from_ := some signerAddress, to_ := some UNISWAP_V3_QUOTER_V2_ADDRESS,
               input := encoding.abiEncode (quoteExactInputSingle.abiEncode
                 ⟨⟨tokenIn, tokenOut, amountIn, fee, sqrtPriceLimitX96⟩⟩) } := by
  have hlength : (quoteExactInputSingle.abiEncode
      ⟨⟨tokenIn, tokenOut, amountIn, fee, sqrtPriceLimitX96⟩⟩).length < 2 ^ 57 := by
    rw [length_quoteExactInputSingle]
    omega
  exact bind_allocate_encoded encoding hlength _

theorem multicallTxRequest_eq {calls : List Call3}
    (h : (aggregate3.abiEncode ⟨calls⟩).length < 2 ^ 63) : multicallTxRequest calls =
      some { to_ := some MULTICALL3_ADDRESS, input := aggregate3.abiEncode ⟨calls⟩ } :=
  bind_allocate h _

theorem multicallTxRequest_eq_none {calls : List Call3}
    (h : 2 ^ 63 ≤ (aggregate3.abiEncode ⟨calls⟩).length) : multicallTxRequest calls = none := by
  have hdata := allocate_eq_none_iff.mpr h
  simp only [multicallTxRequest, hdata, Option.bind_eq_bind, Option.bind_none]

/-! ### What the inputs decode to -/

theorem swapExactETHForTokens_decode (amountOutMin : U256) (token0 token1 to_ : Address)
    (deadline : U256) : swapExactETHForTokens.abiDecode (swapExactETHForTokens.abiEncode
      ⟨amountOutMin, [token0, token1], to_, deadline⟩) =
        some ⟨amountOutMin, [token0, token1], to_, deadline⟩ := by
  have hlength := length_swapExactETHForTokens amountOutMin token0 token1 to_ deadline
  exact SolCall.abiDecode_abiEncode (swapExactETHForTokens_valid _) (by omega)

theorem swapExactTokensForETH_decode (amountIn amountOutMin : U256)
    (token0 token1 to_ : Address) (deadline : U256) :
    swapExactTokensForETH.abiDecode (swapExactTokensForETH.abiEncode
      ⟨amountIn, amountOutMin, [token0, token1], to_, deadline⟩) =
        some ⟨amountIn, amountOutMin, [token0, token1], to_, deadline⟩ := by
  have hlength := length_swapExactTokensForETH amountIn amountOutMin token0 token1 to_ deadline
  exact SolCall.abiDecode_abiEncode (swapExactTokensForETH_valid _) (by omega)

namespace TxRequestBuilder

theorem decodes_multicall {calls : List Call3}
    (h : (aggregate3.abiEncode ⟨calls⟩).length < 2 ^ 63) :
    (multicall calls).Decodes (aggregate3.abiEncode ⟨calls⟩) :=
  SolCall.abiDecode_abiEncode (aggregate3_valid _) (by omega)

theorem not_decodes_getReserves (encoding : BytesEncoding) (signerAddress pairAddress : Address)
    (bytes : List Byte) :
    ¬(getReserves signerAddress pairAddress).Decodes (encoding.abiEncode bytes) := by
  have hselector : Calldata.getReserves.selectorBytes ≠ [0, 0, 0, 0] := by decide
  intro h
  unfold Decodes at h
  rw [SolCall.abiDecode_encodedTwice encoding.dynamic_eq hselector] at h
  cases h

theorem not_decodes_quoteExactInputSingle (encoding : BytesEncoding)
    (signerAddress tokenIn tokenOut : Address) (amountIn : U256) (fee : BitVec 32)
    (sqrtPriceLimitX96 : U256) (bytes : List Byte) :
    ¬(quoteExactInputSingle signerAddress tokenIn tokenOut amountIn fee
      sqrtPriceLimitX96).Decodes (encoding.abiEncode bytes) := by
  have hselector : Calldata.quoteExactInputSingle.selectorBytes ≠ [0, 0, 0, 0] := by decide
  intro h
  unfold Decodes at h
  rw [SolCall.abiDecode_encodedTwice encoding.dynamic_eq hselector] at h
  cases h

theorem decodes_iff_of_build {encoding : BytesEncoding} (builder : TxRequestBuilder)
    {built : TransactionRequest} (hbuild : builder.build encoding = some built)
    (hshort : ¬builder.TooLong) (hdecodes : builder.Decodes built.input ↔ ¬builder.EncodesTwice) :
    (builder.build encoding = none ↔ builder.TooLong) ∧
      ∀ request, builder.build encoding = some request →
        (builder.Decodes request.input ↔ ¬builder.EncodesTwice) := by
  rw [hbuild]
  refine ⟨iff_of_false (Option.some_ne_none built) hshort, ?_⟩
  intro request hrequest
  rw [← Option.some.inj hrequest]
  exact hdecodes

/-- A request is built unless the calls are too long, and its input decodes to the named call
with the arguments of the builder exactly when the builder encodes the call once. This is so for
every encoding of a vector. -/
theorem build_decodes_iff (encoding : BytesEncoding) (builder : TxRequestBuilder) :
    (builder.build encoding = none ↔ builder.TooLong) ∧
      ∀ request, builder.build encoding = some request →
        (builder.Decodes request.input ↔ ¬builder.EncodesTwice) := by
  cases builder with
  | getReserves signerAddress pairAddress =>
    apply decodes_iff_of_build (getReserves signerAddress pairAddress)
      (getReservesTxRequest_eq encoding signerAddress pairAddress) id
    have hnot := not_decodes_getReserves encoding signerAddress pairAddress
      (Calldata.getReserves.abiEncode ())
    dsimp only
    exact iff_of_false hnot (not_not_intro trivial)
  | swapExactEthForTokens signerAddress inputEthAmount outputTokenAmountMin outputTokenAddress
      deadline =>
    apply decodes_iff_of_build (swapExactEthForTokens signerAddress inputEthAmount
      outputTokenAmountMin outputTokenAddress deadline)
      (swapExactEthForTokensTxRequest_eq signerAddress inputEthAmount outputTokenAmountMin
        outputTokenAddress deadline) id
    have hdecode := swapExactETHForTokens_decode outputTokenAmountMin WETH_ADDRESS
      outputTokenAddress signerAddress deadline
    dsimp only
    exact iff_of_true hdecode id
  | swapExactTokensForEth signerAddress inputTokenAmount outputEthAmountMin inputTokenAddress
      deadline =>
    apply decodes_iff_of_build (swapExactTokensForEth signerAddress inputTokenAmount
      outputEthAmountMin inputTokenAddress deadline)
      (swapExactTokensForEthTxRequest_eq signerAddress inputTokenAmount outputEthAmountMin
        inputTokenAddress deadline) id
    have hdecode := swapExactTokensForETH_decode inputTokenAmount outputEthAmountMin
      inputTokenAddress WETH_ADDRESS signerAddress deadline
    dsimp only
    exact iff_of_true hdecode id
  | quoteExactInputSingle signerAddress tokenIn tokenOut amountIn fee sqrtPriceLimitX96 =>
    apply decodes_iff_of_build (quoteExactInputSingle signerAddress tokenIn tokenOut amountIn fee
      sqrtPriceLimitX96)
      (quoteExactInputSingleTxRequest_eq encoding signerAddress tokenIn tokenOut amountIn fee
        sqrtPriceLimitX96) id
    have hnot := not_decodes_quoteExactInputSingle encoding signerAddress tokenIn tokenOut
      amountIn fee sqrtPriceLimitX96 (Calldata.quoteExactInputSingle.abiEncode
        ⟨⟨tokenIn, tokenOut, amountIn, fee, sqrtPriceLimitX96⟩⟩)
    dsimp only
    exact iff_of_false hnot (not_not_intro trivial)
  | multicall calls =>
    rcases Nat.lt_or_ge (aggregate3.abiEncode ⟨calls⟩).length (2 ^ 63) with hshort | hlong
    · apply decodes_iff_of_build (multicall calls) (multicallTxRequest_eq hshort)
        (Nat.not_le_of_lt hshort)
      dsimp only
      exact iff_of_true (decodes_multicall hshort) id
    · have hnone := multicallTxRequest_eq_none hlong
      have hbuild : (multicall calls).build encoding = none := hnone
      rw [hbuild]
      exact ⟨iff_of_true rfl hlong, fun _ h => by cases h⟩

theorem swapExactEthForTokens_build_decodes :
    ∃ request, (swapExactEthForTokens 1 1000 2000 2 1700000000).build .bytes = some request ∧
      (swapExactEthForTokens 1 1000 2000 2 1700000000).Decodes request.input :=
  ⟨_, swapExactEthForTokensTxRequest_eq 1 1000 2000 2 1700000000,
    ((build_decodes_iff .bytes (swapExactEthForTokens 1 1000 2000 2 1700000000)).2 _
      (swapExactEthForTokensTxRequest_eq 1 1000 2000 2 1700000000)).mpr id⟩

/-- The request for the reserves of a pair is built, and asks for something else, both with the
vector as bytes and with it as an array of numbers. -/
theorem getReserves_build_not_decodes :
    (∃ request, (getReserves 1 2).build .bytes = some request ∧
      ¬(getReserves 1 2).Decodes request.input) ∧
    ∃ request, (getReserves 1 2).build .uint8Array = some request ∧
      ¬(getReserves 1 2).Decodes request.input :=
  ⟨⟨_, getReservesTxRequest_eq .bytes 1 2,
      not_decodes_getReserves .bytes 1 2 (Calldata.getReserves.abiEncode ())⟩,
    ⟨_, getReservesTxRequest_eq .uint8Array 1 2,
      not_decodes_getReserves .uint8Array 1 2 (Calldata.getReserves.abiEncode ())⟩⟩

end TxRequestBuilder

end Calldata

/-! ### The requests of a trade -/

/-- The calldata of a call, which takes the encoding of `exactInputSingle` from elsewhere. -/
def RouterCall.abiEncode (encodeExactInputSingle : ExactInputSingleParams → List Byte) :
    RouterCall → List Byte
  | swapExactETHForTokens amountOutMin path to_ deadline =>
    Calldata.swapExactETHForTokens.abiEncode ⟨amountOutMin, path, to_, deadline⟩
  | swapExactTokensForETH amountIn amountOutMin path to_ deadline =>
    Calldata.swapExactTokensForETH.abiEncode ⟨amountIn, amountOutMin, path, to_, deadline⟩
  | exactInputSingle params => encodeExactInputSingle params

/-- The request as it is sent. -/
def TransactionRequest.encode (encodeExactInputSingle : ExactInputSingleParams → List Byte)
    (request : TransactionRequest) : Option Calldata.TransactionRequest := do
  let data ← Calldata.allocate (request.input.abiEncode encodeExactInputSingle)
  pure { from_ := some request.from_, to_ := some request.to_, value := request.value,
         input := data }

section Encode

variable (encodeExactInputSingle : ExactInputSingleParams → List Byte) (signerAddress : Address)

/-- The bytes of a request are those of its builder. -/
theorem swapExactEthForTokensTxRequest_encode (inputEthAmount outputTokenAmountMin : U256)
    (outputTokenAddress : Address) (deadline : U256) :
    (swapExactEthForTokensTxRequest signerAddress inputEthAmount outputTokenAmountMin
      outputTokenAddress deadline).encode encodeExactInputSingle =
        Calldata.swapExactEthForTokensTxRequest signerAddress inputEthAmount outputTokenAmountMin
          outputTokenAddress deadline := rfl

theorem swapExactTokensForEthTxRequest_encode (inputTokenAmount outputEthAmountMin : U256)
    (inputTokenAddress : Address) (deadline : U256) :
    (swapExactTokensForEthTxRequest signerAddress inputTokenAmount outputEthAmountMin
      inputTokenAddress deadline).encode encodeExactInputSingle =
        Calldata.swapExactTokensForEthTxRequest signerAddress inputTokenAmount outputEthAmountMin
          inputTokenAddress deadline := rfl

end Encode

end Pochtecatl
