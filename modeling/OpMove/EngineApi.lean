import OpMove.EngineSchema

/-!
Requests over JSON. A request names its method and carries its parameters by position; the
methods of the engine API start builds, serve payloads and check payloads against what is stored.
A request is answered with a result or an error and puts at most one command into the queue,
none if the answer is an error.
-/

namespace OpMove.EngineApi

open Primitives Transactions BlockBuilding CommandRuns PayloadIds ServedPayloads Forkchoice
open JsonValues EngineSchema

section Errors

structure JsonRpcError where
  code : ℤ
  data : Json
  message : String

def JsonRpcError.withoutData (code : ℤ) (message : String) : JsonRpcError := ⟨code, .null, message⟩

def JsonRpcError.parseError (request : Json) (message : String) : JsonRpcError :=
  ⟨-32602, request, message⟩

structure JsonRpcResponse where
  id : Json
  jsonrpc : Json
  result : Option Json
  error : Option JsonRpcError

end Errors

section Methods

inductive MethodName
  | forkChoiceUpdatedV3
  | getPayloadV3
  | newPayloadV3
  | sendRawTransaction
  | chainId
  | getBalance
  | getBlockByHash
  | getBlockByNumber
  | getTransactionByHash
  | getNonce
  | blockNumber
  | feeHistory
  | estimateGas
  | call
  | transactionReceipt
  | getProof
  | gasPrice
  deriving DecidableEq, Repr

namespace MethodName

def isEngineApi : MethodName → Bool
  | forkChoiceUpdatedV3 | getPayloadV3 | newPayloadV3 => true
  | _ => false

def isNonEngineApi (method : MethodName) : Bool := !method.isEngineApi

def fromStr (s : String) : Except JsonRpcError MethodName :=
  if s = "engine_forkchoiceUpdatedV3" then .ok forkChoiceUpdatedV3
  else if s = "engine_getPayloadV3" then .ok getPayloadV3
  else if s = "engine_newPayloadV3" then .ok newPayloadV3
  else if s = "eth_chainId" then .ok chainId
  else if s = "eth_getBalance" then .ok getBalance
  else if s = "eth_getTransactionCount" then .ok getNonce
  else if s = "eth_getTransactionByHash" then .ok getTransactionByHash
  else if s = "eth_getBlockByHash" then .ok getBlockByHash
  else if s = "eth_getBlockByNumber" then .ok getBlockByNumber
  else if s = "eth_feeHistory" then .ok feeHistory
  else if s = "eth_blockNumber" then .ok blockNumber
  else if s = "eth_sendRawTransaction" then .ok sendRawTransaction
  else if s = "eth_estimateGas" then .ok estimateGas
  else if s = "eth_call" then .ok call
  else if s = "eth_getTransactionReceipt" then .ok transactionReceipt
  else if s = "eth_getProof" then .ok getProof
  else if s = "eth_gasPrice" then .ok gasPrice
  else .error (.withoutData (-32601) ("Unsupported method: " ++ s))

end MethodName

end Methods

section Parameters

def getField (x : Json) (name : String) : Json := (x.member name).getD .null

def getParamsList (x : Json) : List Json := ((x.member "params").bind Json.asArray).getD []

/-- The libraries behind the API: how leaves are written, how an error of reading a type is put
into words, the hash of payload ids, and the envelopes of Ethereum transactions. -/
structure Libraries where
  leaves : Leaves
  explain : String → Json → String
  sha256 : Bytes → Bytes
  decodeTx : Bytes → Except String TxEnvelope
  txHash : TxEnvelope → B256

variable (libs : Libraries) {α β γ : Type}

def deserialize (typeName : String) (form : Form α) (x : Json) : Except JsonRpcError α :=
  match form.read x with
  | some value => .ok value
  | none => .error ⟨-32602, x,
      "Failed to parse type " ++ typeName ++ ": " ++ libs.explain typeName x⟩

def parseParams1 (typeName : String) (form : Form α) (request : Json) : Except JsonRpcError α :=
  match getParamsList request with
  | [] => .error (.parseError request "Not enough params")
  | [x] => deserialize libs typeName form x
  | _ => .error (.parseError request "Too many params")

def parseParams3 (types : String × String × String) (a : Form α) (b : Form β) (c : Form γ)
    (request : Json) : Except JsonRpcError (α × β × γ) :=
  match getParamsList request with
  | [] | [_] | [_, _] => .error (.parseError request "Not enough params")
  | [x, y, z] => do
      let first ← deserialize libs types.1 a x
      let second ← deserialize libs types.2.1 b y
      let third ← deserialize libs types.2.2 c z
      return (first, second, third)
  | _ => .error (.parseError request "Too many params")

end Parameters

section Engine

variable (libs : Libraries)

/-- `PayloadId`, whose JSON is read as a number. -/
def payloadIdForm : Form U64 where
  write := payloadIdJson
  read := libs.leaves.u64.read

def parseParamsV3 (request : Json) :
    Except JsonRpcError (ForkchoiceStateV1 × Option PayloadAttributesV3) :=
  let readState := deserialize libs "moved_api::schema::engine::ForkchoiceStateV1"
    (forkchoiceStateV1 libs.leaves).form
  let readAttributes := deserialize libs
    "core::option::Option<moved_api::schema::engine::PayloadAttributesV3>"
    (payloadAttributesV3 libs.leaves).form.option
  match getParamsList request with
  | [] => .error ⟨-32602, request, "Not enough params"⟩
  | [x] => do
      let state ← readState x
      return (state, none)
  | [x, y] => do
      let state ← readState x
      let attributes ← readAttributes y
      return (state, attributes)
  | _ => .error ⟨-32602, request, "Too many params"⟩

/-- `forkchoice_updated::execute_v3`, with what it sends. -/
def forkchoiceUpdated (request : Json) : Except JsonRpcError Json × List Command :=
  match parseParamsV3 libs request with
  | .error e => (.error e, [])
  | .ok (state, attributes) =>
      let (response, command) := innerExecuteV3 libs.sha256 state.headBlockHash
        (attributes.map PayloadAttributesV3.toPayload)
      (.ok (forkchoiceUpdatedJson libs.leaves response), command.toList)

/-- What the API reads from the application. The methods that only read are one function. -/
structure ApplicationReader where
  payload : ℕ → Option GetPayloadResponseV3
  payloadByBlockHash : B256 → Option GetPayloadResponseV3
  query : MethodName → Json → Except JsonRpcError Json

variable (reader : ApplicationReader)

/-- `get_payload::execute_v3`. -/
def getPayload (request : Json) : Except JsonRpcError Json := do
  let id ← parseParams1 libs "moved_api::schema::engine::PayloadId" (payloadIdForm libs) request
  match reader.payload id.toNat with
  | some response => .ok (getPayloadJson libs.leaves response)
  | none => .error ⟨-38001, payloadIdJson id, "Unknown payload"⟩

def invalid (message : String) : PayloadStatusV1 := ⟨.invalid, none, some message⟩

/-- The message of the first comparison that fails. -/
def firstMismatch : List (Bool × String) → Option String
  | [] => none
  | (agrees, message) :: rest => if agrees then firstMismatch rest else some message

/-- The comparisons of a payload with the known one, in order. -/
def comparisons (payload : ExecutionPayloadV3) (expectedBlobVersionedHashes : List B256)
    (parentBeaconBlockRoot : B256) (known : GetPayloadResponseV3) : List (Bool × String) :=
  [(payload.blockNumber = known.executionPayload.blockNumber, "Incorrect block height"),
    (payload.extraData = known.executionPayload.extraData, "Incorrect extra data"),
    (payload.feeRecipient = known.executionPayload.feeRecipient, "Incorrect fee recipient"),
    (payload.gasLimit = known.executionPayload.gasLimit, "Incorrect gas limit"),
    (payload.parentHash = known.executionPayload.parentHash, "Incorrect parent hash"),
    (payload.prevRandao = known.executionPayload.prevRandao, "Incorrect prev randao"),
    (payload.timestamp = known.executionPayload.timestamp, "Incorrect timestamp"),
    (payload.withdrawals = known.executionPayload.withdrawals, "Incorrect withdraws"),
    (expectedBlobVersionedHashes = [], "Unexpected blob hashes"),
    (parentBeaconBlockRoot = known.parentBeaconBlockRoot, "Incorrect parent beacon block root")]

def validatePayload (payload : ExecutionPayloadV3) (expectedBlobVersionedHashes : List B256)
    (parentBeaconBlockRoot : B256) (known : GetPayloadResponseV3) : PayloadStatusV1 :=
  match firstMismatch
      (comparisons payload expectedBlobVersionedHashes parentBeaconBlockRoot known) with
  | some message => invalid message
  | none => ⟨.valid, some payload.blockHash, none⟩

/-- The parameters of `engine_newPayloadV3`. -/
def newPayloadParams (request : Json) :
    Except JsonRpcError (ExecutionPayloadV3 × List B256 × B256) :=
  parseParams3 libs
    ("moved_api::schema::engine::ExecutionPayloadV3",
      "alloc::vec::Vec<alloy_primitives::bits::fixed::FixedBytes<32>>",
      "alloy_primitives::bits::fixed::FixedBytes<32>")
    (executionPayloadV3 libs.leaves).form libs.leaves.b256.list libs.leaves.b256 request

/-- `new_payload::execute_v3`. -/
def newPayload (request : Json) : Except JsonRpcError Json := do
  let (payload, hashes, root) ← newPayloadParams libs request
  match reader.payloadByBlockHash payload.blockHash with
  | some known => .ok (payloadStatusJson libs.leaves (validatePayload payload hashes root known))
  | none => .error ⟨-1, libs.leaves.b256.write payload.blockHash, "Unknown block hash"⟩

/-- `send_raw_transaction::parse_params`. -/
def parseTransaction (request : Json) : Except JsonRpcError TxEnvelope :=
  match getParamsList request with
  | [] => .error ⟨-32602, request, "Not enough params"⟩
  | [x] => do
      let bytes ← deserialize libs "alloy_primitives::bytes_::Bytes" libs.leaves.bytes x
      match libs.decodeTx bytes with
      | .ok tx => .ok tx
      | .error e => .error ⟨-32602, request, "RLP decode failed: " ++ e⟩
  | _ => .error ⟨-32602, request, "Too many params"⟩

/-- `send_raw_transaction::execute`, with what it sends. -/
def sendRawTransaction (request : Json) : Except JsonRpcError Json × List Command :=
  match parseTransaction libs request with
  | .error e => (.error e, [])
  | .ok tx => (.ok (libs.leaves.b256.write (libs.txHash tx)), [.addTransaction tx])

def invalidMethod : JsonRpcError := .withoutData (-32601) "Invalid/missing method"

/-- The method a request names. -/
def requestedMethod (request : Json) : Except JsonRpcError MethodName :=
  match (getField request "method").asString with
  | some name => MethodName.fromStr name
  | none => .error invalidMethod

def execute (request : Json) : MethodName → Except JsonRpcError Json × List Command
  | .forkChoiceUpdatedV3 => forkchoiceUpdated libs request
  | .getPayloadV3 => (getPayload libs reader request, [])
  | .newPayloadV3 => (newPayload libs reader request, [])
  | .sendRawTransaction => sendRawTransaction libs request
  | method => (reader.query method request, [])

def innerHandleRequest (isAllowed : MethodName → Bool) (request : Json) :
    Except JsonRpcError Json × List Command :=
  match requestedMethod request with
  | .error e => (.error e, [])
  | .ok method =>
      if isAllowed method then execute libs reader request method else (.error invalidMethod, [])

/-- The response and the commands that were sent for it. -/
def handle (isAllowed : MethodName → Bool) (request : Json) : JsonRpcResponse × List Command :=
  let id := getField request "id"
  let jsonrpc := getField request "jsonrpc"
  match innerHandleRequest libs reader isAllowed request with
  | (.ok result, commands) => (⟨id, jsonrpc, some result, none⟩, commands)
  | (.error e, commands) => (⟨id, jsonrpc, none, some e⟩, commands)

end Engine

section Validation

variable {payload : ExecutionPayloadV3} {hashes : List B256} {root : B256}
variable {known : GetPayloadResponseV3}

/-- The payload agrees with the known one wherever they are compared. -/
structure AgreesWith (payload : ExecutionPayloadV3) (hashes : List B256) (root : B256)
    (known : GetPayloadResponseV3) : Prop where
  blockNumber : payload.blockNumber = known.executionPayload.blockNumber
  extraData : payload.extraData = known.executionPayload.extraData
  feeRecipient : payload.feeRecipient = known.executionPayload.feeRecipient
  gasLimit : payload.gasLimit = known.executionPayload.gasLimit
  parentHash : payload.parentHash = known.executionPayload.parentHash
  prevRandao : payload.prevRandao = known.executionPayload.prevRandao
  timestamp : payload.timestamp = known.executionPayload.timestamp
  withdrawals : payload.withdrawals = known.executionPayload.withdrawals
  hashes : hashes = []
  root : root = known.parentBeaconBlockRoot

theorem firstMismatch_eq_none {checks : List (Bool × String)} :
    firstMismatch checks = none ↔ ∀ check ∈ checks, check.1 = true := by
  induction checks with
  | nil => simp [firstMismatch]
  | cons check checks ih =>
    obtain ⟨agrees, message⟩ := check
    cases agrees with
    | true => simp [firstMismatch, ih]
    | false => simp [firstMismatch]

theorem agreesWith_iff : AgreesWith payload hashes root known ↔
    firstMismatch (comparisons payload hashes root known) = none := by
  rw [firstMismatch_eq_none]
  simp only [comparisons, List.forall_mem_cons, decide_eq_true_eq]
  constructor
  · rintro ⟨h1, h2, h3, h4, h5, h6, h7, h8, h9, h10⟩
    exact ⟨h1, h2, h3, h4, h5, h6, h7, h8, h9, h10, fun _ h => by cases h⟩
  · rintro ⟨h1, h2, h3, h4, h5, h6, h7, h8, h9, h10, -⟩
    exact ⟨h1, h2, h3, h4, h5, h6, h7, h8, h9, h10⟩

/-- The status is valid exactly when the payload agrees. -/
theorem validatePayload_cases (payload : ExecutionPayloadV3) (hashes : List B256) (root : B256)
    (known : GetPayloadResponseV3) :
    (AgreesWith payload hashes root known ∧
      validatePayload payload hashes root known = ⟨.valid, some payload.blockHash, none⟩) ∨
    (¬ AgreesWith payload hashes root known ∧
      ∃ message, validatePayload payload hashes root known = invalid message) := by
  unfold validatePayload
  rw [agreesWith_iff]
  cases firstMismatch (comparisons payload hashes root known) with
  | none => exact Or.inl ⟨rfl, rfl⟩
  | some message => exact Or.inr ⟨by simp, message, rfl⟩

theorem validatePayload_of_agreesWith (h : AgreesWith payload hashes root known) :
    validatePayload payload hashes root known = ⟨.valid, some payload.blockHash, none⟩ := by
  unfold validatePayload
  rw [agreesWith_iff.mp h]

end Validation

section Written

variable {libs : Libraries} (hleaves : libs.leaves.Lawful) {request : Json}
include hleaves

/-- A forkchoice request is read as it was written. -/
theorem parseParamsV3_written {state : ForkchoiceStateV1} {attributes : Option PayloadAttributesV3}
    (hparams : getParamsList request = [(forkchoiceStateV1 libs.leaves).form.write state,
      (payloadAttributesV3 libs.leaves).form.option.write attributes]) :
    parseParamsV3 libs request = .ok (state, attributes) := by
  have hattributes := (exact_payloadAttributesV3 hleaves).option (Record.write_ne_null _) attributes
  simp only [parseParamsV3, hparams, deserialize, exact_forkchoiceStateV1 hleaves _, hattributes]
  rfl

/-- The parameters of a new payload are read as they were written. -/
theorem newPayloadParams_written {payload : ExecutionPayloadV3} {hashes : List B256} {root : B256}
    (hparams : getParamsList request = [(executionPayloadV3 libs.leaves).form.write payload,
      libs.leaves.b256.list.write hashes, libs.leaves.b256.write root]) :
    newPayloadParams libs request = .ok (payload, hashes, root) := by
  simp only [newPayloadParams, parseParams3, hparams, deserialize,
    exact_executionPayloadV3 hleaves _, hleaves.b256.list _, hleaves.b256 _]
  rfl

/-- The id of a payload is read as it was written. -/
theorem payloadId_written {id : U64} (hparams : getParamsList request = [payloadIdJson id]) :
    parseParams1 libs "moved_api::schema::engine::PayloadId" (payloadIdForm libs) request =
      .ok id := by
  have hread : (payloadIdForm libs).read (payloadIdJson id) = some id := hleaves.padded id
  simp only [parseParams1, hparams, deserialize, hread]

end Written

section Dispatch

variable {libs : Libraries} {reader : ApplicationReader} {isAllowed : MethodName → Bool}
variable {request : Json} {method : MethodName}

/-- An allowed request is executed. -/
theorem handle_of_method (hmethod : requestedMethod request = .ok method)
    (hallowed : isAllowed method = true) :
    (handle libs reader isAllowed request).1.result =
      (execute libs reader request method).1.toOption ∧
    (handle libs reader isAllowed request).2 = (execute libs reader request method).2 := by
  have hinner : innerHandleRequest libs reader isAllowed request =
      execute libs reader request method := by
    simp only [innerHandleRequest, hmethod, hallowed, if_true]
  unfold handle
  rw [hinner]
  dsimp only
  split <;> simp [*, Except.toOption]

end Dispatch

section Sending

variable {libs : Libraries} {reader : ApplicationReader} {isAllowed : MethodName → Bool}
  {request : Json}

/-- What an allowed request sends. -/
inductive Sends (libs : Libraries) (isAllowed : MethodName → Bool) (request : Json) :
    List Command → Prop
  | nothing : Sends libs isAllowed request []
  | addTransaction (tx : TxEnvelope) : requestedMethod request = .ok .sendRawTransaction →
      Sends libs isAllowed request [.addTransaction tx]
  | startBlockBuild {state : ForkchoiceStateV1} {attributes : PayloadAttributesV3} :
      isAllowed .forkChoiceUpdatedV3 = true →
      requestedMethod request = .ok .forkChoiceUpdatedV3 →
      parseParamsV3 libs request = .ok (state, some attributes) →
      Sends libs isAllowed request [.startBlockBuild attributes.toPayload
        ((⟨state.headBlockHash, attributes.toPayload⟩ : Request).id libs.sha256)]

theorem sends_forkchoiceUpdated (hallowed : isAllowed .forkChoiceUpdatedV3 = true)
    (hmethod : requestedMethod request = .ok .forkChoiceUpdatedV3) :
    Sends libs isAllowed request (forkchoiceUpdated libs request).2 := by
  unfold forkchoiceUpdated
  split
  · exact .nothing
  · rename_i state attributes hparse
    cases attributes with
    | none => exact .nothing
    | some attributes => exact .startBlockBuild hallowed hmethod hparse

theorem sends_sendRawTransaction (hmethod : requestedMethod request = .ok .sendRawTransaction) :
    Sends libs isAllowed request (sendRawTransaction libs request).2 := by
  unfold sendRawTransaction
  split
  · exact .nothing
  · exact .addTransaction _ hmethod

theorem sends_handle : Sends libs isAllowed request (handle libs reader isAllowed request).2 := by
  have hinner : Sends libs isAllowed request
      (innerHandleRequest libs reader isAllowed request).2 := by
    unfold innerHandleRequest
    split
    · exact .nothing
    · rename_i method hmethod
      split_ifs with hallowed
      · cases method with
        | forkChoiceUpdatedV3 => exact sends_forkchoiceUpdated hallowed hmethod
        | sendRawTransaction => exact sends_sendRawTransaction hmethod
        | _ => exact .nothing
      · exact .nothing
  unfold handle
  dsimp only
  split <;> simpa [*] using hinner

/-- A request that is answered with an error has sent nothing. -/
theorem sends_nothing_of_error {e : JsonRpcError}
    (h : (handle libs reader isAllowed request).1.error = some e) :
    (handle libs reader isAllowed request).2 = [] := by
  have hinner : ∀ {e : JsonRpcError} {commands : List Command},
      innerHandleRequest libs reader isAllowed request = (.error e, commands) → commands = [] := by
    intro e commands h
    unfold innerHandleRequest at h
    split at h
    · exact (Prod.mk.inj h).2.symm
    · rename_i method hmethod
      split_ifs at h with hallowed
      · cases method with
        | forkChoiceUpdatedV3 =>
          simp only [execute, forkchoiceUpdated] at h
          split at h
          · exact (Prod.mk.inj h).2.symm
          · cases (Prod.mk.inj h).1
        | sendRawTransaction =>
          simp only [execute, sendRawTransaction] at h
          split at h
          · exact (Prod.mk.inj h).2.symm
          · cases (Prod.mk.inj h).1
        | _ => exact (Prod.mk.inj h).2.symm
      · exact (Prod.mk.inj h).2.symm
  unfold handle at h ⊢
  dsimp only at h ⊢
  split
  · rename_i result commands heq
    rw [heq] at h
    cases h
  · rename_i e commands heq
    exact hinner heq

end Sending

end OpMove.EngineApi
