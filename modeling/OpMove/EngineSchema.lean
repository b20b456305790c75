import OpMove.Forkchoice
import OpMove.Hex
import OpMove.JsonValues
import OpMove.ServedPayloads

/-!
The values of the engine API and their JSON. Words, numbers and byte strings are written and read
by libraries; the records made of them are written under the names of their fields. A payload
that was served can be read back from its JSON.
-/

namespace OpMove.EngineSchema

open Primitives Transactions BlockBuilding ServedPayloads Forkchoice JsonValues

section Values

abbrev U64 := BitVec 64

structure WithdrawalV1 where
  index : U64
  validatorIndex : U64
  address : Address
  amount : U64
  deriving DecidableEq

structure ExecutionPayloadV3 where
  parentHash : B256
  feeRecipient : Address
  stateRoot : B256
  receiptsRoot : B256
  logsBloom : Bloom
  prevRandao : B256
  blockNumber : U64
  gasLimit : U64
  gasUsed : U64
  timestamp : U64
  extraData : Bytes
  baseFeePerGas : U256
  blockHash : B256
  transactions : List Bytes
  withdrawals : List WithdrawalV1
  blobGasUsed : U64
  excessBlobGas : U64
  deriving DecidableEq

structure ForkchoiceStateV1 where
  headBlockHash : B256
  safeBlockHash : B256
  finalizedBlockHash : B256
  deriving DecidableEq

structure PayloadAttributesV3 where
  timestamp : U64
  prevRandao : B256
  suggestedFeeRecipient : Address
  withdrawals : List WithdrawalV1
  parentBeaconBlockRoot : B256
  transactions : List Bytes
  gasLimit : U64
  deriving DecidableEq

structure BlobsBundleV1 where
  commitments : List Bytes
  proofs : List Bytes
  blobs : List Bytes
  deriving DecidableEq

structure GetPayloadResponseV3 where
  executionPayload : ExecutionPayloadV3
  blockValue : U256
  blobsBundle : BlobsBundleV1
  shouldOverrideBuilder : Bool
  parentBeaconBlockRoot : B256
  deriving DecidableEq

/-- `From<Withdrawal>`. -/
def WithdrawalV1.ofWithdrawal (value : Withdrawal) : WithdrawalV1 :=
  ⟨value.index, value.validatorIndex, value.address, value.amount⟩

/-- `From<WithdrawalV1>`; the numbers have the same width on both sides. -/
def WithdrawalV1.toWithdrawal (value : WithdrawalV1) : Withdrawal :=
  ⟨value.index, value.validatorIndex, value.address, value.amount⟩

def ExecutionPayloadV3.ofPayload (value : ExecutionPayload) (extraData : Bytes) :
    ExecutionPayloadV3 where
  parentHash := value.parentHash
  feeRecipient := value.feeRecipient
  stateRoot := value.stateRoot
  receiptsRoot := value.receiptsRoot
  logsBloom := value.logsBloom
  prevRandao := value.prevRandao
  blockNumber := BitVec.ofNat 64 value.blockNumber
  gasLimit := BitVec.ofNat 64 value.gasLimit
  gasUsed := BitVec.ofNat 64 value.gasUsed
  timestamp := BitVec.ofNat 64 value.timestamp
  extraData := extraData
  baseFeePerGas := value.baseFeePerGas
  blockHash := value.blockHash
  transactions := value.transactions
  withdrawals := value.withdrawals.map .ofWithdrawal
  blobGasUsed := BitVec.ofNat 64 value.blobGasUsed
  excessBlobGas := BitVec.ofNat 64 value.excessBlobGas

def GetPayloadResponseV3.ofResponse (value : PayloadResponse) (extraData : Bytes) :
    GetPayloadResponseV3 where
  executionPayload := .ofPayload value.executionPayload extraData
  blockValue := value.blockValue
  blobsBundle := ⟨value.blobsBundle.commitments, value.blobsBundle.proofs, value.blobsBundle.blobs⟩
  shouldOverrideBuilder := value.shouldOverrideBuilder
  parentBeaconBlockRoot := value.parentBeaconBlockRoot

/-- `From<PayloadAttributesV3>`. -/
def PayloadAttributesV3.toPayload (value : PayloadAttributesV3) : Payload where
  timestamp := value.timestamp.toNat
  prevRandao := value.prevRandao
  suggestedFeeRecipient := value.suggestedFeeRecipient
  withdrawals := value.withdrawals.map WithdrawalV1.toWithdrawal
  parentBeaconBlockRoot := value.parentBeaconBlockRoot
  transactions := value.transactions
  gasLimit := value.gasLimit.toNat

end Values

section Forms

/-- The forms of the words, numbers and byte strings. -/
structure Leaves where
  b256 : Form B256
  address : Form Address
  bloom : Form Bloom
  u64 : Form U64
  u256 : Form U256
  bytes : Form Bytes

/-- `format!("{inner:#018x}")`. -/
def payloadIdText (id : U64) : String := "0x" ++ String.ofList (Hex.encode 16 id.toNat)

/-- What the libraries are relied on for: values are read back, and a number is read from its
padded digits too. -/
structure Leaves.Lawful (leaves : Leaves) : Prop where
  b256 : leaves.b256.Exact
  address : leaves.address.Exact
  bloom : leaves.bloom.Exact
  u64 : leaves.u64.Exact
  u256 : leaves.u256.Exact
  bytes : leaves.bytes.Exact
  padded : ∀ id, leaves.u64.read (.string (payloadIdText id)) = some id

variable (leaves : Leaves)

def withdrawalV1 : Record WithdrawalV1 where
  names := ["index", "validatorIndex", "address", "amount"]
  write value := [leaves.u64.write value.index, leaves.u64.write value.validatorIndex,
    leaves.address.write value.address, leaves.u64.write value.amount]
  read field := do
    let index ← (field 0).bind leaves.u64.read
    let validatorIndex ← (field 1).bind leaves.u64.read
    let address ← (field 2).bind leaves.address.read
    let amount ← (field 3).bind leaves.u64.read
    some ⟨index, validatorIndex, address, amount⟩

def executionPayloadV3 : Record ExecutionPayloadV3 where
  names := ["parentHash", "feeRecipient", "stateRoot", "receiptsRoot", "logsBloom", "prevRandao",
    "blockNumber", "gasLimit", "gasUsed", "timestamp", "extraData", "baseFeePerGas", "blockHash",
    "transactions", "withdrawals", "blobGasUsed", "excessBlobGas"]
  write value := [leaves.b256.write value.parentHash, leaves.address.write value.feeRecipient,
    leaves.b256.write value.stateRoot, leaves.b256.write value.receiptsRoot,
    leaves.bloom.write value.logsBloom, leaves.b256.write value.prevRandao,
    leaves.u64.write value.blockNumber, leaves.u64.write value.gasLimit,
    leaves.u64.write value.gasUsed, leaves.u64.write value.timestamp,
    leaves.bytes.write value.extraData, leaves.u256.write value.baseFeePerGas,
    leaves.b256.write value.blockHash, leaves.bytes.list.write value.transactions,
    (withdrawalV1 leaves).form.list.write value.withdrawals, leaves.u64.write value.blobGasUsed,
    leaves.u64.write value.excessBlobGas]
  read field := do
    let parentHash ← (field 0).bind leaves.b256.read
    let feeRecipient ← (field 1).bind leaves.address.read
    let stateRoot ← (field 2).bind leaves.b256.read
    let receiptsRoot ← (field 3).bind leaves.b256.read
    let logsBloom ← (field 4).bind leaves.bloom.read
    let prevRandao ← (field 5).bind leaves.b256.read
    let blockNumber ← (field 6).bind leaves.u64.read
    let gasLimit ← (field 7).bind leaves.u64.read
    let gasUsed ← (field 8).bind leaves.u64.read
    let timestamp ← (field 9).bind leaves.u64.read
    let extraData ← (field 10).bind leaves.bytes.read
    let baseFeePerGas ← (field 11).bind leaves.u256.read
    let blockHash ← (field 12).bind leaves.b256.read
    let transactions ← (field 13).bind leaves.bytes.list.read
    let withdrawals ← (field 14).bind (withdrawalV1 leaves).form.list.read
    let blobGasUsed ← (field 15).bind leaves.u64.read
    let excessBlobGas ← (field 16).bind leaves.u64.read
    some ⟨parentHash, feeRecipient, stateRoot, receiptsRoot, logsBloom, prevRandao, blockNumber,
      gasLimit, gasUsed, timestamp, extraData, baseFeePerGas, blockHash, transactions, withdrawals,
      blobGasUsed, excessBlobGas⟩

def forkchoiceStateV1 : Record ForkchoiceStateV1 where
  names := ["headBlockHash", "safeBlockHash", "finalizedBlockHash"]
  write value := [leaves.b256.write value.headBlockHash, leaves.b256.write value.safeBlockHash,
    leaves.b256.write value.finalizedBlockHash]
  read field := do
    let headBlockHash ← (field 0).bind leaves.b256.read
    let safeBlockHash ← (field 1).bind leaves.b256.read
    let finalizedBlockHash ← (field 2).bind leaves.b256.read
    some ⟨headBlockHash, safeBlockHash, finalizedBlockHash⟩

def payloadAttributesV3 : Record PayloadAttributesV3 where
  names := ["timestamp", "prevRandao", "suggestedFeeRecipient", "withdrawals",
    "parentBeaconBlockRoot", "transactions", "gasLimit"]
  write value := [leaves.u64.write value.timestamp, leaves.b256.write value.prevRandao,
    leaves.address.write value.suggestedFeeRecipient,
    (withdrawalV1 leaves).form.list.write value.withdrawals,
    leaves.b256.write value.parentBeaconBlockRoot, leaves.bytes.list.write value.transactions,
    leaves.u64.write value.gasLimit]
  read field := do
    let timestamp ← (field 0).bind leaves.u64.read
    let prevRandao ← (field 1).bind leaves.b256.read
    let suggestedFeeRecipient ← (field 2).bind leaves.address.read
    let withdrawals ← (field 3).bind (withdrawalV1 leaves).form.list.read
    let parentBeaconBlockRoot ← (field 4).bind leaves.b256.read
    let transactions ← (field 5).bind leaves.bytes.list.read
    let gasLimit ← (field 6).bind leaves.u64.read
    some ⟨timestamp, prevRandao, suggestedFeeRecipient, withdrawals, parentBeaconBlockRoot,
      transactions, gasLimit⟩

def statusText : Status → String
  | .valid => "VALID"
  | .invalid => "INVALID"
  | .syncing => "SYNCING"
  | .accepted => "ACCEPTED"
  | .invalidBlockHash => "INVALID_BLOCK_HASH"

def textJson : Option String → Json
  | none => .null
  | some text => .string text

def payloadStatusJson (value : PayloadStatusV1) : Json :=
  .object [("status", .string (statusText value.status)),
    ("latestValidHash", leaves.b256.option.write value.latestValidHash),
    ("validationError", textJson value.validationError)]

def payloadIdJson (id : U64) : Json := .string (payloadIdText id)

def forkchoiceUpdatedJson (value : ForkchoiceUpdatedResponseV1) : Json :=
  .object [("payloadStatus", payloadStatusJson leaves value.payloadStatus),
    ("payloadId", match value.payloadId with
      | none => .null
      | some id => payloadIdJson (BitVec.ofNat 64 id))]

def blobsBundleJson (value : BlobsBundleV1) : Json :=
  .object [("commitments", leaves.bytes.list.write value.commitments),
    ("proofs", leaves.bytes.list.write value.proofs),
    ("blobs", leaves.bytes.list.write value.blobs)]

def getPayloadJson (value : GetPayloadResponseV3) : Json :=
  .object [("executionPayload", (executionPayloadV3 leaves).form.write value.executionPayload),
    ("blockValue", leaves.u256.write value.blockValue),
    ("blobsBundle", blobsBundleJson leaves value.blobsBundle),
    ("shouldOverrideBuilder", .bool value.shouldOverrideBuilder),
    ("parentBeaconBlockRoot", leaves.b256.write value.parentBeaconBlockRoot)]

end Forms

section Exactness

variable {leaves : Leaves} (h : leaves.Lawful)
include h

theorem exact_withdrawalV1 : (withdrawalV1 leaves).form.Exact := by
  refine Record.Lawful.exact ⟨?_, fun _ => rfl, fun value => ?_⟩
  · dsimp only [withdrawalV1]
    decide
  · dsimp only [withdrawalV1, List.getElem?_cons_zero, List.getElem?_cons_succ, Option.bind_some]
    simp only [h.u64 _, h.address _, Option.bind_eq_bind, Option.bind_some]

theorem exact_withdrawals : (withdrawalV1 leaves).form.list.Exact := (exact_withdrawalV1 h).list

theorem exact_executionPayloadV3 : (executionPayloadV3 leaves).form.Exact := by
  refine Record.Lawful.exact ⟨?_, fun _ => rfl, fun value => ?_⟩
  · dsimp only [executionPayloadV3]
    decide
  · dsimp only [executionPayloadV3, List.getElem?_cons_zero, List.getElem?_cons_succ,
      Option.bind_some]
    simp only [h.b256 _, h.address _, h.bloom _, h.u64 _, h.u256 _, h.bytes _, h.bytes.list _,
      exact_withdrawals h _, Option.bind_eq_bind, Option.bind_some]

theorem exact_forkchoiceStateV1 : (forkchoiceStateV1 leaves).form.Exact := by
  refine Record.Lawful.exact ⟨?_, fun _ => rfl, fun value => ?_⟩
  · dsimp only [forkchoiceStateV1]
    decide
  · dsimp only [forkchoiceStateV1, List.getElem?_cons_zero, List.getElem?_cons_succ,
      Option.bind_some]
    simp only [h.b256 _, Option.bind_eq_bind, Option.bind_some]

theorem exact_payloadAttributesV3 : (payloadAttributesV3 leaves).form.Exact := by
  refine Record.Lawful.exact ⟨?_, fun _ => rfl, fun value => ?_⟩
  · dsimp only [payloadAttributesV3]
    decide
  · dsimp only [payloadAttributesV3, List.getElem?_cons_zero, List.getElem?_cons_succ,
      Option.bind_some]
    simp only [h.b256 _, h.address _, h.u64 _, h.bytes.list _, exact_withdrawals h _,
      Option.bind_eq_bind, Option.bind_some]

end Exactness

section Hexadecimal

/-- The digits behind `0x`. -/
def hexDigits (json : Json) : Option (List Char) :=
  json.asString.bind fun text =>
    match text.toList with
    | '0' :: 'x' :: digits => some digits
    | _ => none

def hexJson (digits : List Char) : Json := .string (String.ofList ('0' :: 'x' :: digits))

theorem hexDigits_hexJson (digits : List Char) : hexDigits (hexJson digits) = some digits := by
  simp [hexDigits, hexJson, Json.asString]

/-- Words of a fixed length. -/
def fixedForm (len width : ℕ) : Form (BitVec width) where
  write word := hexJson (Hex.encode len word.toNat)
  read json := (hexDigits json).bind fun digits =>
    if digits.length = len then (Hex.decode digits).map (BitVec.ofNat width) else none

/-- Digits without zeros in front, one of them at least. -/
def shortened (digits : List Char) : List Char :=
  match digits.dropWhile (fun c => c = '0') with
  | [] => ['0']
  | rest => rest

/-- Numbers, written with as few digits as possible and read with any number of them. -/
def numberForm (len width : ℕ) : Form (BitVec width) where
  write word := hexJson (shortened (Hex.encode len word.toNat))
  read json := (hexDigits json).bind fun digits =>
    (Hex.decode digits).bind fun n => if n < 2 ^ width then some (BitVec.ofNat width n) else none

/-- Bytes from pairs of digits. -/
def readPairs : List Char → Option Bytes
  | [] => some []
  | a :: b :: rest => do
      let byte ← Hex.decode [a, b]
      let bytes ← readPairs rest
      some (UInt8.ofNat byte :: bytes)
  | _ => none

def bytesForm : Form Bytes where
  write bytes := hexJson (bytes.flatMap fun byte => Hex.encode 2 byte.toNat)
  read json := (hexDigits json).bind readPairs

theorem exact_fixedForm {len width : ℕ} (h : 16 ^ len = 2 ^ width) :
    (fixedForm len width).Exact := by
  intro word
  have hlt : word.toNat < 16 ^ len := h ▸ word.isLt
  simp only [fixedForm, hexDigits_hexJson, Option.bind_some, Hex.length_encode, if_true,
    Hex.decode_encode, Nat.mod_eq_of_lt hlt, Option.map_some, BitVec.ofNat_toNat,
    BitVec.setWidth_eq]

theorem decode_cons_zero (digits : List Char) : Hex.decode ('0' :: digits) = Hex.decode digits := by
  have hzero : Hex.digitValue '0' = some 0 := by decide
  simp [Hex.decode, hzero]

theorem decode_shortened (digits : List Char) :
    Hex.decode (shortened digits) = Hex.decode digits := by
  have hdrop : Hex.decode (digits.dropWhile fun c => c = '0') = Hex.decode digits := by
    induction digits with
    | nil => rfl
    | cons c digits ih =>
      by_cases hc : c = '0'
      · rw [List.dropWhile_cons_of_pos (by simp [hc]), ih, hc, decode_cons_zero]
      · rw [List.dropWhile_cons_of_neg (by simp [hc])]
  rw [← hdrop]
  unfold shortened
  split
  · rename_i hnil
    rw [hnil]
    rfl
  · rfl

theorem numberForm_read {len width : ℕ} (h : 16 ^ len = 2 ^ width) (word : BitVec width)
    {digits : List Char} (hdigits : Hex.decode digits = Hex.decode (Hex.encode len word.toNat)) :
    (numberForm len width).read (hexJson digits) = some word := by
  have hlt : word.toNat < 16 ^ len := h ▸ word.isLt
  simp only [numberForm, hexDigits_hexJson, Option.bind_some, hdigits, Hex.decode_encode,
    Nat.mod_eq_of_lt hlt, word.isLt, if_true, BitVec.ofNat_toNat, BitVec.setWidth_eq]

theorem exact_bytesForm : bytesForm.Exact := by
  intro bytes
  simp only [bytesForm, hexDigits_hexJson, Option.bind_some]
  induction bytes with
  | nil => rfl
  | cons byte bytes ih =>
    have hpair : Hex.encode 2 byte.toNat =
        [Hex.digitChar (byte.toNat / 16 % 16), Hex.digitChar (byte.toNat % 16)] := rfl
    have hlt : byte.toNat < 16 ^ 2 := byte.toNat_lt
    have hread := Hex.decode_encode 2 byte.toNat
    rw [Nat.mod_eq_of_lt hlt, hpair] at hread
    rw [List.flatMap_cons, hpair]
    simp only [List.cons_append, List.nil_append, readPairs, hread, ih, Option.bind_eq_bind,
      Option.bind_some, UInt8.ofNat_toNat]

/-- The leaves in the hexadecimal notation of Ethereum. -/
def hexLeaves : Leaves where
  b256 := fixedForm 64 256
  address := fixedForm 40 160
  bloom := fixedForm 512 2048
  u64 := numberForm 16 64
  u256 := numberForm 64 256
  bytes := bytesForm

theorem hexLeaves_lawful : hexLeaves.Lawful where
  b256 := exact_fixedForm (by norm_num)
  address := exact_fixedForm (by norm_num)
  bloom := exact_fixedForm (by rw [show (16 : ℕ) = 2 ^ 4 by norm_num, ← pow_mul])
  u64 word := numberForm_read (by norm_num) word (decode_shortened _)
  u256 word := numberForm_read (by norm_num) word (decode_shortened _)
  bytes := exact_bytesForm
  padded id := by
    have htext : payloadIdText id = String.ofList ('0' :: 'x' :: Hex.encode 16 id.toNat) := by
      apply String.toList_injective
      simp [payloadIdText]
    rw [htext]
    exact numberForm_read (by norm_num) id rfl

end Hexadecimal

end OpMove.EngineSchema
