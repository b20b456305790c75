import OpMove.Errors
import OpMove.NativeEvm

/-!
Building a block. `collectTransactions` joins the payload's byte strings with the
drained mempool and drops what already has a receipt; `executeTransactions` runs
the batch with its accumulators; `buildBlock` assembles the header, the block, the
stored transactions and the receipts. Executing one transaction and applying its
changes are parameters of the environment, as are the hash of a header and the
root of an ordered trie. A panic of the node gives `none`.
-/

namespace OpMove.BlockBuilding

open Primitives GasFees Transactions Errors NativeEvm

section Data

structure Withdrawal where
  index : BitVec 64
  validatorIndex : BitVec 64
  address : Address
  amount : BitVec 64
  deriving DecidableEq, Repr

/-- `Encodable::encode` of a withdrawal. -/
def Withdrawal.encode (withdrawal : Withdrawal) : Bytes :=
  Rlp.encodeList [Rlp.encodeNat withdrawal.index.toNat,
    Rlp.encodeNat withdrawal.validatorIndex.toNat,
    Rlp.encodeString (addressBytes withdrawal.address), Rlp.encodeNat withdrawal.amount.toNat]

/-- The payload attributes. -/
structure Payload where
  timestamp : ℕ
  prevRandao : B256
  suggestedFeeRecipient : Address
  withdrawals : List Withdrawal
  parentBeaconBlockRoot : B256
  transactions : List Bytes
  gasLimit : ℕ

structure Header where
  parentHash : B256
  number : ℕ
  timestamp : ℕ
  beneficiary : Address
  gasLimit : ℕ
  mixHash : B256
  parentBeaconBlockRoot : Option B256
  transactionsRoot : B256
  withdrawalsRoot : Option B256
  baseFeePerGas : Option ℕ
  blobGasUsed : Option ℕ
  excessBlobGas : Option ℕ
  stateRoot : B256
  receiptsRoot : B256
  logsBloom : Bloom
  gasUsed : ℕ
  deriving DecidableEq, Repr

structure ExtendedBlock where
  hash : B256
  value : U256
  payloadId : ℕ
  header : Header
  transactions : List B256
  deriving DecidableEq, Repr

structure ExtendedReceipt where
  transactionHash : B256
  transactionIndex : ℕ
  recipient : Option Address
  sender : Address
  receipt : OpReceiptEnvelope
  l1BlockInfo : Option L1BlockInfo
  gasUsed : ℕ
  l2GasPrice : U256
  contractAddress : Option Address
  logsOffset : ℕ
  blockHash : B256
  blockNumber : ℕ
  blockTimestamp : ℕ
  deriving DecidableEq, Repr

structure ExtendedTransaction where
  effectiveGasPrice : ℕ
  inner : OpTxEnvelope
  blockNumber : ℕ
  blockHash : B256
  transactionIndex : ℕ
  deriving DecidableEq, Repr

/-- A transaction on its way into a block, under the hash it is tracked by. -/
structure Item where
  txHash : B256
  tx : OpTxEnvelope
  l1CostInput : L1GasFeeInput
  deriving DecidableEq, Repr

/-- `TransactionExecutionOutcome`, as far as block building reads it. -/
structure Outcome (χ : Type) where
  isOk : Bool
  changes : χ
  gasUsed : ℕ
  l2Price : U256
  logs : List Log
  deployment : Option AccountAddress

/-- What one transaction is executed with. -/
structure ExecutionInput where
  tx : NormalizedExtendedTxEnvelope
  txHash : B256
  l1Cost : U256
  l2Fee : MovedGasFee
  l2Input : L2GasFeeInput
  blockHeader : HeaderForExecution

/-- The node around block building, over states `σ` and changes `χ`. -/
structure Env (σ χ : Type) where
  codec : Codec
  executeTransaction : σ → List ExtendedBlock → ExecutionInput → Except Error (Outcome χ)
  applyChanges : σ → χ → Option σ
  stateRoot : σ → B256
  gasFee : Eip1559GasFee
  blockHash : Header → B256
  orderedTrieRoot : List Bytes → B256
  encodeReceipt : OpReceiptEnvelope → Bytes
  logBloom : Log → Bloom

structure App (σ : Type) where
  state : σ
  memPool : List Item
  receipts : List ExtendedReceipt
  transactions : List ExtendedTransaction
  blocks : List ExtendedBlock

end Data

section Collecting

/-- A payload byte string. The fee input is taken from what the decoder left of the slice. -/
def payloadItem (codec : Codec) (txBytes : Bytes) : Option Item := do
  let (tx, slice) ← codec.decode txBytes
  some ⟨codec.keccak256 txBytes, tx, .ofBytes slice⟩

/-- What `add_transaction` puts into the mempool; blob transactions panic. -/
def poolItem (codec : Codec) (tx : TxEnvelope) : Option Item := do
  let inner ← OpTxEnvelope.tryFromEthEnvelope tx
  some ⟨codec.trieHash inner, inner, .ofBytes (codec.encode inner)⟩

/-- Insertion into the mempool's hash map. -/
def insertItem (memPool : List Item) (item : Item) : List Item :=
  memPool.filter (fun other => other.txHash ≠ item.txHash) ++ [item]

def collectTransactions {σ χ : Type} (env : Env σ χ) (app : App σ) (attributes : Payload)
    (drained : List Item) : List Item :=
  (attributes.transactions.filterMap (payloadItem env.codec) ++ drained).filter fun item =>
    !app.receipts.any fun receipt => receipt.transactionHash == item.txHash

end Collecting

section Executing

variable {σ χ : Type} (env : Env σ χ)

/-- What is fixed while one batch runs. -/
structure Batch where
  baseFee : U256
  blockHeader : HeaderForExecution
  l1Fee : Option EcotoneGasFee
  l2Fee : MovedGasFee

/-- The mutable variables of `execute_transactions`. `executed` is a history variable: the
items that got a receipt. -/
structure Progress (σ : Type) where
  state : σ
  totalTip : U256
  receipts : List ExtendedReceipt
  cumulativeGasUsed : ℕ
  logsBloom : Bloom
  txIndex : ℕ
  logOffset : ℕ
  executed : List Item

def maxU128 : ℕ := 2 ^ 128 - 1

/-- The L1 cost a transaction is charged. -/
def Batch.l1Cost (batch : Batch) (item : Item) : U256 :=
  (batch.l1Fee.map fun fee => fee.l1Fee item.l1CostInput).getD 0

/-- The L1 information its receipt gets. -/
def Batch.l1BlockInfo (batch : Batch) (item : Item) : Option L1BlockInfo :=
  batch.l1Fee.bind fun fee => fee.l1BlockInfo item.l1CostInput

def Batch.input (batch : Batch) (item : Item) (normalized : NormalizedExtendedTxEnvelope) :
    ExecutionInput where
  tx := normalized
  txHash := item.txHash
  l1Cost := match normalized with
    | .canonical _ => batch.l1Cost item
    | .depositedTx _ => 0
  l2Fee := batch.l2Fee
  l2Input := ⟨normalized.gasLimit, normalized.effectiveGasPrice batch.baseFee⟩
  blockHeader := batch.blockHeader

def logsBloomOf (logs : List Log) : Bloom := logs.foldl (fun bloom log => bloom ||| env.logBloom log) 0

/-- The part of the loop body after a successful execution. -/
def record (batch : Batch) (progress : Progress σ) (item : Item)
    (normalized : NormalizedExtendedTxEnvelope) (outcome : Outcome χ) : Option (Progress σ) := do
  let state ← env.applyChanges progress.state outcome.changes
  let cumulativeGasUsed := min (progress.cumulativeGasUsed + outcome.gasUsed) maxU128
  let bloom := logsBloomOf env outcome.logs
  let envelope ← wrapReceipt item.tx
    { status := outcome.isOk
      cumulativeGasUsed := if cumulativeGasUsed < maxU64 then cumulativeGasUsed else maxU64
      logs := outcome.logs } bloom
  let receipt : ExtendedReceipt :=
    { transactionHash := item.txHash
      recipient := normalized.recipient
      sender := normalized.sender
      receipt := envelope
      l1BlockInfo := batch.l1BlockInfo item
      gasUsed := outcome.gasUsed
      l2GasPrice := outcome.l2Price
      transactionIndex := progress.txIndex
      contractAddress := outcome.deployment.map toEthAddress
      logsOffset := progress.logOffset
      blockHash := 0
      blockNumber := batch.blockHeader.number
      blockTimestamp := batch.blockHeader.timestamp }
  some
    { state := state
      totalTip := U256.saturatingAdd progress.totalTip
        (U256.saturatingMul (BitVec.ofNat 256 outcome.gasUsed) (normalized.tipPerGas batch.baseFee))
      receipts := progress.receipts ++ [receipt]
      cumulativeGasUsed := cumulativeGasUsed
      logsBloom := progress.logsBloom ||| bloom
      txIndex := progress.txIndex + 1
      logOffset := progress.logOffset + outcome.logs.length
      executed := progress.executed ++ [item] }

/-- The loop body: an item that does not normalise or is an invalid transaction is skipped. -/
def executeOne (blocks : List ExtendedBlock) (batch : Batch) (progress : Progress σ)
    (item : Item) : Option (Progress σ) :=
  match NormalizedExtendedTxEnvelope.ofEnvelope env.codec item.tx with
  | none => some progress
  | some normalized =>
      match env.executeTransaction progress.state blocks (batch.input item normalized) with
      | .ok outcome => record env batch progress item normalized outcome
      | .error (.invalidTransaction _) => some progress
      | .error _ => none

def Progress.start (state : σ) : Progress σ :=
  { state := state, totalTip := 0, receipts := [], cumulativeGasUsed := 0, logsBloom := 0,
    txIndex := 0, logOffset := 0, executed := [] }

/-- The L1 fee of a batch headed by a deposit; too short calldata panics. -/
def headL1Fee (items : List Item) : Option (Option EcotoneGasFee) :=
  match items.head?.bind fun item => item.tx.asDeposit with
  | none => some none
  | some deposit => (EcotoneGasFee.forDeposit deposit.input).map some

/-- The loop of `execute_transactions`. -/
def runBatch (blocks : List ExtendedBlock) (batch : Batch) (items : List Item)
    (progress : Progress σ) : Option (Progress σ) :=
  items.foldlM (executeOne env blocks batch) progress

def batchFor (items : List Item) (baseFee : U256) (blockHeader : HeaderForExecution) :
    Option Batch := do
  let l1Fee ← headL1Fee items
  some { baseFee := baseFee, blockHeader := blockHeader, l1Fee := l1Fee,
         l2Fee := .withDefaultGasFeeMultiplier }

def executeTransactions (app : App σ) (items : List Item) (baseFee : U256)
    (blockHeader : HeaderForExecution) : Option (Progress σ) := do
  let batch ← batchFor items baseFee blockHeader
  runBatch env app.blocks batch items (.start app.state)

end Executing

section Building

variable {σ χ : Type} (env : Env σ χ)

/-- The latest block is the one whose number is one less than the count of known heights. -/
def latestBlock (blocks : List ExtendedBlock) : Option ExtendedBlock :=
  let heights := (blocks.map fun block => block.header.number).dedup.length
  if heights = 0 then none else blocks.find? fun block => block.header.number = heights - 1

/-- Effective gas price of an envelope in the consensus library. -/
def effectiveGasPrice (tx : OpTxEnvelope) (baseFee : Option ℕ) : ℕ :=
  let dynamic (maxFee maxPriorityFee : ℕ) : ℕ :=
    match baseFee with
    | none => maxFee
    | some fee => if maxPriorityFee < maxFee - fee then maxPriorityFee + fee else maxFee
  match tx with
  | .legacy signed => signed.tx.gasPrice
  | .eip2930 signed => signed.tx.gasPrice
  | .eip1559 signed => dynamic signed.tx.maxFeePerGas signed.tx.maxPriorityFeePerGas
  | .eip7702 signed => dynamic signed.tx.maxFeePerGas signed.tx.maxPriorityFeePerGas
  | .deposit _ => 0

def ExtendedTransaction.hash (codec : Codec) (tx : ExtendedTransaction) : B256 :=
  codec.trieHash tx.inner

/-- `ExtendedTransaction::from`, whose failure makes the conversion to a response panic. -/
def ExtendedTransaction.sender (codec : Codec) (tx : ExtendedTransaction) : Option Address :=
  match tx.inner with
  | .deposit deposit => some deposit.origin
  | inner => codec.recoverSigner inner

/-- What one call of `start_block_build` adds, with the leaves of the two tries. -/
structure Built (σ : Type) where
  state : σ
  block : ExtendedBlock
  receipts : List ExtendedReceipt
  transactions : List ExtendedTransaction
  transactionLeaves : List Bytes
  receiptLeaves : List Bytes
  executed : List Item

def baseFeeAfter (parent : ExtendedBlock) : Option U256 :=
  env.gasFee.baseFeePerGas parent.header.gasLimit parent.header.gasUsed
    (BitVec.ofNat 256 (parent.header.baseFeePerGas.getD 0))

def headerForExecution (parent : ExtendedBlock) (attributes : Payload) : HeaderForExecution where
  number := parent.header.number + 1
  timestamp := attributes.timestamp
  prevRandao := attributes.prevRandao

def buildBlock (app : App σ) (attributes : Payload) (id : ℕ) (drained : List Item) :
    Option (Built σ) := do
  let items := collectTransactions env app attributes drained
  let parent ← latestBlock app.blocks
  let baseFee ← baseFeeAfter env parent
  let transactions := items.map fun item => item.tx
  let progress ← executeTransactions env app items baseFee (headerForExecution parent attributes)
  let transactionLeaves := transactions.map env.codec.encode
  let receiptLeaves := progress.receipts.map fun receipt => env.encodeReceipt receipt.receipt
  -- `U64::from` panics when the cumulative gas does not fit
  if maxU64 < progress.cumulativeGasUsed then none
  else
    let header : Header :=
      { parentHash := parent.hash
        number := parent.header.number + 1
        transactionsRoot := env.orderedTrieRoot transactionLeaves
        withdrawalsRoot := some (env.orderedTrieRoot (attributes.withdrawals.map Withdrawal.encode))
        baseFeePerGas := some (min baseFee.toNat maxU64)
        blobGasUsed := some 0
        excessBlobGas := some 0
        beneficiary := attributes.suggestedFeeRecipient
        gasLimit := attributes.gasLimit
        timestamp := attributes.timestamp
        parentBeaconBlockRoot := some attributes.parentBeaconBlockRoot
        mixHash := attributes.prevRandao
        stateRoot := env.stateRoot progress.state
        receiptsRoot := env.orderedTrieRoot receiptLeaves
        logsBloom := progress.logsBloom
        gasUsed := progress.cumulativeGasUsed }
    let blockHash := env.blockHash header
    some
      { state := progress.state
        block :=
          { hash := blockHash
            value := progress.totalTip
            payloadId := id
            header := header
            transactions := transactions.map env.codec.trieHash }
        receipts := progress.receipts.map fun receipt => { receipt with blockHash := blockHash }
        transactions := transactions.mapIdx fun index inner =>
          { effectiveGasPrice := effectiveGasPrice inner header.baseFeePerGas
            inner := inner
            blockNumber := header.number
            blockHash := blockHash
            transactionIndex := index }
        transactionLeaves := transactionLeaves
        receiptLeaves := receiptLeaves
        executed := progress.executed }

/-- A payload that has its block already. -/
def App.isBuilt (app : App σ) (id : ℕ) : Bool := app.blocks.any fun block => block.payloadId == id

/-- The application once a block is stored; the mempool was drained for it. -/
def App.withBlock (app : App σ) (built : Built σ) : App σ where
  state := built.state
  memPool := []
  receipts := app.receipts ++ built.receipts
  transactions := app.transactions ++ built.transactions
  blocks := app.blocks ++ [built.block]

def startBlockBuild (app : App σ) (attributes : Payload) (id : ℕ) (drained : List Item) :
    Option (App σ) :=
  if app.isBuilt id then some app
  else (buildBlock env app attributes id drained).map app.withBlock

def addTransaction (app : App σ) (tx : TxEnvelope) : Option (App σ) := do
  let item ← poolItem env.codec tx
  some { app with memPool := insertItem app.memPool item }

def genesisUpdate (app : App σ) (block : ExtendedBlock) : App σ :=
  { app with blocks := app.blocks ++ [block] }

end Building

end OpMove.BlockBuilding
