import OpMove.BlockAgreement
import OpMove.CanonicalRuns
import OpMove.Deposits

/-!
The node with its real execution: block building over the chain state, where a canonical
transaction runs in a session that pays for it and a deposit runs free of charge. One
inversion lemma says what a pass of the loop does with a transaction.
-/

namespace OpMove.Node

open Primitives GasFees Transactions Errors StateChanges NativeEvm Sessions Canonical Deposits
open BlockBuilding BlockAgreement

section Configuration

/-- What a node is configured with, besides the environment of execution. -/
structure NodeConfig (γ X τ : Type) extends CanonicalEnv γ X τ where
  ethTreasury : AccountAddress
  txCodec : Codec
  stateRoot : ChainState → B256
  gasFee : Eip1559GasFee
  blockHash : Header → B256
  orderedTrieRoot : List Bytes → B256
  encodeReceipt : OpReceiptEnvelope → Bytes
  logBloom : Log → Bloom

variable {γ X τ : Type} (config : NodeConfig γ X τ)

/-- `hash_by_number` of the block storage. -/
def hashByNumber (blocks : List ExtendedBlock) (number : ℕ) : Option B256 :=
  (blocks.find? fun block => block.header.number = number).map fun block => block.hash

def canonicalInput (state : ChainState) (blocks : List ExtendedBlock) (input : ExecutionInput)
    (tx : NormalizedEthTransaction) (hgas : input.l2Input.gasLimit ≤ maxU64) :
    CanonicalExecutionInput where
  tx := tx
  state := state
  l1Cost := input.l1Cost
  l2Fee := input.l2Fee
  l2Input := input.l2Input
  ethTreasury := config.ethTreasury
  blockHeader := input.blockHeader
  hashByNumber := hashByNumber blocks
  gasLimitFits := hgas

def outcomeOf (outcome : TransactionExecutionOutcome) : Outcome TransactionExecutionOutcome where
  isOk := outcome.vmOutcome.isOk
  changes := outcome
  gasUsed := outcome.gasUsed
  l2Price := outcome.l2Price
  logs := outcome.logs
  deployment := outcome.deployment.map Prod.fst

/-- `execute_transaction`; the gas limit of a transaction is a 64-bit number. -/
def executeTransaction (state : ChainState) (blocks : List ExtendedBlock)
    (input : ExecutionInput) : Except Error (Outcome TransactionExecutionOutcome) :=
  match input.tx with
  | .canonical tx =>
    if hgas : input.l2Input.gasLimit ≤ maxU64 then
      (executeCanonicalTransaction config.toCanonicalEnv
        (canonicalInput config state blocks input tx hgas)).map outcomeOf
    else .error .panicked
  | .depositedTx tx =>
    (executeDepositedTransaction config.toNodeEnv config.revm state (hashByNumber blocks)
      input.blockHeader tx).map outcomeOf

def node : Env ChainState TransactionExecutionOutcome where
  codec := config.txCodec
  executeTransaction := executeTransaction config
  applyChanges state outcome := some (state.apply outcome)
  stateRoot := config.stateRoot
  gasFee := config.gasFee
  blockHash := config.blockHash
  orderedTrieRoot := config.orderedTrieRoot
  encodeReceipt := config.encodeReceipt
  logBloom := config.logBloom

end Configuration

section Passes

variable {γ X τ : Type} {config : NodeConfig γ X τ} {blocks : List ExtendedBlock} {batch : Batch}

theorem gasLimit_le (tx : NormalizedEthTransaction) : tx.gasLimit ≤ maxU64 := by
  unfold NormalizedEthTransaction.gasLimit maxU64
  split_ifs <;> omega

/-- What a canonical transaction of a batch is executed with. -/
def batchInput (config : NodeConfig γ X τ) (state : ChainState) (blocks : List ExtendedBlock)
    (batch : Batch) (item : Item) (tx : NormalizedEthTransaction) : CanonicalExecutionInput :=
  canonicalInput config state blocks (batch.input item (.canonical tx)) tx (gasLimit_le tx)

theorem executeTransaction_canonical (state : ChainState) (item : Item)
    (tx : NormalizedEthTransaction) :
    (node config).executeTransaction state blocks (batch.input item (.canonical tx)) =
      (executeCanonicalTransaction config.toCanonicalEnv
        (batchInput config state blocks batch item tx)).map outcomeOf :=
  dif_pos (gasLimit_le tx)

theorem map_ok {ε α β : Type} {x : Except ε α} {f : α → β} {b : β} (h : x.map f = .ok b) :
    ∃ a, x = .ok a ∧ b = f a := by
  cases x with
  | error e => cases h
  | ok a => exact ⟨a, rfl, (Except.ok.inj h).symm⟩

theorem accepted_canonical {state : ChainState} {item : Item} {tx : NormalizedEthTransaction}
    {outcome : Outcome TransactionExecutionOutcome}
    (h : (node config).executeTransaction state blocks (batch.input item (.canonical tx)) =
      .ok outcome) :
    ∃ result, executeCanonicalTransaction config.toCanonicalEnv
      (batchInput config state blocks batch item tx) = .ok result ∧ outcome = outcomeOf result := by
  rw [executeTransaction_canonical] at h
  exact map_ok h

theorem accepted_deposit {state : ChainState} {item : Item} {tx : TxDeposit}
    {outcome : Outcome TransactionExecutionOutcome}
    (h : (node config).executeTransaction state blocks (batch.input item (.depositedTx tx)) =
      .ok outcome) :
    ∃ result, executeDepositedTransaction config.toNodeEnv config.revm state (hashByNumber blocks)
      batch.blockHeader tx = .ok result ∧ outcome = outcomeOf result :=
  map_ok h

end Passes

end OpMove.Node
