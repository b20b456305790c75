import OpMove.Arguments
import OpMove.EvmModule

/-!
Canonical transactions. The sender pays for the whole gas limit first and its sequence
number goes up, then the payload runs, the transfers of the EVM are replicated, and what
was paid for unused gas is given back. All of this happens in one session. The decoder of
payloads and what the Move VM does with user code are parameters.
-/

namespace OpMove.Canonical

open Primitives MoveTypes GasFees Transactions Errors Arguments ChangeSets StateChanges
open NativeEvm FailingActions Sessions EthToken EvmModule

section Payloads

def l2LowestAddress : Address := 0x4200000000000000000000000000000000000000

def l2HighestAddress : Address := 0x42000000000000000000000000000000000000ff

structure EntryFunction where
  moduleId : ModuleId
  function : String
  tyArgs : List TypeTag
  args : List Bytes

/-- The code of a deployed module is `moduleCode`. -/
inductive ScriptOrDeployment
  | script (script : Script)
  | moduleCode (code : Bytes)
  | evmContract (bytecode : Bytes)

inductive TransactionData
  | eoaBaseTokenTransfer (target : Address)
  | scriptOrDeployment (payload : ScriptOrDeployment)
  | entryFunction (entryFn : EntryFunction)
  | l2Contract (contract : Address)
  | evmContract (address : Address) (data : Bytes)

/-- Payloads as they are serialized; the address of a contract is not repeated. -/
inductive SerializableTransactionData
  | eoaBaseTokenTransfer (target : Address)
  | scriptOrDeployment (payload : ScriptOrDeployment)
  | entryFunction (entryFn : EntryFunction)
  | l2Contract (contract : Address)
  | evmContract (data : Bytes)

/-- The two decoders of payloads. -/
structure PayloadCodec where
  transactionData : Bytes → Option SerializableTransactionData
  scriptOrDeployment : Bytes → Option ScriptOrDeployment

def invalidPayload : Error := .invalidTransaction .invalidPayload

def parseCall (codec : PayloadCodec) (target : Address) (data : Bytes) :
    Except Error TransactionData :=
  if l2LowestAddress.toNat ≤ target.toNat ∧ target.toNat ≤ l2HighestAddress.toNat then
    .ok (.l2Contract target)
  else if data.isEmpty then .ok (.eoaBaseTokenTransfer target)
  else
    match codec.transactionData data with
    | some (.entryFunction entryFn) =>
      if entryFn.moduleId.1 = toMoveAddress target then .ok (.entryFunction entryFn)
      else .error (.invalidTransaction .invalidDestination)
    | some (.evmContract data) => .ok (.evmContract target data)
    | _ => .error invalidPayload

def parseFrom (codec : PayloadCodec) (tx : NormalizedEthTransaction) :
    Except Error TransactionData :=
  match tx.target with
  | .call target => parseCall codec target tx.data
  | .create =>
    match codec.scriptOrDeployment tx.data with
    | some payload => .ok (.scriptOrDeployment payload)
    | none => .error invalidPayload

end Payloads

section Environment

/-- The Move VM: what it answers about types and code, and how it runs user code. The
functions on bytes are the deserializer and the verifier of modules. -/
structure MoveVm (γ τ : Type) where
  types : MoveState → TypeSession τ
  loadFunction : MoveState → EntryFunction → Except VmError (List (RuntimeType τ))
  loadScript : MoveState → Bytes → List TypeTag → Except Error (List (RuntimeType τ))
  runEntryFunction : EntryFunction → List Bytes → Vm γ Unit
  runScript : Script → List Bytes → Vm γ Unit
  deserializeModule : Bytes → Except VmError ModuleId
  verifiedModuleBundle : MoveState → AccountAddress → Bytes →
    Except VmError (List (ModuleId × Bytes))

structure CanonicalEnv (γ X τ : Type) extends NodeEnv γ where
  revm : Revm X
  vm : MoveVm γ τ
  codec : PayloadCodec
  chainId : ℕ

/-- The gas limit is a 64-bit number in the source. -/
structure CanonicalExecutionInput where
  tx : NormalizedEthTransaction
  state : ChainState
  l1Cost : U256
  l2Fee : MovedGasFee
  l2Input : L2GasFeeInput
  ethTreasury : AccountAddress
  blockHeader : HeaderForExecution
  hashByNumber : ℕ → Option B256
  gasLimitFits : l2Input.gasLimit ≤ maxU64

namespace CanonicalExecutionInput

variable (input : CanonicalExecutionInput)

def sender : AccountAddress := toMoveAddress input.tx.signer

def l2Cost : U256 := input.l2Fee.l2Fee input.l2Input

def usedL2Cost (gasUsed : ℕ) : U256 :=
  input.l2Fee.l2Fee ⟨gasUsed, input.l2Input.effectiveGasPrice⟩

end CanonicalExecutionInput

end Environment

section Nonces

variable {γ : Type} (meter : GasMeter γ)

def cannotReservedAddress : ℕ := 0x10005

def sequenceNumberTooBig : ℕ := 0x20003

def accountDoesNotExist : ℕ := 0x60002

/-- The addresses of the VM and of the frameworks have no account. -/
def reservedAddresses : List AccountAddress := [0, 1, 3]

def createAccountIfDoesNotExist (address : AccountAddress) : Vm γ Unit := do
  let found ← Act.read fun s => (s.move.sequenceNumbers address).isSome
  if found then pure ()
  else if address ∈ reservedAddresses then abort cannotReservedAddress
  else writeMove meter fun state =>
    { state with sequenceNumbers := Function.update state.sequenceNumbers address (some 0) }

def getSequenceNumber (address : AccountAddress) : Vm γ ℕ := do
  let found ← Act.read fun s => s.move.sequenceNumbers address
  match found with
  | some nonce => pure nonce
  | none => abort accountDoesNotExist

def incrementSequenceNumber (address : AccountAddress) : Vm γ Unit := do
  let nonce ← getSequenceNumber address
  if maxU64 ≤ nonce then abort sequenceNumberTooBig
  else writeMove meter fun state =>
    { state with sequenceNumbers := Function.update state.sequenceNumbers address (some (nonce + 1)) }

def nonceError (invariant : NonceChecking) : VmError → Error
  | .outOfGas => .invalidTransaction .insufficientIntrinsicGas
  | _ => .invariantViolation (.nonceChecking invariant)

def checkNonce (txNonce : ℕ) (signer : AccountAddress) : Act (Session γ) Error Unit := do
  (createAccountIfDoesNotExist meter signer).mapError (nonceError .anyAccountCanBeCreated)
  let accountNonce ← (getSequenceNumber signer).mapError fun _ =>
    .invariantViolation (.nonceChecking .getNonceAlwaysSucceeds)
  if txNonce ≠ accountNonce then
    Act.fail (.invalidTransaction (.incorrectNonce accountNonce txNonce))
  else if accountNonce = maxU64 then Act.fail (.invalidTransaction .exhaustedAccount)
  else (incrementSequenceNumber meter signer).mapError (nonceError .incrementNonceAlwaysSucceeds)

end Nonces

section Verification

variable {γ X τ : Type} (env : CanonicalEnv γ X τ) (input : CanonicalExecutionInput)

def checkChainId : Act (Session γ) Error Unit :=
  if input.tx.chainId.any fun chainId => chainId ≠ env.chainId then
    Act.fail (.invalidTransaction .incorrectChainId)
  else pure ()

def chargeTransaction : Vm γ Unit := do
  chargeGas env.meter (.intrinsic input.tx.data.length)
  chargeGas env.meter (.io input.tx.data.length)

def chargeGasCost (amount : U256) : Vm γ Unit :=
  transferEth unmeteredGasMeter input.sender input.ethTreasury amount

def refundGasCost (amount : U256) : Vm γ Unit :=
  transferEth unmeteredGasMeter input.ethTreasury input.sender amount

/-- The fees and the nonce are paid for by the intrinsic gas, not by the meter. -/
def verifyTransaction : Act (Session γ) Error Unit := do
  checkChainId env input
  (chargeTransaction env input).mapError fun _ => .invalidTransaction .insufficientIntrinsicGas
  (chargeGasCost input input.l1Cost).mapError fun _ => .invalidTransaction .failedToPayL1Fee
  (chargeGasCost input input.l2Cost).mapError fun _ => .invalidTransaction .failedToPayL2Fee
  checkNonce unmeteredGasMeter input.tx.nonce input.sender

end Verification

section Execution

variable {γ X τ : Type} (env : CanonicalEnv γ X τ) (input : CanonicalExecutionInput)

def userError (e : VmError) : Error := .user (.vm e)

def partialError (e : VmError) : Error := .user (.partialVm e)

def executeEntryFunction (entryFn : EntryFunction) (signer : AccountAddress) :
    Act (Session γ) Error Unit := do
  let params ← Act.query fun s => (env.vm.loadFunction s.move entryFn).mapError userError
  let args ← Act.query fun s => entryArguments (env.vm.types s.move) signer params entryFn.args
  let _ ← Act.query fun s => (env.vm.loadFunction s.move entryFn).mapError userError
  (env.vm.runEntryFunction entryFn args).mapError userError

def executeScript (script : Script) (signer : AccountAddress) : Act (Session γ) Error Unit := do
  let args ← Act.query fun s =>
    scriptArguments (env.vm.types s.move) signer (env.vm.loadScript s.move) script
  (env.vm.runScript script args).mapError userError

def chargeNewModuleProcessing (moduleSize : ℕ) : Vm γ Unit := do
  chargeGas env.meter (.publishRequest moduleSize)
  chargeGas env.meter (.dependency moduleSize)

def moduleOp (state : MoveState) (id : ModuleId) (bytes : Bytes) : Op Bytes :=
  if (state.modules id).isSome then .modify bytes else .new bytes

/-- The writes are kept apart from the session; two modules of one name panic. -/
def deployModule (code : Bytes) (address : AccountAddress) (state : MoveState) :
    Except Error (ModuleId × ChangeSet ModuleId Bytes) := do
  let id ← (env.vm.deserializeModule code).mapError partialError
  let bundle ← (env.vm.verifiedModuleBundle state address code).mapError userError
  let writes ← (bundle.foldlM (fun (writes : ChangeSet ModuleId Bytes) entry =>
    writes.addOp entry.1 (moduleOp state entry.1 entry.2)) ∅).elim (.error .panicked) .ok
  .ok (id, writes)

/-- `Address::from_slice` panics on anything but 20 bytes. -/
def addressFromSlice (bytes : Bytes) : Except Error Address :=
  if bytes.length = 20 then .ok (BitVec.ofNat 160 (beNat bytes)) else .error .panicked

def deployEvmContract (bytecode : Bytes) (value : U256) (signer : AccountAddress) :
    Act (Session γ) Error Address := do
  let outcome ← (systemEvmCreate env.meter env.revm env.lib signer value bytecode).mapError
    userError
  if outcome.isSuccess then Act.query fun _ => addressFromSlice outcome.output
  else Act.fail (.user .evmContractCreationFailure)

def executeEvmContract (signer contract : AccountAddress) (value : U256) (data : Bytes) :
    Act (Session γ) Error EvmNativeOutcome :=
  (systemEvmCall env.meter env.revm env.lib signer contract value data).mapError userError

def evmNativeModule : ModuleId := (evmNativeAddress, "evm")

/-- What a payload has deployed, and the modules to be written in the end. -/
structure Deployed where
  deployment : Option (AccountAddress × ModuleId)
  changes : ChangeSet ModuleId Bytes

def nothingDeployed : Deployed := ⟨none, ∅⟩

def executeDeployment (code : Bytes) : Act (Session γ) Error Deployed := do
  (chargeNewModuleProcessing env code.length).mapError partialError
  let (id, writes) ← Act.query fun s => deployModule env code input.sender s.move
  pure ⟨some (input.sender, id), writes⟩

/-- The payload of a transaction, one branch for each kind. -/
def executePayload : TransactionData → Act (Session γ) Error Deployed
  | .entryFunction entryFn => do
    executeEntryFunction env entryFn input.sender
    pure nothingDeployed
  | .scriptOrDeployment (.script script) => do
    executeScript env script input.sender
    pure nothingDeployed
  | .scriptOrDeployment (.moduleCode code) => executeDeployment env input code
  | .scriptOrDeployment (.evmContract bytecode) => do
    let address ← deployEvmContract env bytecode input.tx.value input.sender
    pure ⟨some (toMoveAddress address, evmNativeModule), ∅⟩
  | .eoaBaseTokenTransfer target => do
    (transferEth env.meter input.sender (toMoveAddress target) input.tx.value).mapError userError
    pure nothingDeployed
  | .l2Contract contract => do
    let _ ← executeEvmContract env input.sender (toMoveAddress contract) input.tx.value
      input.tx.data
    pure nothingDeployed
  | .evmContract address data => do
    let _ ← executeEvmContract env input.sender (toMoveAddress address) input.tx.value data
    pure nothingDeployed

/-- Replication follows a payload that has succeeded. -/
def replicateAfter (payload : Except Error Deployed) : Act (Session γ) Error Unit :=
  match payload with
  | .ok _ => (replicateTransfers env.meter).mapError userError
  | .error e => Act.fail e

/-- The modules of a deployment are written even when a later step has failed. -/
def deployChanges : Except Error Deployed → ChangeSet ModuleId Bytes
  | .ok deployed => deployed.changes
  | .error _ => ∅

def deploymentOf : Except Error Deployed → Option (AccountAddress × ModuleId)
  | .ok deployed => deployed.deployment
  | .error _ => none

def refundAmount (gasUsed : ℕ) : U256 :=
  U256.saturatingSub input.l2Cost (input.usedL2Cost gasUsed)

/-- The outcome of a finished session; a user error gets one as well. -/
def finishCanonical (payload : Except Error Deployed) (gasUsed : ℕ) (s : Session γ) :
    Except Error Unit → Except Error TransactionExecutionOutcome := fun vmOutcome =>
  match evmChangesOf env.toNodeEnv s with
  | none => .error .panicked
  | some changes =>
    let outcome (result : Except UserError Unit)
        (deployment : Option (AccountAddress × ModuleId)) : TransactionExecutionOutcome := {
      vmOutcome := result
      move := { s.move with modules := (deployChanges payload).apply s.move.modules }
      evm := changes
      gasUsed := gasUsed
      l2Price := input.l2Input.effectiveGasPrice
      logs := logsOf env.toNodeEnv s.events
      deployment := deployment }
    match vmOutcome with
    | .ok () => .ok (outcome (.ok ()) (deploymentOf payload))
    | .error (.user e) => .ok (outcome (.error e) none)
    | .error e => .error e

def startCanonical : Session γ :=
  createVmSession env.toNodeEnv input.state input.hashByNumber input.blockHeader
    input.l2Input.gasLimit

/-- What follows verification: payload, replication, refund. -/
def settleCanonical (data : TransactionData) (verified : Session γ) :
    Except Error TransactionExecutionOutcome :=
  let (payload, afterPayload) := executePayload env input data verified
  let (vmOutcome, afterReplication) := replicateAfter env payload afterPayload
  let gasUsed := env.totalGasUsed afterReplication.gas
  match refundGasCost input (refundAmount input gasUsed) afterReplication with
  | (.error _, _) => .error (.invariantViolation (.ethToken .refundAlwaysSucceeds))
  | (.ok (), refunded) => finishCanonical env input payload gasUsed refunded vmOutcome

def executeCanonicalTransaction : Except Error TransactionExecutionOutcome := do
  let data ← parseFrom env.codec input.tx
  match verifyTransaction env input (startCanonical env input) with
  | (.error e, _) => .error e
  | (.ok (), verified) => settleCanonical env input data verified

end Execution

end OpMove.Canonical
