import OpMove.CanonicalRuns
import OpMove.CleanFailures
import OpMove.Deposits

/-!
What a failed canonical transaction leaves behind. The fee is charged and the nonce goes
up, and nothing else should happen. The failed payload runs in the session the fee is
charged in, so the rest of its effects is only gone if there was none: the transaction is
atomic exactly when its payload fails before the first effect.
-/

namespace OpMove.FailedTransactions

open Primitives GasFees Transactions Errors StateChanges NativeEvm FailingActions Sessions
open EthToken EvmModule Payments Canonical SessionProgress FeeSettlement CanonicalRuns
open CleanFailures

section Atomicity

variable {γ X τ : Type} (env : CanonicalEnv γ X τ) (input : CanonicalExecutionInput)

/-- The state is the one before with the net fee moved and the nonce increased, no account
and no slot of the EVM has changed, and the logs are those of the fee. -/
structure Atomic (outcome : TransactionExecutionOutcome) : Prop where
  move : (input.state.apply outcome).move = nextNonce input.sender
    (moveFee input.sender input.ethTreasury input.l1Cost input.l2Cost
      (input.l1Cost.toNat + (input.usedL2Cost outcome.gasUsed).toNat) input.state.move)
  evm : EvmSame env.lib input.state.evm (input.state.apply outcome).evm
  logs : outcome.logs = logsOf env.toNodeEnv (feeEvents input ++
    paymentEvents input.ethTreasury input.sender (refundAmount input outcome.gasUsed))

/-- How a payload has to fail to leave nothing behind, by its kind, in the session that
verification leaves. User code is judged by what the VM does with it. -/
def FailsCleanly (verified : Session γ) : TransactionData → Prop
  | .eoaBaseTokenTransfer target =>
    TransferFailsCleanly env.meter verified.move verified.gas input.sender (toMoveAddress target)
      input.tx.value.toNat
  | .scriptOrDeployment (.moduleCode _) => True
  | .scriptOrDeployment (.evmContract bytecode) =>
    EvmFailsCleanly env.toNodeEnv env.revm verified input.sender .create input.tx.value bytecode
  | .l2Contract contract =>
    EvmFailsCleanly env.toNodeEnv env.revm verified input.sender (.call contract) input.tx.value
      input.tx.data
  | .evmContract address data =>
    EvmFailsCleanly env.toNodeEnv env.revm verified input.sender (.call address) input.tx.value data
  | .entryFunction entryFn =>
    NoTrace env.toNodeEnv verified (payloadRun env input (.entryFunction entryFn) verified).2
  | .scriptOrDeployment (.script script) =>
    NoTrace env.toNodeEnv verified
      (payloadRun env input (.scriptOrDeployment (.script script)) verified).2

/-- The payload of the transaction fails cleanly after verification. -/
def PayloadFailsCleanly : Prop :=
  ∃ data verified, parseFrom env.codec input.tx = .ok data ∧
    verifyTransaction env input (startCanonical env input) = (.ok (), verified) ∧
    FailsCleanly env input verified data

variable {env input}

/-- Nothing but gas is different. -/
structure GasOnly (s s' : Session γ) : Prop where
  move : s'.move = s.move
  events : s'.events = s.events
  evm : s'.evm = s.evm

instance : IsPreorder (Session γ) GasOnly where
  refl _ := ⟨rfl, rfl, rfl⟩
  trans _ _ _ h h' :=
    ⟨h'.move.trans h.move, h'.events.trans h.events, h'.evm.trans h.evm⟩

theorem GasOnly.quiet {s s' : Session γ} (h : GasOnly s s') : Quiet s s' :=
  ⟨h.move, h.events, congrArg _ h.evm, congrArg _ h.evm⟩

theorem gasOnly_chargeGas (meter : GasMeter γ) (charge : Charge) :
    Keeps GasOnly (chargeGas meter charge) := by
  intro s
  unfold chargeGas
  split <;> exact ⟨rfl, rfl, rfl⟩

/-- A deployment spends gas in the session and does nothing else there. -/
theorem gasOnly_executeDeployment (code : Bytes) :
    Keeps GasOnly (executeDeployment env input code) := by
  refine Keeps.bind (Keeps.mapError (Keeps.bind (gasOnly_chargeGas _ _) fun _ => ?_) _) fun _ => ?_
  · exact gasOnly_chargeGas _ _
  · exact Keeps.bind (Keeps.query _) fun _ => Keeps.pure _

theorem gasOnly_of_executeDeployment {code : Bytes} {result : Except Error Deployed}
    {s s' : Session γ} (h : executeDeployment env input code s = (result, s')) : GasOnly s s' := by
  have hkept : GasOnly s (executeDeployment env input code s).2 := gasOnly_executeDeployment code s
  rw [h] at hkept
  exact hkept

/-- Replication cannot fail while the EVM has logged nothing. -/
theorem not_replicate_error {e : Error} {s s' : Session γ}
    (hlogs : s.evm.transferLogs = ⟨[], []⟩) :
    (replicateTransfers env.meter).mapError userError s ≠ (.error e, s') := by
  intro h
  obtain ⟨inner, hinner, -⟩ := mapError_error.mp h
  rw [replicateTransfers_empty hlogs] at hinner
  cases (Prod.mk.inj hinner).1

/-- Only a deployment has modules to write, and nothing can fail after it. -/
theorem deployChanges_of_failed {data : TransactionData} {verified afterPayload run : Session γ}
    {payload : Except Error Deployed} {e : Error} (hlogs : verified.evm.transferLogs = ⟨[], []⟩)
    (hpayload : executePayload env input data verified = (payload, afterPayload))
    (hreplicate : replicateAfter env payload afterPayload = (.error e, run)) :
    deployChanges payload = ∅ := by
  rcases payload with e | deployed
  · rfl
  rcases data with target | (script | code | bytecode) | entryFn | contract | ⟨address, bytes⟩
  case scriptOrDeployment.moduleCode =>
    rw [← (gasOnly_of_executeDeployment hpayload).evm] at hlogs
    exact absurd hreplicate (not_replicate_error hlogs)
  all_goals
    obtain ⟨_, _, -, hpure⟩ := bind_ok.mp hpayload
    rw [← (pure_ok.mp hpure).1]
    rfl

theorem transfer_of_payloadRun {target : Address} {verified run : Session γ} {e : UserError}
    (hlogs : verified.evm.transferLogs = ⟨[], []⟩)
    (h : payloadRun env input (.eoaBaseTokenTransfer target) verified = (.error (.user e), run)) :
    ∃ inner, transferEth env.meter input.sender (toMoveAddress target) input.tx.value verified =
      (.error inner, run) := by
  rcases bind_error.mp h with hpayload | ⟨_, paid, hpayload, hreplicate⟩
  · rcases bind_error.mp hpayload with htransfer | ⟨_, _, -, hpure⟩
    · obtain ⟨inner, hinner, -⟩ := mapError_error.mp htransfer
      exact ⟨inner, hinner⟩
    · exact (pure_error.mp hpure).elim
  · -- a transfer does not touch the log that replication reads
    exfalso
    obtain ⟨_, moved, htransfer, hpure⟩ := bind_ok.mp hpayload
    obtain ⟨-, rfl⟩ := pure_ok.mp hpure
    have hran := (ran_of_transferEth (mapError_ok.mp htransfer)).2
    rw [← hran.evm] at hlogs
    exact not_replicate_error hlogs hreplicate

theorem evmCall_of_payloadRun {contract : Address} {value : U256} {data : Bytes}
    {verified run : Session γ} {e : UserError}
    (h : ((do
        let _ ← executeEvmContract env input.sender (toMoveAddress contract) value data
        pure nothingDeployed : Act (Session γ) Error Deployed) >>= fun _ =>
          (replicateTransfers env.meter).mapError userError) verified = (.error (.user e), run)) :
    ∃ inner, (systemEvmTransact env.meter env.revm env.lib input.sender (.call contract) value data
      callFailed >>= fun _ => replicateTransfers env.meter) verified = (.error inner, run) := by
  have heq : systemEvmCall env.meter env.revm env.lib input.sender (toMoveAddress contract) value
      data = systemEvmTransact env.meter env.revm env.lib input.sender (.call contract) value data
        callFailed := by
    rw [systemEvmCall_eq, toEthAddress_toMoveAddress]
  rw [← heq]
  rcases bind_error.mp h with hpayload | ⟨_, called, hpayload, hreplicate⟩
  · rcases bind_error.mp hpayload with hcall | ⟨_, _, -, hpure⟩
    · obtain ⟨inner, hinner, -⟩ := mapError_error.mp hcall
      exact ⟨inner, bind_of_error hinner⟩
    · exact (pure_error.mp hpure).elim
  · obtain ⟨result, afterCall, hcall, hpure⟩ := bind_ok.mp hpayload
    obtain ⟨-, rfl⟩ := pure_ok.mp hpure
    obtain ⟨inner, hinner, -⟩ := mapError_error.mp hreplicate
    refine ⟨inner, ?_⟩
    rw [bind_of_ok (mapError_ok.mp hcall)]
    exact hinner

theorem isSuccess_of_systemEvmTransact {meter : GasMeter γ} {revm : Revm X}
    {lib : StorageTries.TrieLibrary} {caller : AccountAddress} {transactTo : TxKind} {value : U256}
    {data : Bytes} {failed : ℕ} {result : EvmNativeOutcome} {s s' : Session γ}
    (h : systemEvmTransact meter revm lib caller transactTo value data failed s =
      (.ok result, s')) : result.isSuccess = true := by
  obtain ⟨payment, paid, -, h⟩ := bind_ok.mp h
  obtain ⟨found, called, -, h⟩ := bind_ok.mp h
  split_ifs at h with hsuccess
  · obtain ⟨_, emitted, -, hpure⟩ := bind_ok.mp h
    rw [← (pure_ok.mp hpure).1]
    exact hsuccess
  · exact (fail_ok.mp h).elim

theorem evmCreate_of_payloadRun {bytecode : Bytes} {verified run : Session γ} {e : UserError}
    (h : payloadRun env input (.scriptOrDeployment (.evmContract bytecode)) verified =
      (.error (.user e), run)) :
    ∃ inner, (systemEvmTransact env.meter env.revm env.lib input.sender .create input.tx.value
      bytecode deploymentFailed >>= fun _ => replicateTransfers env.meter) verified =
        (.error inner, run) := by
  rw [← systemEvmCreate_eq]
  rcases bind_error.mp h with hpayload | ⟨_, deployed, hpayload, hreplicate⟩
  · rcases bind_error.mp hpayload with hdeploy | ⟨_, _, -, hpure⟩
    · rcases bind_error.mp hdeploy with hcreate | ⟨result, created, hcreate, hrest⟩
      · obtain ⟨inner, hinner, -⟩ := mapError_error.mp hcreate
        exact ⟨inner, bind_of_error hinner⟩
      · have hcreated := mapError_ok.mp hcreate
        rw [systemEvmCreate_eq] at hcreated
        rw [if_pos (isSuccess_of_systemEvmTransact hcreated)] at hrest
        have hslice := (query_error.mp hrest).1
        unfold addressFromSlice at hslice
        split_ifs at hslice
        cases Except.error.inj hslice
    · exact (pure_error.mp hpure).elim
  · obtain ⟨address, afterDeploy, hdeploy, hpure⟩ := bind_ok.mp hpayload
    obtain ⟨-, rfl⟩ := pure_ok.mp hpure
    obtain ⟨result, created, hcreate, hrest⟩ := bind_ok.mp hdeploy
    have hsame : created = afterDeploy := by
      split_ifs at hrest
      · exact (query_ok.mp hrest).2
      · exact (fail_ok.mp hrest).elim
    obtain ⟨inner, hinner, -⟩ := mapError_error.mp hreplicate
    refine ⟨inner, ?_⟩
    rw [bind_of_ok (mapError_ok.mp hcreate), hsame]
    exact hinner

/-- For every kind of payload, the condition decides whether its failure leaves a trace. -/
theorem noTrace_iff_failsCleanly {data : TransactionData} {verified run : Session γ}
    {e : UserError} (hlogs : verified.evm.transferLogs = ⟨[], []⟩)
    (hchanges : verified.evm.stateChanges = [])
    (h : payloadRun env input data verified = (.error (.user e), run)) :
    NoTrace env.toNodeEnv verified run ↔ FailsCleanly env input verified data := by
  rcases data with target | (script | code | bytecode) | entryFn | contract | ⟨address, bytes⟩
  case eoaBaseTokenTransfer =>
    obtain ⟨inner, htransfer⟩ := transfer_of_payloadRun hlogs h
    have hvalue : input.tx.value ≠ 0 := by
      intro hzero
      rw [transferEth, if_pos hzero] at htransfer
      exact pure_error.mp htransfer
    rw [← bind_pure_unit (transferEth _ _ _ _)] at htransfer
    exact (transferEth_decides hvalue (Keeps.pure ()) htransfer).noTrace_iff hchanges
  case scriptOrDeployment.moduleCode =>
    have hgas : GasOnly verified run := by
      rcases bind_error.mp h with hpayload | ⟨deployed, after, hpayload, hreplicate⟩
      · exact gasOnly_of_executeDeployment hpayload
      · rw [← (gasOnly_of_executeDeployment hpayload).evm] at hlogs
        exact absurd hreplicate (not_replicate_error hlogs)
    have hdecides : Decides env.toNodeEnv True verified run :=
      ⟨fun _ => hgas.quiet, fun hnot => absurd trivial hnot⟩
    exact hdecides.noTrace_iff hchanges
  case scriptOrDeployment.evmContract =>
    obtain ⟨inner, hcreate⟩ := evmCreate_of_payloadRun h
    exact evm_noTrace_iff hlogs hchanges hcreate
  case l2Contract =>
    obtain ⟨inner, hcall⟩ := evmCall_of_payloadRun h
    exact evm_noTrace_iff hlogs hchanges hcall
  case evmContract =>
    obtain ⟨inner, hcall⟩ := evmCall_of_payloadRun h
    exact evm_noTrace_iff hlogs hchanges hcall
  case entryFunction =>
    show _ ↔ NoTrace _ verified (payloadRun env input _ verified).2
    rw [h]
  case scriptOrDeployment.script =>
    show _ ↔ NoTrace _ verified (payloadRun env input _ verified).2
    rw [h]

/-- A refund can be told back: two states that end the same after it were the same. -/
theorem payEth_injective {source target : AccountAddress} {amount : U256} {state other : MoveState}
    (hstore : amount ≠ 0 → (state.ethStores target).isSome ∧ (other.ethStores target).isSome)
    (hstate : Affords state source amount) (hother : Affords other source amount)
    (h : payEth source target amount state = payEth source target amount other) :
    state = other := by
  unfold payEth at h
  split_ifs at h with hzero
  · exact h
  · obtain ⟨hfound, hfound'⟩ := hstore hzero
    have hstateEnough := (hstate hzero).2
    have hotherEnough := (hother hzero).2
    rw [paid_eq_moved hstateEnough, paid_eq_moved hotherEnough, ensured_of_isSome hfound,
      ensured_of_isSome hfound'] at h
    exact moved_injective (covers_payment hstateEnough) (covers_payment hotherEnough) h

variable {data : TransactionData} {verified afterPayload run settled : Session γ}
variable {payload : Except Error Deployed} {vmOutcome : Except Error Unit}
variable {outcome : TransactionExecutionOutcome}

/-- The fee and the refund alone give the state an atomic transaction has to end in. -/
theorem settled_eq (hlawful : Lawful env)
    (h : AcceptedRun env input data verified afterPayload run settled payload vmOutcome outcome) :
    payEth input.ethTreasury input.sender (refundAmount input (env.totalGasUsed run.gas))
        verified.move =
      nextNonce input.sender (moveFee input.sender input.ethTreasury input.l1Cost input.l2Cost
        (input.l1Cost.toNat + (input.usedL2Cost (env.totalGasUsed run.gas)).toNat)
        input.state.move) := by
  obtain ⟨hl1, hl2, hran⟩ := ran_of_verifyTransaction h.verifies
  have hused := h.usedL2Cost_le hlawful
  have hrefund : (refundAmount input (env.totalGasUsed run.gas)).toNat = _ :=
    toNat_refundAmount (env.totalGasUsed run.gas)
  have hle : (refundAmount input (env.totalGasUsed run.gas)).toNat ≤ input.l2Cost.toNat := by
    omega
  have hnet : input.l2Cost.toNat - (refundAmount input (env.totalGasUsed run.gas)).toNat =
      (input.usedL2Cost (env.totalGasUsed run.gas)).toNat := by
    omega
  rw [hran.move, verifiedState, payEth_nextNonce, payEth_settles hle hl1 hl2, hnet]
  rfl

/-- The refund hides nothing: a failed transaction is atomic when its payload left no trace. -/
theorem atomic_iff_noTrace (hlawful : Lawful env)
    (h : AcceptedRun env input data verified afterPayload run settled payload vmOutcome outcome)
    {e : UserError} (hfailed : outcome.vmOutcome = .error e) :
    Atomic env input outcome ↔ NoTrace env.toNodeEnv verified run := by
  obtain ⟨-, -, hverified⟩ := ran_of_verifyTransaction h.verifies
  obtain ⟨hafford, hrefund⟩ := h.ran_refund
  obtain ⟨hchanges, hmove, hgasUsed, hlogs, -, hvm⟩ := finishCanonical_ok h.finishes
  have hsettled := settled_eq hlawful h
  have hadvances := h.advances hlawful
  have hcan := affords_refund h.verifies (env.totalGasUsed run.gas)
  have hdeployed : deployChanges payload = ∅ := by
    have hreplicates := h.replicates
    rw [hvm, hfailed] at hreplicates
    refine deployChanges_of_failed ?_ h.pays hreplicates
    rw [hverified.evm]
    rfl
  have hfinal : (input.state.apply outcome).move = settled.move := by
    show outcome.move = _
    rw [hmove, hdeployed]
    rfl
  have hfirst : verified.evm.state = input.state.evm := by
    rw [hverified.evm]
    rfl
  have hextract : evmChangesOf env.toNodeEnv settled = evmChangesOf env.toNodeEnv run := by
    rw [evmChangesOf, evmChangesOf, hrefund.evm]
  have hevents : settled.events = run.events ++ paymentEvents input.ethTreasury input.sender
      (refundAmount input (env.totalGasUsed run.gas)) := hrefund.events
  have hfees : verified.events = feeEvents input := hverified.events
  constructor
  · intro hatomic
    refine ⟨⟨?_, ?_⟩, ?_⟩
    · -- the same state after the refund means the same state before it
      apply payEth_injective (fun hne => ⟨hadvances.stores _ (hcan hne).1, (hcan hne).1⟩) hafford
        (fun hne => (hcan hne).2)
      rw [← hrefund.move, ← hfinal, hatomic.move, hgasUsed, hsettled]
    · have hsame := hatomic.logs
      rw [hlogs, hevents, hgasUsed, logsOf_append, logsOf_append] at hsame
      rw [hfees]
      exact List.append_cancel_right hsame
    · intro changes hrun
      rw [hextract, hrun, Option.some.injEq] at hchanges
      rw [hfirst, hchanges]
      exact hatomic.evm
  · intro hnoTrace
    refine ⟨?_, ?_, ?_⟩
    · rw [hfinal, hrefund.move, hnoTrace.move, hgasUsed, hsettled]
    · have hevm := hnoTrace.evm outcome.evm (hextract.symm.trans hchanges)
      rw [hfirst] at hevm
      exact hevm
    · rw [hlogs, hevents, hgasUsed, logsOf_append, logsOf_append, hnoTrace.logs, hfees]

end Atomicity

section Samples

open Extraction LedgerMirror Deposits

/-- The EVM on a call of alice to a contract that reverts: her nonce goes up. -/
def revertingRevm : Revm Unit where
  execute env := .ask (.basic env.tx.caller) fun _ => .done (.ok ())
  journal _ := [[.other]]
  postExecution _ := .done (.ok ⟨.revert 30000 [], AList.singleton alice (loadedAccount 5 1 false)⟩)

/-- A VM without user code. -/
def emptyVm : MoveVm ℕ Unit where
  types _ := ⟨fun _ => .error .panicked, fun _ => .error .panicked,
    ⟨fun _ => false, fun _ _ => false⟩⟩
  loadFunction _ _ := .error (.status (.other 0))
  loadScript _ _ _ := .error (.user (.vm (.status (.other 0))))
  runEntryFunction _ _ := abort 0
  runScript _ _ := abort 0
  deserializeModule _ := .error (.status (.other 0))
  verifiedModuleBundle _ _ _ := .error (.status (.other 0))

/-- The meter is known by its limit; every transaction uses 21000 of it. -/
def canonicalEnv : CanonicalEnv ℕ Unit Unit where
  meter := unmeteredGasMeter
  newGasMeter limit := limit
  totalGasUsed limit := min 21000 limit
  lib := sampleLib
  keccak256 _ := keccakEmpty
  typeHash _ := keccakEmpty
  primaryStoreAddress owner := owner
  revm := revertingRevm
  vm := emptyVm
  codec := ⟨fun bytes => if bytes = [4, 0] then some (.evmContract []) else none, fun _ => none⟩
  chainId := 404

theorem canonicalEnv_lawful : Lawful canonicalEnv := by
  have hspend : ∀ (charges : List Charge) (limit : ℕ),
      spend canonicalEnv.meter charges limit = limit := by
    intro charges
    induction charges with
    | nil => exact fun _ => rfl
    | cons charge charges ih => exact ih
  refine ⟨fun limit charges => ?_, fun _ _ => Keeps.fail _, fun _ _ => Keeps.fail _⟩
  rw [hspend]
  exact min_le_right 21000 limit

/-- alice has 30000 wei, bob has an empty store. -/
def canonicalChain : ChainState where
  move := {
    ethStores a :=
      if a = toMoveAddress alice then some ⟨a, 30000, false⟩
      else if a = toMoveAddress bob then some ⟨a, 0, false⟩ else none
    ethSupply := 30000
    sequenceNumbers _ := none
    resources _ := none
    modules _ := none }
  evm := sampleBase.toEvmState

/-- A transaction of alice with a gas limit of 25000 at one wei each. -/
def sampleInput (target : Address) (value : U256) (data : Bytes) : CanonicalExecutionInput where
  tx := {
    signer := alice
    target := .call target
    nonce := 0
    value := value
    data := data
    chainId := some 404
    gasLimitWord := 25000
    maxPriorityFeePerGas := 1
    maxFeePerGas := 1 }
  state := canonicalChain
  l1Cost := 1
  l2Fee := .withDefaultGasFeeMultiplier
  l2Input := ⟨25000, 1⟩
  ethTreasury := 7
  blockHeader := ⟨1, 0, 0⟩
  hashByNumber _ := none
  gasLimitFits := by decide

end Samples

end OpMove.FailedTransactions
