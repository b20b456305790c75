import OpMove.ArgumentErrors
import OpMove.CanonicalRuns

/-!
What a canonical transaction can fail with. Verification only refuses, as long as the signer is
not one of the reserved addresses, and a payload fails with an error of the user or is refused,
whatever its kind. What is left to stop the node is a refund that the treasury cannot pay.
-/

namespace OpMove.HandledErrors

open Primitives MoveTypes GasFees Transactions Errors Arguments ChangeSets StorageTries NativeEvm
open FailingActions Sessions EthToken EvmModule Canonical CanonicalRuns ArgumentErrors

section Verification

variable {γ X τ : Type} {env : CanonicalEnv γ X τ} {input : CanonicalExecutionInput}

def isInvalid : Error → Bool
  | .invalidTransaction _ => true
  | _ => false

theorem failsOnly_any {σ ε α : Type} (x : Act σ ε α) : FailsOnly (fun _ => True) x :=
  fun _ _ _ _ => trivial

theorem parseFrom_invalid {codec : PayloadCodec} {tx : NormalizedEthTransaction} {e : Error}
    (h : parseFrom codec tx = .error e) : isInvalid e = true := by
  unfold parseFrom parseCall at h
  split at h
  · split_ifs at h
    split at h
    · split_ifs at h
      rw [← Except.error.inj h]
      rfl
    · cases h
    · rw [← Except.error.inj h]
      rfl
  · split at h
    · cases h
    · rw [← Except.error.inj h]
      rfl

theorem createAccount_spec {signer : AccountAddress} (hsigner : signer ∉ reservedAddresses)
    (s : Session γ) : ∃ s' nonce,
      createAccountIfDoesNotExist unmeteredGasMeter signer s = (.ok (), s') ∧
        s'.move.sequenceNumbers signer = some nonce := by
  unfold createAccountIfDoesNotExist
  rw [bind_read]
  cases hfound : s.move.sequenceNumbers signer with
  | some nonce => exact ⟨s, nonce, rfl, hfound⟩
  | none =>
    refine ⟨{ s with move := { s.move with
      sequenceNumbers := Function.update s.move.sequenceNumbers signer (some 0) } }, 0, ?_, ?_⟩
    · rw [Option.isSome_none, if_neg Bool.false_ne_true, if_neg hsigner]
      rfl
    · simp

theorem getSequenceNumber_eq {signer : AccountAddress} {nonce : ℕ} {s : Session γ}
    (h : s.move.sequenceNumbers signer = some nonce) :
    getSequenceNumber signer s = (.ok nonce, s) := by
  unfold getSequenceNumber
  rw [bind_read, h]
  rfl

/-- Without a meter, the nonce of an account that may exist is only ever refused. -/
theorem checkNonce_invalid {txNonce : ℕ} {signer : AccountAddress}
    (hsigner : signer ∉ reservedAddresses) (hnonce : txNonce ≤ maxU64) :
    FailsOnly (fun e => isInvalid e = true)
      (checkNonce unmeteredGasMeter txNonce signer : Act (Session γ) Error Unit) := by
  intro s e s' h
  obtain ⟨created, nonce, hcreated, hfound⟩ := createAccount_spec hsigner s
  unfold checkNonce at h
  rw [bind_of_ok (mapError_ok.mpr hcreated),
    bind_of_ok (mapError_ok.mpr (getSequenceNumber_eq hfound))] at h
  split_ifs at h with hdiffers hexhausted
  · rw [← (fail_error.mp h).1]
    rfl
  · rw [← (fail_error.mp h).1]
    rfl
  · have hincrement : incrementSequenceNumber unmeteredGasMeter signer created =
        (.ok (), { created with move := { created.move with
          sequenceNumbers :=
            Function.update created.move.sequenceNumbers signer (some (nonce + 1)) } }) := by
      unfold incrementSequenceNumber
      rw [bind_of_ok (getSequenceNumber_eq hfound), if_neg (by omega)]
      rfl
    rw [mapError_ok.mpr hincrement] at h
    cases (Prod.mk.inj h).1

theorem verifyTransaction_invalid (hsigner : input.sender ∉ reservedAddresses)
    (hnonce : input.tx.nonce ≤ maxU64) :
    FailsOnly (fun e => isInvalid e = true) (verifyTransaction env input) := by
  have hinvalid : ∀ {α : Type} (x : Vm γ α) (cause : InvalidTransactionCause),
      FailsOnly (fun e => isInvalid e = true)
        (x.mapError fun _ => Error.invalidTransaction cause) :=
    fun x cause => FailsOnly.mapError (failsOnly_any x) fun _ _ => rfl
  refine FailsOnly.bind (FailsOnly.ite (fun _ => FailsOnly.fail rfl) fun _ => FailsOnly.pure ()) ?_
  intro _
  refine FailsOnly.bind (hinvalid _ _) fun _ => ?_
  refine FailsOnly.bind (hinvalid _ _) fun _ => ?_
  exact FailsOnly.bind (hinvalid _ _) fun _ => checkNonce_invalid hsigner hnonce

end Verification

section Payloads

variable {γ X τ : Type} {env : CanonicalEnv γ X τ} {input : CanonicalExecutionInput}

/-- What is relied on outside the repository: the VM describes the parameters of the functions it
loads and fails with errors of its own, a decoded script has arguments that can be encoded, a
verified bundle has a module under a name once, and the EVM names the contract it creates. -/
structure SoundVm (env : CanonicalEnv γ X τ) : Prop where
  function : ∀ state entryFn params, env.vm.loadFunction state entryFn = .ok params →
    ∀ param ∈ params, SoundParameter (env.vm.types state) param
  loadScript : ∀ state code tyArgs, FailsAsUser (env.vm.loadScript state code tyArgs)
  script : ∀ state code tyArgs params, env.vm.loadScript state code tyArgs = .ok params →
    ∀ param ∈ params, ∀ ty, stripReference param = .ok ty →
      FailsAsUser ((env.vm.types state).getTypeTag ty)
  arguments : ∀ data script, env.codec.scriptOrDeployment data = some (.script script) →
    ∀ arg ∈ script.args, ArgumentFits arg
  bundle : ∀ state address code bundle, env.vm.verifiedModuleBundle state address code =
    .ok bundle → (bundle.map Prod.fst).Nodup
  created : ∀ ctx args outcome ctx', args.transactTo = .create →
    evmTransactWithNative env.revm env.lib ctx args = (.ok outcome, ctx') →
    ∀ gas logs output createdAddress,
      outcome.result = .success gas logs output createdAddress → createdAddress.isSome

/-- An action that reports what the VM reports. -/
theorem handled_userError {α : Type} (x : Vm γ α) :
    FailsOnly (fun e => isHandled e = true) (x.mapError userError) :=
  FailsOnly.mapError (failsOnly_any x) fun _ _ => rfl

theorem handled_partialError {α : Type} (x : Vm γ α) :
    FailsOnly (fun e => isHandled e = true) (x.mapError partialError) :=
  FailsOnly.mapError (failsOnly_any x) fun _ _ => rfl

theorem handled_mapError_user {α : Type} (x : Except VmError α) (f : VmError → Error)
    (hf : ∀ e, isHandled (f e) = true) : Handled (x.mapError f) := by
  intro e h
  cases x with
  | error inner =>
    rw [← Except.error.inj h]
    exact hf inner
  | ok a => cases h

theorem ok_of_mapError {α : Type} {x : Except VmError α} {f : VmError → Error} {a : α}
    (h : x.mapError f = .ok a) : x = .ok a := by
  cases x with
  | error inner => cases h
  | ok found => exact congrArg Except.ok (Except.ok.inj h)

theorem handled_executeEntryFunction (h : SoundVm env) (entryFn : EntryFunction)
    (signer : AccountAddress) :
    FailsOnly (fun e => isHandled e = true) (executeEntryFunction env entryFn signer) := by
  have hload : ∀ s : Session γ,
      Handled ((env.vm.loadFunction s.move entryFn).mapError userError) :=
    fun s => handled_mapError_user _ _ fun _ => rfl
  intro s e s' hrun
  rcases bind_error.mp hrun with hquery | ⟨params, middle, hquery, hrun⟩
  · exact hload s e (query_error.mp hquery).1
  obtain ⟨hparams, rfl⟩ := query_ok.mp hquery
  have hargs : Handled (entryArguments (env.vm.types s.move) signer params entryFn.args) :=
    entryArguments_handled (h.function _ _ _ (ok_of_mapError hparams)) entryFn.args
  rcases bind_error.mp hrun with hquery | ⟨args, middle, hquery, hrun⟩
  · exact hargs e (query_error.mp hquery).1
  obtain ⟨-, rfl⟩ := query_ok.mp hquery
  rcases bind_error.mp hrun with hquery | ⟨_, middle, hquery, hrun⟩
  · exact hload s e (query_error.mp hquery).1
  obtain ⟨-, rfl⟩ := query_ok.mp hquery
  exact handled_userError _ _ _ _ hrun

theorem handled_executeScript (h : SoundVm env) {script : Script}
    (hargs : ∀ arg ∈ script.args, ArgumentFits arg) (signer : AccountAddress) :
    FailsOnly (fun e => isHandled e = true) (executeScript env script signer) := by
  refine FailsOnly.bind (FailsOnly.query fun s => ?_) fun args => handled_userError _
  exact scriptArguments_handled (h.loadScript _ _ _) (h.script _ _ _) hargs

/-- Modules of different names can be written together. -/
theorem foldlM_addOp_isSome (state : MoveState) (bundle : List (ModuleId × Bytes))
    (writes : ChangeSet ModuleId Bytes) (hnodup : (bundle.map Prod.fst).Nodup)
    (hnew : ∀ entry ∈ bundle, writes.lookup entry.1 = none) :
    (bundle.foldlM (fun (writes : ChangeSet ModuleId Bytes) entry =>
      writes.addOp entry.1 (moduleOp state entry.1 entry.2)) writes).isSome := by
  induction bundle generalizing writes with
  | nil => rfl
  | cons entry bundle ih =>
    rw [List.map_cons, List.nodup_cons] at hnodup
    have hadd : writes.addOp entry.1 (moduleOp state entry.1 entry.2) =
        some (writes.insert entry.1 (moduleOp state entry.1 entry.2)) := by
      unfold ChangeSet.addOp
      rw [hnew entry List.mem_cons_self]
      rfl
    rw [List.foldlM_cons, hadd]
    refine ih _ hnodup.2 fun other hother => ?_
    have hne : other.1 ≠ entry.1 := by
      intro heq
      exact hnodup.1 (heq ▸ List.mem_map_of_mem hother)
    rw [AList.lookup_insert_ne hne]
    exact hnew other (List.mem_cons_of_mem entry hother)

theorem handled_deployModule (h : SoundVm env) (code : Bytes) (address : AccountAddress)
    (state : MoveState) : Handled (deployModule env code address state) := by
  refine Handled.bind (handled_mapError_user _ _ fun _ => rfl) fun id _ => ?_
  refine Handled.bind (handled_mapError_user _ _ fun _ => rfl) fun bundle hbundle => ?_
  have hnodup := h.bundle state address code bundle (ok_of_mapError hbundle)
  obtain ⟨writes, hwrites⟩ := Option.isSome_iff_exists.mp
    (foldlM_addOp_isSome state bundle ∅ hnodup fun _ _ => rfl)
  rw [hwrites]
  exact Handled.bind (handled_ok writes) fun _ _ => handled_ok _

/-- A contract that was created is known by its address. -/
theorem output_of_systemEvmCreate (h : SoundVm env) {signer : AccountAddress} {value : U256}
    {bytecode : Bytes} {outcome : EvmNativeOutcome} {s s' : Session γ}
    (hrun : systemEvmCreate env.meter env.revm env.lib signer value bytecode s =
      (.ok outcome, s')) : outcome.output.length = 20 := by
  obtain ⟨payment, paid, -, hrun⟩ := bind_ok.mp hrun
  obtain ⟨result, called, hcreate, hrun⟩ := bind_ok.mp hrun
  split_ifs at hrun with hsuccess
  · obtain ⟨_, emitted, -, hpure⟩ := bind_ok.mp hrun
    obtain ⟨rfl, -⟩ := pure_ok.mp hpure
    obtain ⟨asset, valued, -, hnative⟩ := bind_ok.mp hcreate
    obtain ⟨native, htransact, rfl, -⟩ := nativeEvmTransact_spec hnative
    cases hresult : native.result with
    | success gas logs output createdAddress =>
      have hsome := h.created _ _ _ _ rfl htransact gas logs output createdAddress hresult
      obtain ⟨address, rfl⟩ := Option.isSome_iff_exists.mp hsome
      exact length_addressBytes address
    | revert gas output =>
      rw [hresult] at hsuccess
      cases hsuccess
    | halt gas =>
      rw [hresult] at hsuccess
      cases hsuccess
  · exact (fail_ok.mp hrun).elim

theorem handled_deployEvmContract (h : SoundVm env) (bytecode : Bytes) (value : U256)
    (signer : AccountAddress) :
    FailsOnly (fun e => isHandled e = true) (deployEvmContract env bytecode value signer) := by
  intro s e s' hrun
  rcases bind_error.mp hrun with hcreate | ⟨outcome, created, hcreate, hrun⟩
  · exact handled_userError _ _ _ _ hcreate
  · have hlength := output_of_systemEvmCreate h (mapError_ok.mp hcreate)
    split_ifs at hrun
    · obtain ⟨hslice, -⟩ := query_error.mp hrun
      rw [addressFromSlice, if_pos hlength] at hslice
      cases hslice
    · rw [← (fail_error.mp hrun).1]
      rfl

theorem handled_executeDeployment (h : SoundVm env) (code : Bytes) :
    FailsOnly (fun e => isHandled e = true) (executeDeployment env input code) := by
  refine FailsOnly.bind (handled_partialError _) fun _ => ?_
  refine FailsOnly.bind (FailsOnly.query fun s => ?_) fun deployed => FailsOnly.pure _
  exact handled_deployModule h code input.sender s.move

/-- Whatever a user sends as a payload, its errors are handled. -/
theorem handled_executePayload (h : SoundVm env) {data : TransactionData}
    (hparsed : parseFrom env.codec input.tx = .ok data) :
    FailsOnly (fun e => isHandled e = true) (executePayload env input data) := by
  have hevm : ∀ contract value data, FailsOnly (fun e => isHandled e = true) (do
      let _ ← executeEvmContract env input.sender contract value data
      pure nothingDeployed) :=
    fun _ _ _ => FailsOnly.bind (handled_userError _) fun _ => FailsOnly.pure _
  match data, hparsed with
  | .entryFunction entryFn, _ =>
    exact FailsOnly.bind (handled_executeEntryFunction h entryFn _) fun _ => FailsOnly.pure _
  | .scriptOrDeployment (.script script), hparsed =>
    have hdecoded : env.codec.scriptOrDeployment input.tx.data = some (.script script) := by
      unfold parseFrom parseCall at hparsed
      split at hparsed
      · split_ifs at hparsed
        · cases hparsed
        · cases hparsed
        · split at hparsed
          · split_ifs at hparsed
            cases hparsed
          · cases hparsed
          · cases hparsed
      · split at hparsed
        · rename_i payload hpayload
          rw [hpayload, TransactionData.scriptOrDeployment.inj (Except.ok.inj hparsed)]
        · cases hparsed
    refine FailsOnly.bind (handled_executeScript h ?_ _) fun _ => FailsOnly.pure _
    exact h.arguments _ _ hdecoded
  | .scriptOrDeployment (.moduleCode code), _ => exact handled_executeDeployment h code
  | .scriptOrDeployment (.evmContract bytecode), _ =>
    exact FailsOnly.bind (handled_deployEvmContract h bytecode _ _) fun _ => FailsOnly.pure _
  | .eoaBaseTokenTransfer target, _ =>
    exact FailsOnly.bind (handled_userError _) fun _ => FailsOnly.pure _
  | .l2Contract contract, _ => exact hevm _ _ _
  | .evmContract address data, _ => exact hevm _ _ _

theorem handled_payloadRun (h : SoundVm env) {data : TransactionData}
    (hparsed : parseFrom env.codec input.tx = .ok data) :
    FailsOnly (fun e => isHandled e = true) (payloadRun env input data) :=
  FailsOnly.bind (handled_executePayload h hparsed) fun _ => handled_userError _

end Payloads

end OpMove.HandledErrors
