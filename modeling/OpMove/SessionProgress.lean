import OpMove.Canonical

/-!
What no function of a session takes back, whether it succeeds or not: ETH stores that
exist stay, events are only appended, and gas is only spent through the meter. The Move
VM is relied on for the same when it runs user code.
-/

namespace OpMove.SessionProgress

open Primitives Errors Transactions StorageTries NativeEvm FailingActions Sessions EthToken
open EvmModule Arguments Canonical

section Relation

variable {γ : Type}

def spend (meter : GasMeter γ) (charges : List Charge) (gas : γ) : γ :=
  charges.foldl (fun gas charge => (meter.charge charge gas).2) gas

structure Advances (meter : GasMeter γ) (s s' : Session γ) : Prop where
  stores : ∀ a, (s.move.ethStores a).isSome → (s'.move.ethStores a).isSome
  events : s.events <+: s'.events
  gas : ∃ charges, s'.gas = spend meter charges s.gas

instance (meter : GasMeter γ) : IsPreorder (Session γ) (Advances meter) where
  refl s := ⟨fun _ h => h, List.prefix_rfl, [], rfl⟩
  trans s s' s'' h h' := by
    obtain ⟨charges, hgas⟩ := h.gas
    obtain ⟨more, hmore⟩ := h'.gas
    refine ⟨fun a ha => h'.stores a (h.stores a ha), h.events.trans h'.events,
      charges ++ more, ?_⟩
    rw [hmore, hgas, spend, spend, spend, List.foldl_append]

/-- Whatever `used` takes is paid through `meter`. -/
def PaidBy (used meter : GasMeter γ) : Prop :=
  ∀ charge gas, ∃ charges, (used.charge charge gas).2 = spend meter charges gas

theorem paidBy_refl (meter : GasMeter γ) : PaidBy meter meter :=
  fun charge _ => ⟨[charge], rfl⟩

theorem paidBy_unmetered (meter : GasMeter γ) : PaidBy unmeteredGasMeter meter :=
  fun _ _ => ⟨[], rfl⟩

end Relation

section Framework

variable {γ X : Type} {meter : GasMeter γ} {R : Session γ → Session γ → Prop}

/-- The relation is kept by everything the framework writes to the Move state. -/
structure StoresKeep (meter : GasMeter γ) (R : Session γ → Session γ → Prop) : Prop where
  charge : ∀ charge, Keeps R (chargeGas meter charge)
  emit : ∀ event, Keeps R (emit meter event)
  setStore : ∀ owner store, Keeps R (setStore meter owner store)
  setSupply : ∀ supply, Keeps R (writeMove meter fun state => { state with ethSupply := supply })

/-- The relation is kept by everything the framework writes, the context of the EVM included. -/
structure WritesKeep (meter : GasMeter γ) (R : Session γ → Session γ → Prop) : Prop
    extends StoresKeep meter R where
  evm : ∀ (s : Session γ) ctx, R s { s with evm := ctx }

/-- `evm_call` and `evm_create`. -/
def evmTransact (meter : GasMeter γ) (revm : Revm X) (lib : TrieLibrary)
    (caller : AccountAddress) (transactTo : TxKind) (asset : U256) (data : Bytes) :
    Vm γ EvmNativeOutcome := do
  let value ← getAssetValue meter asset
  nativeEvmTransact meter revm lib caller transactTo value data

/-- Both system functions: payment, native call, check of the result, logs. -/
def systemEvmTransact (meter : GasMeter γ) (revm : Revm X) (lib : TrieLibrary)
    (caller : AccountAddress) (transactTo : TxKind) (value : U256) (data : Bytes)
    (failed : ℕ) : Vm γ EvmNativeOutcome := do
  let payment ← withdrawPayment meter caller value
  let result ← evmTransact meter revm lib caller transactTo payment data
  if result.isSuccess then do
    emitEvmLogs meter result
    pure result
  else abort failed

theorem systemEvmCall_eq (meter : GasMeter γ) (revm : Revm X) (lib : TrieLibrary)
    (caller target : AccountAddress) (value : U256) (data : Bytes) :
    systemEvmCall meter revm lib caller target value data =
      systemEvmTransact meter revm lib caller (.call (toEthAddress target)) value data
        callFailed := rfl

theorem systemEvmCreate_eq (meter : GasMeter γ) (revm : Revm X) (lib : TrieLibrary)
    (caller : AccountAddress) (value : U256) (data : Bytes) :
    systemEvmCreate meter revm lib caller value data =
      systemEvmTransact meter revm lib caller .create value data deploymentFailed := rfl

variable [IsPreorder (Session γ) R]

theorem keeps_primaryStore (owner : AccountAddress) :
    Keeps R (primaryStore owner : Vm γ Unit) :=
  Keeps.bind (Keeps.read _) fun _ => Keeps.ite (Keeps.pure ()) (Keeps.fail _)

theorem keeps_borrowStore (owner : AccountAddress) :
    Keeps R (borrowStore owner : Vm γ FungibleStore) := by
  refine Keeps.bind (Keeps.read _) fun found => ?_
  cases found with
  | none => exact Keeps.fail _
  | some store => exact Keeps.pure store

theorem keeps_depositSanityCheck (owner : AccountAddress) :
    Keeps R (depositSanityCheck owner : Vm γ Unit) :=
  Keeps.bind (keeps_borrowStore owner) fun _ => Keeps.ite (Keeps.fail _) (Keeps.pure ())

theorem keeps_withdrawSanityCheck (owner : AccountAddress) :
    Keeps R (withdrawSanityCheck owner : Vm γ Unit) :=
  Keeps.bind (keeps_borrowStore owner) fun _ =>
    Keeps.ite (Keeps.fail _) (Keeps.ite (Keeps.fail _) (Keeps.pure ()))

/-- Replication empties the log of the EVM and makes transfers. -/
theorem keeps_replicateTransfers
    (hlogs : ∀ (s : Session γ) logs, R s { s with evm := { s.evm with transferLogs := logs } })
    (htransfer : ∀ source target amount, Keeps R (transferEth meter source target amount)) :
    Keeps R (replicateTransfers meter) := by
  refine Keeps.bind (fun s => hlogs s _) fun origins => ?_
  refine Keeps.bind (Keeps.forEach origins fun origin => ?_) fun _ => ?_
  · exact Keeps.ite (Keeps.pure ()) (htransfer _ _ _)
  · refine Keeps.bind (fun s => hlogs s _) fun transfers => ?_
    exact Keeps.forEach transfers fun t => htransfer _ _ _

namespace StoresKeep

variable (h : StoresKeep meter R)
include h

theorem ensurePrimaryStoreExists (owner : AccountAddress) :
    Keeps R (ensurePrimaryStoreExists meter owner) :=
  Keeps.bind (Keeps.read _) fun _ => Keeps.ite (Keeps.pure ()) (h.setStore owner _)

theorem withdrawInternal (owner : AccountAddress) (amount : ℕ) :
    Keeps R (withdrawInternal meter owner amount) := by
  refine Keeps.bind (keeps_borrowStore owner) fun store => ?_
  refine Keeps.ite (Keeps.pure ()) (Keeps.ite (Keeps.fail _) ?_)
  exact Keeps.bind (h.setStore owner _) fun _ => h.emit _

theorem depositInternal (owner : AccountAddress) (amount : ℕ) :
    Keeps R (depositInternal meter owner amount) := by
  refine Keeps.ite (Keeps.pure ()) (Keeps.bind (keeps_borrowStore owner) fun store => ?_)
  exact Keeps.ite (Keeps.fail _) (Keeps.bind (h.setStore owner _) fun _ => h.emit _)

theorem transferEth (source target : AccountAddress) (amount : U256) :
    Keeps R (transferEth meter source target amount) := by
  refine Keeps.ite (Keeps.pure ()) ?_
  refine Keeps.bind (keeps_primaryStore source) fun _ => ?_
  refine Keeps.bind (h.ensurePrimaryStoreExists target) fun _ => ?_
  exact Keeps.bind (h.withdrawInternal source _) fun _ => h.depositInternal target _

theorem mintEth (target : AccountAddress) (amount : U256) :
    Keeps R (mintEth meter target amount) := by
  have hsupply : Keeps R (increaseSupply meter amount.toNat) :=
    Keeps.bind (Keeps.read _) fun supply => Keeps.ite (Keeps.fail _) (h.setSupply _)
  refine Keeps.ite (Keeps.pure ()) (Keeps.bind (h.ensurePrimaryStoreExists target) fun _ => ?_)
  exact Keeps.ite (h.depositInternal target _)
    (Keeps.bind hsupply fun _ => h.depositInternal target _)

theorem withdrawPayment (caller : AccountAddress) (value : U256) :
    Keeps R (withdrawPayment meter caller value) := by
  refine Keeps.ite (Keeps.pure 0) (Keeps.bind (h.ensurePrimaryStoreExists caller) fun _ => ?_)
  refine Keeps.bind (keeps_withdrawSanityCheck caller) fun _ => ?_
  exact Keeps.bind (h.withdrawInternal caller _) fun _ => Keeps.pure value

theorem getAssetValue (asset : U256) : Keeps R (getAssetValue meter asset) := by
  refine Keeps.ite (Keeps.pure 0) (Keeps.bind (h.ensurePrimaryStoreExists _) fun _ => ?_)
  refine Keeps.bind (keeps_depositSanityCheck _) fun _ => ?_
  exact Keeps.bind (h.depositInternal _ _) fun _ => Keeps.pure asset

/-- The payment, the call and its logs keep what the native call keeps. -/
theorem systemEvmTransact {revm : Revm X} {lib : TrieLibrary}
    (hnative : ∀ caller transactTo value data,
      Keeps R (nativeEvmTransact meter revm lib caller transactTo value data))
    (caller : AccountAddress) (transactTo : TxKind) (value : U256) (data : Bytes) (failed : ℕ) :
    Keeps R (systemEvmTransact meter revm lib caller transactTo value data failed) := by
  refine Keeps.bind (h.withdrawPayment caller value) fun payment => ?_
  refine Keeps.bind (Keeps.bind (h.getAssetValue payment) fun asset => ?_) fun result => ?_
  · exact hnative caller transactTo asset data
  · exact Keeps.ite (Keeps.bind (h.emit _) fun _ => Keeps.pure result) (Keeps.fail _)

end StoresKeep

namespace WritesKeep

variable (h : WritesKeep meter R)
include h

theorem replicateTransfers : Keeps R (replicateTransfers meter) :=
  keeps_replicateTransfers (fun s _ => h.evm s _) h.transferEth

theorem nativeEvmTransact (revm : Revm X) (lib : TrieLibrary) (caller : AccountAddress)
    (transactTo : TxKind) (value : U256) (data : Bytes) :
    Keeps R (nativeEvmTransact meter revm lib caller transactTo value data) :=
  keeps_nativeEvmTransact h.charge fun s => h.evm s _

end WritesKeep

end Framework

section Advancing

variable {γ : Type} {used meter : GasMeter γ}

theorem keeps_chargeGas (hmeter : PaidBy used meter) (charge : Charge) : Keeps (Advances meter) (chargeGas used charge) := by
  intro s
  have hgas := hmeter charge s.gas
  unfold chargeGas
  rcases hcharge : used.charge charge s.gas with ⟨_ | _, gas⟩
  all_goals
    rw [hcharge] at hgas
    exact ⟨fun _ h => h, List.prefix_rfl, hgas⟩

theorem keeps_writeMove (hmeter : PaidBy used meter) {f : MoveState → MoveState}
    (hf : ∀ state a, (state.ethStores a).isSome → ((f state).ethStores a).isSome) :
    Keeps (Advances meter) (writeMove used f) := by
  refine Keeps.bind (keeps_chargeGas hmeter .write) fun _ s => ?_
  exact ⟨hf s.move, List.prefix_rfl, [], rfl⟩

theorem writesKeep_advances (hmeter : PaidBy used meter) :
    WritesKeep used (Advances meter) where
  charge := keeps_chargeGas hmeter
  emit event := Keeps.bind (keeps_chargeGas hmeter .emit) fun _ _ =>
    ⟨fun _ h => h, List.prefix_append _ _, [], rfl⟩
  setStore owner store := by
    apply keeps_writeMove hmeter
    intro state a ha
    by_cases haOwner : a = owner
    · subst haOwner
      simp
    · rw [MoveState.withStore_of_ne _ _ haOwner]
      exact ha
  setSupply supply := keeps_writeMove hmeter fun _ _ h => h
  evm _ _ := ⟨fun _ h => h, List.prefix_rfl, [], rfl⟩

end Advancing

section Canonical

variable {γ X τ : Type} {env : CanonicalEnv γ X τ} {input : CanonicalExecutionInput}

/-- What is relied on outside the repository: a gas meter uses no more than its limit,
whatever is charged, and user code takes nothing back from a session. -/
structure Lawful (env : CanonicalEnv γ X τ) : Prop where
  gasBound : ∀ limit charges,
    env.totalGasUsed (spend env.meter charges (env.newGasMeter limit)) ≤ limit
  entryFunction : ∀ entryFn args,
    Keeps (Advances env.meter) (env.vm.runEntryFunction entryFn args)
  script : ∀ script args, Keeps (Advances env.meter) (env.vm.runScript script args)

theorem keeps_checkNonce (meter : GasMeter γ) (txNonce : ℕ) (signer : AccountAddress) :
    Keeps (Advances meter) (checkNonce unmeteredGasMeter txNonce signer) := by
  have hmeter := paidBy_unmetered meter
  have hget : Keeps (Advances meter) (getSequenceNumber signer : Vm γ ℕ) := by
    refine Keeps.bind (Keeps.read _) fun found => ?_
    cases found with
    | none => exact Keeps.fail _
    | some nonce => exact Keeps.pure nonce
  refine Keeps.bind (Keeps.mapError (Keeps.bind (Keeps.read _) fun _ => ?_) _) fun _ => ?_
  · refine Keeps.ite (Keeps.pure ()) (Keeps.ite (Keeps.fail _) ?_)
    exact keeps_writeMove hmeter fun _ _ h => h
  · refine Keeps.bind (hget.mapError _) fun nonce => ?_
    refine Keeps.ite (Keeps.fail _) (Keeps.ite (Keeps.fail _) (Keeps.mapError ?_ _))
    refine Keeps.bind hget fun nonce => Keeps.ite (Keeps.fail _) ?_
    exact keeps_writeMove hmeter fun _ _ h => h

theorem keeps_verifyTransaction :
    Keeps (Advances env.meter) (verifyTransaction env input) := by
  have hmeter := paidBy_refl env.meter
  have hfee := (writesKeep_advances (paidBy_unmetered env.meter)).transferEth input.sender
    input.ethTreasury
  refine Keeps.bind (Keeps.ite (Keeps.fail _) (Keeps.pure ())) fun _ => ?_
  refine Keeps.bind (Keeps.mapError (Keeps.bind (keeps_chargeGas hmeter _) fun _ => ?_) _)
    fun _ => ?_
  · exact keeps_chargeGas hmeter _
  · refine Keeps.bind ((hfee input.l1Cost).mapError _) fun _ => ?_
    refine Keeps.bind ((hfee input.l2Cost).mapError _) fun _ => ?_
    exact keeps_checkNonce env.meter _ _

/-- What a payload is made of keeps the relation. -/
structure StepsKeep (env : CanonicalEnv γ X τ) (R : Session γ → Session γ → Prop) : Prop where
  charge : ∀ charge, Keeps R (chargeGas env.meter charge)
  transfer : ∀ source target amount, Keeps R (transferEth env.meter source target amount)
  evm : ∀ caller transactTo value data failed,
    Keeps R (systemEvmTransact env.meter env.revm env.lib caller transactTo value data failed)
  logs : ∀ (s : Session γ) logs, R s { s with evm := { s.evm with transferLogs := logs } }
  entryFunction : ∀ entryFn args, Keeps R (env.vm.runEntryFunction entryFn args)
  script : ∀ script args, Keeps R (env.vm.runScript script args)

variable {R : Session γ → Session γ → Prop} [IsPreorder (Session γ) R]

/-- What a payload of one sender is made of keeps the relation. -/
structure SenderKeeps (env : CanonicalEnv γ X τ) (sender : AccountAddress)
    (R : Session γ → Session γ → Prop) : Prop where
  charge : ∀ charge, Keeps R (chargeGas env.meter charge)
  transfer : ∀ target amount, Keeps R (transferEth env.meter sender target amount)
  evm : ∀ transactTo value data failed,
    Keeps R (systemEvmTransact env.meter env.revm env.lib sender transactTo value data failed)
  entryFunction : ∀ state params entryFn args,
    entryArguments (env.vm.types state) sender params entryFn.args = .ok args →
    Keeps R (env.vm.runEntryFunction entryFn args)
  script : ∀ state script args,
    scriptArguments (env.vm.types state) sender (env.vm.loadScript state) script = .ok args →
    Keeps R (env.vm.runScript script args)

theorem SenderKeeps.executePayload (hsender : SenderKeeps env input.sender R)
    (data : TransactionData) : Keeps R (executePayload env input data) := by
  have hcall : ∀ contract value data, Keeps R (do
      let _ ← executeEvmContract env input.sender contract value data
      pure nothingDeployed) := by
    intro contract value data
    exact Keeps.bind ((hsender.evm _ _ _ _).mapError _) fun _ => Keeps.pure _
  match data with
  | .entryFunction entryFn =>
    refine Keeps.bind (Keeps.bind (Keeps.query _) fun params => ?_) fun _ => Keeps.pure _
    refine Keeps.query_bind fun s args hargs => ?_
    have hrun : Keeps R ((env.vm.runEntryFunction entryFn args).mapError userError) :=
      (hsender.entryFunction s.move params entryFn args hargs).mapError _
    exact Keeps.bind (Keeps.query _) (fun _ => hrun) s
  | .scriptOrDeployment (.script script) =>
    refine Keeps.bind (Keeps.query_bind fun s args hargs => ?_) fun _ => Keeps.pure _
    exact (hsender.script s.move script args hargs).mapError _ s
  | .scriptOrDeployment (.moduleCode code) =>
    refine Keeps.bind (Keeps.mapError (Keeps.bind (hsender.charge _) fun _ => ?_) _) fun _ => ?_
    · exact hsender.charge _
    · exact Keeps.bind (Keeps.query _) fun _ => Keeps.pure _
  | .scriptOrDeployment (.evmContract bytecode) =>
    refine Keeps.bind (Keeps.bind ?_ fun outcome => ?_) fun address => Keeps.pure _
    · exact (hsender.evm _ _ _ _).mapError _
    · exact Keeps.ite (Keeps.query _) (Keeps.fail _)
  | .eoaBaseTokenTransfer target =>
    exact Keeps.bind ((hsender.transfer _ _).mapError _) fun _ => Keeps.pure _
  | .l2Contract contract => exact hcall _ _ _
  | .evmContract address data => exact hcall _ _ _

omit [IsPreorder (Session γ) R] in
theorem StepsKeep.senderKeeps (hsteps : StepsKeep env R) (sender : AccountAddress) :
    SenderKeeps env sender R where
  charge := hsteps.charge
  transfer := hsteps.transfer sender
  evm := hsteps.evm sender
  entryFunction _ _ entryFn args _ := hsteps.entryFunction entryFn args
  script _ script args _ := hsteps.script script args

theorem StepsKeep.executePayload (hsteps : StepsKeep env R) (data : TransactionData) :
    Keeps R (executePayload env input data) :=
  (hsteps.senderKeeps input.sender).executePayload data

/-- A payload keeps what the framework and user code keep. -/
theorem WritesKeep.stepsKeep (h : WritesKeep env.meter R)
    (hentry : ∀ entryFn args, Keeps R (env.vm.runEntryFunction entryFn args))
    (hscript : ∀ script args, Keeps R (env.vm.runScript script args)) : StepsKeep env R where
  charge := h.charge
  transfer := h.transferEth
  evm := h.systemEvmTransact (h.nativeEvmTransact env.revm env.lib)
  logs s _ := h.evm s _
  entryFunction := hentry
  script := hscript

theorem stepsKeep_advances (hlawful : Lawful env) : StepsKeep env (Advances env.meter) :=
  (writesKeep_advances (paidBy_refl env.meter)).stepsKeep hlawful.entryFunction hlawful.script

end Canonical

end OpMove.SessionProgress
