import OpMove.EthToken

/-!
The `evm` module of the framework and its native functions. A call with value first
takes the payment from the caller and puts it into the store of the EVM native account;
the native function then runs the EVM, and only afterwards is its gas charged.
-/

namespace OpMove.EvmModule

open Primitives Transactions Errors StorageTries NativeEvm FailingActions Sessions EthToken Payments

section Results

structure EvmNativeOutcome where
  isSuccess : Bool
  output : Bytes
  logs : List Log
  deriving DecidableEq

/-- A created contract's address takes the place of the output. -/
def evmResultToMoveValue : ExecutionResult → EvmNativeOutcome
  | .success _ logs output createdAddress =>
    ⟨true, createdAddress.elim output addressBytes, logs⟩
  | .revert _ output => ⟨false, output, []⟩
  | .halt _ => ⟨false, [], []⟩

def gasUsed : ExecutionResult → ℕ
  | .success gas _ _ _ => gas
  | .revert gas _ => gas
  | .halt gas => gas

def evmError : EVMError → VmError
  | .database (.missingCode _) => .status .missingData
  | .database _ => .status .storageError
  | .other _ => .status .evmError

def evmScaleFactor : ℕ := 600

def evmBaseGas : ℕ := 21000

def evmGasUsed (amount : ℕ) : ℕ := min ((amount - evmBaseGas) * evmScaleFactor) maxU64

def callFailed : ℕ := 0x70002

def deploymentFailed : ℕ := 0x70001

end Results

section Natives

variable {γ X : Type} (meter : GasMeter γ) (revm : Revm X) (lib : TrieLibrary)

def getGasLimit (gas : γ) : ℕ := min (meter.balance gas / evmScaleFactor + evmBaseGas) maxU64

def callArgs (s : Session γ) (caller : AccountAddress) (transactTo : TxKind) (value : U256)
    (data : Bytes) : CallArgs :=
  ⟨toEthAddress caller, transactTo, value, data, getGasLimit meter s.gas⟩

/-- `evm_transact_inner`, behind both `native_evm_call` and `native_evm_create`. -/
def nativeEvmTransact (caller : AccountAddress) (transactTo : TxKind) (value : U256)
    (data : Bytes) : Vm γ EvmNativeOutcome := fun s =>
  match evmTransactWithNative revm lib s.evm (callArgs meter s caller transactTo value data) with
  | (.error e, ctx) => (.error (evmError e), { s with evm := ctx })
  | (.ok outcome, ctx) =>
    (do
      chargeGas meter (.execution (evmGasUsed (gasUsed outcome.result)))
      pure (evmResultToMoveValue outcome.result) : Vm γ EvmNativeOutcome) { s with evm := ctx }

def nativeEvmCall (caller target : AccountAddress) (value : U256) (data : Bytes) :
    Vm γ EvmNativeOutcome :=
  nativeEvmTransact meter revm lib caller (.call (toEthAddress target)) value data

def nativeEvmCreate (caller : AccountAddress) (value : U256) (data : Bytes) :
    Vm γ EvmNativeOutcome :=
  nativeEvmTransact meter revm lib caller .create value data

/-- The asset taken from the caller is known by its amount. -/
def withdrawPayment (caller : AccountAddress) (value : U256) : Vm γ U256 :=
  if value = 0 then pure 0
  else do
    ensurePrimaryStoreExists meter caller
    withdrawSanityCheck caller
    withdrawInternal meter caller value.toNat
    pure value

def getAssetValue (asset : U256) : Vm γ U256 :=
  if asset = 0 then pure 0
  else do
    ensurePrimaryStoreExists meter evmNativeAddress
    depositSanityCheck evmNativeAddress
    depositInternal meter evmNativeAddress asset.toNat
    pure asset

def evmCall (caller target : AccountAddress) (asset : U256) (data : Bytes) :
    Vm γ EvmNativeOutcome := do
  let value ← getAssetValue meter asset
  nativeEvmCall meter revm lib caller target value data

def evmCreate (caller : AccountAddress) (asset : U256) (data : Bytes) :
    Vm γ EvmNativeOutcome := do
  let value ← getAssetValue meter asset
  nativeEvmCreate meter revm lib caller value data

def emitEvmLogs (result : EvmNativeOutcome) : Vm γ Unit := emit meter (.evmLogs result.logs)

def systemEvmCreate (caller : AccountAddress) (value : U256) (data : Bytes) :
    Vm γ EvmNativeOutcome := do
  let payment ← withdrawPayment meter caller value
  let result ← evmCreate meter revm lib caller payment data
  if result.isSuccess then do
    emitEvmLogs meter result
    pure result
  else abort deploymentFailed

def systemEvmCall (caller target : AccountAddress) (value : U256) (data : Bytes) :
    Vm γ EvmNativeOutcome := do
  let payment ← withdrawPayment meter caller value
  let result ← evmCall meter revm lib caller target payment data
  if result.isSuccess then do
    emitEvmLogs meter result
    pure result
  else abort callFailed

/-- Deposits call the native function directly and pay nothing. -/
def systemDepositEvmCall (caller target : AccountAddress) (value : U256) (data : Bytes) :
    Vm γ EvmNativeOutcome :=
  nativeEvmCall meter revm lib caller target value data

end Natives

section Success

variable {γ X : Type} {meter : GasMeter γ} {revm : Revm X} {lib : TrieLibrary} {s s' : Session γ}

theorem withdrawSanityCheck_ok {owner : AccountAddress}
    (h : withdrawSanityCheck owner s = (.ok (), s')) :
    (s.move.ethStores owner).isSome ∧ s = s' := by
  obtain ⟨store, middle, hborrow, hrest⟩ := bind_ok.mp h
  obtain ⟨hstore, rfl⟩ := borrowStore_ok_iff.mp hborrow
  refine ⟨by simp [hstore], ?_⟩
  split_ifs at hrest
  · exact (fail_ok.mp hrest).elim
  · exact (fail_ok.mp hrest).elim
  · exact (pure_ok.mp hrest).2

theorem depositSanityCheck_ok {owner : AccountAddress}
    (h : depositSanityCheck owner s = (.ok (), s')) :
    (s.move.ethStores owner).isSome ∧ s = s' := by
  obtain ⟨store, middle, hborrow, hrest⟩ := bind_ok.mp h
  obtain ⟨hstore, rfl⟩ := borrowStore_ok_iff.mp hborrow
  refine ⟨by simp [hstore], ?_⟩
  split_ifs at hrest
  · exact (fail_ok.mp hrest).elim
  · exact (pure_ok.mp hrest).2

theorem withdrawPayment_spec {caller : AccountAddress} {value payment : U256}
    (h : withdrawPayment meter caller value s = (.ok payment, s')) :
    payment = value ∧ s'.evm = s.evm ∧
      Moves (balances s.move) (balances s'.move)
        (fun a => -if a = caller then (value.toNat : ℤ) else 0) := by
  unfold withdrawPayment at h
  split_ifs at h with hzero
  · obtain ⟨rfl, rfl⟩ := pure_ok.mp h
    refine ⟨hzero.symm, rfl, fun a => ?_⟩
    simp [hzero]
  · obtain ⟨_, ensuredState, hensure, h⟩ := bind_ok.mp h
    obtain ⟨_, checked, hcheck, h⟩ := bind_ok.mp h
    obtain ⟨_, withdrawn, hwithdraw, h⟩ := bind_ok.mp h
    obtain ⟨rfl, rfl⟩ := pure_ok.mp h
    obtain ⟨hstore, rfl⟩ := withdrawSanityCheck_ok hcheck
    have hensured := ran_of_ensurePrimaryStoreExists hensure
    obtain ⟨henough, hran⟩ := ran_of_withdrawInternal (toNat_ne_zero hzero) hwithdraw
    refine ⟨rfl, hran.evm.trans hensured.evm, ?_⟩
    have hmoves := debit_moves hstore henough
    rw [← hran.move] at hmoves
    rw [hensured.move, balances_ensured] at hmoves
    exact hmoves

theorem getAssetValue_spec {asset value : U256}
    (h : getAssetValue meter asset s = (.ok value, s')) :
    value = asset ∧ s'.evm = s.evm ∧
      Moves (balances s.move) (balances s'.move)
        (fun a => if a = evmNativeAddress then (asset.toNat : ℤ) else 0) := by
  unfold getAssetValue at h
  split_ifs at h with hzero
  · obtain ⟨rfl, rfl⟩ := pure_ok.mp h
    refine ⟨hzero.symm, rfl, fun a => ?_⟩
    simp [hzero]
  · obtain ⟨_, ensuredState, hensure, h⟩ := bind_ok.mp h
    obtain ⟨_, checked, hcheck, h⟩ := bind_ok.mp h
    obtain ⟨_, deposited, hdeposit, h⟩ := bind_ok.mp h
    obtain ⟨rfl, rfl⟩ := pure_ok.mp h
    obtain ⟨hstore, rfl⟩ := depositSanityCheck_ok hcheck
    have hensured := ran_of_ensurePrimaryStoreExists hensure
    have hran := ran_of_depositInternal (toNat_ne_zero hzero) hdeposit
    refine ⟨rfl, hran.evm.trans hensured.evm, ?_⟩
    have hmoves := credit_moves asset.toNat hstore
    rw [← hran.move] at hmoves
    rw [hensured.move, balances_ensured] at hmoves
    exact hmoves

theorem nativeEvmTransact_of_error {caller : AccountAddress} {transactTo : TxKind} {value : U256}
    {data : Bytes} {e : EVMError} {ctx : NativeEVMContext}
    (h : evmTransactWithNative revm lib s.evm (callArgs meter s caller transactTo value data) =
      (.error e, ctx)) :
    nativeEvmTransact meter revm lib caller transactTo value data s =
      (.error (evmError e), { s with evm := ctx }) := by
  rw [nativeEvmTransact, h]

theorem nativeEvmTransact_of_ok {caller : AccountAddress} {transactTo : TxKind} {value : U256}
    {data : Bytes} {outcome : ResultAndState} {ctx : NativeEVMContext}
    (h : evmTransactWithNative revm lib s.evm (callArgs meter s caller transactTo value data) =
      (.ok outcome, ctx)) :
    nativeEvmTransact meter revm lib caller transactTo value data s =
      (do
        chargeGas meter (.execution (evmGasUsed (gasUsed outcome.result)))
        pure (evmResultToMoveValue outcome.result) : Vm γ EvmNativeOutcome)
          { s with evm := ctx } := by
  rw [nativeEvmTransact, h]

/-- A successful native call changes the context of the EVM and spends gas. -/
theorem nativeEvmTransact_spec {caller : AccountAddress} {transactTo : TxKind} {value : U256}
    {data : Bytes} {result : EvmNativeOutcome}
    (h : nativeEvmTransact meter revm lib caller transactTo value data s = (.ok result, s')) :
    ∃ outcome, evmTransactWithNative revm lib s.evm
        (callArgs meter s caller transactTo value data) = (.ok outcome, s'.evm) ∧
      result = evmResultToMoveValue outcome.result ∧ s'.move = s.move ∧ s'.events = s.events := by
  rcases hrun : evmTransactWithNative revm lib s.evm
    (callArgs meter s caller transactTo value data) with ⟨e | outcome, ctx⟩
  · rw [nativeEvmTransact_of_error hrun] at h
    cases (Prod.mk.inj h).1
  · rw [nativeEvmTransact_of_ok hrun] at h
    obtain ⟨_, charged, hcharge, hpure⟩ := bind_ok.mp h
    obtain ⟨rfl, rfl⟩ := pure_ok.mp hpure
    obtain ⟨hmove, hevents, hevm⟩ := ran_of_chargeGas hcharge
    refine ⟨outcome, ?_, rfl, hmove, ?_⟩
    · rw [hevm]
    · rw [hevents, List.append_nil]

/-- A native call keeps what its run in the EVM and its charge keep. -/
theorem keeps_nativeEvmTransact {R : Session γ → Session γ → Prop} [IsPreorder (Session γ) R]
    {caller : AccountAddress} {transactTo : TxKind} {value : U256} {data : Bytes}
    (hcharge : ∀ charge, Keeps R (chargeGas meter charge))
    (hcall : ∀ s : Session γ, R s { s with evm := (evmTransactWithNative revm lib s.evm
      (callArgs meter s caller transactTo value data)).2 }) :
    Keeps R (nativeEvmTransact meter revm lib caller transactTo value data) := by
  intro s
  have hcalled := hcall s
  rcases hrun : evmTransactWithNative revm lib s.evm
    (callArgs meter s caller transactTo value data) with ⟨e | outcome, ctx⟩ <;>
    rw [hrun] at hcalled
  · rw [nativeEvmTransact_of_error hrun]
    exact hcalled
  · rw [nativeEvmTransact_of_ok hrun]
    have hcharged : Keeps R (do
        chargeGas meter (.execution (evmGasUsed (gasUsed outcome.result)))
        pure (evmResultToMoveValue outcome.result) : Vm γ EvmNativeOutcome) :=
      Keeps.bind (hcharge _) fun _ => Keeps.pure _
    exact trans_of R hcalled (hcharged { s with evm := ctx })

end Success

end OpMove.EvmModule
