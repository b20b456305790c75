import OpMove.LedgerMirror

/-!
Deposited transactions. The EVM call is made first, without a payment; if it succeeds,
the mint goes to the EVM native account, and replication pays the value of the
transaction from there to the sender and repeats the transfers of the EVM.
-/

namespace OpMove.Deposits

open Primitives Transactions Errors StorageTries StateChanges NativeEvm FailingActions Sessions
open EthToken EvmModule Payments LedgerMirror

section Execution

variable {γ X : Type} (env : NodeEnv γ) (revm : Revm X)

def mintDeposit (tx : TxDeposit) : Act (Session γ) Error Unit :=
  if tx.mint.getD 0 = 0 then pure ()
  else (mintEth env.meter evmNativeAddress ((tx.mint.getD 0).setWidth 256)).mapError fun _ =>
    .invariantViolation (.ethToken .mintAlwaysSucceeds)

/-- Everything that runs in the session. -/
def depositPayload (tx : TxDeposit) (target : Address) : Act (Session γ) Error (List Log) := do
  let outcome ← (systemDepositEvmCall env.meter revm env.lib (toMoveAddress tx.origin)
    (toMoveAddress target) tx.value tx.input).mapError fun e => .user (.vm e)
  if outcome.isSuccess then do
    mintDeposit env tx
    (replicateTransfers env.meter).mapError fun e => .user (.vm e)
    pure outcome.logs
  else Act.fail (.user (.depositFailure outcome.output))

def finishDeposit (s : Session γ) (vmOutcome : Except UserError Unit) (evmLogs : List Log) :
    Except Error TransactionExecutionOutcome :=
  match evmChangesOf env s with
  | none => .error .panicked
  | some changes => .ok {
      vmOutcome := vmOutcome
      move := s.move
      evm := changes
      gasUsed := env.totalGasUsed s.gas
      l2Price := 0
      logs := logsOf env s.events ++ evmLogs
      deployment := none }

/-- A creation is not supported and panics. -/
def executeDepositedTransaction (state : ChainState) (hashByNumber : ℕ → Option B256)
    (blockHeader : HeaderForExecution) (tx : TxDeposit) :
    Except Error TransactionExecutionOutcome :=
  match tx.target with
  | .create => .error .panicked
  | .call target =>
    match depositPayload env revm tx target
      (createVmSession env state hashByNumber blockHeader tx.gasLimit) with
    | (.ok evmLogs, s) => finishDeposit env s (.ok ()) evmLogs
    | (.error (.user e), s) => finishDeposit env s (.error e) []
    | (.error e, _) => .error e

/-- What the native call, the mint and replication keep, the deposit keeps. -/
theorem keeps_depositPayload {R : Session γ → Session γ → Prop} [IsPreorder (Session γ) R]
    (hnative : ∀ caller transactTo value data,
      Keeps R (nativeEvmTransact env.meter revm env.lib caller transactTo value data))
    (hmint : ∀ target amount, Keeps R (mintEth env.meter target amount))
    (hreplicate : Keeps R (replicateTransfers env.meter)) (tx : TxDeposit) (target : Address) :
    Keeps R (depositPayload env revm tx target) := by
  refine Keeps.bind ((hnative _ _ _ _).mapError _) fun outcome => Keeps.ite ?_ (Keeps.fail _)
  refine Keeps.bind (Keeps.ite (Keeps.pure ()) ((hmint _ _).mapError _)) fun _ => ?_
  exact Keeps.bind (hreplicate.mapError _) fun _ => Keeps.pure _

variable {env revm}

/-- An accepted deposit is a call whose payload ran, with errors of the user at most, and left a
session that could be finished. -/
theorem deposit_finishes {state : ChainState} {hashByNumber : ℕ → Option B256}
    {blockHeader : HeaderForExecution} {tx : TxDeposit} {outcome : TransactionExecutionOutcome}
    (h : executeDepositedTransaction env revm state hashByNumber blockHeader tx = .ok outcome) :
    ∃ target result s vmOutcome logs, tx.target = .call target ∧
      depositPayload env revm tx target
        (createVmSession env state hashByNumber blockHeader tx.gasLimit) = (result, s) ∧
      (∀ e, result = .error e → ∃ cause, e = .user cause) ∧
      finishDeposit env s vmOutcome logs = .ok outcome := by
  unfold executeDepositedTransaction at h
  cases htarget : tx.target with
  | create =>
    rw [htarget] at h
    cases h
  | call target =>
    rw [htarget] at h
    dsimp only at h
    rcases hpayload : depositPayload env revm tx target
      (createVmSession env state hashByNumber blockHeader tx.gasLimit) with ⟨e | logs, s⟩
    · rw [hpayload] at h
      cases e with
      | user cause =>
        refine ⟨target, _, s, _, _, rfl, hpayload, fun e he => ?_, h⟩
        exact ⟨cause, (Except.error.inj he).symm⟩
      | invalidTransaction cause => cases h
      | invariantViolation violation => cases h
      | panicked => cases h
    · rw [hpayload] at h
      exact ⟨target, _, s, _, _, rfl, hpayload, fun e he => (by cases he), h⟩

theorem finishDeposit_ok {s : Session γ} {vmOutcome : Except UserError Unit} {logs : List Log}
    {outcome : TransactionExecutionOutcome}
    (h : finishDeposit env s vmOutcome logs = .ok outcome) :
    evmChangesOf env s = some outcome.evm ∧ outcome.move = s.move ∧
      outcome.gasUsed = env.totalGasUsed s.gas := by
  unfold finishDeposit at h
  split at h
  · cases h
  · rename_i changes hchanges
    rw [← Except.ok.inj h]
    exact ⟨hchanges, rfl, rfl⟩

/-- An accepted deposit leaves the Move state of its session, also when it has failed. -/
theorem move_of_deposit {state : ChainState} {hashByNumber : ℕ → Option B256}
    {blockHeader : HeaderForExecution} {tx : TxDeposit} {outcome : TransactionExecutionOutcome}
    (h : executeDepositedTransaction env revm state hashByNumber blockHeader tx = .ok outcome) :
    ∃ target, outcome.move = (depositPayload env revm tx target
      (createVmSession env state hashByNumber blockHeader tx.gasLimit)).2.move := by
  obtain ⟨target, result, s, vmOutcome, logs, -, hpayload, -, hfinish⟩ := deposit_finishes h
  refine ⟨target, ?_⟩
  rw [hpayload]
  exact (finishDeposit_ok hfinish).2.1

end Execution

section Conservation

variable {γ X : Type} (env : NodeEnv γ) (revm : LedgerRevm X)

def mintAmount (tx : TxDeposit) : ℕ := (tx.mint.getD 0).toNat

/-- The machine the call of a deposit ends with. -/
def depositMachine (state : ChainState) (hashByNumber : ℕ → Option B256)
    (blockHeader : HeaderForExecution) (tx : TxDeposit) (target : Address) : Option X :=
  let session := createVmSession env state hashByNumber blockHeader tx.gasLimit
  machineOf revm.toRevm env.lib session.evm
    (callArgs env.meter session (toMoveAddress tx.origin) (.call target) tx.value tx.input)

def depositRun (tx : TxDeposit) (machine : X) : EvmRun X :=
  ⟨toMoveAddress tx.origin, tx.value, machine⟩

/-- What the inner transfers of the EVM move: everything but the value of the transaction. -/
def innerNet (tx : TxDeposit) (target : Address) (machine : X) (a : AccountAddress) : ℤ :=
  evmNetAt revm [depositRun tx machine] a -
    Payment.delta ⟨toMoveAddress tx.origin, toMoveAddress target, tx.value.toNat⟩ a

/-- ETH is conserved: the mint is new, the sender has it less the value, the target has the
value, and apart from that only the inner transfers have moved anything. -/
structure Conserves (tx : TxDeposit) (target : Address) (machine : X)
    (before after : MoveState) : Prop where
  supply : after.ethSupply = before.ethSupply + mintAmount tx
  balances : ∀ a, (balances after a : ℤ) - balances before a =
    (if a = toMoveAddress tx.origin then (mintAmount tx : ℤ) - tx.value.toNat else 0) +
      (if a = toMoveAddress target then (tx.value.toNat : ℤ) else 0) +
      innerNet revm tx target machine a

/-- The destroyed accounts move the difference of mint and value from the sender to the EVM
native account, which is what they must do to make up for it. -/
def DestroyedMakeUp (tx : TxDeposit) (machine : X) : Prop :=
  ∀ a, destroyedNet (revm.journal machine) a =
    (if a = toEthAddress evmNativeAddress then (mintAmount tx : ℤ) - tx.value.toNat else 0) -
      if a = tx.origin then (mintAmount tx : ℤ) - tx.value.toNat else 0

variable {env revm}

theorem mintDeposit_spec {tx : TxDeposit} {s s' : Session γ}
    (h : mintDeposit env tx s = (.ok (), s')) :
    Moves (balances s.move) (balances s'.move)
        (fun a => if a = evmNativeAddress then (mintAmount tx : ℤ) else 0) ∧
      s'.evm = s.evm ∧ s'.move.ethSupply = s.move.ethSupply + mintAmount tx := by
  unfold mintDeposit at h
  unfold mintAmount
  split_ifs at h with hzero
  · obtain ⟨-, rfl⟩ := pure_ok.mp h
    rw [hzero]
    refine ⟨fun a => ?_, rfl, ?_⟩
    · simp
    · simp
  · obtain ⟨hmoves, hevm, hsupply⟩ := mintEth_spec (mapError_ok.mp h)
    have hwidth : ((tx.mint.getD 0).setWidth 256).toNat = (tx.mint.getD 0).toNat := by
      have hlt := (tx.mint.getD 0).isLt
      rw [BitVec.toNat_setWidth]
      omega
    rw [hwidth] at hmoves hsupply
    exact ⟨hmoves, hevm, hsupply⟩

/-- A successful payload: minted once, and moved by the mint, the origin and the transfers. -/
theorem depositPayload_spec {tx : TxDeposit} {target : Address} {machine : X}
    {s s' : Session γ} {logs : List Log} (hlogs : s.evm.transferLogs = ⟨[], []⟩)
    (hmachine : machineOf revm.toRevm env.lib s.evm (callArgs env.meter s
      (toMoveAddress tx.origin) (.call target) tx.value tx.input) = some machine)
    (h : depositPayload env revm.toRevm tx target s = (.ok logs, s')) :
    s'.move.ethSupply = s.move.ethSupply + mintAmount tx ∧
      Moves (balances s.move) (balances s'.move) fun a =>
        (if a = evmNativeAddress then (mintAmount tx : ℤ) else 0) +
          (Payment.delta ⟨evmNativeAddress, toMoveAddress tx.origin, tx.value.toNat⟩ a +
            net (transferPayments (journalTransfers (revm.journal machine))) a) := by
  obtain ⟨outcome, called, hcall, h⟩ := bind_ok.mp h
  obtain ⟨result, htransact, -, hmove, -⟩ := nativeEvmTransact_spec (mapError_ok.mp hcall)
  rw [toEthAddress_toMoveAddress] at htransact
  obtain ⟨machine', _, _, hmachine', -, hcalled⟩ := finished_of_transact _ _ htransact
  rw [hmachine, Option.some.injEq] at hmachine'
  subst hmachine'
  split_ifs at h with hsuccess
  · obtain ⟨_, minted, hmint, h⟩ := bind_ok.mp h
    obtain ⟨_, replicated, hreplicate, h⟩ := bind_ok.mp h
    obtain ⟨-, rfl⟩ := pure_ok.mp h
    obtain ⟨hmoves, hevm, hsupply⟩ := mintDeposit_spec hmint
    obtain ⟨hmoves', hsupply'⟩ := replicateTransfers_spec (mapError_ok.mp hreplicate)
    rw [hmove] at hmoves hsupply
    refine ⟨hsupply'.trans hsupply, ?_⟩
    have horigins : minted.evm.transferLogs.origins = [(toMoveAddress tx.origin, tx.value)] := by
      rw [hevm, hcalled, hlogs]
      simp [EthTransfersLogger.pushTransfers, EthTransfersLogger.addTxOrigin, callArgs]
    have htransfers : minted.evm.transferLogs.transfers =
        journalTransfers (revm.journal machine) := by
      rw [hevm, hcalled, hlogs]
      simp [EthTransfersLogger.pushTransfers, EthTransfersLogger.addTxOrigin]
    rw [horigins, htransfers] at hmoves'
    intro a
    rw [hmoves.trans hmoves' a]
    simp [originPayments]
  · exact (fail_ok.mp h).elim

theorem executeDepositedTransaction_ok {state : ChainState} {hashByNumber : ℕ → Option B256}
    {blockHeader : HeaderForExecution} {tx : TxDeposit} {target : Address}
    {outcome : TransactionExecutionOutcome} (htarget : tx.target = .call target)
    (h : executeDepositedTransaction env revm.toRevm state hashByNumber blockHeader tx =
      .ok outcome) (hsuccess : outcome.vmOutcome = .ok ()) :
    ∃ logs s, depositPayload env revm.toRevm tx target
        (createVmSession env state hashByNumber blockHeader tx.gasLimit) = (.ok logs, s) ∧
      outcome.move = s.move := by
  unfold executeDepositedTransaction at h
  rw [htarget] at h
  dsimp only at h
  rcases hpayload : depositPayload env revm.toRevm tx target
    (createVmSession env state hashByNumber blockHeader tx.gasLimit) with ⟨result, s⟩
  rw [hpayload] at h
  rcases result with e | logs
  · cases e with
    | user e =>
      simp only [finishDeposit] at h
      split at h
      · cases h
      · rw [← Except.ok.inj h] at hsuccess
        cases hsuccess
    | invalidTransaction cause => cases h
    | invariantViolation violation => cases h
    | panicked => cases h
  · refine ⟨logs, s, rfl, ?_⟩
    simp only [finishDeposit] at h
    split at h
    · cases h
    · rw [← Except.ok.inj h]

/-- The same over the addresses of the Move ledger. -/
theorem destroyedMakeUp_iff (tx : TxDeposit) (machine : X) :
    DestroyedMakeUp revm tx machine ↔ ∀ a,
      (if isEthShaped a then destroyedNet (revm.journal machine) (toEthAddress a) else 0) =
        (if a = evmNativeAddress then (mintAmount tx : ℤ) - tx.value.toNat else 0) -
          if a = toMoveAddress tx.origin then (mintAmount tx : ℤ) - tx.value.toNat else 0 := by
  have hnative : ∀ b, toMoveAddress b = evmNativeAddress ↔ b = toEthAddress evmNativeAddress := by
    intro b
    constructor
    · intro hb
      rw [← hb, toEthAddress_toMoveAddress]
    · intro hb
      rw [hb]
      rfl
  constructor
  · intro h a
    by_cases ha : isEthShaped a
    · have hmakeUp := h (toEthAddress a)
      rw [if_pos ha, hmakeUp]
      have hnativeAt := hnative (toEthAddress a)
      have horigin : toMoveAddress (toEthAddress a) = toMoveAddress tx.origin ↔
          toEthAddress a = tx.origin := toMoveAddress_injective.eq_iff
      rw [ha] at hnativeAt horigin
      simp only [hnativeAt, horigin]
    · have hnotNative : a ≠ evmNativeAddress := by
        intro heq
        apply ha
        rw [heq]
        rfl
      have hnotOrigin : a ≠ toMoveAddress tx.origin := by
        intro heq
        apply ha
        rw [heq]
        exact isEthShaped_toMoveAddress tx.origin
      rw [if_neg ha, if_neg hnotNative, if_neg hnotOrigin, sub_zero]
  · intro h b
    have hb := h (toMoveAddress b)
    rw [if_pos (isEthShaped_toMoveAddress b), toEthAddress_toMoveAddress] at hb
    simpa only [hnative, toMoveAddress_injective.eq_iff] using hb

/-- A deposit conserves ETH exactly when the destroyed accounts make up for the difference
of its mint and its value. -/
theorem conserves_iff {state : ChainState} {hashByNumber : ℕ → Option B256}
    {blockHeader : HeaderForExecution} {tx : TxDeposit} {target : Address} {machine : X}
    {outcome : TransactionExecutionOutcome} (htarget : tx.target = .call target)
    (hmachine : depositMachine env revm state hashByNumber blockHeader tx target = some machine)
    (h : executeDepositedTransaction env revm.toRevm state hashByNumber blockHeader tx =
      .ok outcome) (hsuccess : outcome.vmOutcome = .ok ()) :
    Conserves revm tx target machine state.move (state.apply outcome).move ↔
      DestroyedMakeUp revm tx machine := by
  obtain ⟨logs, s, hpayload, hmove⟩ := executeDepositedTransaction_ok htarget h hsuccess
  obtain ⟨hsupply, hmoves⟩ := depositPayload_spec rfl hmachine hpayload
  rw [← hmove] at hsupply hmoves
  have hnet := net_transfers revm [depositRun tx machine]
  -- what replication leaves out, at every address of the Move ledger
  let missed : AccountAddress → ℤ := fun a =>
    if isEthShaped a then destroyedNet (revm.journal machine) (toEthAddress a) else 0
  have hchange : ∀ a, (balances outcome.move a : ℤ) - balances state.move a =
      (if a = evmNativeAddress then (mintAmount tx : ℤ) - tx.value.toNat else 0) +
        (if a = toMoveAddress tx.origin then (tx.value.toNat : ℤ) else 0) +
        (evmNetAt revm [depositRun tx machine] a - missed a) := by
    intro a
    have ha := hnet a
    simp only [List.flatMap_cons, List.flatMap_nil, List.append_nil, depositRun, destroyedNetOf,
      List.map_cons, List.map_nil, List.sum_cons, List.sum_nil, add_zero] at ha
    have hmovesAt := hmoves.sub_eq a
    rw [ha, delta_eq] at hmovesAt
    refine hmovesAt.trans ?_
    simp only [depositRun, missed]
    split_ifs <;> ring
  have hbalance : ∀ a, ((balances outcome.move a : ℤ) - balances state.move a =
      (if a = toMoveAddress tx.origin then (mintAmount tx : ℤ) - tx.value.toNat else 0) +
        (if a = toMoveAddress target then (tx.value.toNat : ℤ) else 0) +
        innerNet revm tx target machine a) ↔
      missed a =
        (if a = evmNativeAddress then (mintAmount tx : ℤ) - tx.value.toNat else 0) -
          if a = toMoveAddress tx.origin then (mintAmount tx : ℤ) - tx.value.toNat else 0 := by
    intro a
    rw [hchange a, innerNet, delta_eq]
    split_ifs <;> constructor <;> intro heq <;> linarith
  rw [destroyedMakeUp_iff]
  constructor
  · intro hconserves a
    exact (hbalance a).mp (hconserves.balances a)
  · intro hmakeUp
    exact ⟨hsupply, fun a => (hbalance a).mpr (hmakeUp a)⟩

/-- Without destroyed accounts the mint has to be the value, unless the EVM native account
is the sender. -/
theorem destroyedMakeUp_iff_of_no_destroyed {tx : TxDeposit} {machine : X}
    (h : ∀ a, destroyedNet (revm.journal machine) a = 0) :
    DestroyedMakeUp revm tx machine ↔
      mintAmount tx = tx.value.toNat ∨ tx.origin = toEthAddress evmNativeAddress := by
  constructor
  · intro hmakeUp
    by_cases horigin : tx.origin = toEthAddress evmNativeAddress
    · exact .inr horigin
    · have hat := hmakeUp tx.origin
      rw [h, if_neg horigin, if_pos rfl] at hat
      left
      omega
  · intro hcases a
    rw [h]
    rcases hcases with heq | hnative
    · rw [heq]
      simp
    · rw [hnative]
      simp

end Conservation

section Samples

open Extraction

def sampleEnv : NodeEnv Unit where
  meter := unmeteredGasMeter
  newGasMeter _ := ()
  totalGasUsed _ := 21000
  lib := sampleLib
  keccak256 _ := keccakEmpty
  typeHash _ := keccakEmpty
  primaryStoreAddress owner := owner

/-- A state without any ETH. -/
def emptyChain : ChainState where
  move := ⟨fun _ => none, 0, fun _ => none, fun _ => none, fun _ => none⟩
  evm := sampleBase.toEvmState

/-- alice sends 5 wei to bob and brings the mint along. -/
def sampleDeposit (mint : U128) : TxDeposit where
  sourceHash := 0
  origin := alice
  target := .call bob
  mint := some mint
  value := 5
  gasLimit := 100000
  isSystemTransaction := false
  input := []

def runDeposit (mint : U128) : Except Error TransactionExecutionOutcome :=
  executeDepositedTransaction sampleEnv sampleRevm.toRevm emptyChain (fun _ => none) ⟨1, 0, 0⟩
    (sampleDeposit mint)

theorem exists_ok {ε α : Type} {result : Except ε α} (p : α → Bool)
    (h : result.toOption.any p = true) : ∃ a, result = .ok a ∧ p a = true := by
  cases result with
  | error e => cases h
  | ok a => exact ⟨a, rfl, h⟩

/-- A mint of 9 wei with a value of 5: the other 4 wei do not reach alice. -/
theorem mint_left_with_native_account :
    ∃ outcome, runDeposit 9 = .ok outcome ∧ outcome.vmOutcome = .ok () ∧
      depositMachine sampleEnv sampleRevm emptyChain (fun _ => none) ⟨1, 0, 0⟩ (sampleDeposit 9)
        bob = some false ∧
      ¬ Conserves sampleRevm (sampleDeposit 9) bob false emptyChain.move
        (emptyChain.apply outcome).move := by
  obtain ⟨outcome, hrun, houtcome⟩ := exists_ok
    (fun outcome : TransactionExecutionOutcome => decide (outcome.vmOutcome = .ok () ∧
      balances outcome.move (toMoveAddress alice) = 0))
    (show (runDeposit 9).toOption.any _ = true by decide +kernel)
  rw [decide_eq_true_eq] at houtcome
  refine ⟨outcome, hrun, houtcome.1, by decide +kernel, ?_⟩
  intro hconserves
  have halice := hconserves.balances (toMoveAddress alice)
  change (balances outcome.move (toMoveAddress alice) : ℤ) - _ = _ at halice
  rw [houtcome.2] at halice
  revert halice
  decide +kernel

/-- A mint of the value is conserved. -/
theorem conserves_equal_mint :
    ∃ outcome, runDeposit 5 = .ok outcome ∧
      Conserves sampleRevm (sampleDeposit 5) bob false emptyChain.move
        (emptyChain.apply outcome).move := by
  obtain ⟨outcome, hrun, houtcome⟩ := exists_ok
    (fun outcome : TransactionExecutionOutcome => decide (outcome.vmOutcome = .ok ()))
    (show (runDeposit 5).toOption.any _ = true by decide +kernel)
  rw [decide_eq_true_eq] at houtcome
  refine ⟨outcome, hrun, (conserves_iff rfl (by decide +kernel) hrun houtcome).mpr ?_⟩
  apply (destroyedMakeUp_iff_of_no_destroyed _).mpr
  · exact .inl (by decide)
  · intro a
    simp [destroyedNet, sampleRevm, destroyedDelta]

end Samples

end OpMove.Deposits
