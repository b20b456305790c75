import OpMove.OpenTries
import OpMove.GasPrices

/-!
Deposits and the node that has to execute them. A deposit comes from layer one and cannot be
refused, but three things stop the node at it: a creation, calldata too short for the L1 fee when
the deposit comes first, and a mint that fails after the EVM call has succeeded, for want of gas
or because an amount leaves its word. Every other deposit gets a receipt in every run, as long as
the gas of the block fits its header.
-/

namespace OpMove.SafeDeposits

open Primitives GasFees Transactions Errors StorageTries StateChanges NativeEvm FailingActions
open Sessions EthToken EvmModule Canonical BlockBuilding BlockAgreement Node Deposits NonceRuns
open CleanFailures OpenTries

section Minting

variable {γ : Type} {meter : GasMeter γ} {s : Session γ}

/-- The meter accepts the charges one after the other. -/
def accepts (meter : GasMeter γ) : List Charge → γ → Bool
  | [], _ => true
  | charge :: charges, gas =>
    (meter.charge charge gas).1 && accepts meter charges (meter.charge charge gas).2

/-- What a mint is charged for: a missing store, the supply, the store and the event. -/
def mintCharges (target : AccountAddress) (state : MoveState) : List Charge :=
  if (state.ethStores target).isSome then [.write, .write, .emit]
  else [.write, .write, .write, .emit]

/-- The gas pays for a mint, and the supply and the balance stay words. -/
structure MintFits (meter : GasMeter γ) (target : AccountAddress) (state : MoveState) (gas : γ)
    (amount : ℕ) : Prop where
  charges : accepts meter (mintCharges target state) gas = true
  supply : state.ethSupply + amount < u256Size
  balance : balances state target + amount < u256Size

theorem chargeGas_ok_iff {charge : Charge} {s' : Session γ} :
    chargeGas meter charge s = (.ok (), s') ↔ (meter.charge charge s.gas).1 = true ∧
      { s with gas := (meter.charge charge s.gas).2 } = s' := by
  unfold chargeGas
  rcases meter.charge charge s.gas with ⟨accepted, gas⟩
  cases accepted <;> simp

theorem succeeds_writeMove_bind {β : Type} {f : MoveState → MoveState} {k : Unit → Vm γ β} :
    Succeeds (writeMove meter f >>= k) s ↔ (meter.charge .write s.gas).1 = true ∧
      Succeeds (k ()) { s with move := f s.move, gas := (meter.charge .write s.gas).2 } := by
  rw [succeeds_bind]
  constructor
  · rintro ⟨_, written, hwrite, hrest⟩
    obtain ⟨_, charged, hcharge, hupdate⟩ := bind_ok.mp hwrite
    obtain ⟨haccepted, rfl⟩ := chargeGas_ok_iff.mp hcharge
    obtain rfl := update_ok.mp hupdate
    exact ⟨haccepted, hrest⟩
  · rintro ⟨haccepted, hrest⟩
    refine ⟨(), _, bind_ok.mpr ⟨(), _, chargeGas_ok_iff.mpr ⟨haccepted, rfl⟩, ?_⟩, hrest⟩
    exact update_ok.mpr rfl

theorem succeeds_emit {event : Event} :
    Succeeds (emit meter event) s ↔ (meter.charge .emit s.gas).1 = true := by
  constructor
  · rintro ⟨_, s', h⟩
    obtain ⟨_, charged, hcharge, -⟩ := bind_ok.mp h
    exact (chargeGas_ok_iff.mp hcharge).1
  · intro haccepted
    exact ⟨(), _, bind_ok.mpr ⟨(), _, chargeGas_ok_iff.mpr ⟨haccepted, rfl⟩, update_ok.mpr rfl⟩⟩

theorem succeeds_depositInternal {owner : AccountAddress} {amount : ℕ} (hamount : amount ≠ 0)
    (hstore : (s.move.ethStores owner).isSome) :
    Succeeds (depositInternal meter owner amount) s ↔
      balances s.move owner + amount < u256Size ∧
        accepts meter [.write, .emit] s.gas = true := by
  obtain ⟨store, hstore⟩ := Option.isSome_iff_exists.mp hstore
  have hbalance : balances s.move owner = store.balance := by
    simp [balances, hstore]
  unfold depositInternal
  rw [if_neg hamount, succeeds_bind, hbalance]
  constructor
  · rintro ⟨found, middle, hborrow, hrest⟩
    obtain ⟨hfound, rfl⟩ := borrowStore_ok_iff.mp hborrow
    obtain rfl := Option.some.inj (hstore.symm.trans hfound)
    split_ifs at hrest with hoverflow
    · exact (not_succeeds_fail _ _ hrest).elim
    · obtain ⟨hwrite, hemit⟩ := succeeds_writeMove_bind.mp hrest
      refine ⟨by omega, ?_⟩
      simp [accepts, hwrite, succeeds_emit.mp hemit]
  · rintro ⟨hfits, haccepts⟩
    simp only [accepts, Bool.and_true, Bool.and_eq_true] at haccepts
    refine ⟨store, s, borrowStore_ok_iff.mpr ⟨hstore, rfl⟩, ?_⟩
    rw [if_neg (by omega)]
    exact succeeds_writeMove_bind.mpr ⟨haccepts.1, succeeds_emit.mpr haccepts.2⟩

theorem succeeds_increaseSupply_bind {β : Type} {amount : ℕ} {k : Unit → Vm γ β} :
    Succeeds (increaseSupply meter amount >>= k) s ↔
      s.move.ethSupply + amount < u256Size ∧ (meter.charge .write s.gas).1 = true ∧
        Succeeds (k ()) { s with
          move := { s.move with ethSupply := s.move.ethSupply + amount }
          gas := (meter.charge .write s.gas).2 } := by
  unfold increaseSupply
  rw [bind_assoc, succeeds_bind]
  constructor
  · rintro ⟨supply, middle, hread, hrest⟩
    obtain ⟨rfl, rfl⟩ := read_ok.mp hread
    split_ifs at hrest with hoverflow
    · obtain ⟨_, _, hfail, -⟩ := succeeds_bind.mp hrest
      exact (fail_ok.mp hfail).elim
    · obtain ⟨haccepted, hrest⟩ := succeeds_writeMove_bind.mp hrest
      exact ⟨by omega, haccepted, hrest⟩
  · rintro ⟨hfits, haccepted, hrest⟩
    refine ⟨_, s, read_ok.mpr ⟨rfl, rfl⟩, ?_⟩
    rw [if_neg (by omega)]
    exact succeeds_writeMove_bind.mpr ⟨haccepted, hrest⟩

/-- Supply and deposit, once the store exists. -/
theorem succeeds_increase_deposit (meter : GasMeter γ) {target : AccountAddress} {amount : ℕ}
    (hamount : amount ≠ 0) (hstore : (s.move.ethStores target).isSome) :
    Succeeds (increaseSupply meter amount >>= fun _ => depositInternal meter target amount) s ↔
      s.move.ethSupply + amount < u256Size ∧ balances s.move target + amount < u256Size ∧
        accepts meter [.write, .write, .emit] s.gas = true := by
  let supplied : Session γ := { s with
    move := { s.move with ethSupply := s.move.ethSupply + amount }
    gas := (meter.charge .write s.gas).2 }
  have hdeposit : Succeeds (depositInternal meter target amount) supplied ↔
      balances s.move target + amount < u256Size ∧ accepts meter [.write, .emit] supplied.gas :=
    succeeds_depositInternal hamount hstore
  rw [succeeds_increaseSupply_bind, accepts, Bool.and_eq_true]
  constructor
  · rintro ⟨hsupply, haccepted, hrest⟩
    obtain ⟨hbalance, haccepts⟩ := hdeposit.mp hrest
    exact ⟨hsupply, hbalance, haccepted, haccepts⟩
  · rintro ⟨hsupply, hbalance, haccepted, haccepts⟩
    exact ⟨hsupply, haccepted, hdeposit.mpr ⟨hbalance, haccepts⟩⟩

theorem succeeds_ensure_bind_of_store {β : Type} {target : AccountAddress} {k : Unit → Vm γ β}
    (hfound : (s.move.ethStores target).isSome) :
    Succeeds (ensurePrimaryStoreExists meter target >>= k) s ↔ Succeeds (k ()) s := by
  unfold Succeeds
  rw [bind_of_ok (ensurePrimaryStoreExists_found hfound)]

/-- A missing store is created first, and its write is charged. -/
theorem succeeds_ensure_bind_of_none {β : Type} {target : AccountAddress} {k : Unit → Vm γ β}
    (hmissing : s.move.ethStores target = none) :
    Succeeds (ensurePrimaryStoreExists meter target >>= k) s ↔
      (meter.charge .write s.gas).1 = true ∧ Succeeds (k ()) { s with
        move := s.move.withStore target (some ⟨target, 0, false⟩)
        gas := (meter.charge .write s.gas).2 } := by
  have hsame : (ensurePrimaryStoreExists meter target >>= k) s =
      (setStore meter target ⟨target, 0, false⟩ >>= k) s :=
    bind_congr_at (ensurePrimaryStoreExists_missing hmissing)
  unfold Succeeds
  rw [hsame]
  exact succeeds_writeMove_bind

/-- A mint succeeds exactly when it fits. -/
theorem succeeds_mintEth (meter : GasMeter γ) (target : AccountAddress) {amount : U256}
    (s : Session γ) (hamount : amount ≠ 0) :
    Succeeds (mintEth meter target amount) s ↔
      MintFits meter target s.move s.gas amount.toNat := by
  have hnat : amount.toNat ≠ 0 := toNat_ne_zero hamount
  have hmint : mintEth meter target amount = (ensurePrimaryStoreExists meter target >>= fun _ =>
      increaseSupply meter amount.toNat >>= fun _ =>
        depositInternal meter target amount.toNat) := by
    unfold mintEth mint
    rw [if_neg hamount, if_neg hnat]
  rw [hmint]
  cases hfound : s.move.ethStores target with
  | some store =>
    have hstore : (s.move.ethStores target).isSome := by simp [hfound]
    have hcharges : mintCharges target s.move = [.write, .write, .emit] := if_pos hstore
    rw [succeeds_ensure_bind_of_store hstore, succeeds_increase_deposit meter hnat hstore,
      ← hcharges]
    constructor
    · rintro ⟨hsupply, hbalance, haccepts⟩
      exact ⟨haccepts, hsupply, hbalance⟩
    · intro h
      exact ⟨h.supply, h.balance, h.charges⟩
  | none =>
    let created : Session γ := { s with
      move := s.move.withStore target (some ⟨target, 0, false⟩)
      gas := (meter.charge .write s.gas).2 }
    have hbalances : balances created.move target = balances s.move target := by
      simp [balances, created, hfound]
    have hcharges : mintCharges target s.move = [.write, .write, .write, .emit] :=
      if_neg (by simp [hfound])
    have hstore : (created.move.ethStores target).isSome := by simp [created]
    have hrest := succeeds_increase_deposit meter hnat hstore
    rw [hbalances] at hrest
    rw [succeeds_ensure_bind_of_none hfound]
    constructor
    · rintro ⟨haccepted, h⟩
      obtain ⟨hsupply, hbalance, haccepts⟩ := hrest.mp h
      refine ⟨?_, hsupply, hbalance⟩
      rw [hcharges, accepts, haccepted, Bool.true_and]
      exact haccepts
    · intro h
      have haccepts := h.charges
      rw [hcharges, accepts, Bool.and_eq_true] at haccepts
      exact ⟨haccepts.1, hrest.mpr ⟨h.supply, h.balance, haccepts.2⟩⟩

end Minting

section Payload

variable {γ X : Type} {env : NodeEnv γ} {revm : Revm X}

/-- The arguments of the EVM call of a deposit. -/
def depositArgs (env : NodeEnv γ) (s : Session γ) (tx : TxDeposit) (target : Address) : CallArgs :=
  callArgs env.meter s (toMoveAddress tx.origin) (.call target) tx.value tx.input

/-- If the EVM reports success and its gas is paid for, the gas that is left covers the mint. -/
def MintCovered (env : NodeEnv γ) (revm : Revm X) (s : Session γ) (tx : TxDeposit)
    (target : Address) : Prop :=
  ∀ outcome gas, (evmTransactWithNative revm env.lib s.evm (depositArgs env s tx target)).1 =
      .ok outcome →
    (evmResultToMoveValue outcome.result).isSuccess = true →
    env.meter.charge (.execution (evmGasUsed (gasUsed outcome.result))) s.gas = (true, gas) →
    tx.mint.getD 0 ≠ 0 →
    MintFits env.meter evmNativeAddress s.move gas (mintAmount tx)

/-- Only errors that a receipt can report. -/
def Handled {α : Type} (x : Act (Session γ) Error α) (s : Session γ) : Prop :=
  ∀ e s', x s = (.error e, s') → ∃ cause, e = .user cause

theorem handled_bind {α β : Type} {x : Act (Session γ) Error α} {f : α → Act (Session γ) Error β}
    {a : α} {s s' : Session γ} (h : x s = (.ok a, s')) :
    Handled (x >>= f) s ↔ Handled (f a) s' := by
  unfold Handled
  rw [bind_of_ok h]

theorem handled_of_error {α β : Type} {x : Act (Session γ) Error α}
    {f : α → Act (Session γ) Error β} {cause : UserError} {s s' : Session γ}
    (h : x s = (.error (.user cause), s')) : Handled (x >>= f) s := by
  intro e s'' he
  rw [bind_of_error h] at he
  exact ⟨cause, (Except.error.inj (Prod.mk.inj he).1).symm⟩

/-- Replication fails with errors of the VM. -/
theorem handled_replicate (logs : List Log) (s : Session γ) :
    Handled (do
      (replicateTransfers env.meter).mapError fun e => .user (.vm e)
      pure logs) s := by
  intro e s' h
  rcases bind_error.mp h with h | ⟨_, _, -, h⟩
  · obtain ⟨inner, -, rfl⟩ := mapError_error.mp h
    exact ⟨.vm inner, rfl⟩
  · exact (pure_error.mp h).elim

theorem toNat_mint (tx : TxDeposit) : ((tx.mint.getD 0).setWidth 256).toNat = mintAmount tx := by
  have hlt := (tx.mint.getD 0).isLt
  rw [BitVec.toNat_setWidth, mintAmount]
  omega

/-- Mint and replication are handled exactly when the mint fits. -/
theorem handled_mint {tx : TxDeposit} (logs : List Log) (s : Session γ) :
    Handled (do
      mintDeposit env tx
      (replicateTransfers env.meter).mapError fun e => .user (.vm e)
      pure logs) s ↔
      (tx.mint.getD 0 ≠ 0 → MintFits env.meter evmNativeAddress s.move s.gas (mintAmount tx)) := by
  by_cases hzero : tx.mint.getD 0 = 0
  · have hmint : mintDeposit env tx s = (.ok (), s) := by
      unfold mintDeposit
      rw [if_pos hzero]
      rfl
    rw [handled_bind hmint]
    exact iff_of_true (handled_replicate logs s) fun h => (h hzero).elim
  · have hwide : (tx.mint.getD 0).setWidth 256 ≠ 0 := by
      intro hwide
      have hnat := toNat_mint tx
      rw [hwide] at hnat
      exact hzero (BitVec.eq_of_toNat_eq hnat.symm)
    have hfits := succeeds_mintEth env.meter evmNativeAddress s hwide
    rw [toNat_mint] at hfits
    have hmint : mintDeposit env tx =
        (mintEth env.meter evmNativeAddress ((tx.mint.getD 0).setWidth 256)).mapError fun _ =>
          .invariantViolation (.ethToken .mintAlwaysSucceeds) := if_neg hzero
    constructor
    · intro hhandled _
      apply hfits.mp
      rcases hrun : mintEth env.meter evmNativeAddress ((tx.mint.getD 0).setWidth 256) s with
        ⟨e | _, s'⟩
      · have herror : mintDeposit env tx s =
            (.error (.invariantViolation (.ethToken .mintAlwaysSucceeds)), s') := by
          rw [hmint]
          exact mapError_error.mpr ⟨e, hrun, rfl⟩
        obtain ⟨cause, hcause⟩ := hhandled _ _ (bind_of_error herror)
        cases hcause
      · exact ⟨_, s', hrun⟩
    · intro h
      obtain ⟨_, s', hrun⟩ := hfits.mpr (h hzero)
      have hok : mintDeposit env tx s = (.ok (), s') := by
        rw [hmint]
        exact mapError_ok.mpr hrun
      rw [handled_bind hok]
      exact handled_replicate logs s'

/-- What runs in the session of a deposit is handled exactly when the mint is covered. -/
theorem handled_depositPayload (env : NodeEnv γ) (revm : Revm X) (tx : TxDeposit)
    (target : Address) (s : Session γ) :
    Handled (depositPayload env revm tx target) s ↔ MintCovered env revm s tx target := by
  have hcall : systemDepositEvmCall env.meter revm env.lib (toMoveAddress tx.origin)
      (toMoveAddress target) tx.value tx.input =
      nativeEvmTransact env.meter revm env.lib (toMoveAddress tx.origin) (.call target) tx.value
        tx.input := by
    unfold systemDepositEvmCall nativeEvmCall
    rw [toEthAddress_toMoveAddress]
  unfold depositPayload MintCovered depositArgs
  rw [hcall]
  rcases hrun : evmTransactWithNative revm env.lib s.evm (callArgs env.meter s
    (toMoveAddress tx.origin) (.call target) tx.value tx.input) with ⟨e | outcome, ctx⟩
  · have hfailed := nativeEvmTransact_of_error hrun
    refine iff_of_true (handled_of_error (mapError_error.mpr ⟨_, hfailed, rfl⟩)) ?_
    intro outcome gas hok
    cases hok
  · have htransact := nativeEvmTransact_of_ok hrun
    rcases hcharge : env.meter.charge (.execution (evmGasUsed (gasUsed outcome.result))) s.gas with
      ⟨_ | _, gas⟩
    · have hfailed : nativeEvmTransact env.meter revm env.lib (toMoveAddress tx.origin)
          (.call target) tx.value tx.input s =
          (.error .outOfGas, { s with evm := ctx, gas := gas }) := by
        rw [htransact]
        apply bind_of_error
        simp [chargeGas, hcharge]
      refine iff_of_true (handled_of_error (mapError_error.mpr ⟨_, hfailed, rfl⟩)) ?_
      intro other gas' hok _ hpaid
      obtain rfl := Except.ok.inj hok
      rw [hcharge] at hpaid
      cases (Prod.mk.inj hpaid).1
    · let called : Session γ := { s with evm := ctx, gas := gas }
      have hdone : nativeEvmTransact env.meter revm env.lib (toMoveAddress tx.origin)
          (.call target) tx.value tx.input s =
          (.ok (evmResultToMoveValue outcome.result), called) := by
        rw [htransact]
        refine bind_ok.mpr ⟨(), called, ?_, rfl⟩
        simp [chargeGas, hcharge, called]
      rw [handled_bind (mapError_ok.mpr hdone)]
      by_cases hsuccess : (evmResultToMoveValue outcome.result).isSuccess = true
      · rw [if_pos hsuccess, handled_mint]
        constructor
        · intro hfits other gas' hok _ hpaid hmint
          obtain rfl := Except.ok.inj hok
          rw [hcharge] at hpaid
          obtain rfl := (Prod.mk.inj hpaid).2
          exact hfits hmint
        · intro hcovered hmint
          exact hcovered outcome gas rfl hsuccess hcharge hmint
      · rw [if_neg hsuccess]
        refine iff_of_true ?_ ?_
        · intro e s' hfail
          exact ⟨_, (fail_error.mp hfail).1.symm⟩
        · intro other gas' hok hsuccess'
          obtain rfl := Except.ok.inj hok
          exact (hsuccess hsuccess').elim

end Payload

section Passes

variable {γ X τ : Type} {config : NodeConfig γ X τ} {occurs : Storage → Prop}

/-- The session a deposit starts in. -/
def depositSession (config : NodeConfig γ X τ) (state : ChainState) (blocks : List ExtendedBlock)
    (blockHeader : HeaderForExecution) (tx : TxDeposit) : Session γ :=
  createVmSession config.toNodeEnv state (hashByNumber blocks) blockHeader tx.gasLimit

/-- The gas a deposit is recorded with. -/
def depositGas (config : NodeConfig γ X τ) (state : ChainState) (blocks : List ExtendedBlock)
    (blockHeader : HeaderForExecution) (tx : TxDeposit) (target : Address) : ℕ :=
  config.totalGasUsed (depositPayload config.toNodeEnv config.revm tx target
    (depositSession config state blocks blockHeader tx)).2.gas

/-- A deposit calls, and its mint is covered if the call succeeds. -/
def DepositCovered (config : NodeConfig γ X τ) (state : ChainState) (blocks : List ExtendedBlock)
    (blockHeader : HeaderForExecution) (tx : TxDeposit) (target : Address) : Prop :=
  tx.target = .call target ∧ MintCovered config.toNodeEnv config.revm
    (depositSession config state blocks blockHeader tx) tx target

/-- Over tries that open, exactly the covered deposits are executed. -/
theorem deposit_ok_iff (h : EvmReliable config occurs) {state : ChainState}
    (hopen : TriesOpen config.lib occurs state.evm) (blocks : List ExtendedBlock)
    (blockHeader : HeaderForExecution) (tx : TxDeposit) :
    (∃ outcome, executeDepositedTransaction config.toNodeEnv config.revm state
      (hashByNumber blocks) blockHeader tx = .ok outcome) ↔
      ∃ target, DepositCovered config state blocks blockHeader tx target := by
  constructor
  · rintro ⟨outcome, hok⟩
    obtain ⟨target, result, s, _, _, htarget, hpayload, husers, -⟩ := deposit_finishes hok
    refine ⟨target, htarget, (handled_depositPayload _ _ _ _ _).mp fun e s' he => ?_⟩
    apply husers e
    exact (Prod.mk.inj (hpayload.symm.trans he)).1
  · rintro ⟨target, htarget, hcovered⟩
    have hhandled := (handled_depositPayload _ _ _ _ _).mpr hcovered
    have hfinish : ∀ result s vmOutcome logs, depositPayload config.toNodeEnv config.revm tx target
        (depositSession config state blocks blockHeader tx) = (result, s) →
        ∃ outcome, finishDeposit config.toNodeEnv s vmOutcome logs = .ok outcome := by
      intro result s vmOutcome logs hpayload
      have hextends := (evmExtends_depositPayload h tx target).run hpayload
      obtain ⟨changes, hchanges⟩ := Option.isSome_iff_exists.mp
        (evmChanges_of_extends h.lawful hopen hextends).1
      simp [finishDeposit, hchanges]
    unfold executeDepositedTransaction
    rw [htarget]
    dsimp only
    unfold depositSession at hhandled hfinish
    rcases hpayload : depositPayload config.toNodeEnv config.revm tx target
      (createVmSession config.toNodeEnv state (hashByNumber blocks) blockHeader tx.gasLimit) with
      ⟨e | logs, s⟩
    · obtain ⟨cause, rfl⟩ := hhandled e s hpayload
      exact hfinish _ _ _ _ hpayload
    · exact hfinish _ _ _ _ hpayload

/-- An accepted deposit is recorded with its gas. -/
theorem executeOne_of_deposit_ok {blocks : List ExtendedBlock} {batch : Batch}
    {progress : Progress ChainState} {item : Item} {tx : TxDeposit}
    {outcome : TransactionExecutionOutcome} (htx : item.tx = .deposit tx)
    (h : executeDepositedTransaction config.toNodeEnv config.revm progress.state
      (hashByNumber blocks) batch.blockHeader tx = .ok outcome) :
    ∃ next receipt, executeOne (node config) blocks batch progress item = some next ∧
      next.receipts = progress.receipts ++ [receipt] ∧ receipt.transactionHash = item.txHash ∧
      next.cumulativeGasUsed = min (progress.cumulativeGasUsed + outcome.gasUsed) maxU128 := by
  have hexecute : (node config).executeTransaction progress.state blocks
      (batch.input item (.depositedTx tx)) = .ok (outcomeOf outcome) := by
    show (executeDepositedTransaction config.toNodeEnv config.revm progress.state
      (hashByNumber blocks) batch.blockHeader tx).map outcomeOf = _
    rw [h]
    rfl
  unfold executeOne
  rw [htx]
  simp only [NormalizedExtendedTxEnvelope.ofEnvelope, hexecute]
  unfold record
  rw [htx]
  exact ⟨_, _, rfl, rfl, rfl, rfl⟩

/-- A deposit that is not accepted gets no receipt. -/
theorem executeOne_of_deposit_error {blocks : List ExtendedBlock} {batch : Batch}
    {progress next : Progress ChainState} {item : Item} {tx : TxDeposit} {e : Error}
    (htx : item.tx = .deposit tx)
    (h : executeDepositedTransaction config.toNodeEnv config.revm progress.state
      (hashByNumber blocks) batch.blockHeader tx = .error e)
    (hone : executeOne (node config) blocks batch progress item = some next) :
    next = progress := by
  have hexecute : (node config).executeTransaction progress.state blocks
      (batch.input item (.depositedTx tx)) = .error e := by
    show (executeDepositedTransaction config.toNodeEnv config.revm progress.state
      (hashByNumber blocks) batch.blockHeader tx).map outcomeOf = _
    rw [h]
    rfl
  unfold executeOne at hone
  rw [htx] at hone
  simp only [NormalizedExtendedTxEnvelope.ofEnvelope, hexecute] at hone
  cases e with
  | invalidTransaction cause => exact (Option.some.inj hone).symm
  | user e => cases hone
  | invariantViolation violation => cases hone
  | panicked => cases hone

/-- The item gets a receipt, and the gas of the block still fits its header. -/
def GetsReceipt (config : NodeConfig γ X τ) (blocks : List ExtendedBlock) (batch : Batch)
    (progress : Progress ChainState) (item : Item) : Prop :=
  ∃ next receipt, executeOne (node config) blocks batch progress item = some next ∧
    next.receipts = progress.receipts ++ [receipt] ∧ receipt.transactionHash = item.txHash ∧
    next.cumulativeGasUsed ≤ maxU64

theorem getsReceipt_iff (h : EvmReliable config occurs) {blocks : List ExtendedBlock}
    {batch : Batch} {progress : Progress ChainState}
    (hopen : TriesOpen config.lib occurs progress.state.evm) {item : Item} {tx : TxDeposit}
    (htx : item.tx = .deposit tx) :
    GetsReceipt config blocks batch progress item ↔
      ∃ target, DepositCovered config progress.state blocks batch.blockHeader tx target ∧
        progress.cumulativeGasUsed +
          depositGas config progress.state blocks batch.blockHeader tx target ≤ maxU64 := by
  have hcovered := deposit_ok_iff h hopen blocks batch.blockHeader tx
  have hgas : ∀ outcome, executeDepositedTransaction config.toNodeEnv config.revm progress.state
      (hashByNumber blocks) batch.blockHeader tx = .ok outcome → ∀ target,
      tx.target = .call target → outcome.gasUsed =
        depositGas config progress.state blocks batch.blockHeader tx target := by
    intro outcome hok target htarget
    obtain ⟨target', result, s, _, _, htarget', hpayload, -, hfinish⟩ := deposit_finishes hok
    obtain rfl := TxKind.call.inj (htarget.symm.trans htarget')
    rw [depositGas, depositSession, hpayload]
    exact (finishDeposit_ok hfinish).2.2
  have hfits : ∀ gas, min (progress.cumulativeGasUsed + gas) maxU128 ≤ maxU64 ↔
      progress.cumulativeGasUsed + gas ≤ maxU64 := by
    intro gas
    unfold maxU128 maxU64
    omega
  constructor
  · rintro ⟨next, receipt, hone, hreceipts, -, hlimit⟩
    cases hdeposit : executeDepositedTransaction config.toNodeEnv config.revm progress.state
      (hashByNumber blocks) batch.blockHeader tx with
    | error e =>
      rw [executeOne_of_deposit_error htx hdeposit hone] at hreceipts
      simp at hreceipts
    | ok outcome =>
      obtain ⟨target, htarget⟩ := hcovered.mp ⟨outcome, hdeposit⟩
      obtain ⟨next', _, hone', -, -, hcumulative⟩ := executeOne_of_deposit_ok htx hdeposit
      obtain rfl := Option.some.inj (hone.symm.trans hone')
      refine ⟨target, htarget, ?_⟩
      rw [← hgas outcome hdeposit target htarget.1, ← hfits, ← hcumulative]
      exact hlimit
  · rintro ⟨target, htarget, hlimit⟩
    obtain ⟨outcome, hdeposit⟩ := hcovered.mpr ⟨target, htarget⟩
    obtain ⟨next, receipt, hone, hreceipts, hhash, hcumulative⟩ :=
      executeOne_of_deposit_ok htx hdeposit
    refine ⟨next, receipt, hone, hreceipts, hhash, ?_⟩
    rw [hcumulative, hfits, hgas outcome hdeposit target htarget.1]
    exact hlimit

end Passes

section Blocks

variable {γ X τ : Type} {config : NodeConfig γ X τ} {occurs : Storage → Prop}

/-- The deposit does not stop the block it is executed in: as the first item it gives an L1 fee,
and after the items before it, it gets a receipt. -/
structure Survives (config : NodeConfig γ X τ) (app : App ChainState) (baseFee : U256)
    (blockHeader : HeaderForExecution) (before : List Item) (item : Item) (after : List Item) :
    Prop where
  l1Fee : before = [] → (headL1Fee (before ++ item :: after)).isSome
  receipt : ∀ batch progress, batchFor (before ++ item :: after) baseFee blockHeader = some batch →
    runBatch (node config) app.blocks batch before (.start app.state) = some progress →
    GetsReceipt config app.blocks batch progress item

/-- The deposit has calldata for the L1 fee if it is the first item, calls and covers its mint,
and leaves the gas of the block in bounds. -/
structure Covered (config : NodeConfig γ X τ) (app : App ChainState) (baseFee : U256)
    (blockHeader : HeaderForExecution) (before : List Item) (item : Item) (after : List Item)
    (tx : TxDeposit) : Prop where
  calldata : before = [] → 100 ≤ tx.input.length
  deposit : ∀ batch progress, batchFor (before ++ item :: after) baseFee blockHeader = some batch →
    runBatch (node config) app.blocks batch before (.start app.state) = some progress →
    ∃ target, DepositCovered config progress.state app.blocks batch.blockHeader tx target ∧
      progress.cumulativeGasUsed +
        depositGas config progress.state app.blocks batch.blockHeader tx target ≤ maxU64

theorem headL1Fee_isSome_iff {item : Item} {tx : TxDeposit} (htx : item.tx = .deposit tx)
    (after : List Item) : (headL1Fee (item :: after)).isSome ↔ 100 ≤ tx.input.length := by
  have hhead : headL1Fee (item :: after) = (EcotoneGasFee.forDeposit tx.input).map some := by
    simp [headL1Fee, htx, OpTxEnvelope.asDeposit]
  rw [hhead, Option.isSome_map, EcotoneGasFee.forDeposit]
  split_ifs with hshort
  · simp only [Option.isSome_none, Bool.false_eq_true, false_iff]
    omega
  · simp only [Option.isSome_some, true_iff]
    omega

theorem batchFor_of_headL1Fee {items : List Item} (h : (headL1Fee items).isSome) (baseFee : U256)
    (blockHeader : HeaderForExecution) :
    ∃ batch, batchFor items baseFee blockHeader = some batch := by
  obtain ⟨l1Fee, hl1Fee⟩ := Option.isSome_iff_exists.mp h
  exact ⟨⟨baseFee, blockHeader, l1Fee, .withDefaultGasFeeMultiplier⟩, by simp [batchFor, hl1Fee]⟩

theorem survives_iff_covered (h : EvmReliable config occurs) {app : App ChainState}
    (hopen : TriesOpen config.lib occurs app.state.evm) (baseFee : U256)
    (blockHeader : HeaderForExecution) (before : List Item) {item : Item} (after : List Item)
    {tx : TxDeposit} (htx : item.tx = .deposit tx) :
    Survives config app baseFee blockHeader before item after ↔
      Covered config app baseFee blockHeader before item after tx := by
  have hfee : before = [] →
      ((headL1Fee (before ++ item :: after)).isSome ↔ 100 ≤ tx.input.length) := by
    rintro rfl
    exact headL1Fee_isSome_iff htx after
  have hreceipt : ∀ batch progress,
      runBatch (node config) app.blocks batch before (.start app.state) = some progress →
      (GetsReceipt config app.blocks batch progress item ↔ ∃ target,
        DepositCovered config progress.state app.blocks batch.blockHeader tx target ∧
          progress.cumulativeGasUsed +
            depositGas config progress.state app.blocks batch.blockHeader tx target ≤ maxU64) :=
    fun batch progress hbatch => getsReceipt_iff h (triesOpen_of_batch h hopen hbatch) htx
  constructor
  · intro hsurvives
    refine ⟨fun hfirst => (hfee hfirst).mp (hsurvives.l1Fee hfirst), ?_⟩
    intro batch progress hfor hbatch
    exact (hreceipt batch progress hbatch).mp (hsurvives.receipt batch progress hfor hbatch)
  · intro hcovered
    refine ⟨fun hfirst => (hfee hfirst).mpr (hcovered.calldata hfirst), ?_⟩
    intro batch progress hfor hbatch
    exact (hreceipt batch progress hbatch).mpr (hcovered.deposit batch progress hfor hbatch)

/-- A block in which every item survives is executed, with a receipt for each item. -/
theorem executeTransactions_of_survives {app : App ChainState} {baseFee : U256}
    {blockHeader : HeaderForExecution} {items : List Item}
    (hsurvive : ∀ before item after, items = before ++ item :: after →
      Survives config app baseFee blockHeader before item after) :
    ∃ final, executeTransactions (node config) app items baseFee blockHeader = some final ∧
      final.receipts.map (fun receipt => receipt.transactionHash) =
        items.map (fun item => item.txHash) ∧ final.cumulativeGasUsed ≤ maxU64 := by
  have hhead : (headL1Fee items).isSome := by
    cases items with
    | nil => rfl
    | cons item rest => exact (hsurvive [] item rest rfl).l1Fee rfl
  obtain ⟨batch, hbatch⟩ := batchFor_of_headL1Fee hhead baseFee blockHeader
  have hruns : ∃ final,
      runBatch (node config) app.blocks batch items (.start app.state) = some final ∧
      final.receipts.map (fun receipt => receipt.transactionHash) =
        items.map (fun item => item.txHash) ∧ final.cumulativeGasUsed ≤ maxU64 := by
    refine runBatch_of_steps (node config) app.blocks batch (P := fun before progress =>
      progress.receipts.map (fun receipt => receipt.transactionHash) =
        before.map (fun item => item.txHash) ∧ progress.cumulativeGasUsed ≤ maxU64)
      ⟨rfl, Nat.zero_le _⟩ ?_
    rintro before item after progress hitems hbefore ⟨hhashes, -⟩
    obtain ⟨next, receipt, hone, hreceipts, hhash, hnext⟩ :=
      (hsurvive before item after hitems).receipt batch progress (hitems ▸ hbatch) hbefore
    refine ⟨next, hone, ?_, hnext⟩
    rw [hreceipts, List.map_append, List.map_singleton, hhashes, hhash, List.map_append,
      List.map_singleton]
  obtain ⟨final, hfinal, hparts⟩ := hruns
  refine ⟨final, ?_, hparts⟩
  simp [executeTransactions, hbatch, hfinal]

/-- In every run, at any position of a block, a deposit gets its receipt exactly when it is
covered, and a block of covered deposits is executed to its end. -/
theorem deposits_survive_iff (h : EvmReliable config occurs) {genesis : ChainState}
    (hgenesis : TriesOpen config.lib occurs genesis.evm) {app : App ChainState}
    {executed : List Item} (hrun : Runs (node config) genesis app executed) (baseFee : U256)
    (blockHeader : HeaderForExecution) :
    (∀ before item after tx, item.tx = .deposit tx →
      (Survives config app baseFee blockHeader before item after ↔
        Covered config app baseFee blockHeader before item after tx)) ∧
    ∀ items, (∀ before item after, items = before ++ item :: after → ∃ tx,
        item.tx = .deposit tx ∧ Covered config app baseFee blockHeader before item after tx) →
      ∃ final, executeTransactions (node config) app items baseFee blockHeader = some final ∧
        final.receipts.map (fun receipt => receipt.transactionHash) =
          items.map (fun item => item.txHash) ∧ final.cumulativeGasUsed ≤ maxU64 := by
  have hopen := triesOpen_of_runs h hgenesis hrun
  constructor
  · intro before item after tx htx
    exact survives_iff_covered h hopen baseFee blockHeader before after htx
  · intro items hitems
    apply executeTransactions_of_survives
    intro before item after hsplit
    obtain ⟨tx, htx, hcovered⟩ := hitems before item after hsplit
    exact (survives_iff_covered h hopen baseFee blockHeader before after htx).mpr hcovered

end Blocks

section Samples

open FailedTransactions GasPrices Extraction LedgerMirror

/-- An EVM whose calls succeed and transfer nothing. -/
def quietRevm : Revm Unit where
  execute _ := .done (.ok ())
  journal _ := []
  postExecution _ :=
    .done (.ok ⟨.success 21000 [] [] none, AList.singleton alice (loadedAccount 0 1 false)⟩)

def chargeCost : Charge → ℕ
  | .write => 1000
  | .emit => 100
  | .execution amount => amount
  | _ => 0

/-- A meter that knows what is left. -/
def countingMeter : GasMeter ℕ where
  charge charge gas :=
    if chargeCost charge ≤ gas then (true, gas - chargeCost charge) else (false, 0)
  balance gas := gas

def meteredConfig : NodeConfig ℕ Unit Unit :=
  { sampleConfig with meter := countingMeter, revm := quietRevm }

/-- Every slot of every account is zero. -/
def noStorage (storage : Storage) : Prop := storage = fun _ => 0

/-- An EVM that reports one account without storage leads to no storage. -/
theorem reportsWithin_singleton {X : Type} {revm : Revm X} {a : Address} {account : EvmAccount}
    {result : ExecutionResult} (hstorage : account.storage = ∅)
    (hpost : ∀ machine, revm.postExecution machine =
      .done (.ok ⟨result, AList.singleton a account⟩)) :
    ReportsWithin sampleLib noStorage revm := by
  intro ctx args outcome ctx' hrun b persistedAccount storage hpersisted hoccurs _
  obtain ⟨machine, cache, final, -, hfinish, -⟩ := finished_of_transact _ _ hrun
  rw [hpost machine] at hfinish
  have hstate : outcome.state = AList.singleton a account := by
    have hresult := (Prod.mk.inj hfinish).1
    rw [← Except.ok.inj (Except.ok.inj hresult)]
  rw [hstate] at hpersisted
  obtain ⟨hlookup, -⟩ := Option.filter_eq_some_iff.mp hpersisted
  rw [ChangeSets.lookup_singleton] at hlookup
  split_ifs at hlookup
  obtain rfl := Option.some.inj hlookup
  have hsame : slotsAfter storage account = storage := by
    funext i
    simp [slotsAfter, EvmAccount.slotChange, hstorage]
  rw [hsame]
  exact hoccurs

theorem meteredConfig_reliable : EvmReliable meteredConfig noStorage where
  lawful := sampleLib_lawful fun _ h => .inl h
  reports := reportsWithin_singleton rfl fun _ => rfl
  entryFunction _ _ := Keeps.fail _
  script _ _ := Keeps.fail _

theorem sampleChain_open : TriesOpen meteredConfig.lib noStorage sampleChain.evm :=
  fun _ => ⟨_, rfl, stores_empty _⟩

/-- alice mints 9 wei and calls with a value of zero. -/
def mintingDeposit (target : TxKind) (gasLimit : ℕ) (input : Bytes) : TxDeposit where
  sourceHash := 0
  origin := alice
  target := target
  mint := some 9
  value := 0
  gasLimit := gasLimit
  isSystemTransaction := false
  input := input

def depositItem (tx : TxDeposit) : Item := ⟨1, .deposit tx, .ofBytes []⟩

def attributesInput : Bytes := List.replicate 100 0

theorem sampleApp_runs : Runs (node meteredConfig) sampleChain (appWithBaseFee 7) [] :=
  Runs.genesisUpdate Runs.start

/-- A deposit that is alone in its block and covers its mint. -/
theorem deposits_survive_sample : Survives meteredConfig (appWithBaseFee 7) 7 ⟨1, 1, 0⟩ []
    (depositItem (mintingDeposit (.call bob) 100000 attributesInput)) [] := by
  have hall := deposits_survive_iff meteredConfig_reliable sampleChain_open sampleApp_runs 7
    ⟨1, 1, 0⟩
  refine (hall.1 [] _ [] _ rfl).mpr ⟨fun _ => by decide, fun batch progress _ hbatch => ?_⟩
  obtain rfl : Progress.start sampleChain = progress := Option.some.inj hbatch
  refine ⟨bob, ⟨rfl, ?_⟩, ?_⟩
  · intro outcome gas hok _ hcharge _
    obtain rfl := Except.ok.inj hok
    obtain rfl := (Prod.mk.inj hcharge).2
    have hfits : MintFits countingMeter evmNativeAddress sampleChain.move 100000 9 :=
      ⟨by decide +kernel, by decide +kernel, by decide +kernel⟩
    exact hfits
  · have hused : depositGas meteredConfig (Progress.start sampleChain).state
        (appWithBaseFee 7).blocks batch.blockHeader
        (mintingDeposit (.call bob) 100000 attributesInput) bob ≤ 21000 := Nat.min_le_left _ _
    have hstart : (Progress.start sampleChain).cumulativeGasUsed = 0 := rfl
    rw [hstart]
    unfold maxU64
    omega

/-- Whether the deposit, alone in its block, stops the loop. -/
def stopsLoop (tx : TxDeposit) : Option Bool :=
  (batchFor [depositItem tx] 7 ⟨1, 1, 0⟩).map fun batch =>
    (executeOne (node meteredConfig) (appWithBaseFee 7).blocks batch (.start sampleChain)
      (depositItem tx)).isNone

theorem not_survives_of_stopsLoop {tx : TxDeposit} (h : stopsLoop tx = some true) :
    ¬ Survives meteredConfig (appWithBaseFee 7) 7 ⟨1, 1, 0⟩ [] (depositItem tx) [] := by
  intro hsurvives
  obtain ⟨batch, hbatch, hnone⟩ := Option.map_eq_some_iff.mp h
  obtain ⟨next, _, hone, -⟩ := hsurvives.receipt batch (.start sampleChain) hbatch rfl
  change (executeOne _ (appWithBaseFee 7).blocks batch (.start sampleChain) _) = _ at hone
  rw [hone] at hnone
  cases hnone

/-- A creation stops the node, a first deposit with short calldata does, and so does a mint that
runs out of gas after its call. -/
theorem deposits_stop_the_node :
    Runs (node meteredConfig) sampleChain (appWithBaseFee 7) [] ∧
      ¬ Survives meteredConfig (appWithBaseFee 7) 7 ⟨1, 1, 0⟩ []
        (depositItem (mintingDeposit .create 100000 attributesInput)) [] ∧
      ¬ Survives meteredConfig (appWithBaseFee 7) 7 ⟨1, 1, 0⟩ []
        (depositItem (mintingDeposit (.call bob) 100000 [])) [] ∧
      ¬ Survives meteredConfig (appWithBaseFee 7) 7 ⟨1, 1, 0⟩ []
        (depositItem (mintingDeposit (.call bob) 3050 attributesInput)) [] := by
  refine ⟨sampleApp_runs, not_survives_of_stopsLoop (by decide +kernel), ?_,
    not_survives_of_stopsLoop (by decide +kernel)⟩
  intro hsurvives
  exact absurd (hsurvives.l1Fee rfl) (by decide)

end Samples

end OpMove.SafeDeposits
