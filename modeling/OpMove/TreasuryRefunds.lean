import OpMove.ExactFees

/-!
The treasury and the refund. The sender pays for its whole gas limit before the payload runs, and
the treasury gives back what was not used afterwards. It can do so if the payload has taken nothing
from it: transfers take from the sender, from the EVM native account or from where the EVM says,
and the EVM moves ETH out of the treasury for nobody else.
-/

namespace OpMove.TreasuryRefunds

open Primitives GasFees Transactions Errors Arguments StorageTries NativeEvm FailingActions Sessions
open EthToken EvmModule Canonical SessionProgress FeeSettlement CanonicalRuns EthSupply ExactFees

section Relation

variable {γ : Type} {meter : GasMeter γ} {treasury : AccountAddress}

/-- The treasury has lost nothing, and no transfer to be replicated takes from it unless one did
before. -/
structure TreasuryKept (treasury : AccountAddress) (s s' : Session γ) : Prop where
  balance : balances s.move treasury ≤ balances s'.move treasury
  transfers : (∀ t ∈ s.evm.transferLogs.transfers, t.origin ≠ treasury) →
    ∀ t ∈ s'.evm.transferLogs.transfers, t.origin ≠ treasury

instance : IsPreorder (Session γ) (TreasuryKept treasury) where
  refl _ := ⟨le_rfl, fun h => h⟩
  trans _ _ _ h h' := ⟨h.balance.trans h'.balance, fun hlogs => h'.transfers (h.transfers hlogs)⟩

theorem kept_of_evm_eq {s s' : Session γ}
    (hbalance : balances s.move treasury ≤ balances s'.move treasury) (hevm : s'.evm = s.evm) :
    TreasuryKept treasury s s' :=
  ⟨hbalance, fun h => by rw [hevm]; exact h⟩

theorem kept_chargeGas (charge : Charge) :
    Keeps (TreasuryKept treasury) (chargeGas meter charge) := by
  intro s
  unfold chargeGas
  split <;> exact kept_of_evm_eq le_rfl rfl

theorem kept_emit (event : Event) : Keeps (TreasuryKept treasury) (emit meter event) :=
  Keeps.bind (kept_chargeGas _) fun _ _ => kept_of_evm_eq le_rfl rfl

/-- A store that is written over is not the treasury's, or not lower than before. -/
theorem kept_setStore {owner : AccountAddress} {store : FungibleStore} {s : Session γ}
    (h : owner = treasury → balances s.move treasury ≤ store.balance) :
    TreasuryKept treasury s (setStore meter owner store s).2 := by
  have hcharged : TreasuryKept treasury s (chargeGas meter .write s).2 := kept_chargeGas .write s
  unfold setStore writeMove
  rcases hcharge : chargeGas meter .write s with ⟨e | _, charged⟩ <;> rw [hcharge] at hcharged
  · rw [bind_of_error hcharge]
    exact hcharged
  · rw [bind_of_ok hcharge]
    obtain ⟨hmove, -, hevm⟩ := ran_of_chargeGas hcharge
    refine kept_of_evm_eq ?_ hevm
    show balances s.move treasury ≤ balances (charged.move.withStore owner (some store)) treasury
    rw [hmove]
    by_cases howner : owner = treasury
    · subst howner
      simpa [balances] using h rfl
    · simp [balances, MoveState.withStore_of_ne _ _ (Ne.symm howner)]

theorem kept_ensurePrimaryStoreExists (owner : AccountAddress) :
    Keeps (TreasuryKept treasury) (ensurePrimaryStoreExists meter owner) := by
  intro s
  unfold ensurePrimaryStoreExists
  rw [bind_read]
  split_ifs with hfound
  · exact refl_of (TreasuryKept treasury) s
  · apply kept_setStore
    rintro rfl
    simp [balances, Option.not_isSome_iff_eq_none.mp hfound]

theorem kept_withdrawInternal {owner : AccountAddress} (howner : owner ≠ treasury) (amount : ℕ) :
    Keeps (TreasuryKept treasury) (withdrawInternal meter owner amount) := by
  refine Keeps.bind (keeps_borrowStore owner) fun store => ?_
  refine Keeps.ite (Keeps.pure ()) (Keeps.ite (Keeps.fail _) ?_)
  exact Keeps.bind (fun s => kept_setStore fun heq => (howner heq).elim) fun _ => kept_emit _

theorem kept_depositInternal (owner : AccountAddress) (amount : ℕ) :
    Keeps (TreasuryKept treasury) (depositInternal meter owner amount) := by
  intro s
  unfold depositInternal
  split_ifs with hzero
  · exact refl_of (TreasuryKept treasury) s
  · rcases borrowStore_cases owner s with ⟨store, hstore, hborrow⟩ | hborrow
    · rw [bind_of_ok hborrow]
      split_ifs with hoverflow
      · exact refl_of (TreasuryKept treasury) s
      · have hset : TreasuryKept treasury s
            (setStore meter owner { store with balance := store.balance + amount } s).2 := by
          apply kept_setStore
          rintro rfl
          have hbalance : balances s.move owner = store.balance := by
            simp [balances, hstore]
          show _ ≤ store.balance + amount
          omega
        rcases hrun : setStore meter owner { store with balance := store.balance + amount } s with
          ⟨e | _, written⟩ <;> rw [hrun] at hset
        · rw [bind_of_error hrun]
          exact hset
        · rw [bind_of_ok hrun]
          exact trans_of (TreasuryKept treasury) hset (kept_emit _ written)
    · rw [bind_of_error hborrow]
      exact refl_of (TreasuryKept treasury) s

theorem kept_transferEth {source : AccountAddress} (hsource : source ≠ treasury)
    (target : AccountAddress) (amount : U256) :
    Keeps (TreasuryKept treasury) (transferEth meter source target amount) := by
  refine Keeps.ite (Keeps.pure ()) ?_
  refine Keeps.bind (keeps_primaryStore source) fun _ => ?_
  refine Keeps.bind (kept_ensurePrimaryStoreExists target) fun _ => ?_
  exact Keeps.bind (kept_withdrawInternal hsource _) fun _ => kept_depositInternal target _

theorem kept_withdrawPayment {caller : AccountAddress} (hcaller : caller ≠ treasury)
    (value : U256) : Keeps (TreasuryKept treasury) (withdrawPayment meter caller value) := by
  refine Keeps.ite (Keeps.pure 0) ?_
  refine Keeps.bind (kept_ensurePrimaryStoreExists caller) fun _ => ?_
  refine Keeps.bind (keeps_withdrawSanityCheck caller) fun _ => ?_
  exact Keeps.bind (kept_withdrawInternal hcaller _) fun _ => Keeps.pure value

theorem kept_getAssetValue (asset : U256) :
    Keeps (TreasuryKept treasury) (getAssetValue meter asset) := by
  refine Keeps.ite (Keeps.pure 0) ?_
  refine Keeps.bind (kept_ensurePrimaryStoreExists _) fun _ => ?_
  refine Keeps.bind (keeps_depositSanityCheck _) fun _ => ?_
  exact Keeps.bind (kept_depositInternal _ _) fun _ => Keeps.pure asset

end Relation

section Payload

variable {γ X τ : Type} {env : CanonicalEnv γ X τ} {input : CanonicalExecutionInput}
variable {treasury : AccountAddress}

/-- What is relied on outside the repository: the treasury is not the EVM native account, the EVM
takes from the treasury only when it is the caller, and user code only with its signer. -/
structure TreasurySafe (env : CanonicalEnv γ X τ) (treasury : AccountAddress) : Prop where
  native : evmNativeAddress ≠ treasury
  evm : ∀ ctx args machine, toMoveAddress args.caller ≠ treasury →
    machineOf env.revm env.lib ctx args = some machine →
    ∀ t ∈ journalTransfers (env.revm.journal machine), t.origin ≠ treasury
  entryFunction : ∀ state signer params entryFn args, signer ≠ treasury →
    entryArguments (env.vm.types state) signer params entryFn.args = .ok args →
    Keeps (TreasuryKept treasury) (env.vm.runEntryFunction entryFn args)
  script : ∀ state signer script args, signer ≠ treasury →
    scriptArguments (env.vm.types state) signer (env.vm.loadScript state) script = .ok args →
    Keeps (TreasuryKept treasury) (env.vm.runScript script args)

/-- Whether it comes back or not, a call logs the transfers of its machine at most. -/
theorem transfers_of_transact (revm : Revm X) (lib : TrieLibrary) (ctx : NativeEVMContext)
    (args : CallArgs) :
    (evmTransactWithNative revm lib ctx args).2.transferLogs.transfers =
        ctx.transferLogs.transfers ∨
      ∃ machine, machineOf revm lib ctx args = some machine ∧
        (evmTransactWithNative revm lib ctx args).2.transferLogs.transfers =
          ctx.transferLogs.transfers ++ journalTransfers (revm.journal machine) := by
  rcases transact_cases revm lib ctx args with
    ⟨-, hlogs⟩ | ⟨machine, _, _, _, hmachine, -, -, hlogs⟩
  · left
    rw [hlogs]
    rfl
  · right
    refine ⟨machine, hmachine, ?_⟩
    rw [hlogs]
    rfl

theorem kept_nativeEvmTransact (h : TreasurySafe env treasury) {caller : AccountAddress}
    (hcaller : toMoveAddress (toEthAddress caller) ≠ treasury) (transactTo : TxKind)
    (value : U256) (data : Bytes) : Keeps (TreasuryKept treasury)
      (nativeEvmTransact env.meter env.revm env.lib caller transactTo value data) := by
  refine keeps_nativeEvmTransact kept_chargeGas fun s => ⟨le_rfl, fun hlogs t ht => ?_⟩
  rcases transfers_of_transact env.revm env.lib s.evm
    (callArgs env.meter s caller transactTo value data) with hsame | ⟨machine, hmachine, hmore⟩
  · exact hlogs t (hsame ▸ ht)
  · have ht' : t ∈ s.evm.transferLogs.transfers ++
        journalTransfers (env.revm.journal machine) := hmore ▸ ht
    rcases List.mem_append.mp ht' with hold | hnew
    · exact hlogs t hold
    · exact h.evm _ _ machine hcaller hmachine t hnew

theorem kept_systemEvmTransact (h : TreasurySafe env treasury) {caller : AccountAddress}
    (hcaller : caller ≠ treasury) (hshown : toMoveAddress (toEthAddress caller) ≠ treasury)
    (transactTo : TxKind) (value : U256) (data : Bytes) (failed : ℕ) :
    Keeps (TreasuryKept treasury)
      (systemEvmTransact env.meter env.revm env.lib caller transactTo value data failed) := by
  refine Keeps.bind (kept_withdrawPayment hcaller value) fun payment => ?_
  refine Keeps.bind (Keeps.bind (kept_getAssetValue payment) fun asset => ?_) fun result => ?_
  · exact kept_nativeEvmTransact h hshown transactTo asset data
  · exact Keeps.ite (Keeps.bind (kept_emit _) fun _ => Keeps.pure result) (Keeps.fail _)

theorem senderKeeps_treasury (h : TreasurySafe env treasury) (hsender : input.sender ≠ treasury) :
    SenderKeeps env input.sender (TreasuryKept treasury) where
  charge := kept_chargeGas
  transfer := kept_transferEth hsender
  evm := by
    apply kept_systemEvmTransact h hsender
    unfold CanonicalExecutionInput.sender
    rw [toEthAddress_toMoveAddress]
    exact hsender
  entryFunction state params entryFn args := h.entryFunction state _ params entryFn args hsender
  script state script args := h.script state _ script args hsender

/-- Replication takes from the EVM native account and from the origins of the log. -/
theorem balance_replicateTransfers (h : TreasurySafe env treasury) {s : Session γ}
    (hlogs : ∀ t ∈ s.evm.transferLogs.transfers, t.origin ≠ treasury) :
    balances s.move treasury ≤ balances (replicateTransfers env.meter s).2.move treasury := by
  let taken : Session γ :=
    { s with evm := { s.evm with transferLogs := { s.evm.transferLogs with origins := [] } } }
  have horigins : TreasuryKept treasury taken
      (Act.forEach s.evm.transferLogs.origins (returnOrigin env.meter) taken).2 := by
    apply Keeps.forEach
    exact fun origin => Keeps.ite (Keeps.pure ()) (kept_transferEth h.native _ _)
  have hstart : replicateTransfers env.meter s =
      (Act.forEach s.evm.transferLogs.origins (returnOrigin env.meter) >>= fun _ =>
        takeTransfers >>= fun transfers =>
          Act.forEach transfers fun t => transferEth env.meter t.origin t.target t.amount) taken :=
    rfl
  rw [hstart]
  rcases hpaid : Act.forEach s.evm.transferLogs.origins (returnOrigin env.meter) taken with
    ⟨e | _, paid⟩ <;> rw [hpaid] at horigins
  · rw [bind_of_error hpaid]
    exact horigins.balance
  · rw [bind_of_ok hpaid]
    have hsafe := horigins.transfers hlogs
    let emptied : Session γ :=
      { paid with evm := { paid.evm with
        transferLogs := { paid.evm.transferLogs with transfers := [] } } }
    have htransfers : TreasuryKept treasury emptied (Act.forEach paid.evm.transferLogs.transfers
        (fun t => transferEth env.meter t.origin t.target t.amount) emptied).2 := by
      apply Keeps.forEach_mem
      exact fun t ht => kept_transferEth (hsafe t ht) _ _
    exact horigins.balance.trans htransfers.balance

/-- The payload of a sender that is not the treasury takes nothing from the treasury. -/
theorem balance_payloadRun (h : TreasurySafe env input.ethTreasury)
    (hsender : input.sender ≠ input.ethTreasury) {verified : Session γ}
    (hverifies : verifyTransaction env input (startCanonical env input) = (.ok (), verified))
    (data : TransactionData) :
    balances verified.move input.ethTreasury ≤
      balances (payloadRun env input data verified).2.move input.ethTreasury := by
  obtain ⟨-, -, hverified⟩ := ran_of_verifyTransaction hverifies
  have hnone : ∀ t ∈ verified.evm.transferLogs.transfers, t.origin ≠ input.ethTreasury := by
    rw [hverified.evm]
    exact fun t ht => absurd ht (List.not_mem_nil)
  have hpayload : TreasuryKept input.ethTreasury verified
      (executePayload env input data verified).2 :=
    (senderKeeps_treasury h hsender).executePayload data verified
  rcases hrun : executePayload env input data verified with ⟨e | deployed, afterPayload⟩ <;>
    rw [hrun] at hpayload
  · rw [payloadRun, bind_of_error hrun]
    exact hpayload.balance
  · rw [payloadRun, bind_of_ok hrun]
    have hreplicated := balance_replicateTransfers h (hpayload.transfers hnone)
    have hsame : ((replicateTransfers env.meter).mapError userError afterPayload).2 =
        (replicateTransfers env.meter afterPayload).2 := by
      unfold Act.mapError
      rcases replicateTransfers env.meter afterPayload with ⟨e | _, s'⟩ <;> rfl
    rw [hsame]
    exact hpayload.balance.trans hreplicated

/-- The refund to a sender that is not the treasury is always made. -/
theorem refund_made (hlawful : Lawful env) (hvm : MintsNothing env)
    (h : TreasurySafe env input.ethTreasury) (hsender : input.sender ≠ input.ethTreasury)
    (hbacked : Backed input.state.move) {verified : Session γ}
    (hverifies : verifyTransaction env input (startCanonical env input) = (.ok (), verified))
    (data : TransactionData) (gasUsed : ℕ) : ∃ settled, refundGasCost input (refundAmount input gasUsed)
      (payloadRun env input data verified).2 = (.ok (), settled) :=
  refund_succeeds hlawful hvm hbacked hverifies (balance_payloadRun h hsender hverifies data)
    gasUsed

end Payload

end OpMove.TreasuryRefunds
