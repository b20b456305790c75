import OpMove.HandledErrors
import OpMove.TreasuryRefunds
import OpMove.SafeDeposits

/-!
User transactions and the node that takes them. Whatever a user sends is added, executed or
skipped, and listed in a block; each of these may stop the node on what the ones before it let
through. A blob envelope stops it when it is added. A signature from which no signer is recovered
is skipped by execution and listed all the same, and stops whoever asks for the block with its
transactions. Everything else goes through, in every run, provided the signer is neither reserved
nor the treasury and the gas of the block fits its header.
-/

namespace OpMove.UserTransactions

open Primitives GasFees Transactions Errors StorageTries StateChanges NativeEvm FailingActions
open Sessions EthToken EvmModule Canonical SessionProgress CanonicalRuns EthSupply ExactFees
open BlockBuilding BlockAgreement Node Deposits NonceRuns OpenTries ArgumentErrors HandledErrors
open TreasuryRefunds SafeDeposits

section Executing

variable {γ X τ : Type} {config : NodeConfig γ X τ} {occurs : Storage → Prop}

/-- What is relied on outside the repository. -/
structure Reliable (config : NodeConfig γ X τ) (occurs : Storage → Prop) : Prop where
  evm : EvmReliable config occurs
  lawful : Lawful config.toCanonicalEnv
  mints : MintsNothing config.toCanonicalEnv
  vm : SoundVm config.toCanonicalEnv
  treasury : TreasurySafe config.toCanonicalEnv config.ethTreasury

/-- States in which the tries of the EVM open and the supply backs all balances. -/
structure Sound (config : NodeConfig γ X τ) (occurs : Storage → Prop) (state : ChainState) :
    Prop where
  tries : TriesOpen config.lib occurs state.evm
  backed : Backed state.move

/-- A finished session gives an outcome unless the transaction is refused. -/
theorem finishCanonical_invalid {env : CanonicalEnv γ X τ} {input : CanonicalExecutionInput}
    {payload : Except Error Deployed} {gasUsed : ℕ} {settled : Session γ}
    {vmOutcome : Except Error Unit} (hchanges : (evmChangesOf env.toNodeEnv settled).isSome)
    (hhandled : ∀ e, vmOutcome = .error e → isHandled e = true) {e : Error}
    (h : finishCanonical env input payload gasUsed settled vmOutcome = .error e) :
    isInvalid e = true := by
  obtain ⟨changes, hchanges⟩ := Option.isSome_iff_exists.mp hchanges
  unfold finishCanonical at h
  rw [hchanges] at h
  dsimp only at h
  rcases vmOutcome with error | _
  · cases error with
    | user cause => cases h
    | invalidTransaction cause =>
      rw [← Except.error.inj h]
      rfl
    | invariantViolation violation => cases hhandled _ rfl
    | panicked => cases hhandled _ rfl
  · cases h

/-- A canonical transaction is executed or refused. -/
theorem canonical_invalid (h : Reliable config occurs) (input : CanonicalExecutionInput)
    (htreasury : input.ethTreasury = config.ethTreasury) (hsound : Sound config occurs input.state)
    (hreserved : input.sender ∉ reservedAddresses) (hsender : input.sender ≠ config.ethTreasury)
    (hnonce : input.tx.nonce ≤ maxU64) {e : Error}
    (herror : executeCanonicalTransaction config.toCanonicalEnv input = .error e) :
    isInvalid e = true := by
  cases hparsed : parseFrom config.codec input.tx with
  | error parseError =>
    unfold executeCanonicalTransaction at herror
    rw [hparsed] at herror
    rw [← Except.error.inj herror]
    exact parseFrom_invalid hparsed
  | ok data =>
    rcases hverifies : verifyTransaction config.toCanonicalEnv input
      (startCanonical config.toCanonicalEnv input) with ⟨refusal | _, verified⟩
    · have hrefused : executeCanonicalTransaction config.toCanonicalEnv input = .error refusal := by
        unfold executeCanonicalTransaction
        rw [hparsed, hverifies]
        rfl
      rw [← Except.error.inj (hrefused.symm.trans herror)]
      exact verifyTransaction_invalid hreserved hnonce _ _ _ hverifies
    · have hsafe : TreasurySafe config.toCanonicalEnv input.ethTreasury := htreasury ▸ h.treasury
      obtain ⟨settled, hrefund⟩ := refund_made h.lawful h.mints hsafe (htreasury ▸ hsender)
        hsound.backed hverifies data
        (config.totalGasUsed (payloadRun config.toCanonicalEnv input data verified).2.gas)
      rw [executeCanonicalTransaction_of_refund hparsed hverifies hrefund] at herror
      refine finishCanonical_invalid ?_ ?_ herror
      · exact (evmChanges_of_extends h.evm.lawful hsound.tries
          (evmExtends_settled h.evm hverifies hrefund)).1
      · intro error hrun
        exact handled_payloadRun h.vm hparsed verified error
          (payloadRun config.toCanonicalEnv input data verified).2 (Prod.ext hrun rfl)

end Executing

section Passes

variable {γ X τ : Type} {config : NodeConfig γ X τ} {occurs : Storage → Prop}

/-- A signer is recovered that may have an account and is not the treasury, and the nonce is the
64-bit number that envelopes have. -/
structure Recoverable (config : NodeConfig γ X τ) (tx : OpTxEnvelope) : Prop where
  signer : ∃ signer, config.txCodec.recoverSigner tx = some signer ∧
    toMoveAddress signer ∉ reservedAddresses ∧ toMoveAddress signer ≠ config.ethTreasury
  nonce : ∀ normalized, NormalizedExtendedTxEnvelope.ofEnvelope config.txCodec tx =
    some (.canonical normalized) → normalized.nonce ≤ maxU64

theorem recoverSigner_of_canonical {codec : Codec} {tx : OpTxEnvelope}
    {normalized : NormalizedEthTransaction}
    (h : NormalizedExtendedTxEnvelope.ofEnvelope codec tx = some (.canonical normalized)) :
    codec.recoverSigner tx = some normalized.signer := by
  cases tx with
  | legacy signed =>
    obtain ⟨signer, hsigner, hsome⟩ := Option.bind_eq_some_iff.mp h
    rw [hsigner, ← NormalizedExtendedTxEnvelope.canonical.inj (Option.some.inj hsome)]
  | eip2930 signed =>
    obtain ⟨signer, hsigner, hsome⟩ := Option.bind_eq_some_iff.mp h
    rw [hsigner, ← NormalizedExtendedTxEnvelope.canonical.inj (Option.some.inj hsome)]
  | eip1559 signed =>
    obtain ⟨signer, hsigner, hsome⟩ := Option.bind_eq_some_iff.mp h
    rw [hsigner, ← NormalizedExtendedTxEnvelope.canonical.inj (Option.some.inj hsome)]
  | eip7702 signed => cases h
  | deposit deposit => cases h

theorem wrapReceipt_isSome {codec : Codec} {tx : OpTxEnvelope}
    {normalized : NormalizedExtendedTxEnvelope}
    (h : NormalizedExtendedTxEnvelope.ofEnvelope codec tx = some normalized) (receipt : Receipt)
    (bloom : Bloom) : (wrapReceipt tx receipt bloom).isSome := by
  cases tx with
  | eip7702 signed => cases h
  | legacy signed => rfl
  | eip2930 signed => rfl
  | eip1559 signed => rfl
  | deposit deposit => rfl

/-- An accepted item is recorded, and its gas is added up. -/
theorem record_isSome {blocks : List ExtendedBlock} {batch : Batch}
    {progress : Progress ChainState} {item : Item} {normalized : NormalizedExtendedTxEnvelope}
    {outcome : Outcome TransactionExecutionOutcome}
    (hnormal : NormalizedExtendedTxEnvelope.ofEnvelope config.txCodec item.tx = some normalized)
    (hexecute : (node config).executeTransaction progress.state blocks
      (batch.input item normalized) = .ok outcome) :
    ∃ next, executeOne (node config) blocks batch progress item = some next ∧
      next.cumulativeGasUsed ≤ progress.cumulativeGasUsed + outcome.gasUsed := by
  have hcodec : (node config).codec = config.txCodec := rfl
  unfold executeOne
  rw [hcodec, hnormal]
  dsimp only
  rw [hexecute]
  dsimp only
  obtain ⟨envelope, henvelope⟩ := Option.isSome_iff_exists.mp (wrapReceipt_isSome hnormal
    { status := outcome.isOk
      cumulativeGasUsed :=
        if min (progress.cumulativeGasUsed + outcome.gasUsed) maxU128 < maxU64 then
          min (progress.cumulativeGasUsed + outcome.gasUsed) maxU128 else maxU64
      logs := outcome.logs } (logsBloomOf (node config) outcome.logs))
  unfold record
  simp only [henvelope, Option.bind_eq_bind, Option.bind_some]
  exact ⟨_, rfl, Nat.min_le_left _ _⟩

theorem eq_deposit_of_depositedTx {codec : Codec} {tx : OpTxEnvelope} {deposit : TxDeposit}
    (h : NormalizedExtendedTxEnvelope.ofEnvelope codec tx = some (.depositedTx deposit)) :
    tx = .deposit deposit := by
  cases tx with
  | legacy signed =>
    obtain ⟨signer, -, hsome⟩ := Option.bind_eq_some_iff.mp h
    cases hsome
  | eip2930 signed =>
    obtain ⟨signer, -, hsome⟩ := Option.bind_eq_some_iff.mp h
    cases hsome
  | eip1559 signed =>
    obtain ⟨signer, -, hsome⟩ := Option.bind_eq_some_iff.mp h
    cases hsome
  | eip7702 signed => cases h
  | deposit found =>
    rw [NormalizedExtendedTxEnvelope.depositedTx.inj (Option.some.inj h)]

theorem gasUsed_le_gasLimit (h : Reliable config occurs) {input : CanonicalExecutionInput}
    {outcome : TransactionExecutionOutcome}
    (hok : executeCanonicalTransaction config.toCanonicalEnv input = .ok outcome) :
    outcome.gasUsed ≤ input.l2Input.gasLimit := by
  obtain ⟨data, verified, afterPayload, run, settled, payload, vmOutcome, haccepted⟩ :=
    acceptedRun_of_ok hok
  obtain ⟨-, -, hgas, -⟩ := finishCanonical_ok haccepted.finishes
  rw [hgas]
  exact haccepted.gasUsed_le h.lawful

/-- A canonical transaction is recorded with no more gas than its limit, or skipped. -/
theorem canonical_passes (h : Reliable config occurs) {blocks : List ExtendedBlock} {batch : Batch}
    {progress : Progress ChainState} (hsound : Sound config occurs progress.state) {item : Item}
    (hitem : Recoverable config item.tx) {tx : NormalizedEthTransaction}
    (hnormal : NormalizedExtendedTxEnvelope.ofEnvelope config.txCodec item.tx =
      some (.canonical tx)) :
    ∃ next, executeOne (node config) blocks batch progress item = some next ∧
      next.cumulativeGasUsed ≤ progress.cumulativeGasUsed + tx.gasLimit := by
  obtain ⟨signer, hsigner, hreserved, htreasury⟩ := hitem.signer
  obtain rfl : tx.signer = signer :=
    Option.some.inj ((recoverSigner_of_canonical hnormal).symm.trans hsigner)
  have hexecute : (node config).executeTransaction progress.state blocks
      (batch.input item (.canonical tx)) = (executeCanonicalTransaction config.toCanonicalEnv
        (batchInput config progress.state blocks batch item tx)).map outcomeOf :=
    executeTransaction_canonical progress.state item tx
  cases hresult : executeCanonicalTransaction config.toCanonicalEnv
    (batchInput config progress.state blocks batch item tx) with
  | ok outcome =>
    rw [hresult] at hexecute
    obtain ⟨next, hone, hgas⟩ := record_isSome hnormal hexecute
    have hlimit : outcome.gasUsed ≤ tx.gasLimit := gasUsed_le_gasLimit h hresult
    have hused : (outcomeOf outcome).gasUsed = outcome.gasUsed := rfl
    exact ⟨next, hone, by omega⟩
  | error e =>
    have hinvalid := canonical_invalid h (batchInput config progress.state blocks batch item tx)
      rfl hsound hreserved htreasury (hitem.nonce tx hnormal) hresult
    rw [hresult] at hexecute
    refine ⟨progress, ?_, Nat.le_add_right _ _⟩
    cases e with
    | invalidTransaction cause =>
      have hcodec : (node config).codec = config.txCodec := rfl
      unfold executeOne
      rw [hcodec, hnormal]
      dsimp only
      rw [hexecute]
      rfl
    | user cause => cases hinvalid
    | invariantViolation violation => cases hinvalid
    | panicked => cases hinvalid

/-- A user transaction is passed, and uses no more gas than its limit. -/
theorem user_passes (h : Reliable config occurs) {blocks : List ExtendedBlock} {batch : Batch}
    {progress : Progress ChainState} (hsound : Sound config occurs progress.state) {item : Item}
    (huser : item.tx.asDeposit = none) (hitem : Recoverable config item.tx)
    (hgas : ∀ tx, NormalizedExtendedTxEnvelope.ofEnvelope config.txCodec item.tx =
      some (.canonical tx) → progress.cumulativeGasUsed + tx.gasLimit ≤ maxU64)
    (hbefore : progress.cumulativeGasUsed ≤ maxU64) :
    ∃ next, executeOne (node config) blocks batch progress item = some next ∧
      next.cumulativeGasUsed ≤ maxU64 := by
  cases hnormal : NormalizedExtendedTxEnvelope.ofEnvelope config.txCodec item.tx with
  | none =>
    refine ⟨progress, ?_, hbefore⟩
    have hcodec : (node config).codec = config.txCodec := rfl
    unfold executeOne
    rw [hcodec, hnormal]
  | some normalized =>
    cases normalized with
    | depositedTx deposit =>
      rw [eq_deposit_of_depositedTx hnormal] at huser
      cases huser
    | canonical tx =>
      obtain ⟨next, hone, hlimit⟩ := canonical_passes h hsound hitem hnormal
      exact ⟨next, hone, hlimit.trans (hgas tx hnormal)⟩

end Passes

section Builds

variable {γ X τ : Type} {config : NodeConfig γ X τ} {occurs : Storage → Prop}

/-- Every pass of the loop leaves a sound state. -/
theorem sound_of_pass (h : Reliable config occurs) {blocks : List ExtendedBlock} {batch : Batch}
    {progress next : Progress ChainState} {item : Item}
    (hsound : Sound config occurs progress.state)
    (hone : executeOne (node config) blocks batch progress item = some next) :
    Sound config occurs next.state := by
  refine ⟨triesOpen_of_pass h.evm hsound.tries hone, ?_⟩
  rcases executeOne_executes (node config) blocks batch hone with
    rfl | ⟨normalized, outcome, receipt, hexecutes⟩
  · exact hsound.backed
  · rw [← Option.some.inj hexecutes.applies]
    cases normalized with
    | canonical tx =>
      obtain ⟨result, hresult, rfl⟩ := accepted_canonical hexecutes.accepted
      exact backed_canonical h.mints hsound.backed hresult
    | depositedTx tx =>
      obtain ⟨result, hresult, rfl⟩ := accepted_deposit hexecutes.accepted
      exact backed_deposit hsound.backed hresult

/-- What must hold of a batch: its deposits are covered, and each user transaction leaves the gas
of the block in bounds even if it uses its whole limit. -/
structure BatchSafe (config : NodeConfig γ X τ) (app : App ChainState) (items : List Item)
    (baseFee : U256) (blockHeader : HeaderForExecution) : Prop where
  deposits : ∀ before item after tx, items = before ++ item :: after → item.tx = .deposit tx →
    Covered config app baseFee blockHeader before item after tx
  gas : ∀ before item after tx, items = before ++ item :: after →
    NormalizedExtendedTxEnvelope.ofEnvelope config.txCodec item.tx = some (.canonical tx) →
    ∀ batch progress, batchFor items baseFee blockHeader = some batch →
      runBatch (node config) app.blocks batch before (.start app.state) = some progress →
      progress.cumulativeGasUsed + tx.gasLimit ≤ maxU64

theorem headL1Fee_of_safe {app : App ChainState} {items : List Item} {baseFee : U256}
    {blockHeader : HeaderForExecution} (hsafe : BatchSafe config app items baseFee blockHeader) :
    (headL1Fee items).isSome := by
  cases items with
  | nil => rfl
  | cons item rest =>
    cases htx : item.tx with
    | deposit tx =>
      apply (headL1Fee_isSome_iff htx rest).mpr
      exact (hsafe.deposits [] item rest tx rfl htx).calldata rfl
    | _ => simp [headL1Fee, htx, OpTxEnvelope.asDeposit]

/-- No pass of a safe batch stops. -/
theorem passes_of_safe (h : Reliable config occurs) {app : App ChainState} {items : List Item}
    {baseFee : U256} {blockHeader : HeaderForExecution}
    (hsafe : BatchSafe config app items baseFee blockHeader)
    (hitems : ∀ item ∈ items, item.tx.asDeposit = none → Recoverable config item.tx)
    {batch : Batch} (hbatch : batchFor items baseFee blockHeader = some batch)
    {before after : List Item} {item : Item} (hsplit : items = before ++ item :: after)
    {progress : Progress ChainState}
    (hbefore : runBatch (node config) app.blocks batch before (.start app.state) = some progress)
    (hsound : Sound config occurs progress.state) (hlimit : progress.cumulativeGasUsed ≤ maxU64) :
    ∃ next, executeOne (node config) app.blocks batch progress item = some next ∧
      next.cumulativeGasUsed ≤ maxU64 := by
  cases hdeposit : item.tx.asDeposit with
  | none =>
    have hmem : item ∈ items := by simp [hsplit]
    refine user_passes h hsound hdeposit (hitems item hmem hdeposit) (fun tx hnormal => ?_) hlimit
    exact hsafe.gas before item after tx hsplit hnormal batch progress hbatch hbefore
  | some tx =>
    have htx := OpTxEnvelope.asDeposit_eq_some.mp hdeposit
    have hcovered := (hsafe.deposits before item after tx hsplit htx).deposit batch progress
      (hsplit ▸ hbatch) hbefore
    obtain ⟨next, receipt, hone, -, -, hnext⟩ := (getsReceipt_iff h.evm hsound.tries htx).mpr hcovered
    exact ⟨next, hone, hnext⟩

/-- A safe batch of deposits and user transactions runs to its end. -/
theorem executeTransactions_isSome (h : Reliable config occurs) {app : App ChainState}
    (hsound : Sound config occurs app.state) {items : List Item} {baseFee : U256}
    {blockHeader : HeaderForExecution} (hsafe : BatchSafe config app items baseFee blockHeader)
    (hitems : ∀ item ∈ items, item.tx.asDeposit = none → Recoverable config item.tx) :
    ∃ final, executeTransactions (node config) app items baseFee blockHeader = some final ∧
      final.cumulativeGasUsed ≤ maxU64 := by
  obtain ⟨batch, hbatch⟩ := batchFor_of_headL1Fee (headL1Fee_of_safe hsafe) baseFee blockHeader
  have hruns : ∃ final,
      runBatch (node config) app.blocks batch items (.start app.state) = some final ∧
      Sound config occurs final.state ∧ final.cumulativeGasUsed ≤ maxU64 := by
    refine runBatch_of_steps (node config) app.blocks batch (P := fun _ progress =>
      Sound config occurs progress.state ∧ progress.cumulativeGasUsed ≤ maxU64)
      ⟨hsound, Nat.zero_le _⟩ ?_
    rintro before item after progress hsplit hbefore ⟨hprogress, hlimit⟩
    obtain ⟨next, hone, hnext⟩ :=
      passes_of_safe h hsafe hitems hbatch hsplit hbefore hprogress hlimit
    exact ⟨next, hone, sound_of_pass h hprogress hone, hnext⟩
  obtain ⟨final, hfinal, -, hlimit⟩ := hruns
  refine ⟨final, ?_, hlimit⟩
  simp [executeTransactions, hbatch, hfinal]

/-- What must hold of a build: the payload has deposits only, and there is a parent with a base fee
after it. -/
structure BuildSafe (config : NodeConfig γ X τ) (app : App ChainState) (attributes : Payload)
    (drained : List Item) : Prop where
  payload : ∀ item ∈ attributes.transactions.filterMap (payloadItem config.txCodec),
    item.tx.asDeposit.isSome
  batch : ∃ parent baseFee, latestBlock app.blocks = some parent ∧
    baseFeeAfter (node config) parent = some baseFee ∧
    BatchSafe config app (collectTransactions (node config) app attributes drained) baseFee
      (headerForExecution parent attributes)

theorem recoverable_of_collected {app : App ChainState} {attributes : Payload}
    {drained : List Item} (hsafe : BuildSafe config app attributes drained)
    (hdrained : ∀ item ∈ drained, Recoverable config item.tx) :
    ∀ item ∈ collectTransactions (node config) app attributes drained,
      item.tx.asDeposit = none → Recoverable config item.tx := by
  intro item hitem huser
  rcases List.mem_append.mp (List.mem_of_mem_filter hitem) with hpayload | hpool
  · have hdeposit := hsafe.payload item hpayload
    rw [huser] at hdeposit
    cases hdeposit
  · exact hdrained item hpool

/-- A safe build over a sound state gives a block. -/
theorem buildBlock_isSome (h : Reliable config occurs) {app : App ChainState}
    (hsound : Sound config occurs app.state) {attributes : Payload} {drained : List Item}
    (hsafe : BuildSafe config app attributes drained)
    (hdrained : ∀ item ∈ drained, Recoverable config item.tx) (id : ℕ) :
    (buildBlock (node config) app attributes id drained).isSome := by
  obtain ⟨parent, baseFee, hparent, hbaseFee, hbatch⟩ := hsafe.batch
  obtain ⟨final, hfinal, hlimit⟩ := executeTransactions_isSome h hsound hbatch
    (recoverable_of_collected hsafe hdrained)
  have hfits : ¬ maxU64 < final.cumulativeGasUsed := not_lt.mpr hlimit
  simp [buildBlock, hparent, hbaseFee, hfinal, hfits]

end Builds

section Runs

variable {γ X τ : Type} {config : NodeConfig γ X τ} {occurs : Storage → Prop}
variable {genesis : ChainState}

/-- The envelope is not a blob transaction, and its signer can be recovered. -/
def Admissible (config : NodeConfig γ X τ) (tx : TxEnvelope) : Prop :=
  ∃ envelope, OpTxEnvelope.tryFromEthEnvelope tx = some envelope ∧ Recoverable config envelope

/-- Runs of commands with admissible transactions and safe builds. -/
inductive SafeRuns (config : NodeConfig γ X τ) (genesis : ChainState) : App ChainState → Prop
  | start : SafeRuns config genesis ⟨genesis, [], [], [], []⟩
  | genesisUpdate {app : App ChainState} (block : ExtendedBlock) : SafeRuns config genesis app →
      SafeRuns config genesis (genesisUpdate app block)
  | addTransaction {app next : App ChainState} {tx : TxEnvelope} : SafeRuns config genesis app →
      Admissible config tx → addTransaction (node config) app tx = some next →
      SafeRuns config genesis next
  | startBlockBuild {app next : App ChainState} {attributes : Payload} {id : ℕ}
      {drained : List Item} : SafeRuns config genesis app → drained.Perm app.memPool →
      BuildSafe config app attributes drained →
      startBlockBuild (node config) app attributes id drained = some next →
      SafeRuns config genesis next

theorem SafeRuns.runs {app : App ChainState} (h : SafeRuns config genesis app) :
    ∃ executed, Runs (node config) genesis app executed := by
  induction h with
  | start => exact ⟨[], .start⟩
  | genesisUpdate block _ ih =>
    obtain ⟨executed, hrun⟩ := ih
    exact ⟨executed, .genesisUpdate hrun⟩
  | addTransaction _ _ hadd ih =>
    obtain ⟨executed, hrun⟩ := ih
    exact ⟨executed, .addTransaction hrun hadd⟩
  | startBlockBuild _ hperm _ hbuild ih =>
    obtain ⟨executed, hrun⟩ := ih
    exact ⟨_, .startBlockBuild hrun hperm hbuild⟩

theorem SafeRuns.sound {app : App ChainState} (hreliable : Reliable config occurs)
    (hgenesis : Sound config occurs genesis) (h : SafeRuns config genesis app) :
    Sound config occurs app.state := by
  obtain ⟨executed, hrun⟩ := h.runs
  exact hrun.keeps (P := fun state _ => Sound config occurs state) hgenesis
    fun _ _ _ _ _ _ hsound hone => sound_of_pass hreliable hsound hone

/-- What was admitted: the mempool has user transactions whose signer can be recovered, and every
stored transaction has a sender. -/
structure Admitted (config : NodeConfig γ X τ) (app : App ChainState) : Prop where
  memPool : ∀ item ∈ app.memPool, Recoverable config item.tx
  stored : ∀ stored ∈ app.transactions, (stored.sender config.txCodec).isSome

theorem sender_isSome {stored : ExtendedTransaction} {tx : OpTxEnvelope} (htx : tx = stored.inner)
    (h : tx.asDeposit = none → Recoverable config tx) :
    (stored.sender config.txCodec).isSome := by
  subst htx
  unfold ExtendedTransaction.sender
  cases hinner : stored.inner with
  | deposit deposit => rfl
  | _ =>
    rw [hinner] at h
    obtain ⟨signer, hsigner, -⟩ := (h rfl).signer
    simp [hsigner]

theorem SafeRuns.admitted {app : App ChainState} (h : SafeRuns config genesis app) :
    Admitted config app := by
  induction h with
  | start => exact ⟨by simp, by simp⟩
  | genesisUpdate block _ ih => exact ⟨ih.memPool, ih.stored⟩
  | @addTransaction app next tx _ hadmissible hadd ih =>
    obtain ⟨envelope, henvelope, hrecoverable⟩ := hadmissible
    obtain ⟨item, hitem, hnext⟩ := Option.bind_eq_some_iff.mp hadd
    obtain ⟨inner, hinner, hsome⟩ := Option.bind_eq_some_iff.mp hitem
    obtain rfl := Option.some.inj (henvelope.symm.trans hinner)
    obtain rfl := Option.some.inj hsome
    obtain rfl := Option.some.inj hnext
    refine ⟨fun other hother => ?_, ih.stored⟩
    rcases List.mem_append.mp hother with hold | hnew
    · exact ih.memPool other (List.mem_of_mem_filter hold)
    · rw [List.mem_singleton.mp hnew]
      exact hrecoverable
  | @startBlockBuild app next attributes id drained _ hperm hsafe hbuild ih =>
    rcases startBlockBuild_cases (node config) hbuild with ⟨-, rfl⟩ | ⟨-, built, hblock, rfl⟩
    · exact ih
    · refine ⟨by simp [App.withBlock], fun stored hstored => ?_⟩
      rcases List.mem_append.mp hstored with hold | hnew
      · exact ih.stored stored hold
      · obtain ⟨item, hitem, hinner⟩ := item_of_stored (node config) hblock hnew
        refine sender_isSome hinner (recoverable_of_collected hsafe ?_ item hitem)
        exact fun other hother => ih.memPool other (hperm.mem_iff.mp hother)

end Runs

section Samples

open FailedTransactions GasPrices Extraction LedgerMirror

theorem revertingRevm_reverts {lib : TrieLibrary} {ctx ctx' : NativeEVMContext} {args : CallArgs}
    {outcome : ResultAndState}
    (h : evmTransactWithNative revertingRevm lib ctx args = (.ok outcome, ctx')) :
    outcome.result = .revert 30000 [] := by
  obtain ⟨machine, cache, final, -, hfinish, -⟩ := finished_of_transact _ _ h
  have hresult := (Prod.mk.inj hfinish).1
  rw [← Except.ok.inj (Except.ok.inj hresult)]

theorem sampleConfig_reliable : Reliable sampleConfig noStorage where
  evm := {
    lawful := sampleLib_lawful fun _ h => .inl h
    reports := reportsWithin_singleton rfl fun _ => rfl
    entryFunction := fun _ _ => Keeps.fail _
    script := fun _ _ => Keeps.fail _ }
  lawful := ⟨canonicalEnv_lawful.gasBound, fun _ _ => Keeps.fail _, fun _ _ => Keeps.fail _⟩
  mints := ⟨fun _ _ => Keeps.fail _, fun _ _ => Keeps.fail _⟩
  vm := {
    function := fun _ _ _ h => by cases h
    loadScript := fun _ _ _ _ h => ⟨_, (Except.error.inj h).symm⟩
    script := fun _ _ _ _ h => by cases h
    arguments := fun _ _ h => by cases h
    bundle := fun _ _ _ _ h => by cases h
    created := fun _ _ _ _ _ hrun _ _ _ _ hresult => by
      rw [revertingRevm_reverts hrun] at hresult
      cases hresult }
  treasury := {
    native := by decide
    evm := fun _ _ _ _ _ t ht => absurd ht (List.not_mem_nil)
    entryFunction := fun _ _ _ _ _ _ _ => Keeps.fail _
    script := fun _ _ _ _ _ _ => Keeps.fail _ }

theorem total_sampleChain : total sampleChain.move = 2000000000000000000 := by
  have hsigner : balances sampleChain.move (toMoveAddress sampleSigner) = 2000000000000000000 := by
    decide +kernel
  rw [← hsigner, total]
  refine finsum_eq_single _ _ fun a ha => ?_
  show balances sampleChain.move a = 0
  unfold balances sampleChain
  dsimp only
  rw [if_neg ha]
  rfl

theorem sampleChain_sound : Sound sampleConfig noStorage sampleChain where
  tries := fun _ => ⟨_, rfl, stores_empty _⟩
  backed := ⟨total_sampleChain.le, by decide +kernel⟩

/-- A transaction as its sender submits it. -/
def submitted : OpTxEnvelope → TxEnvelope
  | .legacy tx => .legacy tx
  | .eip2930 tx => .eip2930 tx
  | .eip1559 tx => .eip1559 tx
  | .eip7702 tx => .eip7702 tx
  | .deposit _ => .eip4844 []

theorem sampleTx_admissible : Admissible sampleConfig (submitted sampleTx) := by
  refine ⟨sampleTx, rfl, ⟨sampleSigner, by decide +kernel, by decide +kernel, by decide +kernel⟩,
    fun normalized hnormal => ?_⟩
  rw [sample_normalized] at hnormal
  rw [← NormalizedExtendedTxEnvelope.canonical.inj (Option.some.inj hnormal)]
  decide

/-- The sample transaction as it lies in the mempool. -/
def poolSample : Item := ⟨sampleHash, sampleTx, .ofBytes sampleBytes⟩

/-- The node of a base fee of 7 wei, with one transaction pending. -/
def withPending (item : Item) : App ChainState := { appWithBaseFee 7 with memPool := [item] }

example : poolItem sampleConfig.txCodec (submitted sampleTx) = some poolSample := by
  decide +kernel

theorem addTransaction_pending {tx : TxEnvelope} {item : Item}
    (h : poolItem sampleConfig.txCodec tx = some item) :
    addTransaction (node sampleConfig) (appWithBaseFee 7) tx = some (withPending item) := by
  have hcodec : (node sampleConfig).codec = sampleConfig.txCodec := rfl
  rw [addTransaction, hcodec, h]
  rfl

theorem appWithBaseFee_safe : SafeRuns sampleConfig sampleChain (appWithBaseFee 7) :=
  SafeRuns.genesisUpdate _ .start

theorem withSample_safe : SafeRuns sampleConfig sampleChain (withPending poolSample) := by
  refine appWithBaseFee_safe.addTransaction sampleTx_admissible (addTransaction_pending ?_)
  decide +kernel

/-- A block of the sample transaction alone is safe to build. -/
theorem buildSafe_sample :
    BuildSafe sampleConfig (withPending poolSample) (samplePayload []) [poolSample] := by
  have hbase : baseFeeAfter (node sampleConfig)
      ⟨0, 0, 0, { sampleHeader with baseFeePerGas := some 7 }, []⟩ = some 7 := by
    decide +kernel
  have hitems : collectTransactions (node sampleConfig) (withPending poolSample)
      (samplePayload []) [poolSample] = [poolSample] := rfl
  have hsingle : ∀ before item after, [poolSample] = before ++ item :: after →
      before = [] ∧ item = poolSample := by
    intro before item after hsplit
    rcases List.append_eq_singleton_iff.mp hsplit.symm with ⟨hnil, hitem⟩ | ⟨-, hnil⟩
    · exact ⟨hnil, (List.cons.inj hitem).1⟩
    · cases hnil
  refine ⟨by simp [samplePayload], _, _, rfl, hbase, ?_, ?_⟩
  · intro before item after tx hsplit htx
    obtain ⟨-, rfl⟩ := hsingle _ _ _ (hitems.symm.trans hsplit)
    cases htx
  · intro before item after tx hsplit _ batch progress _ hbefore
    obtain ⟨rfl, -⟩ := hsingle _ _ _ (hitems.symm.trans hsplit)
    obtain rfl : Progress.start sampleChain = progress := Option.some.inj hbefore
    have hstart : (Progress.start sampleChain).cumulativeGasUsed = 0 := rfl
    have hlimit := gasLimit_le tx
    omega

/-- A transaction without a signature as it lies in the mempool. -/
def poolUnsigned : Item := ⟨unsignedHash, unsignedTx, .ofBytes unsignedBytes⟩

end Samples

end OpMove.UserTransactions
