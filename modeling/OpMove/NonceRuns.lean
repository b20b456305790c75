import OpMove.GasPrices

/-!
Sequence numbers over whole runs of the node. A transaction is accepted only with the
sequence number its sender has, and then the number goes up by one, whatever its payload
does; a deposit and a rejected transaction leave it alone. So the transactions of a sender
that got a receipt carry consecutive nonces in the order of the chain.
-/

namespace OpMove.NonceRuns

open Primitives GasFees Transactions Errors NativeEvm FailingActions Sessions EthToken EvmModule
open Canonical SessionProgress FeeSettlement CanonicalRuns Deposits
open BlockBuilding BlockAgreement Node

section Sessions

variable {γ X τ : Type} {env : CanonicalEnv γ X τ} {input : CanonicalExecutionInput}

/-- The sequence number of an account; one that is not there yet starts at zero. -/
def nonceOf (state : MoveState) (a : AccountAddress) : ℕ := (state.sequenceNumbers a).getD 0

def SameNonces (s s' : Session γ) : Prop := ∀ a, nonceOf s'.move a = nonceOf s.move a

instance : IsPreorder (Session γ) SameNonces where
  refl _ _ := rfl
  trans _ _ _ h h' a := (h' a).trans (h a)

/-- User code can create accounts, but only the framework can increment their numbers. -/
structure NoncesKept (env : CanonicalEnv γ X τ) : Prop where
  entryFunction : ∀ entryFn args, Keeps SameNonces (env.vm.runEntryFunction entryFn args)
  script : ∀ script args, Keeps SameNonces (env.vm.runScript script args)

theorem nonces_chargeGas (meter : GasMeter γ) (charge : Charge) :
    Keeps SameNonces (chargeGas meter charge) := by
  intro s a
  unfold chargeGas
  split <;> rfl

theorem writesKeep_nonces (meter : GasMeter γ) : WritesKeep meter SameNonces where
  charge := nonces_chargeGas meter
  emit _ := Keeps.bind (nonces_chargeGas meter _) fun _ _ _ => rfl
  setStore _ _ := Keeps.bind (nonces_chargeGas meter _) fun _ _ _ => rfl
  setSupply _ := Keeps.bind (nonces_chargeGas meter _) fun _ _ _ => rfl
  evm _ _ _ := rfl

theorem nonceOf_payEth (source target : AccountAddress) (amount : U256) (state : MoveState)
    (a : AccountAddress) : nonceOf (payEth source target amount state) a = nonceOf state a := by
  unfold payEth
  split_ifs
  · rfl
  · unfold paid ensured
    split_ifs <;> rfl

theorem nonceOf_nextNonce (sender : AccountAddress) (state : MoveState) (a : AccountAddress) :
    nonceOf (nextNonce sender state) a = nonceOf state a + if a = sender then 1 else 0 := by
  unfold nonceOf nextNonce
  by_cases ha : a = sender
  · subst ha
    simp
  · simp [ha]

/-- Only the current number passes the check, and only while it can be incremented. -/
theorem nonce_of_checkNonce {meter : GasMeter γ} {txNonce : ℕ} {signer : AccountAddress}
    {s s' : Session γ} (h : checkNonce meter txNonce signer s = (.ok (), s')) :
    txNonce = nonceOf s.move signer ∧ txNonce < maxU64 := by
  obtain ⟨_, created, hcreate, h⟩ := bind_ok.mp h
  obtain ⟨nonce, read, hget, h⟩ := bind_ok.mp h
  obtain ⟨hnonce, rfl⟩ := getSequenceNumber_ok (mapError_ok.mp hget)
  have hcreated := ran_of_createAccountIfDoesNotExist (mapError_ok.mp hcreate)
  have hfirst : nonceOf s.move signer = nonce := by
    rw [hcreated.move] at hnonce
    simpa [nonceOf] using hnonce
  split_ifs at h with hwrong hlast
  · exact (fail_ok.mp h).elim
  · exact (fail_ok.mp h).elim
  · obtain ⟨nonce', read, hget', h⟩ := bind_ok.mp (mapError_ok.mp h)
    obtain ⟨hnonce', rfl⟩ := getSequenceNumber_ok hget'
    split_ifs at h with hbig
    · exact (fail_ok.mp h).elim
    · rw [hnonce, Option.some.injEq] at hnonce'
      omega

theorem nonce_of_verifyTransaction {verified : Session γ}
    (h : verifyTransaction env input (startCanonical env input) = (.ok (), verified)) :
    input.tx.nonce = nonceOf input.state.move input.sender ∧ input.tx.nonce < maxU64 := by
  obtain ⟨_, checked, hcheck, h⟩ := bind_ok.mp h
  obtain ⟨_, charged, hcharge, h⟩ := bind_ok.mp h
  obtain ⟨_, paidL1, hl1, h⟩ := bind_ok.mp h
  obtain ⟨_, paidL2, hl2, hnonce⟩ := bind_ok.mp h
  have hchecked : SameNonces _ checked :=
    Keeps.run (Keeps.ite (Keeps.fail _) (Keeps.pure ())) hcheck
  have hcharged : SameNonces checked charged := Keeps.run
    ((Keeps.bind (nonces_chargeGas _ _) fun _ => nonces_chargeGas _ _).mapError _) hcharge
  have hfee := (writesKeep_nonces (unmeteredGasMeter : GasMeter γ)).transferEth input.sender
    input.ethTreasury
  have hpaidL1 : SameNonces charged paidL1 := ((hfee _).mapError _).run hl1
  have hpaidL2 : SameNonces paidL1 paidL2 := ((hfee _).mapError _).run hl2
  have hsame : nonceOf paidL2.move input.sender = nonceOf input.state.move input.sender := by
    rw [hpaidL2, hpaidL1, hcharged, hchecked]
    rfl
  rw [← hsame]
  exact nonce_of_checkNonce hnonce

/-- An accepted transaction carries the number of its sender and increments it; no other
number changes. -/
theorem nonces_of_canonical {outcome : TransactionExecutionOutcome} (hvm : NoncesKept env)
    (h : executeCanonicalTransaction env input = .ok outcome) :
    input.tx.nonce = nonceOf input.state.move input.sender ∧ input.tx.nonce < maxU64 ∧
      ∀ a, nonceOf outcome.move a =
        nonceOf input.state.move a + if a = input.sender then 1 else 0 := by
  obtain ⟨data, verified, afterPayload, run, settled, payload, vmOutcome, haccepted⟩ :=
    acceptedRun_of_ok h
  obtain ⟨hnonce, hlt⟩ := nonce_of_verifyTransaction haccepted.verifies
  refine ⟨hnonce, hlt, fun a => ?_⟩
  obtain ⟨-, -, hverified⟩ := ran_of_verifyTransaction haccepted.verifies
  have hpayload : SameNonces verified run := haccepted.keeps
    ((writesKeep_nonces _).stepsKeep hvm.entryFunction hvm.script)
  obtain ⟨-, hrefund⟩ := haccepted.ran_refund
  obtain ⟨-, hmove, -⟩ := finishCanonical_ok haccepted.finishes
  have hfinal : nonceOf outcome.move a = nonceOf settled.move a := by
    rw [hmove]
    rfl
  rw [hfinal, hrefund.move, nonceOf_payEth, hpayload, hverified.move, verifiedState,
    nonceOf_nextNonce, nonceOf_payEth, nonceOf_payEth]
  rfl

theorem nonces_of_deposit {nodeEnv : NodeEnv γ} {revm : Revm X} {state : ChainState}
    {hashByNumber : ℕ → Option B256} {blockHeader : HeaderForExecution} {tx : TxDeposit}
    {outcome : TransactionExecutionOutcome}
    (h : executeDepositedTransaction nodeEnv revm state hashByNumber blockHeader tx = .ok outcome)
    (a : AccountAddress) : nonceOf outcome.move a = nonceOf state.move a := by
  obtain ⟨target, hmove⟩ := move_of_deposit h
  have hwrites := writesKeep_nonces nodeEnv.meter
  have hkept := keeps_depositPayload nodeEnv revm (hwrites.nativeEvmTransact revm nodeEnv.lib)
    hwrites.mintEth hwrites.replicateTransfers tx target
  rw [hmove]
  exact hkept _ a

end Sessions

section Runs

variable {σ χ : Type} (env : Env σ χ)

/-- What a call of `start_block_build` executes. -/
def executedItems (app : App σ) (attributes : Payload) (id : ℕ) (drained : List Item) :
    List Item :=
  if app.isBuilt id then []
  else ((buildBlock env app attributes id drained).map fun built => built.executed).getD []

/-- The applications reached from a genesis state, with everything executed on the way. -/
inductive Runs (genesis : σ) : App σ → List Item → Prop
  | start : Runs genesis ⟨genesis, [], [], [], []⟩ []
  | startBlockBuild {app next : App σ} {executed drained : List Item} {attributes : Payload}
      {id : ℕ} : Runs genesis app executed → drained.Perm app.memPool →
      startBlockBuild env app attributes id drained = some next →
      Runs genesis next (executed ++ executedItems env app attributes id drained)
  | addTransaction {app next : App σ} {executed : List Item} {tx : TxEnvelope} :
      Runs genesis app executed → addTransaction env app tx = some next →
      Runs genesis next executed
  | genesisUpdate {app : App σ} {executed : List Item} {block : ExtendedBlock} :
      Runs genesis app executed → Runs genesis (genesisUpdate app block) executed

variable {env}

/-- A property of the state and of what was executed holds in every run when each pass of
the loop keeps it. -/
theorem Runs.keeps {P : σ → List Item → Prop} {genesis : σ} {app : App σ} {executed : List Item}
    (hrun : Runs env genesis app executed) (hstart : P genesis [])
    (hpass : ∀ blocks batch progress next item before,
      P progress.state (before ++ progress.executed) →
      executeOne env blocks batch progress item = some next →
      P next.state (before ++ next.executed)) : P app.state executed := by
  induction hrun with
  | start => exact hstart
  | @startBlockBuild app next executed drained attributes id _ _ hbuild ih =>
    rcases startBlockBuild_cases env hbuild with ⟨hbuilt, rfl⟩ | ⟨hbuilt, built, hblock, rfl⟩
    · rw [executedItems, if_pos hbuilt, List.append_nil]
      exact ih
    · rw [executedItems, hbuilt, hblock]
      obtain ⟨batch, progress, hbatch, hstate, hexecuted⟩ := buildBlock_run env hblock
      show P built.state (executed ++ built.executed)
      rw [hstate, hexecuted]
      refine runBatch_keeps env app.blocks batch
        (P := fun progress => P progress.state (executed ++ progress.executed)) ?_ hbatch ?_
      · intro item _ progress next hprogress hone
        exact hpass app.blocks batch progress next item executed hprogress hone
      · rw [Progress.start, List.append_nil]
        exact ih
  | addTransaction _ hadd ih =>
    obtain ⟨item, -, hsome⟩ := Option.bind_eq_some_iff.mp hadd
    rw [← Option.some.inj hsome]
    exact ih
  | genesisUpdate _ ih => exact ih

/-- What was executed has a receipt each, in the same order, and nothing else has one. -/
theorem Runs.receipts {genesis : σ} {app : App σ} {executed : List Item}
    (hrun : Runs env genesis app executed) :
    app.receipts.map (fun receipt => receipt.transactionHash) =
      executed.map fun item => item.txHash := by
  induction hrun with
  | start => rfl
  | @startBlockBuild app next executed drained attributes id _ _ hbuild ih =>
    rcases startBlockBuild_cases env hbuild with ⟨hbuilt, rfl⟩ | ⟨hbuilt, built, hblock, rfl⟩
    · rw [executedItems, if_pos hbuilt, List.append_nil]
      exact ih
    · obtain ⟨_, _, batch, progress, -, -, -, hbatch, hexecuted, hreceipts, -⟩ :=
        buildBlock_spec env hblock
      obtain ⟨done, receipts, hdone, hnew, hpairs, -⟩ := runBatch_spec env app.blocks batch hbatch
      have hhashes : receipts.map (fun receipt => receipt.transactionHash) =
          done.map fun item => item.txHash := by
        have hfirst := congrArg (List.map Prod.fst) hpairs
        simpa only [List.map_map, Function.comp_def] using hfirst
      rw [executedItems, hbuilt, hblock]
      show (app.receipts ++ built.receipts).map _ = (executed ++ built.executed).map _
      rw [List.map_append, List.map_append, ih, hexecuted, hdone, hreceipts, hnew, List.map_map]
      congr 1
  | addTransaction _ hadd ih =>
    obtain ⟨item, -, hsome⟩ := Option.bind_eq_some_iff.mp hadd
    rw [← Option.some.inj hsome]
    exact ih
  | genesisUpdate _ ih => exact ih

end Runs

section Sequences

variable {γ X τ : Type} {config : NodeConfig γ X τ}

/-- The nonce of a canonical transaction of the sender. -/
def nonceFrom (codec : Codec) (sender : Address) (item : Item) : Option ℕ :=
  match NormalizedExtendedTxEnvelope.ofEnvelope codec item.tx with
  | some (.canonical tx) => if tx.signer = sender then some tx.nonce else none
  | _ => none

def noncesFrom (codec : Codec) (sender : Address) (executed : List Item) : List ℕ :=
  executed.filterMap (nonceFrom codec sender)

/-- The executed nonces of the sender count up from the first one, without gap or
repetition, and the stored number is the next one. -/
structure InSequence (codec : Codec) (sender : Address) (first : ℕ) (state : ChainState)
    (executed : List Item) : Prop where
  nonces : noncesFrom codec sender executed =
    List.range' first (noncesFrom codec sender executed).length
  stored : nonceOf state.move (toMoveAddress sender) =
    first + (noncesFrom codec sender executed).length
  fits : nonceOf state.move (toMoveAddress sender) ≤ maxU64

/-- What one pass does to the sequence of a sender: nothing, or its next nonce. -/
theorem nonce_of_pass {blocks : List ExtendedBlock} {batch : Batch}
    {progress next : Progress ChainState} {item : Item}
    {normalized : NormalizedExtendedTxEnvelope} {outcome : Outcome TransactionExecutionOutcome}
    {receipt : ExtendedReceipt} (hvm : NoncesKept config.toCanonicalEnv) (sender : Address)
    (h : Executes (node config) blocks batch progress next item normalized outcome receipt) :
    (nonceFrom config.txCodec sender item = none ∧
      nonceOf next.state.move (toMoveAddress sender) =
        nonceOf progress.state.move (toMoveAddress sender)) ∨
    (nonceFrom config.txCodec sender item =
        some (nonceOf progress.state.move (toMoveAddress sender)) ∧
      nonceOf progress.state.move (toMoveAddress sender) < maxU64 ∧
      nonceOf next.state.move (toMoveAddress sender) =
        nonceOf progress.state.move (toMoveAddress sender) + 1) := by
  have hnormal : NormalizedExtendedTxEnvelope.ofEnvelope config.txCodec item.tx =
    some normalized := h.normal
  have happlied : next.state.move = outcome.changes.move := by
    rw [← Option.some.inj h.applies]
    rfl
  have haccepted := h.accepted
  unfold nonceFrom
  rw [hnormal, happlied]
  cases normalized with
  | depositedTx tx =>
    obtain ⟨result, hresult, rfl⟩ := accepted_deposit haccepted
    exact Or.inl ⟨rfl, nonces_of_deposit hresult _⟩
  | canonical tx =>
    obtain ⟨result, hresult, rfl⟩ := accepted_canonical haccepted
    obtain ⟨hnonce, hlt, hnext⟩ := nonces_of_canonical hvm hresult
    have hstored := hnext (toMoveAddress sender)
    change nonceOf result.move (toMoveAddress sender) = nonceOf progress.state.move _ +
      if toMoveAddress sender = toMoveAddress tx.signer then 1 else 0 at hstored
    change tx.nonce = nonceOf progress.state.move (toMoveAddress tx.signer) at hnonce
    by_cases hsender : tx.signer = sender
    · subst hsender
      rw [if_pos rfl] at hstored
      rw [← hnonce] at hstored ⊢
      exact Or.inr ⟨if_pos rfl, hlt, hstored⟩
    · rw [if_neg fun h => hsender (toMoveAddress_injective h).symm] at hstored
      exact Or.inl ⟨if_neg hsender, hstored⟩

theorem inSequence_of_pass {blocks : List ExtendedBlock} {batch : Batch}
    {progress next : Progress ChainState} {item : Item} {sender : Address} {first : ℕ}
    {before : List Item} (hvm : NoncesKept config.toCanonicalEnv)
    (h : InSequence config.txCodec sender first progress.state (before ++ progress.executed))
    (hone : executeOne (node config) blocks batch progress item = some next) :
    InSequence config.txCodec sender first next.state (before ++ next.executed) := by
  rcases executeOne_executes (node config) blocks batch hone with
    rfl | ⟨normalized, outcome, receipt, hexecutes⟩
  · exact h
  obtain ⟨hnonces, hstored, hfits⟩ := h
  rw [hexecutes.executed, ← List.append_assoc]
  have hlast : noncesFrom config.txCodec sender (before ++ progress.executed ++ [item]) =
      noncesFrom config.txCodec sender (before ++ progress.executed) ++
        (nonceFrom config.txCodec sender item).toList := by
    unfold noncesFrom
    rw [List.filterMap_append]
    cases hnonce : nonceFrom config.txCodec sender item <;> simp [hnonce]
  rcases nonce_of_pass hvm sender hexecutes with ⟨hnone, hsame⟩ | ⟨hsome, hlt, hnext⟩
  · rw [hnone, Option.toList_none, List.append_nil] at hlast
    refine ⟨?_, ?_, ?_⟩
    · rw [hlast]
      exact hnonces
    · rw [hlast, hsame, hstored]
    · rw [hsame]
      exact hfits
  · rw [hsome, Option.toList_some] at hlast
    refine ⟨?_, ?_, ?_⟩
    · rw [hlast, List.length_append, List.length_singleton, List.range'_1_concat, ← hnonces,
        ← hstored]
    · rw [hlast, List.length_append, List.length_singleton, hnext, hstored, Nat.add_assoc]
    · omega

/-- An invalid transaction leaves everything as it was. -/
theorem executeOne_of_invalid {blocks : List ExtendedBlock} {batch : Batch}
    {progress : Progress ChainState} {item : Item} {normalized : NormalizedExtendedTxEnvelope}
    {cause : InvalidTransactionCause}
    (hnormal : NormalizedExtendedTxEnvelope.ofEnvelope config.txCodec item.tx = some normalized)
    (hinvalid : executeTransaction config progress.state blocks (batch.input item normalized) =
      .error (.invalidTransaction cause)) :
    executeOne (node config) blocks batch progress item = some progress := by
  unfold executeOne
  rw [show NormalizedExtendedTxEnvelope.ofEnvelope (node config).codec item.tx = some normalized
    from hnormal]
  dsimp only
  rw [show (node config).executeTransaction progress.state blocks (batch.input item normalized) =
    .error (.invalidTransaction cause) from hinvalid]

/-- In every run from genesis and for every sender, the executed transactions carry the
nonces from its first number on, one after the other; the stored number is the next one and
never wraps, and an invalid transaction changes nothing. -/
theorem nonces_in_sequence {genesis : ChainState} {app : App ChainState} {executed : List Item}
    (hvm : NoncesKept config.toCanonicalEnv) (hrun : Runs (node config) genesis app executed)
    (sender : Address) (hfits : nonceOf genesis.move (toMoveAddress sender) ≤ maxU64) :
    app.receipts.map (fun receipt => receipt.transactionHash) =
        executed.map (fun item => item.txHash) ∧
      InSequence config.txCodec sender (nonceOf genesis.move (toMoveAddress sender)) app.state
        executed ∧
      ∀ blocks batch progress item normalized cause,
        NormalizedExtendedTxEnvelope.ofEnvelope config.txCodec item.tx = some normalized →
        executeTransaction config progress.state blocks (batch.input item normalized) =
          .error (.invalidTransaction cause) →
        executeOne (node config) blocks batch progress item = some progress := by
  refine ⟨hrun.receipts, ?_, ?_⟩
  · refine hrun.keeps (P := fun state executed => InSequence config.txCodec sender
      (nonceOf genesis.move (toMoveAddress sender)) state executed) ⟨rfl, rfl, hfits⟩ ?_
    intro blocks batch progress next item before hprogress hone
    exact inSequence_of_pass hvm hprogress hone
  · intro blocks batch progress item normalized cause hnormal hinvalid
    exact executeOne_of_invalid hnormal hinvalid

end Sequences

section Samples

open GasPrices

theorem sampleConfig_noncesKept : NoncesKept sampleConfig.toCanonicalEnv :=
  ⟨fun _ _ => Keeps.fail _, fun _ _ => Keeps.fail _⟩

/-- The sample transaction, the tenth of its sender, is executed after genesis. -/
theorem nonces_in_sequence_sample :
    ∃ app, Runs (node sampleConfig) sampleChain app [sampleItem] ∧
      InSequence sampleConfig.txCodec sampleSigner 9 app.state [sampleItem] ∧
      noncesFrom sampleConfig.txCodec sampleSigner [sampleItem] = [9] := by
  let genesis : App ChainState := genesisUpdate ⟨sampleChain, [], [], [], []⟩
    ⟨0, 0, 0, { sampleHeader with baseFeePerGas := some 1000000000 }, []⟩
  have hitems : executedItems (node sampleConfig) genesis (samplePayload [sampleBytes]) 1 [] =
      [sampleItem] := by decide +kernel
  have hbuild : (startBlockBuild (node sampleConfig) genesis (samplePayload [sampleBytes]) 1
      []).isSome := by decide +kernel
  obtain ⟨app, happ⟩ := Option.isSome_iff_exists.mp hbuild
  have hrun : Runs (node sampleConfig) sampleChain app [sampleItem] := by
    have hstep := Runs.startBlockBuild (.genesisUpdate .start) (List.Perm.refl []) happ
    rw [List.nil_append, hitems] at hstep
    exact hstep
  obtain ⟨-, hsequence, -⟩ := nonces_in_sequence sampleConfig_noncesKept hrun sampleSigner
    (by decide +kernel)
  exact ⟨app, hrun, hsequence, by decide +kernel⟩

end Samples

end OpMove.NonceRuns
