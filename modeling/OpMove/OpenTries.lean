import OpMove.CleanFailures
import OpMove.NonceRuns

/-!
Storage tries that can always be opened. Extraction opens the trie of every account an EVM call
has touched, and a trie that does not open stops the node. The database of an account stores a
map when it is new; each extraction leaves one that stores a map again, as long as the state maps
of the EVM lead to storage maps on which the trie library is lawful. So in every run the EVM
changes of a session are extracted.
-/

namespace OpMove.OpenTries

open Primitives GasFees Transactions Errors StorageTries StateChanges Extraction NativeEvm
open FailingActions Sessions EthToken EvmModule Canonical SessionProgress FeeSettlement
open CanonicalRuns CleanFailures Deposits BlockBuilding BlockAgreement Node NonceRuns

section Databases

variable {lib : TrieLibrary} {occurs : Storage → Prop} {state : EvmState}

/-- The database of every account stores a map that occurs. -/
def TriesOpen (lib : TrieLibrary) (occurs : Storage → Prop) (state : EvmState) : Prop :=
  ∀ a, ∃ storage, occurs storage ∧ Stores lib (state.tries a) storage

/-- The accounts a map persists lead from a stored map to one that occurs. -/
def MapWithin (lib : TrieLibrary) (occurs : Storage → Prop) (state : EvmState)
    (map : StateMap) : Prop :=
  ∀ a account storage, persisted map a = some account → occurs storage →
    Stores lib (state.tries a) storage → occurs (slotsAfter storage account)

theorem extract_isSome (hlawful : lib.Lawful occurs) (hopen : TriesOpen lib occurs state)
    (keccak256 : Bytes → B256) (maps : List StateMap) :
    (extractEvmChanges lib keccak256 state maps).isSome := by
  choose storageOf hoccurs hstored using hopen
  choose opened hopens _ using fun a => forAccount_of_stores hlawful (hoccurs a) (hstored a)
  obtain ⟨final, hfold, -⟩ := extractMaps_spec lib keccak256 state
    (fun a => ⟨opened a, storageOf a⟩) hopens maps
  simp [extractEvmChanges, hfold]

/-- Extraction from maps within what occurs leaves tries that open. -/
theorem triesOpen_applyChanges (hlawful : lib.Lawful occurs) (hopen : TriesOpen lib occurs state)
    {keccak256 : Bytes → B256} {maps : List StateMap}
    (hwithin : ∀ map ∈ maps, MapWithin lib occurs state map) {changes : Changes}
    (h : extractEvmChanges lib keccak256 state maps = some changes) :
    TriesOpen lib occurs (applyChanges state changes) := by
  choose storageOf hoccurs hstored using hopen
  choose opened hopens hopened using fun a =>
    forAccount_of_stores hlawful (hoccurs a) (hstored a)
  obtain ⟨final, hfold, hextracted⟩ := extractMaps_spec lib keccak256 state
    (fun a => ⟨opened a, storageOf a⟩) hopens maps
  simp only [extractEvmChanges, hfold, Option.bind_eq_bind, Option.bind_some,
    Option.some.injEq] at h
  subst h
  intro a
  have haccounts : ∀ account ∈ persistedAll maps a, occurs (slotsAfter (storageOf a) account) := by
    intro account haccount
    obtain ⟨map, hmap, hpersisted⟩ := List.mem_filterMap.mp haccount
    exact hwithin map hmap a account (storageOf a) hpersisted (hoccurs a) (hstored a)
  obtain ⟨next, hnext, hstores⟩ :=
    stores_of_accounts hlawful (hoccurs a) (hstored a) (hopened a) haccounts
  refine ⟨next, hnext, ?_⟩
  have hchanges := hextracted.tries a
  simp only [trieChanges] at hchanges
  rw [← hchanges] at hstores
  simp only [applyChanges]
  cases hlookup : final.2.lookup a with
  | none =>
    rw [hlookup] at hstores
    exact hstores
  | some trieChanges =>
    rw [hlookup] at hstores
    exact hstores

end Databases

section Sessions

variable {γ X : Type} {lib : TrieLibrary} {occurs : Storage → Prop}

/-- The state below the EVM stays, and the maps that were added are within what occurs. -/
structure EvmExtends (lib : TrieLibrary) (occurs : Storage → Prop) (s s' : Session γ) : Prop where
  state : s'.evm.state = s.evm.state
  maps : ∃ more, s'.evm.stateChanges = s.evm.stateChanges ++ more ∧
    ∀ map ∈ more, MapWithin lib occurs s.evm.state map

instance : IsPreorder (Session γ) (EvmExtends lib occurs) where
  refl s := ⟨rfl, [], (List.append_nil _).symm, by simp⟩
  trans s s' s'' h h' := by
    obtain ⟨more, hmore, hwithin⟩ := h.maps
    obtain ⟨later, hlater, hwithin'⟩ := h'.maps
    refine ⟨h'.state.trans h.state, more ++ later, ?_, fun map hmap => ?_⟩
    · rw [hlater, hmore, List.append_assoc]
    · rcases List.mem_append.mp hmap with hfirst | hsecond
      · exact hwithin map hfirst
      · rw [← h.state]
        exact hwithin' map hsecond

theorem evmExtends_of_evm_eq {s s' : Session γ} (h : s'.evm = s.evm) :
    EvmExtends lib occurs s s' :=
  ⟨by rw [h], [], by rw [h, List.append_nil], by simp⟩

theorem evmExtends_chargeGas (meter : GasMeter γ) (charge : Charge) :
    Keeps (EvmExtends lib occurs) (chargeGas meter charge) := by
  intro s
  apply evmExtends_of_evm_eq
  unfold chargeGas
  split <;> rfl

theorem storesKeep_evmExtends (meter : GasMeter γ) :
    StoresKeep meter (EvmExtends lib occurs) where
  charge := evmExtends_chargeGas meter
  emit _ := Keeps.bind (evmExtends_chargeGas meter _) fun _ _ => evmExtends_of_evm_eq rfl
  setStore _ _ := Keeps.bind (evmExtends_chargeGas meter _) fun _ _ => evmExtends_of_evm_eq rfl
  setSupply _ := Keeps.bind (evmExtends_chargeGas meter _) fun _ _ => evmExtends_of_evm_eq rfl

/-- The EVM library reports maps within what occurs. -/
def ReportsWithin (lib : TrieLibrary) (occurs : Storage → Prop) (revm : Revm X) : Prop :=
  ∀ ctx args outcome ctx', evmTransactWithNative revm lib ctx args = (.ok outcome, ctx') →
    MapWithin lib occurs ctx.state outcome.state

theorem evmExtends_native {revm : Revm X} (hreports : ReportsWithin lib occurs revm)
    (meter : GasMeter γ) (caller : AccountAddress) (transactTo : TxKind) (value : U256)
    (data : Bytes) :
    Keeps (EvmExtends lib occurs)
      (nativeEvmTransact meter revm lib caller transactTo value data) := by
  refine keeps_nativeEvmTransact (evmExtends_chargeGas meter) fun s => ?_
  rcases hrun : evmTransactWithNative revm lib s.evm
    (callArgs meter s caller transactTo value data) with ⟨e | outcome, ctx⟩
  · obtain ⟨hstate, hchanges⟩ := evmTransactWithNative_error hrun
    exact ⟨hstate, [], by rw [List.append_nil]; exact hchanges, by simp⟩
  · obtain ⟨hstate, hchanges, -⟩ := evmTransactWithNative_ok hrun
    refine ⟨hstate, [outcome.state], hchanges, fun map hmap => ?_⟩
    rw [List.mem_singleton.mp hmap]
    exact hreports _ _ _ _ hrun

theorem evmExtends_replicate (meter : GasMeter γ) :
    Keeps (EvmExtends lib occurs) (replicateTransfers meter) :=
  keeps_replicateTransfers (fun _ _ => ⟨rfl, [], (List.append_nil _).symm, by simp⟩)
    (storesKeep_evmExtends meter).transferEth

/-- A session over tries that open has its changes extracted, and they leave tries that open. -/
theorem evmChanges_of_extends {env : NodeEnv γ} (hlawful : env.lib.Lawful occurs)
    {state : ChainState} {hashByNumber : ℕ → Option B256} {blockHeader : HeaderForExecution}
    {gasLimit : ℕ} (hopen : TriesOpen env.lib occurs state.evm) {s : Session γ}
    (h : EvmExtends env.lib occurs (createVmSession env state hashByNumber blockHeader gasLimit)
      s) :
    (evmChangesOf env s).isSome ∧ ∀ changes, evmChangesOf env s = some changes →
      TriesOpen env.lib occurs (applyChanges state.evm changes) := by
  have hstate : s.evm.state = state.evm := h.state
  obtain ⟨more, hmore, hwithin⟩ := h.maps
  have hmaps : s.evm.stateChanges = more := hmore
  unfold evmChangesOf
  rw [hstate, hmaps]
  refine ⟨extract_isSome hlawful hopen env.keccak256 more, fun changes hchanges => ?_⟩
  exact triesOpen_applyChanges hlawful hopen hwithin hchanges

end Sessions

section Passes

variable {γ X τ : Type} {config : NodeConfig γ X τ} {occurs : Storage → Prop}

/-- What is relied on outside the repository: the trie library is lawful on the maps that occur,
the EVM leads to no others, and user code reaches the EVM only through its native functions. -/
structure EvmReliable (config : NodeConfig γ X τ) (occurs : Storage → Prop) : Prop where
  lawful : config.lib.Lawful occurs
  reports : ReportsWithin config.lib occurs config.revm
  entryFunction : ∀ entryFn args,
    Keeps (EvmExtends config.lib occurs) (config.vm.runEntryFunction entryFn args)
  script : ∀ script args, Keeps (EvmExtends config.lib occurs) (config.vm.runScript script args)

theorem stepsKeep_evmExtends (h : EvmReliable config occurs) :
    StepsKeep config.toCanonicalEnv (EvmExtends config.lib occurs) where
  charge := evmExtends_chargeGas config.meter
  transfer := (storesKeep_evmExtends config.meter).transferEth
  evm := (storesKeep_evmExtends config.meter).systemEvmTransact
    (evmExtends_native h.reports config.meter)
  logs _ _ := ⟨rfl, [], (List.append_nil _).symm, by simp⟩
  entryFunction := h.entryFunction
  script := h.script

theorem evmExtends_depositPayload (h : EvmReliable config occurs) (tx : TxDeposit)
    (target : Address) :
    Keeps (EvmExtends config.lib occurs)
      (depositPayload config.toNodeEnv config.revm tx target) :=
  keeps_depositPayload config.toNodeEnv config.revm (evmExtends_native h.reports config.meter)
    (storesKeep_evmExtends config.meter).mintEth (evmExtends_replicate config.meter) tx target

/-- Fees and refund leave the EVM alone, and the payload extends it. -/
theorem evmExtends_settled (h : EvmReliable config occurs) {input : CanonicalExecutionInput}
    {data : TransactionData} {verified settled : Session γ} {amount : U256}
    (hverifies : verifyTransaction config.toCanonicalEnv input
      (startCanonical config.toCanonicalEnv input) = (.ok (), verified))
    (hrefund : refundGasCost input amount
      (payloadRun config.toCanonicalEnv input data verified).2 = (.ok (), settled)) :
    EvmExtends config.lib occurs (startCanonical config.toCanonicalEnv input) settled := by
  obtain ⟨-, -, hverified⟩ := ran_of_verifyTransaction hverifies
  obtain ⟨-, hsettled⟩ := ran_of_transferEth hrefund
  have hpaid : EvmExtends config.lib occurs (startCanonical config.toCanonicalEnv input)
      verified := evmExtends_of_evm_eq hverified.evm
  have hrun : EvmExtends config.lib occurs verified
      (payloadRun config.toCanonicalEnv input data verified).2 :=
    keeps_payloadRun (stepsKeep_evmExtends h) data verified
  exact trans_of (EvmExtends config.lib occurs)
    (trans_of (EvmExtends config.lib occurs) hpaid hrun) (evmExtends_of_evm_eq hsettled.evm)

theorem triesOpen_of_deposit (h : EvmReliable config occurs) {state : ChainState}
    (hopen : TriesOpen config.lib occurs state.evm) {hashByNumber : ℕ → Option B256}
    {blockHeader : HeaderForExecution} {tx : TxDeposit} {outcome : TransactionExecutionOutcome}
    (haccepted : executeDepositedTransaction config.toNodeEnv config.revm state hashByNumber
      blockHeader tx = .ok outcome) :
    TriesOpen config.lib occurs (applyChanges state.evm outcome.evm) := by
  obtain ⟨target, result, s, vmOutcome, logs, -, hpayload, -, hfinish⟩ :=
    deposit_finishes haccepted
  have hextends := (evmExtends_depositPayload h tx target).run hpayload
  obtain ⟨hchanges, -⟩ := finishDeposit_ok hfinish
  exact (evmChanges_of_extends h.lawful hopen hextends).2 _ hchanges

theorem triesOpen_of_canonical (h : EvmReliable config occurs) {input : CanonicalExecutionInput}
    (hopen : TriesOpen config.lib occurs input.state.evm) {outcome : TransactionExecutionOutcome}
    (haccepted : executeCanonicalTransaction config.toCanonicalEnv input = .ok outcome) :
    TriesOpen config.lib occurs (applyChanges input.state.evm outcome.evm) := by
  obtain ⟨data, verified, afterPayload, run, settled, payload, vmOutcome, hrun⟩ :=
    acceptedRun_of_ok haccepted
  obtain ⟨hchanges, -⟩ := finishCanonical_ok hrun.finishes
  have hsame : (payloadRun config.toCanonicalEnv input data verified).2 = run := by
    rw [hrun.runs]
  have hrefund := hrun.refunds
  rw [← hsame] at hrefund
  exact (evmChanges_of_extends h.lawful hopen
    (evmExtends_settled h hrun.verifies hrefund)).2 _ hchanges

/-- Every pass of the loop leaves tries that open. -/
theorem triesOpen_of_pass (h : EvmReliable config occurs) {blocks : List ExtendedBlock}
    {batch : Batch} {progress next : Progress ChainState} {item : Item}
    (hopen : TriesOpen config.lib occurs progress.state.evm)
    (hone : executeOne (node config) blocks batch progress item = some next) :
    TriesOpen config.lib occurs next.state.evm := by
  rcases executeOne_executes (node config) blocks batch hone with
    rfl | ⟨normalized, outcome, receipt, hexecutes⟩
  · exact hopen
  · rw [← Option.some.inj hexecutes.applies]
    cases normalized with
    | canonical tx =>
      obtain ⟨result, hresult, rfl⟩ := accepted_canonical hexecutes.accepted
      exact triesOpen_of_canonical h hopen hresult
    | depositedTx tx =>
      obtain ⟨result, hresult, rfl⟩ := accepted_deposit hexecutes.accepted
      exact triesOpen_of_deposit h hopen hresult

/-- In every run from a genesis with tries that open, and at every position of a batch, the tries
open. -/
theorem triesOpen_of_runs (h : EvmReliable config occurs) {genesis : ChainState}
    (hgenesis : TriesOpen config.lib occurs genesis.evm) {app : App ChainState}
    {executed : List Item} (hrun : Runs (node config) genesis app executed) :
    TriesOpen config.lib occurs app.state.evm :=
  hrun.keeps (P := fun state _ => TriesOpen config.lib occurs state.evm) hgenesis
    fun _ _ _ _ _ _ hopen hone => triesOpen_of_pass h hopen hone

theorem triesOpen_of_batch (h : EvmReliable config occurs) {blocks : List ExtendedBlock}
    {batch : Batch} {items : List Item} {progress final : Progress ChainState}
    (hopen : TriesOpen config.lib occurs progress.state.evm)
    (hbatch : runBatch (node config) blocks batch items progress = some final) :
    TriesOpen config.lib occurs final.state.evm :=
  runBatch_keeps (node config) blocks batch
    (P := fun progress => TriesOpen config.lib occurs progress.state.evm)
    (fun _ _ _ _ hprogress hone => triesOpen_of_pass h hprogress hone) hbatch hopen

end Passes

end OpMove.OpenTries
