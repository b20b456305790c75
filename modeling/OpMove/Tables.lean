import OpMove.NonceRuns

/-!
Move tables. A session keeps what its transaction did to tables in an extension of its own,
beside the changes of the Move state, and the `State` interface has a method that takes both.
Execution drops the extension when the session is finished, and only genesis calls that
method; the persistent backends ignore the table changes they are given, and the resolver
they read with, which also answers queries on every backend, does not implement tables.
-/

namespace OpMove.Tables

open Primitives Transactions Errors ChangeSets Sessions Canonical CanonicalRuns
open BlockBuilding BlockAgreement Node NonceRuns

section Data

abbrev TableHandle := AccountAddress

/-- What a transaction did to tables; the entries are those of all tables together. -/
structure TableChangeSet where
  newTables : List TableHandle
  removedTables : List TableHandle
  changes : ChangeSet (TableHandle × Bytes) Bytes

def TableChangeSet.default : TableChangeSet := ⟨[], [], ∅⟩

namespace TableChangeSet

variable (changes : TableChangeSet) (handle : TableHandle) (key : Bytes)

/-- What is left of an entry: a table is removed or made first, then its entries change. -/
def leaves (old : Option Bytes) : Option Bytes :=
  Op.after (if handle ∈ changes.removedTables ∨ handle ∈ changes.newTables then none else old)
    (changes.changes.lookup (handle, key))

@[simp] theorem leaves_default (old : Option Bytes) : default.leaves handle key old = old := rfl

end TableChangeSet

/-- What several change sets leave of an entry, one after the other. -/
def leftAt (history : List TableChangeSet) (handle : TableHandle) (key : Bytes) : Option Bytes :=
  history.foldl (fun old changes => changes.leaves handle key old) none

/-- The tables that exist, with their entries. -/
abbrev TableStore := TableHandle → Option (Bytes → Option Bytes)

namespace TableStore

variable (tables : TableStore)

def empty : TableStore := fun _ => none

def entry (handle : TableHandle) (key : Bytes) : Option Bytes :=
  (tables handle).bind fun table => table key

/-- The tables after the removed ones are gone and the new ones are made. -/
def reopened (changes : TableChangeSet) : TableStore := fun handle =>
  if handle ∈ changes.newTables then some fun _ => none
  else if handle ∈ changes.removedTables then none
  else tables handle

/-- A creation needs a free key, the other operations one that is there. -/
def fits (old : Option Bytes) : Op Bytes → Bool
  | .new _ => old.isNone
  | .modify _ | .delete => old.isSome

/-- `apply_table` of the storage in memory; a change to a table that is not there panics, and
one that does not fit is an error. -/
def applyTable (changes : TableChangeSet) : Option TableStore :=
  let base := tables.reopened changes
  if changes.changes.entries.all fun change =>
      (base change.1.1).isSome && fits (base.entry change.1.1 change.1.2) change.2 then
    some fun handle => (base handle).map fun table key =>
      Op.after (table key) (changes.changes.lookup (handle, key))
  else none

theorem entry_reopened (changes : TableChangeSet) (handle : TableHandle) (key : Bytes) :
    (tables.reopened changes).entry handle key =
      if handle ∈ changes.removedTables ∨ handle ∈ changes.newTables then none
      else tables.entry handle key := by
  unfold entry reopened
  by_cases hnew : handle ∈ changes.newTables
  · rw [if_pos hnew, if_pos (Or.inr hnew)]
    rfl
  · rw [if_neg hnew]
    by_cases hremoved : handle ∈ changes.removedTables
    · rw [if_pos hremoved, if_pos (Or.inl hremoved)]
      rfl
    · rw [if_neg hremoved, if_neg (by tauto)]

/-- The storage in memory keeps every entry as a change set leaves it. -/
theorem entry_of_applyTable {changes : TableChangeSet} {next : TableStore}
    (h : tables.applyTable changes = some next) (handle : TableHandle) (key : Bytes) :
    next.entry handle key = changes.leaves handle key (tables.entry handle key) := by
  simp only [applyTable] at h
  split_ifs at h with hall
  obtain rfl := Option.some.inj h
  rw [TableChangeSet.leaves, ← entry_reopened]
  dsimp only [entry]
  cases hopen : tables.reopened changes handle with
  | some table => rfl
  | none =>
    -- no change can be for a table that is not there
    have hlookup : changes.changes.lookup (handle, key) = none := by
      by_contra hsome
      obtain ⟨op, hop⟩ := Option.ne_none_iff_exists'.mp hsome
      have hmem := AList.mem_lookup_iff.mp hop
      have hchange := List.all_eq_true.mp hall _ hmem
      simp [hopen] at hchange
    rw [hlookup]
    rfl

theorem applyTable_default : tables.applyTable .default = some tables := by
  have hreopened : tables.reopened .default = tables := by
    funext handle
    simp [reopened, TableChangeSet.default]
  simp only [applyTable, hreopened]
  rw [if_pos (by rfl)]
  congr 1
  funext handle
  cases tables handle <;> rfl

end TableStore

end Data

section Backends

/-- `none` is a panic. -/
abbrev TableResolver := TableHandle → Bytes → Option (Option Bytes)

/-- The implementations of `State`. -/
inductive Backend
  | inMemory
  | heed
  | rocksdb
  deriving DecidableEq

/-- Who reads a table: a transaction, through the resolver of the state it is executed on, or a
query, through the resolver of the state queries. -/
inductive Reader
  | transaction
  | query
  deriving DecidableEq

def inMemoryResolver (tables : TableStore) : TableResolver := fun handle key =>
  some (tables.entry handle key)

/-- `EthTrieResolver`, where tables are `unimplemented!()`. -/
def ethTrieResolver : TableResolver := fun _ _ => none

namespace Backend

variable (backend : Backend) (tables : TableStore)

def resolver : TableResolver :=
  match backend with
  | .inMemory => inMemoryResolver tables
  | .heed | .rocksdb => ethTrieResolver

/-- What `apply_with_tables` does to the tables. -/
def applyWithTables (changes : TableChangeSet) : Option TableStore :=
  match backend with
  | .inMemory => tables.applyTable changes
  | .heed | .rocksdb => some tables

/-- What `apply` does to the tables. -/
def apply : Option TableStore :=
  match backend with
  | .inMemory => tables.applyTable .default
  | .heed | .rocksdb => some tables

theorem apply_eq : backend.apply tables = some tables := by
  cases backend with
  | inMemory => exact tables.applyTable_default
  | heed => rfl
  | rocksdb => rfl

end Backend

def Reader.resolver (reader : Reader) (backend : Backend) (tables : TableStore) : TableResolver :=
  match reader with
  | .transaction => backend.resolver tables
  | .query => ethTrieResolver

end Backends

section Execution

/-- The table extension: how a context starts, and what it has collected in the end. -/
structure TableExtension (T : Type) where
  new : B256 → TableResolver → T
  intoChangeSet : T → TableChangeSet

/-- What a session carries for user code: its gas, and the table context beside it. -/
structure Metered (γ T : Type) where
  gas : γ
  tables : T

variable {γ X τ T : Type} (extension : TableExtension T)

/-- The node for one transaction, whose session has a table context over the resolver. -/
def withTableContext (config : NodeConfig (Metered γ T) X τ) (txHash : B256)
    (resolver : TableResolver) : NodeConfig (Metered γ T) X τ :=
  { config with newGasMeter := fun limit =>
      ⟨(config.newGasMeter limit).gas, extension.new txHash resolver⟩ }

/-- The session of a canonical transaction as `finish_with_extensions` finds it. -/
def settledSession {γ X τ : Type} (env : CanonicalEnv γ X τ) (input : CanonicalExecutionInput) :
    Option (Session γ) := do
  let data ← (parseFrom env.codec input.tx).toOption
  match verifyTransaction env input (startCanonical env input) with
  | (.error _, _) => none
  | (.ok (), verified) =>
    let (payload, afterPayload) := executePayload env input data verified
    let run := (replicateAfter env payload afterPayload).2
    match refundGasCost input (refundAmount input (env.totalGasUsed run.gas)) run with
    | (.error _, _) => none
    | (.ok (), settled) => some settled

theorem settledSession_eq {γ X τ : Type} {env : CanonicalEnv γ X τ}
    {input : CanonicalExecutionInput} {data : TransactionData}
    {verified afterPayload run settled : Session γ} {payload : Except Error Deployed}
    {vmOutcome : Except Error Unit} {outcome : TransactionExecutionOutcome}
    (h : AcceptedRun env input data verified afterPayload run settled payload vmOutcome outcome) :
    settledSession env input = some settled := by
  simp only [settledSession, h.parsed, h.verifies, h.pays, h.replicates, h.refunds,
    Except.toOption, Option.bind_eq_bind, Option.bind_some]

/-- A state with its tables. The history is a ghost: what each executed transaction did to
tables according to its session, which the code drops. -/
structure TabledState where
  chain : ChainState
  tables : TableStore
  history : List TableChangeSet

/-- What a transaction did to tables; one that has failed did nothing. -/
def tablesChanged (config : NodeConfig (Metered γ T) X τ) (state : ChainState)
    (blocks : List ExtendedBlock) (input : ExecutionInput)
    (outcome : Outcome TransactionExecutionOutcome) : TableChangeSet :=
  match input.tx with
  | .depositedTx _ => .default
  | .canonical tx =>
    if hgas : input.l2Input.gasLimit ≤ maxU64 then
      match settledSession config.toCanonicalEnv
        (canonicalInput config state blocks input tx hgas) with
      | some settled =>
        if outcome.isOk then extension.intoChangeSet settled.gas.tables else .default
      | none => .default
    else .default

/-- The node on one of its backends. -/
def tabledNode (backend : Backend) (config : NodeConfig (Metered γ T) X τ) :
    Env TabledState (TransactionExecutionOutcome × TableChangeSet) where
  codec := config.txCodec
  executeTransaction state blocks input :=
    let tabled := withTableContext extension config input.txHash (backend.resolver state.tables)
    (Node.executeTransaction tabled state.chain blocks input).map fun outcome =>
      { isOk := outcome.isOk
        changes := (outcome.changes, tablesChanged extension tabled state.chain blocks input outcome)
        gasUsed := outcome.gasUsed
        l2Price := outcome.l2Price
        logs := outcome.logs
        deployment := outcome.deployment }
  -- only the first part is handed to `State::apply`
  applyChanges state changes := (backend.apply state.tables).map fun tables =>
    ⟨state.chain.apply changes.1, tables, state.history ++ [changes.2]⟩
  stateRoot state := config.stateRoot state.chain
  gasFee := config.gasFee
  blockHash := config.blockHash
  orderedTrieRoot := config.orderedTrieRoot
  encodeReceipt := config.encodeReceipt
  logBloom := config.logBloom

end Execution

section Runs

variable {σ χ : Type} (env : Env σ χ)

/-- The states transactions find, one after the other, in the blocks of any run. -/
inductive Reached (genesis : σ) : σ → Prop
  | genesis : Reached genesis genesis
  | executed {state next : σ} {blocks : List ExtendedBlock} {input : ExecutionInput}
      {outcome : Outcome χ} : Reached genesis state →
      env.executeTransaction state blocks input = .ok outcome →
      env.applyChanges state outcome.changes = some next → Reached genesis next

variable {env} {genesis : σ}

theorem Reached.pass {blocks : List ExtendedBlock} {batch : Batch} {progress next : Progress σ}
    {item : Item} (h : Reached env genesis progress.state)
    (hone : executeOne env blocks batch progress item = some next) :
    Reached env genesis next.state := by
  rcases executeOne_executes env blocks batch hone with rfl | ⟨normalized, outcome, receipt, hexec⟩
  · exact h
  · exact .executed h hexec.accepted hexec.applies

/-- Every transaction of a batch finds such a state, when the first one does. -/
theorem Reached.batch {blocks : List ExtendedBlock} {batch : Batch} {items : List Item}
    {state : σ} {progress : Progress σ} (h : Reached env genesis state)
    (hrun : runBatch env blocks batch items (.start state) = some progress) :
    Reached env genesis progress.state :=
  runBatch_keeps env blocks batch (P := fun progress => Reached env genesis progress.state)
    (fun _ _ _ _ hreached hone => hreached.pass hone) hrun h

theorem reached_of_runs {app : App σ} {executed : List Item}
    (hrun : Runs env genesis app executed) : Reached env genesis app.state :=
  hrun.keeps (P := fun state _ => Reached env genesis state) .genesis
    fun _ _ _ _ _ _ hreached hone => hreached.pass hone

end Runs

section Persistence

variable {γ X τ T : Type} {extension : TableExtension T} {backend : Backend}
variable {config : NodeConfig (Metered γ T) X τ} {genesisTables : TableChangeSet}
variable {chain : ChainState} {tables : TableStore} {state : TabledState}

/-- A reader gets an entry as the transactions before it have left it, without a panic. -/
def Served (backend : Backend) (genesisTables : TableChangeSet) (state : TabledState)
    (reader : Reader) (handle : TableHandle) (key : Bytes) : Prop :=
  reader.resolver backend state.tables handle key =
    some (leftAt (genesisTables :: state.history) handle key)

/-- Nothing that is executed reaches the tables of a state. -/
theorem tables_of_reached
    (h : Reached (tabledNode extension backend config) ⟨chain, tables, []⟩ state) :
    state.tables = tables := by
  induction h with
  | genesis => rfl
  | @executed state next blocks input outcome _ _ happly ih =>
    have hnext := happly
    simp only [tabledNode, Backend.apply_eq, Option.map_some, Option.some.injEq] at hnext
    rw [← hnext]
    exact ih

/-- In memory a transaction reads what genesis has left, whatever was executed since. -/
theorem entry_of_genesis (hgenesis : TableStore.empty.applyTable genesisTables = some tables)
    (handle : TableHandle) (key : Bytes) :
    tables.entry handle key = leftAt [genesisTables] handle key :=
  TableStore.empty.entry_of_applyTable hgenesis handle key

/-- An entry is served exactly to transactions, on the state in memory, and while it is as
genesis has left it. -/
theorem served_iff (hgenesis : backend.applyWithTables .empty genesisTables = some tables)
    (hreached : Reached (tabledNode extension backend config) ⟨chain, tables, []⟩ state)
    (reader : Reader) (handle : TableHandle) (key : Bytes) :
    Served backend genesisTables state reader handle key ↔
      reader = .transaction ∧ backend = .inMemory ∧
        leftAt (genesisTables :: state.history) handle key = leftAt [genesisTables] handle key := by
  unfold Served
  rw [tables_of_reached hreached]
  cases reader with
  | query => simp [Reader.resolver, ethTrieResolver]
  | transaction =>
    cases backend with
    | heed => simp [Reader.resolver, Backend.resolver, ethTrieResolver]
    | rocksdb => simp [Reader.resolver, Backend.resolver, ethTrieResolver]
    | inMemory =>
      have hentry := entry_of_genesis hgenesis handle key
      simp only [Reader.resolver, Backend.resolver, inMemoryResolver, hentry, true_and,
        Option.some.injEq]
      exact eq_comm

end Persistence

section Samples

open FailingActions MoveTypes Arguments GasPrices FailedTransactions

/-- The account of the module with the test tables. -/
def tablesModule : ModuleId :=
  (toMoveAddress 0x8fd379246834eac74b8419ffda202cf8051f7a03, "tables")

/-- The handles of the tables that the sample transaction makes, in the order it makes them. -/
def madeHandles : List TableHandle :=
  [0x849e767cd72b8e85a0b31a410f72bceaab1a6045ae40a71bbe430fce18a45dbf,
   0xdd3e46a179828e079a597e38962abf95a01a939d9d8545e98fe951dba91fd2df,
   0x8d78e74fd2aa908a26013e678c1cacf3f31dc80e8f1aaf474fb7c15761681778,
   0x5d15014804a9e78dc717b9311477257ac02257cdb1d5a5b4af9af9932e3645b9,
   0xf422ccd26cc1cd0f7c4bc109d7d6b8c6ed1cdf5d1d252b6d39b4fab01db62492,
   0xfabeaa00bcb55d950d0385d2168f2c0a7c82ec66ef086bfd9f3778bf9b2d4ba0,
   0xd0ef9c260d847b36233205e36fea6e7f1d5791ad7e27bac268e810a524697424,
   0x1bab45b8d49e6e441281df4236a257cffc7425f305f6a44436fd6c0b218bf5e6,
   0x28347d093c93c4e76ae13f06748cd7dae98de05748b8a9191ea809f5fff78e3a,
   0xcd8cc8f40f7987b671a8556e24bdd0c35f2c2b0ba82fc3fceb43b52579b453c6,
   0x073c97f0811cff735bdf11c1b9a4160a558dbd24230932a5f16179664bde2527]

def word (address : AccountAddress) : Bytes := (leBytes 32 address.toNat).reverse

/-- `ID` of the signer's first object: a counter of zero and the address. -/
def signerId : Bytes := leBytes 8 0 ++ word (toMoveAddress sampleSigner)

/-- The entries that the sample transaction adds, one to each table. -/
def madeEntries : List (Bytes × Bytes) :=
  [([2], [3]), ([1], [1]), (leBytes 8 1, leBytes 8 1), (leBytes 16 1, leBytes 16 1), ([1], [1]),
   ([3, 97, 98, 99], [3, 97, 98, 99]), (word 1, word 1), ([2, 1, 2], [2, 1, 2]),
   ([2, 3, 97, 98, 99, 3, 97, 98, 99], [2, 3, 97, 98, 99, 3, 97, 98, 99]), (signerId, signerId),
   ([1], word 0x849e767cd72b8e85a0b31a410f72bceaab1a6045ae40a71bbe430fce18a45dbf)]

def madeTables : TableChangeSet where
  newTables := madeHandles
  removedTables := []
  changes := (madeHandles.zip madeEntries).foldl
    (fun changes made => changes.insert (made.1, made.2.1) (.new made.2.2)) ∅

/-- The resource that keeps the handles. -/
def testTables : Bytes :=
  ((madeHandles.drop 1).take 9).flatMap word ++ signerId ++ (madeHandles.drop 10).flatMap word

def testTablesTag : StructTag := ⟨tablesModule.1, "tables", "TestTables", []⟩

def withTestTables (state : MoveState) : MoveState :=
  { state with
    resources := Function.update state.resources (toMoveAddress sampleSigner, testTablesTag)
      (some testTables) }

/-- The table context is known by what was done in it. -/
def sampleExtension : TableExtension TableChangeSet where
  new _ _ := .default
  intoChangeSet context := context

/-- A VM with the module of test tables; its function has one parameter, a signer. -/
def tablesVm : MoveVm (Metered ℕ TableChangeSet) Unit where
  types _ := ⟨fun _ => .ok (.primitive .signer), fun _ => .ok (.primitive .signer),
    ⟨fun _ => false, fun _ _ => false⟩⟩
  loadFunction _ entryFn :=
    if entryFn.moduleId = tablesModule ∧ entryFn.function = "make_test_tables" then
      .ok [.other ()]
    else .error (.status (.other 0))
  loadScript _ _ _ := .error (.user (.vm (.status (.other 0))))
  runEntryFunction _ _ := Act.update fun s =>
    { s with move := withTestTables s.move, gas := ⟨s.gas.gas, madeTables⟩ }
  runScript _ _ := abort 0
  deserializeModule _ := .error (.status (.other 0))
  verifiedModuleBundle _ _ _ := .error (.status (.other 0))

/-- `make_test_tables`, called by the signer with itself. -/
def makeTestTables : EntryFunction :=
  ⟨tablesModule, "make_test_tables", [], [0 :: word (toMoveAddress sampleSigner)]⟩

def tablesData : Bytes :=
  2 :: word tablesModule.1 ++
    [6, 116, 97, 98, 108, 101, 115,
     16, 109, 97, 107, 101, 95, 116, 101, 115, 116, 95, 116, 97, 98, 108, 101, 115, 0, 1, 33, 0] ++
    word (toMoveAddress sampleSigner)

def tablesR : ℕ := 0x78d2865cb75487fc9047f057118bad3e1fcec70c8fbb744cb71cc0a7bbe79123

def tablesS : ℕ := 0x60c5c9e8067cda4bec92c25fff15626b614ddd405e1598721428e4a6caac999d

def tablesTx : Signed TxLegacy where
  tx :=
    { chainId := some 1, nonce := 9, gasPrice := 20000000000, gasLimit := 100000,
      target := .call 0x8fd379246834eac74b8419ffda202cf8051f7a03, value := 0, input := tablesData }
  signature := (leBytes 32 tablesR).reverse ++ (leBytes 32 tablesS).reverse ++ [0x26]

def tablesBytes : Bytes :=
  (leBytes 37 0xf8c3098504a817c800830186a0948fd379246834eac74b8419ffda202cf8051f7a0380b85d).reverse ++
    tablesData ++ 0x26 :: 0xa0 :: (leBytes 32 tablesR).reverse ++
    0xa0 :: (leBytes 32 tablesS).reverse

def tablesTxHash : B256 := 0x646ec55d4d4e07643c14c57ad186b9e922570b7c7cd88a26087bb56ca88df9ae

/-- The consensus library at the sample transaction. -/
def tablesCodec : Codec where
  decode bytes := if bytes = tablesBytes then some (.legacy tablesTx, []) else none
  encode2718 tx := if tx = .legacy tablesTx then tablesBytes else []
  recoverSigner tx := if tx = .legacy tablesTx then some sampleSigner else none
  keccak256 bytes := if bytes = tablesBytes then tablesTxHash else BitVec.ofNat 256 (beNat bytes)

def tablesConfig : NodeConfig (Metered ℕ TableChangeSet) Unit Unit where
  meter := ⟨fun _ gas => (true, gas), fun gas => gas.gas⟩
  newGasMeter limit := ⟨limit, .default⟩
  totalGasUsed gas := min 21000 gas.gas
  lib := sampleConfig.lib
  keccak256 := sampleConfig.keccak256
  typeHash := sampleConfig.typeHash
  primaryStoreAddress owner := owner
  revm := sampleConfig.revm
  vm := tablesVm
  codec := ⟨fun bytes => if bytes = tablesData then some (.entryFunction makeTestTables) else none,
    fun _ => none⟩
  chainId := 1
  ethTreasury := 7
  txCodec := tablesCodec
  stateRoot _ := 0
  gasFee := ⟨6, 250⟩
  blockHash header := BitVec.ofNat 256 header.number
  orderedTrieRoot leaves := BitVec.ofNat 256 leaves.length
  encodeReceipt _ := []
  logBloom _ := 0

def tablesNode : Env TabledState (TransactionExecutionOutcome × TableChangeSet) :=
  tabledNode sampleExtension .inMemory tablesConfig

/-- The signer of the transaction has two ETH, and there are no tables. -/
def tablesGenesis : TabledState := ⟨sampleChain, .empty, []⟩

def tablesBlock : ExtendedBlock := ⟨0, 0, 0, sampleHeader, []⟩

/-- The table that the sample transaction makes first. -/
def firstHandle : TableHandle := 0x849e767cd72b8e85a0b31a410f72bceaab1a6045ae40a71bbe430fce18a45dbf

/-- The signer sends the transaction, and a block is built with it. -/
def tablesRun : Option (App TabledState) := do
  let app ← addTransaction tablesNode (genesisUpdate ⟨tablesGenesis, [], [], [], []⟩ tablesBlock)
    (.legacy tablesTx)
  startBlockBuild tablesNode app (samplePayload []) 1 app.memPool

theorem tablesRun_runs {app : App TabledState} (h : tablesRun = some app) :
    ∃ executed, Runs tablesNode tablesGenesis app executed := by
  unfold tablesRun at h
  obtain ⟨sent, hsent, hbuilt⟩ := Option.bind_eq_some_iff.mp h
  exact ⟨_, .startBlockBuild (.addTransaction (.genesisUpdate .start) hsent) (.refl _) hbuilt⟩

/-- What the run leaves of an entry that the transaction has added, and of one it has not. -/
theorem tablesRun_left : tablesRun.map (fun app =>
    (app.receipts.map (fun receipt => receipt.transactionHash),
      leftAt (.default :: app.state.history) firstHandle [2],
      leftAt (.default :: app.state.history) firstHandle [5])) =
    some ([tablesTxHash], some [3], none) := by
  decide +kernel

/-- The transaction adds an entry under the key 2, and the next one does not find it; a query
for it panics. -/
theorem added_entry_is_lost : ∃ app executed, tablesRun = some app ∧
    Runs tablesNode tablesGenesis app executed ∧
    app.receipts.map (fun receipt => receipt.transactionHash) = [tablesTxHash] ∧
    leftAt (.default :: app.state.history) firstHandle [2] = some [3] ∧
    Reader.resolver .transaction .inMemory app.state.tables firstHandle [2] = some none ∧
    Reader.resolver .query .inMemory app.state.tables firstHandle [2] = none ∧
    ¬ Served .inMemory .default app.state .transaction firstHandle [2] ∧
    ¬ Served .inMemory .default app.state .query firstHandle [2] := by
  obtain ⟨app, hrun, hleft⟩ := Option.map_eq_some_iff.mp tablesRun_left
  obtain ⟨hreceipts, hadded, -⟩ : _ ∧ _ ∧ _ := by simpa only [Prod.mk.injEq] using hleft
  obtain ⟨executed, hruns⟩ := tablesRun_runs hrun
  have htables : app.state.tables = .empty := tables_of_reached (reached_of_runs hruns)
  have hread : Reader.resolver .transaction .inMemory app.state.tables firstHandle [2] =
      some none := by
    rw [htables]
    rfl
  refine ⟨app, executed, hrun, hruns, hreceipts, hadded, hread, rfl, ?_, ?_⟩
  · intro hserved
    rw [Served, hread, hadded] at hserved
    cases hserved
  · intro hserved
    cases hserved

/-- The entry under the key 5, which no transaction has touched, is served to the next one. -/
theorem untouched_entry_is_served : ∃ app executed, tablesRun = some app ∧
    Runs tablesNode tablesGenesis app executed ∧
    Served .inMemory .default app.state .transaction firstHandle [5] := by
  obtain ⟨app, hrun, hleft⟩ := Option.map_eq_some_iff.mp tablesRun_left
  obtain ⟨-, -, huntouched⟩ : _ ∧ _ ∧ _ := by simpa only [Prod.mk.injEq] using hleft
  obtain ⟨executed, hruns⟩ := tablesRun_runs hrun
  have hgenesis : Backend.inMemory.applyWithTables .empty .default = some .empty :=
    TableStore.empty.applyTable_default
  refine ⟨app, executed, hrun, hruns, ?_⟩
  exact (served_iff hgenesis (reached_of_runs hruns) .transaction firstHandle [5]).mpr
    ⟨rfl, rfl, huntouched⟩

end Samples

end OpMove.Tables
