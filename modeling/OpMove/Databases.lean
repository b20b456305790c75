import OpMove.AccountProofs
import OpMove.Traces

/-!
A node on a persistent database. The two engines, `heed` and `rocksdb`, keep the same tables: trie
nodes and the present root, the storage tries of the EVM, a state root for every height under a
counter of its own, receipts, transactions, blocks by hash, hashes by height and hashes by payload
id. They differ in the keys of the two tables with a single entry. Building a block is a program
that writes table after table; what it computes along the way is that of `buildBlock`. Whatever is
not in a table is gone when the process ends.
-/

namespace OpMove.Databases

open Primitives Transactions Errors ChangeSets StateChanges StorageTries TreeKeys StateTrie
open BlockBuilding BlockStore Queries AccountProofs Canonical NativeEvm Traces

section Tables

inductive Engine
  | heed
  | rocksdb
  deriving DecidableEq, Repr

/-- The key of the present root in its table. -/
def Engine.rootKey : Engine → Bytes
  | .heed => List.replicate 8 0
  | .rocksdb => "trie_root".toUTF8.toList

/-- The key of the counter of state roots in its table. -/
def Engine.heightKey : Engine → Bytes
  | .heed => List.replicate 8 0
  | .rocksdb => "state_height".toUTF8.toList

/-- Tries under their roots, the table of the present root, and the storage tries. -/
structure StoredState where
  trie : B256 → Option Tree
  trieRoot : Table Bytes B256
  evmStorage : Address → TrieDb

structure Database where
  state : StoredState
  stateRoots : Table ℕ B256
  stateHeight : Table Bytes ℕ
  receipts : List ExtendedReceipt
  transactions : List ExtendedTransaction
  blocks : Table B256 ExtendedBlock
  heights : Table ℕ B256
  payloads : Table ℕ B256

/-- One write to the state: a batch of trie nodes, or a root. -/
inductive StateWrite
  | trieNodes (tree : Tree)
  | trieRoot (root : B256)
  | storageNodes (account : Address) (nodes : Nodes)
  | storageRoot (account : Address) (root : B256)

/-- One write of a block build; each of them is atomic. -/
inductive Write
  | state (write : StateWrite)
  | stateRoot (root : B256)
  | receipts (receipts : List ExtendedReceipt)
  | transactions (transactions : List ExtendedTransaction)
  | block (block : ExtendedBlock)
  | payload (id : ℕ) (hash : B256)

variable (engine : Engine) (rootHash : Tree → B256)

/-- The state with another storage trie for an account. -/
def StoredState.withTrie (state : StoredState) (account : Address) (trie : TrieDb) : StoredState :=
  { state with evmStorage := Function.update state.evmStorage account trie }

def StateWrite.apply (write : StateWrite) (state : StoredState) : StoredState :=
  match write with
  | .trieNodes tree => { state with trie := Function.update state.trie (rootHash tree) (some tree) }
  | .trieRoot root => { state with trieRoot := state.trieRoot.insert engine.rootKey root }
  | .storageNodes account nodes =>
      let trie := state.evmStorage account
      state.withTrie account ⟨trie.root, nodes ∪ trie.nodes⟩
  | .storageRoot account root =>
      state.withTrie account ⟨some root, (state.evmStorage account).nodes⟩

def StoredState.root (state : StoredState) : Option B256 := state.trieRoot.lookup engine.rootKey

def StoredState.stateRoot (state : StoredState) : B256 := (state.root engine).getD 0

/-- The trie that the state is opened with; a root without a node panics. -/
def StoredState.tree (state : StoredState) : Option Tree :=
  match state.root engine with
  | none => some fun _ => none
  | some root => state.trie root

namespace Database

def new : Database := ⟨⟨fun _ => none, ∅, fun _ => ⟨none, ∅⟩⟩, ∅, ∅, [], [], ∅, ∅, ∅⟩

variable (db : Database)

/-- The database with another state. -/
def withState (state : StoredState) : Database := { db with state := state }

/-- `height` of the state queries: how many roots were pushed. -/
def height : ℕ := (db.stateHeight.lookup engine.heightKey).getD 0

def pushStateRoot (root : B256) : Database :=
  { db with
    stateRoots := db.stateRoots.insert (db.height engine + 1) root
    stateHeight := db.stateHeight.insert engine.heightKey (db.height engine + 1) }

/-- `BlockRepository::add`. -/
def addBlock (block : ExtendedBlock) : Database :=
  { db with
    blocks := db.blocks.insert block.hash block
    heights := db.heights.insert block.header.number block.hash }

def blockAt (height : ℕ) : Option ExtendedBlock := (db.heights.lookup height).bind db.blocks.lookup

/-- Keys are big-endian, so that the last one is the largest height. -/
def latest : Option ExtendedBlock := db.heights.keys.max?.bind db.blockAt

/-- `PayloadQueries::by_id`, as far as a block is found. -/
def byPayloadId (id : ℕ) : Option ExtendedBlock := (db.payloads.lookup id).bind db.blocks.lookup

end Database

def Write.apply (write : Write) (db : Database) : Database :=
  match write with
  | .state write => { db with state := write.apply engine rootHash db.state }
  | .stateRoot root => db.pushStateRoot engine root
  | .receipts added => { db with receipts := db.receipts ++ added }
  | .transactions added => { db with transactions := db.transactions ++ added }
  | .block added => db.addBlock added
  | .payload id hash => { db with payloads := db.payloads.insert id hash }

end Tables

section Commands

variable (engine : Engine) (libs : Libraries)

/-- A write to the state, with the state it leaves. -/
def writeState (write : StateWrite) (state : StoredState) : Trace Write StoredState :=
  ⟨[.state write], some (write.apply engine libs.rootHash state)⟩

/-- The storage trie of one account: it is opened, then its nodes and its root are written. -/
def applyAccount (state : StoredState) (account : Σ _ : Address, StorageTrieChanges) :
    Trace Write StoredState := do
  let _ ← .ofOption ((state.evmStorage account.1).forAccount libs.lib)
  let state ← writeState engine libs (.storageNodes account.1 account.2.trieDiff) state
  writeState engine libs (.storageRoot account.1 account.2.root) state

/-- `State::apply`, then `StorageTrieRepository::apply`. -/
def applyChanges (state : StoredState) (changes : OutcomeChanges) : Trace Write StoredState := do
  let tree ← .ofOption (state.tree engine)
  let next := insertChangeSet libs.codec tree (libs.order changes.moveVm)
  let state ← writeState engine libs (.trieNodes next) state
  let state ← writeState engine libs (.trieRoot (libs.rootHash next)) state
  changes.evm.entries.foldlM (applyAccount engine libs) state

/-- Block building over this state; how a transaction is executed is left to the base. -/
def storedEnv (base : Env StoredState OutcomeChanges) : Env StoredState OutcomeChanges :=
  { base with
    applyChanges := fun state changes => (applyChanges engine libs state changes).result
    stateRoot := StoredState.stateRoot engine }

variable (base : Env StoredState OutcomeChanges)

/-- The loop body of `execute_transactions`, with what it writes. -/
def executeOneStored (blocks : List ExtendedBlock) (batch : Batch) (progress : Progress StoredState)
    (item : Item) : Trace Write (Progress StoredState) :=
  let result := executeOne (storedEnv engine libs base) blocks batch progress item
  match NormalizedExtendedTxEnvelope.ofEnvelope base.codec item.tx with
  | none => .ofOption result
  | some normalized =>
      match base.executeTransaction progress.state blocks (batch.input item normalized) with
      | .ok outcome => ⟨(applyChanges engine libs progress.state outcome.changes).writes, result⟩
      | .error _ => .ofOption result

/-- A running node: the database and the mempool, which is kept in memory. -/
structure StoredApp where
  db : Database
  memPool : List Item

/-- What block building sees of the database. -/
def StoredApp.view (app : StoredApp) : App StoredState where
  state := app.db.state
  memPool := app.memPool
  receipts := app.db.receipts
  transactions := app.db.transactions
  blocks := app.db.heights.keys.filterMap app.db.blockAt

/-- The batch of a build on top of the latest block. -/
def openBatch (app : StoredApp) (attributes : Payload) (items : List Item) : Option Batch := do
  let parent ← app.db.latest
  let baseFee ← baseFeeAfter (storedEnv engine libs base) parent
  batchFor items baseFee (headerForExecution parent attributes)

/-- `start_block_build` of a payload id without a block. The hooks of the persistent nodes are
`on_tx_batch`, which records the state root, and `on_payload`, which records the payload id. -/
def buildStored (app : StoredApp) (attributes : Payload) (id : ℕ) (drained : List Item) :
    Trace Write (Built StoredState) := do
  let env := storedEnv engine libs base
  let items := collectTransactions env app.view attributes drained
  let batch ← .ofOption (openBatch engine libs base app attributes items)
  let progress ← items.foldlM (executeOneStored engine libs base app.view.blocks batch)
    (.start app.db.state)
  Trace.emit (.stateRoot (progress.state.stateRoot engine))
  -- the gas of a batch may be too much for the header, once its state root is recorded
  let built ← .ofOption (buildBlock env app.view attributes id drained)
  Trace.emit (.receipts built.receipts)
  Trace.emit (.transactions built.transactions)
  Trace.emit (.block built.block)
  Trace.emit (.payload id built.block.hash)
  pure built

/-- `start_block_build`, with what it writes. -/
def startBlockBuildStored (app : StoredApp) (attributes : Payload) (id : ℕ) (drained : List Item) :
    Trace Write (Option (Built StoredState)) :=
  if (app.db.byPayloadId id).isSome then pure none
  else do
    let built ← buildStored engine libs base app attributes id drained
    pure (some built)

/-- A build that came to its end. -/
def handleBuild (app : StoredApp) (attributes : Payload) (id : ℕ) (drained : List Item) :
    Option StoredApp :=
  let trace := startBlockBuildStored engine libs base app attributes id drained
  trace.result.map fun built =>
    ⟨Trace.after (Write.apply engine libs.rootHash) trace.writes app.db,
      if built.isSome then [] else app.memPool⟩

def addTransactionStored (app : StoredApp) (tx : TxEnvelope) : Option StoredApp := do
  let item ← poolItem base.codec tx
  some { app with memPool := insertItem app.memPool item }

def genesisUpdateStored (app : StoredApp) (block : ExtendedBlock) : StoredApp :=
  { app with db := app.db.addBlock block }

/-- `initialize_app`: the genesis state is written unless there is a block, and has to have the
configured root. -/
def initializeApp (initialStateRoot : B256) (genesis : OutcomeChanges) (db : Database) :
    Option StoredApp :=
  if db.latest.isSome then some ⟨db, []⟩
  else
    let trace := applyChanges engine libs db.state genesis
    trace.result.bind fun state =>
      if state.stateRoot engine = initialStateRoot then
        some ⟨Trace.after (Write.apply engine libs.rootHash) trace.writes db, []⟩
      else none

end Commands

section Queries

variable {S : Type} (db : Database) (reader : ApplicationReader S) (proofs : ProofLibrary)

/-- `root_by_height` of the persistent state queries. -/
def Database.rootByHeight (genesisStateRoot : B256) (height : ℕ) : Option B256 :=
  if height = 0 then some genesisStateRoot else db.stateRoots.lookup height

/-- The trie of a height: an unknown one gets a new trie, a root without a node panics. -/
def treeStored (height : ℕ) : Option Tree :=
  match db.rootByHeight reader.genesisStateRoot height with
  | some root => db.state.trie root
  | none => some fun _ => none

def resolverAtStored (height : ℕ) : Option Tree := treeStored db reader height

def balanceAtStored (account : AccountAddress) (height : ℕ) : Option (Option U256) := do
  let tree ← treeStored db reader height
  (reader.quickGetEthBalance tree account).map some

def nonceAtStored (account : AccountAddress) (height : ℕ) : Option (Option ℕ) := do
  let tree ← treeStored db reader height
  (reader.quickGetNonce tree account).map some

def proofAtStored (evmStorage : Address → TrieDb) (account : AccountAddress)
    (storageSlots : List U256) (height : ℕ) : Option (Option ProofResponse) :=
  let address := toEthAddress account
  if address.toNat < l2LowestAddress.toNat ∨ l2HighestAddress.toNat < address.toNat then some none
  else do
    let tree ← treeStored db reader height
    proofFromTrieAndResolver reader.libs proofs address storageSlots tree evmStorage

end Queries

end OpMove.Databases
