import OpMove.AbiRoundTrip
import OpMove.AccountProofs
import OpMove.Tables

/-!
Genesis. The packages of two frameworks are published one after the other into a scratch state, and
two sessions initialise what was published there; the contracts of the L2 and the tokens that are
bridged to it go through the EVM. What leaves is one change set, squashed from those of all stages,
with the storage tries of the contracts. It is kept as an image and applied to the state a node
starts with. The Move VM is a parameter: it verifies modules, and runs sessions over a resolver.
-/

namespace OpMove.Genesis

open Primitives MoveTypes Transactions ChangeSets StateChanges StorageTries NativeEvm TreeKeys
open StateTrie Queries EvmCode AccountProofs SolidityAbi AbiRoundTrip Sessions Canonical Tables

section ChangeSets

def noChanges : AccountChanges := ⟨∅, ∅⟩

/-- `AccountChanges::squash`. -/
def squashAccount (account other : AccountChanges) : Option AccountChanges := do
  let modules ← account.modules.squash other.modules
  let resources ← account.resources.squash other.resources
  some ⟨modules, resources⟩

def squashEntry (changes : MoveChangeSet) (entry : Σ _ : AccountAddress, AccountChanges) :
    Option MoveChangeSet :=
  match changes.lookup entry.1 with
  | none => some (changes.insert entry.1 entry.2)
  | some account => (squashAccount account entry.2).map (changes.insert entry.1)

/-- `ChangeSet::squash`. -/
def squash (changes other : MoveChangeSet) : Option MoveChangeSet :=
  other.entries.foldlM squashEntry changes

/-- `add_module_op`, `add_resource_op`: a key has one operation at most. -/
def addModuleOp (changes : MoveChangeSet) (id : ModuleId) (op : Op Bytes) :
    Option MoveChangeSet := do
  let account := (changes.lookup id.1).getD noChanges
  let modules ← account.modules.addOp id.2 op
  some (changes.insert id.1 { account with modules := modules })

def addResourceOp (changes : MoveChangeSet) (address : AccountAddress) (tag : StructTag)
    (op : Op Bytes) : Option MoveChangeSet := do
  let account := (changes.lookup address).getD noChanges
  let resources ← account.resources.addOp tag op
  some (changes.insert address { account with resources := resources })

end ChangeSets

section Framework

/-- A package of a release; its code comes in the order of `sorted_code_and_modules`. -/
structure ReleasePackage where
  name : String
  metadata : Bytes
  code : List Bytes

/-- `selfId` reads a module's own id, `verify` is a staging storage that releases its verified
bundle, and a session runs over the modules and resources of a state. -/
structure GenesisVm (S : Type) where
  selfId : Bytes → ModuleId
  verify : InMemoryStorage → AccountAddress → List Bytes → Option (List (ModuleId × Bytes))
  newSession : InMemoryStorage → S
  executeFunction : InMemoryStorage → S → ModuleId → String → List Bytes → Option S
  finish : InMemoryStorage → S → Option MoveChangeSet

/-- Changes so far, and the scratch state they were made in. Its trie is never read. -/
abbrev Deployment := MoveChangeSet × InMemoryStorage

def l2PackageName : String := "L2"
def frameworkAddress : AccountAddress := 1
def tokenAddress : AccountAddress := 0x13
def tokenObjectAddress : AccountAddress := 0x14
def suiStdlibAddress : AccountAddress := 0x21
def suiFrameworkAddress : AccountAddress := 0x22

def convertBundleIntoModuleOps (bundle : List (ModuleId × Bytes)) : Option MoveChangeSet :=
  bundle.foldlM (fun writes module => addModuleOp writes module.1 (.new module.2)) ∅

variable {S : Type} (vm : GenesisVm S)

/-- The modules of the L2 package are independent of one another. -/
def publishL2Module (state : InMemoryStorage) (writes : MoveChangeSet) (code : Bytes) :
    Option MoveChangeSet :=
  let sender := (vm.selfId code).1
  if toMoveAddress l2LowestAddress ≤ sender ∧ sender ≤ toMoveAddress l2HighestAddress then do
    let bundle ← vm.verify state sender [code]
    let single ← convertBundleIntoModuleOps bundle
    squash writes single
  else none

def packageWrites (state : InMemoryStorage) (package : ReleasePackage) : Option MoveChangeSet :=
  if package.name = l2PackageName then package.code.foldlM (publishL2Module vm state) ∅
  else
    match package.code with
    | [] => none
    | code :: _ =>
      let sender := (vm.selfId code).1
      if sender = frameworkAddress ∨ sender = tokenAddress ∨ sender = tokenObjectAddress then do
        let bundle ← vm.verify state sender package.code
        convertBundleIntoModuleOps bundle
      else none

/-- Later packages are linked against this one. -/
def Deployment.add (deployment : Deployment) (writes : MoveChangeSet) : Option Deployment := do
  let state ← deployment.2.apply writes
  let merged ← squash deployment.1 writes
  some (merged, state)

def publishPackage (deployment : Deployment) (package : ReleasePackage) : Option Deployment := do
  let writes ← packageWrites vm deployment.2 package
  deployment.add writes

def initializePackage (state : InMemoryStorage) (session : S) (package : ReleasePackage) :
    Option S :=
  match package.code with
  | [] => none
  | code :: _ => do
    let framework ← simpleSerialize (.signer frameworkAddress)
    let owner ← simpleSerialize (.signer (vm.selfId code).1)
    vm.executeFunction state session (frameworkAddress, "code") "initialize"
      [framework, owner, package.metadata]

/-- The session at the end of `deploy_aptos_framework`. The scratch state is without its changes. -/
def initializePackages (state : InMemoryStorage) (packages : List ReleasePackage) :
    Option MoveChangeSet := do
  let session ← packages.foldlM (initializePackage vm state) (vm.newSession state)
  vm.finish state session

def deployAptosFramework (packages : List ReleasePackage) (state : InMemoryStorage) :
    Option Deployment := do
  let published ← packages.foldlM (publishPackage vm) (∅, state)
  let sessionChanges ← initializePackages vm published.2 packages
  let writes ← squash published.1 sessionChanges
  some (writes, published.2)

def initializeEthToken (state : InMemoryStorage) : Option MoveChangeSet := do
  let owner ← simpleSerialize (.signer frameworkAddress)
  let session ← vm.executeFunction state (vm.newSession state) (frameworkAddress, "eth_token")
    "init_module" [owner]
  vm.finish state session

/-- One of the two blocks of `deploy_sui_framework`. -/
def publishSui (snapshots : Table AccountAddress (List Bytes)) (deployment : Deployment)
    (address : AccountAddress) : Option Deployment := do
  let code ← snapshots.lookup address
  let bundle ← vm.verify deployment.2 address code
  let writes ← convertBundleIntoModuleOps bundle
  deployment.add writes

def deploySuiFramework (snapshots : Table AccountAddress (List Bytes)) (state : InMemoryStorage) :
    Option Deployment := do
  let stdlib ← publishSui vm snapshots (∅, state) suiStdlibAddress
  publishSui vm snapshots stdlib suiFrameworkAddress

/-- The packages that come with the node. -/
structure Frameworks where
  aptos : List ReleasePackage
  sui : Table AccountAddress (List Bytes)

/-- `framework::init_state`; a failed `expect` gives `none`. -/
def deployFramework (frameworks : Frameworks) (state : InMemoryStorage) : Option Deployment := do
  let aptos ← deployAptosFramework vm frameworks.aptos state
  let eth ← initializeEthToken vm aptos.2
  let sui ← deploySuiFramework vm frameworks.sui aptos.2
  let withEth ← squash aptos.1 eth
  let all ← squash withEth sui.1
  some (all, sui.2)

end Framework

section Contracts

variable (libs : Libraries)

/-- `l2_contracts::init_state`. -/
def l2InitState (alloc : Table Address GenesisAccount) (state : InMemoryStorage)
    (tries : Address → TrieDb) : Option Changes :=
  genesisStateChanges libs.lib libs.codec.keccak256
    (evmStateOf libs ⟨⟨state, fun _ => none, none⟩, tries⟩) alloc

structure BridgedToken where
  name : String
  symbol : String
  decimals : UInt8
  ethereumAddress : Address

def factoryAddress : Address := 0x4200000000000000000000000000000000000012

/-- The selector of `createOptimismMintableERC20WithDecimals`. -/
def selector : Bytes := [0x8c, 0xf0, 0x62, 0x9c]

def encodeParams (token : BridgedToken) : Bytes :=
  selector ++ abiEncodeParams (.tuple [.address token.ethereumAddress,
    .string token.name.toUTF8.toList, .string token.symbol.toUTF8.toList,
    .uint (BitVec.ofNat 256 token.decimals.toNat) 8])

def ExecutionResult.isSuccess : ExecutionResult → Bool
  | .success .. => true
  | .revert .. | .halt _ => false

variable {X : Type} (revm : Revm X)

def deployToken (ctx : NativeEVMContext) (token : BridgedToken) : Option NativeEVMContext :=
  match evmTransactWithNative revm libs.lib ctx
      ⟨0, .call factoryAddress, 0, encodeParams token, maxU64⟩ with
  | (.ok outcome, ctx) => if ExecutionResult.isSuccess outcome.result then some ctx else none
  | (.error _, _) => none

/-- `ChangesBasedResolver` in front of the storage tries of the same changes. -/
def stateOfChanges (changes : Changes) (tries : Address → TrieDb) : EvmState :=
  ⟨fun key => (changes.accounts.lookup key).bind Op.value, tries⟩

/-- The loop of `with_trie_changes` over the new storage tries. -/
def addTries (tries new : Table Address StorageTrieChanges) : Table Address StorageTrieChanges :=
  new.entries.foldl (fun tries entry => withTrieChanges tries entry.1 entry.2) tries

/-- All tokens are deployed in one context, which is where `deploy_bridged_tokens` begins. -/
def runTokens (l2 : Changes) (tokens : List BridgedToken) : Option NativeEVMContext := do
  let tries ← applyStorage libs (fun _ => ⟨none, ∅⟩) l2.storage
  tokens.foldlM (deployToken libs revm)
    (.new (stateOfChanges l2 tries) (fun _ => none) ⟨0, 0, 0⟩)

def deployBridgedTokens (l2 : Changes) (tokens : List BridgedToken) : Option Changes := do
  let ctx ← runTokens libs revm l2 tokens
  let new ← extractEvmChanges libs.lib libs.codec.keccak256 ctx.state ctx.stateChanges
  let accounts ← l2.accounts.squash new.accounts
  some ⟨accounts, addTries l2.storage new.storage⟩

def resourceTag : ResourceKey → StructTag
  | .account a => accountInfoStructTag a
  | .code codeHash => codeHashStructTag codeHash

/-- The resources of the EVM as a change set of the native address. -/
def moveChanges (accounts : ChangeSet ResourceKey ResourceValue) : MoveChangeSet :=
  AList.singleton evmNativeAddress
    ⟨∅, (accounts.entries.map fun entry => ⟨resourceTag entry.1, encodeOp entry.2⟩).toAList⟩

end Contracts

section Build

/-- The chain id, the gas costs and the treasury are for other components. -/
structure GenesisConfig where
  initialStateRoot : B256
  l2ContractGenesis : Table Address GenesisAccount
  tokenList : List BridgedToken

structure GenesisChanges where
  accounts : MoveChangeSet
  tables : TableChangeSet
  evmStorage : Table Address StorageTrieChanges

variable (libs : Libraries) {S X : Type} (vm : GenesisVm S) (revm : Revm X)
variable (frameworks : Frameworks) (config : GenesisConfig)

/-- The L2 contracts, with the bridged tokens if there are any. -/
def l2Changes (state : InMemoryStorage) (tries : Address → TrieDb) : Option Changes := do
  let contracts ← l2InitState libs config.l2ContractGenesis state tries
  if config.tokenList.isEmpty then some contracts
  else deployBridgedTokens libs revm contracts config.tokenList

def build (tries : Address → TrieDb) : Option GenesisChanges := do
  let framework ← deployFramework vm frameworks InMemoryState.new.resolver
  let l2 ← l2Changes libs revm config framework.2 tries
  let accounts ← squash ∅ framework.1
  let accounts ← squash accounts (moveChanges l2.accounts)
  some ⟨accounts, .default, l2.storage⟩

/-- `genesis::apply`, which panics unless the state gets the configured root. -/
def apply (node : NodeState) (tables : TableStore) (genesis : GenesisChanges) :
    Option (NodeState × TableStore) := do
  let next ← node.apply libs ⟨genesis.accounts, genesis.evmStorage⟩
  let tables ← tables.applyTable genesis.tables
  if next.state.stateRoot = config.initialStateRoot then some (next, tables) else none

def buildAndApply (node : NodeState) (tables : TableStore) : Option (NodeState × TableStore) := do
  let genesis ← build libs vm revm frameworks config node.evmStorage
  apply libs config node tables genesis

end Build

end OpMove.Genesis
