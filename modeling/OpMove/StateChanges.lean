import OpMove.ChangeSets
import OpMove.StorageTries

/-!
Turning the state maps of EVM calls into changes of the Move state. Every map is
extracted on its own: the storage trie of a touched account is opened at the root
stored in the database, the changed slots are inserted, and the outcome is added to
what earlier maps left. Account and code resources go through change sets, which are
squashed map after map.
-/

namespace OpMove.StateChanges

open Primitives ChangeSets StorageTries

/-- A hash map of the source; the order of its entries is arbitrary. -/
abbrev Table (K V : Type) := AList fun _ : K => V

section Data

structure AccountInfo where
  balance : U256
  nonce : ℕ
  codeHash : B256
  code : Option Bytes
  deriving DecidableEq, Repr

structure EvmStorageSlot where
  originalValue : U256
  presentValue : U256
  deriving DecidableEq, Repr

structure EvmAccount where
  info : AccountInfo
  storage : Table U256 EvmStorageSlot
  isTouched : Bool
  isSelfdestructed : Bool

/-- The state map of one call. -/
abbrev StateMap := Table Address EvmAccount

/-- Resources at the native EVM address: `Account_<address>` and `CodeHash_<hash>`. -/
inductive ResourceKey
  | account (address : Address)
  | code (hash : B256)
  deriving DecidableEq, Repr

structure AccountResource where
  nonce : ℕ
  balance : U256
  codeHash : B256
  storageRoot : B256
  deriving DecidableEq, Repr

inductive ResourceValue
  | account (resource : AccountResource)
  | code (bytes : Bytes)
  deriving DecidableEq, Repr

structure Changes where
  accounts : ChangeSet ResourceKey ResourceValue
  storage : Table Address StorageTrieChanges

structure EvmState where
  resources : ResourceKey → Option ResourceValue
  tries : Address → TrieDb

/-- A state whose databases store the given slots. -/
structure EvmBase (lib : TrieLibrary) extends EvmState where
  storage : Address → Storage
  stores : ∀ a, Stores lib (tries a) (storage a)

/-- The slot's new value if the map changed it. -/
def EvmStorageSlot.change (slot : EvmStorageSlot) : Option U256 :=
  if slot.originalValue ≠ slot.presentValue then some slot.presentValue else none

def EvmAccount.isPersisted (account : EvmAccount) : Bool :=
  account.isTouched && !account.isSelfdestructed

def keccakEmpty : B256 := 0xc5d2460186f7233c927e7db2dcc703c0e500b653ca82273b7bfad8045d85a470

end Data

section Extraction

variable (lib : TrieLibrary) (keccak256 : Bytes → B256)

def accountCodeHash (info : AccountInfo) : B256 :=
  match info.code with
  | some [] => keccakEmpty
  | some code => keccak256 code
  | none => if info.codeHash = 0 then keccakEmpty else info.codeHash

/-- Insert the slots an account changed. -/
def insertChangedSlots (trie : StorageTrie) (account : EvmAccount) : StorageTrie :=
  account.storage.entries.foldl
    (fun trie slot => match slot.2.change with
      | some value => trie.insert slot.1 value
      | none => trie) trie

def resourceExists (resources : ResourceKey → Option ResourceValue)
    (priorChanges : ChangeSet ResourceKey ResourceValue) (key : ResourceKey) : Bool :=
  (priorChanges.lookup key).isSome || (resources key).isSome

/-- The resource of an account, with the root of its storage. -/
def accountResource (account : EvmAccount) (storageRoot : B256) : AccountResource :=
  ⟨account.info.nonce, account.info.balance, account.info.codeHash, storageRoot⟩

/-- Code is pushed once; a second push of the same code in one map is dropped. -/
def addCode (resources : ResourceKey → Option ResourceValue)
    (priorChanges result : ChangeSet ResourceKey ResourceValue) (info : AccountInfo) :
    ChangeSet ResourceKey ResourceValue :=
  let key := ResourceKey.code (accountCodeHash keccak256 info)
  if resourceExists resources priorChanges key then result
  else
    match info.code with
    | none | some [] => result
    | some code => (result.addOp key (.new (.code code))).getD result

def addAccountChanges (state : EvmState) (address : Address) (account : EvmAccount)
    (priorChanges result : ChangeSet ResourceKey ResourceValue) :
    Option (StorageTrieChanges × ChangeSet ResourceKey ResourceValue) := do
  let trie ← (state.tries address).forAccount lib
  let storageChanges := (insertChangedSlots trie account).commit lib
  let key := ResourceKey.account address
  let value := ResourceValue.account (accountResource account storageChanges.root)
  let op := if resourceExists state.resources priorChanges key then .modify value else .new value
  let result ← result.addOp key op
  some (storageChanges, addCode keccak256 state.resources priorChanges result account.info)

def addTo (old : Option StorageTrieChanges) (changes : StorageTrieChanges) : StorageTrieChanges :=
  match old with
  | some old => old.add changes
  | none => changes

def withTrieChanges (tries : Table Address StorageTrieChanges) (address : Address)
    (changes : StorageTrieChanges) : Table Address StorageTrieChanges :=
  tries.insert address (addTo (tries.lookup address) changes)

/-- What the inner loop carries: the changes of this map, and the tries of all maps. -/
abbrev MapProgress := ChangeSet ResourceKey ResourceValue × Table Address StorageTrieChanges

def extractAccount (state : EvmState) (priorChanges : ChangeSet ResourceKey ResourceValue)
    (progress : MapProgress) (entry : Σ _ : Address, EvmAccount) : Option MapProgress :=
  if !entry.2.isTouched || entry.2.isSelfdestructed then some progress
  else do
    let (storageChanges, result) ←
      addAccountChanges lib keccak256 state entry.1 entry.2 priorChanges progress.1
    some (result, withTrieChanges progress.2 entry.1 storageChanges)

def extractMap (state : EvmState) (progress : MapProgress) (map : StateMap) :
    Option MapProgress := do
  let (single, tries) ← map.entries.foldlM (extractAccount lib keccak256 state progress.1)
    (∅, progress.2)
  let accounts ← progress.1.squash single
  some (accounts, tries)

/-- `extract_evm_changes_from_native`; a failed `expect` or `unwrap` gives `none`. -/
def extractEvmChanges (state : EvmState) (maps : List StateMap) : Option Changes := do
  let (accounts, tries) ← maps.foldlM (extractMap lib keccak256 state) (∅, ∅)
  some ⟨accounts, tries⟩

/-- The state after the resources are written and `StorageTrieRepository::apply` ran. -/
def applyChanges (state : EvmState) (changes : Changes) : EvmState where
  resources := changes.accounts.apply state.resources
  tries a :=
    match changes.storage.lookup a with
    | none => state.tries a
    | some trieChanges => (state.tries a).apply trieChanges

end Extraction

section Meaning

/-- The account as the map persists it. -/
def persisted (map : StateMap) (a : Address) : Option EvmAccount :=
  (map.lookup a).filter fun account => account.isPersisted

/-- The present value of a slot in a map that changed it. -/
def EvmAccount.slotChange (account : EvmAccount) (i : U256) : Option U256 :=
  (account.storage.lookup i).bind fun slot => slot.change

/-- The accounts the maps persist for an address, in order. -/
def persistedAll (maps : List StateMap) (a : Address) : List EvmAccount :=
  maps.filterMap fun map => persisted map a

/-- The value of the last map that changed the slot. -/
def lastChange (maps : List StateMap) (a : Address) (i : U256) : Option U256 :=
  ((persistedAll maps a).filterMap fun account => account.slotChange i).getLast?

/-- The account in the last map that touched it. -/
def lastTouched (maps : List StateMap) (a : Address) : Option EvmAccount :=
  (maps.filterMap fun map => (map.lookup a).filter fun account => account.isTouched).getLast?

def slotsAfter (storage : Storage) (account : EvmAccount) : Storage := fun i =>
  (account.slotChange i).getD (storage i)

/-- Nothing is lost: extraction succeeds, every slot has its last value, every account that was
not destroyed where it was last touched has its last information, and the storage root of
a written account is the root of its database. -/
def Lossless {lib : TrieLibrary} (keccak256 : Bytes → B256) (base : EvmBase lib)
    (maps : List StateMap) : Prop :=
  ∃ changes, extractEvmChanges lib keccak256 base.toEvmState maps = some changes ∧
    (∀ a, ∃ storage, ((applyChanges base.toEvmState changes).tries a).read lib = some storage ∧
      ∀ i, storage i = (lastChange maps a i).getD (base.storage a i)) ∧
    (∀ a account, lastTouched maps a = some account → account.isSelfdestructed = false →
      ∃ root, (applyChanges base.toEvmState changes).resources (.account a) =
        some (.account (accountResource account root))) ∧
    ∀ a op resource, changes.accounts.lookup (.account a) = some op →
      op.value = some (.account resource) →
      ((applyChanges base.toEvmState changes).tries a).root = some resource.storageRoot

/-- The storage maps extraction works with. -/
def Occurring {lib : TrieLibrary} (base : EvmBase lib) (maps : List StateMap)
    (storage : Storage) : Prop :=
  ∃ a, storage = base.storage a ∨
    ∃ account ∈ persistedAll maps a, storage = slotsAfter (base.storage a) account

end Meaning

end OpMove.StateChanges
