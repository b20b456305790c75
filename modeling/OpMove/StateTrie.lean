import OpMove.TreeKeys
import OpMove.Writes

/-!
The state in memory: a flat store of modules and resources that execution reads, and a trie under
a root that everything else reads. A change set goes into both. The trie is a finite map in which
an empty value removes its key; its database keeps every committed tree under its root. The
writes of one change set come out of a hash map, so their order is arbitrary.
-/

namespace OpMove.StateTrie

open Primitives MoveTypes ChangeSets Writes TreeKeys

section Data

structure AccountChanges where
  modules : ChangeSet String Bytes
  resources : ChangeSet StructTag Bytes

/-- The change set of a transaction, by account. -/
abbrev MoveChangeSet := AList fun _ : AccountAddress => AccountChanges

structure AccountStorage where
  modules : String → Option Bytes
  resources : StructTag → Option Bytes

/-- The flat store; an account without a record has nothing. -/
abbrev InMemoryStorage := AccountAddress → AccountStorage

abbrev Tree := B256 → Option Bytes

structure InMemoryState where
  resolver : InMemoryStorage
  db : B256 → Option Tree
  currentStateRoot : Option B256

def InMemoryState.new : InMemoryState := ⟨fun _ => ⟨fun _ => none, fun _ => none⟩, fun _ => none, none⟩

end Data

section Flat

/-- A creation needs an absent key, a modification and a deletion a present one. -/
def fits {V : Type} (op : Op V) (old : Option V) : Bool :=
  match op with
  | .new _ => old.isNone
  | .modify _ | .delete => old.isSome

def changesFit {K : Type} [DecidableEq K] (changes : ChangeSet K Bytes) (base : K → Option Bytes) :
    Bool :=
  changes.entries.all fun change => fits change.2 (base change.1)

/-- `InMemoryStorage::apply`, which fails where an operation does not fit. -/
def InMemoryStorage.apply (storage : InMemoryStorage) (changes : MoveChangeSet) :
    Option InMemoryStorage :=
  if changes.entries.all (fun account => changesFit account.2.modules (storage account.1).modules &&
      changesFit account.2.resources (storage account.1).resources) then
    some fun address =>
      match changes.lookup address with
      | none => storage address
      | some account => ⟨account.modules.apply (storage address).modules,
          account.resources.apply (storage address).resources⟩
  else none

def InMemoryStorage.getModule (storage : InMemoryStorage) (address : AccountAddress)
    (name : String) : Option Bytes :=
  (storage address).modules name

/-- Bytes of a resource with their count. -/
def withLength (value : Option Bytes) : Option Bytes × ℕ := (value, (value.map List.length).getD 0)

def InMemoryStorage.getResource (storage : InMemoryStorage) (address : AccountAddress)
    (tag : StructTag) : Option Bytes × ℕ :=
  withLength ((storage address).resources tag)

end Flat

section Trie

variable (codec : StateCodec) (rootHash : Tree → B256)

def resourceKey (address : AccountAddress) (tag : StructTag) : TreeKey :=
  match evmKeyAddress tag with
  | some evmAddress => .evm evmAddress
  | none => .stateKey (.resource address tag)

def resourceValue (tag : StructTag) (op : Op Bytes) : TreeValue :=
  if isEvmStorageOrAccountKey tag then (op.value.map .evm).getD .deleted
  else (op.value.map .stateValue).getD .deleted

def moduleValue (op : Op Bytes) : TreeValue := (op.value.map .stateValue).getD .deleted

/-- The pairs `to_tree_values` goes through. -/
def treeValues (changes : MoveChangeSet) : List (TreeKey × TreeValue) :=
  changes.entries.flatMap fun account =>
    account.2.modules.entries.map (fun change =>
      (.stateKey (.module account.1 change.1), moduleValue change.2)) ++
    account.2.resources.entries.map fun change =>
      (resourceKey account.1 change.1, resourceValue change.1 change.2)

/-- Collecting pairs into a hash map: the last one of a key stays. -/
def collect (pairs : List (TreeKey × TreeValue)) : AList fun _ : TreeKey => TreeValue :=
  pairs.foldl (fun map pair => map.insert pair.1 pair.2) ∅

def toTreeValues (changes : MoveChangeSet) : AList fun _ : TreeKey => TreeValue :=
  collect (treeValues changes)

/-- Inserting into the trie; an empty value removes the key. -/
def insert (tree : Tree) (key : B256) (value : Bytes) : Tree :=
  Function.update tree key (if value = [] then none else some value)

/-- The loop of `insert_change_set_into_merkle_trie`, over the pairs in the order they come. -/
def insertChangeSet (tree : Tree) (order : List (Σ _ : TreeKey, TreeValue)) : Tree :=
  order.foldl (fun tree pair => insert tree (codec.keyHash pair.1) (codec.serialize pair.2)) tree

namespace InMemoryState

variable (state : InMemoryState)

def tree : Option Tree :=
  match state.currentStateRoot with
  | none => some fun _ => none
  | some root => state.db root

def stateRoot : B256 := state.currentStateRoot.getD 0

def apply (order : List (Σ _ : TreeKey, TreeValue)) (changes : MoveChangeSet) :
    Option InMemoryState := do
  let tree ← state.tree
  let next := insertChangeSet codec tree order
  let resolver ← state.resolver.apply changes
  some ⟨resolver, Function.update state.db (rootHash next) (some next), some (rootHash next)⟩

end InMemoryState

/-- Bytes that are no state value make the node panic. -/
def deserializeStateValue (bytes : Option Bytes) : Option (Option Bytes) :=
  match bytes with
  | none => some none
  | some bytes => (codec.stateValueData bytes).map some

/-- `EthTrieResolver::get_module`. -/
def getModule (tree : Tree) (address : AccountAddress) (name : String) : Option (Option Bytes) :=
  deserializeStateValue codec (tree (codec.keyHash (.stateKey (.module address name))))

/-- `EthTrieResolver::get_resource_bytes_with_metadata_and_layout`. -/
def getResource (tree : Tree) (address : AccountAddress) (tag : StructTag) :
    Option (Option Bytes × ℕ) :=
  let value := tree (codec.keyHash (resourceKey address tag))
  if isEvmStorageOrAccountKey tag then some (withLength value)
  else (deserializeStateValue codec value).map withLength

/-- The states that sequences of change sets lead to, whatever order the writes come in. -/
inductive StateRuns : InMemoryState → List MoveChangeSet → Prop
  | new : StateRuns .new []
  | apply {state next : InMemoryState} {history : List MoveChangeSet} {changes : MoveChangeSet}
      {order : List (Σ _ : TreeKey, TreeValue)} : StateRuns state history →
      order.Perm (toTreeValues changes).entries →
      state.apply codec rootHash order changes = some next →
      StateRuns next (history ++ [changes])

end Trie

section Collecting

/-- Pairs that agree on every key are found in the map they are collected into. -/
theorem lookup_collect {pairs : List (TreeKey × TreeValue)}
    (hagree : ∀ key a b, (key, a) ∈ pairs → (key, b) ∈ pairs → a = b) {key : TreeKey}
    {value : TreeValue} : (collect pairs).lookup key = some value ↔ (key, value) ∈ pairs := by
  induction pairs using List.reverseRecOn with
  | nil => simp [collect, AList.lookup_empty]
  | append_singleton pairs pair ih =>
    have hprev := ih fun key a b ha hb =>
      hagree key a b (List.mem_append_left _ ha) (List.mem_append_left _ hb)
    rw [collect, List.foldl_append, List.foldl_cons, List.foldl_nil, ← collect]
    obtain ⟨last, lastValue⟩ := pair
    by_cases hkey : key = last
    · subst hkey
      rw [AList.lookup_insert, Option.some.injEq]
      constructor
      · rintro rfl
        simp
      · intro hmem
        exact hagree key _ _ (by simp) hmem
    · rw [AList.lookup_insert_ne hkey, hprev]
      simp [hkey]

end Collecting

section Operations

variable {changes : MoveChangeSet}

/-- The operation a change set has for a key of the trie. -/
def opAt (changes : MoveChangeSet) : TreeKey → Option (Op Bytes)
  | .stateKey (.module address name) =>
      (changes.lookup address).bind fun account => account.modules.lookup name
  | .stateKey (.resource address tag) =>
      (changes.lookup address).bind fun account => account.resources.lookup tag
  | .evm address => (changes.lookup evmNativeAddress).bind fun account =>
      account.resources.lookup (accountInfoStructTag address)

/-- What the flat store has for a key of the trie. -/
def memoryAt (storage : InMemoryStorage) : TreeKey → Option Bytes
  | .stateKey (.module address name) => (storage address).modules name
  | .stateKey (.resource address tag) => (storage address).resources tag
  | .evm address => (storage evmNativeAddress).resources (accountInfoStructTag address)

/-- The value an operation gives a key. -/
def treeValue : TreeKey → Op Bytes → TreeValue
  | .stateKey _, op => (op.value.map .stateValue).getD .deleted
  | .evm _, op => (op.value.map .evm).getD .deleted

/-- A resource whose name holds an address is not kept under its state key. -/
def Formed : TreeKey → Prop
  | .stateKey (.resource _ tag) => evmKeyAddress tag = none
  | _ => True

/-- Resources with the prefix of accounts are account resources of the native EVM address. -/
def AccountKeys (changes : MoveChangeSet) : Prop :=
  ∀ address account tag op, changes.lookup address = some account →
    account.resources.lookup tag = some op → isEvmStorageOrAccountKey tag = true →
      address = evmNativeAddress ∧ ∃ evmAddress, tag = accountInfoStructTag evmAddress

/-- No account resource is written as the empty byte string. -/
def AccountValues (changes : MoveChangeSet) : Prop :=
  ∀ address account tag op, changes.lookup address = some account →
    account.resources.lookup tag = some op → isEvmStorageOrAccountKey tag = true →
      op.value ≠ some []

/-- Under these keys the two conditions of the source agree: a name with the prefix has an
address in it. -/
theorem isEvm_eq_false_of_evmKeyAddress (hkeys : AccountKeys changes) {address : AccountAddress}
    {account : AccountChanges} {tag : StructTag} {op : Op Bytes}
    (haccount : changes.lookup address = some account)
    (hop : account.resources.lookup tag = some op) (h : evmKeyAddress tag = none) :
    isEvmStorageOrAccountKey tag = false := by
  rw [Bool.eq_false_iff]
  intro hevm
  obtain ⟨-, evmAddress, rfl⟩ := hkeys address account tag op haccount hop hevm
  rw [evmKeyAddress_accountInfoStructTag] at h
  cases h

/-- A changed resource, at the key and with the value it gets in the trie. -/
theorem resource_at_key (hkeys : AccountKeys changes) {address : AccountAddress}
    {account : AccountChanges} {tag : StructTag} {op : Op Bytes}
    (haccount : changes.lookup address = some account)
    (hop : account.resources.lookup tag = some op) :
    Formed (resourceKey address tag) ∧ opAt changes (resourceKey address tag) = some op ∧
      resourceValue tag op = treeValue (resourceKey address tag) op := by
  cases hkey : evmKeyAddress tag with
  | none =>
    have hplain := isEvm_eq_false_of_evmKeyAddress hkeys haccount hop hkey
    simp only [resourceKey, hkey, resourceValue, hplain, Bool.false_eq_true, if_false]
    refine ⟨hkey, ?_, rfl⟩
    rw [opAt, haccount, Option.bind_some, hop]
  | some evmAddress =>
    have hevm := isEvmStorageOrAccountKey_of_evmKeyAddress hkey
    obtain ⟨rfl, owner, rfl⟩ := hkeys address account tag op haccount hop hevm
    rw [evmKeyAddress_accountInfoStructTag, Option.some.injEq] at hkey
    subst hkey
    simp only [resourceKey, evmKeyAddress_accountInfoStructTag, resourceValue, hevm, if_true]
    refine ⟨trivial, ?_, rfl⟩
    rw [opAt, haccount, Option.bind_some, hop]

/-- A key of the trie under which a resource is changed is the key of that resource. -/
theorem exists_change {key : TreeKey} {op : Op Bytes} (hformed : Formed key)
    (hop : opAt changes key = some op) :
    (∃ address account name, changes.lookup address = some account ∧
      account.modules.lookup name = some op ∧ key = .stateKey (.module address name)) ∨
    ∃ address account tag, changes.lookup address = some account ∧
      account.resources.lookup tag = some op ∧ key = resourceKey address tag := by
  cases key with
  | stateKey key =>
    cases key with
    | module address name =>
      obtain ⟨account, haccount, hop⟩ := Option.bind_eq_some_iff.mp hop
      exact Or.inl ⟨address, account, name, haccount, hop, rfl⟩
    | resource address tag =>
      obtain ⟨account, haccount, hop⟩ := Option.bind_eq_some_iff.mp hop
      have hformed : evmKeyAddress tag = none := hformed
      refine Or.inr ⟨address, account, tag, haccount, hop, ?_⟩
      rw [resourceKey, hformed]
  | evm evmAddress =>
    obtain ⟨account, haccount, hop⟩ := Option.bind_eq_some_iff.mp hop
    refine Or.inr ⟨evmNativeAddress, account, accountInfoStructTag evmAddress, haccount, hop, ?_⟩
    rw [resourceKey, evmKeyAddress_accountInfoStructTag]

/-- The pairs of a change set are its operations at the keys of the trie. -/
theorem mem_treeValues_iff (hkeys : AccountKeys changes) {key : TreeKey} {value : TreeValue} :
    (key, value) ∈ treeValues changes ↔
      Formed key ∧ ∃ op, opAt changes key = some op ∧ value = treeValue key op := by
  simp only [treeValues, List.mem_flatMap, List.mem_append, List.mem_map]
  constructor
  · rintro ⟨⟨address, account⟩, hentry, ⟨⟨name, op⟩, hchange, hpair⟩ | ⟨⟨tag, op⟩, hchange, hpair⟩⟩
    · obtain ⟨rfl, rfl⟩ := Prod.mk.inj hpair
      refine ⟨trivial, op, ?_, rfl⟩
      rw [opAt, AList.mem_lookup_iff.mpr hentry, Option.bind_some, AList.mem_lookup_iff.mpr hchange]
    · obtain ⟨rfl, rfl⟩ := Prod.mk.inj hpair
      obtain ⟨hformed, hop, hvalue⟩ := resource_at_key hkeys (AList.mem_lookup_iff.mpr hentry)
        (AList.mem_lookup_iff.mpr hchange)
      exact ⟨hformed, op, hop, hvalue⟩
  · rintro ⟨hformed, op, hop, rfl⟩
    rcases exists_change hformed hop with ⟨address, account, name, haccount, hchange, rfl⟩ |
      ⟨address, account, tag, haccount, hchange, rfl⟩
    · exact ⟨⟨address, account⟩, AList.mem_lookup_iff.mp haccount,
        Or.inl ⟨⟨name, op⟩, AList.mem_lookup_iff.mp hchange, rfl⟩⟩
    · refine ⟨⟨address, account⟩, AList.mem_lookup_iff.mp haccount,
        Or.inr ⟨⟨tag, op⟩, AList.mem_lookup_iff.mp hchange, ?_⟩⟩
      rw [(resource_at_key hkeys haccount hchange).2.2]

theorem lookup_toTreeValues (hkeys : AccountKeys changes) {key : TreeKey} {value : TreeValue} :
    (toTreeValues changes).lookup key = some value ↔
      Formed key ∧ ∃ op, opAt changes key = some op ∧ value = treeValue key op := by
  rw [toTreeValues, lookup_collect, mem_treeValues_iff hkeys]
  intro key a b ha hb
  obtain ⟨-, op, hop, rfl⟩ := (mem_treeValues_iff hkeys).mp ha
  obtain ⟨-, other, hother, rfl⟩ := (mem_treeValues_iff hkeys).mp hb
  rw [hop, Option.some.injEq] at hother
  rw [hother]

theorem memoryAt_apply {storage next : InMemoryStorage} (h : storage.apply changes = some next)
    (key : TreeKey) : memoryAt next key = Op.after (memoryAt storage key) (opAt changes key) := by
  unfold InMemoryStorage.apply at h
  split_ifs at h
  obtain rfl := Option.some.inj h
  cases key with
  | stateKey key =>
    cases key with
    | module address name =>
      cases haccount : changes.lookup address with
      | none => simp only [memoryAt, opAt, haccount, Option.bind_none, Op.after]
      | some account =>
        simp only [memoryAt, opAt, haccount, Option.bind_some, ChangeSet.apply_eq_after]
    | resource address tag =>
      cases haccount : changes.lookup address with
      | none => simp only [memoryAt, opAt, haccount, Option.bind_none, Op.after]
      | some account =>
        simp only [memoryAt, opAt, haccount, Option.bind_some, ChangeSet.apply_eq_after]
  | evm address =>
    cases haccount : changes.lookup evmNativeAddress with
    | none => simp only [memoryAt, opAt, haccount, Option.bind_none, Op.after]
    | some account =>
      simp only [memoryAt, opAt, haccount, Option.bind_some, ChangeSet.apply_eq_after]

end Operations

end OpMove.StateTrie
