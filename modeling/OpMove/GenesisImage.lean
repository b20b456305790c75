import OpMove.GenesisState
import OpMove.TrieRefinement

/-!
The genesis image. The changes of a build are written to a file, in types that can be serialised,
and read back when a node starts. Serialisation is a parameter and keeps maps without their order.
On the way back every operation is added to an empty change set, which drops the accounts without
operations. A node that starts from the image gets the state, the state root, the tables and the
tries of one that builds genesis itself, or neither of them starts.
-/

namespace OpMove.Genesis

open Primitives MoveTypes ChangeSets StateChanges StorageTries NativeEvm TreeKeys StateTrie
open TrieRefinement Queries AccountProofs Sessions Tables PastAnswers Extraction PayloadIds

section Image

inductive SerdeOp
  | new (value : Bytes)
  | modify (value : Bytes)
  | delete
  deriving DecidableEq, Repr

/-- The two conversions of an operation. -/
def SerdeOp.ofOp : Op Bytes → SerdeOp
  | .new value => .new value
  | .modify value => .modify value
  | .delete => .delete

def SerdeOp.toOp : SerdeOp → Op Bytes
  | .new value => .new value
  | .modify value => .modify value
  | .delete => .delete

@[simp] theorem SerdeOp.toOp_ofOp (op : Op Bytes) : (ofOp op).toOp = op := by
  cases op <;> rfl

/-- Another map with the same keys. -/
def mapValues {K V W : Type} (f : V → W) (table : Table K V) : Table K W :=
  ⟨table.entries.map (.map id fun _ => f), .map₂ _ _ table.nodupKeys⟩

theorem lookup_mapValues {K V W : Type} [DecidableEq K] (f : V → W) (table : Table K V) (k : K) :
    (mapValues f table).lookup k = (table.lookup k).map f :=
  List.dlookup_map₂ (f := fun _ => f) k

structure SerdeAccountChanges where
  modules : Table String SerdeOp
  resources : Table StructTag SerdeOp

/-- The entries are those of all tables together, as in the change set itself. -/
structure SerdeTableChangeSet where
  newTables : List TableHandle
  removedTables : List TableHandle
  changes : Table (TableHandle × Bytes) SerdeOp

structure SerdeEvmStorageTrieChanges where
  root : B256
  trieDiff : Nodes

structure SerdeAllChanges where
  changes : Table AccountAddress SerdeAccountChanges
  tables : SerdeTableChangeSet
  evmStorage : Table Address SerdeEvmStorageTrieChanges

/-- `SerdeAllChanges::new` over the three conversions. -/
def imageOf (genesis : GenesisChanges) : SerdeAllChanges where
  changes := mapValues (fun account =>
    ⟨mapValues SerdeOp.ofOp account.modules, mapValues SerdeOp.ofOp account.resources⟩)
    genesis.accounts
  tables := ⟨genesis.tables.newTables, genesis.tables.removedTables,
    mapValues SerdeOp.ofOp genesis.tables.changes⟩
  evmStorage := mapValues (fun trie => ⟨trie.root, trie.trieDiff⟩) genesis.evmStorage

def addAccount (set : MoveChangeSet) (account : Σ _ : AccountAddress, SerdeAccountChanges) :
    Option MoveChangeSet := do
  let set ← account.2.modules.entries.foldlM
    (fun set change => addModuleOp set (account.1, change.1) change.2.toOp) set
  account.2.resources.entries.foldlM
    (fun set change => addResourceOp set account.1 change.1 change.2.toOp) set

/-- The way back to a change set; a failed `unwrap` gives `none`. -/
def toChangeSet (changes : Table AccountAddress SerdeAccountChanges) : Option MoveChangeSet :=
  changes.entries.foldlM addAccount ∅

def changesOf (image : SerdeAllChanges) : Option GenesisChanges := do
  let accounts ← toChangeSet image.changes
  some
    { accounts := accounts
      tables := ⟨image.tables.newTables, image.tables.removedTables,
        mapValues SerdeOp.toOp image.tables.changes⟩
      evmStorage := mapValues (fun trie => ⟨trie.root, trie.trieDiff⟩) image.evmStorage }

/-- The serialisation of images. -/
structure Bcs where
  toBytes : SerdeAllChanges → Option Bytes
  fromBytes : Bytes → Option SerdeAllChanges

section Commands

variable {S X : Type} (bcs : Bcs) (libs : Libraries) (vm : GenesisVm S) (revm : Revm X)
variable (frameworks : Frameworks) (config : GenesisConfig)

/-- `save` of the image's build script, up to the file. -/
def save (tries : Address → TrieDb) : Option Bytes := do
  let genesis ← build libs vm revm frameworks config tries
  bcs.toBytes (imageOf genesis)

def load (contents : Bytes) : Option GenesisChanges := do
  let image ← bcs.fromBytes contents
  changesOf image

end Commands

def serdeOpIn (account : SerdeAccountChanges) : StateKey → Option SerdeOp
  | .module _ name => account.modules.lookup name
  | .resource _ tag => account.resources.lookup tag

/-- The operation an image has for a module or a resource. -/
def serdeOp (changes : Table AccountAddress SerdeAccountChanges) (key : StateKey) :
    Option SerdeOp :=
  (changes.lookup (owner key)).bind fun account => serdeOpIn account key

/-- Images with the same entries, in any order. -/
structure SerdeAllChanges.Same (a b : SerdeAllChanges) : Prop where
  changes : ∀ key, serdeOp a.changes key = serdeOp b.changes key
  newTables : ∀ handle, handle ∈ a.tables.newTables ↔ handle ∈ b.tables.newTables
  removedTables : ∀ handle, handle ∈ a.tables.removedTables ↔ handle ∈ b.tables.removedTables
  entries : ∀ key, a.tables.changes.lookup key = b.tables.changes.lookup key
  roots : ∀ account, (a.evmStorage.lookup account).map SerdeEvmStorageTrieChanges.root =
    (b.evmStorage.lookup account).map SerdeEvmStorageTrieChanges.root
  nodes : ∀ account hash,
    ((a.evmStorage.lookup account).bind fun trie => trie.trieDiff.lookup hash) =
      (b.evmStorage.lookup account).bind fun trie => trie.trieDiff.lookup hash

/-- Documented behaviour of the serialisation: what was written reads back, maps as maps. -/
def Bcs.RoundTrips (bcs : Bcs) (image : SerdeAllChanges) : Prop :=
  ∀ contents, bcs.toBytes image = some contents →
    ∃ back, bcs.fromBytes contents = some back ∧ back.Same image

end Image

section Reading

theorem serdeOp_imageOf (genesis : GenesisChanges) (key : StateKey) :
    serdeOp (imageOf genesis).changes key = (opOf genesis.accounts key).map SerdeOp.ofOp := by
  rw [serdeOp, opOf_eq, imageOf, lookup_mapValues]
  cases genesis.accounts.lookup (owner key) with
  | none => rfl
  | some account => cases key <;> exact lookup_mapValues _ _ _

/-- The operations of an account in the order they are added. -/
def accountOps (account : Σ _ : AccountAddress, SerdeAccountChanges) :
    List (Σ _ : StateKey, Op Bytes) :=
  account.2.modules.entries.map (fun change => ⟨.module account.1 change.1, change.2.toOp⟩) ++
    account.2.resources.entries.map fun change => ⟨.resource account.1 change.1, change.2.toOp⟩

def addOps (ops : List (Σ _ : StateKey, Op Bytes)) (set : MoveChangeSet) : Option MoveChangeSet :=
  ops.foldlM (fun set change => addAt set change.1 change.2) set

theorem addAccount_eq (set : MoveChangeSet)
    (account : Σ _ : AccountAddress, SerdeAccountChanges) :
    addAccount set account = addOps (accountOps account) set := by
  rw [addAccount, addOps, accountOps, List.foldlM_append, List.foldlM_map]
  congr 1
  funext middle
  rw [List.foldlM_map]
  rfl

theorem toChangeSet_eq (changes : Table AccountAddress SerdeAccountChanges) :
    toChangeSet changes = addOps (changes.entries.flatMap accountOps) ∅ := by
  have hfold : ∀ (accounts : List (Σ _ : AccountAddress, SerdeAccountChanges)) set,
      accounts.foldlM addAccount set = addOps (accounts.flatMap accountOps) set := by
    intro accounts
    induction accounts with
    | nil => exact fun set => rfl
    | cons account accounts ih =>
      intro set
      rw [List.foldlM_cons, List.flatMap_cons, addOps, List.foldlM_append, addAccount_eq]
      congr 1
      funext middle
      exact ih middle
  exact hfold _ _

/-- Operations for different new keys can all be added. -/
theorem exists_addOps {ops : List (Σ _ : StateKey, Op Bytes)} (hnodup : ops.NodupKeys)
    {set : MoveChangeSet} (hfresh : ∀ key ∈ ops.keys, opOf set key = none) :
    ∃ next, addOps ops set = some next ∧
      ∀ key, opOf next key = (ops.dlookup key).or (opOf set key) := by
  induction ops generalizing set with
  | nil => exact ⟨set, rfl, fun key => rfl⟩
  | cons change ops ih =>
    obtain ⟨k, op⟩ := change
    obtain ⟨hnew, hrest⟩ := List.nodupKeys_cons.mp hnodup
    obtain ⟨middle, hmiddle, hafter⟩ := @exists_addAt set k op (hfresh k (by simp))
    have hfreshRest : ∀ key ∈ ops.keys, opOf middle key = none := by
      intro key hkey
      have hne : key ≠ k := fun hsame => hnew (hsame ▸ hkey)
      rw [hafter, if_neg hne]
      exact hfresh key (by simp [hkey])
    obtain ⟨next, hnext, hops⟩ := ih hrest hfreshRest
    refine ⟨next, ?_, fun key => ?_⟩
    · rw [addOps, List.foldlM_cons, hmiddle]
      exact hnext
    · rw [hops, hafter]
      by_cases hkey : key = k
      · subst hkey
        rw [if_pos rfl, List.dlookup_eq_none.mpr hnew, List.dlookup_cons_eq]
        rfl
      · rw [if_neg hkey, List.dlookup_cons_ne _ _ hkey]

theorem mem_accountOps {account : Σ _ : AccountAddress, SerdeAccountChanges} {key : StateKey}
    {op : Op Bytes} : ⟨key, op⟩ ∈ accountOps account ↔
      owner key = account.1 ∧ (serdeOpIn account.2 key).map SerdeOp.toOp = some op := by
  have hmodules : ∀ name, (∃ a ∈ account.2.modules.entries, a.1 = name ∧ a.2.toOp = op) ↔
      (account.2.modules.lookup name).map SerdeOp.toOp = some op := by
    intro name
    rw [Option.map_eq_some_iff]
    exact ⟨fun ⟨a, ha, hname, hop⟩ => ⟨a.2, hname ▸ AList.mem_lookup_iff.mpr ha, hop⟩,
      fun ⟨a, ha, hop⟩ => ⟨_, AList.mem_lookup_iff.mp ha, rfl, hop⟩⟩
  have hresources : ∀ tag, (∃ a ∈ account.2.resources.entries, a.1 = tag ∧ a.2.toOp = op) ↔
      (account.2.resources.lookup tag).map SerdeOp.toOp = some op := by
    intro tag
    rw [Option.map_eq_some_iff]
    exact ⟨fun ⟨a, ha, htag, hop⟩ => ⟨a.2, htag ▸ AList.mem_lookup_iff.mpr ha, hop⟩,
      fun ⟨a, ha, hop⟩ => ⟨_, AList.mem_lookup_iff.mp ha, rfl, hop⟩⟩
  cases key with
  | module address name =>
    simp only [accountOps, List.mem_append, List.mem_map, Sigma.mk.injEq, StateKey.module.injEq,
      heq_eq_eq, reduceCtorEq, false_and, and_false, exists_false, or_false, owner, serdeOpIn,
      ← hmodules name]
    tauto
  | resource address tag =>
    simp only [accountOps, List.mem_append, List.mem_map, Sigma.mk.injEq, StateKey.resource.injEq,
      heq_eq_eq, reduceCtorEq, false_and, and_false, exists_false, false_or, owner, serdeOpIn,
      ← hresources tag]
    tauto

theorem nodup_accountOps (account : Σ _ : AccountAddress, SerdeAccountChanges) :
    (accountOps account).NodupKeys := by
  rw [accountOps, List.NodupKeys, List.keys, List.map_append, List.map_map, List.map_map]
  refine List.nodup_append'.mpr ⟨?_, ?_, fun key hmodule hresource => ?_⟩
  · have hkeys := account.2.modules.nodupKeys.map
      (fun a b h => (StateKey.module.inj h).2 : Function.Injective (StateKey.module account.1))
    rwa [List.keys, List.map_map] at hkeys
  · have hkeys := account.2.resources.nodupKeys.map
      (fun a b h => (StateKey.resource.inj h).2 : Function.Injective (StateKey.resource account.1))
    rwa [List.keys, List.map_map] at hkeys
  · obtain ⟨_, -, rfl⟩ := List.mem_map.mp hmodule
    obtain ⟨_, -, hsame⟩ := List.mem_map.mp hresource
    cases hsame

/-- Reading an image back never fails, and gives its operations. -/
theorem toChangeSet_spec (changes : Table AccountAddress SerdeAccountChanges) :
    ∃ set, toChangeSet changes = some set ∧
      ∀ key, opOf set key = (serdeOp changes key).map SerdeOp.toOp := by
  have hnodup : (changes.entries.flatMap accountOps).NodupKeys := by
    rw [List.NodupKeys, List.keys, List.map_flatMap]
    refine List.nodup_flatMap.mpr ⟨fun account _ => nodup_accountOps account, ?_⟩
    refine (List.pairwise_map.mp changes.nodupKeys).imp fun {a b} hne key hkey hkey' => hne ?_
    obtain ⟨⟨_, op⟩, hop, rfl⟩ := List.mem_map.mp hkey
    obtain ⟨⟨_, op'⟩, hop', hsame⟩ := List.mem_map.mp hkey'
    dsimp only at hsame
    subst hsame
    exact (mem_accountOps.mp hop).1.symm.trans (mem_accountOps.mp hop').1
  have hempty : ∀ key, opOf ∅ key = none := fun key => by cases key <;> rfl
  obtain ⟨set, hset, hops⟩ := exists_addOps hnodup fun key _ => hempty key
  refine ⟨set, by rw [toChangeSet_eq, hset], fun key => ?_⟩
  rw [hops, hempty, Option.or_none]
  ext op
  rw [← Option.mem_def, List.mem_dlookup_iff hnodup, List.mem_flatMap, serdeOp]
  constructor
  · rintro ⟨account, haccount, hop⟩
    obtain ⟨howner, hvalue⟩ := mem_accountOps.mp hop
    rw [howner, AList.mem_lookup_iff.mpr haccount, Option.bind_some, hvalue]
  · intro hvalue
    obtain ⟨found, hfound, hop⟩ := Option.map_eq_some_iff.mp hvalue
    obtain ⟨account, haccount, hin⟩ := Option.bind_eq_some_iff.mp hfound
    refine ⟨⟨_, account⟩, AList.mem_lookup_iff.mp haccount, mem_accountOps.mpr ⟨rfl, ?_⟩⟩
    rw [hin, Option.map_some, hop]

end Reading

section Starting

variable {libs : Libraries} {used : Set TreeKey} {a b : MoveChangeSet}

theorem eq_of_valueAt {storage other : InMemoryStorage}
    (h : ∀ key, valueAt storage key = valueAt other key) : storage = other := by
  funext address
  have hmodules : (storage address).modules = (other address).modules :=
    funext fun name => h (.module address name)
  have hresources : (storage address).resources = (other address).resources :=
    funext fun tag => h (.resource address tag)
  calc storage address = ⟨(storage address).modules, (storage address).resources⟩ := rfl
    _ = other address := by rw [hmodules, hresources]

/-- A change set is known by its operations, to the flat store … -/
theorem apply_congr (h : ∀ key, opOf a key = opOf b key) (storage : InMemoryStorage) :
    storage.apply a = storage.apply b := by
  have hsome : (storage.apply a).isSome ↔ (storage.apply b).isSome := by
    rw [isSome_apply_iff, isSome_apply_iff]
    simp only [h]
  cases ha : storage.apply a with
  | none =>
    rw [ha] at hsome
    exact (Option.not_isSome_iff_eq_none.mp fun hb => by simpa using hsome.mpr hb).symm
  | some next =>
    rw [ha] at hsome
    obtain ⟨other, hb⟩ := Option.isSome_iff_exists.mp (hsome.mp rfl)
    rw [hb, Option.some.injEq]
    refine eq_of_valueAt fun key => ?_
    rw [valueAt_apply ha, valueAt_apply hb, h]

theorem opAt_congr (h : ∀ key, opOf a key = opOf b key) (key : TreeKey) :
    opAt a key = opAt b key := by
  cases key with
  | stateKey key => exact h key
  | evm address => exact h (.resource evmNativeAddress (accountInfoStructTag address))

theorem accountKeys_congr (hkeys : AccountKeys b) (h : ∀ key, opOf a key = opOf b key) :
    AccountKeys a := by
  intro address account tag op haccount hop hevm
  have hopA : opOf a (.resource address tag) = some op := by
    rw [opOf_eq]
    exact Option.bind_eq_some_iff.mpr ⟨account, haccount, hop⟩
  rw [h, opOf_eq] at hopA
  obtain ⟨found, hfound, hop⟩ := Option.bind_eq_some_iff.mp hopA
  exact hkeys address found tag op hfound hop hevm

/-- … and to the trie, whatever order its writes come in. -/
theorem insertChangeSet_congr (hlawful : libs.codec.Lawful used) (hadmitted : Admitted used b)
    (h : ∀ key, opOf a key = opOf b key) (tree : Tree) :
    insertChangeSet libs.codec tree (libs.order a) =
      insertChangeSet libs.codec tree (libs.order b) := by
  have hperm : (toTreeValues a).entries.Perm (toTreeValues b).entries := by
    refine perm_of_lookup fun key => Option.ext fun value => ?_
    rw [← Option.mem_def, ← Option.mem_def, Option.mem_def, Option.mem_def,
      lookup_toTreeValues (accountKeys_congr hadmitted.keys h), lookup_toTreeValues hadmitted.keys,
      opAt_congr h]
  exact insertChangeSet_perm hlawful hadmitted.covers ((libs.order_perm a).trans hperm)
    (libs.order_perm b)

theorem applyState_congr (hlawful : libs.codec.Lawful used) (hadmitted : Admitted used b)
    (h : ∀ key, opOf a key = opOf b key) (state : InMemoryState) :
    state.apply libs.codec libs.rootHash (libs.order a) a =
      state.apply libs.codec libs.rootHash (libs.order b) b := by
  unfold InMemoryState.apply
  simp only [apply_congr h, insertChangeSet_congr hlawful hadmitted h]

theorem applyTable_congr {first second : TableChangeSet}
    (hnew : ∀ handle, handle ∈ first.newTables ↔ handle ∈ second.newTables)
    (hremoved : ∀ handle, handle ∈ first.removedTables ↔ handle ∈ second.removedTables)
    (hentries : ∀ key, first.changes.lookup key = second.changes.lookup key) (tables : TableStore) :
    tables.applyTable first = tables.applyTable second := by
  have hopened : tables.reopened first = tables.reopened second := by
    funext handle
    simp only [TableStore.reopened, hnew, hremoved]
  unfold TableStore.applyTable
  simp only [hopened, hentries, (perm_of_lookup hentries).all_eq]

/-- Databases with the same roots and nodes. -/
def SameTries (tries other : Address → TrieDb) : Prop :=
  ∀ account, (tries account).root = (other account).root ∧
    ∀ hash, (tries account).nodes.lookup hash = (other account).nodes.lookup hash

/-- Changes of storage tries with the same roots and nodes. -/
def SameChanges (first second : Table Address StorageTrieChanges) : Prop :=
  ∀ account, (first.lookup account).map StorageTrieChanges.root =
      (second.lookup account).map StorageTrieChanges.root ∧
    ∀ hash, ((first.lookup account).bind fun trie => trie.trieDiff.lookup hash) =
      (second.lookup account).bind fun trie => trie.trieDiff.lookup hash

theorem applyStorage_congr {first second : Table Address StorageTrieChanges}
    (h : SameChanges first second) (tries : Address → TrieDb) :
    Option.Rel SameTries (applyStorage libs tries first) (applyStorage libs tries second) := by
  have hkeys : ∀ account, account ∈ first.keys ↔ account ∈ second.keys := by
    intro account
    have hroot := congrArg Option.isSome (h account).1
    rw [Option.isSome_map, Option.isSome_map] at hroot
    rw [AList.mem_keys.symm, AList.mem_keys.symm, ← AList.lookup_isSome, ← AList.lookup_isSome,
      hroot]
  have hopen : (first.keys.all fun account => ((tries account).forAccount libs.lib).isSome) =
      second.keys.all fun account => ((tries account).forAccount libs.lib).isSome := by
    rw [Bool.eq_iff_iff, List.all_eq_true, List.all_eq_true]
    simp only [hkeys]
  unfold applyStorage
  rw [hopen]
  split_ifs
  · refine .some fun account => ?_
    obtain ⟨hroot, hnodes⟩ := h account
    cases hfirst : first.lookup account with
    | none =>
      rw [hfirst, Option.map_none, eq_comm, Option.map_eq_none_iff] at hroot
      rw [hroot]
      exact ⟨rfl, fun hash => rfl⟩
    | some changes =>
      rw [hfirst, Option.map_some, eq_comm, Option.map_eq_some_iff] at hroot
      obtain ⟨other, hother, hsame⟩ := hroot
      rw [hother]
      refine ⟨congrArg some hsame.symm, fun hash => ?_⟩
      have hnode := hnodes hash
      rw [hfirst, hother, Option.bind_some, Option.bind_some] at hnode
      simp only [TrieDb.apply, lookup_union_or, hnode]
  · exact .none

/-- The same state, tables and tries. -/
def SameStart (first second : NodeState × TableStore) : Prop :=
  first.1.state = second.1.state ∧ first.2 = second.2 ∧
    SameTries first.1.evmStorage second.1.evmStorage

theorem apply_same {first second : GenesisChanges} (hlawful : libs.codec.Lawful used)
    (hadmitted : Admitted used second.accounts)
    (haccounts : ∀ key, opOf first.accounts key = opOf second.accounts key)
    (htables : ∀ tables : TableStore, tables.applyTable first.tables =
      tables.applyTable second.tables)
    (htries : SameChanges first.evmStorage second.evmStorage) (config : GenesisConfig)
    (node : NodeState) (tables : TableStore) :
    Option.Rel SameStart (apply libs config node tables first)
      (apply libs config node tables second) := by
  have hstorage := @applyStorage_congr libs _ _ htries node.evmStorage
  unfold apply NodeState.apply
  simp only [applyState_congr hlawful hadmitted haccounts, htables]
  cases node.state.apply libs.codec libs.rootHash (libs.order second.accounts) second.accounts with
  | none => exact .none
  | some state =>
    simp only [Option.bind_eq_bind, Option.bind_some]
    generalize applyStorage libs node.evmStorage first.evmStorage = x at hstorage ⊢
    generalize applyStorage libs node.evmStorage second.evmStorage = y at hstorage ⊢
    cases hstorage with
    | none => exact .none
    | some hsame =>
      simp only [Option.bind_some]
      cases tables.applyTable second.tables with
      | none => exact .none
      | some next =>
        simp only [Option.bind_some]
        split_ifs
        · exact .some ⟨rfl, rfl, hsame⟩
        · exact .none

end Starting

section Round

variable {S X : Type} {bcs : Bcs} {libs : Libraries} {vm : GenesisVm S} {revm : Revm X}
variable {frameworks : Frameworks} {config : GenesisConfig} {used : Set TreeKey}

/-- What is read of an image with the entries of the genesis image. -/
theorem changesOf_spec {back : SerdeAllChanges} {genesis : GenesisChanges}
    (hsame : back.Same (imageOf genesis)) :
    ∃ loaded, changesOf back = some loaded ∧
      (∀ key, opOf loaded.accounts key = opOf genesis.accounts key) ∧
      (∀ tables : TableStore,
        tables.applyTable loaded.tables = tables.applyTable genesis.tables) ∧
      SameChanges loaded.evmStorage genesis.evmStorage := by
  obtain ⟨accounts, haccounts, hops⟩ := toChangeSet_spec back.changes
  refine ⟨_, by rw [changesOf, haccounts]; rfl, fun key => ?_, fun tables => ?_,
    fun account => ⟨?_, fun hash => ?_⟩⟩
  · rw [hops, hsame.changes, serdeOp_imageOf, Option.map_map]
    cases opOf genesis.accounts key <;> simp
  · refine applyTable_congr hsame.newTables hsame.removedTables (fun key => ?_) tables
    rw [lookup_mapValues, hsame.entries, imageOf, lookup_mapValues, Option.map_map]
    cases genesis.tables.changes.lookup key <;> simp
  · have hroot := hsame.roots account
    rw [imageOf, lookup_mapValues, Option.map_map] at hroot
    rw [lookup_mapValues, Option.map_map]
    exact hroot
  · have hnode := hsame.nodes account hash
    rw [imageOf, lookup_mapValues, Option.bind_map] at hnode
    rw [lookup_mapValues, Option.bind_map]
    exact hnode

/-- Starting from the image is building genesis. -/
theorem image_starts_the_same_node (hlawful : libs.codec.Lawful used) {genesis : GenesisChanges}
    (hbuild : build libs vm revm frameworks config emptyNode.evmStorage = some genesis)
    (hadmitted : Admitted used genesis.accounts) (hbcs : bcs.RoundTrips (imageOf genesis))
    {contents : Bytes}
    (hsave : save bcs libs vm revm frameworks config emptyNode.evmStorage = some contents) :
    ∃ loaded, load bcs contents = some loaded ∧
      (∀ key, opAt loaded.accounts key = opAt genesis.accounts key) ∧
      ∀ tables, Option.Rel SameStart (apply libs config emptyNode tables loaded)
        (buildAndApply libs vm revm frameworks config emptyNode tables) := by
  obtain ⟨found, hfound, hcontents⟩ := Option.bind_eq_some_iff.mp hsave
  rw [hbuild, Option.some.injEq] at hfound
  subst hfound
  obtain ⟨back, hback, hsame⟩ := hbcs contents hcontents
  obtain ⟨loaded, hloaded, hops, htables, htries⟩ := changesOf_spec hsame
  refine ⟨loaded, by rw [load, hback]; exact hloaded, opAt_congr hops, fun tables => ?_⟩
  rw [buildAndApply, hbuild]
  exact apply_same hlawful hadmitted hops htables htries config emptyNode tables

end Round

section Samples

/-- A machine whose functions leave nothing. -/
def idleVm : GenesisVm Unit where
  selfId := sampleSelfId
  verify _ _ code := some (code.map fun bytes => (sampleSelfId bytes, bytes))
  newSession _ := ()
  executeFunction _ _ _ _ _ := some ()
  finish _ _ := some ∅

def imageFrameworks : Frameworks where
  aptos := [⟨"AptosFramework", [7], [[1]]⟩]
  sui := (AList.singleton suiStdlibAddress []).insert suiFrameworkAddress []

def imageConfig : GenesisConfig where
  initialStateRoot := storeRoot emptyRoot
  l2ContractGenesis := AList.singleton storeAddress ⟨none, 0, none, none⟩
  tokenList := []

theorem image_isSome : (build storeLibs idleVm factoryRevm imageFrameworks imageConfig
    emptyNode.evmStorage).isSome := by
  decide +kernel

/-- One module and one account. -/
def imageGenesis : GenesisChanges := Option.get _ image_isSome

/-- The account as it is in the state. -/
def imageAccountBytes : Bytes :=
  [0xf8, 0x44, 0x80, 0x80, 0xa0] ++ wordBytes emptyRoot ++ 0xa0 :: wordBytes keccakEmpty

/-- The image: the changes of accounts, no tables, and one storage trie. -/
def imageBytes : Bytes :=
  let name := [0x41, 0x63, 0x63, 0x6f, 0x75, 0x6e, 0x74, 0x5f] ++ List.replicate 34 0x30 ++
    [0x63, 0x30, 0x66, 0x66, 0x65, 0x65]
  1 :: wordBytes evmNativeAddress ++ [1, 4, 0x63, 0x6f, 0x64, 0x65, 0, 1, 1, 1] ++
    wordBytes evmNativeAddress ++ [3, 0x65, 0x76, 0x6d, 48] ++ name ++ [0, 0, 70] ++
    imageAccountBytes ++ [0, 0, 0, 1, 20] ++ addressBytes storeAddress ++
    32 :: wordBytes emptyRoot ++ 1 :: 32 :: wordBytes emptyRoot ++ [1, 0x80]

example : imageBytes.length = 295 := by
  decide +kernel

def imageBcs : Bcs where
  toBytes _ := some imageBytes
  fromBytes contents := if contents = imageBytes then some (imageOf imageGenesis) else none

theorem imageBcs_roundTrips : imageBcs.RoundTrips (imageOf imageGenesis) := by
  intro contents hcontents
  simp only [imageBcs, Option.some.injEq] at hcontents
  subst hcontents
  refine ⟨imageOf imageGenesis, ?_, ?_⟩
  · simp only [imageBcs, if_true]
  · exact ⟨fun _ => rfl, fun _ => .rfl, fun _ => .rfl, fun _ => rfl, fun _ => rfl, fun _ _ => rfl⟩

def imageUsed : Set TreeKey :=
  {.evm storeAddress, .stateKey (.module frameworkAddress "code")}

theorem imageCodec_lawful : storeLibs.codec.Lawful imageUsed := by
  refine ⟨?_, ?_, ?_, ?_, ?_⟩
  · rintro a b (ha | ha) (hb | hb) - <;> cases ha <;> cases hb
    rfl
  · intro a _
    exact (by decide +kernel : codeKeyBytes.length ≠ 20)
  · rintro x ⟨a, ha | ha, rfl⟩ y ⟨b, hb | hb, rfl⟩ hhash <;> cases ha <;> cases hb
    · rfl
    · revert hhash
      decide +kernel
    · revert hhash
      decide +kernel
    · rfl
  · intro data
    simp only [storeLibs, legacyBytes, legacyData, if_true]
    exact congrArg some (drop_ulebBytes _ _ (by omega) data)
  · intro data h
    cases h

theorem imageAccounts {address : AccountAddress} {account : AccountChanges}
    (h : imageGenesis.accounts.lookup address = some account) :
    address = evmNativeAddress ∧ account.modules.entries = [⟨"code", .new [1]⟩] ∧
      account.resources.entries =
        [⟨accountInfoStructTag storeAddress, .new imageAccountBytes⟩] := by
  have hmodules : imageGenesis.accounts.entries.map (fun entry =>
      (entry.1, entry.2.modules.entries)) = [(evmNativeAddress, [⟨"code", .new [1]⟩])] := by
    decide +kernel
  have hresources : imageGenesis.accounts.entries.map (fun entry => entry.2.resources.entries) =
      [[⟨accountInfoStructTag storeAddress, .new imageAccountBytes⟩]] := by
    decide +kernel
  have hmem := AList.mem_lookup_iff.mp h
  have hmodule := List.mem_map_of_mem (f := fun entry => (entry.1, entry.2.modules.entries)) hmem
  have hresource := List.mem_map_of_mem (f := fun entry => entry.2.resources.entries) hmem
  rw [hmodules, List.mem_singleton, Prod.mk.injEq] at hmodule
  rw [hresources, List.mem_singleton] at hresource
  exact ⟨hmodule.1, hmodule.2, hresource⟩

theorem admitted_image : Admitted imageUsed imageGenesis.accounts := by
  have hresources : ∀ {address account tag op},
      imageGenesis.accounts.lookup address = some account →
      account.resources.lookup tag = some op → address = evmNativeAddress ∧
        tag = accountInfoStructTag storeAddress ∧ op = .new imageAccountBytes := by
    intro address account tag op haccount hop
    obtain ⟨haddress, -, hentries⟩ := imageAccounts haccount
    have hmem := AList.mem_lookup_iff.mp hop
    rw [hentries, List.mem_singleton, Sigma.mk.injEq, heq_eq_eq] at hmem
    exact ⟨haddress, hmem⟩
  have hkeys : AccountKeys imageGenesis.accounts := by
    intro address account tag op haccount hop _
    obtain ⟨haddress, htag, -⟩ := hresources haccount hop
    exact ⟨haddress, storeAddress, htag⟩
  refine ⟨hkeys, ?_, ?_⟩
  · intro address account tag op haccount hop _
    rw [(hresources haccount hop).2.2]
    simp [Op.value, imageAccountBytes]
  · intro key hkey
    obtain ⟨value, hvalue⟩ := Option.isSome_iff_exists.mp (AList.lookup_isSome.mpr hkey)
    obtain ⟨hformed, op, hop, -⟩ := (lookup_toTreeValues hkeys).mp hvalue
    rcases exists_change hformed hop with ⟨address, account, name, haccount, hchange, rfl⟩ |
      ⟨address, account, tag, haccount, hchange, rfl⟩
    · obtain ⟨rfl, hentries, -⟩ := imageAccounts haccount
      have hmem := AList.mem_lookup_iff.mp hchange
      rw [hentries, List.mem_singleton, Sigma.mk.injEq] at hmem
      rw [hmem.1]
      exact Or.inr rfl
    · obtain ⟨-, rfl, -⟩ := hresources haccount hchange
      rw [resourceKey, evmKeyAddress_accountInfoStructTag]
      exact Or.inl rfl

theorem imageNode_isSome : (buildAndApply storeLibs idleVm factoryRevm imageFrameworks imageConfig
    emptyNode TableStore.empty).isSome := by
  decide +kernel

/-- A node that starts from the image of one module and one account. -/
theorem image_starts_the_same_node_sample : ∃ loaded started built,
    load imageBcs imageBytes = some loaded ∧
    apply storeLibs imageConfig emptyNode TableStore.empty loaded = some started ∧
    buildAndApply storeLibs idleVm factoryRevm imageFrameworks imageConfig emptyNode
      TableStore.empty = some built ∧ started.1.state = built.1.state := by
  have hbuild : build storeLibs idleVm factoryRevm imageFrameworks imageConfig
      emptyNode.evmStorage = some imageGenesis := (Option.some_get image_isSome).symm
  have hsave : save imageBcs storeLibs idleVm factoryRevm imageFrameworks imageConfig
      emptyNode.evmStorage = some imageBytes := by
    rw [save, hbuild]
    rfl
  obtain ⟨built, hbuilt⟩ := Option.isSome_iff_exists.mp imageNode_isSome
  obtain ⟨loaded, hloaded, -, hsame⟩ := image_starts_the_same_node imageCodec_lawful hbuild
    admitted_image imageBcs_roundTrips hsave
  have hstarts := hsame TableStore.empty
  rw [hbuilt] at hstarts
  generalize hstarted : apply storeLibs imageConfig emptyNode TableStore.empty loaded = started
    at hstarts
  cases hstarts with
  | some hstate => exact ⟨loaded, _, built, hloaded, hstarted, hbuilt, hstate.1⟩

end Samples

end OpMove.Genesis
