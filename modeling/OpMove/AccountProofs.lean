import OpMove.EvmCode
import OpMove.PastAnswers
import OpMove.PayloadIds

/-!
Proofs of EVM accounts. A proof of an account comes from the state trie of a height, the fields it
proves from the same trie, and the proofs of its slots from the storage trie at the root that the
account names. That root was written into the state by one component and its nodes into the
database of the account by another. Both come from one extraction, and nodes are never removed, so
the database has every node of every root that any trie of the state names.
-/

namespace OpMove.AccountProofs

open Primitives MoveTypes Transactions ChangeSets StateChanges StorageTries NativeEvm Extraction
open TreeKeys StateTrie TrieRefinement BlockBuilding BlockAgreement BlockStore Multimaps Queries
open PastAnswers Canonical EvmCode PayloadIds

section Responses

/-- The RLP of an account. -/
def accountRlp (resource : AccountResource) : Bytes :=
  Rlp.encodeList [Rlp.encodeNat resource.nonce, Rlp.encodeNat resource.balance.toNat,
    Rlp.encodeString (wordBytes resource.storageRoot), Rlp.encodeString (wordBytes resource.codeHash)]

/-- The RLP of a slot. -/
def wordRlp (word : U256) : Bytes := Rlp.encodeNat word.toNat

/-- What a storage trie has for a slot; a zero slot is absent. -/
def leafOf (value : U256) : Option Bytes := if value = 0 then none else some (wordRlp value)

/-- The trie library as a reader of nodes; a missing node gives `none`. -/
structure ProofLibrary where
  stateProof : Tree → B256 → Option (List Bytes)
  getProof : Nodes → B256 → B256 → Option (List Bytes)
  get : Nodes → B256 → B256 → Option (Option Bytes)
  decodeWord : Bytes → Option U256

structure StorageProof where
  key : U256
  value : U256
  proof : List Bytes
  deriving DecidableEq, Repr

structure ProofResponse where
  address : Address
  balance : U256
  codeHash : B256
  nonce : ℕ
  storageHash : B256
  accountProof : List Bytes
  storageProof : List StorageProof
  deriving DecidableEq, Repr

variable (libs : Libraries) (proofs : ProofLibrary)

def slotKey (index : U256) : B256 := libs.codec.keccak256 (wordBytes index)

/-- `StorageTrie::get`. -/
def slotValue (nodes : Nodes) (root : B256) (index : U256) : Option (Option U256) := do
  match ← proofs.get nodes root (slotKey libs index) with
  | none => some none
  | some bytes => (proofs.decodeWord bytes).map some

/-- A slot without a proof is left out; a slot with one whose value cannot be read is a panic. -/
def storageProofs (nodes : Nodes) (root : B256) : List U256 → Option (List StorageProof)
  | [] => some []
  | index :: slots =>
      match proofs.getProof nodes root (slotKey libs index) with
      | none => storageProofs nodes root slots
      | some proof => do
        let value ← slotValue libs proofs nodes root index
        let rest ← storageProofs nodes root slots
        some (⟨index, value.getD 0, proof⟩ :: rest)

/-- `proof_from_trie_and_resolver`; a panic gives `none`. -/
def proofFromTrieAndResolver (address : Address) (storageSlots : List U256) (tree : Tree)
    (evmStorage : Address → TrieDb) : Option (Option ProofResponse) := do
  match ← decodeStored libs tree libs.account (accountInfoStructTag address) with
  | none => some none
  | some info =>
    match proofs.stateProof tree (libs.codec.keyHash (.evm address)) with
    | none => some none
    | some accountProof =>
      let respond := fun storageProof => some (some (⟨address, info.balance, info.codeHash,
        info.nonce, info.storageRoot, accountProof, storageProof⟩ : ProofResponse))
      if storageSlots.isEmpty then respond []
      else
        let nodes := (evmStorage address).nodes
        -- `for_account_with_root` needs the root's own node only
        if (nodes.lookup info.storageRoot).isNone then some none
        else (storageProofs libs proofs nodes info.storageRoot storageSlots).bind respond

/-- `InMemoryStateQueries::proof_at`. -/
def proofAt {S : Type} (reader : ApplicationReader S) (app : App NodeState)
    (account : AccountAddress) (storageSlots : List U256) (height : ℕ) :
    Option (Option ProofResponse) :=
  let address := toEthAddress account
  if address.toNat < l2LowestAddress.toNat ∨ l2HighestAddress.toNat < address.toNat then some none
  else
    match reader.rootByHeight app height with
    | none => some none
    | some root => do
      let tree ← app.state.state.db root
      proofFromTrieAndResolver reader.libs proofs address storageSlots tree
        app.state.evmStorage

/-- What a response shows to a client that checks proofs against a state root. -/
structure Verified (verifies : B256 → B256 → Option Bytes → List Bytes → Prop) (root : B256)
    (storageSlots : List U256) (response : ProofResponse) : Prop where
  account : verifies root (libs.codec.keccak256 (addressBytes response.address))
    (some (accountRlp ⟨response.nonce, response.balance, response.codeHash,
      response.storageHash⟩)) response.accountProof
  slots : response.storageProof.map StorageProof.key = storageSlots
  storage : ∀ entry ∈ response.storageProof, verifies response.storageHash
    (slotKey libs entry.key) (leafOf entry.value) entry.proof

end Responses

section States

/-- What the account and code resources are stored as. -/
def resourceBytes : ResourceValue → Bytes
  | .account resource => accountRlp resource
  | .code code => ulebBytes 5 code.length ++ code

def encodeOp : Op ResourceValue → Op Bytes
  | .new value => .new (resourceBytes value)
  | .modify value => .modify (resourceBytes value)
  | .delete => .delete

theorem value_encodeOp (op : Op ResourceValue) :
    (encodeOp op).value = op.value.map resourceBytes := by
  cases op <;> rfl

variable (libs : Libraries)

/-- The EVM resources and storage tries that execution sees. -/
def evmStateOf (node : NodeState) : EvmState where
  resources
    | .account a => ((node.state.resolver evmNativeAddress).resources
        (accountInfoStructTag a)).bind fun bytes => (libs.account bytes).map .account
    | .code codeHash => ((node.state.resolver evmNativeAddress).resources
        (codeHashStructTag codeHash)).bind fun bytes => (libs.code bytes).map .code
  tries := node.evmStorage

/-- The accounts whose writes a change of the EVM state comes from, oldest first. -/
inductive Produced (state : EvmState) : (Address → List EvmAccount) → Changes → Prop
  | genesis {alloc : Table Address GenesisAccount} {changes : Changes} :
      genesisStateChanges libs.lib libs.codec.keccak256 state alloc = some changes →
      Produced state (fun a =>
        ((alloc.lookup a).map (genesisEvmAccount libs.codec.keccak256)).toList) changes
  | extracted {maps : List StateMap} {changes : Changes} :
      extractEvmChanges libs.lib libs.codec.keccak256 state maps = some changes →
      Produced state (persistedAll maps) changes

variable (used : Set TreeKey) (occurs : Storage → Prop)

/-- The changes of an outcome, as execution and genesis put them together: the account resources
are merged into those of the Move session, which has none of its own, and the storage tries are
taken over. The storage maps they lead to are among those that occur. -/
structure Reported (node : NodeState) (changes : OutcomeChanges) : Prop where
  admitted : Admitted used changes.moveVm
  evm : ∃ written evmChanges, Produced libs (evmStateOf libs node) written evmChanges ∧
    (∀ a, ∀ account ∈ written a, account.info.nonce < 2 ^ 64 ∧ ∀ storage, occurs storage →
      Stores libs.lib (node.evmStorage a) storage → occurs (slotsAfter storage account)) ∧
    changes.evm = evmChanges.storage ∧
    ∀ a, opAt changes.moveVm (.evm a) = (evmChanges.accounts.lookup (.account a)).map encodeOp

variable (base : Env NodeState OutcomeChanges)

def emptyNode : NodeState := ⟨.new, fun _ => ⟨none, ∅⟩⟩

/-- The states of a node: what genesis writes, then what transactions write. -/
inductive NodeReached : NodeState → Prop
  | empty : NodeReached emptyNode
  | genesis {node next : NodeState} {changes : OutcomeChanges} : NodeReached node →
      Reported libs used occurs node changes → node.apply libs changes = some next →
      NodeReached next
  | executed {node next : NodeState} {blocks : List ExtendedBlock} {input : ExecutionInput}
      {outcome : Outcome OutcomeChanges} : NodeReached node →
      base.executeTransaction node blocks input = .ok outcome →
      node.apply libs outcome.changes = some next → NodeReached next

/-- Execution reports what the EVM did, on every state of the node. -/
def Faithful : Prop :=
  ∀ node blocks input outcome, NodeReached libs used occurs base node →
    base.executeTransaction node blocks input = .ok outcome →
    Reported libs used occurs node outcome.changes

/-- Documented behaviour of the trie and RLP libraries: a proof of a key proves its value or its
absence under the root, also when it is read from any nodes that include those of the trie. -/
structure ProofLaws (proofs : ProofLibrary)
    (verifies : B256 → B256 → Option Bytes → List Bytes → Prop) : Prop where
  state : ∀ tree key, ∃ proof, proofs.stateProof tree key = some proof ∧
    verifies (libs.rootHash tree) key (tree key) proof
  storage : ∀ nodes storage index, occurs storage → libs.lib.Has nodes storage →
    ∃ proof, proofs.getProof nodes (libs.lib.root storage) (slotKey libs index) = some proof ∧
      verifies (libs.lib.root storage) (slotKey libs index) (leafOf (storage index)) proof
  slots : ∀ nodes storage index, occurs storage → libs.lib.Has nodes storage →
    proofs.get nodes (libs.lib.root storage) (slotKey libs index) =
      some (leafOf (storage index))
  rooted : ∀ storage, occurs storage →
    ((libs.lib.nodes storage).lookup (libs.lib.root storage)).isSome
  word : ∀ word, word ≠ 0 → proofs.decodeWord (wordRlp word) = some word
  account : ∀ resource, resource.nonce < 2 ^ 64 →
    libs.account (accountRlp resource) = some resource

end States

section Writes

variable {lib : TrieLibrary} {occurs : Storage → Prop}

/-- The nodes of any trie stay when the tries of several accounts are added up and written. -/
theorem has_foldl (hlawful : lib.Lawful occurs) {db : TrieDb} (trie : StorageTrie)
    (hopened : ∀ old ∈ trie.opened, occurs old) {accounts : List EvmAccount}
    (hoccurs : ∀ account ∈ accounts, occurs (slotsAfter trie.content account))
    {storage : Storage} (hstorage : occurs storage) (h : lib.Has db.nodes storage)
    {changes : StorageTrieChanges}
    (hchanges : accounts.foldl
      (fun before account => some (addTo before ((insertChangedSlots trie account).commit lib)))
      none = some changes) : lib.Has (db.apply changes).nodes storage := by
  induction accounts using List.reverseRecOn generalizing changes with
  | nil => cases hchanges
  | append_singleton accounts account ih =>
    rw [List.foldl_append, List.foldl_cons, List.foldl_nil, insertChangedSlots_eq,
      Option.some.injEq] at hchanges
    subst hchanges
    generalize hbefore : accounts.foldl (fun before account =>
      some (addTo before ((insertChangedSlots trie account).commit lib))) none = before
    have hstore : lib.Has (nodesBefore db before) storage := by
      cases before with
      | none => exact h
      | some earlier => exact ih (fun other hother => hoccurs other (by simp [hother])) hbefore
    intro hash node hnode
    rw [lookup_addTo]
    exact has_union_changed hlawful hopened (hoccurs account (by simp)) hstorage hstore hash node
      hnode

/-- What is written for an address is the last of its accounts, with the sum of its tries. -/
structure Written (lib : TrieLibrary) (trieOf : Address → StorageTrie)
    (written : Address → List EvmAccount) (changes : Changes) : Prop where
  accounts : ∀ a, (changes.accounts.lookup (.account a)).map Op.value =
    (written a).getLast?.map fun account => some (writtenResource lib trieOf a account)
  tries : ∀ a, changes.storage.lookup a = (written a).foldl
    (fun old account => some (addTo old (trieChanges lib trieOf a account))) none

variable {libs : Libraries} {state : EvmState} {trieOf : Address → StorageTrie}

/-- The accounts of the genesis are written as those of one call would be. -/
theorem written_genesis (htrie : ∀ a, (state.tries a).forAccount libs.lib = some (trieOf a))
    {alloc : Table Address GenesisAccount} {changes : Changes}
    (h : genesisStateChanges libs.lib libs.codec.keccak256 state alloc = some changes) :
    Written libs.lib trieOf (fun a =>
      ((alloc.lookup a).map (genesisEvmAccount libs.codec.keccak256)).toList) changes := by
  obtain ⟨final, hfold, hchanges⟩ := Option.bind_eq_some_iff.mp h
  rw [Option.some.injEq] at hchanges
  subst hchanges
  let accounts : List (Σ _ : Address, EvmAccount) :=
    alloc.entries.map (.map id fun _ => genesisEvmAccount libs.codec.keccak256)
  have hnodup : accounts.NodupKeys := List.NodupKeys.map₂ _ _ alloc.nodupKeys
  obtain ⟨single, tries, hrun, haccounts, htries, -⟩ := extractEntries_spec libs.lib
    libs.codec.keccak256 state ∅ trieOf htrie accounts hnodup ∅ ∅ (fun b _ => rfl)
    (fun hash op hop => by cases hop)
  have hsame : some final = some (single, tries) := by
    rw [← hfold, ← hrun, List.foldlM_map]
    rfl
  rw [Option.some.injEq] at hsame
  subst hsame
  have hpersisted : ∀ b, (accounts.dlookup b).filter (fun account => account.isPersisted) =
      (alloc.lookup b).map (genesisEvmAccount libs.codec.keccak256) := by
    intro b
    rw [List.dlookup_map₂]
    show ((alloc.lookup b).map _).filter _ = _
    cases alloc.lookup b <;> rfl
  refine ⟨fun a => ?_, fun a => ?_⟩
  · rw [haccounts a, hpersisted a]
    cases alloc.lookup a with
    | none => rfl
    | some account =>
      simp only [Option.map_some, Option.elim_some, Option.toList_some, List.getLast?_singleton]
      unfold accountOp
      dsimp only
      split_ifs <;> rfl
  · rw [htries a, hpersisted a]
    cases alloc.lookup a <;> rfl

theorem written_of_produced (htrie : ∀ a, (state.tries a).forAccount libs.lib = some (trieOf a))
    {written : Address → List EvmAccount} {changes : Changes}
    (h : Produced libs state written changes) : Written libs.lib trieOf written changes := by
  cases h with
  | genesis hchanges => exact written_genesis htrie hchanges
  | @extracted maps _ hchanges =>
    obtain ⟨final, hfold, hchanges⟩ := Option.bind_eq_some_iff.mp hchanges
    rw [Option.some.injEq] at hchanges
    subst hchanges
    obtain ⟨progress, hrun, hextracted⟩ :=
      extractMaps_spec libs.lib libs.codec.keccak256 state trieOf htrie maps
    rw [hfold, Option.some.injEq] at hrun
    subst hrun
    exact ⟨hextracted.accounts, hextracted.tries⟩

end Writes

section Nodes

variable {libs : Libraries} {used : Set TreeKey} {occurs : Storage → Prop}

/-- An account as a trie of the state has it, and the nodes of the storage it names. -/
def Backed (libs : Libraries) (occurs : Storage → Prop) (db : TrieDb) (bytes : Bytes) : Prop :=
  ∃ resource storage, libs.account bytes = some resource ∧ bytes = accountRlp resource ∧
    occurs storage ∧ resource.storageRoot = libs.lib.root storage ∧ libs.lib.Has db.nodes storage

/-- The invariant of a node: every trie it keeps has its root for a name, and names only storage
roots whose nodes are there. -/
structure Provable (libs : Libraries) (used : Set TreeKey) (occurs : Storage → Prop)
    (node : NodeState) : Prop where
  stores : ∀ a, ∃ storage, occurs storage ∧ Stores libs.lib (node.evmStorage a) storage
  named : ∀ root tree, node.state.db root = some tree → libs.rootHash tree = root
  current : node.state.currentStateRoot.isSome → (node.state.db node.state.stateRoot).isSome
  backed : ∀ root tree, node.state.db root = some tree → ∀ a, .evm a ∈ used → ∀ bytes,
    tree (libs.codec.keyHash (.evm a)) = some bytes →
      Backed libs occurs (node.evmStorage a) bytes

theorem provable_empty (hempty : occurs fun _ => 0) : Provable libs used occurs emptyNode where
  stores a := ⟨_, hempty, stores_empty libs.lib⟩
  named root tree htree := by cases htree
  current hroot := by cases hroot
  backed root tree htree := by cases htree

theorem Backed.mono {db next : TrieDb} {bytes : Bytes} (h : Backed libs occurs db bytes)
    (hkeeps : ∀ storage, occurs storage → libs.lib.Has db.nodes storage →
      libs.lib.Has next.nodes storage) : Backed libs occurs next bytes := by
  obtain ⟨resource, storage, hresource, hbytes, hoccurs, hroot, hnodes⟩ := h
  exact ⟨resource, storage, hresource, hbytes, hoccurs, hroot, hkeeps storage hoccurs hnodes⟩

theorem applyStorage_spec {tries next : Address → TrieDb} {changes : Table Address StorageTrieChanges}
    (h : applyStorage libs tries changes = some next) (a : Address) :
    next a = (changes.lookup a).elim (tries a) fun trieChanges => (tries a).apply trieChanges := by
  unfold applyStorage at h
  split_ifs at h
  rw [Option.some.injEq] at h
  subst h
  cases hlookup : changes.lookup a with
  | none => simp only [hlookup, Option.elim_none]
  | some trieChanges => simp only [hlookup, Option.elim_some]

/-- What one report does to the database of each account: nothing is lost, it stores a map, and
an account that is written names a root whose nodes are there. -/
structure Keeps (libs : Libraries) (occurs : Storage → Prop) (tries next : Address → TrieDb)
    (evmChanges : Changes) : Prop where
  nodes : ∀ a storage, occurs storage → libs.lib.Has (tries a).nodes storage →
    libs.lib.Has (next a).nodes storage
  stores : ∀ a, ∃ storage, occurs storage ∧ Stores libs.lib (next a) storage
  written : ∀ a op, evmChanges.accounts.lookup (.account a) = some op →
    ∃ bytes, (encodeOp op).value = some bytes ∧ Backed libs occurs (next a) bytes

theorem keeps_of_produced (hlawful : libs.lib.Lawful occurs)
    (haccount : ∀ resource, resource.nonce < 2 ^ 64 →
      libs.account (accountRlp resource) = some resource)
    {state : EvmState} {next : Address → TrieDb} {written : Address → List EvmAccount}
    {evmChanges : Changes}
    (hstores : ∀ a, ∃ storage, occurs storage ∧ Stores libs.lib (state.tries a) storage)
    (hproduced : Produced libs state written evmChanges)
    (hwithin : ∀ a, ∀ account ∈ written a, account.info.nonce < 2 ^ 64 ∧ ∀ storage,
      occurs storage → Stores libs.lib (state.tries a) storage →
        occurs (slotsAfter storage account))
    (happly : applyStorage libs state.tries evmChanges.storage = some next) :
    Keeps libs occurs state.tries next evmChanges := by
  choose storageOf hoccurs hstored using hstores
  choose opened hopen hopened using fun a =>
    forAccount_of_stores hlawful (hoccurs a) (hstored a)
  have hopenedOccurs : ∀ a, ∀ old ∈ opened a, occurs old := by
    intro a old hold
    rw [(hopened a old hold).1]
    exact hoccurs a
  let trieOf : Address → StorageTrie := fun a => ⟨opened a, storageOf a⟩
  have hwritten : Written libs.lib trieOf written evmChanges := written_of_produced hopen hproduced
  have hafter : ∀ a, ∀ account ∈ written a, occurs (slotsAfter (storageOf a) account) :=
    fun a account hmem => (hwithin a account hmem).2 _ (hoccurs a) (hstored a)
  have hnext := applyStorage_spec happly
  -- the last account of an address decides the root, and all nodes of its trie are there
  have hlast : ∀ a last, (written a).getLast? = some last →
      ∃ changes, evmChanges.storage.lookup a = some changes ∧
        Covers libs.lib (state.tries a) (opened a) (slotsAfter (storageOf a) last) changes := by
    intro a last hlast
    obtain ⟨changes, hchanges, hcovers⟩ := covers_foldl hlawful (trieOf a) (hopenedOccurs a)
      (fun old hold => (hopened a old hold).2) (written a) (hafter a) last hlast
    exact ⟨changes, (hwritten.tries a).trans hchanges, hcovers⟩
  refine ⟨fun a storage hstorage hnodes => ?_, fun a => ?_, fun a op hop => ?_⟩
  · rw [hnext a]
    cases hchanges : evmChanges.storage.lookup a with
    | none => exact hnodes
    | some changes =>
      exact has_foldl hlawful (trieOf a) (hopenedOccurs a) (hafter a) hstorage hnodes
        ((hwritten.tries a).symm.trans hchanges)
  · rw [hnext a, hwritten.tries a]
    exact stores_of_accounts hlawful (hoccurs a) (hstored a) (hopened a) (hafter a)
  · have hvalue := hwritten.accounts a
    rw [hop, Option.map_some, eq_comm, Option.map_eq_some_iff] at hvalue
    obtain ⟨last, hwho, hresource⟩ := hvalue
    obtain ⟨changes, hchanges, hcovers⟩ := hlast a last hwho
    have hmem := List.mem_of_getLast? hwho
    have hroot : (trieChanges libs.lib trieOf a last).root =
        libs.lib.root (slotsAfter (storageOf a) last) := by
      rw [trieChanges, insertChangedSlots_eq]
      rfl
    refine ⟨accountRlp (accountResource last (trieChanges libs.lib trieOf a last).root), ?_, ?_⟩
    · rw [value_encodeOp, ← hresource]
      rfl
    · rw [hnext a, hchanges]
      exact ⟨_, _, haccount _ (hwithin a last hmem).1, rfl, hafter a last hmem, hroot,
        hcovers.new⟩

/-- A tree of the node that is not kept under a root is the empty one. -/
theorem Provable.backed_tree {node : NodeState} (h : Provable libs used occurs node) {tree : Tree}
    (htree : node.state.tree = some tree) {a : Address} (hused : .evm a ∈ used) {bytes : Bytes}
    (hbytes : tree (libs.codec.keyHash (.evm a)) = some bytes) :
    Backed libs occurs (node.evmStorage a) bytes := by
  unfold InMemoryState.tree at htree
  split at htree
  · rw [Option.some.injEq] at htree
    subst htree
    cases hbytes
  · exact h.backed _ tree htree a hused bytes hbytes

theorem Provable.apply (hlawful : libs.lib.Lawful occurs) (hcodec : libs.codec.Lawful used)
    (haccount : ∀ resource, resource.nonce < 2 ^ 64 →
      libs.account (accountRlp resource) = some resource)
    {node next : NodeState} {changes : OutcomeChanges} (h : Provable libs used occurs node)
    (hreported : Reported libs used occurs node changes)
    (happly : node.apply libs changes = some next) : Provable libs used occurs next := by
  simp only [NodeState.apply, Option.bind_eq_bind, Option.bind_eq_some_iff,
    Option.some.injEq] at happly
  obtain ⟨state, hstate, tries, htries, rfl⟩ := happly
  obtain ⟨written, evmChanges, hproduced, hwithin, hstorage, hops⟩ := hreported.evm
  rw [hstorage] at htries
  have hkeeps : Keeps libs occurs node.evmStorage tries evmChanges :=
    keeps_of_produced hlawful haccount h.stores hproduced hwithin htries
  have hnamed := apply_named hstate h.named
  simp only [InMemoryState.apply, Option.bind_eq_bind, Option.bind_eq_some_iff,
    Option.some.injEq] at hstate
  obtain ⟨tree, htree, resolver, -, rfl⟩ := hstate
  refine ⟨hkeeps.stores, hnamed.named, fun _ => hnamed.current, ?_⟩
  intro root other hother a hused bytes hbytes
  dsimp only at hother ⊢
  rw [Function.update_apply] at hother
  split_ifs at hother with hsame
  · -- the new tree: an account is as it was, or as it was reported
    rw [Option.some.injEq] at hother
    subst hother
    have hold : tree (libs.codec.keyHash (.evm a)) =
        (tree (libs.codec.keyHash (.evm a))).map (valueBytes libs.codec (.evm a)) :=
      Option.map_id'.symm
    rw [insertChangeSet_at hcodec hreported.admitted.keys hreported.admitted.values
      hreported.admitted.covers (libs.order_perm _) hused trivial hold] at hbytes
    have hid : valueBytes libs.codec (.evm a) = id := rfl
    rw [hid, Option.map_id, id] at hbytes
    cases hop : opAt changes.moveVm (.evm a) with
    | none =>
      rw [hop] at hbytes
      exact (h.backed_tree htree hused hbytes).mono (hkeeps.nodes a)
    | some op =>
      rw [hop] at hbytes
      have hwritten := hops a
      rw [hop, eq_comm, Option.map_eq_some_iff] at hwritten
      obtain ⟨evmOp, hevmOp, rfl⟩ := hwritten
      obtain ⟨found, hfound, hbacked⟩ := hkeeps.written a evmOp hevmOp
      have hbytes : (encodeOp evmOp).value = some bytes := hbytes
      rw [hfound, Option.some.injEq] at hbytes
      rw [← hbytes]
      exact hbacked
  · exact (h.backed root other hother a hused bytes hbytes).mono (hkeeps.nodes a)

end Nodes

section Runs

variable {S : Type} {reader : ApplicationReader S} {base : Env NodeState OutcomeChanges}
variable {used : Set TreeKey} {occurs : Storage → Prop}

theorem provable_of_reached (hlawful : reader.libs.lib.Lawful occurs)
    (hcodec : reader.libs.codec.Lawful used) (hempty : occurs fun _ => 0)
    (haccount : ∀ resource, resource.nonce < 2 ^ 64 →
      reader.libs.account (accountRlp resource) = some resource)
    (hfaithful : Faithful reader.libs used occurs base) {node : NodeState}
    (h : NodeReached reader.libs used occurs base node) :
    Provable reader.libs used occurs node := by
  induction h with
  | empty => exact provable_empty hempty
  | genesis _ hreported happly ih => exact ih.apply hlawful hcodec haccount hreported happly
  | executed hbefore hexecuted happly ih =>
    exact ih.apply hlawful hcodec haccount (hfaithful _ _ _ _ hbefore hexecuted) happly

/-- The state a run of commands leaves is a state of the node. -/
theorem reached_of_chainRuns (hpick : Picks reader.pick) {node : NodeState}
    {genesis : ExtendedBlock} {app : App NodeState} {chain : List ExtendedBlock}
    (hnode : NodeReached reader.libs used occurs base node)
    (hrun : ChainRuns (nodeEnv reader.libs base) reader.pick node genesis app chain) :
    NodeReached reader.libs used occurs base app.state := by
  induction hrun with
  | start => exact hnode
  | startBlockBuild _ _ hbuild ih =>
    rcases buildInMemory_cases hpick hbuild with ⟨-, rfl⟩ | ⟨-, built, hbuilt, rfl⟩
    · exact ih
    · obtain ⟨batch, progress, hbatch, hstate, -⟩ :=
        buildBlock_run (nodeEnv reader.libs base) hbuilt
      show NodeReached reader.libs used occurs base built.state
      rw [hstate]
      refine runBatch_keeps (nodeEnv reader.libs base) _ batch
        (P := fun progress => NodeReached reader.libs used occurs base progress.state) ?_ hbatch ih
      rintro item - before next hbefore hone
      rcases executeOne_executes (nodeEnv reader.libs base) _ batch hone with
        rfl | ⟨normalized, outcome, receipt, hexecutes⟩
      · exact hbefore
      · exact .executed hbefore hexecutes.accepted hexecutes.applies
  | addTransaction _ hadd ih =>
    rw [addTransaction_state hadd]
    exact ih
  | genesisUpdate _ ih => exact ih

end Runs

section Theorem

variable {libs : Libraries} {occurs : Storage → Prop} {proofs : ProofLibrary}
variable {verifies : B256 → B256 → Option Bytes → List Bytes → Prop}

/-- With all nodes at hand every slot gets its proof and its value. -/
theorem storageProofs_spec (hlaws : ProofLaws libs occurs proofs verifies) {nodes : Nodes}
    {storage : Storage} (hoccurs : occurs storage) (hnodes : libs.lib.Has nodes storage)
    (slots : List U256) :
    ∃ entries, storageProofs libs proofs nodes (libs.lib.root storage) slots = some entries ∧
      entries.map StorageProof.key = slots ∧ ∀ entry ∈ entries,
        verifies (libs.lib.root storage) (slotKey libs entry.key) (leafOf entry.value)
          entry.proof := by
  induction slots with
  | nil => exact ⟨[], rfl, rfl, fun entry hentry => by cases hentry⟩
  | cons index slots ih =>
    obtain ⟨entries, hentries, hkeys, hverified⟩ := ih
    obtain ⟨proof, hproof, hproves⟩ := hlaws.storage nodes storage index hoccurs hnodes
    have hvalue : ∃ value, slotValue libs proofs nodes (libs.lib.root storage) index = some value ∧
        value.getD 0 = storage index := by
      unfold slotValue
      rw [hlaws.slots nodes storage index hoccurs hnodes]
      by_cases hzero : storage index = 0
      · exact ⟨none, by simp [leafOf, hzero], by simp [hzero]⟩
      · have hleaf : leafOf (storage index) = some (wordRlp (storage index)) := if_neg hzero
        exact ⟨some (storage index), by simp [hleaf, hlaws.word _ hzero], rfl⟩
    obtain ⟨value, hslot, hword⟩ := hvalue
    refine ⟨⟨index, value.getD 0, proof⟩ :: entries, ?_, ?_, ?_⟩
    · simp only [storageProofs, hproof, hslot, hentries, Option.bind_eq_bind, Option.bind_some]
    · rw [List.map_cons, hkeys]
    · intro entry hentry
      rcases List.mem_cons.mp hentry with rfl | hentry
      · rw [hword]
        exact hproves
      · exact hverified entry hentry

/-- A tree with backed accounts answers with proofs that verify. -/
theorem proofFromTrieAndResolver_spec (hlaws : ProofLaws libs occurs proofs verifies)
    {tree : Tree} {evmStorage : Address → TrieDb} {address : Address}
    (hbacked : ∀ bytes, tree (libs.codec.keyHash (.evm address)) = some bytes →
      Backed libs occurs (evmStorage address) bytes) (slots : List U256) :
    ∃ response, proofFromTrieAndResolver libs proofs address slots tree evmStorage = some response ∧
      ((tree (libs.codec.keyHash (.evm address))).isSome → response.isSome) ∧
      ∀ found ∈ response, Verified libs verifies (libs.rootHash tree) slots found := by
  have hevm : isEvmStorageOrAccountKey (accountInfoStructTag address) = true :=
    isEvmStorageOrAccountKey_of_evmKeyAddress (evmKeyAddress_accountInfoStructTag address)
  have hread : getResource libs.codec tree evmNativeAddress (accountInfoStructTag address) =
      some (withLength (tree (libs.codec.keyHash (.evm address)))) := by
    simp only [getResource, resourceKey, evmKeyAddress_accountInfoStructTag, hevm, if_true]
  cases hbytes : tree (libs.codec.keyHash (.evm address)) with
  | none =>
    refine ⟨none, ?_, fun hsome => hsome, fun found hfound => by cases hfound⟩
    simp only [proofFromTrieAndResolver, decodeStored, hread, hbytes, withLength,
      Option.bind_eq_bind, Option.bind_some]
  | some bytes =>
    obtain ⟨resource, storage, hresource, rfl, hoccurs, hroot, hnodes⟩ := hbacked bytes hbytes
    have hinfo : decodeStored libs tree libs.account (accountInfoStructTag address) =
        some (some resource) := by
      simp only [decodeStored, hread, hbytes, withLength, Option.bind_eq_bind, Option.bind_some,
        hresource, Option.map_some]
    obtain ⟨accountProof, hproof, hproves⟩ := hlaws.state tree (libs.codec.keyHash (.evm address))
    rw [hbytes] at hproves
    obtain ⟨entries, hentries, hkeys, hverified⟩ := storageProofs_spec hlaws hoccurs hnodes slots
    rw [← hroot] at hentries hverified
    have hnode : ((evmStorage address).nodes.lookup resource.storageRoot).isNone = false := by
      obtain ⟨node, hnode⟩ := Option.isSome_iff_exists.mp (hlaws.rooted storage hoccurs)
      rw [hroot, hnodes _ _ hnode]
      rfl
    refine ⟨some ⟨address, resource.balance, resource.codeHash, resource.nonce,
      resource.storageRoot, accountProof, entries⟩, ?_, fun _ => rfl, ?_⟩
    · simp only [proofFromTrieAndResolver, hinfo, hproof, Option.bind_eq_bind, Option.bind_some]
      split_ifs with hempty hmissing
      · rw [List.isEmpty_iff.mp hempty] at hkeys
        rw [List.map_eq_nil_iff.mp hkeys]
      · rw [hnode] at hmissing
        cases hmissing
      · rw [hentries, Option.bind_some]
    · intro found hfound
      obtain rfl := Option.some.inj hfound
      exact ⟨hproves, hkeys, hverified⟩

end Theorem

section Sample

theorem accountRlp_injective : Function.Injective fun resource : {resource : AccountResource //
    resource.nonce < 2 ^ 64} => accountRlp resource.1 := by
  rintro ⟨a, ha⟩ ⟨b, hb⟩ h
  have htotal := congrArg List.length h
  simp only [accountRlp, Rlp.encodeList, List.length_append] at htotal
  have hsize := (Rlp.header_length_strictMono 0xc0).injective htotal
  simp only [accountRlp, Rlp.encodeList] at h
  rw [hsize, List.append_cancel_left_eq] at h
  simp only [List.flatten_cons, List.flatten_nil] at h
  have hnonce : ∀ nonce, nonce < 2 ^ 64 → nonce < 256 ^ 55 := fun _ hlt => hlt.trans (by norm_num)
  have hword : ∀ word : U256, word.toNat < 256 ^ 55 := fun word => word.isLt.trans (by norm_num)
  have hlength : ∀ word : U256, (wordBytes word).length ≤ 55 := by
    intro word
    simp [wordBytes]
  obtain ⟨hnonces, h⟩ := Rlp.selfDelimiting_encodeNat.read (hnonce _ ha) (hnonce _ hb) h
  obtain ⟨hbalances, h⟩ := Rlp.selfDelimiting_encodeNat.read (hword _) (hword _) h
  obtain ⟨hroots, h⟩ := Rlp.selfDelimiting_encodeString.read (hlength _) (hlength _) h
  obtain ⟨hhashes, -⟩ := Rlp.selfDelimiting_encodeString.read (hlength _) (hlength _) h
  obtain ⟨⟩ := a
  obtain ⟨⟩ := b
  obtain rfl : _ = _ := hnonces
  obtain rfl := BitVec.eq_of_toNat_eq hbalances
  obtain rfl := wordBytes_inj hroots
  obtain rfl := wordBytes_inj hhashes
  rfl

theorem wordRlp_injective : Function.Injective wordRlp := by
  intro a b h
  have hword : ∀ word : U256, word.toNat < 256 ^ 55 := fun word => word.isLt.trans (by norm_num)
  have happend : wordRlp a ++ [] = wordRlp b ++ [] := by rw [h]
  exact BitVec.eq_of_toNat_eq
    (Rlp.selfDelimiting_encodeNat.read (hword a) (hword b) happend).1

/-- RLP decoding, as the inverse of encoding. -/
noncomputable def decodeAccount (bytes : Bytes) : Option AccountResource :=
  (Function.partialInv (fun resource : {resource : AccountResource // resource.nonce < 2 ^ 64} =>
    accountRlp resource.1) bytes).map Subtype.val

/-- The libraries at the bridge's account. -/
noncomputable def bridgeLibs : Libraries where
  codec := bridgeCodec
  rootHash := bridgeRoot
  lib := sampleLib
  account := decodeAccount
  code bytes := some (bytes.drop 1)
  order changes := (toTreeValues changes).entries
  order_perm := perm_entries

/-- A trie of one account is a leaf, which is the proof of every key. -/
def bridgeProof (tree : Tree) : List Bytes :=
  match tree (bridgeCodec.keyHash (.evm bridgeAddress)) with
  | none => []
  | some bytes => [Rlp.encodeList [Rlp.encodeString
      (0x20 :: wordBytes (bridgeCodec.keyHash (.evm bridgeAddress))), Rlp.encodeString bytes]]

/-- The empty storage trie has nothing, and no nodes to prove it. -/
noncomputable def bridgeProofs : ProofLibrary where
  stateProof tree _ := some (bridgeProof tree)
  getProof _ _ _ := some []
  get _ _ _ := some none
  decodeWord := Function.partialInv wordRlp

def bridgeVerifies (root key : B256) (value : Option Bytes) (proof : List Bytes) : Prop :=
  (∃ tree : Tree, bridgeRoot tree = root ∧ tree key = value ∧ bridgeProof tree = proof) ∨
    root = emptyRoot ∧ value = none ∧ proof = []

def isEmptyStorage (storage : Storage) : Prop := storage = fun _ => 0

theorem bridge_proofLaws : ProofLaws bridgeLibs isEmptyStorage bridgeProofs bridgeVerifies where
  state tree key := ⟨_, rfl, .inl ⟨tree, rfl, rfl, rfl⟩⟩
  storage nodes storage index hoccurs _ := by
    subst hoccurs
    exact ⟨_, rfl, .inr ⟨rfl, rfl, rfl⟩⟩
  slots nodes storage index hoccurs _ := by
    subst hoccurs
    rfl
  rooted storage hoccurs := by
    subst hoccurs
    rfl
  word word _ := Function.partialInv_left wordRlp_injective word
  account resource hnonce := by
    show decodeAccount (accountRlp resource) = some resource
    rw [decodeAccount, Function.partialInv_left accountRlp_injective ⟨resource, hnonce⟩]
    rfl

theorem bridge_lawful : bridgeLibs.lib.Lawful isEmptyStorage :=
  sampleLib_lawful fun _ h => .inl h

theorem evmStateOf_emptyNode : evmStateOf bridgeLibs emptyNode = sampleBase.toEvmState := by
  unfold evmStateOf
  congr 1
  funext key
  cases key <;> rfl

def bridgeAlloc : Table Address GenesisAccount := AList.singleton bridgeAddress ⟨none, 0, none, none⟩

theorem bridge_isSome : (genesisStateChanges sampleLib bridgeCodec.keccak256
    sampleBase.toEvmState bridgeAlloc).isSome := by
  decide +kernel

def bridgeChanges : OutcomeChanges where
  moveVm := accountChange (.new (accountBytes 0x80))
  evm := (Option.get _ bridge_isSome).storage

theorem accountRlp_bridge : accountRlp ⟨0, 0, keccakEmpty, emptyRoot⟩ = accountBytes 0x80 := by
  simp only [accountRlp, Rlp.encodeNat, Rlp.beBytes, Nat.digits_zero, List.map_nil,
    List.reverse_nil]
  decide +kernel

theorem opAt_accountChange_of_ne (op : Op Bytes) {a : Address} (ha : a ≠ bridgeAddress) :
    opAt (accountChange op) (.evm a) = none := by
  cases hop : opAt (accountChange op) (.evm a) with
  | none => rfl
  | some other =>
    simp only [opAt, Option.bind_eq_some_iff] at hop
    obtain ⟨account, haccount, hlookup⟩ := hop
    obtain ⟨-, htag, -⟩ := lookup_accountChange haccount hlookup
    have hsame := congrArg evmKeyAddress htag
    rw [evmKeyAddress_accountInfoStructTag, evmKeyAddress_accountInfoStructTag,
      Option.some.injEq] at hsame
    exact absurd hsame ha

theorem bridge_accounts (a : Address) :
    opAt (accountChange (.new (accountBytes 0x80))) (.evm a) =
      ((Option.get _ bridge_isSome).accounts.lookup (.account a)).map encodeOp := by
  have hentries : (Option.get _ bridge_isSome).accounts.entries =
      [⟨.account bridgeAddress, .new (.account ⟨0, 0, keccakEmpty, emptyRoot⟩)⟩] := by
    decide +kernel
  rw [AList.lookup, hentries]
  by_cases ha : a = bridgeAddress
  · subst ha
    rw [List.dlookup_cons_eq, Option.map_some, encodeOp, resourceBytes, accountRlp_bridge]
    exact opAt_accountChange _
  · rw [List.dlookup_cons_ne _ _ (by simpa using ha)]
    exact opAt_accountChange_of_ne _ ha

theorem bridge_reported :
    Reported bridgeLibs bridgeUsed isEmptyStorage emptyNode bridgeChanges := by
  have hproduced : Produced bridgeLibs (evmStateOf bridgeLibs emptyNode)
      (fun a => ((bridgeAlloc.lookup a).map (genesisEvmAccount bridgeCodec.keccak256)).toList)
      (Option.get _ bridge_isSome) := by
    rw [evmStateOf_emptyNode]
    exact .genesis (Option.some_get _).symm
  refine ⟨admitted_accountChange (by simp [Op.value, accountBytes]), _, _, hproduced, ?_, rfl,
    bridge_accounts⟩
  intro a account haccount
  rw [bridgeAlloc, lookup_singleton] at haccount
  split_ifs at haccount
  · rw [Option.map_some, Option.toList_some, List.mem_singleton] at haccount
    subst haccount
    exact ⟨by decide, fun storage hoccurs _ => hoccurs⟩
  · cases haccount

/-- Transactions that change nothing. -/
def idleBase : Env NodeState OutcomeChanges :=
  { storeBase with executeTransaction := fun _ _ _ => .ok ⟨true, ⟨∅, ∅⟩, 21000, 0, [], none⟩ }

theorem idle_faithful : Faithful bridgeLibs bridgeUsed isEmptyStorage idleBase := by
  intro node blocks input outcome _ hexecuted
  obtain rfl : _ = outcome := Except.ok.inj hexecuted
  refine ⟨⟨?_, ?_, ?_⟩, persistedAll [], ⟨∅, ∅⟩, .extracted rfl, ?_, rfl, fun a => rfl⟩
  · intro address account tag op haccount
    cases haccount
  · intro address account tag op haccount
    cases haccount
  · intro key hkey
    cases hkey
  · intro a account haccount
    cases haccount

theorem exists_bridgeNode : ∃ node tree, emptyNode.apply bridgeLibs bridgeChanges = some node ∧
    node.state.db node.state.stateRoot = some tree ∧
    node.state.currentStateRoot = some node.state.stateRoot ∧
    (tree (bridgeCodec.keyHash (.evm bridgeAddress))).isSome := by
  have hfits : fits (.new (accountBytes 0x80)) ((InMemoryState.new.resolver
      evmNativeAddress).resources (accountInfoStructTag bridgeAddress)) = true := rfl
  obtain ⟨state, happly, htree, -⟩ := exists_apply rfl hfits
  have hstorage : (applyStorage bridgeLibs emptyNode.evmStorage bridgeChanges.evm).isSome := by
    rw [applyStorage, if_pos]
    · rfl
    · exact List.all_eq_true.mpr fun a _ => rfl
  obtain ⟨tries, htries⟩ := Option.isSome_iff_exists.mp hstorage
  have hroot : state.currentStateRoot = some state.stateRoot := by
    simp only [InMemoryState.apply, Option.bind_eq_bind, Option.bind_eq_some_iff,
      Option.some.injEq] at happly
    obtain ⟨before, -, resolver, -, rfl⟩ := happly
    rfl
  have hdb : state.db state.stateRoot = some (insertChangeSet bridgeCodec (fun _ => none)
      (toTreeValues (accountChange (.new (accountBytes 0x80)))).entries) := by
    rw [← htree, InMemoryState.tree, hroot]
  refine ⟨⟨state, tries⟩, _, ?_, hdb, hroot, ?_⟩
  · have hstate : emptyNode.state.apply bridgeLibs.codec bridgeLibs.rootHash
        (bridgeLibs.order bridgeChanges.moveVm) bridgeChanges.moveVm = some state := happly
    simp only [NodeState.apply, hstate, htries, Option.bind_eq_bind, Option.bind_some]
  · have hold : (fun _ => none : Tree) (bridgeCodec.keyHash (.evm bridgeAddress)) =
        (none : Option Bytes).map (valueBytes bridgeCodec (.evm bridgeAddress)) := rfl
    rw [insertChangeSet_at bridgeCodec_lawful (accountKeys_accountChange _)
      (admitted_accountChange (by simp [Op.value, accountBytes])).values
      (covers_accountChange _) (.refl _) (.inl rfl) trivial hold, opAt_accountChange]
    rfl

end Sample

end OpMove.AccountProofs
