import OpMove.BuildSimulation
import OpMove.DatabaseBuilds

/-!
One node on two kinds of storage. In memory a transaction is executed over the flat store, on a
database over the trie of the present root; the virtual machines are the same programs, which ask
their resolver. The two states mirror each other when they have the same tries under the same
roots, the same present root and the same storage tries. Then every question is answered alike, and
a change set that goes through in memory goes through on the database and leaves states that mirror
each other again.
-/

namespace OpMove.Backends

open Primitives MoveTypes Transactions Errors ChangeSets StateChanges StorageTries NativeEvm
open ReadPrograms TreeKeys StateTrie TrieRefinement BlockBuilding BlockAgreement BlockStore Queries
open AccountProofs Traces Databases DatabaseBuilds BuildSimulation

section Resolvers

/-- `MoveResolver`; a panic gives `none`. -/
structure Resolver where
  getModule : AccountAddress → String → Option (Option Bytes)
  getResource : AccountAddress → StructTag → Option (Option Bytes × ℕ)

/-- `EthTrieResolver`. -/
def treeResolver (codec : StateCodec) (tree : Tree) : Resolver :=
  ⟨getModule codec tree, getResource codec tree⟩

/-- The flat store as a resolver. -/
def storageResolver (storage : InMemoryStorage) : Resolver :=
  ⟨fun address name => some (storage.getModule address name),
    fun address tag => some (storage.getResource address tag)⟩

variable (libs : Libraries) (resolver : Resolver)

namespace Resolver

def moveAnswers : Answers MoveAnswer Unit
  | .module address name => orPanic (resolver.getModule address name)
  | .resource address tag => orPanic (resolver.getResource address tag)

/-- A stored value, if there is one; bytes that do not decode give `none`. -/
def decodeStored {α : Type} (decode : Bytes → Option α) (tag : StructTag) : Option (Option α) := do
  match (← resolver.getResource evmNativeAddress tag).1 with
  | none => some none
  | some bytes => (decode bytes).map some

/-- The resources of the EVM behind the resolver. -/
def resourceAt : ResourceKey → Option (Option ResourceValue)
  | .account a => (resolver.decodeStored libs.account (accountInfoStructTag a)).map fun value =>
      value.map .account
  | .code codeHash => (resolver.decodeStored libs.code (codeHashStructTag codeHash)).map
      fun value => value.map .code

/-- Whether what a question of the EVM reads decodes. -/
def decodes : Query → Bool
  | .basic a => (resolver.resourceAt libs (.account a)).isSome
  | .codeByHash codeHash =>
      codeHash = keccakEmpty || (resolver.resourceAt libs (.code codeHash)).isSome
  | .storage _ _ => true
  | .blockHash _ => true

/-- What execution is answered over a resolver. -/
def answers (evmStorage : Address → TrieDb) (hashByNumber : ℕ → Option B256) (number : ℕ) :
    Answers QuestionAnswer Unit
  | .move question => resolver.moveAnswers question
  | .db query =>
      if resolver.decodes libs query then
        let db : ResolverBackedDB :=
          ⟨⟨fun key => (resolver.resourceAt libs key).join, evmStorage⟩, hashByNumber, number⟩
        .ok (db.answers libs.lib query)
      else .error ()

end Resolver

theorem decodeStored_treeResolver {α : Type} (tree : Tree) (decode : Bytes → Option α)
    (tag : StructTag) : (treeResolver libs.codec tree).decodeStored decode tag =
      Queries.decodeStored libs tree decode tag := by
  rcases hvalue : getResource libs.codec tree evmNativeAddress tag with _ | ⟨bytes, length⟩
  · simp [Resolver.decodeStored, Queries.decodeStored, treeResolver, hvalue]
  · cases bytes <;>
      simp [Resolver.decodeStored, Queries.decodeStored, treeResolver, hvalue]

/-- The answers of queries are those over the trie of a height. -/
theorem answers_treeResolver (tree : Tree) :
    (treeResolver libs.codec tree).answers libs = Queries.answers libs tree := by
  have hresource : (treeResolver libs.codec tree).resourceAt libs = Queries.resourceAt libs tree := by
    funext key
    cases key with
    | account a => simp only [Resolver.resourceAt, Queries.resourceAt, decodeStored_treeResolver]
    | code codeHash => simp only [Resolver.resourceAt, Queries.resourceAt, decodeStored_treeResolver]
  have hdecodes : (treeResolver libs.codec tree).decodes libs = Queries.decodes libs tree := by
    funext query
    cases query with
    | basic a => simp only [Resolver.decodes, Queries.decodes, hresource]
    | codeByHash codeHash => simp only [Resolver.decodes, Queries.decodes, hresource]
    | storage a i => rfl
    | blockHash n => rfl
  funext evmStorage hashes number question
  cases question with
  | move question => cases question <;> rfl
  | db query => simp only [Resolver.answers, Queries.answers, hdecodes, hresource, dbAt]

end Resolvers

section Questions

variable {libs : Libraries} {used : Set TreeKey} {state : InMemoryState} {tree : Tree}

/-- A question whose key is among the used ones. A resource that is named like an account is asked
for as the account it names. -/
def Known (used : Set TreeKey) : Question → Prop
  | .move (.module address name) => .stateKey (.module address name) ∈ used
  | .move (.resource address tag) => resourceKey address tag ∈ used ∧
      ∀ evmAddress, evmKeyAddress tag = some evmAddress →
        address = evmNativeAddress ∧ tag = accountInfoStructTag evmAddress
  | .db (.basic a) => .evm a ∈ used
  | .db (.codeByHash codeHash) => resourceKey evmNativeAddress (codeHashStructTag codeHash) ∈ used
  | .db (.storage _ _) => True
  | .db (.blockHash _) => True

theorem evmKeyAddress_codeHashStructTag (codeHash : B256) :
    evmKeyAddress (codeHashStructTag codeHash) = none := by
  have hstrip : stripAccountInfo (codeHashStructTag codeHash).name = none := by
    have hname : (codeHashStructTag codeHash).name.toList =
        "CodeHash_".toList ++ Hex.encode 64 codeHash.toNat := by
      simp only [codeHashStructTag, String.toList_append, String.toList_ofList]
    rw [stripAccountInfo, hname, if_neg]
    simp [accountInfoPrefix]
  rw [evmKeyAddress, hstrip]
  split_ifs <;> rfl

section Agreement

variable (hlawful : libs.codec.Lawful used) (hagrees : Agrees libs.codec used state tree)
include hlawful hagrees

/-- A resource is read alike from the trie and from the flat store. -/
theorem getResource_eq_of_known {address : AccountAddress} {tag : StructTag}
    (hused : resourceKey address tag ∈ used)
    (hnamed : ∀ evmAddress, evmKeyAddress tag = some evmAddress →
      address = evmNativeAddress ∧ tag = accountInfoStructTag evmAddress) :
    (treeResolver libs.codec tree).getResource address tag =
      (storageResolver state.resolver).getResource address tag := by
  have hread : getResource libs.codec tree address tag = some (readAs state.resolver address tag) :=
    hagrees.getResource_eq hlawful hused
  have hsame : readAs state.resolver address tag = state.resolver.getResource address tag := by
    unfold readAs
    cases hkey : evmKeyAddress tag with
    | none => rfl
    | some evmAddress =>
      obtain ⟨haddress, htag⟩ := hnamed evmAddress hkey
      rw [haddress, htag]
  change getResource libs.codec tree address tag = some (state.resolver.getResource address tag)
  rw [hread, hsame]

theorem resourceAt_account {a : Address} (hused : .evm a ∈ used) :
    (treeResolver libs.codec tree).resourceAt libs (.account a) =
      (storageResolver state.resolver).resourceAt libs (.account a) := by
  have hread : (treeResolver libs.codec tree).getResource evmNativeAddress (accountInfoStructTag a) =
      (storageResolver state.resolver).getResource evmNativeAddress (accountInfoStructTag a) := by
    refine getResource_eq_of_known hlawful hagrees ?_ fun evmAddress hkey => ?_
    · rw [resourceKey, evmKeyAddress_accountInfoStructTag]
      exact hused
    · rw [evmKeyAddress_accountInfoStructTag, Option.some.injEq] at hkey
      rw [hkey]
      exact ⟨rfl, rfl⟩
  simp only [Resolver.resourceAt, Resolver.decodeStored, hread]

theorem resourceAt_code {codeHash : B256}
    (hused : resourceKey evmNativeAddress (codeHashStructTag codeHash) ∈ used) :
    (treeResolver libs.codec tree).resourceAt libs (.code codeHash) =
      (storageResolver state.resolver).resourceAt libs (.code codeHash) := by
  have hread : (treeResolver libs.codec tree).getResource evmNativeAddress
        (codeHashStructTag codeHash) =
      (storageResolver state.resolver).getResource evmNativeAddress (codeHashStructTag codeHash) := by
    refine getResource_eq_of_known hlawful hagrees hused fun evmAddress hkey => ?_
    rw [evmKeyAddress_codeHashStructTag] at hkey
    cases hkey
  simp only [Resolver.resourceAt, Resolver.decodeStored, hread]

/-- Known questions have one answer. -/
theorem answers_eq_of_known (evmStorage : Address → TrieDb) (hashes : ℕ → Option B256) (number : ℕ)
    {question : Question} (hknown : Known used question) :
    (treeResolver libs.codec tree).answers libs evmStorage hashes number question =
      (storageResolver state.resolver).answers libs evmStorage hashes number question := by
  cases question with
  | move question =>
    cases question with
    | module address name =>
      have hread : getModule libs.codec tree address name =
          some (state.resolver.getModule address name) := hagrees.getModule_eq hlawful hknown
      exact congrArg orPanic hread
    | resource address tag =>
      exact congrArg orPanic (getResource_eq_of_known hlawful hagrees hknown.1 hknown.2)
  | db query =>
    cases query with
    | basic a =>
      simp only [Resolver.answers, Resolver.decodes, ResolverBackedDB.answers,
        ResolverBackedDB.basicRef, resourceAt_account hlawful hagrees hknown]
      rfl
    | codeByHash codeHash =>
      simp only [Resolver.answers, Resolver.decodes, ResolverBackedDB.answers,
        ResolverBackedDB.codeByHashRef, resourceAt_code hlawful hagrees hknown]
    | storage a i =>
      simp only [Resolver.answers, Resolver.decodes, if_true, ResolverBackedDB.answers,
        ResolverBackedDB.storageRef]
    | blockHash n =>
      simp only [Resolver.answers, Resolver.decodes, if_true, ResolverBackedDB.answers,
        ResolverBackedDB.blockHashRef]

end Agreement

end Questions

section States

variable {engine : Engine} {libs : Libraries} {used : Set TreeKey} {node next : NodeState}
variable {state : StoredState}

/-- The state in memory and the state of a database hold the same. -/
structure Mirrors (engine : Engine) (libs : Libraries) (used : Set TreeKey) (node : NodeState)
    (state : StoredState) : Prop where
  trie : state.trie = node.state.db
  root : state.root engine = node.state.currentStateRoot
  storage : state.evmStorage = node.evmStorage
  agrees : ∃ tree, Agrees libs.codec used node.state tree

theorem Mirrors.tree_eq (h : Mirrors engine libs used node state) :
    state.tree engine = node.state.tree := by
  have hroot := h.root
  have htrie := h.trie
  unfold StoredState.tree InMemoryState.tree
  generalize node.state.currentStateRoot = root at hroot ⊢
  cases root <;> simp [hroot, htrie]

theorem Mirrors.stateRoot_eq (h : Mirrors engine libs used node state) :
    state.stateRoot engine = node.state.stateRoot := by
  unfold StoredState.stateRoot InMemoryState.stateRoot
  rw [h.root]

theorem mirrors_new : Mirrors engine libs used emptyNode Database.new.state :=
  ⟨rfl, rfl, rfl, _, agrees_new⟩

/-- The nodes and the root of one account are written one after the other. -/
theorem result_applyAccount {account : Σ _ : Address, StorageTrieChanges}
    (hopen : ((state.evmStorage account.1).forAccount libs.lib).isSome) :
    (applyAccount engine libs state account).result =
      some (state.withTrie account.1 ((state.evmStorage account.1).apply account.2)) := by
  obtain ⟨trie, htrie⟩ := Option.isSome_iff_exists.mp hopen
  have hopened : (Trace.ofOption (W := Write)
      ((state.evmStorage account.1).forAccount libs.lib)).result = some trie := htrie
  unfold applyAccount
  rw [Trace.bind_of_some hopened]
  change some ((StateWrite.storageRoot account.1 account.2.root).apply engine libs.rootHash
    ((StateWrite.storageNodes account.1 account.2.trieDiff).apply engine libs.rootHash state)) = _
  simp only [StateWrite.apply, StoredState.withTrie, Function.update_self, Function.update_idem,
    TrieDb.apply]

/-- The accounts of a change set are different ones, so that each trie is opened as it was. -/
theorem result_applyAccounts {accounts : List (Σ _ : Address, StorageTrieChanges)}
    (hnodup : accounts.NodupKeys)
    (hopen : ∀ account ∈ accounts, ((state.evmStorage account.1).forAccount libs.lib).isSome) :
    ∃ last, (accounts.foldlM (applyAccount engine libs) state).result = some last ∧
      last.trie = state.trie ∧ last.trieRoot = state.trieRoot ∧
      ∀ a, last.evmStorage a = match accounts.dlookup a with
        | none => state.evmStorage a
        | some changes => (state.evmStorage a).apply changes := by
  induction accounts generalizing state with
  | nil => exact ⟨state, rfl, rfl, rfl, fun a => rfl⟩
  | cons account rest ih =>
    obtain ⟨hfresh, hrest⟩ := List.nodupKeys_cons.mp hnodup
    let middle := state.withTrie account.1 ((state.evmStorage account.1).apply account.2)
    have hone : (applyAccount engine libs state account).result = some middle :=
      result_applyAccount (hopen account List.mem_cons_self)
    have hothers : ∀ a, a ≠ account.1 → middle.evmStorage a = state.evmStorage a :=
      fun a ha => Function.update_of_ne ha _ _
    have hopenRest : ∀ other ∈ rest, ((middle.evmStorage other.1).forAccount libs.lib).isSome := by
      intro other hother
      have hne : other.1 ≠ account.1 := by
        intro hsame
        exact hfresh (hsame ▸ List.mem_keys_of_mem hother)
      rw [hothers _ hne]
      exact hopen other (List.mem_cons_of_mem _ hother)
    obtain ⟨last, hlast, htrie, hroot, hstorage⟩ := ih hrest hopenRest
    refine ⟨last, ?_, htrie, hroot, fun a => ?_⟩
    · rw [List.foldlM_cons, Trace.bind_of_some hone]
      exact hlast
    · rw [hstorage a]
      by_cases ha : a = account.1
      · subst ha
        rw [List.dlookup_eq_none.mpr hfresh, List.dlookup_cons_eq]
        exact Function.update_self _ _ _
      · rw [List.dlookup_cons_ne _ _ ha, hothers a ha]

/-- A change set that goes through in memory goes through on the database. -/
theorem Mirrors.apply (hlawful : libs.codec.Lawful used) (h : Mirrors engine libs used node state)
    {changes : OutcomeChanges} (hadmitted : Admitted used changes.moveVm)
    (happly : node.apply libs changes = some next) :
    ∃ last, (Databases.applyChanges engine libs state changes).result = some last ∧
      Mirrors engine libs used next last := by
  obtain ⟨tree, hagrees⟩ := h.agrees
  simp only [NodeState.apply, Option.bind_eq_bind, Option.bind_eq_some_iff, Option.some.injEq]
    at happly
  obtain ⟨memory, hmemory, evmStorage, hstorage, rfl⟩ := happly
  have hnext := hagrees.apply hlawful hadmitted.keys hadmitted.values hadmitted.covers
    (libs.order_perm changes.moveVm) hmemory
  simp only [InMemoryState.apply, hagrees.current, Option.bind_eq_bind, Option.bind_some,
    Option.bind_eq_some_iff, Option.some.injEq] at hmemory
  obtain ⟨resolver, -, rfl⟩ := hmemory
  set written := insertChangeSet libs.codec tree (libs.order changes.moveVm) with hwritten
  let middle : StoredState :=
    { trie := Function.update state.trie (libs.rootHash written) (some written)
      trieRoot := state.trieRoot.insert engine.rootKey (libs.rootHash written)
      evmStorage := state.evmStorage }
  unfold applyStorage at hstorage
  split_ifs at hstorage with hopen
  obtain rfl := Option.some.inj hstorage
  have hopened : ∀ account ∈ changes.evm.entries,
      ((middle.evmStorage account.1).forAccount libs.lib).isSome := by
    intro account haccount
    change ((state.evmStorage account.1).forAccount libs.lib).isSome
    rw [h.storage]
    exact List.all_eq_true.mp hopen _ (List.mem_keys_of_mem haccount)
  obtain ⟨last, hlast, htrie, hroot, hlastStorage⟩ :=
    @result_applyAccounts engine libs middle _ changes.evm.nodupKeys hopened
  refine ⟨last, ?_, ?_, ?_, ?_, written, hnext⟩
  · have htree : (Trace.ofOption (W := Write) (state.tree engine)).result = some tree := by
      rw [Trace.result_ofOption, h.tree_eq, hagrees.current]
    unfold Databases.applyChanges
    rw [Trace.bind_of_some htree]
    exact hlast
  · rw [htrie, ← h.trie]
  · rw [StoredState.root, hroot]
    exact AList.lookup_insert _
  · funext a
    rw [hlastStorage a, ← h.storage]
    rfl

end States

section Environments

variable {S : Type} (reader : ApplicationReader S)

/-- `hash_by_number` over the blocks that are seen. -/
def hashIn (blocks : List ExtendedBlock) (number : ℕ) : Option B256 :=
  (blocks.find? fun block => block.header.number = number).map fun block => block.hash

/-- What a transaction is answered while it is executed. -/
def executionAnswers (resolver : Resolver) (evmStorage : Address → TrieDb)
    (blocks : List ExtendedBlock) (input : ExecutionInput) : Answers QuestionAnswer Unit :=
  resolver.answers reader.libs evmStorage (hashIn blocks) input.blockHeader.number

/-- The virtual machines over a resolver. -/
def executeOver (resolver : Resolver) (evmStorage : Address → TrieDb) (blocks : List ExtendedBlock)
    (input : ExecutionInput) : Except Error (Outcome OutcomeChanges) :=
  match (reader.vm.executeTransaction input).run
      (executionAnswers reader resolver evmStorage blocks input) with
  | .ok result => result
  | .error _ => .error .panicked

/-- Execution in memory, where the resolver is the flat store. -/
def memoryBase (base : Env NodeState OutcomeChanges) : Env NodeState OutcomeChanges :=
  { base with
    executeTransaction := fun node blocks input =>
      executeOver reader (storageResolver node.state.resolver) node.evmStorage blocks input }

/-- Execution on a database, where the resolver reads the trie of the present root. -/
def databaseBase (engine : Engine) (base : Env NodeState OutcomeChanges) :
    Env StoredState OutcomeChanges where
  codec := base.codec
  executeTransaction state blocks input :=
    match state.tree engine with
    | none => .error .panicked
    | some tree =>
        executeOver reader (treeResolver reader.libs.codec tree) state.evmStorage blocks input
  applyChanges _ _ := none
  stateRoot _ := 0
  gasFee := base.gasFee
  blockHash := base.blockHash
  orderedTrieRoot := base.orderedTrieRoot
  encodeReceipt := base.encodeReceipt
  logBloom := base.logBloom

/-- A transaction that asks and writes under used keys only. -/
structure Within (used : Set TreeKey) (blocks : List ExtendedBlock) (node : NodeState)
    (input : ExecutionInput) : Prop where
  reads : ∀ question ∈ (reader.vm.executeTransaction input).reads (executionAnswers reader
    (storageResolver node.state.resolver) node.evmStorage blocks input), Known used question
  writes : ∀ outcome, executeOver reader (storageResolver node.state.resolver) node.evmStorage
    blocks input = .ok outcome → Admitted used outcome.changes.moveVm

variable {reader} {engine : Engine} {used : Set TreeKey} {blocks otherBlocks : List ExtendedBlock}

/-- A transaction is executed alike over states that mirror each other. -/
theorem Mirrors.executeOver_eq (base : Env NodeState OutcomeChanges)
    (hlawful : reader.libs.codec.Lawful used) {node : NodeState}
    {state : StoredState} (h : Mirrors engine reader.libs used node state)
    (hhashes : hashIn otherBlocks = hashIn blocks) {input : ExecutionInput}
    (hwithin : Within reader used blocks node input) :
    (databaseBase reader engine base).executeTransaction state otherBlocks input =
      executeOver reader (storageResolver node.state.resolver) node.evmStorage blocks input := by
  obtain ⟨tree, hagrees⟩ := h.agrees
  have htree : state.tree engine = some tree := by rw [h.tree_eq, hagrees.current]
  have hrun : (reader.vm.executeTransaction input).run (executionAnswers reader
        (treeResolver reader.libs.codec tree) state.evmStorage otherBlocks input) =
      (reader.vm.executeTransaction input).run (executionAnswers reader
        (storageResolver node.state.resolver) node.evmStorage blocks input) := by
    refine run_eq_of_reads _ fun question hquestion => ?_
    unfold executionAnswers
    rw [h.storage, hhashes]
    exact answers_eq_of_known hlawful hagrees _ _ _ (hwithin.reads question hquestion)
  simp only [databaseBase, htree]
  unfold executeOver
  rw [hrun]

/-- Building on the database simulates building in memory. -/
theorem database_simulates (hlawful : reader.libs.codec.Lawful used)
    (base : Env NodeState OutcomeChanges) (hhashes : hashIn otherBlocks = hashIn blocks) :
    Simulates (Mirrors engine reader.libs used) (Within reader used blocks)
      (nodeEnv reader.libs (memoryBase reader base)) blocks
      (storedEnv engine reader.libs (databaseBase reader engine base)) otherBlocks where
  codec := rfl
  gasFee := rfl
  blockHash := rfl
  orderedTrieRoot := rfl
  encodeReceipt := rfl
  logBloom := rfl
  stateRoot _ _ h := h.stateRoot_eq
  executes _ _ _ h hwithin := h.executeOver_eq base hlawful hhashes hwithin
  applies _ _ _ outcome _ h hwithin houtcome happly :=
    h.apply hlawful (hwithin.writes outcome houtcome) happly

end Environments

end OpMove.Backends
