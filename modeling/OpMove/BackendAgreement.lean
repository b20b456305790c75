import OpMove.Backends
import OpMove.Interruptions

/-!
What the backends answer about a height. A node in memory and a node on a database are given the
same commands. The first finds the state root of a height in the block of that height, the second in
a table it fills under a counter of its own, and both find the same root for every height up to the
latest block. Above it the first has nothing, while the second answers from an empty trie.
-/

namespace OpMove.BackendAgreement

open Primitives Transactions ChangeSets StateChanges StorageTries TreeKeys StateTrie TrieRefinement
open BlockBuilding BlockAgreement BlockStore Multimaps Queries PastAnswers AccountProofs Traces
open Databases DatabaseBuilds BuildSimulation Backends

section Runs

variable {S : Type} (reader : ApplicationReader S) (app : App NodeState)

/-- `InMemoryStateQueries::balance_at`. -/
def balanceAt (account : AccountAddress) (height : ℕ) : Option (Option U256) := do
  match ← reader.resolver app height with
  | none => some none
  | some tree => (reader.quickGetEthBalance tree account).map some

/-- `InMemoryStateQueries::nonce_at`. -/
def nonceAt (account : AccountAddress) (height : ℕ) : Option (Option ℕ) := do
  match ← reader.resolver app height with
  | none => some none
  | some tree => (reader.quickGetNonce tree account).map some

/-- The queries about a height agree, a block's height has a state, a height without a block has
none, and the recorded root is that of the block. -/
structure AnswersAlike (proofs : ProofLibrary) (db : Database) (chain : List ExtendedBlock)
    (height : ℕ) : Prop where
  balance : ∀ account, balanceAtStored db reader account height = balanceAt reader app account height
  nonce : ∀ account, nonceAtStored db reader account height = nonceAt reader app account height
  proof : ∀ account slots, proofAtStored db reader proofs db.state.evmStorage account slots height =
    proofAt proofs reader app account slots height
  resolver : resolverAtStored db reader height = reader.resolverAt app height
  present : height < chain.length → (reader.resolverAt app height).isSome
  absent : chain.length ≤ height → ∀ account slots, balanceAt reader app account height = some none ∧
    nonceAt reader app account height = some none ∧
    proofAt proofs reader app account slots height = some none
  recorded : reader.rootByHeight app height =
      chain[height]?.map (fun block => block.header.stateRoot) ∧
    db.rootByHeight reader.genesisStateRoot height =
      chain[height]?.map fun block => block.header.stateRoot

variable (engine : Engine) (base : Env NodeState OutcomeChanges) (used : Set TreeKey)
variable (genesisChanges : OutcomeChanges) (genesis : ExtendedBlock)

/-- A node in memory and a node on a database, which are given the same commands. What the second
one makes of them is left open. Transactions ask and write under used keys only, and no block is
built under the payload id of the genesis block. -/
inductive Lockstep : App NodeState → Option StoredApp → List ExtendedBlock → Prop
  | start {node : NodeState} : Admitted used genesisChanges.moveVm →
      emptyNode.apply reader.libs genesisChanges = some node →
      node.state.stateRoot = reader.genesisStateRoot →
      Lockstep (genesisUpdate ⟨node, [], [], [], []⟩ genesis)
        ((initializeApp engine reader.libs reader.genesisStateRoot genesisChanges .new).map
          fun stored => genesisUpdateStored stored genesis) [genesis]
  | startBlockBuild {app next : App NodeState} {stored : Option StoredApp}
      {chain : List ExtendedBlock} {attributes : Payload} {id : ℕ} {drained : List Item} :
      Lockstep app stored chain → drained.Perm app.memPool → id ≠ genesis.payloadId →
      AllowedBuild (Within reader used (visible reader.pick app.blocks))
        (nodeEnv reader.libs (memoryBase reader base))
        { app with blocks := visible reader.pick app.blocks } attributes drained →
      buildInMemory (nodeEnv reader.libs (memoryBase reader base)) reader.pick app attributes id
        drained = some next →
      Lockstep next (stored.bind fun stored => handleBuild engine reader.libs
        (databaseBase reader engine base) stored attributes id drained) (chain ++ addedBlocks app next)
  | addTransaction {app next : App NodeState} {stored : Option StoredApp}
      {chain : List ExtendedBlock} {tx : TxEnvelope} : Lockstep app stored chain →
      addTransaction (nodeEnv reader.libs (memoryBase reader base)) app tx = some next →
      Lockstep next (stored.bind fun stored =>
        addTransactionStored (databaseBase reader engine base) stored tx) chain
  | genesisUpdate {app : App NodeState} {stored : Option StoredApp} {chain : List ExtendedBlock} :
      Lockstep app stored chain → Lockstep (genesisUpdate app genesis)
        (stored.map fun stored => genesisUpdateStored stored genesis) chain

end Runs

section Invariant

variable {S : Type} {reader : ApplicationReader S} {engine : Engine} {used : Set TreeKey}
variable {base : Env NodeState OutcomeChanges} {genesisChanges : OutcomeChanges}
variable {genesis : ExtendedBlock} {app next : App NodeState} {stored : StoredApp}
variable {chain : List ExtendedBlock}

/-- The table of payload ids knows the blocks of the chain, except the first one. -/
structure Payloads (genesis : ExtendedBlock) (db : Database) (chain : List ExtendedBlock) : Prop where
  known : ∀ id hash, db.payloads.lookup id = some hash → ∃ block ∈ chain, block.payloadId = id
  listed : ∀ block ∈ chain, block ≠ genesis → db.payloads.lookup block.payloadId = some block.hash

/-- A new block under a payload id of its own. -/
theorem Payloads.insert {db next : Database} {block : ExtendedBlock}
    (h : Payloads genesis db chain) (hfresh : ∀ other ∈ chain, other.payloadId ≠ block.payloadId)
    (hnext : next.payloads = db.payloads.insert block.payloadId block.hash) :
    Payloads genesis next (chain ++ [block]) := by
  refine ⟨fun id hash hlookup => ?_, fun other hother hne => ?_⟩
  · rw [hnext] at hlookup
    by_cases hsame : id = block.payloadId
    · exact ⟨block, by simp, hsame.symm⟩
    · rw [AList.lookup_insert_ne hsame] at hlookup
      obtain ⟨found, hfound, hid⟩ := h.known id hash hlookup
      exact ⟨found, List.mem_append_left _ hfound, hid⟩
  · rw [hnext]
    rcases List.mem_append.mp hother with hold | hlast
    · rw [AList.lookup_insert_ne (hfresh other hold)]
      exact h.listed other hold hne
    · obtain rfl := List.mem_singleton.mp hlast
      exact AList.lookup_insert _

/-- Two nodes after the same commands. -/
structure Paired (reader : ApplicationReader S) (engine : Engine) (used : Set TreeKey)
    (genesis : ExtendedBlock) (app : App NodeState) (stored : StoredApp)
    (chain : List ExtendedBlock) : Prop where
  mirrors : Mirrors engine reader.libs used app.state stored.db.state
  blocks : ChainInv genesis app chain
  indexed : Indexed engine stored.db chain
  payloads : Payloads genesis stored.db chain
  memPool : stored.memPool = app.memPool
  receipts : stored.db.receipts = app.receipts

namespace Paired

variable (h : Paired reader engine used genesis app stored chain)
include h

/-- The two nodes have the same payloads, apart from that of the genesis block. -/
theorem isSome_byPayloadId_iff {id : ℕ} (hid : id ≠ genesis.payloadId) :
    (stored.db.byPayloadId id).isSome ↔ ∃ block ∈ app.blocks, block.payloadId = id := by
  constructor
  · intro hsome
    obtain ⟨block, hblock⟩ := Option.isSome_iff_exists.mp hsome
    obtain ⟨hash, hhash, -⟩ := Option.bind_eq_some_iff.mp hblock
    obtain ⟨other, hother, hsame⟩ := h.payloads.known id hash hhash
    exact ⟨other, (h.blocks.stored other).mpr hother, hsame⟩
  · rintro ⟨block, hblock, rfl⟩
    have hchain := (h.blocks.stored block).mp hblock
    have hne : block ≠ genesis := fun hsame => hid (hsame ▸ rfl)
    rw [Database.byPayloadId, h.payloads.listed block hchain hne, Option.bind_some,
      h.indexed.holds.blocks block hchain]
    rfl

variable (hpick : Picks reader.pick)
include hpick

/-- Both see the chain, each in its own order. -/
theorem mem_visible_iff (block : ExtendedBlock) :
    block ∈ visible reader.pick app.blocks ↔ block ∈ chain := by
  rw [mem_visible hpick, h.blocks.byHeight_eq hpick, ← h.blocks.mem_iff, h.blocks.stored]

theorem hashIn_view : hashIn stored.view.blocks = hashIn (visible reader.pick app.blocks) := by
  funext number
  unfold hashIn
  rw [find_of_chain (fun block => h.indexed.holds.mem_view_iff stored.memPool)
    h.indexed.holds.numbered, find_of_chain (h.mem_visible_iff hpick) h.indexed.holds.numbered]

theorem latestBlock_view :
    latestBlock stored.view.blocks = latestBlock (visible reader.pick app.blocks) := by
  rw [latestBlock_of_chain (fun block => h.indexed.holds.mem_view_iff stored.memPool)
    h.indexed.holds.numbered, latestBlock_of_chain (h.mem_visible_iff hpick)
    h.indexed.holds.numbered]

/-- What is built in memory is built on the database. -/
theorem builds (hlawful : reader.libs.codec.Lawful used) {attributes : Payload} {id : ℕ}
    {drained : List Item} {built : Built NodeState}
    (hallowed : AllowedBuild (Within reader used (visible reader.pick app.blocks))
      (nodeEnv reader.libs (memoryBase reader base))
      { app with blocks := visible reader.pick app.blocks } attributes drained)
    (hbuilt : buildBlock (nodeEnv reader.libs (memoryBase reader base))
      { app with blocks := visible reader.pick app.blocks } attributes id drained = some built) :
    ∃ state stateWrites, Mirrors engine reader.libs used built.state state ∧
      (buildStored engine reader.libs (databaseBase reader engine base) stored attributes id
        drained).result = some (carryBuilt built state) ∧
      Ends engine reader.libs (databaseBase reader engine base) stored attributes id drained
        stateWrites (carryBuilt built state) := by
  have hlatest := h.indexed.holds.latest_eq_latestBlock stored.memPool
  obtain ⟨state, hother, hmirrors⟩ := buildBlock_simulates
    (database_simulates hlawful base (h.hashIn_view hpick)) (h.latestBlock_view hpick) h.receipts
    h.mirrors hallowed hbuilt
  have hresult := result_buildStored hlatest hother
  rcases buildStored_cases hlatest with hstops | ⟨stateWrites, last, hlast, hends⟩
  · rw [hstops.result] at hresult
    cases hresult
  · obtain rfl : last = carryBuilt built state := Option.some.inj (hlast.symm.trans hresult)
    exact ⟨state, stateWrites, hmirrors, hresult, hends⟩

/-- A build is carried through on both sides. -/
theorem startBlockBuild (hlawful : reader.libs.codec.Lawful used) {attributes : Payload} {id : ℕ}
    {drained : List Item} (hid : id ≠ genesis.payloadId)
    (hallowed : AllowedBuild (Within reader used (visible reader.pick app.blocks))
      (nodeEnv reader.libs (memoryBase reader base))
      { app with blocks := visible reader.pick app.blocks } attributes drained)
    (hbuild : buildInMemory (nodeEnv reader.libs (memoryBase reader base)) reader.pick app attributes
      id drained = some next) (hdistinct : Distinct (chain ++ addedBlocks app next)) :
    ∃ later, handleBuild engine reader.libs (databaseBase reader engine base) stored attributes id
        drained = some later ∧
      Paired reader engine used genesis next later (chain ++ addedBlocks app next) := by
  have hblocks := h.blocks.startBlockBuild hpick hbuild
  rcases buildInMemory_cases hpick hbuild with ⟨hknown, rfl⟩ | ⟨hfresh, built, hbuilt, rfl⟩
  · refine ⟨stored, ?_, ?_⟩
    · rw [handleBuild, startBlockBuildStored, if_pos ((h.isSome_byPayloadId_iff hid).mpr hknown)]
      rfl
    · rw [addedBlocks_self, List.append_nil]
      exact h
  · have hnew : ¬ (stored.db.byPayloadId id).isSome := by
      rw [h.isSome_byPayloadId_iff hid]
      rintro ⟨block, hblock, hsame⟩
      exact hfresh block hblock hsame
    rw [addedBlocks_withBlock] at hblocks hdistinct ⊢
    obtain ⟨state, stateWrites, hmirrors, hresult, hends⟩ := h.builds hpick hlawful hallowed hbuilt
    have hnumber : built.block.header.number = chain.length := hends.number h.indexed
    have hroot : built.block.header.stateRoot = state.stateRoot engine := by
      rw [buildBlock_stateRoot _ hbuilt, hmirrors.stateRoot_eq]
      rfl
    let final := Trace.after (Write.apply engine reader.libs.rootHash)
      [.stateRoot (state.stateRoot engine), .receipts built.receipts,
        .transactions built.transactions, .block built.block] (stored.db.withState state)
    have hafter : Trace.after (Write.apply engine reader.libs.rootHash)
        (stateWrites ++ closingWrites engine id (carryBuilt built state)) stored.db =
          { final with payloads := final.payloads.insert id built.block.hash } := by
      rw [Trace.after_append, hends.state, closingWrites_eq, Trace.after_append]
      rfl
    have hpayloadId : built.block.payloadId = id := by
      obtain ⟨-, -, -, -, hsame, -⟩ := buildBlock_block _ hbuilt
      exact hsame
    refine ⟨⟨{ final with payloads := final.payloads.insert id built.block.hash }, []⟩, ?_, ?_⟩
    · rw [handleBuild, startBlockBuildStored_of_new hnew, hresult, hends.writes, hafter]
      rfl
    · refine ⟨hmirrors, hblocks, ?_, ?_, rfl, ?_⟩
      · exact (h.indexed.stored hnumber hdistinct hroot).of_tables rfl rfl rfl rfl
      · refine h.payloads.insert (fun other hother => ?_) (by rw [hpayloadId]; rfl)
        rw [hpayloadId]
        exact hfresh other ((h.blocks.stored other).mpr hother)
      · change stored.db.receipts ++ built.receipts = app.receipts ++ built.receipts
        rw [h.receipts]

end Paired

theorem paired_start (hlawful : reader.libs.codec.Lawful used) (hnumber : genesis.header.number = 0)
    {node : NodeState} (hadmitted : Admitted used genesisChanges.moveVm)
    (happly : emptyNode.apply reader.libs genesisChanges = some node)
    (hroot : node.state.stateRoot = reader.genesisStateRoot) :
    ∃ stored, initializeApp engine reader.libs reader.genesisStateRoot genesisChanges .new =
        some stored ∧
      Paired reader engine used genesis (genesisUpdate ⟨node, [], [], [], []⟩ genesis)
        (genesisUpdateStored stored genesis) [genesis] := by
  obtain ⟨state, hstate, hmirrors⟩ := mirrors_new.apply hlawful hadmitted happly
  refine ⟨⟨Database.new.withState state, []⟩, ?_, ?_⟩
  · rw [initializeApp_new]
    exact ⟨state, hstate, hmirrors.stateRoot_eq.trans hroot, rfl⟩
  · refine ⟨hmirrors, chainInv_start hnumber, indexed_start hnumber state, ⟨?_, ?_⟩, rfl, rfl⟩
    · intro id hash hlookup
      cases hlookup
    · intro block hblock hne
      exact absurd (List.mem_singleton.mp hblock) hne

theorem Paired.addTransaction (h : Paired reader engine used genesis app stored chain)
    {tx : TxEnvelope}
    (hadd : addTransaction (nodeEnv reader.libs (memoryBase reader base)) app tx = some next) :
    ∃ later, addTransactionStored (databaseBase reader engine base) stored tx = some later ∧
      Paired reader engine used genesis next later chain := by
  simp only [BlockBuilding.addTransaction, Option.bind_eq_bind, Option.bind_eq_some_iff,
    Option.some.injEq] at hadd
  obtain ⟨item, hitem, rfl⟩ := hadd
  have hpool : poolItem (databaseBase reader engine base).codec tx = some item := hitem
  refine ⟨{ stored with memPool := insertItem stored.memPool item }, ?_, ?_⟩
  · rw [addTransactionStored, hpool]
    rfl
  · refine ⟨h.mirrors, h.blocks.of_blocks rfl, h.indexed, h.payloads, ?_, h.receipts⟩
    rw [h.memPool]

theorem Paired.genesisUpdate (h : Paired reader engine used genesis app stored chain)
    (hdistinct : Distinct chain) :
    Paired reader engine used genesis (genesisUpdate app genesis) (genesisUpdateStored stored genesis)
      chain := by
  have hagain := h.indexed.holds.addAgain h.blocks.genesis hdistinct
  exact ⟨h.mirrors, h.blocks.again rfl, ⟨hagain, h.indexed.counter, h.indexed.roots⟩,
    ⟨h.payloads.known, h.payloads.listed⟩, h.memPool, h.receipts⟩

/-- What the same commands keep. -/
theorem paired_of_lockstep (hpick : Picks reader.pick) (hlawful : reader.libs.codec.Lawful used)
    (hnumber : genesis.header.number = 0) {stored : Option StoredApp}
    (hrun : Lockstep reader engine base used genesisChanges genesis app stored chain)
    (hdistinct : Distinct chain) :
    ∃ last, stored = some last ∧ Paired reader engine used genesis app last chain := by
  induction hrun with
  | start hadmitted happly hroot =>
    obtain ⟨last, hlast, hpaired⟩ := paired_start hlawful hnumber hadmitted happly hroot
    exact ⟨_, by rw [hlast]; rfl, hpaired⟩
  | startBlockBuild _ _ hid hallowed hbuild ih =>
    obtain ⟨middle, rfl, hmiddle⟩ := ih hdistinct.left
    exact hmiddle.startBlockBuild hpick hlawful hid hallowed hbuild hdistinct
  | addTransaction _ hadd ih =>
    obtain ⟨middle, rfl, hmiddle⟩ := ih hdistinct
    exact hmiddle.addTransaction hadd
  | genesisUpdate _ ih =>
    obtain ⟨middle, rfl, hmiddle⟩ := ih hdistinct
    exact ⟨_, rfl, hmiddle.genesisUpdate hdistinct⟩

/-- The node in memory takes part in a run of its own. -/
theorem nodeInv_of_lockstep (hpick : Picks reader.pick) (hnumber : genesis.header.number = 0)
    {stored : Option StoredApp}
    (hrun : Lockstep reader engine base used genesisChanges genesis app stored chain) :
    NodeInv reader app chain := by
  have hchain : ∃ node : NodeState, Sound reader.libs.rootHash node.state ∧
      reader.genesisStateRoot = node.state.stateRoot ∧
      ChainRuns (nodeEnv reader.libs (memoryBase reader base)) reader.pick node genesis app chain := by
    induction hrun with
    | @start node hadmitted happly hroot =>
      refine ⟨node, ?_, hroot.symm, .start⟩
      exact apply_named (NodeState.apply_spec happly) fun root tree htree => by cases htree
    | startBlockBuild _ hdrained _ _ hbuild ih =>
      obtain ⟨node, hsound, hroot, hbefore⟩ := ih
      exact ⟨node, hsound, hroot, .startBlockBuild hbefore hdrained hbuild⟩
    | addTransaction _ hadd ih =>
      obtain ⟨node, hsound, hroot, hbefore⟩ := ih
      exact ⟨node, hsound, hroot, .addTransaction hbefore hadd⟩
    | genesisUpdate _ ih =>
      obtain ⟨node, hsound, hroot, hbefore⟩ := ih
      exact ⟨node, hsound, hroot, .genesisUpdate hbefore⟩
  obtain ⟨node, hsound, hroot, hbefore⟩ := hchain
  exact nodeInv_of_runs hpick hnumber hsound hroot hbefore

end Invariant

section Answers

variable {S : Type} {reader : ApplicationReader S} {engine : Engine} {used : Set TreeKey}
variable {base : Env NodeState OutcomeChanges} {genesisChanges : OutcomeChanges}
variable {genesis : ExtendedBlock} {app : App NodeState} {stored : StoredApp}
variable {chain : List ExtendedBlock} {height : ℕ} {proofs : ProofLibrary}

theorem rootAt_of_lt (reader : ApplicationReader S) (hlt : height < chain.length) :
    ∃ root, rootAt reader chain height = some root := by
  unfold rootAt
  split_ifs
  · exact ⟨_, rfl⟩
  · rw [List.getElem?_eq_getElem hlt]
    exact ⟨_, rfl⟩

theorem rootAt_of_le (reader : ApplicationReader S) (hpos : 0 < chain.length)
    (hle : chain.length ≤ height) :
    rootAt reader chain height = none := by
  rw [rootAt, if_neg (by omega), List.getElem?_eq_none hle]
  rfl

namespace Paired

variable (h : Paired reader engine used genesis app stored chain)
include h

/-- The table of state roots has the roots of the chain. -/
theorem rootStored_eq (height : ℕ) :
    stored.db.rootByHeight reader.genesisStateRoot height = rootAt reader chain height := by
  unfold Database.rootByHeight rootAt
  split_ifs with hzero
  · rfl
  · exact h.indexed.roots height (by omega)

/-- The root of the first block is a matter of the configuration, all others are recorded. -/
theorem rootAt_eq_iff : rootAt reader chain height =
      chain[height]?.map (fun block => block.header.stateRoot) ↔
    (height = 0 → genesis.header.stateRoot = reader.genesisStateRoot) := by
  unfold rootAt
  split_ifs with hzero
  · rw [hzero, h.blocks.genesis, Option.map_some, Option.some.injEq]
    exact ⟨fun hroot _ => hroot.symm, fun hroot => (hroot rfl).symm⟩
  · exact ⟨fun _ hsame => absurd hsame hzero, fun _ => rfl⟩

variable (hpick : Picks reader.pick)
include hpick

theorem rootByHeight_eq (height : ℕ) :
    reader.rootByHeight app height = rootAt reader chain height := by
  rw [rootAt, ApplicationReader.rootByHeight, h.blocks.byHeight_eq hpick]

/-- Up to the latest block there is one trie for a height. -/
theorem tree_of_lt (hnode : NodeInv reader app chain) (hlt : height < chain.length) :
    ∃ root tree, reader.rootByHeight app height = some root ∧ app.state.state.db root = some tree ∧
      reader.resolver app height = some (some tree) ∧ treeStored stored.db reader height = some tree := by
  obtain ⟨root, hroot⟩ := rootAt_of_lt reader hlt
  obtain ⟨tree, htree⟩ := Option.isSome_iff_exists.mp (hnode.roots height root hroot)
  have hmemory : reader.rootByHeight app height = some root := by rw [h.rootByHeight_eq hpick, hroot]
  refine ⟨root, tree, hmemory, htree, ?_, ?_⟩
  · rw [ApplicationReader.resolver, hmemory]
    exact congrArg (Option.map some) htree
  · rw [treeStored, h.rootStored_eq, hroot]
    exact (congrFun h.mirrors.trie root).trans htree

theorem answersAlike_of_lt (hnode : NodeInv reader app chain) (hlt : height < chain.length)
    (hzero : height = 0 → genesis.header.stateRoot = reader.genesisStateRoot) :
    AnswersAlike reader app proofs stored.db chain height := by
  obtain ⟨root, tree, hroot, htree, hresolver, hstored⟩ := h.tree_of_lt hpick hnode hlt
  have hrecorded := h.rootAt_eq_iff.mpr hzero
  refine ⟨fun account => ?_, fun account => ?_, fun account slots => ?_, ?_, fun _ => ?_,
    fun hle => by omega, by rw [h.rootByHeight_eq hpick, hrecorded],
    by rw [h.rootStored_eq, hrecorded]⟩
  · simp only [balanceAtStored, balanceAt, hresolver, hstored, Option.bind_eq_bind, Option.bind_some]
  · simp only [nonceAtStored, nonceAt, hresolver, hstored, Option.bind_eq_bind, Option.bind_some]
  · simp only [proofAtStored, proofAt, hroot, htree, hstored, h.mirrors.storage, Option.bind_eq_bind,
      Option.bind_some]
  · rw [resolverAtStored, hstored, ApplicationReader.resolverAt, hresolver, Option.join_some]
  · rw [ApplicationReader.resolverAt, hresolver, Option.join_some]
    rfl

/-- Above the latest block the node in memory has nothing, and the other one finds something or
panics. -/
theorem nonce_ne_of_le (hle : chain.length ≤ height) (account : AccountAddress) :
    nonceAt reader app account height = some none ∧
      nonceAtStored stored.db reader account height ≠ some none := by
  have hroot := rootAt_of_le reader h.indexed.pos hle
  constructor
  · rw [nonceAt, ApplicationReader.resolver, h.rootByHeight_eq hpick, hroot]
    rfl
  · rw [nonceAtStored, treeStored, h.rootStored_eq, hroot]
    intro hnone
    simp only [Option.bind_eq_bind, Option.bind_some, Option.map_eq_some_iff] at hnone
    obtain ⟨nonce, -, hnonce⟩ := hnone
    cases hnonce

end Paired

end Answers

section Samples

open MoveTypes NativeEvm ReadPrograms Extraction Interruptions

/-- The keys of the store contract. -/
def storeUsed : Set TreeKey :=
  {.evm storeAddress, .stateKey (.resource evmNativeAddress (codeHashStructTag storeCodeHash))}

theorem storeCodec_lawful : storeLibs.codec.Lawful storeUsed := by
  refine ⟨?_, ?_, ?_, ?_, ?_⟩
  · rintro a b (ha | ha) (hb | hb) - <;> cases ha <;> cases hb
    rfl
  · intro a _
    exact (by decide +kernel : codeKeyBytes.length ≠ 20)
  · rintro x ⟨a, ha | ha, rfl⟩ y ⟨b, hb | hb, rfl⟩ hhash <;> cases ha <;> cases hb
    · rfl
    · revert hhash
      decide +kernel
    · revert hhash
      decide +kernel
    · rfl
  · intro data
    simp only [storeLibs, legacyBytes, legacyData, if_true]
    exact congrArg some (drop_ulebBytes _ _ (by omega) data)
  · intro data h
    cases h

theorem isEvm_storeCode : isEvmStorageOrAccountKey (codeHashStructTag storeCodeHash) = false := by
  decide +kernel

/-- Changes of the contract's account and code. -/
theorem admitted_store {resources : ChangeSet StructTag Bytes}
    (hresources : ∀ tag op, resources.lookup tag = some op →
      (tag = accountInfoStructTag storeAddress ∧ op.value ≠ some []) ∨
        tag = codeHashStructTag storeCodeHash) :
    Admitted storeUsed (AList.singleton evmNativeAddress ⟨∅, resources⟩) := by
  let changes : MoveChangeSet := AList.singleton evmNativeAddress ⟨∅, resources⟩
  have hlookup : ∀ {address account}, changes.lookup address = some account →
      address = evmNativeAddress ∧ account = ⟨∅, resources⟩ := by
    intro address account haccount
    simpa [changes, AList.singleton_entries] using AList.mem_lookup_iff.mp haccount
  have hkeys : AccountKeys changes := by
    intro address account tag op haccount hop hevm
    obtain ⟨rfl, rfl⟩ := hlookup haccount
    rcases hresources tag op hop with ⟨rfl, -⟩ | rfl
    · exact ⟨rfl, storeAddress, rfl⟩
    · rw [isEvm_storeCode] at hevm
      cases hevm
  refine ⟨hkeys, ?_, ?_⟩
  · intro address account tag op haccount hop hevm
    obtain ⟨rfl, rfl⟩ := hlookup haccount
    rcases hresources tag op hop with ⟨-, hvalue⟩ | rfl
    · exact hvalue
    · rw [isEvm_storeCode] at hevm
      cases hevm
  · intro key hkey
    obtain ⟨value, hvalue⟩ := Option.isSome_iff_exists.mp (AList.lookup_isSome.mpr hkey)
    obtain ⟨hformed, op, hop, -⟩ := (lookup_toTreeValues hkeys).mp hvalue
    rcases exists_change hformed hop with ⟨address, account, name, haccount, hchange, -⟩ |
      ⟨address, account, tag, haccount, hchange, rfl⟩
    · obtain ⟨rfl, rfl⟩ := hlookup haccount
      rw [AList.lookup_empty] at hchange
      cases hchange
    · obtain ⟨rfl, rfl⟩ := hlookup haccount
      rcases hresources tag op hchange with ⟨rfl, -⟩ | rfl
      · rw [resourceKey, evmKeyAddress_accountInfoStructTag]
        exact Or.inl rfl
      · rw [resourceKey, evmKeyAddress_codeHashStructTag]
        exact Or.inr rfl

theorem admitted_storeGenesis : Admitted storeUsed storeGenesis := by
  refine admitted_store fun tag op hop => ?_
  by_cases htag : tag = codeHashStructTag storeCodeHash
  · exact Or.inr htag
  · rw [AList.lookup_insert_ne htag] at hop
    obtain ⟨rfl, rfl⟩ := eq_of_lookup_singleton hop
    refine Or.inl ⟨rfl, ?_⟩
    simp [Op.value, storeBytes]

theorem storeNode_apply : emptyNode.apply storeLibs ⟨storeGenesis, ∅⟩ = some storeNode := by
  have hstate : emptyNode.state.apply storeLibs.codec storeLibs.rootHash
      (storeLibs.order storeGenesis) storeGenesis = some storeState := storeState_apply
  rw [NodeState.apply, hstate]
  rfl

/-- The nonce at height one, right after the genesis, is unknown in memory and zero on a database. -/
def NonceDiffers (engine : Engine) : Prop :=
  ∃ app stored, Lockstep storeReader engine storeBase storeUsed ⟨storeGenesis, ∅⟩ storedGenesis
      app (some stored) [storedGenesis] ∧
    nonceAt storeReader app 0 1 = some none ∧
    nonceAtStored stored.db storeReader 0 1 = some (some 0) ∧
    ∀ proofs, ¬ AnswersAlike storeReader app proofs stored.db [storedGenesis] 1

theorem nonceDiffers (engine : Engine) : NonceDiffers engine := by
  have hnumber : storedGenesis.header.number = 0 := rfl
  have hroot : storeNode.state.stateRoot = storeReader.genesisStateRoot := by
    rw [storeNode, storeReader]
  obtain ⟨stored, hstored, hpaired⟩ :=
    @paired_start _ storeReader engine storeUsed ⟨storeGenesis, ∅⟩ storedGenesis storeCodec_lawful
      hnumber storeNode admitted_storeGenesis storeNode_apply hroot
  have hrun : Lockstep storeReader engine storeBase storeUsed ⟨storeGenesis, ∅⟩ storedGenesis
      (genesisUpdate ⟨storeNode, [], [], [], []⟩ storedGenesis)
      (some (genesisUpdateStored stored storedGenesis)) [storedGenesis] := by
    have hstart : Lockstep storeReader engine storeBase storeUsed ⟨storeGenesis, ∅⟩ storedGenesis _ _ _ :=
      .start admitted_storeGenesis storeNode_apply hroot
    rw [hstored] at hstart
    exact hstart
  have hpick : Picks storeReader.pick := picks_head
  obtain ⟨hmemory, hother⟩ := hpaired.nonce_ne_of_le hpick (Nat.le_refl 1) 0
  refine ⟨_, _, hrun, hmemory, ?_, fun proofs halike => hother ((halike.nonce 0).trans hmemory)⟩
  rw [nonceAtStored, treeStored, hpaired.rootStored_eq, rootAt_of_le storeReader (by simp) (by simp)]
  rfl

/-- The store contract's node, where a transaction reads the contract before it sets a slot. -/
def setReader : ApplicationReader Unit :=
  { storeReader with
    vm := { storeReader.vm with
      executeTransaction := fun input =>
        (readStore storeAddress).bind fun result =>
          .done (result.map fun _ => ⟨true, setSlotChanges (match input.tx with
            | .canonical tx => BitVec.ofNat 256 (beNat (tx.data.drop 2))
            | .depositedTx _ => 0), 43000, 0, [], none⟩) } }

theorem resourceAt_store :
    (storageResolver storeState.resolver).resourceAt storeLibs (.account storeAddress) =
      some (some (.account ⟨1, 0, storeCodeHash, emptyRoot⟩)) := by
  decide +kernel

theorem admitted_setSlot (slot : U256) : Admitted storeUsed (setSlotChanges slot).moveVm := by
  refine admitted_store fun tag op hop => ?_
  obtain ⟨rfl, rfl⟩ := eq_of_lookup_singleton hop
  refine Or.inl ⟨rfl, ?_⟩
  simp [Op.value, storeBytes]

/-- The contract is asked for its account, for the code that the account names and for a slot. -/
theorem mem_reads_readStore {R : Type} {answers : Answers QuestionAnswer Unit} {info : AccountInfo}
    (hbasic : answers (.db (.basic storeAddress)) =
      (.ok (.ok (some info)) : Except Unit (Except DbError (Option AccountInfo))))
    {f : Except Errors.Error Bytes → R} {question : Question}
    (h : question ∈ ((readStore storeAddress).bind fun result => .done (f result)).reads answers) :
    question = .db (.basic storeAddress) ∨ question = .db (.codeByHash info.codeHash) ∨
      question = .db (.storage storeAddress 0) := by
  unfold readStore runCode readSlot at h
  simp only [Program.bind, Program.reads] at h
  rw [hbasic] at h
  rcases List.mem_cons.mp h with rfl | h
  · exact Or.inl rfl
  · right
    dsimp only at h
    simp only [Program.bind, Program.reads] at h
    rcases List.mem_cons.mp h with rfl | h
    · exact Or.inl rfl
    · right
      split at h
      · split at h
        · split_ifs at h
          · simp only [Program.bind, Program.reads] at h
            rcases List.mem_cons.mp h with rfl | h
            · rfl
            · split at h
              · split at h <;> cases h
              · cases h
          · cases h
        · cases h
      · cases h

/-- What a transaction asks in the genesis state, and what it leaves. -/
theorem within_store (blocks : List ExtendedBlock) (input : ExecutionInput) :
    Within setReader storeUsed blocks storeNode input := by
  have hbasic : (storageResolver storeState.resolver).answers storeLibs storeNode.evmStorage
        (hashIn blocks) input.blockHeader.number (.db (.basic storeAddress)) =
      (.ok (.ok (some ⟨0, 1, storeCodeHash, none⟩)) :
        Except Unit (Except DbError (Option AccountInfo))) := by
    simp only [Resolver.answers, Resolver.decodes, ResolverBackedDB.answers,
      ResolverBackedDB.basicRef, resourceAt_store]
    rfl
  refine ⟨fun question hquestion => ?_, fun outcome houtcome => ?_⟩
  · rcases mem_reads_readStore hbasic hquestion with rfl | rfl | rfl
    · exact Or.inl rfl
    · rw [Known, resourceKey, evmKeyAddress_codeHashStructTag]
      exact Or.inr rfl
    · trivial
  · unfold executeOver at houtcome
    simp only [setReader] at houtcome
    rw [run_bind] at houtcome
    generalize (readStore storeAddress).run _ = ran at houtcome
    cases ran with
    | error e => cases houtcome
    | ok result =>
      cases result with
      | error e => cases houtcome
      | ok bytes =>
        rw [← Except.ok.inj houtcome]
        exact admitted_setSlot _

end Samples

end OpMove.BackendAgreement
