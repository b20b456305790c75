import OpMove.DatabaseBuilds

/-!
Block builds that are interrupted. A process may end between any two writes of a build and start
again on what it left. The state root and the counter of state roots are written before the block
they belong to, so that an interruption in between leaves a state root that is not that of the
latest block, or shifts all later entries of the index by one. An interruption before the first of
these writes, or after the block is stored, does no harm, however many blocks follow.
-/

namespace OpMove.Interruptions

open Primitives Transactions ChangeSets StateChanges StorageTries StateTrie BlockBuilding
open BlockAgreement BlockStore Queries PastAnswers Traces Databases DatabaseBuilds

section Runs

/-- The blocks among some writes. -/
def blocksOf (writes : List Write) : List ExtendedBlock :=
  writes.filterMap fun write =>
    match write with
    | .block block => some block
    | _ => none

variable (engine : Engine) (libs : Libraries) (base : Env StoredState OutcomeChanges)
variable (initialStateRoot : B256) (genesisChanges : OutcomeChanges) (genesis : ExtendedBlock)

/-- The runs of a node with a condition on what an interrupted build has written, beside the
blocks it has stored. A node starts with its genesis state and its genesis block, and it starts
again after an interruption. -/
inductive Runs (allowed : Database → List Write → Prop) : StoredApp → List ExtendedBlock → Prop
  | start {app : StoredApp} :
      initializeApp engine libs initialStateRoot genesisChanges .new = some app →
      Runs allowed (genesisUpdateStored app genesis) [genesis]
  | build {app next : StoredApp} {chain : List ExtendedBlock} {attributes : Payload} {id : ℕ}
      {drained : List Item} : Runs allowed app chain → drained.Perm app.memPool →
      handleBuild engine libs base app attributes id drained = some next →
      Runs allowed next
        (chain ++ blocksOf (startBlockBuildStored engine libs base app attributes id drained).writes)
  | interrupted {app next : StoredApp} {chain : List ExtendedBlock} {attributes : Payload} {id : ℕ}
      {drained : List Item} {done : List Write} : Runs allowed app chain →
      drained.Perm app.memPool →
      done <+: (startBlockBuildStored engine libs base app attributes id drained).writes →
      allowed app.db done →
      initializeApp engine libs initialStateRoot genesisChanges
        (Trace.after (Write.apply engine libs.rootHash) done app.db) = some next →
      Runs allowed next (chain ++ blocksOf done)
  | restart {app next : StoredApp} {chain : List ExtendedBlock} : Runs allowed app chain →
      initializeApp engine libs initialStateRoot genesisChanges app.db = some next →
      Runs allowed next chain
  | addTransaction {app next : StoredApp} {chain : List ExtendedBlock} {tx : TxEnvelope} :
      Runs allowed app chain → addTransactionStored base app tx = some next →
      Runs allowed next chain
  | genesisUpdate {app : StoredApp} {chain : List ExtendedBlock} : Runs allowed app chain →
      Runs allowed (genesisUpdateStored app genesis) chain

/-- No root but the present one has been written and none has been recorded, or the block is
stored. -/
def Harmless (db : Database) (done : List Write) : Prop :=
  ((∀ root, .state (.trieRoot root) ∈ done → db.state.root engine = some root) ∧
    ∀ root, .stateRoot root ∉ done) ∨ blocksOf done ≠ []

/-- The state root is that of the latest block, and every height has the root of its block. -/
def Consistent (db : Database) : Prop :=
  ∃ latest, db.latest = some latest ∧ db.state.stateRoot engine = latest.header.stateRoot ∧
    ∀ height ≤ latest.header.number, ∃ block, db.blockAt height = some block ∧
      db.rootByHeight initialStateRoot height = some block.header.stateRoot

end Runs

section Invariant

variable {engine : Engine} {initialStateRoot : B256} {genesis : ExtendedBlock} {db next : Database}
variable {chain : List ExtendedBlock}

/-- A chain in the database, with its state roots; the state is that of its last block. -/
structure Kept (engine : Engine) (initialStateRoot : B256) (genesis : ExtendedBlock) (db : Database)
    (chain : List ExtendedBlock) : Prop where
  indexed : Indexed engine db chain
  initial : genesis.header.stateRoot = initialStateRoot
  first : chain[0]? = some genesis
  root : ∀ block, chain.getLast? = some block → db.state.stateRoot engine = block.header.stateRoot

theorem Kept.rootByHeight_eq (h : Kept engine initialStateRoot genesis db chain) {i : ℕ}
    {block : ExtendedBlock} (hblock : chain[i]? = some block) :
    db.rootByHeight initialStateRoot i = some block.header.stateRoot := by
  unfold Database.rootByHeight
  split_ifs with hzero
  · rw [hzero, h.first, Option.some.injEq] at hblock
    rw [← hblock, h.initial]
  · rw [h.indexed.roots i (by omega), hblock, Option.map_some]

theorem Kept.consistent (h : Kept engine initialStateRoot genesis db chain) :
    Consistent engine initialStateRoot db := by
  have hpos := h.indexed.pos
  have hlast : chain.getLast? = some chain[chain.length - 1] := by
    rw [List.getLast?_eq_getElem?]
    exact List.getElem?_eq_getElem (by omega)
  refine ⟨chain[chain.length - 1], by rw [h.indexed.holds.latest_eq, hlast], h.root _ hlast, ?_⟩
  intro height hle
  rw [List.getLast?_eq_getElem?] at hlast
  rw [h.indexed.holds.numbered _ _ hlast] at hle
  have hget : chain[height]? = some chain[height] := List.getElem?_eq_getElem (by omega)
  exact ⟨chain[height], by rw [h.indexed.holds.blockAt_eq, hget], h.rootByHeight_eq hget⟩

/-- Only four tables and the state root matter. -/
theorem Kept.of_tables (h : Kept engine initialStateRoot genesis db chain)
    (hheights : next.heights = db.heights) (hblocks : next.blocks = db.blocks)
    (hroots : next.stateRoots = db.stateRoots) (hheight : next.stateHeight = db.stateHeight)
    (hroot : next.state.root engine = db.state.root engine) :
    Kept engine initialStateRoot genesis next chain := by
  refine ⟨h.indexed.of_tables hheights hblocks hroots hheight, h.initial, h.first, ?_⟩
  rw [StoredState.stateRoot, hroot]
  exact h.root

/-- A write that does no harm on its own. -/
theorem Kept.write (h : Kept engine initialStateRoot genesis db chain) {rootHash : Tree → B256}
    {write : Write} (hblock : ∀ block, write ≠ .block block) (hrecord : ∀ root, write ≠ .stateRoot root)
    (hroot : ∀ root, write = .state (.trieRoot root) → db.state.root engine = some root) :
    Kept engine initialStateRoot genesis (write.apply engine rootHash db) chain ∧
      (write.apply engine rootHash db).state.root engine = db.state.root engine := by
  have hsame : (write.apply engine rootHash db).state.root engine = db.state.root engine := by
    cases write with
    | state inner =>
      cases inner with
      | trieRoot root =>
        rw [hroot root rfl]
        exact AList.lookup_insert _
      | trieNodes tree => rfl
      | storageNodes account nodes => rfl
      | storageRoot account root => rfl
    | stateRoot root => rfl
    | receipts added => rfl
    | transactions added => rfl
    | block added => rfl
    | payload id hash => rfl
  refine ⟨?_, hsame⟩
  cases write with
  | stateRoot root => exact absurd rfl (hrecord root)
  | block added => exact absurd rfl (hblock added)
  | state inner => exact h.of_tables rfl rfl rfl rfl hsame
  | receipts added => exact h.of_tables rfl rfl rfl rfl hsame
  | transactions added => exact h.of_tables rfl rfl rfl rfl hsame
  | payload id hash => exact h.of_tables rfl rfl rfl rfl hsame

/-- Before a root or a block is written, everything is as it was. -/
theorem Kept.early (h : Kept engine initialStateRoot genesis db chain) {rootHash : Tree → B256}
    {done : List Write}
    (hroot : ∀ root, .state (.trieRoot root) ∈ done → db.state.root engine = some root)
    (hrecord : ∀ root, .stateRoot root ∉ done) (hblock : ∀ block, .block block ∉ done) :
    Kept engine initialStateRoot genesis
      (Trace.after (Write.apply engine rootHash) done db) chain := by
  have hboth : Kept engine initialStateRoot genesis
        (Trace.after (Write.apply engine rootHash) done db) chain ∧
      (Trace.after (Write.apply engine rootHash) done db).state.root engine =
        db.state.root engine := by
    refine Trace.after_keeps (P := fun later => Kept engine initialStateRoot genesis later chain ∧
      later.state.root engine = db.state.root engine) ?_ ⟨h, rfl⟩
    rintro write hwrite later ⟨hlater, hsame⟩
    obtain ⟨hnext, hroot'⟩ := hlater.write (fun block heq => hblock block (heq ▸ hwrite))
      (fun root heq => hrecord root (heq ▸ hwrite))
      (fun root heq => by rw [hsame]; exact hroot root (heq ▸ hwrite))
    exact ⟨hnext, hroot'.trans hsame⟩
  exact hboth.1

/-- The state and its root are written and recorded, then the block is stored. -/
theorem Kept.stored (h : Kept engine initialStateRoot genesis db chain) {state : StoredState}
    {receipts : List ExtendedReceipt} {transactions : List ExtendedTransaction}
    {block : ExtendedBlock} (hnumber : block.header.number = chain.length)
    (hdistinct : Distinct (chain ++ [block]))
    (hroot : block.header.stateRoot = state.stateRoot engine) {rootHash : Tree → B256} :
    Kept engine initialStateRoot genesis
      (Trace.after (Write.apply engine rootHash) [.stateRoot (state.stateRoot engine),
        .receipts receipts, .transactions transactions, .block block] (db.withState state))
      (chain ++ [block]) := by
  refine ⟨h.indexed.stored hnumber hdistinct hroot, h.initial, ?_, fun last hlast => ?_⟩
  · rw [List.getElem?_append_left h.indexed.pos]
    exact h.first
  · rw [List.getLast?_concat, Option.some.injEq] at hlast
    rw [← hlast, hroot]
    rfl

end Invariant

section Steps

variable {engine : Engine} {libs : Libraries} {base : Env StoredState OutcomeChanges}
variable {initialStateRoot : B256} {genesisChanges : OutcomeChanges} {genesis : ExtendedBlock}
variable {app next : StoredApp} {chain : List ExtendedBlock} {attributes : Payload} {id : ℕ}
variable {drained : List Item} {done : List Write}

theorem mem_blocksOf {block : ExtendedBlock} {writes : List Write} :
    block ∈ blocksOf writes ↔ .block block ∈ writes := by
  unfold blocksOf
  rw [List.mem_filterMap]
  constructor
  · rintro ⟨write, hwrite, hsome⟩
    cases write with
    | block other =>
      obtain rfl := Option.some.inj hsome
      exact hwrite
    | _ => cases hsome
  · exact fun hwrite => ⟨_, hwrite, rfl⟩

theorem blocksOf_eq_nil {writes : List Write} (h : ∀ block, .block block ∉ writes) :
    blocksOf writes = [] :=
  List.eq_nil_iff_forall_not_mem.mpr fun block hblock => h block (mem_blocksOf.mp hblock)

theorem OnState.not_block {writes : List Write} (h : OnState writes) (block : ExtendedBlock) :
    .block block ∉ writes := by
  intro hblock
  obtain ⟨inner, hinner⟩ := h _ hblock
  cases hinner

/-- A build that has stored its block, with or without its payload id. -/
theorem Kept.of_ends (h : Kept engine initialStateRoot genesis app.db chain)
    {stateWrites part : List Write} {built : Built StoredState}
    (hends : Ends engine libs base app attributes id drained stateWrites built)
    (hpart : part <+: [.payload id built.block.hash])
    (hdistinct : Distinct (chain ++ [built.block])) :
    Kept engine initialStateRoot genesis (Trace.after (Write.apply engine libs.rootHash)
      (stateWrites ++ ([.stateRoot (built.state.stateRoot engine), .receipts built.receipts,
        .transactions built.transactions, .block built.block] ++ part)) app.db)
      (chain ++ [built.block]) := by
  have hroot : built.block.header.stateRoot = built.state.stateRoot engine :=
    buildBlock_stateRoot (storedEnv engine libs base) hends.builds
  rw [Trace.after_append, Trace.after_append, hends.state]
  refine (h.stored (hends.number h.indexed) hdistinct hroot).early ?_ ?_ ?_
  · intro root hwrite
    have := hpart.subset hwrite
    simp at this
  · intro root hwrite
    have := hpart.subset hwrite
    simp at this
  · intro block hwrite
    have := hpart.subset hwrite
    simp at this

theorem blocksOf_ends (engine : Engine) {stateWrites part : List Write} {built : Built StoredState}
    (honState : OnState stateWrites) (hpart : part <+: [.payload id built.block.hash]) :
    blocksOf (stateWrites ++ ([.stateRoot (built.state.stateRoot engine), .receipts built.receipts,
      .transactions built.transactions, .block built.block] ++ part)) = [built.block] := by
  have hstate : blocksOf stateWrites = [] := blocksOf_eq_nil (OnState.not_block honState)
  have hrest : blocksOf part = [] := by
    refine blocksOf_eq_nil fun block hwrite => ?_
    have := hpart.subset hwrite
    simp at this
  unfold blocksOf at hstate hrest ⊢
  rw [List.filterMap_append, List.filterMap_append, hstate, hrest]
  rfl

/-- A build that comes to its end appends its block, if any. -/
theorem Kept.build (h : Kept engine initialStateRoot genesis app.db chain)
    (hbuild : handleBuild engine libs base app attributes id drained = some next)
    (hdistinct : Distinct (chain ++
      blocksOf (startBlockBuildStored engine libs base app attributes id drained).writes)) :
    Kept engine initialStateRoot genesis next.db
      (chain ++ blocksOf (startBlockBuildStored engine libs base app attributes id drained).writes) := by
  obtain ⟨built?, hresult, rfl⟩ := Option.map_eq_some_iff.mp hbuild
  dsimp only
  by_cases hknown : (app.db.byPayloadId id).isSome
  · have hwrites : (startBlockBuildStored engine libs base app attributes id drained).writes = [] := by
      rw [startBlockBuildStored, if_pos hknown]
      rfl
    rw [hwrites]
    simpa [blocksOf] using h
  · rw [startBlockBuildStored_of_new hknown] at hdistinct ⊢
    dsimp only at hdistinct ⊢
    rcases buildStored_cases (h.indexed.holds.latest_eq_latestBlock app.memPool) with
      hstops | ⟨stateWrites, built, -, hends⟩
    · rw [startBlockBuildStored, if_neg hknown, Trace.bind_of_none hstops.result] at hresult
      cases hresult
    · rw [hends.writes, closingWrites_eq, blocksOf_ends engine hends.onState (List.prefix_refl _)]
        at hdistinct ⊢
      exact h.of_ends hends (List.prefix_refl _) hdistinct

/-- An interruption that does no harm. -/
theorem Kept.interrupt (h : Kept engine initialStateRoot genesis app.db chain)
    (hdone : done <+: (startBlockBuildStored engine libs base app attributes id drained).writes)
    (hharmless : Harmless engine app.db done) (hdistinct : Distinct (chain ++ blocksOf done)) :
    Kept engine initialStateRoot genesis
      (Trace.after (Write.apply engine libs.rootHash) done app.db) (chain ++ blocksOf done) := by
  by_cases hblock : blocksOf done = []
  · rcases hharmless with ⟨hroot, hrecord⟩ | hstored
    · rw [hblock, List.append_nil]
      refine h.early hroot hrecord fun block hwrite => ?_
      have hmem := mem_blocksOf.mpr hwrite
      rw [hblock] at hmem
      cases hmem
    · exact absurd hblock hstored
  · obtain ⟨block, hmem⟩ := List.exists_mem_of_ne_nil _ hblock
    have hwrite := mem_blocksOf.mp hmem
    have hnew : ¬ (app.db.byPayloadId id).isSome := by
      intro hknown
      rw [startBlockBuildStored, if_pos hknown] at hdone
      rw [List.prefix_nil.mp hdone] at hwrite
      cases hwrite
    rw [startBlockBuildStored_of_new hnew] at hdone
    dsimp only at hdone
    rcases buildStored_cases (h.indexed.holds.latest_eq_latestBlock app.memPool) with
      hstops | ⟨stateWrites, built, -, hends⟩
    · exact absurd (hdone.subset hwrite) (hstops.writes block)
    · -- the block is the fourth of the closing writes, so that only the payload id may be missing
      have hbefore : ∀ other, .block other ∉ stateWrites ++
          [.stateRoot (built.state.stateRoot engine), .receipts built.receipts,
            .transactions built.transactions] := by
        intro other hother
        rcases List.mem_append.mp hother with hfirst | hlast
        · exact OnState.not_block hends.onState other hfirst
        · simp at hlast
      have hsplit : (buildStored engine libs base app attributes id drained).writes =
          (stateWrites ++ [.stateRoot (built.state.stateRoot engine), .receipts built.receipts,
            .transactions built.transactions]) ++
              .block built.block :: [.payload id built.block.hash] := by
        rw [hends.writes, List.append_assoc]
        rfl
      rw [hsplit] at hdone
      have hsame : block = built.block := by
        rcases List.mem_append.mp (hdone.subset hwrite) with hfirst | hlast
        · exact absurd hfirst (hbefore block)
        · simpa using hlast
      subst hsame
      obtain ⟨part, hpart, rfl⟩ := Trace.prefix_through hdone hwrite (hbefore _)
      rw [List.append_assoc] at hdistinct ⊢
      have hblocks := blocksOf_ends engine hends.onState hpart
      simp only [List.cons_append, List.nil_append] at hblocks hdistinct ⊢
      rw [hblocks] at hdistinct ⊢
      exact h.of_ends hends hpart hdistinct

/-- A database with a chain is taken as it is. -/
theorem Kept.initializeApp_eq {db : Database}
    (h : Kept engine initialStateRoot genesis db chain) :
    initializeApp engine libs initialStateRoot genesisChanges db = some ⟨db, []⟩ := by
  have hlatest : db.latest.isSome := by
    obtain ⟨latest, hlatest, -⟩ := h.consistent
    rw [hlatest]
    rfl
  rw [initializeApp, if_pos hlatest]

/-- The genesis state and the genesis block. -/
theorem kept_start (hnumber : genesis.header.number = 0)
    (hroot : genesis.header.stateRoot = initialStateRoot)
    (hstart : initializeApp engine libs initialStateRoot genesisChanges .new = some app) :
    Kept engine initialStateRoot genesis (genesisUpdateStored app genesis).db [genesis] := by
  obtain ⟨state, -, hinitial, rfl⟩ := initializeApp_new.mp hstart
  refine ⟨indexed_start hnumber state, hroot, rfl, fun block hblock => ?_⟩
  obtain rfl : genesis = block := by simpa using hblock
  exact hinitial.trans hroot.symm

theorem addTransactionStored_db {tx : TxEnvelope}
    (h : addTransactionStored base app tx = some next) : next.db = app.db := by
  simp only [addTransactionStored, Option.bind_eq_bind, Option.bind_eq_some_iff,
    Option.some.injEq] at h
  obtain ⟨item, -, rfl⟩ := h
  rfl

/-- What runs with harmless interruptions keep. -/
theorem kept_of_runs (hnumber : genesis.header.number = 0)
    (hroot : genesis.header.stateRoot = initialStateRoot)
    (hrun : Runs engine libs base initialStateRoot genesisChanges genesis (Harmless engine) app chain)
    (hdistinct : Distinct chain) : Kept engine initialStateRoot genesis app.db chain := by
  induction hrun with
  | start hstart => exact kept_start hnumber hroot hstart
  | build _ _ hbuild ih => exact (ih hdistinct.left).build hbuild hdistinct
  | @interrupted before next chain attributes id drained done _ _ hdone hharmless hnext ih =>
    have hkept := (ih hdistinct.left).interrupt hdone hharmless hdistinct
    rw [hkept.initializeApp_eq, Option.some.injEq] at hnext
    rw [← hnext]
    exact hkept
  | restart _ hnext ih =>
    have hkept := ih hdistinct
    rw [hkept.initializeApp_eq, Option.some.injEq] at hnext
    rw [← hnext]
    exact hkept
  | addTransaction _ hadd ih =>
    rw [addTransactionStored_db hadd]
    exact ih hdistinct
  | genesisUpdate _ ih =>
    have hkept := ih hdistinct
    have hagain := hkept.indexed.holds.addAgain hkept.first hdistinct
    exact ⟨⟨hagain, hkept.indexed.counter, hkept.indexed.roots⟩, hkept.initial, hkept.first,
      hkept.root⟩

/-- After every run in which interrupted builds stop before a new root is written, or once the
block is stored, the node resumes with the state of its latest block, and every height has the
state root of its block. -/
theorem interrupted_builds_consistent (hnumber : genesis.header.number = 0)
    (hroot : genesis.header.stateRoot = initialStateRoot)
    (hrun : Runs engine libs base initialStateRoot genesisChanges genesis (Harmless engine) app chain)
    (hdistinct : Distinct chain) :
    initializeApp engine libs initialStateRoot genesisChanges app.db = some ⟨app.db, []⟩ ∧
      Consistent engine initialStateRoot app.db := by
  have hkept := kept_of_runs hnumber hroot hrun hdistinct
  exact ⟨hkept.initializeApp_eq, hkept.consistent⟩

end Steps

section Samples

/-- The node of the store contract on a database. -/
def storedBase : Env StoredState OutcomeChanges where
  codec := storeBase.codec
  executeTransaction _ blocks input := storeBase.executeTransaction storeNode blocks input
  applyChanges _ _ := none
  stateRoot _ := 0
  gasFee := storeBase.gasFee
  blockHash := storeBase.blockHash
  orderedTrieRoot := storeBase.orderedTrieRoot
  encodeReceipt := storeBase.encodeReceipt
  logBloom := storeBase.logBloom

def storedRoot : B256 := storeState.stateRoot

def storedGenesis : ExtendedBlock :=
  { sampleGenesis with header := { sampleGenesis.header with stateRoot := storedRoot } }

/-- The runs of this node. -/
abbrev StoredRuns (allowed : Database → List Write → Prop) :
    StoredApp → List ExtendedBlock → Prop :=
  Runs .rocksdb storeLibs storedBase storedRoot ⟨storeGenesis, ∅⟩ storedGenesis allowed

/-- The node as it starts on a database. -/
def startedOn (db : Database) : StoredApp :=
  (initializeApp .rocksdb storeLibs storedRoot ⟨storeGenesis, ∅⟩ db).getD ⟨db, []⟩

/-- The node right after its genesis. -/
def storedApp : StoredApp := genesisUpdateStored (startedOn .new) storedGenesis

/-- What a build of a block that sets slot zero writes. -/
def setWrites : List Write :=
  (startBlockBuildStored .rocksdb storeLibs storedBase storedApp (samplePayload [setSlotBytes 0]) 1
    []).writes

/-- The node after an interruption of that build. -/
def stoppedApp (count : ℕ) : StoredApp :=
  startedOn (Trace.after (Write.apply .rocksdb storeLibs.rootHash) (setWrites.take count) storedApp.db)

theorem startedOn_memPool (db : Database) : (startedOn db).memPool = [] := by
  unfold startedOn
  cases happ : initializeApp .rocksdb storeLibs storedRoot ⟨storeGenesis, ∅⟩ db with
  | none => rfl
  | some app =>
    unfold initializeApp at happ
    split_ifs at happ
    · rw [← Option.some.inj happ]
      rfl
    · obtain ⟨state, -, hstate⟩ := Option.bind_eq_some_iff.mp happ
      split_ifs at hstate
      rw [← Option.some.inj hstate]
      rfl

theorem storedRuns_start (allowed : Database → List Write → Prop) :
    StoredRuns allowed storedApp [storedGenesis] := by
  have hsome : (initializeApp .rocksdb storeLibs storedRoot ⟨storeGenesis, ∅⟩ .new).isSome := by
    decide +kernel
  obtain ⟨app, happ⟩ := Option.isSome_iff_exists.mp hsome
  rw [storedApp, startedOn, happ, Option.getD_some]
  exact .start happ

theorem storedRuns_stopped {allowed : Database → List Write → Prop} {count : ℕ}
    (hallowed : allowed storedApp.db (setWrites.take count))
    (hsome : (initializeApp .rocksdb storeLibs storedRoot ⟨storeGenesis, ∅⟩
      (Trace.after (Write.apply .rocksdb storeLibs.rootHash) (setWrites.take count)
        storedApp.db)).isSome) :
    StoredRuns allowed (stoppedApp count) ([storedGenesis] ++ blocksOf (setWrites.take count)) := by
  obtain ⟨app, happ⟩ := Option.isSome_iff_exists.mp hsome
  rw [stoppedApp, startedOn, happ, Option.getD_some]
  have hpool : storedApp.memPool = [] := by
    simp only [storedApp, genesisUpdateStored, startedOn_memPool]
  exact .interrupted (storedRuns_start allowed) (.of_eq hpool.symm) (List.take_prefix count _) hallowed happ

/-- The process ends once the state root of a transaction is written: the node resumes with a
state root that is not that of its latest block, the genesis block. -/
theorem stop_before_block : ∃ app chain, StoredRuns (fun _ _ => True) app chain ∧
    Distinct chain ∧ ¬ Consistent .rocksdb storedRoot app.db := by
  have hfacts : (initializeApp .rocksdb storeLibs storedRoot ⟨storeGenesis, ∅⟩
        (Trace.after (Write.apply .rocksdb storeLibs.rootHash) (setWrites.take 2)
          storedApp.db)).isSome ∧ blocksOf (setWrites.take 2) = [] ∧
      (stoppedApp 2).db.latest = some storedGenesis ∧
      (stoppedApp 2).db.state.stateRoot .rocksdb ≠ storedGenesis.header.stateRoot := by
    decide +kernel
  obtain ⟨hsome, hblocks, hlatest, hroot⟩ := hfacts
  refine ⟨stoppedApp 2, _, storedRuns_stopped trivial hsome, ?_, ?_⟩
  · rw [hblocks]
    intro a ha b hb hne
    obtain rfl := List.mem_singleton.mp ha
    obtain rfl := List.mem_singleton.mp hb
    exact absurd rfl hne
  · rintro ⟨latest, hsame, hconsistent, -⟩
    rw [hlatest, Option.some.injEq] at hsame
    rw [← hsame] at hconsistent
    exact hroot hconsistent

/-- The process ends before the root is written, and the block is built when it is started again. -/
theorem interrupted_builds_consistent_sample : ∃ app chain,
    StoredRuns (Harmless .rocksdb) app chain ∧ chain.length = 2 ∧
      initializeApp .rocksdb storeLibs storedRoot ⟨storeGenesis, ∅⟩ app.db = some ⟨app.db, []⟩ ∧
      Consistent .rocksdb storedRoot app.db := by
  have hfacts : (initializeApp .rocksdb storeLibs storedRoot ⟨storeGenesis, ∅⟩
        (Trace.after (Write.apply .rocksdb storeLibs.rootHash) (setWrites.take 1)
          storedApp.db)).isSome ∧
      ((setWrites.take 1).all fun write => match write with
        | .state (.trieNodes _) => true
        | _ => false) = true ∧
      (handleBuild .rocksdb storeLibs storedBase (stoppedApp 1) (samplePayload [setSlotBytes 0]) 1
        []).isSome := by decide +kernel
  obtain ⟨hsome, hnodes, hbuild⟩ := hfacts
  rw [List.all_eq_true] at hnodes
  have hharmless : Harmless .rocksdb storedApp.db (setWrites.take 1) :=
    Or.inl ⟨fun root hroot => absurd (hnodes _ hroot) (by simp),
      fun root hroot => absurd (hnodes _ hroot) (by simp)⟩
  have hstopped := storedRuns_stopped hharmless hsome
  obtain ⟨next, hnext⟩ := Option.isSome_iff_exists.mp hbuild
  let chain := ([storedGenesis] ++ blocksOf (setWrites.take 1)) ++
    blocksOf (startBlockBuildStored .rocksdb storeLibs storedBase (stoppedApp 1)
      (samplePayload [setSlotBytes 0]) 1 []).writes
  have hchain : chain.length = 2 ∧
      ∀ a ∈ chain, ∀ b ∈ chain, a.header ≠ b.header → a.hash ≠ b.hash := by decide +kernel
  have hpool : (stoppedApp 1).memPool = [] := by simp only [stoppedApp, startedOn_memPool]
  have hrun : StoredRuns (Harmless .rocksdb) next chain :=
    .build hstopped (.of_eq hpool.symm) hnext
  have hroot : storedGenesis.header.stateRoot = storedRoot := by rw [storedGenesis]
  exact ⟨next, chain, hrun, hchain.1, interrupted_builds_consistent rfl hroot hrun hchain.2⟩

end Samples

end OpMove.Interruptions

