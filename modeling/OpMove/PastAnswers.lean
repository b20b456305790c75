import OpMove.Extraction
import OpMove.Queries
import OpMove.TrieRefinement

/-!
Answers about a past height while the chain grows. The block of a height and all older blocks stay
where they are, and the database keeps the trie of every state root, so that modules, resources,
accounts and block hashes are those of the height. Storage slots are not: they are read at the
present root of the account, whatever the height.
-/

namespace OpMove.PastAnswers

open Primitives Transactions Errors ChangeSets StateChanges StorageTries NativeEvm ReadPrograms
open TreeKeys StateTrie BlockBuilding BlockAgreement BlockStore Multimaps Queries

section Continuations

variable {σ χ : Type} (env : Env σ χ) (pick : List ExtendedBlock → Option ExtendedBlock)
variable (genesis : ExtendedBlock)

/-- What further commands lead to, with a condition on every command that builds. -/
inductive Continues (condition : App σ → App σ → Prop) (app : App σ) (chain : List ExtendedBlock) :
    App σ → List ExtendedBlock → Prop
  | refl : Continues condition app chain app chain
  | startBlockBuild {later next : App σ} {longer : List ExtendedBlock} {attributes : Payload}
      {id : ℕ} {drained : List Item} : Continues condition app chain later longer →
      drained.Perm later.memPool → buildInMemory env pick later attributes id drained = some next →
      condition later next → Continues condition app chain next (longer ++ addedBlocks later next)
  | addTransaction {later next : App σ} {longer : List ExtendedBlock} {tx : TxEnvelope} :
      Continues condition app chain later longer → addTransaction env later tx = some next →
      Continues condition app chain next longer
  | genesisUpdate {later : App σ} {longer : List ExtendedBlock} :
      Continues condition app chain later longer →
      Continues condition app chain (genesisUpdate later genesis) longer

variable {env pick genesis} {condition : App σ → App σ → Prop} {app later : App σ}
variable {chain longer : List ExtendedBlock}

theorem Continues.chainRuns {state : σ} (hrun : ChainRuns env pick state genesis app chain)
    (h : Continues env pick genesis condition app chain later longer) :
    ChainRuns env pick state genesis later longer := by
  induction h with
  | refl => exact hrun
  | startBlockBuild _ hdrained hbuild _ ih => exact .startBlockBuild ih hdrained hbuild
  | addTransaction _ hadd ih => exact .addTransaction ih hadd
  | genesisUpdate _ ih => exact .genesisUpdate ih

theorem Continues.isPrefix (h : Continues env pick genesis condition app chain later longer) :
    chain <+: longer := by
  induction h with
  | refl => exact List.prefix_refl chain
  | startBlockBuild _ _ _ _ ih => exact ih.trans (List.prefix_append _ _)
  | addTransaction _ _ ih => exact ih
  | genesisUpdate _ ih => exact ih

theorem Continues.trans {last : App σ} {longest : List ExtendedBlock}
    (h : Continues env pick genesis condition app chain later longer)
    (h' : Continues env pick genesis condition later longer last longest) :
    Continues env pick genesis condition app chain last longest := by
  induction h' with
  | refl => exact h
  | startBlockBuild _ hdrained hbuild hcondition ih =>
    exact .startBlockBuild ih hdrained hbuild hcondition
  | addTransaction _ hadd ih => exact .addTransaction ih hadd
  | genesisUpdate _ ih => exact .genesisUpdate ih

theorem addTransaction_state {tx : TxEnvelope} {next : App σ}
    (h : addTransaction env app tx = some next) : next.state = app.state := by
  simp only [addTransaction, Option.bind_eq_bind, Option.bind_eq_some_iff, Option.some.injEq] at h
  obtain ⟨item, -, rfl⟩ := h
  rfl

/-- What every building command keeps is kept. -/
theorem Continues.keeps {P : σ → Prop} (hkeeps : ∀ later next, condition later next →
      P later.state → P next.state)
    (h : Continues env pick genesis condition app chain later longer) (happ : P app.state) :
    P later.state := by
  induction h with
  | refl => exact happ
  | startBlockBuild _ _ _ hcondition ih => exact hkeeps _ _ hcondition ih
  | addTransaction _ hadd ih =>
    rw [addTransaction_state hadd]
    exact ih
  | genesisUpdate _ ih => exact ih

end Continuations

section Trees

variable {libs : Libraries}

/-- Every trie is kept under its own root, and the present one is there. -/
structure Sound (rootHash : Tree → B256) (state : InMemoryState) : Prop where
  named : ∀ root tree, state.db root = some tree → rootHash tree = root
  current : (state.db state.stateRoot).isSome

/-- Databases only gain roots. -/
def Gains (state next : InMemoryState) : Prop :=
  ∀ root, (state.db root).isSome → (next.db root).isSome

theorem apply_spec {state next : InMemoryState} {order : List (Σ _ : TreeKey, TreeValue)}
    {changes : MoveChangeSet}
    (h : state.apply libs.codec libs.rootHash order changes = some next) :
    ∃ tree, next.db = Function.update state.db (libs.rootHash tree) (some tree) ∧
      next.stateRoot = libs.rootHash tree := by
  simp only [InMemoryState.apply, Option.bind_eq_bind, Option.bind_eq_some_iff,
    Option.some.injEq] at h
  obtain ⟨tree, -, resolver, -, rfl⟩ := h
  exact ⟨_, rfl, rfl⟩

theorem apply_named {state next : InMemoryState} {order : List (Σ _ : TreeKey, TreeValue)}
    {changes : MoveChangeSet}
    (h : state.apply libs.codec libs.rootHash order changes = some next)
    (hnamed : ∀ root tree, state.db root = some tree → libs.rootHash tree = root) :
    Sound libs.rootHash next := by
  obtain ⟨tree, hdb, hroot⟩ := apply_spec h
  refine ⟨fun root other hother => ?_, ?_⟩
  · rw [hdb] at hother
    by_cases hsame : root = libs.rootHash tree
    · subst hsame
      rw [Function.update_self, Option.some.injEq] at hother
      rw [← hother]
    · rw [Function.update_of_ne hsame] at hother
      exact hnamed root other hother
  · rw [hdb, hroot, Function.update_self]
    rfl

theorem apply_gains {state next : InMemoryState} {order : List (Σ _ : TreeKey, TreeValue)}
    {changes : MoveChangeSet}
    (h : state.apply libs.codec libs.rootHash order changes = some next) : Gains state next := by
  obtain ⟨tree, hdb, -⟩ := apply_spec h
  intro root hroot
  rw [hdb]
  by_cases hsame : root = libs.rootHash tree
  · subst hsame
    rw [Function.update_self]
    rfl
  · rw [Function.update_of_ne hsame]
    exact hroot

theorem named_of_runs {state : InMemoryState} {history : List MoveChangeSet}
    (hrun : StateRuns libs.codec libs.rootHash state history) :
    ∀ root tree, state.db root = some tree → libs.rootHash tree = root := by
  induction hrun with
  | new =>
    intro root tree h
    cases h
  | apply _ _ happly ih => exact (apply_named happly ih).named

/-- Once a change set was applied, the state is sound. -/
theorem sound_of_runs {state : InMemoryState} {history : List MoveChangeSet}
    (hrun : StateRuns libs.codec libs.rootHash state history) (hne : history ≠ []) :
    Sound libs.rootHash state := by
  cases hrun with
  | new => exact absurd rfl hne
  | apply hbefore _ happly => exact apply_named happly (named_of_runs hbefore)

theorem NodeState.apply_spec {node next : NodeState} {changes : OutcomeChanges}
    (h : node.apply libs changes = some next) :
    node.state.apply libs.codec libs.rootHash (libs.order changes.moveVm) changes.moveVm =
      some next.state := by
  simp only [NodeState.apply, Option.bind_eq_bind, Option.bind_eq_some_iff, Option.some.injEq] at h
  obtain ⟨state, hstate, tries, -, rfl⟩ := h
  exact hstate

variable {base : Env NodeState OutcomeChanges}

/-- A batch leaves a sound state that has every root it began with. -/
theorem runBatch_sound {blocks : List ExtendedBlock} {batch : Batch} {items : List Item}
    {node : NodeState} {final : Progress NodeState} (hnode : Sound libs.rootHash node.state)
    (h : runBatch (nodeEnv libs base) blocks batch items (.start node) = some final) :
    Sound libs.rootHash final.state.state ∧ Gains node.state final.state.state := by
  refine runBatch_keeps (nodeEnv libs base) blocks batch
    (P := fun progress => Sound libs.rootHash progress.state.state ∧
      Gains node.state progress.state.state) ?_ h ⟨hnode, fun _ hroot => hroot⟩
  rintro item - progress next ⟨hsound, hgains⟩ hone
  rcases executeOne_executes (nodeEnv libs base) blocks batch hone with
    rfl | ⟨normalized, outcome, receipt, hexecutes⟩
  · exact ⟨hsound, hgains⟩
  · have happly := NodeState.apply_spec hexecutes.applies
    exact ⟨apply_named happly hsound.named,
      fun root hroot => apply_gains happly root (hgains root hroot)⟩

end Trees

section Roots

variable {S : Type} {reader : ApplicationReader S} {base : Env NodeState OutcomeChanges}
variable {node : NodeState} {genesis : ExtendedBlock} {app : App NodeState}
variable {chain : List ExtendedBlock}

/-- The state root of a height of the chain. -/
def rootAt (reader : ApplicationReader S) (chain : List ExtendedBlock) (height : ℕ) : Option B256 :=
  if height = 0 then some reader.genesisStateRoot
  else chain[height]?.map fun block => block.header.stateRoot

/-- The state is sound and has the trie of every height. -/
structure NodeInv (reader : ApplicationReader S) (app : App NodeState)
    (chain : List ExtendedBlock) : Prop where
  sound : Sound reader.libs.rootHash app.state.state
  roots : ∀ height root, rootAt reader chain height = some root → (app.state.state.db root).isSome

theorem NodeInv.startBlockBuild (hpick : Picks reader.pick) (h : NodeInv reader app chain)
    (hchain : ChainInv genesis app chain) {next : App NodeState} {attributes : Payload} {id : ℕ}
    {drained : List Item}
    (hbuild : buildInMemory (nodeEnv reader.libs base) reader.pick app attributes id drained =
      some next) : NodeInv reader next (chain ++ addedBlocks app next) := by
  rcases buildInMemory_cases hpick hbuild with ⟨-, rfl⟩ | ⟨-, built, hbuilt, rfl⟩
  · rw [addedBlocks_self, List.append_nil]
    exact h
  · obtain ⟨batch, progress, hrun, hstate, -⟩ := buildBlock_run (nodeEnv reader.libs base) hbuilt
    obtain ⟨hsound, hgains⟩ := runBatch_sound h.sound hrun
    rw [← hstate] at hsound hgains
    rw [addedBlocks_withBlock]
    refine ⟨hsound, fun height root hroot => ?_⟩
    have hpos := hchain.pos
    unfold rootAt at hroot
    split_ifs at hroot with hzero
    · exact hgains root (h.roots 0 root (by rw [rootAt, if_pos rfl]; exact hroot))
    · obtain ⟨block, hblock, rfl⟩ := Option.map_eq_some_iff.mp hroot
      rcases getElem?_concat_cases hblock with hold | ⟨rfl, rfl⟩
      · refine hgains _ (h.roots height _ ?_)
        rw [rootAt, if_neg hzero, hold, Option.map_some]
      · -- the new block commits to the state it leaves
        rw [buildBlock_stateRoot (nodeEnv reader.libs base) hbuilt]
        exact hsound.current

theorem nodeInv_of_runs (hpick : Picks reader.pick) (hnumber : genesis.header.number = 0)
    (hnode : Sound reader.libs.rootHash node.state)
    (hroot : reader.genesisStateRoot = node.state.stateRoot)
    (hrun : ChainRuns (nodeEnv reader.libs base) reader.pick node genesis app chain) :
    NodeInv reader app chain := by
  induction hrun with
  | start =>
    refine ⟨hnode, fun height root h => ?_⟩
    unfold rootAt at h
    split_ifs at h with hzero
    · rw [← Option.some.inj h, hroot]
      exact hnode.current
    · rw [List.getElem?_eq_none (by simp; omega)] at h
      cases h
  | startBlockBuild hbefore _ hbuild ih =>
    exact ih.startBlockBuild hpick (chainInv_of_runs hpick hnumber hbefore) hbuild
  | addTransaction _ hadd ih =>
    refine ⟨?_, ?_⟩
    · rw [addTransaction_state hadd]
      exact ih.sound
    · rw [addTransaction_state hadd]
      exact ih.roots
  | genesisUpdate _ ih => exact ⟨ih.sound, ih.roots⟩

end Roots

section Answers

variable {S : Type} {reader : ApplicationReader S} {genesis : ExtendedBlock}
variable {app later : App NodeState} {chain longer : List ExtendedBlock} {height : ℕ}

/-- Two tries with one root are one trie, as far as the two databases go. -/
def Collisionless (rootHash : Tree → B256) (state later : InMemoryState) : Prop :=
  ∀ root root' tree tree', state.db root = some tree → later.db root' = some tree' →
    rootHash tree = rootHash tree' → tree = tree'

/-- The block storage and the state, as runs leave them. -/
structure Reached (reader : ApplicationReader S) (genesis : ExtendedBlock) (app : App NodeState)
    (chain : List ExtendedBlock) : Prop where
  blocks : ChainInv genesis app chain
  node : NodeInv reader app chain

/-- A later state of the same chain. -/
structure Later (reader : ApplicationReader S) (genesis : ExtendedBlock) (app : App NodeState)
    (chain : List ExtendedBlock) (later : App NodeState) (longer : List ExtendedBlock) : Prop where
  before : Reached reader genesis app chain
  after : Reached reader genesis later longer
  grows : chain <+: longer

namespace Later

variable (hpick : Picks reader.pick) (h : Later reader genesis app chain later longer)
include hpick h

theorem byHeight_eq {number : ℕ} (hlt : number < chain.length) :
    (memoryOf later.blocks).byHeight reader.pick number =
      (memoryOf app.blocks).byHeight reader.pick number := by
  rw [h.after.blocks.byHeight_eq hpick, h.before.blocks.byHeight_eq hpick]
  obtain ⟨rest, rfl⟩ := h.grows
  rw [List.getElem?_append_left hlt]

theorem rootByHeight_eq (hlt : height < chain.length) :
    reader.rootByHeight later height = reader.rootByHeight app height := by
  unfold ApplicationReader.rootByHeight
  rw [h.byHeight_eq hpick hlt]

theorem hashByNumber_eq {number : ℕ} (hlt : number < chain.length) :
    reader.hashByNumber later number = reader.hashByNumber app number := by
  unfold ApplicationReader.hashByNumber
  rw [h.byHeight_eq hpick hlt]

/-- The trie of a height stays the same. -/
theorem resolver_eq (hdistinct : Collisionless reader.libs.rootHash app.state.state later.state.state)
    (hlt : height < chain.length) : reader.resolver later height = reader.resolver app height := by
  have hroot := h.rootByHeight_eq hpick hlt
  unfold ApplicationReader.resolver
  rw [hroot]
  cases hfound : reader.rootByHeight app height with
  | none => rfl
  | some root =>
    have hbefore : rootAt reader chain height = some root := by
      rw [← hfound, rootAt, ApplicationReader.rootByHeight, h.before.blocks.byHeight_eq hpick]
    have hafter : rootAt reader longer height = some root := by
      rw [← hfound, ← hroot, rootAt, ApplicationReader.rootByHeight,
        h.after.blocks.byHeight_eq hpick]
    obtain ⟨tree, htree⟩ := Option.isSome_iff_exists.mp (h.before.node.roots height root hbefore)
    obtain ⟨tree', htree'⟩ := Option.isSome_iff_exists.mp (h.after.node.roots height root hafter)
    have hsame : tree = tree' := by
      refine hdistinct root root tree tree' htree htree' ?_
      rw [h.before.node.sound.named root tree htree, h.after.node.sound.named root tree' htree']
    dsimp only
    rw [htree, htree', hsame]

end Later

/-- The value a storage trie has for a slot at present. -/
def slotOf (lib : TrieLibrary) (node : NodeState) (a : Address) (i : U256) : Option U256 :=
  ((node.evmStorage a).read lib).map fun storage => storage i

theorem storageRef_eq_slotOf {lib : TrieLibrary} {node : NodeState} {db : ResolverBackedDB}
    (hdb : db.state.tries = node.evmStorage) (a : Address) (i : U256) :
    db.storageRef lib a i = match slotOf lib node a i with
      | none => .error .storageError
      | some value => .ok value := by
  unfold ResolverBackedDB.storageRef slotOf
  rw [hdb]
  cases (node.evmStorage a).read lib <;> rfl

/-- Only hashes of older blocks are looked up. -/
theorem blockHashRef_dbAt {libs : Libraries} {tree : Tree} {tries other : Address → TrieDb}
    {hashes newHashes : ℕ → Option B256} {number : ℕ}
    (h : ∀ older < number, newHashes older = hashes older) (n : ℕ) :
    (dbAt libs tree other newHashes number).blockHashRef n =
      (dbAt libs tree tries hashes number).blockHashRef n := by
  unfold ResolverBackedDB.blockHashRef dbAt
  by_cases hrange : number - 256 ≤ n ∧ n < number
  · rw [if_pos hrange, if_pos hrange]
    exact congrArg (fun hash => hash.getD 0) (h n hrange.2)
  · rw [if_neg hrange, if_neg hrange]

/-- Everything but a storage slot is answered as before. -/
theorem Later.answersAt_eq (hpick : Picks reader.pick)
    (h : Later reader genesis app chain later longer) {tree : Tree} {number : ℕ}
    (hnumber : number ≤ chain.length) (question : Question)
    (hslots : ∀ a i, question = .db (.storage a i) →
      slotOf reader.libs.lib later.state a i = slotOf reader.libs.lib app.state a i) :
    reader.answersAt later tree number question = reader.answersAt app tree number question := by
  cases question with
  | move question => rfl
  | db query =>
    cases query with
    | basic a =>
      simp only [ApplicationReader.answersAt, answers, ResolverBackedDB.answers,
        ResolverBackedDB.basicRef, dbAt]
    | codeByHash codeHash =>
      simp only [ApplicationReader.answersAt, answers, ResolverBackedDB.answers,
        ResolverBackedDB.codeByHashRef, dbAt]
    | storage a i =>
      have hslot := hslots a i rfl
      simp only [ApplicationReader.answersAt, answers, decodes, if_true, ResolverBackedDB.answers]
      rw [storageRef_eq_slotOf (show _ = later.state.evmStorage from rfl), hslot,
        storageRef_eq_slotOf (show _ = app.state.evmStorage from rfl)]
    | blockHash n =>
      have hhashes : ∀ older < number,
          reader.hashByNumber later older = reader.hashByNumber app older :=
        fun older holder => h.hashByNumber_eq hpick (lt_of_lt_of_le holder hnumber)
      simp only [ApplicationReader.answersAt, answers, decodes, if_true, ResolverBackedDB.answers]
      exact congrArg (fun hash => Except.ok (Except.ok hash)) (blockHashRef_dbAt hhashes n)

end Answers

section Queries

variable {S : Type} {reader : ApplicationReader S} {genesis : ExtendedBlock}
variable {app later : App NodeState} {chain longer : List ExtendedBlock} {height : ℕ}

/-- What a call and an estimate of a request ask at a height. -/
def readsAt (reader : ApplicationReader S) (app : App NodeState) (ambient : Ambient)
    (request : TransactionRequest) (height : ℕ) : List Question :=
  reader.callReads app request height ++ reader.estimateReads app ambient request height

/-- A command that leaves the storage slots among some questions as they are. -/
def KeepsSlots (lib : TrieLibrary) (questions : List Question) (app next : App NodeState) : Prop :=
  ∀ a i, .db (.storage a i) ∈ questions → slotOf lib next.state a i = slotOf lib app.state a i

/-- The four answers about a height, before and after. -/
structure SameAnswers (reader : ApplicationReader S) (before after : App NodeState)
    (address : Address) (ambient : Ambient) (request : TransactionRequest) (height : ℕ) : Prop where
  balance : reader.balanceByHeight after address (.number height) =
    reader.balanceByHeight before address (.number height)
  nonce : reader.nonceByHeight after address (.number height) =
    reader.nonceByHeight before address (.number height)
  call : reader.call after request (.number height) = reader.call before request (.number height)
  estimateGas : reader.estimateGas after ambient request (.number height) =
    reader.estimateGas before ambient request (.number height)

/-- Every slot that is read about a height has the value it had in the given state. -/
def SeesStorageOf (reader : ApplicationReader S) (node : NodeState) (app : App NodeState)
    (ambient : Ambient) (request : TransactionRequest) (height : ℕ) : Prop :=
  ∀ a i, .db (.storage a i) ∈ readsAt reader app ambient request height →
    slotOf reader.libs.lib app.state a i = slotOf reader.libs.lib node a i

section Reading

variable (hpick : Picks reader.pick) (h : Later reader genesis app chain later longer)
variable (hdistinct : Collisionless reader.libs.rootHash app.state.state later.state.state)
variable (hlt : height < chain.length)
include hpick h hdistinct hlt

/-- Balances and nonces need no storage slots. -/
theorem balanceByHeight_eq (address : Address) :
    reader.balanceByHeight later address (.number height) =
      reader.balanceByHeight app address (.number height) := by
  unfold ApplicationReader.balanceByHeight
  simp only [ApplicationReader.resolveHeight, h.resolver_eq hpick hdistinct hlt]

theorem nonceByHeight_eq (address : Address) :
    reader.nonceByHeight later address (.number height) =
      reader.nonceByHeight app address (.number height) := by
  unfold ApplicationReader.nonceByHeight
  simp only [ApplicationReader.resolveHeight, h.resolver_eq hpick hdistinct hlt]

/-- A program gives the same result and asks the same when the slots it reads are kept. -/
theorem runProgram_eq {R : Type} {program : Tree → Option (Program Question QuestionAnswer R)}
    {number : ℕ} (hnumber : number ≤ chain.length)
    (hslots : ∀ a i, .db (.storage a i) ∈ reader.programReads app height number program →
      slotOf reader.libs.lib later.state a i = slotOf reader.libs.lib app.state a i) :
    reader.runProgram later height number program = reader.runProgram app height number program ∧
      reader.programReads later height number program =
        reader.programReads app height number program := by
  have hresolver : reader.resolverAt later height = reader.resolverAt app height := by
    unfold ApplicationReader.resolverAt
    rw [h.resolver_eq hpick hdistinct hlt]
  unfold ApplicationReader.programReads at hslots
  unfold ApplicationReader.runProgram ApplicationReader.programReads
  rw [hresolver]
  cases htree : reader.resolverAt app height with
  | none => exact ⟨by simp only [Option.bind_eq_bind, Option.bind_none], rfl⟩
  | some tree =>
    simp only [Option.bind_eq_bind, Option.bind_some]
    cases hprogram : program tree with
    | none => exact ⟨by simp only [Option.bind_none], rfl⟩
    | some asked =>
      simp only [htree, hprogram] at hslots
      have hanswers : ∀ question ∈ asked.reads (reader.answersAt app tree number),
          reader.answersAt later tree number question = reader.answersAt app tree number question := by
        intro question hquestion
        refine h.answersAt_eq hpick hnumber question fun a i hslot => ?_
        exact hslots a i (hslot ▸ hquestion)
      simp only [Option.bind_some]
      exact ⟨by rw [run_eq_of_reads asked hanswers], reads_eq_of_reads asked hanswers⟩

end Reading

section Runs

variable {base : Env NodeState OutcomeChanges} {node : NodeState} {history : List MoveChangeSet}
variable {address : Address} {ambient : Ambient} {request : TransactionRequest}

theorem reached_of_runs (hpick : Picks reader.pick) (hnumber : genesis.header.number = 0)
    (hstart : StateRuns reader.libs.codec reader.libs.rootHash node.state history)
    (hne : history ≠ []) (hroot : reader.genesisStateRoot = node.state.stateRoot)
    (hrun : ChainRuns (nodeEnv reader.libs base) reader.pick node genesis app chain) :
    Reached reader genesis app chain :=
  ⟨chainInv_of_runs hpick hnumber hrun,
    nodeInv_of_runs hpick hnumber (sound_of_runs hstart hne) hroot hrun⟩

/-- Commands that keep the slots which are read leave the answers as they are. -/
theorem answers_of_continues (address : Address) (hpick : Picks reader.pick)
    (hcontinues : Continues (nodeEnv reader.libs base) reader.pick genesis
      (KeepsSlots reader.libs.lib (readsAt reader app ambient request height)) app chain later longer)
    (hbefore : Reached reader genesis app chain) (hafter : Reached reader genesis later longer)
    (hdistinct : Collisionless reader.libs.rootHash app.state.state later.state.state)
    (hlt : height < chain.length) :
    SameAnswers reader app later address ambient request height ∧
      SeesStorageOf reader app.state later ambient request height := by
  have h : Later reader genesis app chain later longer := ⟨hbefore, hafter, hcontinues.isPrefix⟩
  have hslots : ∀ a i, .db (.storage a i) ∈ readsAt reader app ambient request height →
      slotOf reader.libs.lib later.state a i = slotOf reader.libs.lib app.state a i := by
    intro a i hread
    refine hcontinues.keeps (P := fun other => slotOf reader.libs.lib other a i =
      slotOf reader.libs.lib app.state a i) ?_ rfl
    intro middle next hkeeps hmiddle
    rw [hkeeps a i hread, hmiddle]
  obtain ⟨hcall, hcallReads⟩ := runProgram_eq hpick h hdistinct hlt (Nat.zero_le _)
    fun a i hread => hslots a i (List.mem_append_left _ hread)
  obtain ⟨hestimate, hestimateReads⟩ := runProgram_eq hpick h hdistinct hlt hlt.le
    fun a i hread => hslots a i (List.mem_append_right _ hread)
  refine ⟨⟨balanceByHeight_eq hpick h hdistinct hlt address,
    nonceByHeight_eq hpick h hdistinct hlt address, hcall, ?_⟩, fun a i hread => ?_⟩
  · unfold ApplicationReader.estimateGas
    simp only [ApplicationReader.resolveHeight, Option.bind_eq_bind, Option.bind_some, hestimate]
  · rw [readsAt, ApplicationReader.callReads, ApplicationReader.estimateReads, hcallReads,
      hestimateReads] at hread
    exact hslots a i hread

/-- From the moment a height is the latest one, for as long as no block changes a storage slot
that a call or an estimate at this height reads, all answers about it stay the same and see the
storage of that moment. -/
theorem past_answers_kept {before after : App NodeState} {longest : List ExtendedBlock}
    (hpick : Picks reader.pick) (hnumber : genesis.header.number = 0)
    (hstart : StateRuns reader.libs.codec reader.libs.rootHash node.state history)
    (hne : history ≠ []) (hroot : reader.genesisStateRoot = node.state.stateRoot)
    (hrun : ChainRuns (nodeEnv reader.libs base) reader.pick node genesis app chain)
    (hheight : chain.length = height + 1)
    (hbefore : Continues (nodeEnv reader.libs base) reader.pick genesis
      (KeepsSlots reader.libs.lib (readsAt reader app ambient request height)) app chain before longer)
    (hafter : Continues (nodeEnv reader.libs base) reader.pick genesis
      (KeepsSlots reader.libs.lib (readsAt reader app ambient request height)) before longer
      after longest)
    (hdistinct : Collisionless reader.libs.rootHash app.state.state before.state.state)
    (hdistinct' : Collisionless reader.libs.rootHash app.state.state after.state.state) :
    SameAnswers reader before after address ambient request height ∧
      SeesStorageOf reader app.state before ambient request height ∧
      SeesStorageOf reader app.state after ambient request height := by
  have hreached : ∀ {other : App NodeState} {blocks : List ExtendedBlock},
      ChainRuns (nodeEnv reader.libs base) reader.pick node genesis other blocks →
        Reached reader genesis other blocks :=
    fun hother => reached_of_runs hpick hnumber hstart hne hroot hother
  have hall := hbefore.trans hafter
  obtain ⟨hfirst, hseesBefore⟩ := answers_of_continues address hpick hbefore
    (hreached hrun) (hreached (hbefore.chainRuns hrun)) hdistinct (by omega)
  obtain ⟨hsecond, hseesAfter⟩ := answers_of_continues address hpick hall
    (hreached hrun) (hreached (hall.chainRuns hrun)) hdistinct' (by omega)
  refine ⟨⟨?_, ?_, ?_, ?_⟩, hseesBefore, hseesAfter⟩
  · rw [hsecond.balance, hfirst.balance]
  · rw [hsecond.nonce, hfirst.nonce]
  · rw [hsecond.call, hfirst.call]
  · rw [hsecond.estimateGas, hfirst.estimateGas]

end Runs

end Queries

section Samples

open MoveTypes Extraction TrieRefinement

def storeAddress : Address := 0xc0ffee

/-- A contract that returns slot zero, and sets the slot named by its calldata to one. -/
def storeCode : Bytes :=
  [0x36, 0x60, 0x0c, 0x57, 0x5f, 0x54, 0x5f, 0x52, 0x60, 0x20, 0x5f, 0xf3, 0x5b, 0x60, 0x01, 0x5f,
    0x35, 0x55, 0x00]

def storeCodeHash : B256 := 0x057115d27ceb66db194e8d6e03695d6f8ed6a26004fdbe1335790e2c769053a4

/-- The account of the contract over a storage root, with nonce one. -/
def storeBytes (storageRoot : B256) : Bytes :=
  [0xf8, 0x44, 0x01, 0x80, 0xa0] ++ (leBytes 32 storageRoot.toNat).reverse ++
    0xa0 :: (leBytes 32 storeCodeHash.toNat).reverse

/-- The state key of the code's resource, as it is hashed. -/
def codeKeyBytes : Bytes :=
  let name := [0x43, 0x6f, 0x64, 0x65, 0x48, 0x61, 0x73, 0x68, 0x5f] ++
    (leBytes 32 0x3035373131356432376365623636646231393465386436653033363935643666).reverse ++
    (leBytes 32 0x3865643661323630303466646265313333353739306532633736393035336134).reverse
  let path := 1 :: ((leBytes 32 1).reverse ++ [3, 0x65, 0x76, 0x6d] ++ ulebBytes 5 name.length ++
    name ++ [0])
  0 :: ((leBytes 32 1).reverse ++ ulebBytes 5 path.length ++ path)

def storeRoot (storageRoot : B256) : B256 :=
  if storageRoot = rootZero then 0x4f9ed3c5eb9dce38f5bf20e172ea16625ef07ad2e29a8108de380d5a84f24750
  else if storageRoot = rootOne then
    0xb34d15af6377ce0302f44eadc4e1665390cc353c0002de52c05b36dcc85bd844
  else 0xc661f42760e2c590233944bab260ad8b5b288995c0262de7a67845692122bd35

/-- The order in which the tree values come is one of their orders. -/
theorem perm_entries (changes : MoveChangeSet) :
    (toTreeValues changes).entries.Perm (toTreeValues changes).entries := .refl _

/-- The libraries at the contract's account and code. -/
def storeLibs : Libraries where
  codec :=
    { encoded := fun _ => codeKeyBytes
      keccak256 := fun bytes =>
        if bytes = addressBytes storeAddress then
          0x91c2f507f0d26047383e5413b622d1a8b0f1815f99f887bd7a13564912191e57
        else if bytes = codeKeyBytes then
          0xae6fbf0d529a83fa63a08f84c2d9897ae262bcb7a3ba8db7b59d4cf8dbb10cf1
        else 0
      stateValueBytes := legacyBytes
      stateValueData := legacyData }
  rootHash tree :=
    match tree 0x91c2f507f0d26047383e5413b622d1a8b0f1815f99f887bd7a13564912191e57 with
    | none => emptyRoot
    | some bytes => storeRoot (BitVec.ofNat 256 (beNat ((bytes.drop 5).take 32)))
  lib := sampleLib
  account bytes := some
    { nonce := 1
      balance := 0
      codeHash := BitVec.ofNat 256 (beNat (bytes.drop 38))
      storageRoot := BitVec.ofNat 256 (beNat ((bytes.drop 5).take 32)) }
  code bytes := some (bytes.drop 1)
  order changes := (toTreeValues changes).entries
  order_perm := perm_entries

/-- The contract in the genesis state, with empty storage. -/
def storeGenesis : MoveChangeSet :=
  AList.singleton evmNativeAddress ⟨∅,
    (AList.singleton (accountInfoStructTag storeAddress) (.new (storeBytes emptyRoot))).insert
      (codeHashStructTag storeCodeHash) (.new (19 :: storeCode))⟩

def storeState : InMemoryState :=
  (InMemoryState.new.apply storeLibs.codec storeLibs.rootHash (storeLibs.order storeGenesis)
    storeGenesis).getD .new

def storeNode : NodeState := ⟨storeState, fun _ => ⟨none, ∅⟩⟩

theorem storeState_apply : InMemoryState.new.apply storeLibs.codec storeLibs.rootHash
    (storeLibs.order storeGenesis) storeGenesis = some storeState := by
  have happlies : (InMemoryState.new.apply storeLibs.codec storeLibs.rootHash
      (storeLibs.order storeGenesis) storeGenesis).isSome := by decide +kernel
  obtain ⟨state, hstate⟩ := Option.isSome_iff_exists.mp happlies
  rw [storeState, hstate, Option.getD_some]

def readSlot (a : Address) (i : U256) : Program Question QuestionAnswer (Except Error Bytes) :=
  .ask (.db (.storage a i)) fun slot : Except DbError U256 =>
    match slot with
    | .ok value => .done (.ok (leBytes 32 value.toNat).reverse)
    | .error _ => .done (.error .panicked)

def runCode (a : Address) (codeHash : B256) : Program Question QuestionAnswer (Except Error Bytes) :=
  .ask (.db (.codeByHash codeHash)) fun code : Except DbError Bytes =>
    match code with
    | .ok code => if code = storeCode then readSlot a 0 else .done (.ok [])
    | .error _ => .done (.error .panicked)

/-- A call of the contract without calldata: the EVM asks for its account, its code and slot zero. -/
def readStore (a : Address) : Program Question QuestionAnswer (Except Error Bytes) :=
  .ask (.db (.basic a)) fun info : Except DbError (Option AccountInfo) =>
    match info with
    | .ok (some info) => runCode a info.codeHash
    | .ok none => .done (.ok [])
    | .error _ => .done (.error .panicked)

/-- The machines on requests that read the contract. -/
def storeVm : Vm Unit where
  ethBalance _ := .done (some 0)
  accountNonce _ := .done (some 0)
  verifyTransaction _ := .done (.ok ())
  executeFunction _ _ := .done (.error .panicked)
  executeScript _ _ _ := .done (.error .panicked)
  executeEvmContract _ contract _ _ _ := readStore (toEthAddress contract)
  executeTransaction _ := (readStore storeAddress).bind fun result =>
    .done (result.map fun _ => ⟨true, ⟨∅, ∅⟩, 30000, 0, [], none⟩)

def storeReader : ApplicationReader Unit where
  libs := storeLibs
  vm := storeVm
  payloads :=
    { transactionData := fun data => if data = [4, 0] then some (.evmContract []) else none
      scriptOrDeployment := fun _ => none }
  pick := List.head?
  genesisStateRoot := storeState.stateRoot

/-- A read of the contract, as an EVM payload without calldata. -/
def readRequest : TransactionRequest :=
  ⟨none, some (.call storeAddress), none, none, none, none, some [4, 0], none, none, none⟩

def storeSignature (slot : UInt8) : Bytes :=
  if slot = 0 then
    (leBytes 32 0xe6a21d950139f4c824e1e06d91bd6cad4dd370c20c73c5c2a59dbd1c09a71f52).reverse ++
      0xa0 :: (leBytes 32 0x1b551a46ebab752e699152b04ec5da1ac503312b737c92a5269c0259d06a9360).reverse
  else
    (leBytes 32 0x1190a625bcb85061c744743dc68a3fccca905f7a34fe27c5ff93173174ca8a4d).reverse ++
      0xa0 :: (leBytes 32 0x4ccca49feb75118be603110f07141a88220cc46ad41f6cde6eb133153a2a4797).reverse

/-- The EVM payload that sets a slot of the contract. -/
def setSlotData (slot : UInt8) : Bytes := [4, 32] ++ List.replicate 31 0 ++ [slot]

def setSlotTx (slot : UInt8) : OpTxEnvelope :=
  .legacy
    { tx :=
        { chainId := some 404, nonce := 0, gasPrice := 20000000000, gasLimit := 100000,
          target := .call storeAddress, value := 0, input := setSlotData slot }
      signature := storeSignature slot ++ [0x03, 0x4b + slot] }

/-- The RLP list of the signed transaction. -/
def setSlotBytes (slot : UInt8) : Bytes :=
  [0xf8, 0x89, 0x80, 0x85, 0x04, 0xa8, 0x17, 0xc8, 0x00, 0x83, 0x01, 0x86, 0xa0, 0x94] ++
    addressBytes storeAddress ++ [0x80, 0xa2] ++ setSlotData slot ++ [0x82, 0x03, 0x4b + slot, 0xa0] ++
    storeSignature slot

def setSlotHash (slot : UInt8) : B256 :=
  if slot = 0 then 0x5686e481d8ed0d7d6fc80a4c42b73feb91ef22e511db8a2f6848ff1ed1289956
  else 0x32b8451017126b017486c5d2df9bf6b11b86a0029753cdd7ba902fb642d8a015

/-- The consensus library at the two transactions. -/
def setSlotCodec : Codec where
  decode bytes :=
    if bytes = setSlotBytes 0 then some (setSlotTx 0, [])
    else if bytes = setSlotBytes 1 then some (setSlotTx 1, []) else none
  encode2718 tx :=
    if tx = setSlotTx 0 then setSlotBytes 0 else if tx = setSlotTx 1 then setSlotBytes 1 else []
  recoverSigner _ := some 0x9d8a62f656a8d1615c1294fd71e9cfb3e4855a4f
  keccak256 bytes :=
    if bytes = setSlotBytes 0 then setSlotHash 0
    else if bytes = setSlotBytes 1 then setSlotHash 1 else BitVec.ofNat 256 (beNat bytes)

/-- A slot of the contract is set: its account and its storage trie change. -/
def setSlotChanges (slot : U256) : OutcomeChanges where
  moveVm := AList.singleton evmNativeAddress ⟨∅, AList.singleton (accountInfoStructTag storeAddress)
    (.modify (storeBytes (sampleLib.root (oneAt slot))))⟩
  evm := AList.singleton storeAddress (StorageTrie.commit sampleLib ⟨none, oneAt slot⟩)

/-- Block building where a transaction sets the slot its calldata names. -/
def storeBase : Env NodeState OutcomeChanges where
  codec := setSlotCodec
  executeTransaction _ _ input :=
    match input.tx with
    | .canonical tx => .ok
        { isOk := true
          changes := setSlotChanges (BitVec.ofNat 256 (beNat (tx.data.drop 2)))
          gasUsed := 43000, l2Price := 0, logs := [], deployment := none }
    | .depositedTx _ => .error .panicked
  applyChanges _ _ := none
  stateRoot _ := 0
  gasFee := ⟨6, 250⟩
  blockHash header := BitVec.ofNat 256 header.number
  orderedTrieRoot leaves := BitVec.ofNat 256 leaves.length
  encodeReceipt _ := []
  logBloom _ := 0

def storeEnv : Env NodeState OutcomeChanges := nodeEnv storeLibs storeBase

/-- The node right after its genesis. -/
def storeApp : App NodeState := genesisUpdate ⟨storeNode, [], [], [], []⟩ sampleGenesis

/-- The genesis state holds one trie, and a change set adds at most one with another root. -/
theorem collisionless_store {next : NodeState} {changes : OutcomeChanges}
    (happly : storeNode.apply storeLibs changes = some next)
    (hroot : next.state.stateRoot ≠ storeState.stateRoot) :
    Collisionless storeLibs.rootHash storeState storeState ∧
      Collisionless storeLibs.rootHash storeState next.state := by
  obtain ⟨first, hfirst, hfirstRoot⟩ := apply_spec storeState_apply
  obtain ⟨second, hsecond, hsecondRoot⟩ := apply_spec (NodeState.apply_spec happly)
  have hsecond : next.state.db =
      Function.update storeState.db (storeLibs.rootHash second) (some second) := hsecond
  rw [hfirstRoot, hsecondRoot] at hroot
  have honly : ∀ root tree, storeState.db root = some tree → tree = first := by
    intro root tree htree
    rw [hfirst, Function.update_apply] at htree
    split_ifs at htree with hsame
    · exact (Option.some.inj htree).symm
    · cases htree
  constructor
  · intro root root' tree tree' htree htree' _
    rw [honly root tree htree, honly root' tree' htree']
  · intro root root' tree tree' htree htree' hsame
    rw [hsecond, Function.update_apply] at htree'
    split_ifs at htree' with hnew
    · rw [honly root tree htree, ← Option.some.inj htree'] at hsame
      exact absurd hsame.symm hroot
    · rw [honly root tree htree, honly root' tree' htree']

/-- A block of one transaction that is executed applies one change set. -/
theorem apply_of_single {σ χ : Type} (env : Env σ χ) {app : App σ} {attributes : Payload} {id : ℕ}
    {drained : List Item} {built : Built σ} {item : Item}
    (hitems : collectTransactions env app attributes drained = [item])
    (h : buildBlock env app attributes id drained = some built) (hexecuted : built.executed ≠ []) :
    ∃ changes, env.applyChanges app.state changes = some built.state := by
  obtain ⟨batch, progress, hrun, hstate, hexec⟩ := buildBlock_run env h
  rw [hitems] at hrun
  have hone : executeOne env app.blocks batch (.start app.state) item = some progress := by
    simpa [runBatch] using hrun
  rcases executeOne_executes env app.blocks batch hone with
    rfl | ⟨normalized, outcome, receipt, hexecutes⟩
  · exact absurd hexec hexecuted
  · rw [hstate]
    exact ⟨outcome.changes, hexecutes.applies⟩

/-- The node right after its genesis, as the builder sees it. -/
def seenStore : App NodeState := { storeApp with blocks := visible List.head? storeApp.blocks }

/-- A block that sets a slot, as it is stored. -/
theorem storeBlock_spec {slot : UInt8} {built : Built NodeState}
    (hitems : collectTransactions storeEnv seenStore (samplePayload [setSlotBytes slot]) [] =
      [⟨setSlotHash slot, setSlotTx slot, .ofBytes []⟩])
    (hbuilt : buildBlock storeEnv seenStore (samplePayload [setSlotBytes slot]) 1 [] = some built)
    (hexecuted : built.executed ≠ []) (hroot : built.state.state.stateRoot ≠ storeState.stateRoot) :
    buildInMemory storeEnv List.head? storeApp (samplePayload [setSlotBytes slot]) 1 [] =
        some (storeApp.withBlock built) ∧
      ([sampleGenesis] ++ addedBlocks storeApp (storeApp.withBlock built)).length = 2 ∧
      Collisionless storeLibs.rootHash storeState storeState ∧
      Collisionless storeLibs.rootHash storeState built.state.state := by
  obtain ⟨changes, happly⟩ := apply_of_single storeEnv hitems hbuilt hexecuted
  have hnew : ¬ ((memoryOf storeApp.blocks).byPayloadId List.head? 1).isSome := by decide +kernel
  refine ⟨?_, by rw [addedBlocks_withBlock]; rfl, collisionless_store happly hroot⟩
  have hseen : buildBlock storeEnv { storeApp with blocks := visible List.head? storeApp.blocks }
      (samplePayload [setSlotBytes slot]) 1 [] = some built := hbuilt
  rw [buildInMemory, if_neg hnew, hseen, Option.map_some]

/-- Block one sets slot zero of the contract. A read at height zero returns zero before, and one
afterwards. -/
theorem past_read_changes : ∃ after longer,
    ChainRuns storeEnv List.head? storeNode sampleGenesis storeApp [sampleGenesis] ∧
      Continues storeEnv List.head? sampleGenesis (fun _ _ => True) storeApp [sampleGenesis]
        after longer ∧ longer.length = 2 ∧
      Collisionless storeLibs.rootHash storeApp.state.state after.state.state ∧
      storeReader.call storeApp readRequest (.number 0) = some (.ok (List.replicate 32 0)) ∧
      storeReader.call after readRequest (.number 0) =
        some (.ok (List.replicate 31 0 ++ [1])) := by
  have hrun : (buildBlock storeEnv seenStore (samplePayload [setSlotBytes 0]) 1 []).map
      (fun built => (built.executed.isEmpty,
        decide (built.state.state.stateRoot ≠ storeState.stateRoot ∧
          storeReader.call storeApp readRequest (.number 0) = some (.ok (List.replicate 32 0))),
        storeReader.call (storeApp.withBlock built) readRequest (.number 0))) =
      some (false, true, some (.ok (List.replicate 31 0 ++ [1]))) := by decide +kernel
  have hitems : collectTransactions storeEnv seenStore (samplePayload [setSlotBytes 0]) [] =
      [⟨setSlotHash 0, setSlotTx 0, .ofBytes []⟩] := by decide +kernel
  obtain ⟨built, hbuilt, hfacts⟩ := Option.map_eq_some_iff.mp hrun
  simp only [Prod.mk.injEq, decide_eq_true_eq, List.isEmpty_eq_false_iff] at hfacts
  obtain ⟨hexecuted, ⟨hroot, hcall⟩, hchanged⟩ := hfacts
  obtain ⟨hnext, hlength, -, hdistinct⟩ := storeBlock_spec hitems hbuilt hexecuted hroot
  exact ⟨storeApp.withBlock built, _, .start, .startBlockBuild .refl (.refl _) hnext trivial,
    hlength, hdistinct, hcall, hchanged⟩

/-- A block that sets slot one leaves what a read of slot zero returns at height zero. -/
theorem past_answers_kept_sample : ∃ after longer,
    Continues storeEnv List.head? sampleGenesis
        (KeepsSlots sampleLib (readsAt storeReader storeApp ⟨0, 0, 0⟩ readRequest 0)) storeApp
        [sampleGenesis] after longer ∧ longer.length = 2 ∧
      after.state.state.stateRoot ≠ storeApp.state.state.stateRoot ∧
      SameAnswers storeReader storeApp after 0 ⟨0, 0, 0⟩ readRequest 0 ∧
      SeesStorageOf storeReader storeApp.state after ⟨0, 0, 0⟩ readRequest 0 := by
  have hrun : (buildBlock storeEnv seenStore (samplePayload [setSlotBytes 1]) 1 []).map
      (fun built => (built.executed.isEmpty,
        decide (built.state.state.stateRoot ≠ storeState.stateRoot ∧
          ∀ question ∈ readsAt storeReader storeApp ⟨0, 0, 0⟩ readRequest 0,
            question ∈ [.db (.basic storeAddress), .db (.codeByHash storeCodeHash),
              .db (.storage storeAddress 0)]),
        slotOf sampleLib built.state storeAddress 0)) = some (false, true, some 0) := by
    decide +kernel
  have hitems : collectTransactions storeEnv seenStore (samplePayload [setSlotBytes 1]) [] =
      [⟨setSlotHash 1, setSlotTx 1, .ofBytes []⟩] := by decide +kernel
  obtain ⟨built, hbuilt, hfacts⟩ := Option.map_eq_some_iff.mp hrun
  simp only [Prod.mk.injEq, decide_eq_true_eq, List.isEmpty_eq_false_iff] at hfacts
  obtain ⟨hexecuted, ⟨hroot, hreads⟩, hslot⟩ := hfacts
  obtain ⟨hnext, hlength, hself, hdistinct⟩ := storeBlock_spec hitems hbuilt hexecuted hroot
  have hkeeps : KeepsSlots sampleLib (readsAt storeReader storeApp ⟨0, 0, 0⟩ readRequest 0) storeApp
      (storeApp.withBlock built) := by
    intro a i hread
    obtain ⟨rfl, rfl⟩ : a = storeAddress ∧ i = 0 := by simpa using hreads _ hread
    exact hslot.trans (by decide +kernel)
  have hcontinues : Continues storeEnv List.head? sampleGenesis
      (KeepsSlots sampleLib (readsAt storeReader storeApp ⟨0, 0, 0⟩ readRequest 0)) storeApp
      [sampleGenesis] (storeApp.withBlock built)
      ([sampleGenesis] ++ addedBlocks storeApp (storeApp.withBlock built)) :=
    .startBlockBuild .refl (.refl _) hnext hkeeps
  have hpick : Picks storeReader.pick := picks_head
  have hstart : StateRuns storeReader.libs.codec storeReader.libs.rootHash storeNode.state
      ([] ++ [storeGenesis]) := .apply .new (storeLibs.order_perm storeGenesis) storeState_apply
  have hgenesis : storeReader.genesisStateRoot = storeNode.state.stateRoot := by
    rw [storeReader, storeNode]
  have hchain : ChainRuns (nodeEnv storeReader.libs storeBase) storeReader.pick storeNode
      sampleGenesis storeApp [sampleGenesis] := .start
  obtain ⟨hsame, -, hsees⟩ := past_answers_kept hpick rfl (by exact hstart) (by simp)
    (by exact hgenesis) hchain rfl .refl hcontinues hself hdistinct
  exact ⟨_, _, hcontinues, hlength, hroot, hsame, hsees⟩

end Samples

end OpMove.PastAnswers
