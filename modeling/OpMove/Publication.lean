import OpMove.Forkchoice
import OpMove.Handles
import OpMove.ServedPayloads

/-!
The storage in memory while blocks are written to it. The actor writes receipts, transactions and
the three indices of blocks, and publishes them one after the other; queries are answered by
readers that read one map at a time, between any two steps of the actor. A query that overlaps
a command is answered as it would be before the command or after it.
-/

namespace OpMove.Publication

open Primitives Transactions BlockBuilding BlockAgreement Multimaps BlockStore CommandRuns
open ServedPayloads Forkchoice Handles

section Storage

/-- `SharedMemory` and `ReceiptMemory`. -/
structure Memory where
  receipts : Handle B256 ExtendedReceipt
  transactions : Handle B256 ExtendedTransaction
  hashes : Handle B256 ExtendedBlock
  heights : Handle ℕ ExtendedBlock
  payloadIds : Handle ℕ ExtendedBlock

/-- One call of a map's writer. -/
inductive Action
  | extendReceipts (receipts : List ExtendedReceipt)
  | refreshReceipts
  | extendTransactions (transactions : List ExtendedTransaction)
  | refreshTransactions
  | insertHash (block : ExtendedBlock)
  | insertHeight (block : ExtendedBlock)
  | insertPayloadId (block : ExtendedBlock)
  | refreshHashes
  | refreshHeights
  | refreshPayloadIds

variable (codec : Codec)

def Memory.act (memory : Memory) : Action → Memory
  | .extendReceipts receipts =>
      let entries := receipts.map fun receipt => (receipt.transactionHash, receipt)
      { memory with receipts := memory.receipts.extend entries }
  | .refreshReceipts => { memory with receipts := memory.receipts.refresh }
  | .extendTransactions transactions =>
      let entries := transactions.map fun tx => (tx.hash codec, tx)
      { memory with transactions := memory.transactions.extend entries }
  | .refreshTransactions => { memory with transactions := memory.transactions.refresh }
  | .insertHash block => { memory with hashes := memory.hashes.insert block.hash block }
  | .insertHeight block =>
      { memory with heights := memory.heights.insert block.header.number block }
  | .insertPayloadId block =>
      { memory with payloadIds := memory.payloadIds.insert block.payloadId block }
  | .refreshHashes => { memory with hashes := memory.hashes.refresh }
  | .refreshHeights => { memory with heights := memory.heights.refresh }
  | .refreshPayloadIds => { memory with payloadIds := memory.payloadIds.refresh }

/-- The indices of blocks as readers see them. -/
def Memory.blocks (memory : Memory) : BlockMemory :=
  ⟨memory.hashes.shown, memory.heights.shown, memory.payloadIds.shown⟩

/-- `ReceiptMemory::extend`. -/
def receiptActions (receipts : List ExtendedReceipt) : List Action :=
  [.extendReceipts receipts, .refreshReceipts]

/-- `TransactionMemory::extend`. -/
def transactionActions (transactions : List ExtendedTransaction) : List Action :=
  [.extendTransactions transactions, .refreshTransactions]

/-- `BlockMemory::add`. -/
def blockActions (block : ExtendedBlock) : List Action :=
  [.insertHash block, .insertHeight block, .insertPayloadId block, .refreshHashes, .refreshHeights,
    .refreshPayloadIds]

/-- The end of `start_block_build`. -/
def storeActions {σ : Type} (built : Built σ) : List Action :=
  receiptActions built.receipts ++ transactionActions built.transactions ++ blockActions built.block

def receiptMemory (receipts : List ExtendedReceipt) : Multimap B256 ExtendedReceipt :=
  ⟨receipts.map fun receipt => (receipt.transactionHash, receipt)⟩

/-- The storage of an application in which nothing waits to be published. -/
def Memory.ofApp {σ : Type} (app : App σ) : Memory where
  receipts := .settled (receiptMemory app.receipts)
  transactions := .settled (transactionMemory codec app.transactions)
  hashes := .settled (memoryOf app.blocks).hashes
  heights := .settled (memoryOf app.blocks).heights
  payloadIds := .settled (memoryOf app.blocks).payloadIds

end Storage

section Actor

variable {σ χ : Type} (env : Env σ χ) (pick : List ExtendedBlock → Option ExtendedBlock)

/-- What a command makes of the application, and the writes that go with it. -/
def handleStaged (drained : List Item) (app : App σ) : Command → Option (App σ × List Action)
  | .startBlockBuild attributes id =>
      if ((memoryOf app.blocks).byPayloadId pick id).isSome then some (app, [])
      else (buildBlock env { app with blocks := visible pick app.blocks } attributes id drained).map
        fun built => (app.withBlock built, storeActions built)
  | .addTransaction tx => (addTransaction env app tx).map fun next => (next, [])
  | .genesisUpdate block => some (genesisUpdate app block, blockActions block)

/-- Without the writes it is the command on the application. -/
theorem handleStaged_fst (drained : List Item) (app : App σ) (command : Command) :
    (handleStaged env pick drained app command).map Prod.fst =
      handleInMemory env pick drained app command := by
  cases command with
  | startBlockBuild attributes id =>
    simp only [handleStaged, handleInMemory, buildInMemory]
    split_ifs
    · rfl
    · rw [Option.map_map]
      rfl
  | addTransaction tx =>
    rw [handleStaged, Option.map_map]
    exact Option.map_id'
  | genesisUpdate block => rfl

end Actor

section Readers

/-- What a reader wants to know: a payload by its id or by the hash of its block, or a block with
its transactions. -/
inductive Question
  | byPayloadId (id : ℕ)
  | byHash (hash : B256)
  | byHeight (height : ℕ)
  | latest
  deriving DecidableEq

abbrev BlockAnswer := Option (ExtendedBlock × List ExtendedTransaction)

/-- How far a reader has come. It keeps the number of the command that was finished when it
asked. -/
inductive Reader
  | asked (since : ℕ) (question : Question)
  | resolved (since : ℕ) (height : ℕ)
  | collecting (since : ℕ) (question : Question) (block : ExtendedBlock) (remaining : List B256)
      (found : List ExtendedTransaction)
  | answered (since : ℕ) (question : Question) (answer : BlockAnswer)

variable (pick : List ExtendedBlock → Option ExtendedBlock)
variable (pickTx : List ExtendedTransaction → Option ExtendedTransaction)

/-- The block a question is about, read at once. -/
def blockFor (memory : BlockMemory) : Question → Option ExtendedBlock
  | .byPayloadId id => memory.byPayloadId pick id
  | .byHash hash => memory.byHash pick hash
  | .byHeight height => memory.byHeight pick height
  | .latest => memory.last pick

/-- A block was read, or there is none. -/
def Reader.found (since : ℕ) (question : Question) : Option ExtendedBlock → Reader
  | none => .answered since question none
  | some block => .collecting since question block block.transactions []

/-- The next read of a reader. -/
def Reader.read (memory : Memory) : Reader → Reader
  | .asked since .latest =>
      match memory.blocks.height with
      | none => .answered since .latest none
      | some height => .resolved since height
  | .asked since question => .found since question (blockFor pick memory.blocks question)
  | .resolved since height => .found since .latest (memory.blocks.byHeight pick height)
  | .collecting since question block [] found => .answered since question (some (block, found))
  | .collecting since question block (hash :: remaining) found =>
      .collecting since question block remaining
        (found ++ (memory.transactions.shown.getOne pickTx hash).toList)
  | .answered since question answer => .answered since question answer

/-- The payload that is made of an answer. -/
def payloadOf (codec : Codec) (answer : BlockAnswer) : Option PayloadResponse :=
  answer.map fun pair =>
    .fromBlockWithTransactions codec pair.1 (pair.2.map fun tx => tx.inner)

end Readers

section System

/-- The applications after each command so far, the last one perhaps not published yet, the
storage, the writes left to do and the readers. -/
structure System (σ : Type) where
  apps : List (App σ)
  memory : Memory
  todo : List Action
  readers : List Reader

/-- The number of the last command that is published as a whole. -/
def System.settled {σ : Type} (system : System σ) : ℕ :=
  if system.todo.isEmpty then system.apps.length - 1 else system.apps.length - 2

variable {σ χ : Type} (env : Env σ χ) (pick : List ExtendedBlock → Option ExtendedBlock)
variable (pickTx : List ExtendedTransaction → Option ExtendedTransaction)
variable (genesis : ExtendedBlock)

/-- A genesis update carries the genesis block. -/
def Updates : Command → Prop
  | .genesisUpdate block => block = genesis
  | _ => True

/-- Every interleaving of the actor's steps with the reads of any number of readers. -/
inductive Runs : System σ → Prop
  | initial (state : σ) :
      Runs ⟨[⟨state, [], [], [], []⟩], .ofApp env.codec ⟨state, [], [], [], []⟩, [], []⟩
  | take {system : System σ} {app next : App σ} {command : Command} {actions : List Action}
      {drained : List Item} : Runs system → system.todo = [] → system.apps.getLast? = some app →
      drained.Perm app.memPool → Updates genesis command →
      handleStaged env pick drained app command = some (next, actions) →
      Runs { system with apps := system.apps ++ [next], todo := actions }
  | act {system : System σ} {action : Action} {rest : List Action} : Runs system →
      system.todo = action :: rest →
      Runs { system with memory := system.memory.act env.codec action, todo := rest }
  | ask {system : System σ} (question : Question) : Runs system →
      Runs { system with readers := system.readers ++ [.asked system.settled question] }
  | read {system : System σ} {i : ℕ} {reader : Reader} : Runs system →
      system.readers[i]? = some reader →
      Runs { system with readers := system.readers.set i (reader.read pick pickTx system.memory) }

end System

section Growth

variable {codec : Codec}

/-- In no map is more shown than written. -/
structure Memory.Behind (memory : Memory) : Prop where
  receipts : memory.receipts.Behind
  transactions : memory.transactions.Behind
  hashes : memory.hashes.Behind
  heights : memory.heights.Behind
  payloadIds : memory.payloadIds.Behind

/-- What was shown is still shown. -/
structure Grows (before after : Memory) : Prop where
  receipts : before.receipts.shown.entries ⊆ after.receipts.shown.entries
  transactions : before.transactions.shown.entries ⊆ after.transactions.shown.entries
  heights : before.heights.shown.entries ⊆ after.heights.shown.entries

theorem Grows.refl (memory : Memory) : Grows memory memory :=
  ⟨List.Subset.refl _, List.Subset.refl _, List.Subset.refl _⟩

theorem behind_ofApp {σ : Type} (app : App σ) : (Memory.ofApp codec app).Behind :=
  ⟨Handle.behind_settled _, Handle.behind_settled _, Handle.behind_settled _,
    Handle.behind_settled _, Handle.behind_settled _⟩

theorem Memory.Behind.act {memory : Memory} (h : memory.Behind) (action : Action) :
    (memory.act codec action).Behind := by
  obtain ⟨hreceipts, htransactions, hhashes, hheights, hids⟩ := h
  cases action with
  | extendReceipts receipts => exact ⟨hreceipts.extend _, htransactions, hhashes, hheights, hids⟩
  | refreshReceipts => exact ⟨Handle.behind_refresh _, htransactions, hhashes, hheights, hids⟩
  | extendTransactions transactions =>
    exact ⟨hreceipts, htransactions.extend _, hhashes, hheights, hids⟩
  | refreshTransactions => exact ⟨hreceipts, Handle.behind_refresh _, hhashes, hheights, hids⟩
  | insertHash block => exact ⟨hreceipts, htransactions, hhashes.insert _ _, hheights, hids⟩
  | insertHeight block => exact ⟨hreceipts, htransactions, hhashes, hheights.insert _ _, hids⟩
  | insertPayloadId block => exact ⟨hreceipts, htransactions, hhashes, hheights, hids.insert _ _⟩
  | refreshHashes => exact ⟨hreceipts, htransactions, Handle.behind_refresh _, hheights, hids⟩
  | refreshHeights => exact ⟨hreceipts, htransactions, hhashes, Handle.behind_refresh _, hids⟩
  | refreshPayloadIds =>
    exact ⟨hreceipts, htransactions, hhashes, hheights, Handle.behind_refresh _⟩

theorem Memory.Behind.grows {memory : Memory} (h : memory.Behind) (action : Action) :
    Grows memory (memory.act codec action) := by
  cases action with
  | refreshReceipts => exact ⟨h.receipts, List.Subset.refl _, List.Subset.refl _⟩
  | refreshTransactions => exact ⟨List.Subset.refl _, h.transactions, List.Subset.refl _⟩
  | refreshHeights => exact ⟨List.Subset.refl _, List.Subset.refl _, h.heights⟩
  | _ => exact ⟨List.Subset.refl _, List.Subset.refl _, List.Subset.refl _⟩

end Growth

section Stages

variable {σ χ : Type} {env : Env σ χ} {codec : Codec}

/-- The five maps belong to the new application as far as they are published. -/
structure Shows (codec : Codec) (memory : Memory) (old next : App σ) (stage : ℕ) : Prop where
  receipts : memory.receipts.shown = receiptMemory (if 1 ≤ stage then next else old).receipts
  transactions : memory.transactions.shown =
    transactionMemory codec (if 2 ≤ stage then next else old).transactions
  hashes : memory.hashes.shown = (memoryOf (if 3 ≤ stage then next else old).blocks).hashes
  heights : memory.heights.shown = (memoryOf (if 4 ≤ stage then next else old).blocks).heights
  payloadIds : memory.payloadIds.shown =
    (memoryOf (if 5 ≤ stage then next else old).blocks).payloadIds

/-- The writes that lead from one application to the next. -/
inductive Leads (old : App σ) : App σ → List Action → Prop
  | build (built : Built σ) : Leads old (old.withBlock built) (storeActions built)
  | genesis (block : ExtendedBlock) : Leads old (genesisUpdate old block) (blockActions block)
  | quiet {next : App σ} : next.receipts = old.receipts → next.transactions = old.transactions →
      next.blocks = old.blocks → Leads old next []

def Memory.run (codec : Codec) (memory : Memory) (actions : List Action) : Memory :=
  actions.foldl (Memory.act codec) memory

theorem Memory.run_concat (memory : Memory) (actions : List Action) (action : Action) :
    memory.run codec (actions ++ [action]) = (memory.run codec actions).act codec action := by
  rw [Memory.run, List.foldl_append]
  rfl

theorem memory_withBlock (app : App σ) (built : Built σ) :
    memoryOf (app.withBlock built).blocks = (memoryOf app.blocks).add built.block :=
  memoryOf_append _ _

theorem memory_genesisUpdate (app : App σ) (block : ExtendedBlock) :
    memoryOf (genesisUpdate app block).blocks = (memoryOf app.blocks).add block :=
  memoryOf_append _ _

theorem receipts_withBlock (app : App σ) (built : Built σ) :
    receiptMemory (app.withBlock built).receipts =
      ⟨(receiptMemory app.receipts).entries ++
        built.receipts.map fun receipt => (receipt.transactionHash, receipt)⟩ := by
  simp [receiptMemory, App.withBlock]

theorem transactions_withBlock (codec : Codec) (app : App σ) (built : Built σ) :
    transactionMemory codec (app.withBlock built).transactions =
      ⟨(transactionMemory codec app.transactions).entries ++
        built.transactions.map fun tx => (tx.hash codec, tx)⟩ := by
  simp [transactionMemory, App.withBlock]

/-- After all writes the storage is that of the new application. -/
theorem run_leads {old next : App σ} {actions : List Action} (h : Leads old next actions) :
    (Memory.ofApp codec old).run codec actions = .ofApp codec next := by
  cases h with
  | build built =>
    simp only [Memory.ofApp, memory_withBlock, receipts_withBlock, transactions_withBlock]
    rfl
  | genesis block =>
    simp only [Memory.ofApp, memory_genesisUpdate]
    rfl
  | quiet hreceipts htransactions hblocks =>
    simp only [Memory.ofApp, hreceipts, htransactions, hblocks]
    rfl

/-- How many maps are published after some writes of a build. -/
def buildStage : ℕ → ℕ
  | 0 | 1 => 0
  | 2 | 3 => 1
  | 4 | 5 | 6 | 7 => 2
  | 8 => 3
  | 9 => 4
  | _ => 5

/-- How many maps are published after some writes of a genesis update, which has no receipts and
no transactions to publish. -/
def genesisStage : ℕ → ℕ
  | 0 | 1 | 2 | 3 => 2
  | 4 => 3
  | 5 => 4
  | _ => 5

theorem shows_ofApp (old next : App σ) : Shows codec (.ofApp codec next) old next 5 :=
  ⟨rfl, rfl, rfl, rfl, rfl⟩

theorem shows_build (old : App σ) (built : Built σ) (n : ℕ) :
    Shows codec ((Memory.ofApp codec old).run codec ((storeActions built).take n)) old
      (old.withBlock built) (buildStage n) := by
  have hblocks := memory_withBlock old built
  have hreceipts := receipts_withBlock old built
  have htransactions := transactions_withBlock codec old built
  match n with
  | 0 | 1 | 2 | 3 | 4 | 5 | 6 | 7 | 8 | 9 =>
    constructor <;> simp only [buildStage] <;> norm_num
    all_goals first
      | rfl
      | (rw [hblocks]; rfl)
      | (rw [hreceipts]; rfl)
      | (rw [htransactions]; rfl)
  | n + 10 =>
    have hall : (storeActions built).take (n + 10) = storeActions built :=
      List.take_of_length_le (by simp [storeActions, receiptActions, transactionActions,
        blockActions])
    rw [hall, run_leads (.build built)]
    exact shows_ofApp old _

theorem shows_genesis (old : App σ) (block : ExtendedBlock) (n : ℕ) :
    Shows codec ((Memory.ofApp codec old).run codec ((blockActions block).take n)) old
      (genesisUpdate old block) (genesisStage n) := by
  have hblocks := memory_genesisUpdate old block
  match n with
  | 0 | 1 | 2 | 3 | 4 | 5 =>
    constructor <;> simp only [genesisStage] <;> norm_num
    all_goals first
      | rfl
      | (rw [hblocks]; rfl)
  | n + 6 =>
    have hall : (blockActions block).take (n + 6) = blockActions block :=
      List.take_of_length_le (by simp [blockActions])
    rw [hall, run_leads (.genesis block)]
    exact shows_ofApp old _

/-- Between two writes the maps show the old application or the new one, in the order in which
they are published. -/
theorem shows_of_leads {old next : App σ} {actions : List Action} (h : Leads old next actions)
    (n : ℕ) : ∃ stage,
      Shows codec ((Memory.ofApp codec old).run codec (actions.take n)) old next stage := by
  cases h with
  | build built => exact ⟨_, shows_build old built n⟩
  | genesis block => exact ⟨_, shows_genesis old block n⟩
  | quiet hreceipts htransactions hblocks =>
    refine ⟨5, ?_⟩
    rw [List.take_nil, run_leads (.quiet hreceipts htransactions hblocks)]
    exact shows_ofApp old _

theorem Leads.keeps {old next : App σ} {actions : List Action} (h : Leads old next actions) :
    old.receipts ⊆ next.receipts ∧ old.transactions ⊆ next.transactions ∧
      old.blocks ⊆ next.blocks := by
  cases h with
  | build built =>
    exact ⟨List.subset_append_left _ _, List.subset_append_left _ _, List.subset_append_left _ _⟩
  | genesis block =>
    exact ⟨List.Subset.refl _, List.Subset.refl _, List.subset_append_left _ _⟩
  | quiet hreceipts htransactions hblocks =>
    rw [hreceipts, htransactions, hblocks]
    exact ⟨List.Subset.refl _, List.Subset.refl _, List.Subset.refl _⟩

variable {pick : List ExtendedBlock → Option ExtendedBlock}

theorem leads_of_handled {app next : App σ} {command : Command} {actions : List Action}
    {drained : List Item} (h : handleStaged env pick drained app command = some (next, actions)) :
    Leads app next actions := by
  cases command with
  | startBlockBuild attributes id =>
    rw [handleStaged] at h
    split_ifs at h
    · obtain ⟨rfl, rfl⟩ := Prod.mk.inj (Option.some.inj h)
      exact .quiet rfl rfl rfl
    · obtain ⟨built, -, hpair⟩ := Option.map_eq_some_iff.mp h
      obtain ⟨rfl, rfl⟩ := Prod.mk.inj hpair
      exact .build built
  | addTransaction tx =>
    obtain ⟨added, hadded, hpair⟩ := Option.map_eq_some_iff.mp h
    obtain ⟨rfl, rfl⟩ := Prod.mk.inj hpair
    simp only [addTransaction, Option.bind_eq_bind, Option.bind_eq_some_iff,
      Option.some.injEq] at hadded
    obtain ⟨item, -, rfl⟩ := hadded
    exact .quiet rfl rfl rfl
  | genesisUpdate block =>
    obtain ⟨rfl, rfl⟩ := Prod.mk.inj (Option.some.inj h)
    exact .genesis block

end Stages

section Applications

variable {σ χ : Type} {env : Env σ χ} {pick : List ExtendedBlock → Option ExtendedBlock}
variable {genesis : ExtendedBlock} {app next : App σ}

/-- Every transaction of a stored block is stored, and the blocks are a chain on the genesis
block. -/
structure AppInv (codec : Codec) (genesis : ExtendedBlock) (app : App σ) : Prop where
  complete : ∀ block ∈ app.blocks, ∀ hash ∈ block.transactions,
    ∃ tx ∈ app.transactions, tx.hash codec = hash
  chained : app.blocks = [] ∨ ∃ chain, ChainInv genesis app chain

/-- The transactions of a new block are stored with it. -/
theorem stored_of_built {attributes : Payload} {id : ℕ} {drained : List Item} {built : Built σ}
    (h : buildBlock env app attributes id drained = some built) {hash : B256}
    (hhash : hash ∈ built.block.transactions) :
    ∃ tx ∈ built.transactions, tx.hash env.codec = hash := by
  obtain ⟨parent, baseFee, -, -, hparent, hfee, -, -, -, -, hhashes, -⟩ := buildBlock_spec env h
  obtain ⟨-, hstored⟩ := buildBlock_stored env h hparent hfee
  rw [hhashes] at hhash
  obtain ⟨item, hitem, rfl⟩ := List.mem_map.mp hhash
  obtain ⟨stored, hmem, hinner⟩ := hstored item hitem
  exact ⟨stored, hmem, congrArg env.codec.trieHash hinner⟩

theorem AppInv.complete_append {codec : Codec} {block : ExtendedBlock}
    (h : AppInv codec genesis app) (hblocks : next.blocks = app.blocks ++ [block])
    (htransactions : app.transactions ⊆ next.transactions)
    (hblock : ∀ hash ∈ block.transactions, ∃ tx ∈ next.transactions, tx.hash codec = hash) :
    ∀ block ∈ next.blocks, ∀ hash ∈ block.transactions,
      ∃ tx ∈ next.transactions, tx.hash codec = hash := by
  intro other hother hash hhash
  rw [hblocks] at hother
  rcases List.mem_append.mp hother with hold | hnew
  · obtain ⟨tx, htx, heq⟩ := h.complete other hold hash hhash
    exact ⟨tx, htransactions htx, heq⟩
  · rw [List.mem_singleton.mp hnew] at hhash
    exact hblock hash hhash

/-- There is no parent to build on before the genesis block is stored. -/
theorem buildBlock_of_empty {attributes : Payload} {id : ℕ} {drained : List Item}
    (h : app.blocks = []) :
    buildBlock env { app with blocks := visible pick app.blocks } attributes id drained = none := by
  have hempty : latestBlock (visible pick app.blocks) = none := by
    rw [h]
    rfl
  simp [buildBlock, hempty]

theorem AppInv.handled (hpick : Picks pick) (hnumber : genesis.header.number = 0)
    (hempty : genesis.transactions = []) (h : AppInv env.codec genesis app) {command : Command}
    {actions : List Action} {drained : List Item} (hupdate : Updates genesis command)
    (hstep : handleStaged env pick drained app command = some (next, actions)) :
    AppInv env.codec genesis next := by
  have hinMemory : handleInMemory env pick drained app command = some next := by
    rw [← handleStaged_fst, hstep]
    rfl
  cases command with
  | startBlockBuild attributes id =>
    have hchain : next.blocks = [] ∨ ∃ chain, ChainInv genesis next chain := by
      rcases h.chained with hnone | ⟨chain, hchain⟩
      · rcases buildInMemory_cases hpick hinMemory with ⟨-, rfl⟩ | ⟨-, built, hbuilt, -⟩
        · exact Or.inl hnone
        · rw [buildBlock_of_empty hnone] at hbuilt
          cases hbuilt
      · exact Or.inr ⟨_, hchain.startBlockBuild hpick hinMemory⟩
    refine ⟨?_, hchain⟩
    rcases buildInMemory_cases hpick hinMemory with ⟨-, rfl⟩ | ⟨-, built, hbuilt, rfl⟩
    · exact h.complete
    · refine h.complete_append rfl (List.subset_append_left _ _) fun hash hhash => ?_
      obtain ⟨tx, htx, heq⟩ := stored_of_built hbuilt hhash
      exact ⟨tx, List.mem_append_right _ htx, heq⟩
  | addTransaction tx =>
    have hblocks := addTransaction_blocks hinMemory
    obtain ⟨-, htransactions, -⟩ := (leads_of_handled hstep).keeps
    refine ⟨fun block hblock hash hhash => ?_, ?_⟩
    · rw [hblocks] at hblock
      obtain ⟨stored, hstored, heq⟩ := h.complete block hblock hash hhash
      exact ⟨stored, htransactions hstored, heq⟩
    · rcases h.chained with hnone | ⟨chain, hchain⟩
      · exact Or.inl (hblocks.trans hnone)
      · exact Or.inr ⟨chain, hchain.of_blocks hblocks⟩
  | genesisUpdate block =>
    obtain rfl : block = genesis := hupdate
    obtain rfl := Option.some.inj hinMemory
    refine ⟨h.complete_append rfl (List.Subset.refl _) ?_, Or.inr ?_⟩
    · rw [hempty]
      intro hash hhash
      cases hhash
    · rcases h.chained with hnone | ⟨chain, hchain⟩
      · have hblocks : (genesisUpdate app block).blocks =
            (genesisUpdate ⟨app.state, [], [], [], []⟩ block).blocks := by
          simp [genesisUpdate, hnone]
        exact ⟨[block], (chainInv_start hnumber).of_blocks hblocks⟩
      · exact ⟨chain, hchain.again rfl⟩

end Applications

section Actors

variable {σ χ : Type} {env : Env σ χ} {pick : List ExtendedBlock → Option ExtendedBlock}
variable {pickTx : List ExtendedTransaction → Option ExtendedTransaction}
variable {genesis : ExtendedBlock} {system : System σ}

/-- The storage is on its way from the last application but one to the last one. -/
structure ActorInv (codec : Codec) (genesis : ExtendedBlock) (system : System σ) : Prop where
  position : ∃ old next actions n, system.apps[system.apps.length - 2]? = some old ∧
    system.apps.getLast? = some next ∧ Leads old next actions ∧
    system.todo = actions.drop n ∧
    system.memory = (Memory.ofApp codec old).run codec (actions.take n)
  behind : system.memory.Behind
  apps : ∀ app ∈ system.apps, AppInv codec genesis app
  grown : ∀ last, system.apps.getLast? = some last →
    ∀ app ∈ system.apps, app.transactions ⊆ last.transactions ∧ app.blocks ⊆ last.blocks

theorem actorInv_initial (state : σ) :
    ActorInv env.codec genesis
      ⟨[⟨state, [], [], [], []⟩], .ofApp env.codec ⟨state, [], [], [], []⟩, [], []⟩ := by
  refine ⟨⟨_, _, [], 0, rfl, rfl, .quiet rfl rfl rfl, rfl, rfl⟩, behind_ofApp _, ?_, ?_⟩
  · intro app happ
    rw [List.mem_singleton.mp happ]
    refine ⟨fun block hblock => ?_, Or.inl rfl⟩
    cases hblock
  · intro last hlast app happ
    obtain rfl := Option.some.inj hlast
    rw [List.mem_singleton.mp happ]
    exact ⟨List.Subset.refl _, List.Subset.refl _⟩

/-- With nothing left to write the storage is that of the last application. -/
theorem ActorInv.idle {codec : Codec} (h : ActorInv codec genesis system)
    (htodo : system.todo = []) {last : App σ} (hlast : system.apps.getLast? = some last) :
    system.memory = .ofApp codec last := by
  obtain ⟨old, next, actions, n, -, hnext, hleads, hrest, hmemory⟩ := h.position
  obtain rfl := Option.some.inj (hlast.symm.trans hnext)
  have hlen : actions.length ≤ n := by
    rw [htodo] at hrest
    exact List.drop_eq_nil_iff.mp hrest.symm
  rw [hmemory, List.take_of_length_le hlen, run_leads hleads]

theorem ActorInv.take (hpick : Picks pick) (hnumber : genesis.header.number = 0)
    (hempty : genesis.transactions = []) (h : ActorInv env.codec genesis system)
    (htodo : system.todo = []) {app next : App σ} (hlast : system.apps.getLast? = some app)
    {command : Command} {actions : List Action} {drained : List Item}
    (hupdate : Updates genesis command)
    (hstep : handleStaged env pick drained app command = some (next, actions)) :
    ActorInv env.codec genesis { system with apps := system.apps ++ [next], todo := actions } := by
  have hleads := leads_of_handled hstep
  have happ : app ∈ system.apps := List.mem_of_getLast? hlast
  obtain ⟨-, htransactions, hblocks⟩ := hleads.keeps
  refine ⟨⟨app, next, actions, 0, ?_, ?_, hleads, rfl, ?_⟩, h.behind, ?_, ?_⟩
  · have hpos : 0 < system.apps.length := List.length_pos_of_mem happ
    rw [List.getLast?_eq_getElem?] at hlast
    simp only [List.length_append, List.length_singleton]
    rw [List.getElem?_append_left (by omega)]
    exact hlast
  · simp
  · rw [h.idle htodo hlast]
    rfl
  · intro other hother
    rcases List.mem_append.mp hother with hold | hnew
    · exact h.apps other hold
    · rw [List.mem_singleton.mp hnew]
      exact (h.apps app happ).handled hpick hnumber hempty hupdate hstep
  · intro last hlast' other hother
    obtain rfl : next = last := by simpa using hlast'
    rcases List.mem_append.mp hother with hold | hnew
    · obtain ⟨htxs, hchain⟩ := h.grown app hlast other hold
      exact ⟨List.Subset.trans htxs htransactions, List.Subset.trans hchain hblocks⟩
    · rw [List.mem_singleton.mp hnew]
      exact ⟨List.Subset.refl _, List.Subset.refl _⟩

theorem ActorInv.act {codec : Codec} (h : ActorInv codec genesis system) {action : Action}
    {rest : List Action} (htodo : system.todo = action :: rest) :
    ActorInv codec genesis
      { system with memory := system.memory.act codec action, todo := rest } := by
  obtain ⟨old, next, actions, n, hold, hnext, hleads, hrest, hmemory⟩ := h.position
  rw [htodo] at hrest
  have hget : actions[n]? = some action := by
    rw [← List.head?_drop, ← hrest]
    rfl
  refine ⟨⟨old, next, actions, n + 1, hold, hnext, hleads, ?_, ?_⟩, h.behind.act action, h.apps,
    h.grown⟩
  · rw [← List.drop_drop, ← hrest]
    rfl
  · rw [List.take_add_one, hget, Option.toList_some, Memory.run_concat, ← hmemory]

theorem actorInv_of_runs (hpick : Picks pick) (hnumber : genesis.header.number = 0)
    (hempty : genesis.transactions = []) (hrun : Runs env pick pickTx genesis system) :
    ActorInv env.codec genesis system := by
  induction hrun with
  | initial state => exact actorInv_initial state
  | take _ htodo hlast _ hupdate hstep ih =>
    exact ih.take hpick hnumber hempty htodo hlast hupdate hstep
  | act _ htodo ih => exact ih.act htodo
  | ask question _ ih => exact ⟨ih.position, ih.behind, ih.apps, ih.grown⟩
  | read _ _ ih => exact ⟨ih.position, ih.behind, ih.apps, ih.grown⟩

/-- The last two applications with how far the storage has come between them. -/
theorem ActorInv.shows {codec : Codec} (h : ActorInv codec genesis system) :
    ∃ old next stage, system.apps[system.apps.length - 2]? = some old ∧
      system.apps[system.apps.length - 1]? = some next ∧
      Shows codec system.memory old next stage ∧ (system.todo = [] → stage = 5) ∧
      old.receipts ⊆ next.receipts ∧ old.transactions ⊆ next.transactions ∧
      old.blocks ⊆ next.blocks := by
  obtain ⟨old, next, actions, n, hold, hnext, hleads, hrest, hmemory⟩ := h.position
  have hlast := hnext
  rw [List.getLast?_eq_getElem?] at hlast
  by_cases htodo : system.todo = []
  · refine ⟨old, next, 5, hold, hlast, ?_, fun _ => rfl, hleads.keeps⟩
    rw [h.idle htodo hnext]
    exact shows_ofApp old next
  · obtain ⟨stage, hshows⟩ := shows_of_leads hleads n
    refine ⟨old, next, stage, hold, hlast, ?_, fun hnone => absurd hnone htodo, hleads.keeps⟩
    rw [hmemory]
    exact hshows

end Actors

section Views

variable {σ : Type} {codec : Codec} {genesis : ExtendedBlock} {system : System σ}

/-- An application that is not older than what is published as a whole, and whose transactions
and receipts are all shown. -/
structure Seen (codec : Codec) (system : System σ) (k : ℕ) (app : App σ) : Prop where
  since : system.settled ≤ k
  isApp : system.apps[k]? = some app
  receipts : (receiptMemory app.receipts).entries ⊆ system.memory.receipts.shown.entries
  transactions : (transactionMemory codec app.transactions).entries ⊆
    system.memory.transactions.shown.entries

theorem settled_le_last (system : System σ) : system.settled ≤ system.apps.length - 1 := by
  unfold System.settled
  split_ifs <;> omega

theorem seen_of_shows {old next : App σ} {stage t : ℕ} (ht : 2 ≤ t)
    (hold : system.apps[system.apps.length - 2]? = some old)
    (hnext : system.apps[system.apps.length - 1]? = some next)
    (hshows : Shows codec system.memory old next stage)
    (hidle : system.todo = [] → t ≤ stage)
    (hreceipts : old.receipts ⊆ next.receipts)
    (htransactions : old.transactions ⊆ next.transactions) :
    ∃ k, Seen codec system k (if t ≤ stage then next else old) := by
  have hentriesR : ∀ {a b : List ExtendedReceipt}, a ⊆ b →
      (receiptMemory a).entries ⊆ (receiptMemory b).entries := fun h => List.map_subset _ h
  have hentriesT : ∀ {a b : List ExtendedTransaction}, a ⊆ b →
      (transactionMemory codec a).entries ⊆ (transactionMemory codec b).entries :=
    fun h => List.map_subset _ h
  by_cases hstage : t ≤ stage
  · refine ⟨system.apps.length - 1, settled_le_last system, ?_, ?_, ?_⟩
    · rw [if_pos hstage]
      exact hnext
    · rw [if_pos hstage, hshows.receipts, if_pos (by omega)]
      exact List.Subset.refl _
    · rw [if_pos hstage, hshows.transactions, if_pos (by omega)]
      exact List.Subset.refl _
  · have htodo : system.todo ≠ [] := fun h => hstage (hidle h)
    refine ⟨system.apps.length - 2, ?_, ?_, ?_, ?_⟩
    · simp [System.settled, htodo]
    · rw [if_neg hstage]
      exact hold
    · rw [if_neg hstage, hshows.receipts]
      refine hentriesR ?_
      split_ifs
      · exact hreceipts
      · exact List.Subset.refl _
    · rw [if_neg hstage, hshows.transactions]
      refine hentriesT ?_
      split_ifs
      · exact htransactions
      · exact List.Subset.refl _

variable (h : ActorInv codec genesis system)
include h

theorem seen_hashes : ∃ k app, Seen codec system k app ∧
    system.memory.hashes.shown = (memoryOf app.blocks).hashes := by
  obtain ⟨old, next, stage, hold, hnext, hshows, hidle, hreceipts, htransactions, -⟩ := h.shows
  obtain ⟨k, hseen⟩ := seen_of_shows (t := 3) (by omega) hold hnext hshows
    (fun htodo => by have := hidle htodo; omega) hreceipts htransactions
  exact ⟨k, _, hseen, hshows.hashes⟩

theorem seen_heights : ∃ k app, Seen codec system k app ∧
    system.memory.heights.shown = (memoryOf app.blocks).heights := by
  obtain ⟨old, next, stage, hold, hnext, hshows, hidle, hreceipts, htransactions, -⟩ := h.shows
  obtain ⟨k, hseen⟩ := seen_of_shows (t := 4) (by omega) hold hnext hshows
    (fun htodo => by have := hidle htodo; omega) hreceipts htransactions
  exact ⟨k, _, hseen, hshows.heights⟩

theorem seen_payloadIds : ∃ k app, Seen codec system k app ∧
    system.memory.payloadIds.shown = (memoryOf app.blocks).payloadIds := by
  obtain ⟨old, next, stage, hold, hnext, hshows, hidle, hreceipts, htransactions, -⟩ := h.shows
  obtain ⟨k, hseen⟩ := seen_of_shows (t := 5) (by omega) hold hnext hshows
    (fun htodo => by have := hidle htodo; omega) hreceipts htransactions
  exact ⟨k, _, hseen, hshows.payloadIds⟩

end Views

section Reading

variable {σ χ : Type} {env : Env σ χ} {codec : Codec} {genesis : ExtendedBlock}
variable {pick : List ExtendedBlock → Option ExtendedBlock}
variable {pickTx : List ExtendedTransaction → Option ExtendedTransaction}
variable {system after : System σ}

/-- An application from the time of the question on has the block for an answer. -/
def Dated (pick : List ExtendedBlock → Option ExtendedBlock) (system : System σ) (since : ℕ)
    (question : Question) (block : Option ExtendedBlock) : Prop :=
  ∃ k app, since ≤ k ∧ system.apps[k]? = some app ∧
    blockFor pick (memoryOf app.blocks) question = block

/-- Transactions that are shown under their hashes. -/
def AllShown (codec : Codec) (memory : Memory) (txs : List ExtendedTransaction) : Prop :=
  ∀ tx ∈ txs, (tx.hash codec, tx) ∈ memory.transactions.shown.entries

/-- What a reader knows. -/
def ReaderInv (codec : Codec) (pick : List ExtendedBlock → Option ExtendedBlock)
    (system : System σ) : Reader → Prop
  | .asked since _ => since ≤ system.settled
  | .resolved since height => ∃ block, Dated pick system since .latest (some block) ∧
      (height, block) ∈ system.memory.heights.shown.entries
  | .collecting since question block remaining found =>
      Dated pick system since question (some block) ∧
        (found.map fun tx => tx.hash codec) ++ remaining = block.transactions ∧
        (∀ hash ∈ remaining, ∃ tx, (hash, tx) ∈ system.memory.transactions.shown.entries) ∧
        AllShown codec system.memory found
  | .answered since question none => Dated pick system since question none
  | .answered since question (some (block, txs)) =>
      Dated pick system since question (some block) ∧
        (txs.map fun tx => tx.hash codec) = block.transactions ∧
        AllShown codec system.memory txs

/-- The system has gone on. -/
structure Later (system after : System σ) : Prop where
  apps : system.apps <+: after.apps
  settled : system.settled ≤ after.settled
  memory : Grows system.memory after.memory

theorem Dated.later {since : ℕ} {question : Question} {block : Option ExtendedBlock}
    (h : Dated pick system since question block) (hlater : Later system after) :
    Dated pick after since question block := by
  obtain ⟨k, app, hsince, happ, hblock⟩ := h
  obtain ⟨more, hmore⟩ := hlater.apps
  refine ⟨k, app, hsince, ?_, hblock⟩
  rw [← hmore, List.getElem?_append_left (List.getElem?_eq_some_iff.mp happ).1]
  exact happ

theorem ReaderInv.later {reader : Reader} (h : ReaderInv codec pick system reader)
    (hlater : Later system after) : ReaderInv codec pick after reader := by
  have hshown : ∀ {txs}, AllShown codec system.memory txs → AllShown codec after.memory txs :=
    fun h tx htx => hlater.memory.transactions (h tx htx)
  cases reader with
  | asked since question => exact h.trans hlater.settled
  | resolved since height =>
    obtain ⟨block, hdated, hmem⟩ := h
    exact ⟨block, hdated.later hlater, hlater.memory.heights hmem⟩
  | collecting since question block remaining found =>
    obtain ⟨hdated, hhashes, hremaining, hfound⟩ := h
    refine ⟨hdated.later hlater, hhashes, fun hash hhash => ?_, hshown hfound⟩
    obtain ⟨tx, htx⟩ := hremaining hash hhash
    exact ⟨tx, hlater.memory.transactions htx⟩
  | answered since question answer =>
    match answer with
    | none => exact Dated.later h hlater
    | some (block, txs) =>
      obtain ⟨hdated, hhashes, hfound⟩ := h
      exact ⟨hdated.later hlater, hhashes, hshown hfound⟩

/-- A block that was just read can be completed, since its transactions are shown already. -/
theorem readerInv_found {since : ℕ} {question : Question} {read : Option ExtendedBlock} {k : ℕ}
    {app : App σ} (hseen : Seen codec system k app) (hinv : AppInv codec genesis app)
    (hdated : Dated pick system since question read)
    (hmem : ∀ block, read = some block → block ∈ app.blocks) :
    ReaderInv codec pick system (.found since question read) := by
  cases read with
  | none => exact hdated
  | some block =>
    refine ⟨hdated, rfl, fun hash hhash => ?_, fun tx htx => by cases htx⟩
    obtain ⟨tx, htx, heq⟩ := hinv.complete block (hmem block rfl) hash hhash
    exact ⟨tx, hseen.transactions (List.mem_map.mpr ⟨tx, htx, by rw [heq]⟩)⟩

theorem height_congr {memory other : BlockMemory} (h : memory.heights = other.heights) :
    memory.height = other.height := by
  rw [BlockMemory.height, BlockMemory.height, h]

theorem byHeight_congr {memory other : BlockMemory} (h : memory.heights = other.heights)
    (height : ℕ) : memory.byHeight pick height = other.byHeight pick height := by
  rw [BlockMemory.byHeight, BlockMemory.byHeight, h]

variable (hpick : Picks pick)
include hpick

/-- The latest height is the height of a block. -/
theorem latest_of_height {app : App σ} (hinv : AppInv codec genesis app) {height : ℕ}
    (h : (memoryOf app.blocks).height = some height) :
    ∃ block, (memoryOf app.blocks).last pick = some block ∧
      (height, block) ∈ (memoryOf app.blocks).heights.entries := by
  rcases hinv.chained with hnone | ⟨chain, hchain⟩
  · rw [hnone] at h
    cases h
  · have hpos := hchain.pos
    have hlast : (memoryOf app.blocks).last pick = some (chain[chain.length - 1]) := by
      rw [hchain.last_eq hpick, List.getLast?_eq_getElem?, List.getElem?_eq_getElem (by omega)]
    refine ⟨_, hlast, ?_⟩
    rw [BlockMemory.last, h, Option.bind_some] at hlast
    exact Multimap.mem_of_getOne hpick hlast

/-- A block that is shown under a height is the one that is read there. -/
theorem byHeight_of_mem {app : App σ} (hinv : AppInv codec genesis app) {height : ℕ}
    {block : ExtendedBlock} (hmem : (height, block) ∈ (memoryOf app.blocks).heights.entries) :
    (memoryOf app.blocks).byHeight pick height = some block := by
  obtain ⟨hblock, rfl⟩ := mem_heights.mp hmem
  rcases hinv.chained with hnone | ⟨chain, hchain⟩
  · rw [hnone] at hblock
    cases hblock
  · rw [hchain.byHeight_eq hpick]
    exact hchain.mem_iff.mp hblock

theorem readerInv_asked (h : ActorInv codec genesis system) {since : ℕ} {question : Question}
    (hsince : since ≤ system.settled) :
    ReaderInv codec pick system ((Reader.asked since question).read pick pickTx system.memory) := by
  cases question with
  | byPayloadId id =>
    obtain ⟨k, app, hseen, hshown⟩ := seen_payloadIds h
    have hread : system.memory.blocks.byPayloadId pick id =
        (memoryOf app.blocks).byPayloadId pick id := by
      rw [BlockMemory.byPayloadId, BlockMemory.byPayloadId, Memory.blocks, hshown]
    refine readerInv_found hseen (h.apps app (List.mem_of_getElem? hseen.isApp))
      ⟨k, app, hsince.trans hseen.since, hseen.isApp, hread.symm⟩ fun block hblock => ?_
    exact (mem_payloadIds.mp (Multimap.mem_of_getOne hpick (hread.symm.trans hblock))).1
  | byHash hash =>
    obtain ⟨k, app, hseen, hshown⟩ := seen_hashes h
    have hread : system.memory.blocks.byHash pick hash =
        (memoryOf app.blocks).byHash pick hash := by
      rw [BlockMemory.byHash, BlockMemory.byHash, Memory.blocks, hshown]
    refine readerInv_found hseen (h.apps app (List.mem_of_getElem? hseen.isApp))
      ⟨k, app, hsince.trans hseen.since, hseen.isApp, hread.symm⟩ fun block hblock => ?_
    exact (mem_hashes.mp (Multimap.mem_of_getOne hpick (hread.symm.trans hblock))).1
  | byHeight height =>
    obtain ⟨k, app, hseen, hshown⟩ := seen_heights h
    have hread : system.memory.blocks.byHeight pick height =
        (memoryOf app.blocks).byHeight pick height := byHeight_congr hshown height
    refine readerInv_found hseen (h.apps app (List.mem_of_getElem? hseen.isApp))
      ⟨k, app, hsince.trans hseen.since, hseen.isApp, hread.symm⟩ fun block hblock => ?_
    exact (number_of_byHeight hpick (hread.symm.trans hblock)).1
  | latest =>
    obtain ⟨k, app, hseen, hshown⟩ := seen_heights h
    have hinv := h.apps app (List.mem_of_getElem? hseen.isApp)
    have hread : system.memory.blocks.height = (memoryOf app.blocks).height := height_congr hshown
    cases hheight : system.memory.blocks.height with
    | none =>
      rw [Reader.read, hheight]
      refine ⟨k, app, hsince.trans hseen.since, hseen.isApp, ?_⟩
      rw [blockFor, BlockMemory.last, ← hread, hheight, Option.bind_none]
    | some height =>
      rw [Reader.read, hheight]
      obtain ⟨block, hlast, hmem⟩ := latest_of_height hpick hinv (hread.symm.trans hheight)
      refine ⟨block, ⟨k, app, hsince.trans hseen.since, hseen.isApp, hlast⟩, ?_⟩
      rw [hshown]
      exact hmem

theorem ReaderInv.read (hpickTx : Picks pickTx) (h : ActorInv codec genesis system)
    (hshown : ∀ entry ∈ system.memory.transactions.shown.entries, entry.2.hash codec = entry.1)
    {reader : Reader} (hreader : ReaderInv codec pick system reader) :
    ReaderInv codec pick system (reader.read pick pickTx system.memory) := by
  match reader with
  | .asked since question => exact readerInv_asked hpick h hreader
  | .resolved since height =>
    obtain ⟨block, hdated, hmem⟩ := hreader
    obtain ⟨k, app, hseen, hheights⟩ := seen_heights h
    have hinv := h.apps app (List.mem_of_getElem? hseen.isApp)
    rw [hheights] at hmem
    have hread : system.memory.blocks.byHeight pick height = some block := by
      have hsame : system.memory.blocks.heights = (memoryOf app.blocks).heights := hheights
      rw [byHeight_congr hsame]
      exact byHeight_of_mem hpick hinv hmem
    rw [Reader.read, hread]
    refine readerInv_found hseen hinv hdated fun other hother => ?_
    rw [← Option.some.inj hother]
    exact (mem_heights.mp hmem).1
  | .collecting since question block [] found =>
    obtain ⟨hdated, hhashes, -, hfound⟩ := hreader
    exact ⟨hdated, (List.append_nil _).symm.trans hhashes, hfound⟩
  | .collecting since question block (hash :: remaining) found =>
    obtain ⟨hdated, hhashes, hremaining, hfound⟩ := hreader
    obtain ⟨tx, htx⟩ := hremaining hash List.mem_cons_self
    obtain ⟨got, hgot⟩ := Option.isSome_iff_exists.mp
      ((Multimap.isSome_getOne_iff hpickTx).mpr ⟨tx, htx⟩)
    have hmem := Multimap.mem_of_getOne hpickTx hgot
    have hkey : got.hash codec = hash := hshown _ hmem
    rw [Reader.read, hgot, Option.toList_some]
    refine ⟨hdated, ?_, fun other hother => hremaining other (List.mem_cons_of_mem _ hother), ?_⟩
    · rw [List.map_append, List.map_singleton, hkey, List.append_assoc, List.singleton_append]
      exact hhashes
    · intro other hother
      rcases List.mem_append.mp hother with hold | hnew
      · exact hfound other hold
      · rw [List.mem_singleton.mp hnew, hkey]
        exact hmem
  | .answered since question answer => exact hreader

end Reading

section Overlaps

variable {σ χ : Type} {env : Env σ χ} {codec : Codec} {genesis : ExtendedBlock}
variable {pick : List ExtendedBlock → Option ExtendedBlock}
variable {pickTx : List ExtendedTransaction → Option ExtendedTransaction}
variable {system : System σ}

/-- Transactions are shown under their hashes only, and only those of the last application. -/
theorem ActorInv.shown_transactions (h : ActorInv codec genesis system) {last : App σ}
    (hlast : system.apps.getLast? = some last) :
    system.memory.transactions.shown.entries ⊆
      (transactionMemory codec last.transactions).entries := by
  obtain ⟨old, next, stage, hold, hnext, hshows, -⟩ := h.shows
  have holdMem : old ∈ system.apps := List.mem_of_getElem? hold
  have hnextMem : next ∈ system.apps := List.mem_of_getElem? hnext
  rw [hshows.transactions]
  split_ifs
  · exact List.map_subset _ (h.grown last hlast next hnextMem).1
  · exact List.map_subset _ (h.grown last hlast old holdMem).1

theorem key_of_mem {transactions : List ExtendedTransaction} {entry : B256 × ExtendedTransaction}
    (h : entry ∈ (transactionMemory codec transactions).entries) :
    entry.2.hash codec = entry.1 ∧ entry.2 ∈ transactions := by
  obtain ⟨tx, htx, rfl⟩ := List.mem_map.mp h
  exact ⟨rfl, htx⟩

theorem ActorInv.exists_last (h : ActorInv codec genesis system) :
    ∃ last, system.apps.getLast? = some last := by
  obtain ⟨-, next, -, -, -, hnext, -⟩ := h.position
  exact ⟨next, hnext⟩

theorem readers_of_runs (hpick : Picks pick) (hpickTx : Picks pickTx)
    (hnumber : genesis.header.number = 0) (hempty : genesis.transactions = [])
    (hrun : Runs env pick pickTx genesis system) :
    ∀ reader ∈ system.readers, ReaderInv env.codec pick system reader := by
  induction hrun with
  | initial state =>
    intro reader hreader
    cases hreader
  | @take system app next command actions drained hruns htodo hlast hperm hupdate hstep ih =>
    refine fun reader hreader => (ih reader hreader).later ⟨List.prefix_append _ _, ?_, .refl _⟩
    simp only [System.settled, htodo, List.isEmpty_nil, if_true, List.length_append,
      List.length_singleton]
    split_ifs <;> omega
  | @act system action rest hruns htodo ih =>
    have hinv := actorInv_of_runs hpick hnumber hempty hruns
    refine fun reader hreader => (ih reader hreader).later
      ⟨List.prefix_refl _, ?_, hinv.behind.grows action⟩
    simp only [System.settled, htodo, List.isEmpty_cons, Bool.false_eq_true, if_false]
    split_ifs <;> omega
  | @ask system question hruns ih =>
    intro reader hreader
    rcases List.mem_append.mp hreader with hold | hnew
    · exact (ih reader hold).later ⟨List.prefix_refl _, le_refl _, .refl _⟩
    · rw [List.mem_singleton.mp hnew]
      exact le_refl system.settled
  | @read system i reader hruns hreader ih =>
    have hinv := actorInv_of_runs hpick hnumber hempty hruns
    obtain ⟨last, hlast⟩ := hinv.exists_last
    have hkeys : ∀ entry ∈ system.memory.transactions.shown.entries,
        entry.2.hash env.codec = entry.1 :=
      fun entry hentry => (key_of_mem (hinv.shown_transactions hlast hentry)).1
    intro other hother
    rcases List.mem_or_eq_of_mem_set hother with hold | rfl
    · exact (ih other hold).later ⟨List.prefix_refl _, le_refl _, .refl _⟩
    · exact ((ih reader (List.mem_of_getElem? hreader)).read hpick hpickTx hinv hkeys).later
        ⟨List.prefix_refl _, le_refl _, .refl _⟩

/-- A query is answered as by an application between two commands, at a time when the query was
open, with every transaction of the block. -/
structure AnsweredAt (codec : Codec) (pick : List ExtendedBlock → Option ExtendedBlock)
    (pickTx : List ExtendedTransaction → Option ExtendedTransaction) (system : System σ)
    (since : ℕ) (question : Question) (answer : BlockAnswer) (k : ℕ) (app : App σ) : Prop where
  since : since ≤ k
  isApp : system.apps[k]? = some app
  block : answer.map Prod.fst = blockFor pick (memoryOf app.blocks) question
  complete : ∀ block txs, answer = some (block, txs) →
    (txs.map fun tx => tx.hash codec) = block.transactions
  payload : payloadOf codec answer = (blockFor pick (memoryOf app.blocks) question).map
    (blockIntoPayload codec pickTx app.transactions)

/-- The hashes of transactions tell their encodings. -/
theorem encode2718_of_hashes {transactions : List ExtendedTransaction}
    (hhash : HashesSeparate codec transactions) {a b : List ExtendedTransaction}
    (ha : a ⊆ transactions) (hb : b ⊆ transactions)
    (h : (a.map fun tx => tx.hash codec) = b.map fun tx => tx.hash codec) :
    (a.map fun tx => codec.encode2718 tx.inner) = b.map fun tx => codec.encode2718 tx.inner := by
  induction a generalizing b with
  | nil =>
    obtain rfl : b = [] := List.map_eq_nil_iff.mp h.symm
    rfl
  | cons x a ih =>
    cases b with
    | nil => cases h
    | cons y b =>
      obtain ⟨hhead, htail⟩ := List.cons.inj h
      have hx : x ∈ transactions := ha List.mem_cons_self
      have hy : y ∈ transactions := hb List.mem_cons_self
      rw [List.map_cons, List.map_cons, hhash x hx y hy hhead,
        ih (fun tx htx => ha (List.mem_cons_of_mem _ htx))
          (fun tx htx => hb (List.mem_cons_of_mem _ htx)) htail]

/-- What an application finds for hashes it has transactions for. -/
theorem byHashes_complete (hpickTx : Picks pickTx) {transactions : List ExtendedTransaction}
    {hashes : List B256}
    (h : ∀ hash ∈ hashes, ∃ tx ∈ transactions, tx.hash codec = hash) :
    ((byHashes codec pickTx transactions hashes).map fun tx => tx.hash codec) = hashes ∧
      byHashes codec pickTx transactions hashes ⊆ transactions := by
  induction hashes with
  | nil => exact ⟨rfl, List.nil_subset _⟩
  | cons hash hashes ih =>
    obtain ⟨tx, htx, heq⟩ := h hash List.mem_cons_self
    have hentry : (hash, tx) ∈ (transactionMemory codec transactions).entries :=
      List.mem_map.mpr ⟨tx, htx, by rw [heq]⟩
    obtain ⟨got, hgot⟩ := Option.isSome_iff_exists.mp
      ((Multimap.isSome_getOne_iff hpickTx).mpr ⟨tx, hentry⟩)
    obtain ⟨hkey, hmem⟩ := key_of_mem (Multimap.mem_of_getOne hpickTx hgot)
    obtain ⟨hrest, hsub⟩ := ih fun other hother => h other (List.mem_cons_of_mem _ hother)
    have hcons : byHashes codec pickTx transactions (hash :: hashes) =
        got :: byHashes codec pickTx transactions hashes := List.filterMap_cons_some hgot
    rw [hcons, List.map_cons, hkey, hrest]
    exact ⟨rfl, List.cons_subset.mpr ⟨hmem, hsub⟩⟩

/-- A payload depends on its transactions through their encodings. -/
theorem payload_congr {block : ExtendedBlock} {a b : List ExtendedTransaction}
    (h : (a.map fun tx => codec.encode2718 tx.inner) = b.map fun tx => codec.encode2718 tx.inner) :
    PayloadResponse.fromBlockWithTransactions codec block (a.map fun tx => tx.inner) =
      .fromBlockWithTransactions codec block (b.map fun tx => tx.inner) := by
  simp only [PayloadResponse.fromBlockWithTransactions, ExecutionPayload.fromBlockWithTransactions,
    List.map_map, Function.comp_def, h]

/-- The block an application has for a question is one of its blocks. -/
theorem mem_of_blockFor (hpick : Picks pick) {blocks : List ExtendedBlock} {question : Question}
    {block : ExtendedBlock} (h : blockFor pick (memoryOf blocks) question = some block) :
    block ∈ blocks := by
  cases question with
  | byPayloadId id => exact (mem_payloadIds.mp (Multimap.mem_of_getOne hpick h)).1
  | byHash hash => exact (mem_hashes.mp (Multimap.mem_of_getOne hpick h)).1
  | byHeight height => exact (number_of_byHeight hpick h).1
  | latest =>
    obtain ⟨height, -, hblock⟩ := Option.bind_eq_some_iff.mp h
    exact (number_of_byHeight hpick hblock).1

/-- Queries that overlap the writing of a block see none of it or all of it: whatever the order of
writes and reads, each is answered as the application answers it between two commands, not
before the last command that was finished when the query came. -/
theorem overlapping_query_linearizes (hpick : Picks pick) (hpickTx : Picks pickTx)
    (hnumber : genesis.header.number = 0) (hempty : genesis.transactions = [])
    (hrun : Runs env pick pickTx genesis system) {last : App σ}
    (hlast : system.apps.getLast? = some last) (hhash : HashesSeparate env.codec last.transactions)
    {since : ℕ} {question : Question} {answer : BlockAnswer}
    (hreader : .answered since question answer ∈ system.readers) :
    ∃ k app, AnsweredAt env.codec pick pickTx system since question answer k app := by
  have hactor := actorInv_of_runs hpick hnumber hempty hrun
  have hinv := readers_of_runs hpick hpickTx hnumber hempty hrun _ hreader
  match answer with
  | none =>
    obtain ⟨k, app, hsince, happ, hblock⟩ := hinv
    refine ⟨k, app, hsince, happ, hblock.symm, (fun block txs h => by cases h), ?_⟩
    rw [hblock]
    rfl
  | some (block, txs) =>
    obtain ⟨⟨k, app, hsince, happ, hblock⟩, hhashes, hshown⟩ := hinv
    refine ⟨k, app, hsince, happ, hblock.symm, fun other found h => ?_, ?_⟩
    · obtain ⟨rfl, rfl⟩ := Prod.mk.inj (Option.some.inj h)
      exact hhashes
    · have hmem : app ∈ system.apps := List.mem_of_getElem? happ
      obtain ⟨hcomplete, hsub⟩ := byHashes_complete hpickTx
        ((hactor.apps app hmem).complete block (mem_of_blockFor hpick hblock))
      have htxs : txs ⊆ last.transactions := fun tx htx =>
        (key_of_mem (hactor.shown_transactions hlast (hshown tx htx))).2
      rw [hblock]
      refine congrArg some (payload_congr (encode2718_of_hashes hhash htxs ?_ ?_))
      · exact List.Subset.trans hsub (hactor.grown last hlast app hmem).1
      · rw [hhashes, hcomplete]

/-- Whoever finds a block finds what belongs to it. -/
structure PublishedInOrder (codec : Codec) (pick : List ExtendedBlock → Option ExtendedBlock)
    (genesis : ExtendedBlock) (system : System σ) : Prop where
  byHeight : ∀ id block, system.memory.blocks.byPayloadId pick id = some block →
    system.memory.blocks.byHeight pick block.header.number = some block
  byHash : ∀ height block, system.memory.blocks.byHeight pick height = some block →
    system.memory.blocks.byHash pick block.hash = some block
  contents : ∀ hash block, system.memory.blocks.byHash pick hash = some block →
    ∃ k app, Seen codec system k app ∧ block ∈ app.blocks
  parents : ∀ hash block, system.memory.blocks.byHash pick hash = some block →
    block = genesis ∨ ∃ parent,
      system.memory.blocks.byHash pick block.header.parentHash = some parent ∧
        block.header.number = parent.header.number + 1

/-- Every block but the first has its parent. -/
theorem AppInv.exists_parent {app : App σ} (h : AppInv codec genesis app) {block : ExtendedBlock}
    (hblock : block ∈ app.blocks) :
    block = genesis ∨ ∃ parent ∈ app.blocks, parent.hash = block.header.parentHash ∧
      block.header.number = parent.header.number + 1 := by
  rcases h.chained with hnone | ⟨chain, hchain⟩
  · rw [hnone] at hblock
    cases hblock
  · have hget := hchain.mem_iff.mp hblock
    by_cases hzero : block.header.number = 0
    · rw [hzero, hchain.genesis, Option.some.injEq] at hget
      exact Or.inl hget.symm
    · obtain ⟨n, hn⟩ := Nat.exists_eq_succ_of_ne_zero hzero
      rw [hn] at hget
      have hlt := (List.getElem?_eq_some_iff.mp hget).1
      have hparent : chain[n]? = some chain[n] := List.getElem?_eq_getElem (by omega)
      have hnumber := hchain.numbered n _ hparent
      refine Or.inr ⟨chain[n], hchain.mem_iff.mpr ?_, (hchain.linked n _ _ hparent hget).symm, ?_⟩
      · rw [hnumber]
        exact hparent
      · rw [hn, hnumber]

/-- A block is found under its height and under its hash. -/
theorem AppInv.finds (hpick : Picks pick) {app : App σ} (h : AppInv codec genesis app)
    (hhash : ∀ a ∈ app.blocks, ∀ b ∈ app.blocks, a.header ≠ b.header → a.hash ≠ b.hash)
    {block : ExtendedBlock} (hblock : block ∈ app.blocks) :
    (memoryOf app.blocks).byHeight pick block.header.number = some block ∧
      (memoryOf app.blocks).byHash pick block.hash = some block := by
  refine ⟨byHeight_of_mem hpick h (mem_heights.mpr ⟨hblock, rfl⟩), ?_⟩
  rcases h.chained with hnone | ⟨chain, hchain⟩
  · rw [hnone] at hblock
    cases hblock
  · refine hchain.byHash_eq hpick (fun a ha b hb => ?_) hblock
    exact hhash a ((hchain.stored a).mpr ha) b ((hchain.stored b).mpr hb)

/-- At every moment, also in the middle of a command, a block found under its payload id is found
under its height, one found under its height is found under its hash, and one found under its
hash comes with all its transactions and receipts and a parent that is found too. -/
theorem published_in_order (hpick : Picks pick) (hnumber : genesis.header.number = 0)
    (hempty : genesis.transactions = []) (hrun : Runs env pick pickTx genesis system) {last : App σ}
    (hlast : system.apps.getLast? = some last)
    (hhash : ∀ a ∈ last.blocks, ∀ b ∈ last.blocks, a.header ≠ b.header → a.hash ≠ b.hash) :
    PublishedInOrder env.codec pick genesis system := by
  have hactor := actorInv_of_runs hpick hnumber hempty hrun
  obtain ⟨old, next, stage, hold, hnext, hshows, hidle, hreceipts, htransactions, hblocks⟩ :=
    hactor.shows
  have happ : ∀ t, (if t ≤ stage then next else old) ∈ system.apps := by
    intro t
    split_ifs
    · exact List.mem_of_getElem? hnext
    · exact List.mem_of_getElem? hold
  have hsub : ∀ t, (if t + 1 ≤ stage then next else old).blocks ⊆
      (if t ≤ stage then next else old).blocks := by
    intro t
    split_ifs with h1 h2
    · exact List.Subset.refl _
    · omega
    · exact hblocks
    · exact List.Subset.refl _
  have hfind : ∀ t block, block ∈ (if t ≤ stage then next else old).blocks →
      (memoryOf (if t ≤ stage then next else old).blocks).byHeight pick block.header.number =
        some block ∧
      (memoryOf (if t ≤ stage then next else old).blocks).byHash pick block.hash = some block := by
    intro t block hblock
    have hall := (hactor.grown last hlast _ (happ t)).2
    exact (hactor.apps _ (happ t)).finds hpick
      (fun a ha b hb => hhash a (hall ha) b (hall hb)) hblock
  have hbyHash : ∀ hash, system.memory.blocks.byHash pick hash =
      (memoryOf (if 3 ≤ stage then next else old).blocks).byHash pick hash := fun hash => by
    rw [BlockMemory.byHash, BlockMemory.byHash, Memory.blocks, hshows.hashes]
  have hbyHeight : ∀ height, system.memory.blocks.byHeight pick height =
      (memoryOf (if 4 ≤ stage then next else old).blocks).byHeight pick height :=
    byHeight_congr hshows.heights
  have hmem : ∀ hash block, system.memory.blocks.byHash pick hash = some block →
      block ∈ (if 3 ≤ stage then next else old).blocks := by
    intro hash block h
    rw [hbyHash] at h
    exact (mem_hashes.mp (Multimap.mem_of_getOne hpick h)).1
  refine ⟨?_, ?_, ?_, ?_⟩
  · intro id block h
    rw [BlockMemory.byPayloadId, Memory.blocks, hshows.payloadIds] at h
    have hblock := (mem_payloadIds.mp (Multimap.mem_of_getOne hpick h)).1
    rw [hbyHeight]
    exact (hfind 4 block (hsub 4 hblock)).1
  · intro height block h
    rw [hbyHeight] at h
    have hblock := (number_of_byHeight hpick h).1
    rw [hbyHash]
    exact (hfind 3 block (hsub 3 hblock)).2
  · intro hash block h
    obtain ⟨k, hseen⟩ := seen_of_shows (t := 3) (by omega) hold hnext hshows
      (fun htodo => by have := hidle htodo; omega) hreceipts htransactions
    exact ⟨k, _, hseen, hmem hash block h⟩
  · intro hash block h
    rcases (hactor.apps _ (happ 3)).exists_parent (hmem hash block h) with
      heq | ⟨parent, hparent, hlink, hnum⟩
    · exact Or.inl heq
    · refine Or.inr ⟨parent, ?_, hnum⟩
      rw [hbyHash, ← hlink]
      exact (hfind 3 parent hparent).2

end Overlaps

section Samples

theorem runs_published {system : System Unit} {pick : List ExtendedBlock → Option ExtendedBlock}
    {pickTx : List ExtendedTransaction → Option ExtendedTransaction} {genesis : ExtendedBlock}
    {actions rest : List Action} (h : Runs sampleEnv pick pickTx genesis system)
    (htodo : system.todo = actions ++ rest) :
    Runs sampleEnv pick pickTx genesis
      { system with memory := system.memory.run sampleEnv.codec actions, todo := rest } := by
  induction actions generalizing system with
  | nil =>
    obtain ⟨apps, memory, todo, readers⟩ := system
    obtain rfl : todo = rest := htodo
    exact h
  | cons action actions ih => exact ih (.act h htodo) rfl

def emptyApp : App Unit := ⟨(), [], [], [], []⟩

/-- The genesis block is published and a query for a payload has come. -/
def asking : System Unit where
  apps := [emptyApp, genesisUpdate emptyApp sampleGenesis]
  memory := (Memory.ofApp sampleEnv.codec emptyApp).run sampleEnv.codec (blockActions sampleGenesis)
  todo := []
  readers := [.asked 1 (.byPayloadId 1)]

theorem runs_asking : Runs sampleEnv List.head? List.head? sampleGenesis asking := by
  have hstart : Runs sampleEnv List.head? List.head? sampleGenesis
      ⟨[emptyApp], .ofApp sampleEnv.codec emptyApp, [], []⟩ := .initial ()
  have hupdate : Updates sampleGenesis (.genesisUpdate sampleGenesis) := rfl
  have hstep : handleStaged sampleEnv List.head? [] emptyApp (.genesisUpdate sampleGenesis) =
      some (genesisUpdate emptyApp sampleGenesis, blockActions sampleGenesis) := rfl
  have htaken := Runs.take hstart rfl rfl (.refl _) hupdate hstep
  exact .ask (.byPayloadId 1) (runs_published htaken (List.append_nil _).symm)

/-- The build of the sample block. -/
def sampleBuild : Option (App Unit × List Action) :=
  handleStaged sampleEnv List.head? [] (genesisUpdate emptyApp sampleGenesis)
    (.startBlockBuild (samplePayload [sampleBytes]) 1)

theorem runs_building {next : App Unit} {actions : List Action}
    (hbuild : sampleBuild = some (next, actions)) (n : ℕ) :
    Runs sampleEnv List.head? List.head? sampleGenesis
      ⟨asking.apps ++ [next], asking.memory.run sampleEnv.codec (actions.take n), actions.drop n,
        asking.readers⟩ := by
  have hany : Updates sampleGenesis (.startBlockBuild (samplePayload [sampleBytes]) 1) := trivial
  have htaken := Runs.take runs_asking rfl rfl (.refl _) hany hbuild
  exact runs_published htaken (List.take_append_drop n actions).symm

/-- A query that reads once the block is published. -/
def lateReader (actions : List Action) : Reader :=
  let memory := asking.memory.run sampleEnv.codec (actions.take 10)
  (((Reader.asked 1 (.byPayloadId 1)).read List.head? List.head? memory).read
    List.head? List.head? memory).read List.head? List.head? memory

/-- The answer of the query, if it has one. -/
def lateAnswer : Reader → Option BlockAnswer
  | .answered 1 (.byPayloadId 1) answer => some answer
  | _ => none

/-- After eight writes the block is found under its hash and not yet under its payload id. -/
def HalfPublished (next : App Unit) (actions : List Action) : Prop :=
  let blocks := (asking.memory.run sampleEnv.codec (actions.take 8)).blocks
  blocks.byPayloadId List.head? 1 = none ∧
    ∃ block ∈ next.blocks, block.payloadId = 1 ∧ blocks.byHash List.head? block.hash = some block

instance (next : App Unit) (actions : List Action) : Decidable (HalfPublished next actions) :=
  inferInstanceAs (Decidable (_ ∧ ∃ block ∈ next.blocks, _))

theorem sampleBuild_spec : ∃ next actions answer, sampleBuild = some (next, actions) ∧
    HashesSeparate sampleEnv.codec next.transactions ∧
    (∀ a ∈ next.blocks, ∀ b ∈ next.blocks, a.header ≠ b.header → a.hash ≠ b.hash) ∧
    HalfPublished next actions ∧
    lateReader actions = .answered 1 (.byPayloadId 1) (some answer) := by
  have hbuild : sampleBuild.map (fun pair => decide (HashesSeparate sampleEnv.codec
      pair.1.transactions ∧ (∀ a ∈ pair.1.blocks, ∀ b ∈ pair.1.blocks, a.header ≠ b.header →
        a.hash ≠ b.hash) ∧ HalfPublished pair.1 pair.2 ∧
          ((lateAnswer (lateReader pair.2)).map Option.isSome) = some true)) = some true := by
    decide +kernel
  obtain ⟨⟨next, actions⟩, hpair, hall⟩ := Option.map_eq_some_iff.mp hbuild
  obtain ⟨hhash, hblocks, hhalf, hanswer⟩ := of_decide_eq_true hall
  obtain ⟨answer, hread, hsome⟩ := Option.map_eq_some_iff.mp hanswer
  obtain ⟨found, rfl⟩ := Option.isSome_iff_exists.mp hsome
  refine ⟨next, actions, found, hpair, hhash, hblocks, hhalf, ?_⟩
  unfold lateAnswer at hread
  split at hread
  · rename_i heq
    rw [heq, Option.some.inj hread]
  · cases hread

/-- The query comes before the build and is answered after it. -/
theorem overlapping_query_linearizes_sample : ∃ system answer k app,
    Runs sampleEnv List.head? List.head? sampleGenesis system ∧
      .answered 1 (.byPayloadId 1) (some answer) ∈ system.readers ∧
      AnsweredAt sampleEnv.codec List.head? List.head? system 1 (.byPayloadId 1) (some answer)
        k app := by
  obtain ⟨next, actions, answer, hbuild, hhash, -, -, hreader⟩ := sampleBuild_spec
  have hbuilt := runs_building hbuild 10
  have hrun := Runs.read (i := 0) (Runs.read (i := 0) (Runs.read (i := 0) hbuilt rfl) rfl) rfl
  have hmem : .answered 1 (.byPayloadId 1) (some answer) ∈ [lateReader actions] := by
    rw [hreader]
    exact List.mem_singleton_self _
  obtain ⟨k, app, hat⟩ := overlapping_query_linearizes picks_head picks_head rfl rfl hrun
    List.getLast?_concat hhash hmem
  exact ⟨_, answer, k, app, hrun, hmem, hat⟩

/-- A moment at which the block has one of its three index entries. -/
theorem published_in_order_sample : ∃ system next actions,
    Runs sampleEnv List.head? List.head? sampleGenesis system ∧ HalfPublished next actions ∧
      system.memory = asking.memory.run sampleEnv.codec (actions.take 8) ∧
      PublishedInOrder sampleEnv.codec List.head? sampleGenesis system := by
  obtain ⟨next, actions, -, hbuild, -, hhash, hhalf, -⟩ := sampleBuild_spec
  have hrun := runs_building hbuild 8
  exact ⟨_, next, actions, hrun, hhalf, rfl,
    published_in_order picks_head rfl rfl hrun List.getLast?_concat hhash⟩

end Samples

end OpMove.Publication
