import OpMove.BlockAgreement
import OpMove.Multimaps

/-!
The block storage in memory: three indices over the same blocks, by hash, by height and by
payload id, all of them maps with many values for a key. The latest height is one less than
the number of heights. The builder reads its parent and the hashes of older blocks through
the index of heights.
-/

namespace OpMove.BlockStore

open Primitives Transactions BlockBuilding BlockAgreement Multimaps

section Storage

structure BlockMemory where
  hashes : Multimap B256 ExtendedBlock
  heights : Multimap ℕ ExtendedBlock
  payloadIds : Multimap ℕ ExtendedBlock

namespace BlockMemory

def new : BlockMemory := ⟨.empty, .empty, .empty⟩

def add (memory : BlockMemory) (block : ExtendedBlock) : BlockMemory where
  hashes := memory.hashes.insert block.hash block
  heights := memory.heights.insert block.header.number block
  payloadIds := memory.payloadIds.insert block.payloadId block

variable (pick : List ExtendedBlock → Option ExtendedBlock) (memory : BlockMemory)

def byHash (hash : B256) : Option ExtendedBlock := memory.hashes.getOne pick hash

def byPayloadId (id : ℕ) : Option ExtendedBlock := memory.payloadIds.getOne pick id

def byHeight (height : ℕ) : Option ExtendedBlock := memory.heights.getOne pick height

def height : Option ℕ := if memory.heights.len = 0 then none else some (memory.heights.len - 1)

def last : Option ExtendedBlock := memory.height.bind (memory.byHeight pick)

end BlockMemory

/-- The storage after the blocks were added one after the other. -/
def memoryOf (blocks : List ExtendedBlock) : BlockMemory := blocks.foldl .add .new

theorem memoryOf_append (blocks : List ExtendedBlock) (block : ExtendedBlock) :
    memoryOf (blocks ++ [block]) = (memoryOf blocks).add block := by
  simp [memoryOf]

theorem entries_memoryOf (blocks : List ExtendedBlock) :
    (memoryOf blocks).hashes.entries = blocks.map (fun block => (block.hash, block)) ∧
      (memoryOf blocks).heights.entries =
        blocks.map (fun block => (block.header.number, block)) ∧
      (memoryOf blocks).payloadIds.entries =
        blocks.map (fun block => (block.payloadId, block)) := by
  induction blocks using List.reverseRecOn with
  | nil => exact ⟨rfl, rfl, rfl⟩
  | append_singleton blocks block ih =>
    obtain ⟨hhashes, hheights, hids⟩ := ih
    rw [memoryOf_append]
    simp [BlockMemory.add, Multimap.insert, hhashes, hheights, hids]

section Entries

variable {blocks : List ExtendedBlock} {block : ExtendedBlock}

theorem mem_hashes {hash : B256} :
    (hash, block) ∈ (memoryOf blocks).hashes.entries ↔ block ∈ blocks ∧ block.hash = hash := by
  rw [(entries_memoryOf blocks).1]
  simp

theorem mem_heights {height : ℕ} :
    (height, block) ∈ (memoryOf blocks).heights.entries ↔
      block ∈ blocks ∧ block.header.number = height := by
  rw [(entries_memoryOf blocks).2.1]
  simp

theorem mem_payloadIds {id : ℕ} :
    (id, block) ∈ (memoryOf blocks).payloadIds.entries ↔
      block ∈ blocks ∧ block.payloadId = id := by
  rw [(entries_memoryOf blocks).2.2]
  simp

end Entries

end Storage

section Reading

variable {pick : List ExtendedBlock → Option ExtendedBlock} (hpick : Picks pick)
variable {blocks : List ExtendedBlock} {block : ExtendedBlock}

/-- The blocks a reader of the index of heights can see, one for each height. -/
def visible (pick : List ExtendedBlock → Option ExtendedBlock) (blocks : List ExtendedBlock) :
    List ExtendedBlock :=
  (memoryOf blocks).heights.keys.filterMap ((memoryOf blocks).byHeight pick)

include hpick

theorem number_of_byHeight {height : ℕ} (h : (memoryOf blocks).byHeight pick height = some block) :
    block ∈ blocks ∧ block.header.number = height :=
  mem_heights.mp (Multimap.mem_of_getOne hpick h)

theorem map_number_visible : (visible pick blocks).map (fun block => block.header.number) =
    (memoryOf blocks).heights.keys := by
  unfold visible
  rw [List.map_filterMap]
  have hall : ∀ height ∈ (memoryOf blocks).heights.keys,
      ((memoryOf blocks).byHeight pick height).map (fun block => block.header.number) =
        some height := by
    intro height hheight
    obtain ⟨found, hfound⟩ := Option.isSome_iff_exists.mp
      ((Multimap.isSome_getOne_iff hpick).mpr (Multimap.mem_keys.mp hheight))
    have hbyHeight : (memoryOf blocks).byHeight pick height = some found := hfound
    rw [hbyHeight, Option.map_some, (number_of_byHeight hpick hbyHeight).2]
  rw [List.filterMap_congr hall, List.filterMap_some]

theorem mem_visible : block ∈ visible pick blocks ↔
    (memoryOf blocks).byHeight pick block.header.number = some block := by
  unfold visible
  rw [List.mem_filterMap]
  constructor
  · rintro ⟨height, -, h⟩
    rw [(number_of_byHeight hpick h).2]
    exact h
  · intro h
    refine ⟨block.header.number, Multimap.mem_keys.mpr ⟨block, ?_⟩, h⟩
    exact mem_heights.mpr (number_of_byHeight hpick h)

theorem find_visible (height : ℕ) :
    (visible pick blocks).find? (fun block => block.header.number = height) =
      (memoryOf blocks).byHeight pick height := by
  cases hfind : (visible pick blocks).find? fun block => block.header.number = height with
  | some found =>
    have hnumber : found.header.number = height := by
      simpa using List.find?_some hfind
    have hmem := (mem_visible hpick).mp (List.mem_of_find?_eq_some hfind)
    rw [hnumber] at hmem
    exact hmem.symm
  | none =>
    cases hread : (memoryOf blocks).byHeight pick height with
    | none => rfl
    | some found =>
      exfalso
      have hnumber := (number_of_byHeight hpick hread).2
      have hmem : found ∈ visible pick blocks := by
        rw [mem_visible hpick, hnumber]
        exact hread
      have hno := List.find?_eq_none.mp hfind found hmem
      simp [hnumber] at hno

/-- What the builder takes for the latest block is what `last` returns. -/
theorem latestBlock_visible :
    latestBlock (visible pick blocks) = (memoryOf blocks).last pick := by
  have hlen : ((visible pick blocks).map fun block => block.header.number).dedup.length =
      (memoryOf blocks).heights.len := by
    rw [map_number_visible hpick, (Multimap.nodup_keys _).dedup]
    rfl
  unfold latestBlock BlockMemory.last BlockMemory.height
  rw [hlen]
  dsimp only
  split_ifs with hzero
  · rfl
  · exact find_visible hpick _

end Reading

section Commands

variable {σ χ : Type} (env : Env σ χ)

/-- `start_block_build` over the storage: a known payload id ends it at once, else the block is
built on what is visible. -/
def buildInMemory (pick : List ExtendedBlock → Option ExtendedBlock) (app : App σ)
    (attributes : Payload) (id : ℕ) (drained : List Item) : Option (App σ) :=
  if ((memoryOf app.blocks).byPayloadId pick id).isSome then some app
  else (buildBlock env { app with blocks := visible pick app.blocks } attributes id drained).map
    app.withBlock

/-- The blocks a command has added. -/
def addedBlocks (app next : App σ) : List ExtendedBlock := next.blocks.drop app.blocks.length

/-- The runs that begin with a genesis block and update it with nothing else, beside the
blocks of the chain in the order they were made. -/
inductive ChainRuns (pick : List ExtendedBlock → Option ExtendedBlock) (state : σ)
    (genesis : ExtendedBlock) : App σ → List ExtendedBlock → Prop
  | start : ChainRuns pick state genesis (genesisUpdate ⟨state, [], [], [], []⟩ genesis) [genesis]
  | startBlockBuild {app next : App σ} {chain : List ExtendedBlock} {attributes : Payload}
      {id : ℕ} {drained : List Item} : ChainRuns pick state genesis app chain →
      drained.Perm app.memPool → buildInMemory env pick app attributes id drained = some next →
      ChainRuns pick state genesis next (chain ++ addedBlocks app next)
  | addTransaction {app next : App σ} {chain : List ExtendedBlock} {tx : TxEnvelope} :
      ChainRuns pick state genesis app chain → addTransaction env app tx = some next →
      ChainRuns pick state genesis next chain
  | genesisUpdate {app : App σ} {chain : List ExtendedBlock} :
      ChainRuns pick state genesis app chain →
      ChainRuns pick state genesis (genesisUpdate app genesis) chain

end Commands

section Chains

variable {σ χ : Type} {env : Env σ χ} {pick : List ExtendedBlock → Option ExtendedBlock}
variable {state : σ} {genesis : ExtendedBlock} {app : App σ} {chain : List ExtendedBlock}

/-- The stored blocks are those of a chain that is numbered from zero and linked by hashes. -/
structure ChainInv (genesis : ExtendedBlock) (app : App σ) (chain : List ExtendedBlock) :
    Prop where
  genesis : chain[0]? = some genesis
  stored : ∀ block : ExtendedBlock, block ∈ app.blocks ↔ block ∈ chain
  numbered : ∀ (i : ℕ) (block : ExtendedBlock), chain[i]? = some block → block.header.number = i
  linked : ∀ (i : ℕ) (parent child : ExtendedBlock), chain[i]? = some parent →
    chain[i + 1]? = some child → child.header.parentHash = parent.hash
  ids : (chain.map fun block => block.payloadId).Nodup

namespace ChainInv

variable (h : ChainInv genesis app chain)
include h

theorem mem_iff {block : ExtendedBlock} :
    block ∈ app.blocks ↔ chain[block.header.number]? = some block := by
  rw [h.stored, List.mem_iff_getElem?]
  constructor
  · rintro ⟨i, hi⟩
    rw [h.numbered i block hi]
    exact hi
  · exact fun hget => ⟨_, hget⟩

theorem mem_keys_iff {height : ℕ} :
    height ∈ (memoryOf app.blocks).heights.keys ↔ height < chain.length := by
  rw [Multimap.mem_keys]
  constructor
  · rintro ⟨block, hblock⟩
    obtain ⟨hmem, rfl⟩ := mem_heights.mp hblock
    exact (List.getElem?_eq_some_iff.mp (h.mem_iff.mp hmem)).1
  · intro hlt
    have hget : chain[height]? = some chain[height] := List.getElem?_eq_getElem hlt
    have hnumber := h.numbered height _ hget
    refine ⟨chain[height], mem_heights.mpr ⟨h.mem_iff.mpr ?_, hnumber⟩⟩
    rw [hnumber]
    exact hget

theorem len_eq : (memoryOf app.blocks).heights.len = chain.length :=
  Multimap.len_eq_of_keys fun _ => h.mem_keys_iff

theorem pos : 0 < chain.length := (List.getElem?_eq_some_iff.mp h.genesis).1

theorem height_eq : (memoryOf app.blocks).height = some (chain.length - 1) := by
  have hpos := h.pos
  rw [BlockMemory.height, h.len_eq, if_neg (by omega)]

/-- Whatever value of a height is picked, it is the block of the chain. -/
theorem byHeight_eq (hpick : Picks pick) (height : ℕ) :
    (memoryOf app.blocks).byHeight pick height = chain[height]? := by
  cases hget : chain[height]? with
  | some block =>
    have hnumber := h.numbered height block hget
    refine Multimap.getOne_eq_some hpick (mem_heights.mpr ⟨?_, hnumber⟩) fun other hother => ?_
    · rw [h.mem_iff, hnumber]
      exact hget
    · obtain ⟨hmem, hsame⟩ := mem_heights.mp hother
      have hother := h.mem_iff.mp hmem
      rw [hsame, hget, Option.some.injEq] at hother
      exact hother.symm
  | none =>
    cases hread : (memoryOf app.blocks).byHeight pick height with
    | none => rfl
    | some block =>
      obtain ⟨hmem, hnumber⟩ := number_of_byHeight hpick hread
      have hfound := h.mem_iff.mp hmem
      rw [hnumber, hget] at hfound
      cases hfound

theorem last_eq (hpick : Picks pick) : (memoryOf app.blocks).last pick = chain.getLast? := by
  rw [BlockMemory.last, h.height_eq, Option.bind_some, h.byHeight_eq hpick,
    List.getLast?_eq_getElem?]

theorem byPayloadId_eq (hpick : Picks pick) {block : ExtendedBlock} (hblock : block ∈ app.blocks) :
    (memoryOf app.blocks).byPayloadId pick block.payloadId = some block := by
  refine Multimap.getOne_eq_some hpick (mem_payloadIds.mpr ⟨hblock, rfl⟩) fun other hother => ?_
  obtain ⟨hmem, hsame⟩ := mem_payloadIds.mp hother
  exact List.inj_on_of_nodup_map h.ids ((h.stored other).mp hmem) ((h.stored block).mp hblock) hsame

/-- Blocks of different heights have different headers, so a hash belongs to one block. -/
theorem byHash_eq (hpick : Picks pick)
    (hhash : ∀ a ∈ chain, ∀ b ∈ chain, a.header ≠ b.header → a.hash ≠ b.hash)
    {block : ExtendedBlock} (hblock : block ∈ app.blocks) :
    (memoryOf app.blocks).byHash pick block.hash = some block := by
  refine Multimap.getOne_eq_some hpick (mem_hashes.mpr ⟨hblock, rfl⟩) fun other hother => ?_
  obtain ⟨hmem, hsame⟩ := mem_hashes.mp hother
  have hheader : other.header = block.header := by
    by_contra hne
    exact hhash other ((h.stored other).mp hmem) block ((h.stored block).mp hblock) hne hsame
  have hget := h.mem_iff.mp hmem
  rw [hheader, h.mem_iff.mp hblock, Option.some.injEq] at hget
  exact hget.symm

/-- A block on top of the last one, under a payload id of its own. -/
theorem append {parent block : ExtendedBlock} {next : App σ} (hparent : chain.getLast? = some parent)
    (hhash : block.header.parentHash = parent.hash)
    (hnumber : block.header.number = parent.header.number + 1)
    (hid : ∀ other ∈ app.blocks, other.payloadId ≠ block.payloadId)
    (hblocks : next.blocks = app.blocks ++ [block]) : ChainInv genesis next (chain ++ [block]) := by
  have hpos := h.pos
  rw [List.getLast?_eq_getElem?] at hparent
  have htop := h.numbered _ parent hparent
  refine ⟨?_, ?_, ?_, ?_, ?_⟩
  · rw [List.getElem?_append_left hpos]
    exact h.genesis
  · intro other
    rw [hblocks, List.mem_append, List.mem_append, h.stored other]
  · intro i other hother
    rcases getElem?_concat_cases hother with hold | ⟨rfl, rfl⟩
    · exact h.numbered i other hold
    · omega
  · intro i below above hbelow habove
    rcases getElem?_concat_cases habove with hold | ⟨hlast, rfl⟩
    · have hlt := (List.getElem?_eq_some_iff.mp hold).1
      rw [List.getElem?_append_left (by omega)] at hbelow
      exact h.linked i below above hbelow hold
    · obtain rfl : i = chain.length - 1 := by omega
      rw [List.getElem?_append_left (by omega), hparent, Option.some.injEq] at hbelow
      subst hbelow
      exact hhash
  · rw [List.map_append, List.nodup_append]
    refine ⟨h.ids, by simp, ?_⟩
    intro id hmem other hother
    obtain ⟨stored, hstored, rfl⟩ := List.mem_map.mp hmem
    obtain rfl : other = block.payloadId := by simpa using hother
    exact hid stored ((h.stored stored).mpr hstored)

/-- The genesis block is stored once more. -/
theorem again {next : App σ} (hblocks : next.blocks = app.blocks ++ [genesis]) :
    ChainInv genesis next chain := by
  refine ⟨h.genesis, fun block => ?_, h.numbered, h.linked, h.ids⟩
  rw [hblocks, List.mem_append, h.stored block, List.mem_singleton]
  constructor
  · rintro (hmem | rfl)
    · exact hmem
    · exact List.mem_of_getElem? h.genesis
  · exact Or.inl

theorem of_blocks {next : App σ} (hblocks : next.blocks = app.blocks) :
    ChainInv genesis next chain := by
  refine ⟨h.genesis, fun block => ?_, h.numbered, h.linked, h.ids⟩
  rw [hblocks]
  exact h.stored block

end ChainInv

theorem chainInv_start (hnumber : genesis.header.number = 0) :
    ChainInv genesis (genesisUpdate ⟨state, [], [], [], []⟩ genesis) [genesis] := by
  refine ⟨rfl, fun block => by simp [genesisUpdate], ?_, ?_, by simp⟩
  · intro i block hblock
    obtain ⟨rfl, rfl⟩ : i = 0 ∧ genesis = block := by simpa [List.getElem?_singleton] using hblock
    exact hnumber
  · intro i parent child _ hchild
    simp at hchild

theorem isSome_byPayloadId_iff (hpick : Picks pick) {id : ℕ} :
    ((memoryOf app.blocks).byPayloadId pick id).isSome ↔
      ∃ block ∈ app.blocks, block.payloadId = id := by
  rw [BlockMemory.byPayloadId, Multimap.isSome_getOne_iff hpick]
  simp only [mem_payloadIds]

/-- A known payload id leaves everything as it is; else one block is built and stored. -/
theorem buildInMemory_cases (hpick : Picks pick) {next : App σ} {attributes : Payload} {id : ℕ}
    {drained : List Item} (h : buildInMemory env pick app attributes id drained = some next) :
    ((∃ block ∈ app.blocks, block.payloadId = id) ∧ next = app) ∨
      ((∀ block ∈ app.blocks, block.payloadId ≠ id) ∧ ∃ built,
        buildBlock env { app with blocks := visible pick app.blocks } attributes id drained =
          some built ∧ next = app.withBlock built) := by
  unfold buildInMemory at h
  split_ifs at h with hknown
  · exact Or.inl ⟨(isSome_byPayloadId_iff hpick).mp hknown, (Option.some.inj h).symm⟩
  · obtain ⟨built, hbuilt, rfl⟩ := Option.map_eq_some_iff.mp h
    refine Or.inr ⟨fun block hblock hid => ?_, built, hbuilt, rfl⟩
    exact hknown ((isSome_byPayloadId_iff hpick).mpr ⟨block, hblock, hid⟩)

theorem addedBlocks_self : addedBlocks app app = [] := List.drop_length

theorem addedBlocks_withBlock (built : Built σ) :
    addedBlocks app (app.withBlock built) = [built.block] := by
  simp [addedBlocks, App.withBlock]

theorem addTransaction_blocks {next : App σ} {tx : TxEnvelope}
    (h : addTransaction env app tx = some next) : next.blocks = app.blocks := by
  simp only [addTransaction, Option.bind_eq_bind, Option.bind_eq_some_iff, Option.some.injEq] at h
  obtain ⟨item, -, rfl⟩ := h
  rfl

theorem ChainInv.startBlockBuild (hpick : Picks pick) (h : ChainInv genesis app chain)
    {next : App σ} {attributes : Payload} {id : ℕ} {drained : List Item}
    (hbuild : buildInMemory env pick app attributes id drained = some next) :
    ChainInv genesis next (chain ++ addedBlocks app next) := by
  rcases buildInMemory_cases hpick hbuild with ⟨-, rfl⟩ | ⟨hfresh, built, hbuilt, rfl⟩
  · rw [addedBlocks_self, List.append_nil]
    exact h
  · obtain ⟨parent, hparent, hhash, hnumber, hid, -⟩ := buildBlock_block env hbuilt
    have hparent : latestBlock (visible pick app.blocks) = some parent := hparent
    rw [latestBlock_visible hpick, h.last_eq hpick] at hparent
    rw [addedBlocks_withBlock]
    exact h.append hparent hhash hnumber (hid ▸ hfresh) rfl

theorem chainInv_of_runs (hpick : Picks pick) (hnumber : genesis.header.number = 0)
    (hrun : ChainRuns env pick state genesis app chain) : ChainInv genesis app chain := by
  induction hrun with
  | start => exact chainInv_start hnumber
  | startBlockBuild _ _ hbuild ih => exact ih.startBlockBuild hpick hbuild
  | addTransaction _ hadd ih => exact ih.of_blocks (addTransaction_blocks hadd)
  | genesisUpdate _ ih => exact ih.again rfl

/-- The three indices and the latest height show one chain, and a known payload id is not built
again. -/
structure ShowsChain (env : Env σ χ) (pick : List ExtendedBlock → Option ExtendedBlock) (app : App σ)
    (chain : List ExtendedBlock) (n : ℕ) : Prop where
  length : chain.length = n + 1
  heights : ∀ height, height ∈ (memoryOf app.blocks).heights.keys ↔ height ≤ n
  byHeight : ∀ height : ℕ, (memoryOf app.blocks).byHeight pick height = chain[height]?
  linked : ∀ height < n, ∃ parent child,
    (memoryOf app.blocks).byHeight pick height = some parent ∧
      (memoryOf app.blocks).byHeight pick (height + 1) = some child ∧
      child.header.number = height + 1 ∧ child.header.parentHash = parent.hash
  indices : ∀ block ∈ app.blocks, (memoryOf app.blocks).byHash pick block.hash = some block ∧
    (memoryOf app.blocks).byHeight pick block.header.number = some block ∧
    (memoryOf app.blocks).byPayloadId pick block.payloadId = some block
  height : (memoryOf app.blocks).height = some n
  last : (memoryOf app.blocks).last pick = chain.getLast?
  repeated : ∀ attributes id drained, ((memoryOf app.blocks).byPayloadId pick id).isSome →
    buildInMemory env pick app attributes id drained = some app

/-- After every command the storage shows one chain, whatever the order of builds, repeated
builds, new transactions and repeated updates of the genesis block. -/
theorem store_shows_chain (hpick : Picks pick) (hnumber : genesis.header.number = 0)
    (hrun : ChainRuns env pick state genesis app chain)
    (hhash : ∀ a ∈ chain, ∀ b ∈ chain, a.header ≠ b.header → a.hash ≠ b.hash) :
    ShowsChain env pick app chain (chain.length - 1) := by
  have hinv := chainInv_of_runs hpick hnumber hrun
  have hpos := hinv.pos
  refine ⟨by omega, ?_, hinv.byHeight_eq hpick, ?_, ?_, hinv.height_eq, hinv.last_eq hpick, ?_⟩
  · intro height
    rw [hinv.mem_keys_iff]
    omega
  · intro height hlt
    have hchild : chain[height + 1]? = some chain[height + 1] :=
      List.getElem?_eq_getElem (by omega)
    have hparent : chain[height]? = some chain[height] := List.getElem?_eq_getElem (by omega)
    refine ⟨chain[height], chain[height + 1], ?_, ?_, ?_, ?_⟩
    · rw [hinv.byHeight_eq hpick, hparent]
    · rw [hinv.byHeight_eq hpick, hchild]
    · exact hinv.numbered _ _ hchild
    · exact hinv.linked _ _ _ hparent hchild
  · intro block hblock
    refine ⟨hinv.byHash_eq hpick hhash hblock, ?_, hinv.byPayloadId_eq hpick hblock⟩
    rw [hinv.byHeight_eq hpick]
    exact hinv.mem_iff.mp hblock
  · intro attributes id drained hknown
    rw [buildInMemory, if_pos hknown]

end Chains

section Samples

def sampleGenesis : ExtendedBlock := ⟨0, 0, 0, sampleHeader, []⟩

theorem store_shows_chain_sample : ∃ app chain,
    ChainRuns sampleEnv List.head? () sampleGenesis app chain ∧ chain.length = 2 ∧
      ShowsChain sampleEnv List.head? app chain 1 := by
  let first : App Unit := genesisUpdate ⟨(), [], [], [], []⟩ sampleGenesis
  have hbuild : (buildInMemory sampleEnv List.head? first (samplePayload [sampleBytes]) 1 []).map
      (fun next => let chain := [sampleGenesis] ++ addedBlocks first next
        (chain.length,
          decide (∀ a ∈ chain, ∀ b ∈ chain, a.header ≠ b.header → a.hash ≠ b.hash))) =
      some (2, true) := by
    decide +kernel
  obtain ⟨next, hnext, hpair⟩ := Option.map_eq_some_iff.mp hbuild
  obtain ⟨hlen, hhash⟩ := Prod.mk.inj hpair
  have hrun : ChainRuns sampleEnv List.head? () sampleGenesis (genesisUpdate next sampleGenesis)
      ([sampleGenesis] ++ addedBlocks first next) :=
    .genesisUpdate (.startBlockBuild .start (.refl _) hnext)
  have hshows := store_shows_chain picks_head rfl hrun (of_decide_eq_true hhash)
  rw [hlen] at hshows
  exact ⟨_, _, hrun, hlen, hshows⟩

end Samples

end OpMove.BlockStore
