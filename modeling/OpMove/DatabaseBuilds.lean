import OpMove.Databases

/-!
What a build leaves in the database. The writes of a batch do to the tables what the batch does to
the state, a build that ends appends five writes to them, and a build that stops has not written a
block. A chain that is held by the tables of blocks and heights is found there by height, and its
last block is the latest one.
-/

namespace OpMove.DatabaseBuilds

open Primitives Transactions Errors ChangeSets StateChanges StorageTries TreeKeys StateTrie
open BlockBuilding BlockAgreement BlockStore Queries AccountProofs Canonical NativeEvm Traces Databases

section Effects

variable {engine : Engine} {libs : Libraries} {base : Env StoredState OutcomeChanges}

/-- What a program over the state writes is what it does to the state. -/
def Tracks (engine : Engine) (libs : Libraries) (state : StoredState)
    (trace : Trace Write StoredState) : Prop :=
  ∀ next db, trace.result = some next → db.state = state →
    Trace.after (Write.apply engine libs.rootHash) trace.writes db = db.withState next

theorem tracks_writeState (write : StateWrite) (state : StoredState) :
    Tracks engine libs state (writeState engine libs write state) := by
  rintro next db hresult rfl
  obtain rfl := Option.some.inj hresult
  rfl

theorem Tracks.bind {α : Type} {state : StoredState} {step : Trace Write α}
    {f : α → Trace Write StoredState} (hstep : step.writes = [])
    (hf : ∀ a, step.result = some a → Tracks engine libs state (f a)) :
    Tracks engine libs state (step >>= f) := by
  intro next db hresult hstate
  obtain ⟨a, ha, hnext, hwrites⟩ := Trace.result_bind_eq_some hresult
  rw [hwrites, hstep, List.nil_append]
  exact hf a ha next db hnext hstate

theorem Tracks.trans {state : StoredState} {first : Trace Write StoredState}
    {f : StoredState → Trace Write StoredState} (hfirst : Tracks engine libs state first)
    (hf : ∀ middle, Tracks engine libs middle (f middle)) :
    Tracks engine libs state (first >>= f) := by
  intro next db hresult hstate
  obtain ⟨middle, hmiddle, hnext, hwrites⟩ := Trace.result_bind_eq_some hresult
  rw [hwrites, Trace.after_append, hfirst middle db hmiddle hstate, hf middle next _ hnext rfl]
  rfl

theorem tracks_applyAccount (state : StoredState) (account : Σ _ : Address, StorageTrieChanges) :
    Tracks engine libs state (applyAccount engine libs state account) :=
  .bind rfl fun _ _ => .trans (tracks_writeState _ _) fun _ => tracks_writeState _ _

theorem tracks_accounts (accounts : List (Σ _ : Address, StorageTrieChanges)) (state : StoredState) :
    Tracks engine libs state (accounts.foldlM (applyAccount engine libs) state) := by
  intro next db hresult hstate
  refine Trace.foldlM_relates (R := fun later state => later = db.withState state) ?_ hresult ?_
  · rintro account - later state middle rfl hone
    exact tracks_applyAccount state account middle _ hone rfl
  · rw [← hstate]
    rfl

theorem tracks_applyChanges (state : StoredState) (changes : OutcomeChanges) :
    Tracks engine libs state (applyChanges engine libs state changes) :=
  .bind rfl fun _ _ => .trans (tracks_writeState _ _) fun _ =>
    .trans (tracks_writeState _ _) fun _ => tracks_accounts _ _

theorem result_executeOneStored (blocks : List ExtendedBlock) (batch : Batch)
    (progress : Progress StoredState) (item : Item) :
    (executeOneStored engine libs base blocks batch progress item).result =
      executeOne (storedEnv engine libs base) blocks batch progress item := by
  unfold executeOneStored
  dsimp only
  split
  · rfl
  · split <;> rfl

/-- One pass of the loop writes what it does to the state. -/
theorem after_executeOneStored {blocks : List ExtendedBlock} {batch : Batch}
    {progress next : Progress StoredState} {item : Item} {db : Database}
    (h : (executeOneStored engine libs base blocks batch progress item).result = some next)
    (hdb : db.state = progress.state) :
    Trace.after (Write.apply engine libs.rootHash)
      (executeOneStored engine libs base blocks batch progress item).writes db =
        db.withState next.state := by
  rw [result_executeOneStored] at h
  have hskip : next = progress → db = db.withState next.state := by
    rintro rfl
    rw [← hdb]
    rfl
  have hcodec : (storedEnv engine libs base).codec = base.codec := rfl
  have hexecute : (storedEnv engine libs base).executeTransaction = base.executeTransaction := rfl
  unfold executeOneStored
  dsimp only
  unfold executeOne at h
  rw [hcodec, hexecute] at h
  cases hnormal : NormalizedExtendedTxEnvelope.ofEnvelope base.codec item.tx with
  | none =>
    rw [hnormal] at h
    exact hskip (Option.some.inj h).symm
  | some normalized =>
    rw [hnormal] at h
    dsimp only at h ⊢
    cases houtcome : base.executeTransaction progress.state blocks (batch.input item normalized) with
    | error e =>
      rw [houtcome] at h
      cases e with
      | invalidTransaction cause => exact hskip (Option.some.inj h).symm
      | user e => cases h
      | invariantViolation violation => cases h
      | panicked => cases h
    | ok outcome =>
      rw [houtcome] at h
      simp only [record, Option.bind_eq_bind, Option.bind_eq_some_iff, Option.some.injEq] at h
      obtain ⟨state, hstate, envelope, -, rfl⟩ := h
      exact tracks_applyChanges progress.state outcome.changes state db hstate hdb

theorem result_batch (blocks : List ExtendedBlock) (batch : Batch) (items : List Item)
    (progress : Progress StoredState) :
    (items.foldlM (executeOneStored engine libs base blocks batch) progress).result =
      runBatch (storedEnv engine libs base) blocks batch items progress := by
  rw [Trace.result_foldlM, runBatch]
  simp only [result_executeOneStored]

/-- A batch writes what it does to the state. -/
theorem after_batch {blocks : List ExtendedBlock} {batch : Batch} {items : List Item}
    {final : Progress StoredState} {db : Database}
    (h : (items.foldlM (executeOneStored engine libs base blocks batch) (.start db.state)).result =
      some final) :
    Trace.after (Write.apply engine libs.rootHash)
      (items.foldlM (executeOneStored engine libs base blocks batch) (.start db.state)).writes db =
        db.withState final.state := by
  refine Trace.foldlM_relates (R := fun later progress => later = db.withState progress.state) ?_ h rfl
  rintro item - later progress next rfl hone
  rw [after_executeOneStored hone rfl]
  rfl

/-- Writes to the state only. -/
def OnState (writes : List Write) : Prop := ∀ write ∈ writes, ∃ inner, write = .state inner

theorem onState_writeState (write : StateWrite) (state : StoredState) :
    OnState (writeState engine libs write state).writes := by
  intro other hother
  exact ⟨write, List.mem_singleton.mp hother⟩

theorem OnState.bind {α β : Type} {trace : Trace Write α} {f : α → Trace Write β}
    (htrace : OnState trace.writes) (hf : ∀ a, OnState (f a).writes) :
    OnState (trace >>= f).writes := by
  intro write hwrite
  rcases Trace.mem_writes_bind hwrite with hfirst | ⟨a, -, hsecond⟩
  · exact htrace write hfirst
  · exact hf a write hsecond

theorem onState_ofOption {α : Type} (a : Option α) : OnState (Trace.ofOption a).writes := by
  intro write hwrite
  cases hwrite

theorem onState_applyChanges (state : StoredState) (changes : OutcomeChanges) :
    OnState (applyChanges engine libs state changes).writes := by
  refine .bind (onState_ofOption _) fun tree => .bind (onState_writeState _ _) fun middle =>
    .bind (onState_writeState _ _) fun last write hwrite => ?_
  refine Trace.mem_writes_foldlM (P := fun write => ∃ inner, write = .state inner)
    (fun state account _ other hother => ?_) hwrite
  have haccount : OnState (applyAccount engine libs state account).writes :=
    .bind (onState_ofOption _) fun _ => .bind (onState_writeState _ _) fun _ =>
      onState_writeState _ _
  exact haccount other hother

theorem onState_batch (blocks : List ExtendedBlock) (batch : Batch) (items : List Item)
    (progress : Progress StoredState) :
    OnState (items.foldlM (executeOneStored engine libs base blocks batch) progress).writes := by
  intro write hwrite
  refine Trace.mem_writes_foldlM (P := fun write => ∃ inner, write = .state inner)
    (fun progress item _ other hother => ?_) hwrite
  unfold executeOneStored at hother
  dsimp only at hother
  split at hother
  · exact onState_ofOption _ other hother
  · split at hother
    · exact onState_applyChanges _ _ other hother
    · exact onState_ofOption _ other hother

end Effects

section Builds

variable {engine : Engine} {libs : Libraries} {base : Env StoredState OutcomeChanges}
variable {app : StoredApp} {attributes : Payload} {id : ℕ} {drained : List Item}

/-- What a build writes once its state is written. -/
def closingWrites (engine : Engine) (id : ℕ) (built : Built StoredState) : List Write :=
  [.stateRoot (built.state.stateRoot engine), .receipts built.receipts,
    .transactions built.transactions, .block built.block, .payload id built.block.hash]

theorem closingWrites_eq (built : Built StoredState) : closingWrites engine id built =
    [.stateRoot (built.state.stateRoot engine), .receipts built.receipts,
      .transactions built.transactions, .block built.block] ++ [.payload id built.block.hash] := rfl

/-- A build of a new payload id does what `buildStored` does. -/
theorem startBlockBuildStored_of_new (hnew : ¬ (app.db.byPayloadId id).isSome) :
    startBlockBuildStored engine libs base app attributes id drained =
      ⟨(buildStored engine libs base app attributes id drained).writes,
        (buildStored engine libs base app attributes id drained).result.map some⟩ := by
  rw [startBlockBuildStored, if_neg hnew]
  cases hresult : (buildStored engine libs base app attributes id drained).result with
  | none =>
    rw [Trace.bind_of_none hresult]
    rfl
  | some built =>
    rw [Trace.bind_of_some hresult, Trace.writes_pure, List.append_nil]
    rfl

/-- A build that stops on the way: it has written to the state, and recorded its root perhaps. -/
structure Stops (trace : Trace Write (Built StoredState)) : Prop where
  result : trace.result = none
  writes : ∀ block, .block block ∉ trace.writes

/-- A build that comes to its end. -/
structure Ends (engine : Engine) (libs : Libraries) (base : Env StoredState OutcomeChanges)
    (app : StoredApp) (attributes : Payload) (id : ℕ) (drained : List Item)
    (stateWrites : List Write) (built : Built StoredState) : Prop where
  onState : OnState stateWrites
  state : Trace.after (Write.apply engine libs.rootHash) stateWrites app.db =
    app.db.withState built.state
  builds : buildBlock (storedEnv engine libs base) app.view attributes id drained = some built
  writes : (buildStored engine libs base app attributes id drained).writes =
    stateWrites ++ closingWrites engine id built

/-- The batch that a block is built from. -/
theorem buildBlock_batch {σ χ : Type} (env : Env σ χ) {app : App σ} {built : Built σ}
    (h : buildBlock env app attributes id drained = some built) :
    ∃ parent baseFee batch progress, latestBlock app.blocks = some parent ∧
      baseFeeAfter env parent = some baseFee ∧
      batchFor (collectTransactions env app attributes drained) baseFee
        (headerForExecution parent attributes) = some batch ∧
      runBatch env app.blocks batch (collectTransactions env app attributes drained)
        (.start app.state) = some progress ∧ built.state = progress.state := by
  simp only [buildBlock, executeTransactions, Option.bind_eq_bind, Option.bind_eq_some_iff] at h
  obtain ⟨parent, hparent, baseFee, hfee, progress, ⟨batch, hbatch, hrun⟩, hbuilt⟩ := h
  split_ifs at hbuilt
  obtain rfl := Option.some.inj hbuilt
  exact ⟨parent, baseFee, batch, progress, hparent, hfee, hbatch, hrun, rfl⟩

/-- The trace of a build goes through the batch that the block is built from. -/
theorem batch_of_buildBlock (hlatest : app.db.latest = latestBlock app.view.blocks)
    {built : Built StoredState}
    (hbuilt : buildBlock (storedEnv engine libs base) app.view attributes id drained = some built) :
    ∃ batch progress, openBatch engine libs base app attributes
        (collectTransactions (storedEnv engine libs base) app.view attributes drained) = some batch ∧
      ((collectTransactions (storedEnv engine libs base) app.view attributes drained).foldlM
        (executeOneStored engine libs base app.view.blocks batch) (.start app.db.state)).result =
          some progress ∧ built.state = progress.state := by
  obtain ⟨parent, baseFee, batch, progress, hparent, hfee, hbatch, hrun, hstate⟩ :=
    buildBlock_batch (storedEnv engine libs base) hbuilt
  refine ⟨batch, progress, ?_, ?_, hstate⟩
  · rw [← hlatest] at hparent
    simp only [openBatch, hparent, hfee, Option.bind_eq_bind, Option.bind_some, hbatch]
  · rw [result_batch]
    exact hrun

/-- A build that gives a block writes its state, and then everything else. -/
theorem buildStored_of_buildBlock (hlatest : app.db.latest = latestBlock app.view.blocks)
    {built : Built StoredState}
    (hbuilt : buildBlock (storedEnv engine libs base) app.view attributes id drained = some built) :
    ∃ stateWrites, OnState stateWrites ∧
      Trace.after (Write.apply engine libs.rootHash) stateWrites app.db =
        app.db.withState built.state ∧
      buildStored engine libs base app attributes id drained =
        ⟨stateWrites ++ closingWrites engine id built, some built⟩ := by
  obtain ⟨batch, progress, hopen, hprogress, hstate⟩ := batch_of_buildBlock hlatest hbuilt
  refine ⟨((collectTransactions (storedEnv engine libs base) app.view attributes drained).foldlM
    (executeOneStored engine libs base app.view.blocks batch) (.start app.db.state)).writes,
    onState_batch _ _ _ _, ?_, ?_⟩
  · rw [hstate]
    exact after_batch hprogress
  · unfold buildStored
    rw [Trace.bind_of_some hopen, Trace.bind_of_some hprogress, hbuilt, closingWrites, hstate]
    rfl

/-- A build without a block has written to the state, and recorded its root perhaps. -/
theorem stops_of_none
    (hbuilt : buildBlock (storedEnv engine libs base) app.view attributes id drained = none) :
    Stops (buildStored engine libs base app attributes id drained) := by
  have hstops : ∀ writes : List Write, OnState writes → ∀ block, .block block ∉ writes := by
    intro writes honState block hblock
    obtain ⟨inner, hinner⟩ := honState _ hblock
    cases hinner
  unfold buildStored
  cases hbatch : openBatch engine libs base app attributes
    (collectTransactions (storedEnv engine libs base) app.view attributes drained) with
  | none =>
    rw [Trace.bind_of_none hbatch]
    exact ⟨rfl, by simp⟩
  | some batch =>
    have honState : OnState ((collectTransactions (storedEnv engine libs base) app.view attributes
        drained).foldlM (executeOneStored engine libs base app.view.blocks batch)
          (.start app.db.state)).writes := onState_batch _ _ _ _
    cases hprogress : ((collectTransactions (storedEnv engine libs base) app.view attributes
      drained).foldlM (executeOneStored engine libs base app.view.blocks batch)
        (.start app.db.state)).result with
    | none =>
      rw [Trace.bind_of_some hbatch, Trace.bind_of_none hprogress]
      exact ⟨rfl, hstops _ honState⟩
    | some progress =>
      rw [Trace.bind_of_some hbatch, Trace.bind_of_some hprogress, hbuilt]
      refine ⟨rfl, fun block hblock => ?_⟩
      have hwrites : .block block ∈ ((collectTransactions (storedEnv engine libs base) app.view
          attributes drained).foldlM (executeOneStored engine libs base app.view.blocks batch)
            (.start app.db.state)).writes ++ [.stateRoot (progress.state.stateRoot engine)] := hblock
      rcases List.mem_append.mp hwrites with hfirst | hlast
      · exact hstops _ honState block hfirst
      · simp at hlast

theorem buildStored_cases (hlatest : app.db.latest = latestBlock app.view.blocks) :
    Stops (buildStored engine libs base app attributes id drained) ∨
      ∃ stateWrites built,
        (buildStored engine libs base app attributes id drained).result = some built ∧
          Ends engine libs base app attributes id drained stateWrites built := by
  cases hbuilt : buildBlock (storedEnv engine libs base) app.view attributes id drained with
  | none => exact Or.inl (stops_of_none hbuilt)
  | some built =>
    obtain ⟨stateWrites, honState, hafter, htrace⟩ := buildStored_of_buildBlock hlatest hbuilt
    exact Or.inr ⟨stateWrites, built, by rw [htrace], honState, hafter, hbuilt, by rw [htrace]⟩

/-- A block that is built is stored. -/
theorem result_buildStored (hlatest : app.db.latest = latestBlock app.view.blocks)
    {built : Built StoredState}
    (hbuilt : buildBlock (storedEnv engine libs base) app.view attributes id drained = some built) :
    (buildStored engine libs base app attributes id drained).result = some built := by
  obtain ⟨_, -, -, htrace⟩ := buildStored_of_buildBlock hlatest hbuilt
  rw [htrace]

end Builds

section Chains

variable {db : Database} {chain : List ExtendedBlock}

/-- The tables of blocks and heights hold a chain that is numbered from zero. -/
structure Holds (db : Database) (chain : List ExtendedBlock) : Prop where
  heights : ∀ height : ℕ, db.heights.lookup height = chain[height]?.map fun block => block.hash
  blocks : ∀ block ∈ chain, db.blocks.lookup block.hash = some block
  numbered : ∀ (i : ℕ) (block : ExtendedBlock), chain[i]? = some block → block.header.number = i

/-- Different headers have different hashes. -/
def Distinct (chain : List ExtendedBlock) : Prop :=
  ∀ a ∈ chain, ∀ b ∈ chain, a.header ≠ b.header → a.hash ≠ b.hash

section Lists

variable {blocks : List ExtendedBlock} (hmem : ∀ block, block ∈ blocks ↔ block ∈ chain)
variable (hnumbered : ∀ (i : ℕ) (block : ExtendedBlock), chain[i]? = some block →
  block.header.number = i)
include hmem hnumbered

/-- The block of a number in any list with the blocks of such a chain. -/
theorem find_of_chain (number : ℕ) :
    blocks.find? (fun block => block.header.number = number) = chain[number]? := by
  cases hfind : blocks.find? fun block => block.header.number = number with
  | none =>
    cases hget : chain[number]? with
    | none => rfl
    | some block =>
      have hno := List.find?_eq_none.mp hfind _ ((hmem _).mpr (List.mem_of_getElem? hget))
      simp [hnumbered _ _ hget] at hno
  | some found =>
    have hnumber : found.header.number = number := by simpa using List.find?_some hfind
    obtain ⟨i, hi⟩ := List.mem_iff_getElem?.mp ((hmem found).mp (List.mem_of_find?_eq_some hfind))
    rw [← hnumber, hnumbered i found hi, hi]

/-- The latest block of any list with the blocks of such a chain. -/
theorem latestBlock_of_chain : latestBlock blocks = chain.getLast? := by
  have hheights : (blocks.map fun block => block.header.number).dedup.length = chain.length := by
    have hperm : (blocks.map fun block => block.header.number).dedup.Perm
        (List.range chain.length) := by
      refine (List.perm_ext_iff_of_nodup (List.nodup_dedup _) List.nodup_range).mpr fun n => ?_
      rw [List.mem_dedup, List.mem_map, List.mem_range]
      constructor
      · rintro ⟨block, hblock, rfl⟩
        obtain ⟨i, hi⟩ := List.mem_iff_getElem?.mp ((hmem block).mp hblock)
        rw [hnumbered i block hi]
        exact (List.getElem?_eq_some_iff.mp hi).1
      · intro hlt
        have hget : chain[n]? = some chain[n] := List.getElem?_eq_getElem hlt
        exact ⟨chain[n], (hmem _).mpr (List.mem_of_getElem? hget), hnumbered n _ hget⟩
    rw [hperm.length_eq, List.length_range]
  rw [List.getLast?_eq_getElem?]
  unfold latestBlock
  rw [hheights]
  dsimp only
  split_ifs with hzero
  · rw [List.length_eq_zero_iff.mp hzero]
    rfl
  · exact find_of_chain hmem hnumbered _

end Lists

namespace Holds

theorem of_tables {next : Database} (h : Holds db chain) (hheights : next.heights = db.heights)
    (hblocks : next.blocks = db.blocks) : Holds next chain := by
  refine ⟨?_, ?_, h.numbered⟩
  · rw [hheights]
    exact h.heights
  · rw [hblocks]
    exact h.blocks

variable (h : Holds db chain)
include h

theorem blockAt_eq (height : ℕ) : db.blockAt height = chain[height]? := by
  unfold Database.blockAt
  rw [h.heights]
  cases hget : chain[height]? with
  | none => rfl
  | some block =>
    rw [Option.map_some, Option.bind_some]
    exact h.blocks block (List.mem_of_getElem? hget)

theorem mem_keys_iff (height : ℕ) : height ∈ db.heights.keys ↔ height < chain.length := by
  rw [← AList.mem_keys, ← AList.lookup_isSome, h.heights, Option.isSome_map]
  simp

theorem latest_eq : db.latest = chain.getLast? := by
  unfold Database.latest
  cases hlast : chain.getLast? with
  | none =>
    rw [List.getLast?_eq_none_iff] at hlast
    have hkeys : db.heights.keys = [] := by
      refine List.eq_nil_iff_forall_not_mem.mpr fun height hheight => ?_
      rw [h.mem_keys_iff, hlast] at hheight
      exact absurd hheight (Nat.not_lt_zero height)
    rw [hkeys]
    rfl
  | some block =>
    rw [List.getLast?_eq_getElem?] at hlast
    have hlt := (List.getElem?_eq_some_iff.mp hlast).1
    have hmax : db.heights.keys.max? = some (chain.length - 1) := by
      rw [List.max?_eq_some_iff]
      refine ⟨(h.mem_keys_iff _).mpr hlt, fun height hheight => ?_⟩
      have := (h.mem_keys_iff height).mp hheight
      omega
    rw [hmax, Option.bind_some, h.blockAt_eq, hlast]

theorem mem_view_iff (memPool : List Item) {block : ExtendedBlock} :
    block ∈ (StoredApp.mk db memPool).view.blocks ↔ block ∈ chain := by
  change block ∈ db.heights.keys.filterMap db.blockAt ↔ _
  rw [List.mem_filterMap, List.mem_iff_getElem?]
  constructor
  · rintro ⟨height, -, hblock⟩
    rw [h.blockAt_eq] at hblock
    exact ⟨height, hblock⟩
  · rintro ⟨height, hblock⟩
    refine ⟨height, (h.mem_keys_iff height).mpr (List.getElem?_eq_some_iff.mp hblock).1, ?_⟩
    rw [h.blockAt_eq, hblock]

/-- The latest block is also what the count of heights leads to. -/
theorem latest_eq_latestBlock (memPool : List Item) :
    db.latest = latestBlock (StoredApp.mk db memPool).view.blocks := by
  rw [h.latest_eq, latestBlock_of_chain (fun block => h.mem_view_iff memPool) h.numbered]

/-- A block on top of the last one. -/
theorem addBlock {block : ExtendedBlock} (hnumber : block.header.number = chain.length)
    (hdistinct : Distinct (chain ++ [block])) : Holds (db.addBlock block) (chain ++ [block]) := by
  refine ⟨fun height => ?_, fun other hother => ?_, fun i other hother => ?_⟩
  · change (db.heights.insert block.header.number block.hash).lookup height = _
    rw [hnumber, getElem?_concat]
    by_cases hheight : height = chain.length
    · rw [hheight, AList.lookup_insert, if_pos rfl, Option.map_some]
    · rw [AList.lookup_insert_ne hheight, h.heights, if_neg hheight]
  · change (db.blocks.insert block.hash block).lookup other.hash = _
    rcases List.mem_append.mp hother with hold | hnew
    · obtain ⟨i, hi⟩ := List.mem_iff_getElem?.mp hold
      have hlt := (List.getElem?_eq_some_iff.mp hi).1
      have hheader : other.header ≠ block.header := by
        intro hsame
        have hfirst := h.numbered i other hi
        rw [hsame, hnumber] at hfirst
        omega
      rw [AList.lookup_insert_ne (hdistinct other hother block (by simp) hheader)]
      exact h.blocks other hold
    · obtain rfl := List.mem_singleton.mp hnew
      exact AList.lookup_insert _
  · rcases getElem?_concat_cases hother with hold | ⟨rfl, rfl⟩
    · exact h.numbered i other hold
    · exact hnumber

/-- A block of the chain is stored once more. -/
theorem addAgain {block : ExtendedBlock} {i : ℕ} (hblock : chain[i]? = some block)
    (hdistinct : Distinct chain) : Holds (db.addBlock block) chain := by
  have hnumber := h.numbered i block hblock
  refine ⟨fun height => ?_, fun other hother => ?_, h.numbered⟩
  · change (db.heights.insert block.header.number block.hash).lookup height = _
    rw [hnumber]
    by_cases hheight : height = i
    · subst hheight
      rw [AList.lookup_insert, hblock, Option.map_some]
    · rw [AList.lookup_insert_ne hheight, h.heights]
  · change (db.blocks.insert block.hash block).lookup other.hash = _
    by_cases hsame : other.hash = block.hash
    · have hheader : other.header = block.header := by
        by_contra hne
        exact hdistinct other hother block (List.mem_of_getElem? hblock) hne hsame
      obtain ⟨j, hj⟩ := List.mem_iff_getElem?.mp hother
      have hindex : j = i := by
        rw [← h.numbered j other hj, hheader, hnumber]
      rw [hindex, hblock, Option.some.injEq] at hj
      rw [hj, AList.lookup_insert]
    · rw [AList.lookup_insert_ne hsame]
      exact h.blocks other hother

end Holds

theorem Distinct.left {more : List ExtendedBlock} (h : Distinct (chain ++ more)) :
    Distinct chain := by
  intro a ha b hb
  exact h a (List.mem_append_left _ ha) b (List.mem_append_left _ hb)

/-- A chain in the tables, with the state root of every height but the first. -/
structure Indexed (engine : Engine) (db : Database) (chain : List ExtendedBlock) : Prop where
  holds : Holds db chain
  counter : db.height engine + 1 = chain.length
  roots : ∀ i : ℕ, 0 < i →
    db.stateRoots.lookup i = chain[i]?.map fun block => block.header.stateRoot

namespace Indexed

variable {engine : Engine}

theorem of_tables {next : Database} (h : Indexed engine db chain)
    (hheights : next.heights = db.heights) (hblocks : next.blocks = db.blocks)
    (hroots : next.stateRoots = db.stateRoots) (hheight : next.stateHeight = db.stateHeight) :
    Indexed engine next chain := by
  refine ⟨h.holds.of_tables hheights hblocks, ?_, ?_⟩
  · rw [Database.height, hheight]
    exact h.counter
  · rw [hroots]
    exact h.roots

variable (h : Indexed engine db chain)
include h

theorem pos : 0 < chain.length := by
  have hcounter := h.counter
  omega

/-- A state root is recorded, then the block it belongs to is stored. -/
theorem stored {state : StoredState} {receipts : List ExtendedReceipt}
    {transactions : List ExtendedTransaction} {block : ExtendedBlock}
    (hnumber : block.header.number = chain.length) (hdistinct : Distinct (chain ++ [block]))
    (hroot : block.header.stateRoot = state.stateRoot engine) {rootHash : Tree → B256} :
    Indexed engine (Trace.after (Write.apply engine rootHash) [.stateRoot (state.stateRoot engine),
      .receipts receipts, .transactions transactions, .block block] (db.withState state))
      (chain ++ [block]) := by
  have hpos := h.pos
  have hcounter := h.counter
  set next := Trace.after (Write.apply engine rootHash) [.stateRoot (state.stateRoot engine),
    .receipts receipts, .transactions transactions, .block block] (db.withState state) with hnext
  refine ⟨(h.holds.addBlock hnumber hdistinct).of_tables rfl rfl, ?_, fun i hi => ?_⟩
  · have hheight : next.height engine = db.height engine + 1 := by
      change (AList.lookup engine.heightKey (db.stateHeight.insert engine.heightKey
        (db.height engine + 1))).getD 0 = _
      rw [AList.lookup_insert]
      rfl
    rw [hheight, List.length_append, List.length_singleton, hcounter]
  · have hlookup : next.stateRoots.lookup i = (db.stateRoots.insert (db.height engine + 1)
        (state.stateRoot engine)).lookup i := rfl
    rw [hlookup, hcounter, getElem?_concat]
    by_cases htop : i = chain.length
    · rw [htop, AList.lookup_insert, if_pos rfl, Option.map_some, hroot]
    · rw [AList.lookup_insert_ne htop, h.roots i hi, if_neg htop]

end Indexed

section Starts

variable {engine : Engine} {libs : Libraries} {initialStateRoot : B256} {genesis : ExtendedBlock}

/-- A new database has the genesis state written to it. -/
theorem initializeApp_new {changes : OutcomeChanges} {app : StoredApp} :
    initializeApp engine libs initialStateRoot changes .new = some app ↔
      ∃ state, (applyChanges engine libs Database.new.state changes).result = some state ∧
        state.stateRoot engine = initialStateRoot ∧ app = ⟨Database.new.withState state, []⟩ := by
  have hlatest : ¬ Database.new.latest.isSome := by
    intro hsome
    cases hsome
  rw [initializeApp, if_neg hlatest, Option.bind_eq_some_iff]
  refine exists_congr fun state => and_congr_right fun hstate => ?_
  rw [tracks_applyChanges _ _ state Database.new hstate rfl]
  split_ifs with hroot
  · rw [Option.some.injEq, eq_comm]
    exact ⟨fun happ => ⟨hroot, happ⟩, fun happ => happ.2⟩
  · constructor
    · intro happ
      cases happ
    · intro happ
      exact absurd happ.1 hroot

/-- The genesis block in a new database. -/
theorem indexed_start (hnumber : genesis.header.number = 0) (state : StoredState) :
    Indexed engine ((Database.new.withState state).addBlock genesis) [genesis] := by
  have hempty : Holds (Database.new.withState state) [] := by
    refine ⟨fun height => rfl, fun block hblock => ?_, fun i block hblock => ?_⟩
    · cases hblock
    · simp at hblock
  have hdistinct : Distinct ([] ++ [genesis]) := by
    intro a ha b hb hne
    obtain rfl := List.mem_singleton.mp ha
    obtain rfl := List.mem_singleton.mp hb
    exact absurd rfl hne
  refine ⟨hempty.addBlock hnumber hdistinct, rfl, fun i hi => ?_⟩
  rw [List.getElem?_eq_none (by simp; omega)]
  rfl

end Starts

/-- A built block is numbered by the length of the chain it extends. -/
theorem Ends.number {engine : Engine} {libs : Libraries} {base : Env StoredState OutcomeChanges}
    {app : StoredApp} {attributes : Payload} {id : ℕ} {drained : List Item}
    {stateWrites : List Write} {built : Built StoredState}
    (hends : Ends engine libs base app attributes id drained stateWrites built)
    (h : Indexed engine app.db chain) : built.block.header.number = chain.length := by
  obtain ⟨parent, hparent, -, hnumber, -⟩ :=
    buildBlock_block (storedEnv engine libs base) hends.builds
  rw [← h.holds.latest_eq_latestBlock app.memPool, h.holds.latest_eq,
    List.getLast?_eq_getElem?] at hparent
  have hpos := h.pos
  have hlast := h.holds.numbered _ parent hparent
  omega

end Chains

end OpMove.DatabaseBuilds
