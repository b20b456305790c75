import OpMove.NonceRuns
import Mathlib.Data.List.Perm.Subperm

/-!
The order in which the mempool is drained. The pool is emptied before anything is executed,
and what is invalid when its turn comes is dropped, so a block depends on the order of a
hash map as soon as one pending transaction decides over another. It does not exactly when
every pending transaction is accepted or not, whatever pending transactions come before it.
-/

namespace OpMove.DrainOrder

open Primitives GasFees Transactions Errors Sessions BlockBuilding BlockAgreement Node NonceRuns

section Batches

variable {σ χ : Type} (env : Env σ χ) (blocks : List ExtendedBlock) (batch : Batch)

/-- Whether a transaction of the pool is accepted does not depend on the transactions of the
pool that were run before it. -/
def Independent (pool : List Item) (start : Progress σ) : Prop :=
  ∀ before item after, (item :: before).Nodup → (∀ other ∈ item :: before, other ∈ pool) →
    runBatch env blocks batch before start = some after →
    skips env blocks batch after.state item = skips env blocks batch start.state item

variable {env blocks batch}

theorem runBatch_append {first second : List Item} {progress final : Progress σ} :
    runBatch env blocks batch (first ++ second) progress = some final ↔
      ∃ middle, runBatch env blocks batch first progress = some middle ∧
        runBatch env blocks batch second middle = some final := by
  unfold runBatch
  rw [List.foldlM_append]
  exact Option.bind_eq_some_iff

theorem runBatch_cons {item : Item} {rest : List Item} {progress final : Progress σ} :
    runBatch env blocks batch (item :: rest) progress = some final ↔
      ∃ next, executeOne env blocks batch progress item = some next ∧
        runBatch env blocks batch rest next = some final := by
  unfold runBatch
  rw [List.foldlM_cons]
  exact Option.bind_eq_some_iff

/-- One pass appends the item when it is not skipped. -/
theorem executed_of_pass {item : Item} {progress next : Progress σ}
    (h : executeOne env blocks batch progress item = some next) :
    next.executed = progress.executed ++
      if skips env blocks batch progress.state item then [] else [item] := by
  rcases executeOne_cases env blocks batch h with ⟨hskip, rfl⟩ |
    ⟨hskip, -, receipt, -, hexecuted, -⟩
  · simp [hskip]
  · simp [hskip, hexecuted]

/-- With independent transactions, what is executed is what was acceptable at the start. -/
theorem executed_of_independent {pool : List Item} {start : Progress σ}
    (hind : Independent env blocks batch pool start) (before rest : List Item)
    (hnodup : (before ++ rest).Nodup) (hpool : ∀ item ∈ before ++ rest, item ∈ pool)
    {middle final : Progress σ} (hbefore : runBatch env blocks batch before start = some middle)
    (hrest : runBatch env blocks batch rest middle = some final) :
    final.executed = middle.executed ++
      rest.filter fun item => !skips env blocks batch start.state item := by
  induction rest generalizing before middle with
  | nil =>
    obtain rfl : middle = final := by simpa [runBatch] using hrest
    simp
  | cons item rest ih =>
    obtain ⟨next, hone, hlater⟩ := runBatch_cons.mp hrest
    have hmove : (before ++ [item]) ++ rest = before ++ item :: rest := by simp
    have hstep : runBatch env blocks batch (before ++ [item]) start = some next :=
      runBatch_append.mpr ⟨middle, hbefore, runBatch_cons.mpr ⟨next, hone, rfl⟩⟩
    have hlast := ih (before ++ [item]) (hmove ▸ hnodup) (hmove ▸ hpool) hstep hlater
    have hitem : (item :: before).Nodup := by
      refine ((List.perm_append_singleton item before).nodup_iff).mp ?_
      exact (hmove ▸ hnodup).sublist (List.sublist_append_left _ rest)
    have hsame := hind before item middle hitem (fun other hother => hpool other (by
      rcases List.mem_cons.mp hother with rfl | hmem
      · simp
      · simp [hmem])) hbefore
    rw [hlast, executed_of_pass hone, List.append_assoc, hsame]
    cases hskip : skips env blocks batch start.state item <;> simp [hskip]

/-- An item of the batch is executed exactly when it is not skipped in its turn. -/
theorem mem_executed_iff {before rest : List Item} {item : Item}
    (hnodup : (before ++ item :: rest).Nodup) {start middle final : Progress σ}
    (hbefore : runBatch env blocks batch before start = some middle)
    (hrest : runBatch env blocks batch (item :: rest) middle = some final) :
    item ∈ final.executed.drop start.executed.length ↔
      skips env blocks batch middle.state item = false := by
  obtain ⟨next, hone, hlater⟩ := runBatch_cons.mp hrest
  obtain ⟨first, -, hfirst, -, -, hfirstSub, -⟩ := runBatch_spec env blocks batch hbefore
  obtain ⟨last, -, hlast, -, -, hlastSub, -⟩ := runBatch_spec env blocks batch hlater
  have hsplit := List.nodup_append.mp hnodup
  have hnotBefore : item ∉ first := fun hmem =>
    hsplit.2.2 item (hfirstSub.subset hmem) item List.mem_cons_self rfl
  have hnotRest : item ∉ last := fun hmem =>
    (List.nodup_cons.mp hsplit.2.1).1 (hlastSub.subset hmem)
  rw [hlast, executed_of_pass hone, hfirst, List.append_assoc, List.append_assoc,
    List.drop_left]
  cases hskip : skips env blocks batch middle.state item <;> simp [hnotBefore, hnotRest]

end Batches

section Blocks

variable {σ χ : Type} (env : Env σ χ)

/-- The drained transactions that were not processed before. -/
def pending (app : App σ) (drained : List Item) : List Item :=
  drained.filter fun item =>
    !app.receipts.any fun receipt => receipt.transactionHash == item.txHash

theorem collectTransactions_eq (app : App σ) (attributes : Payload) (drained : List Item) :
    collectTransactions env app attributes drained =
      collectTransactions env app attributes [] ++ pending app drained := by
  simp [collectTransactions, pending, List.filter_append]

/-- The batch of a block and where it stands when the transactions of the payload are done. -/
structure AfterPayload (app : App σ) (attributes : Payload) (batch : Batch)
    (start : Progress σ) : Prop where
  batchFor : ∃ parent baseFee, latestBlock app.blocks = some parent ∧
    baseFeeAfter env parent = some baseFee ∧
    batchFor (collectTransactions env app attributes app.memPool) baseFee
      (headerForExecution parent attributes) = some batch
  run : runBatch env app.blocks batch (collectTransactions env app attributes [])
    (.start app.state) = some start

/-- What a mempool is: a map keyed by transaction hash, without deposits. -/
structure PoolWellFormed (pool : List Item) : Prop where
  keys : (pool.map fun item => item.txHash).Nodup
  noDeposit : ∀ item ∈ pool, item.tx.asDeposit = none

variable {env}

/-- Users cannot submit deposits. -/
theorem asDeposit_of_ethEnvelope {tx : TxEnvelope} {inner : OpTxEnvelope}
    (h : OpTxEnvelope.tryFromEthEnvelope tx = some inner) : inner.asDeposit = none := by
  cases tx <;> cases h <;> rfl

theorem poolWellFormed_insertItem {pool : List Item} {item : Item} (hpool : PoolWellFormed pool)
    (hitem : item.tx.asDeposit = none) : PoolWellFormed (insertItem pool item) := by
  unfold insertItem
  refine ⟨?_, fun other hother => ?_⟩
  · rw [List.map_append, List.map_singleton, List.nodup_append]
    refine ⟨hpool.keys.sublist (List.filter_sublist.map _), List.nodup_singleton _, ?_⟩
    intro a ha b hb
    obtain ⟨other, hother, rfl⟩ := List.mem_map.mp ha
    rw [List.mem_singleton.mp hb]
    simpa using (List.mem_filter.mp hother).2
  · rcases List.mem_append.mp hother with hold | hnew
    · exact hpool.noDeposit other (List.mem_of_mem_filter hold)
    · rw [List.mem_singleton.mp hnew]
      exact hitem

/-- The mempool of every run is well formed. -/
theorem poolWellFormed_of_runs {genesis : σ} {app : App σ} {executed : List Item}
    (h : Runs env genesis app executed) : PoolWellFormed app.memPool := by
  have hempty : PoolWellFormed [] := ⟨List.nodup_nil, fun _ hitem => by cases hitem⟩
  induction h with
  | start => exact hempty
  | startBlockBuild _ _ hbuild ih =>
    rcases startBlockBuild_cases env hbuild with ⟨-, rfl⟩ | ⟨-, built, -, rfl⟩
    · exact ih
    · exact hempty
  | addTransaction _ hadd ih =>
    obtain ⟨item, hitem, hsome⟩ := Option.bind_eq_some_iff.mp hadd
    obtain ⟨inner, hinner, hnew⟩ := Option.bind_eq_some_iff.mp hitem
    rw [← Option.some.inj hsome, ← Option.some.inj hnew]
    exact poolWellFormed_insertItem ih (asDeposit_of_ethEnvelope hinner)
  | genesisUpdate _ ih => exact ih

/-- The fees of a block do not depend on the order of its pool. -/
theorem batchFor_congr {payload pool drained : List Item} (hperm : drained.Perm pool)
    (hdeposit : ∀ item ∈ pool, item.tx.asDeposit = none) (baseFee : U256)
    (header : NativeEvm.HeaderForExecution) :
    batchFor (payload ++ drained) baseFee header = batchFor (payload ++ pool) baseFee header := by
  have hnone : ∀ {items : List Item}, (∀ item ∈ items, item.tx.asDeposit = none) →
      headL1Fee items = some none := by
    intro items hitems
    unfold headL1Fee
    cases items with
    | nil => rfl
    | cons item rest => simp [hitems item List.mem_cons_self]
  have hhead : headL1Fee (payload ++ drained) = headL1Fee (payload ++ pool) := by
    cases payload with
    | nil =>
      rw [List.nil_append, List.nil_append, hnone hdeposit]
      exact hnone fun item hitem => hdeposit item (hperm.subset hitem)
    | cons item rest => rfl
  rw [batchFor, batchFor, hhead]

/-- Every order runs the pool on from where the payload has left off. -/
theorem run_of_built {app : App σ} {attributes : Payload} {id : ℕ} {drained : List Item}
    {built : Built σ} {batch : Batch} {start : Progress σ}
    (hafter : AfterPayload env app attributes batch start) (hpool : PoolWellFormed app.memPool)
    (hperm : drained.Perm app.memPool)
    (h : buildBlock env app attributes id drained = some built) :
    ∃ final, runBatch env app.blocks batch (pending app drained) start = some final ∧
      built.executed = final.executed := by
  obtain ⟨parent, baseFee, batch', final, hparent, hbase, hbatch, hrun, hexecuted, -⟩ :=
    buildBlock_spec env h
  obtain ⟨parent', baseFee', hparent', hbase', hbatch'⟩ := hafter.batchFor
  obtain rfl : parent = parent' := Option.some.inj (hparent.symm.trans hparent')
  obtain rfl : baseFee = baseFee' := Option.some.inj (hbase.symm.trans hbase')
  rw [collectTransactions_eq] at hbatch hbatch' hrun
  have hpending : (pending app drained).Perm (pending app app.memPool) := hperm.filter _
  have hdeposit : ∀ item ∈ pending app app.memPool, item.tx.asDeposit = none :=
    fun item hitem => hpool.noDeposit item (List.mem_of_mem_filter hitem)
  rw [batchFor_congr hpending hdeposit, hbatch', Option.some.injEq] at hbatch
  subst hbatch
  obtain ⟨middle, hmiddle, hfinal⟩ := runBatch_append.mp hrun
  rw [hafter.run, Option.some.injEq] at hmiddle
  subst hmiddle
  exact ⟨final, hfinal, hexecuted⟩

/-- The transactions of the pool among those a block has executed. -/
def fromPool (start : Progress σ) (built : Built σ) : List Item :=
  built.executed.drop start.executed.length

/-- Every order of draining executes the same transactions of the pool and leaves the same
ones for later blocks. -/
def OrderIrrelevant (env : Env σ χ) (app : App σ) (attributes : Payload) (id : ℕ)
    (start : Progress σ) : Prop :=
  ∀ drained drained' built built', drained.Perm app.memPool → drained'.Perm app.memPool →
    buildBlock env app attributes id drained = some built →
    buildBlock env app attributes id drained' = some built' →
    ∀ item, (item ∈ fromPool start built ↔ item ∈ fromPool start built') ∧
      (item ∈ (app.withBlock built).memPool ↔ item ∈ (app.withBlock built').memPool)

section Order

variable {app : App σ} {attributes : Payload} {id : ℕ} {batch : Batch} {start : Progress σ}

theorem nodup_pending {drained : List Item} (hpool : PoolWellFormed app.memPool)
    (hperm : drained.Perm app.memPool) : (pending app drained).Nodup := by
  have hnodup : app.memPool.Nodup := List.Nodup.of_map _ hpool.keys
  exact ((hperm.nodup_iff).mpr hnodup).filter _

/-- Independent transactions are executed in every order if they are acceptable at first. -/
theorem fromPool_of_independent {drained : List Item} {built : Built σ}
    (hafter : AfterPayload env app attributes batch start) (hpool : PoolWellFormed app.memPool)
    (hind : Independent env app.blocks batch (pending app app.memPool) start)
    (hperm : drained.Perm app.memPool)
    (h : buildBlock env app attributes id drained = some built) :
    fromPool start built = (pending app drained).filter fun item =>
      !skips env app.blocks batch start.state item := by
  obtain ⟨final, hrun, hexecuted⟩ := run_of_built hafter hpool hperm h
  have hpending : (pending app drained).Perm (pending app app.memPool) := hperm.filter _
  rw [fromPool, hexecuted, executed_of_independent hind [] (pending app drained)
    (nodup_pending hpool hperm) (fun item hitem => hpending.subset hitem) rfl hrun, List.drop_left]

theorem orderIrrelevant_of_independent
    (hafter : AfterPayload env app attributes batch start) (hpool : PoolWellFormed app.memPool)
    (hind : Independent env app.blocks batch (pending app app.memPool) start) :
    OrderIrrelevant env app attributes id start := by
  intro drained drained' built built' hperm hperm' hbuilt hbuilt' item
  have hboth : (pending app drained).Perm (pending app drained') :=
    (hperm.trans hperm'.symm).filter _
  rw [fromPool_of_independent hafter hpool hind hperm hbuilt,
    fromPool_of_independent hafter hpool hind hperm' hbuilt']
  exact ⟨(hboth.filter _).mem_iff, Iff.rfl⟩

theorem pending_append {first : List Item}
    (hmem : ∀ item ∈ first, item ∈ pending app app.memPool) (rest : List Item) :
    pending app (first ++ rest) = first ++ pending app rest := by
  have hkeep : first.filter (fun item =>
      !app.receipts.any fun receipt => receipt.transactionHash == item.txHash) = first :=
    List.filter_eq_self.mpr fun item hitem => (List.mem_filter.mp (hmem item hitem)).2
  unfold pending
  rw [List.filter_append, hkeep]

/-- Some order of the pool begins with the given transactions. -/
theorem exists_order {first : List Item} (hfirst : first.Nodup)
    (hmem : ∀ item ∈ first, item ∈ pending app app.memPool) :
    ∃ rest, (first ++ rest).Perm app.memPool := by
  obtain ⟨sub, hsub, hsublist⟩ := hfirst.subperm fun item hitem =>
    List.mem_of_mem_filter (hmem item hitem)
  obtain ⟨rest, hrest⟩ := hsublist.exists_perm_append
  exact ⟨rest, (hsub.symm.append_right rest).trans hrest.symm⟩

theorem independent_of_orderIrrelevant
    (hafter : AfterPayload env app attributes batch start) (hpool : PoolWellFormed app.memPool)
    (hreturns : ∀ drained, drained.Perm app.memPool →
      (buildBlock env app attributes id drained).isSome)
    (h : OrderIrrelevant env app attributes id start) :
    Independent env app.blocks batch (pending app app.memPool) start := by
  intro before item after hnodup hmem hbefore
  have hperm : (before ++ [item]).Perm (item :: before) := List.perm_append_singleton item before
  have hmem' : ∀ other ∈ before ++ [item], other ∈ pending app app.memPool :=
    fun other hother => hmem other (hperm.subset hother)
  obtain ⟨rest, horder⟩ := exists_order (hperm.nodup_iff.mpr hnodup) hmem'
  have horder' : (item :: before ++ rest).Perm app.memPool :=
    (hperm.symm.append_right rest).trans horder
  obtain ⟨built, hbuilt⟩ := Option.isSome_iff_exists.mp (hreturns _ horder)
  obtain ⟨built', hbuilt'⟩ := Option.isSome_iff_exists.mp (hreturns _ horder')
  obtain ⟨final, hrun, hexecuted⟩ := run_of_built hafter hpool horder hbuilt
  obtain ⟨final', hrun', hexecuted'⟩ := run_of_built hafter hpool horder' hbuilt'
  have hsame := (h _ _ built built' horder horder' hbuilt hbuilt' item).1
  have hall := nodup_pending hpool horder
  have hall' := nodup_pending hpool horder'
  rw [pending_append hmem', List.append_assoc] at hrun hall
  rw [pending_append hmem] at hrun' hall'
  obtain ⟨middle, hmiddle, hrest⟩ := runBatch_append.mp hrun
  rw [hbefore, Option.some.injEq] at hmiddle
  subst hmiddle
  have hfirst : item ∈ final'.executed.drop start.executed.length ↔ _ :=
    mem_executed_iff (show ([] ++ item :: (before ++ pending app rest)).Nodup from hall') rfl hrun'
  rw [fromPool, fromPool, hexecuted, hexecuted', mem_executed_iff hall hbefore hrest, hfirst]
    at hsame
  rw [Bool.eq_iff_iff, ← not_iff_not, Bool.not_eq_true, Bool.not_eq_true]
  exact hsame

/-- What is executed in one order is executed in every order. -/
theorem fromPool_of_chain {chain drained : List Item} {built : Built σ}
    (hafter : AfterPayload env app attributes batch start) (hpool : PoolWellFormed app.memPool)
    (hreturns : ∀ drained, drained.Perm app.memPool →
      (buildBlock env app attributes id drained).isSome)
    (h : OrderIrrelevant env app attributes id start) (hnodup : chain.Nodup)
    (hmem : ∀ item ∈ chain, item ∈ pending app app.memPool)
    (hchain : NoneSkipped env app.blocks batch chain start) (hperm : drained.Perm app.memPool)
    (hbuilt : buildBlock env app attributes id drained = some built) :
    ∀ item ∈ chain, item ∈ fromPool start built := by
  intro item hitem
  obtain ⟨rest, horder⟩ := exists_order hnodup hmem
  obtain ⟨first, hfirst⟩ := Option.isSome_iff_exists.mp (hreturns _ horder)
  obtain ⟨final, hrun, hexecuted⟩ := run_of_built hafter hpool horder hfirst
  rw [pending_append hmem] at hrun
  obtain ⟨middle, hmiddle, hlater⟩ := runBatch_append.mp hrun
  obtain ⟨done, -, hdone, -, -, -, hall, -⟩ := runBatch_spec env app.blocks batch hmiddle
  obtain ⟨more, -, hmore, -⟩ := runBatch_spec env app.blocks batch hlater
  refine (h _ _ first built horder hperm hfirst hbuilt item).1.mp ?_
  rw [fromPool, hexecuted, hmore, hdone, hall.mp hchain, List.append_assoc, List.drop_left]
  exact List.mem_append_left _ hitem

end Order

end Blocks

section Node

variable {γ X τ : Type} {config : NodeConfig γ X τ} {app : App ChainState} {attributes : Payload}
variable {id : ℕ} {batch : Batch} {start : Progress ChainState}

/-- When the pending transactions of a sender carry consecutive nonces from its current one
and are acceptable in that order, every order executes each of them or leaves it pending. -/
def NonePendingLost (config : NodeConfig γ X τ) (app : App ChainState) (attributes : Payload)
    (id : ℕ) (batch : Batch) (start : Progress ChainState) : Prop :=
  ∀ sender chain drained built,
    chain.Perm ((pending app app.memPool).filter fun item =>
      (nonceFrom config.txCodec sender item).isSome) →
    noncesFrom config.txCodec sender chain =
      List.range' (nonceOf start.state.move (toMoveAddress sender)) chain.length →
    NoneSkipped (node config) app.blocks batch chain start → drained.Perm app.memPool →
    buildBlock (node config) app attributes id drained = some built →
    ∀ item ∈ chain, item ∈ fromPool start built ∨ item ∈ (app.withBlock built).memPool

end Node

section Samples

open GasPrices

def laterR : ℕ := 0xc5d34ba98eb23fd211d2e00daa0373aab6c336162c2f19cfc1a18c745e25eb01

def laterS : ℕ := 0x1892068dce2f564893d21fb4aff139070dc8703d433c92306219ea2964878380

/-- The next transaction of the signer of the sample transaction, with nonce ten. -/
def laterTx : OpTxEnvelope :=
  .legacy
    { tx :=
        { chainId := some 1, nonce := 10, gasPrice := 20000000000, gasLimit := 21000,
          target := .call 0x3535353535353535353535353535353535353535,
          value := 1000000000000000, input := [] }
      signature := (leBytes 32 laterR).reverse ++ (leBytes 32 laterS).reverse ++ [0x26] }

def laterBytes : Bytes :=
  (leBytes 43
    0xf86b0a8504a817c80082520894353535353535353535353535353535353535353587038d7ea4c680008026).reverse ++
    0xa0 :: (leBytes 32 laterR).reverse ++ 0xa0 :: (leBytes 32 laterS).reverse

def laterHash : B256 := 0xdb725cd8af7109f3bf80eda545b202c01f04163681db30e84fecfe21f9eadc1b

/-- The consensus library at the two transactions of one sender. -/
def poolCodec : Codec where
  decode bytes :=
    if bytes.take 109 = laterBytes then some (laterTx, bytes.drop 109) else sampleCodec.decode bytes
  encode2718 tx := if tx = laterTx then laterBytes else sampleCodec.encode2718 tx
  recoverSigner tx := if tx = laterTx then some sampleSigner else sampleCodec.recoverSigner tx
  keccak256 bytes := if bytes = laterBytes then laterHash else sampleCodec.keccak256 bytes

def poolConfig : NodeConfig ℕ Unit Unit := { sampleConfig with txCodec := poolCodec }

def firstItem : Item := ⟨sampleHash, sampleTx, .ofBytes sampleBytes⟩

def laterItem : Item := ⟨laterHash, laterTx, .ofBytes laterBytes⟩

def appWithPool (pool : List Item) : App ChainState :=
  { appWithBaseFee 1000000000 with memPool := pool }

theorem executed_in {pool drained executed : List Item}
    (h : (buildBlock (node poolConfig) (appWithPool pool) (samplePayload []) 1 drained).map
      (fun built => built.executed) = some executed) :
    ∃ built, buildBlock (node poolConfig) (appWithPool pool) (samplePayload []) 1 drained =
      some built ∧ built.executed = executed := by
  obtain ⟨built, hbuilt, hexecuted⟩ := Option.map_eq_some_iff.mp h
  exact ⟨built, hbuilt, hexecuted⟩

end Samples

end OpMove.DrainOrder
