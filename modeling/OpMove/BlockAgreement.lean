import OpMove.BlockBuilding
import Mathlib.Data.List.Basic

/-!
Whether a built block, its stored transactions and its receipts tell one story. The
loop is described by one inversion lemma for its body and one lemma for a whole
batch: the executed items are a sublist of the batch, the receipts follow them one
by one, and nothing is left out exactly when nothing is skipped.
-/

namespace OpMove.BlockAgreement

open Primitives GasFees Transactions Errors BlockBuilding

section Batches

variable {σ χ : Type} (env : Env σ χ) (blocks : List ExtendedBlock) (batch : Batch)

/-- The loop body passes over the item: it has no normal form, or its execution rejects it. -/
def skips (state : σ) (item : Item) : Bool :=
  match NormalizedExtendedTxEnvelope.ofEnvelope env.codec item.tx with
  | none => true
  | some normalized =>
      match env.executeTransaction state blocks (batch.input item normalized) with
      | .error (.invalidTransaction _) => true
      | _ => false

/-- No item of a batch is passed over when its turn comes. -/
def NoneSkipped : List Item → Progress σ → Prop
  | [], _ => True
  | item :: rest, progress =>
      skips env blocks batch progress.state item = false ∧
        ∀ next, executeOne env blocks batch progress item = some next → NoneSkipped rest next

theorem record_spec {progress next : Progress σ} {item : Item}
    {normalized : NormalizedExtendedTxEnvelope} {outcome : Outcome χ}
    (h : record env batch progress item normalized outcome = some next) :
    ∃ receipt, next.receipts = progress.receipts ++ [receipt] ∧
      next.executed = progress.executed ++ [item] ∧ next.txIndex = progress.txIndex + 1 ∧
      receipt.transactionHash = item.txHash ∧ receipt.transactionIndex = progress.txIndex ∧
      receipt.l1BlockInfo = batch.l1BlockInfo item := by
  simp only [record, Option.bind_eq_bind, Option.bind_eq_some_iff, Option.some.injEq] at h
  obtain ⟨state, -, envelope, -, rfl⟩ := h
  exact ⟨_, rfl, rfl, rfl, rfl, rfl, rfl⟩

/-- One pass of the loop leaves everything as it is or executes the item. -/
theorem executeOne_cases {progress next : Progress σ} {item : Item}
    (h : executeOne env blocks batch progress item = some next) :
    (skips env blocks batch progress.state item = true ∧ next = progress) ∨
      (skips env blocks batch progress.state item = false ∧
        (NormalizedExtendedTxEnvelope.ofEnvelope env.codec item.tx).isSome ∧
        ∃ receipt, next.receipts = progress.receipts ++ [receipt] ∧
          next.executed = progress.executed ++ [item] ∧ next.txIndex = progress.txIndex + 1 ∧
          receipt.transactionHash = item.txHash ∧ receipt.transactionIndex = progress.txIndex ∧
          receipt.l1BlockInfo = batch.l1BlockInfo item) := by
  cases hnormal : NormalizedExtendedTxEnvelope.ofEnvelope env.codec item.tx with
  | none =>
    simp only [executeOne, hnormal, Option.some.injEq] at h
    exact Or.inl ⟨by simp only [skips, hnormal], h.symm⟩
  | some normalized =>
    simp only [executeOne, hnormal] at h
    cases hexecute : env.executeTransaction progress.state blocks (batch.input item normalized) with
    | ok outcome =>
      simp only [hexecute] at h
      exact Or.inr ⟨by simp only [skips, hnormal, hexecute], rfl, record_spec env batch h⟩
    | error e =>
      cases e with
      | invalidTransaction cause =>
        simp only [hexecute, Option.some.injEq] at h
        exact Or.inl ⟨by simp only [skips, hnormal, hexecute], h.symm⟩
      | user e => simp [hexecute] at h
      | invariantViolation violation => simp [hexecute] at h
      | panicked => simp [hexecute] at h

/-- What the loop body leaves of an item that is executed. -/
structure Executes (progress next : Progress σ) (item : Item)
    (normalized : NormalizedExtendedTxEnvelope) (outcome : Outcome χ) (receipt : ExtendedReceipt) :
    Prop where
  normal : NormalizedExtendedTxEnvelope.ofEnvelope env.codec item.tx = some normalized
  accepted : env.executeTransaction progress.state blocks (batch.input item normalized) =
    .ok outcome
  applies : env.applyChanges progress.state outcome.changes = some next.state
  executed : next.executed = progress.executed ++ [item]
  receipts : next.receipts = progress.receipts ++ [receipt]
  price : receipt.l2GasPrice = outcome.l2Price
  wraps : ∃ inner bloom, wrapReceipt item.tx inner bloom = some receipt.receipt

theorem executeOne_executes {progress next : Progress σ} {item : Item}
    (h : executeOne env blocks batch progress item = some next) :
    next = progress ∨ ∃ normalized outcome receipt,
      Executes env blocks batch progress next item normalized outcome receipt := by
  unfold executeOne at h
  split at h
  · exact Or.inl (Option.some.inj h).symm
  · rename_i normalized hnormal
    split at h
    · rename_i outcome houtcome
      refine Or.inr ⟨normalized, outcome, ?_⟩
      simp only [record, Option.bind_eq_bind, Option.bind_eq_some_iff, Option.some.injEq] at h
      obtain ⟨state, hstate, envelope, hwraps, rfl⟩ := h
      exact ⟨_, hnormal, houtcome, hstate, rfl, rfl, rfl, _, _, hwraps⟩
    · exact Or.inl (Option.some.inj h).symm
    · cases h

/-- What every pass of the loop keeps, a whole batch keeps. -/
theorem runBatch_keeps {P : Progress σ → Prop} {items : List Item}
    (hstep : ∀ item ∈ items, ∀ progress next, P progress →
      executeOne env blocks batch progress item = some next → P next)
    {progress final : Progress σ} (h : runBatch env blocks batch items progress = some final)
    (hstart : P progress) : P final := by
  induction items generalizing progress with
  | nil =>
    obtain rfl : progress = final := by simpa [runBatch] using h
    exact hstart
  | cons item rest ih =>
    simp only [runBatch, List.foldlM_cons, Option.bind_eq_bind, Option.bind_eq_some_iff] at h
    obtain ⟨next, hone, hrest⟩ := h
    refine ih (fun other hother => hstep other (List.mem_cons_of_mem item hother)) hrest ?_
    exact hstep item List.mem_cons_self progress next hstart hone

theorem runBatch_snoc {before : List Item} {item : Item} {progress next start : Progress σ}
    (hbefore : runBatch env blocks batch before start = some progress)
    (hone : executeOne env blocks batch progress item = some next) :
    runBatch env blocks batch (before ++ [item]) start = some next := by
  unfold runBatch at hbefore ⊢
  rw [List.foldlM_append, hbefore]
  simp [hone]

/-- A batch runs to its end when no pass stops; what holds before a pass is about the items that
came before it. -/
theorem runBatch_of_steps {P : List Item → Progress σ → Prop} {items : List Item}
    {start : Progress σ} (hstart : P [] start)
    (hstep : ∀ before item after progress, items = before ++ item :: after →
      runBatch env blocks batch before start = some progress → P before progress →
      ∃ next, executeOne env blocks batch progress item = some next ∧ P (before ++ [item]) next) :
    ∃ final, runBatch env blocks batch items start = some final ∧ P items final := by
  -- every part the batch begins with runs to its end
  have hparts : ∀ before after, items = before ++ after →
      ∃ progress, runBatch env blocks batch before start = some progress ∧ P before progress := by
    intro before
    induction before using List.reverseRecOn with
    | nil => exact fun _ _ => ⟨start, rfl, hstart⟩
    | append_singleton before item ih =>
      intro after hitems
      rw [List.append_assoc, List.singleton_append] at hitems
      obtain ⟨progress, hbefore, hprogress⟩ := ih (item :: after) hitems
      obtain ⟨next, hone, hnext⟩ := hstep before item after progress hitems hbefore hprogress
      exact ⟨next, runBatch_snoc env blocks batch hbefore hone, hnext⟩
  exact hparts items [] (List.append_nil items).symm

/-- The receipt comes from an accepted execution of the item. -/
def Recorded (item : Item) (receipt : ExtendedReceipt) : Prop :=
  ∃ state normalized outcome,
    NormalizedExtendedTxEnvelope.ofEnvelope env.codec item.tx = some normalized ∧
    env.executeTransaction state blocks (batch.input item normalized) = .ok outcome ∧
    receipt.l2GasPrice = outcome.l2Price

theorem runBatch_recorded {items : List Item} {state : σ} {final : Progress σ}
    (h : runBatch env blocks batch items (.start state) = some final) :
    List.Forall₂ (Recorded env blocks batch) final.executed final.receipts := by
  refine runBatch_keeps env blocks batch (P := fun progress =>
    List.Forall₂ (Recorded env blocks batch) progress.executed progress.receipts) ?_ h .nil
  intro item _ progress next hprogress hone
  rcases executeOne_executes env blocks batch hone with rfl | ⟨normalized, outcome, receipt, hone⟩
  · exact hprogress
  · rw [hone.executed, hone.receipts]
    exact List.rel_append hprogress
      (.cons ⟨progress.state, normalized, outcome, hone.normal, hone.accepted, hone.price⟩ .nil)

/-- A whole batch: receipts and executed items grow together, along a sublist of the
items, which is all of them exactly when none is skipped. -/
theorem runBatch_spec {items : List Item} {progress final : Progress σ}
    (h : runBatch env blocks batch items progress = some final) :
    ∃ done receipts, final.executed = progress.executed ++ done ∧
      final.receipts = progress.receipts ++ receipts ∧
      receipts.map (fun r => (r.transactionHash, r.l1BlockInfo)) =
        done.map (fun item => (item.txHash, batch.l1BlockInfo item)) ∧
      done.Sublist items ∧ (NoneSkipped env blocks batch items progress ↔ done = items) ∧
      ∀ item ∈ done, (NormalizedExtendedTxEnvelope.ofEnvelope env.codec item.tx).isSome := by
  induction items generalizing progress with
  | nil =>
    obtain rfl : progress = final := by simpa [runBatch] using h
    exact ⟨[], [], by simp [NoneSkipped]⟩
  | cons item rest ih =>
    simp only [runBatch, List.foldlM_cons, Option.bind_eq_bind, Option.bind_eq_some_iff] at h
    obtain ⟨next, hone, hrest⟩ := h
    obtain ⟨done, receipts, hdone, hreceipts, hpairs, hsub, hall, hnormal⟩ := ih hrest
    rcases executeOne_cases env blocks batch hone with ⟨hskip, rfl⟩ |
      ⟨hskip, hsome, receipt, hreceipt, hexecuted, -, hhash, -, hinfo⟩
    · refine ⟨done, receipts, hdone, hreceipts, hpairs, hsub.cons item, ?_, hnormal⟩
      have hshort : done ≠ item :: rest := by
        intro heq
        have hlen := hsub.length_le
        simp [heq] at hlen
      simp [NoneSkipped, hskip, hshort]
    · refine ⟨item :: done, receipt :: receipts, ?_, ?_, ?_, hsub.cons_cons item, ?_, ?_⟩
      · simp [hdone, hexecuted]
      · simp [hreceipts, hreceipt]
      · simp [hpairs, hhash, hinfo]
      · have hnext : (∀ other, executeOne env blocks batch progress item = some other →
            NoneSkipped env blocks batch rest other) ↔ NoneSkipped env blocks batch rest next := by
          constructor
          · exact fun hothers => hothers next hone
          · intro hthis other hother
            rw [hone, Option.some.injEq] at hother
            exact hother ▸ hthis
        simp [NoneSkipped, hskip, hnext, hall]
      · intro other hother
        rcases List.mem_cons.mp hother with rfl | hmem
        · exact hsome
        · exact hnormal other hmem

end Batches

section Blocks

variable {σ χ : Type} (env : Env σ χ)

/-- The parts of a built block, from the batch that was run. -/
theorem buildBlock_spec {app : App σ} {attributes : Payload} {id : ℕ} {drained : List Item}
    {built : Built σ} (h : buildBlock env app attributes id drained = some built) :
    ∃ parent baseFee batch progress, latestBlock app.blocks = some parent ∧
      baseFeeAfter env parent = some baseFee ∧
      batchFor (collectTransactions env app attributes drained) baseFee
        (headerForExecution parent attributes) = some batch ∧
      runBatch env app.blocks batch (collectTransactions env app attributes drained)
        (.start app.state) = some progress ∧
      built.executed = progress.executed ∧
      built.receipts = progress.receipts.map
        (fun receipt => { receipt with blockHash := built.block.hash }) ∧
      built.block.transactions = (collectTransactions env app attributes drained).map
        (fun item => env.codec.trieHash item.tx) ∧
      (∀ i, built.transactions[i]?.map
          (fun tx : ExtendedTransaction => (tx.transactionIndex, tx.inner)) =
        (collectTransactions env app attributes drained)[i]?.map
          (fun item : Item => (i, item.tx))) ∧
      built.transactionLeaves.length = (collectTransactions env app attributes drained).length ∧
      built.receiptLeaves.length = progress.receipts.length := by
  simp only [buildBlock, executeTransactions, Option.bind_eq_bind, Option.bind_eq_some_iff] at h
  obtain ⟨parent, hparent, baseFee, hfee, progress, ⟨batch, hbatch, hrun⟩, hbuilt⟩ := h
  split_ifs at hbuilt
  obtain rfl := Option.some.inj hbuilt
  refine ⟨parent, baseFee, batch, progress, hparent, hfee, hbatch, hrun, rfl, rfl, ?_, ?_, ?_, ?_⟩
  · simp only [List.map_map, Function.comp_def]
  · intro i
    simp only [List.getElem?_mapIdx, List.getElem?_map, Option.map_map, Function.comp_def]
  · simp only [List.length_map]
  · simp only [List.length_map]

/-- The state of a built block is the one its batch leaves. -/
theorem buildBlock_run {app : App σ} {attributes : Payload} {id : ℕ} {drained : List Item}
    {built : Built σ} (h : buildBlock env app attributes id drained = some built) :
    ∃ batch progress, runBatch env app.blocks batch
        (collectTransactions env app attributes drained) (.start app.state) = some progress ∧
      built.state = progress.state ∧ built.executed = progress.executed := by
  simp only [buildBlock, executeTransactions, Option.bind_eq_bind, Option.bind_eq_some_iff] at h
  obtain ⟨parent, -, baseFee, -, progress, ⟨batch, -, hrun⟩, hbuilt⟩ := h
  split_ifs at hbuilt
  obtain rfl := Option.some.inj hbuilt
  exact ⟨batch, progress, hrun, rfl, rfl⟩

/-- What is executed is part of the batch, and everything executed has a receipt. -/
theorem buildBlock_executed {app : App σ} {attributes : Payload} {id : ℕ} {drained : List Item}
    {built : Built σ} (h : buildBlock env app attributes id drained = some built) :
    built.executed.Sublist (collectTransactions env app attributes drained) ∧
      ∀ item ∈ built.executed, ∃ receipt ∈ built.receipts,
        receipt.transactionHash = item.txHash := by
  obtain ⟨parent, baseFee, batch, progress, -, -, -, hrun, hexecuted, hreceipts, -⟩ :=
    buildBlock_spec env h
  obtain ⟨done, receipts, hdone, hnew, hpairs, hsub, -, -⟩ :=
    runBatch_spec env app.blocks batch hrun
  have hdone : built.executed = done := by
    rw [hexecuted, hdone]
    rfl
  refine ⟨hdone ▸ hsub, fun item hitem => ?_⟩
  have hpair : (item.txHash, batch.l1BlockInfo item) ∈
      receipts.map fun r => (r.transactionHash, r.l1BlockInfo) := by
    rw [hpairs]
    exact List.mem_map.mpr ⟨item, hdone ▸ hitem, rfl⟩
  obtain ⟨receipt, hmem, heq⟩ := List.mem_map.mp hpair
  refine ⟨{ receipt with blockHash := built.block.hash }, ?_, (Prod.mk.inj heq).1⟩
  rw [hreceipts, hnew]
  exact List.mem_map.mpr ⟨receipt, by simpa [Progress.start] using hmem, rfl⟩

theorem buildBlock_stateRoot {app : App σ} {attributes : Payload} {id : ℕ} {drained : List Item}
    {built : Built σ} (h : buildBlock env app attributes id drained = some built) :
    built.block.header.stateRoot = env.stateRoot built.state := by
  simp only [buildBlock, executeTransactions, Option.bind_eq_bind, Option.bind_eq_some_iff] at h
  obtain ⟨parent, -, baseFee, -, progress, -, hbuilt⟩ := h
  split_ifs at hbuilt
  obtain rfl := Option.some.inj hbuilt
  rfl

/-- A built block goes on from the latest one, under the given payload id. -/
theorem buildBlock_block {app : App σ} {attributes : Payload} {id : ℕ} {drained : List Item}
    {built : Built σ} (h : buildBlock env app attributes id drained = some built) :
    ∃ parent, latestBlock app.blocks = some parent ∧
      built.block.header.parentHash = parent.hash ∧
      built.block.header.number = parent.header.number + 1 ∧ built.block.payloadId = id ∧
      built.block.hash = env.blockHash built.block.header := by
  simp only [buildBlock, executeTransactions, Option.bind_eq_bind, Option.bind_eq_some_iff] at h
  obtain ⟨parent, hparent, baseFee, -, progress, -, hbuilt⟩ := h
  split_ifs at hbuilt
  obtain rfl := Option.some.inj hbuilt
  exact ⟨parent, hparent, rfl, rfl, rfl, rfl⟩

/-- What the header of a built block commits to. -/
theorem buildBlock_roots {app : App σ} {attributes : Payload} {id : ℕ} {drained : List Item}
    {built : Built σ} (h : buildBlock env app attributes id drained = some built) :
    built.block.header.transactionsRoot = env.orderedTrieRoot
        ((collectTransactions env app attributes drained).map fun item =>
          env.codec.encode item.tx) ∧
      built.block.header.withdrawalsRoot =
        some (env.orderedTrieRoot (attributes.withdrawals.map Withdrawal.encode)) ∧
      built.block.header.receiptsRoot = env.orderedTrieRoot
        (built.receipts.map fun receipt => env.encodeReceipt receipt.receipt) ∧
      built.block.header.parentBeaconBlockRoot = some attributes.parentBeaconBlockRoot ∧
      (∃ fee ≤ maxU64, built.block.header.baseFeePerGas = some fee) ∧
      built.block.header.blobGasUsed = some 0 ∧ built.block.header.excessBlobGas = some 0 := by
  simp only [buildBlock, executeTransactions, Option.bind_eq_bind, Option.bind_eq_some_iff] at h
  obtain ⟨parent, hparent, baseFee, -, progress, -, hbuilt⟩ := h
  split_ifs at hbuilt
  obtain rfl := Option.some.inj hbuilt
  refine ⟨?_, rfl, ?_, rfl, ⟨_, Nat.min_le_right _ _, rfl⟩, rfl, rfl⟩
  · simp only [List.map_map, Function.comp_def]
  · simp only [List.map_map, Function.comp_def]

/-- A payload that has its block already changes nothing. -/
theorem startBlockBuild_cases {app next : App σ} {attributes : Payload} {id : ℕ}
    {drained : List Item} (h : startBlockBuild env app attributes id drained = some next) :
    (app.isBuilt id = true ∧ next = app) ∨
      (app.isBuilt id = false ∧ ∃ built,
        buildBlock env app attributes id drained = some built ∧ next = app.withBlock built) := by
  unfold startBlockBuild at h
  by_cases hbuilt : app.isBuilt id = true
  · rw [if_pos hbuilt] at h
    exact Or.inl ⟨hbuilt, (Option.some.inj h).symm⟩
  · rw [if_neg hbuilt] at h
    obtain ⟨built, hblock, rfl⟩ := Option.map_eq_some_iff.mp h
    exact Or.inr ⟨Bool.eq_false_iff.mpr hbuilt, built, hblock, rfl⟩

/-- The stored transactions are those of the batch, at the price of the base fee in the header. -/
theorem buildBlock_stored {app : App σ} {attributes : Payload} {id : ℕ} {drained : List Item}
    {built : Built σ} {parent : ExtendedBlock} {baseFee : U256}
    (h : buildBlock env app attributes id drained = some built)
    (hparent : latestBlock app.blocks = some parent)
    (hbase : baseFeeAfter env parent = some baseFee) :
    (∀ stored ∈ built.transactions, stored.effectiveGasPrice =
      effectiveGasPrice stored.inner (some (min baseFee.toNat maxU64))) ∧
    ∀ item ∈ collectTransactions env app attributes drained,
      ∃ stored ∈ built.transactions, stored.inner = item.tx := by
  simp only [buildBlock, executeTransactions, Option.bind_eq_bind, Option.bind_eq_some_iff] at h
  obtain ⟨parent', hparent', baseFee', hfee, progress, ⟨batch, hbatch, hrun⟩, hbuilt⟩ := h
  obtain rfl : parent = parent' := Option.some.inj (hparent.symm.trans hparent')
  obtain rfl : baseFee = baseFee' := Option.some.inj (hbase.symm.trans hfee)
  split_ifs at hbuilt
  obtain rfl := Option.some.inj hbuilt
  constructor
  · intro stored hstored
    obtain ⟨index, hindex, rfl⟩ := List.mem_mapIdx.mp hstored
    rfl
  · intro item hitem
    obtain ⟨index, hindex, hget⟩ := List.mem_iff_getElem.mp hitem
    refine ⟨_, List.mem_mapIdx.mpr ⟨index, by simpa using hindex, rfl⟩, ?_⟩
    simp [hget]

/-- The block lists what was executed, and its transactions, receipts and stored
transactions agree position by position. -/
structure Agrees (built : Built σ) : Prop where
  executed : built.block.transactions =
    built.executed.map fun item => env.codec.trieHash item.tx
  receipts : built.receipts.map (fun receipt => receipt.transactionHash) =
    built.block.transactions
  stored : ∀ i, (built.transactions.filter fun tx => tx.transactionIndex = i).map
    (fun tx => tx.hash env.codec) = built.block.transactions[i]?.toList
  leaves : built.transactionLeaves.length = built.receiptLeaves.length
  responses : ∀ tx ∈ built.transactions, (tx.sender env.codec).isSome

/-- Every item of the batch is executed when its turn comes. -/
def AllExecuted (app : App σ) (attributes : Payload) (drained : List Item) : Prop :=
  ∀ parent baseFee batch, latestBlock app.blocks = some parent →
    baseFeeAfter env parent = some baseFee →
    batchFor (collectTransactions env app attributes drained) baseFee
      (headerForExecution parent attributes) = some batch →
    NoneSkipped env app.blocks batch (collectTransactions env app attributes drained)
      (.start app.state)

/-- Picking an index out of a list whose elements know their positions. -/
theorem filter_index_eq {α : Type} (index : α → ℕ) (l : List α)
    (h : ∀ i a, l[i]? = some a → index a = i) (i : ℕ) :
    l.filter (fun a => index a = i) = l[i]?.toList := by
  induction l using List.reverseRecOn with
  | nil => simp
  | append_singleton l a ih =>
    have hinit : ∀ j b, l[j]? = some b → index b = j := by
      intro j b hb
      refine h j b ?_
      rw [List.getElem?_append_left (List.getElem?_eq_some_iff.mp hb).1, hb]
    have hlast : index a = l.length := h l.length a (by simp)
    rw [List.filter_append, ih hinit, getElem?_concat]
    by_cases hi : i = l.length
    · simp [hi, hlast]
    · simp [hi, hlast, Ne.symm hi]

/-- The stored transactions sit at their own indices, whatever was skipped. -/
theorem stored_agrees {app : App σ} {attributes : Payload} {id : ℕ} {drained : List Item}
    {built : Built σ} (h : buildBlock env app attributes id drained = some built) (i : ℕ) :
    (built.transactions.filter fun tx => tx.transactionIndex = i).map
      (fun tx => tx.hash env.codec) = built.block.transactions[i]?.toList := by
  obtain ⟨-, -, -, -, -, -, -, -, -, -, hhashes, hstored, -, -⟩ := buildBlock_spec env h
  have hindex : ∀ (j : ℕ) (tx : ExtendedTransaction),
      built.transactions[j]? = some tx → tx.transactionIndex = j := by
    intro j tx htx
    have hj := hstored j
    rw [htx, Option.map_some, eq_comm, Option.map_eq_some_iff] at hj
    obtain ⟨item, -, hpair⟩ := hj
    exact (congrArg Prod.fst hpair).symm
  have hhash : built.transactions[i]?.map (fun tx => tx.hash env.codec) =
      built.block.transactions[i]? := by
    have hi := congrArg (Option.map fun p => env.codec.trieHash p.2) (hstored i)
    rw [Option.map_map, Option.map_map] at hi
    rw [hhashes, List.getElem?_map]
    exact hi
  rw [filter_index_eq _ _ hindex, ← hhash]
  cases built.transactions[i]? <;> rfl

theorem responses_of_executed {built : Built σ}
    (h : ∀ tx ∈ built.transactions,
      (NormalizedExtendedTxEnvelope.ofEnvelope env.codec tx.inner).isSome) :
    ∀ tx ∈ built.transactions, (tx.sender env.codec).isSome := by
  intro tx htx
  obtain ⟨normalized, hnormalized⟩ := Option.isSome_iff_exists.mp (h tx htx)
  rcases NormalizedExtendedTxEnvelope.signer_of_ofEnvelope hnormalized with ⟨deposit, hdeposit⟩ | hsigner
  · simp [ExtendedTransaction.sender, hdeposit]
  · unfold ExtendedTransaction.sender
    split
    · rfl
    · exact hsigner

/-- The transactions of a block are those of its batch. -/
theorem item_of_stored {app : App σ} {attributes : Payload} {id : ℕ} {drained : List Item}
    {built : Built σ} (h : buildBlock env app attributes id drained = some built)
    {stored : ExtendedTransaction} (hstored : stored ∈ built.transactions) :
    ∃ item ∈ collectTransactions env app attributes drained, item.tx = stored.inner := by
  obtain ⟨_, _, _, _, -, -, -, -, -, -, -, hinner, -⟩ := buildBlock_spec env h
  obtain ⟨index, hindex⟩ := List.mem_iff_getElem?.mp hstored
  have hget := hinner index
  rw [hindex, Option.map_some, eq_comm, Option.map_eq_some_iff] at hget
  obtain ⟨item, hitem, hpair⟩ := hget
  exact ⟨item, List.mem_of_getElem? hitem, (Prod.mk.inj hpair).2⟩

/-- A block agrees with its receipts exactly when no transaction of the batch was
skipped and every key is the hash of the EIP-2718 encoding. -/
theorem agrees_iff {app : App σ} {attributes : Payload} {id : ℕ} {drained : List Item}
    {built : Built σ} (h : buildBlock env app attributes id drained = some built) :
    Agrees env built ↔ AllExecuted env app attributes drained ∧
      ∀ item ∈ collectTransactions env app attributes drained,
        item.txHash = env.codec.trieHash item.tx := by
  have hstoredAt := stored_agrees env h
  obtain ⟨parent, baseFee, batch, progress, hparent, hfee, hbatch, hrun, hexecuted, hreceipts,
    hhashes, -, htxLeaves, hreceiptLeaves⟩ := buildBlock_spec env h
  obtain ⟨done, receipts, hdone, hnew, hpairs, hsub, hall, hnormal⟩ :=
    runBatch_spec env app.blocks batch hrun
  set items := collectTransactions env app attributes drained with hitems
  have hdone : built.executed = done := by
    rw [hexecuted, hdone]
    rfl
  have hnew : progress.receipts = receipts := by
    rw [hnew]
    rfl
  have hkeys : built.receipts.map (fun receipt => receipt.transactionHash) =
      done.map fun item => item.txHash := by
    have hfst := congrArg (List.map Prod.fst) hpairs
    rw [List.map_map, List.map_map] at hfst
    rw [hreceipts, hnew, List.map_map]
    exact hfst
  have hexec : AllExecuted env app attributes drained ↔ done = items := by
    rw [← hall]
    constructor
    · exact fun hexec => hexec parent baseFee batch hparent hfee hbatch
    · intro hnone parent' baseFee' batch' hparent' hfee' hbatch'
      rw [hparent, Option.some.injEq] at hparent'
      subst hparent'
      rw [hfee, Option.some.injEq] at hfee'
      subst hfee'
      rw [hbatch, Option.some.injEq] at hbatch'
      exact hbatch' ▸ hnone
  rw [hexec]
  constructor
  · intro hagrees
    have hlen : done.length = items.length := by
      have hlength := congrArg List.length hagrees.executed
      rw [hhashes, hdone, List.length_map, List.length_map] at hlength
      exact hlength.symm
    have hsame : done = items := hsub.eq_of_length hlen
    refine ⟨hsame, ?_⟩
    have hequal : items.map (fun item => item.txHash) =
        items.map fun item => env.codec.trieHash item.tx := by
      rw [← hhashes, ← hagrees.receipts, hkeys, hsame]
    exact List.map_inj_left.mp hequal
  · intro hcond
    obtain ⟨hsame, hkey⟩ := hcond
    have hequal : items.map (fun item => item.txHash) =
        items.map fun item => env.codec.trieHash item.tx := List.map_inj_left.mpr hkey
    refine ⟨?_, ?_, hstoredAt, ?_, responses_of_executed env ?_⟩
    · rw [hhashes, hdone, hsame]
    · rw [hkeys, hsame, hequal, hhashes]
    · have hlength := congrArg List.length hkeys
      rw [hreceipts, hnew, List.length_map, List.length_map, List.length_map] at hlength
      rw [htxLeaves, hreceiptLeaves, hnew, hlength, hsame]
    · intro tx htx
      obtain ⟨item, hitem, hinner⟩ := item_of_stored env h htx
      rw [← hinner]
      exact hnormal item (hsame ▸ hitem)

end Blocks

section Samples

def sampleR : ℕ := 0x28ef61340bd939bc2195fe537567866003e1a15d3c71ff63e1590620aa636276

def sampleS : ℕ := 0x67cbe9d8997f761aecb703304b3800ccf555c9f3dc64214b297fb1966a3b6d83

/-- The sample transaction of EIP-155, with its signature. -/
def sampleTx : OpTxEnvelope :=
  .legacy
    { tx :=
        { chainId := some 1, nonce := 9, gasPrice := 20000000000, gasLimit := 21000,
          target := .call 0x3535353535353535353535353535353535353535,
          value := 1000000000000000000, input := [] }
      signature := (leBytes 32 sampleR).reverse ++ (leBytes 32 sampleS).reverse ++ [0x25] }

def sampleBytes : Bytes :=
  (leBytes 44 0xf86c098504a817c800825208943535353535353535353535353535353535353535880de0b6b3a76400008025).reverse ++
    0xa0 :: (leBytes 32 sampleR).reverse ++ 0xa0 :: (leBytes 32 sampleS).reverse

def sampleHash : B256 := 0x33469b22e9f636356c4160a87eb19df52b7412e8eac32a4a55ffe88ea8350788

/-- A transaction whose signature, with both words zero, belongs to nobody. -/
def unsignedTx : OpTxEnvelope :=
  .legacy
    { tx :=
        { chainId := none, nonce := 0, gasPrice := 0, gasLimit := 21000, target := .create,
          value := 0, input := [] }
      signature := List.replicate 64 0 ++ [0x1b] }

def unsignedBytes : Bytes := [0xcb, 0x80, 0x80, 0x82, 0x52, 0x08, 0x80, 0x80, 0x80, 0x1b, 0x80, 0x80]

def unsignedHash : B256 := 0x1e10c52bc8a6c3ae76ac5e2435121f04d4688e458a5cd5c7ecc7692e9616540b

/-- The consensus library at the two sample transactions. -/
def sampleCodec : Codec where
  decode bytes :=
    if bytes.take 110 = sampleBytes then some (sampleTx, bytes.drop 110)
    else if bytes.take 12 = unsignedBytes then some (unsignedTx, bytes.drop 12)
    else none
  encode2718 tx :=
    if tx = sampleTx then sampleBytes else if tx = unsignedTx then unsignedBytes else []
  recoverSigner tx :=
    if tx = sampleTx then some 0x9d8a62f656a8d1615c1294fd71e9cfb3e4855a4f else none
  keccak256 bytes :=
    if bytes = sampleBytes then sampleHash
    else if bytes = unsignedBytes then unsignedHash else BitVec.ofNat 256 (beNat bytes)

/-- Every transaction succeeds and uses 21000 gas; nothing below reads the roots. -/
def sampleEnv : Env Unit Unit where
  codec := sampleCodec
  executeTransaction _ _ _ :=
    .ok { isOk := true, changes := (), gasUsed := 21000, l2Price := 0, logs := [], deployment := none }
  applyChanges _ _ := some ()
  stateRoot _ := 0
  gasFee := ⟨6, 250⟩
  blockHash header := BitVec.ofNat 256 header.number
  orderedTrieRoot leaves := BitVec.ofNat 256 leaves.length
  encodeReceipt _ := []
  logBloom _ := 0

def sampleHeader : Header where
  parentHash := 0
  number := 0
  timestamp := 0
  beneficiary := 0
  gasLimit := 30000000
  mixHash := 0
  parentBeaconBlockRoot := none
  transactionsRoot := 0
  withdrawalsRoot := none
  baseFeePerGas := some 1000000000
  blobGasUsed := none
  excessBlobGas := none
  stateRoot := 0
  receiptsRoot := 0
  logsBloom := 0
  gasUsed := 0

/-- A chain with its genesis block only. -/
def sampleApp : App Unit where
  state := ()
  memPool := []
  receipts := []
  transactions := []
  blocks := [⟨0, 0, 0, sampleHeader, []⟩]

def samplePayload (transactions : List Bytes) : Payload where
  timestamp := 1
  prevRandao := 0
  suggestedFeeRecipient := 0
  withdrawals := []
  parentBeaconBlockRoot := 0
  transactions := transactions
  gasLimit := 30000000

theorem block_lists_skipped_transaction :
    ∃ built, buildBlock sampleEnv sampleApp (samplePayload [unsignedBytes, sampleBytes]) 1 [] =
        some built ∧
      built.block.transactions = [unsignedHash, sampleHash] ∧
      built.receipts.map (fun receipt => receipt.transactionHash) = [sampleHash] ∧
      ¬ Agrees sampleEnv built := by
  have hrun : (buildBlock sampleEnv sampleApp (samplePayload [unsignedBytes, sampleBytes]) 1 []).map
      (fun built => (built.block.transactions,
        built.receipts.map fun receipt => receipt.transactionHash)) =
      some ([unsignedHash, sampleHash], [sampleHash]) := by decide +kernel
  obtain ⟨built, hbuilt, hpair⟩ := Option.map_eq_some_iff.mp hrun
  obtain ⟨hblock, hreceipts⟩ := Prod.mk.inj hpair
  refine ⟨built, hbuilt, hblock, hreceipts, fun hagrees => ?_⟩
  have hsame := hagrees.receipts
  rw [hblock, hreceipts] at hsame
  simp at hsame

theorem agrees_iff_sample :
    ∃ built, buildBlock sampleEnv sampleApp (samplePayload [sampleBytes]) 1 [] = some built ∧
      Agrees sampleEnv built := by
  have hrun : (buildBlock sampleEnv sampleApp (samplePayload [sampleBytes]) 1 []).isSome := by
    decide +kernel
  obtain ⟨built, hbuilt⟩ := Option.isSome_iff_exists.mp hrun
  have hitems : collectTransactions sampleEnv sampleApp (samplePayload [sampleBytes]) [] =
      [⟨sampleHash, sampleTx, .ofBytes []⟩] := by decide +kernel
  have hskip : ∀ batch, skips sampleEnv sampleApp.blocks batch ()
      ⟨sampleHash, sampleTx, .ofBytes []⟩ = false := by
    intro batch
    have hnormal : (NormalizedExtendedTxEnvelope.ofEnvelope sampleCodec sampleTx).isSome := by
      decide +kernel
    obtain ⟨normalized, hnormalized⟩ := Option.isSome_iff_exists.mp hnormal
    simp only [skips, sampleEnv, hnormalized]
  refine ⟨built, hbuilt, (agrees_iff sampleEnv hbuilt).mpr ⟨?_, ?_⟩⟩
  · intro parent baseFee batch _ _ _
    rw [hitems]
    exact ⟨hskip batch, fun _ _ => trivial⟩
  · rw [hitems]
    intro item hitem
    rw [List.mem_singleton.mp hitem]
    decide +kernel

end Samples

end OpMove.BlockAgreement
