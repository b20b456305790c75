import OpMove.BlockAgreement

/-!
Block building over two kinds of state. When two environments differ in the state only, and related
states execute a transaction alike and stay related under its changes, then a block that is built on
one side is built on the other, with the same receipts and transactions, over a related state. What
a transaction has to satisfy for this is asked of the transactions of the batch only, each when its
turn comes.
-/

namespace OpMove.BuildSimulation

open Primitives Transactions Errors BlockBuilding BlockAgreement

section Carrying

variable {σ τ : Type}

/-- The variables of a batch over another state. -/
def carry (progress : Progress σ) (state : τ) : Progress τ where
  state := state
  totalTip := progress.totalTip
  receipts := progress.receipts
  cumulativeGasUsed := progress.cumulativeGasUsed
  logsBloom := progress.logsBloom
  txIndex := progress.txIndex
  logOffset := progress.logOffset
  executed := progress.executed

theorem carry_start (s : σ) (t : τ) : carry (.start s) t = .start t := rfl

/-- What a build adds, over another state. -/
def carryBuilt (built : Built σ) (state : τ) : Built τ where
  state := state
  block := built.block
  receipts := built.receipts
  transactions := built.transactions
  transactionLeaves := built.transactionLeaves
  receiptLeaves := built.receiptLeaves
  executed := built.executed

end Carrying

section Simulation

variable {σ τ χ : Type}

/-- A condition on every transaction of a batch, in the state it is executed in. -/
def AllowedBatch (allowed : σ → ExecutionInput → Prop) (env : Env σ χ) (blocks : List ExtendedBlock)
    (batch : Batch) : List Item → Progress σ → Prop
  | [], _ => True
  | item :: rest, progress =>
      (∀ normalized, NormalizedExtendedTxEnvelope.ofEnvelope env.codec item.tx = some normalized →
        allowed progress.state (batch.input item normalized)) ∧
      ∀ next, executeOne env blocks batch progress item = some next →
        AllowedBatch allowed env blocks batch rest next

/-- The condition on the transactions of a block. -/
def AllowedBuild (allowed : σ → ExecutionInput → Prop) (env : Env σ χ) (app : App σ)
    (attributes : Payload) (drained : List Item) : Prop :=
  let items := collectTransactions env app attributes drained
  ∀ parent baseFee batch, latestBlock app.blocks = some parent →
    baseFeeAfter env parent = some baseFee →
    batchFor items baseFee (headerForExecution parent attributes) = some batch →
      AllowedBatch allowed env app.blocks batch items (.start app.state)

/-- Two environments over related states, each with the blocks it sees. -/
structure Simulates (R : σ → τ → Prop) (allowed : σ → ExecutionInput → Prop) (env : Env σ χ)
    (blocks : List ExtendedBlock) (other : Env τ χ) (otherBlocks : List ExtendedBlock) : Prop where
  codec : other.codec = env.codec
  gasFee : other.gasFee = env.gasFee
  blockHash : other.blockHash = env.blockHash
  orderedTrieRoot : other.orderedTrieRoot = env.orderedTrieRoot
  encodeReceipt : other.encodeReceipt = env.encodeReceipt
  logBloom : other.logBloom = env.logBloom
  stateRoot : ∀ s t, R s t → other.stateRoot t = env.stateRoot s
  executes : ∀ s t input, R s t → allowed s input →
    other.executeTransaction t otherBlocks input = env.executeTransaction s blocks input
  applies : ∀ s t input outcome next, R s t → allowed s input →
    env.executeTransaction s blocks input = .ok outcome →
    env.applyChanges s outcome.changes = some next →
      ∃ t', other.applyChanges t outcome.changes = some t' ∧ R next t'

variable {R : σ → τ → Prop} {allowed : σ → ExecutionInput → Prop} {env : Env σ χ} {other : Env τ χ}
variable {blocks otherBlocks : List ExtendedBlock} {batch : Batch}

namespace Simulates

variable (h : Simulates R allowed env blocks other otherBlocks)
include h

theorem logsBloomOf_eq (logs : List Log) : logsBloomOf other logs = logsBloomOf env logs := by
  unfold logsBloomOf
  rw [h.logBloom]

theorem record_simulates {progress next : Progress σ} {item : Item}
    {normalized : NormalizedExtendedTxEnvelope} {outcome : Outcome χ} {t : τ}
    (hstate : R progress.state t) (hallowed : allowed progress.state (batch.input item normalized))
    (houtcome : env.executeTransaction progress.state blocks (batch.input item normalized) =
      .ok outcome)
    (hrecord : record env batch progress item normalized outcome = some next) :
    ∃ t', record other batch (carry progress t) item normalized outcome = some (carry next t') ∧
      R next.state t' := by
  simp only [record, Option.bind_eq_bind, Option.bind_eq_some_iff, Option.some.injEq] at hrecord
  obtain ⟨state, happly, envelope, hwraps, rfl⟩ := hrecord
  obtain ⟨t', ht', hnext⟩ := h.applies _ _ _ _ _ hstate hallowed houtcome happly
  refine ⟨t', ?_, hnext⟩
  simp only [record, Option.bind_eq_bind]
  rw [show (carry progress t).state = t from rfl, ht', Option.bind_some, h.logsBloomOf_eq,
    show (carry progress t).cumulativeGasUsed = progress.cumulativeGasUsed from rfl, hwraps]
  rfl

/-- One pass of the loop. -/
theorem executeOne_simulates {progress next : Progress σ} {item : Item} {t : τ}
    (hstate : R progress.state t)
    (hallowed : ∀ normalized, NormalizedExtendedTxEnvelope.ofEnvelope env.codec item.tx =
      some normalized → allowed progress.state (batch.input item normalized))
    (hone : executeOne env blocks batch progress item = some next) :
    ∃ t', executeOne other otherBlocks batch (carry progress t) item = some (carry next t') ∧
      R next.state t' := by
  unfold executeOne at hone ⊢
  rw [h.codec]
  cases hnormal : NormalizedExtendedTxEnvelope.ofEnvelope env.codec item.tx with
  | none =>
    rw [hnormal] at hone
    obtain rfl := Option.some.inj hone
    exact ⟨t, rfl, hstate⟩
  | some normalized =>
    rw [hnormal] at hone
    have hinput := hallowed normalized hnormal
    have hsame := h.executes _ _ _ hstate hinput
    dsimp only at hone ⊢
    rw [show (carry progress t).state = t from rfl, hsame]
    cases houtcome : env.executeTransaction progress.state blocks (batch.input item normalized) with
    | ok outcome =>
      rw [houtcome] at hone
      exact h.record_simulates hstate hinput houtcome hone
    | error e =>
      rw [houtcome] at hone
      cases e with
      | invalidTransaction cause =>
        obtain rfl := Option.some.inj hone
        exact ⟨t, rfl, hstate⟩
      | user e => cases hone
      | invariantViolation violation => cases hone
      | panicked => cases hone

/-- A whole batch. -/
theorem runBatch_simulates {items : List Item} {progress final : Progress σ} {t : τ}
    (hstate : R progress.state t)
    (hallowed : AllowedBatch allowed env blocks batch items progress)
    (hrun : runBatch env blocks batch items progress = some final) :
    ∃ t', runBatch other otherBlocks batch items (carry progress t) = some (carry final t') ∧
      R final.state t' := by
  induction items generalizing progress t with
  | nil =>
    obtain rfl : progress = final := by simpa [runBatch] using hrun
    exact ⟨t, rfl, hstate⟩
  | cons item rest ih =>
    simp only [runBatch, List.foldlM_cons, Option.bind_eq_bind, Option.bind_eq_some_iff] at hrun
    obtain ⟨next, hone, hrest⟩ := hrun
    obtain ⟨hitem, hothers⟩ := hallowed
    obtain ⟨t', hother, hnext⟩ := h.executeOne_simulates hstate hitem hone
    obtain ⟨last, hlast, hfinal⟩ := ih hnext (hothers next hone) hrest
    refine ⟨last, ?_, hfinal⟩
    rw [runBatch, List.foldlM_cons, hother, Option.bind_eq_bind, Option.bind_some]
    exact hlast

end Simulates

/-- A block that is built on one side is built on the other. -/
theorem buildBlock_simulates {app : App σ} {otherApp : App τ} {attributes : Payload} {id : ℕ}
    {drained : List Item} {built : Built σ}
    (h : Simulates R allowed env app.blocks other otherApp.blocks)
    (hlatest : latestBlock otherApp.blocks = latestBlock app.blocks)
    (hreceipts : otherApp.receipts = app.receipts) (hstate : R app.state otherApp.state)
    (hallowed : AllowedBuild allowed env app attributes drained)
    (hbuilt : buildBlock env app attributes id drained = some built) :
    ∃ t, buildBlock other otherApp attributes id drained = some (carryBuilt built t) ∧
      R built.state t := by
  have hitems : collectTransactions other otherApp attributes drained =
      collectTransactions env app attributes drained := by
    unfold collectTransactions
    rw [h.codec, hreceipts]
  simp only [buildBlock, executeTransactions, Option.bind_eq_bind, Option.bind_eq_some_iff] at hbuilt
  obtain ⟨parent, hparent, baseFee, hfee, progress, ⟨batch, hbatch, hrun⟩, hbuilt⟩ := hbuilt
  split_ifs at hbuilt with hgas
  obtain rfl := Option.some.inj hbuilt
  obtain ⟨t, hother, hfinal⟩ := h.runBatch_simulates hstate
    (hallowed parent baseFee batch hparent hfee hbatch) hrun
  have hotherFee : baseFeeAfter other parent = some baseFee := by
    rw [← hfee, baseFeeAfter, baseFeeAfter, h.gasFee]
  rw [carry_start] at hother
  refine ⟨t, ?_, hfinal⟩
  simp only [buildBlock, executeTransactions, hitems, hlatest, hparent, hotherFee, hbatch, hother,
    Option.bind_eq_bind, Option.bind_some, h.codec, h.encodeReceipt, h.orderedTrieRoot, h.blockHash]
  rw [if_neg (show ¬ maxU64 < (carry progress t).cumulativeGasUsed from hgas),
    show other.stateRoot (carry progress t).state = env.stateRoot progress.state from
      h.stateRoot _ _ hfinal]
  rfl

end Simulation

end OpMove.BuildSimulation
