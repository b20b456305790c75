import OpMove.L1FeePaths
import Mathlib.Data.List.Perm.Basic

/-!
Runs of the command actor. A run starts with an empty application and takes one
command after the other; the hashes of the executed transactions are kept as a
history beside the application. The order in which the mempool's hash map is drained
is not known, so a step may drain it in any order.
-/

namespace OpMove.CommandRuns

open Primitives GasFees Transactions Errors BlockBuilding BlockAgreement

inductive Command
  | startBlockBuild (attributes : Payload) (id : ℕ)
  | addTransaction (tx : TxEnvelope)
  | genesisUpdate (block : ExtendedBlock)

/-- An application with the hashes of what it executed, in order. -/
structure RunState (σ : Type) where
  app : App σ
  executed : List B256

section Runs

variable {σ χ : Type} (env : Env σ χ)

/-- The transactions a call of `start_block_build` executes, by the hash of their encoding. -/
def executedBy (app : App σ) (attributes : Payload) (id : ℕ) (drained : List Item) : List B256 :=
  if app.isBuilt id then []
  else ((buildBlock env app attributes id drained).map fun built =>
    built.executed.map fun item => env.codec.trieHash item.tx).getD []

/-- `handle_command`, with the history extended by what it executes. -/
def handleCommand (drained : List Item) (run : RunState σ) : Command → Option (RunState σ)
  | .startBlockBuild attributes id => do
      let app ← startBlockBuild env run.app attributes id drained
      some ⟨app, run.executed ++ executedBy env run.app attributes id drained⟩
  | .addTransaction tx => do
      let app ← addTransaction env run.app tx
      some ⟨app, run.executed⟩
  | .genesisUpdate block => some ⟨genesisUpdate run.app block, run.executed⟩

def RunState.initial (state : σ) : RunState σ :=
  ⟨{ state := state, memPool := [], receipts := [], transactions := [], blocks := [] }, []⟩

/-- The states reached by commands that are allowed where they are given. -/
inductive Reaches (allowed : RunState σ → Command → Prop) : RunState σ → Prop
  | initial (state : σ) : Reaches allowed (.initial state)
  | step {run next : RunState σ} {command : Command} {drained : List Item} :
      Reaches allowed run → allowed run command → drained.Perm run.app.memPool →
      handleCommand env drained run command = some next → Reaches allowed next

/-- Hashes of all transactions of all blocks. -/
def listed (app : App σ) : List B256 := app.blocks.flatMap fun block => block.transactions

/-- No transaction is executed twice or listed twice. -/
def AtMostOnce (run : RunState σ) : Prop := run.executed.Nodup ∧ (listed run.app).Nodup

/-- What a new payload brings together with the mempool. -/
def offered (app : App σ) (attributes : Payload) : List Item :=
  attributes.transactions.filterMap (payloadItem env.codec) ++ app.memPool

def Fresh (run : RunState σ) (item : Item) : Prop := env.codec.trieHash item.tx ∉ run.executed

/-- A payload that repeats nothing: its byte strings are EIP-2718 encodings, and what was not
executed yet is offered once and is in no block. -/
structure RepeatsNothing (run : RunState σ) (attributes : Payload) : Prop where
  framing : ∀ txBytes ∈ attributes.transactions, ∀ tx slice,
    env.codec.decode txBytes = some (tx, slice) → txBytes = env.codec.encode2718 tx
  once : (((offered env run.app attributes).map fun item => env.codec.trieHash item.tx).filter
    fun hash => hash ∉ run.executed).Nodup
  unlisted : ∀ item ∈ offered env run.app attributes, Fresh env run item →
    env.codec.trieHash item.tx ∉ listed run.app

/-- The commands under which nothing is executed twice. -/
def WellFed (run : RunState σ) : Command → Prop
  | .startBlockBuild attributes id =>
      run.app.isBuilt id = false → RepeatsNothing env run attributes
  | .addTransaction _ => True
  | .genesisUpdate block =>
      block.transactions.Nodup ∧ ∀ hash ∈ block.transactions, hash ∉ listed run.app

/-- What holds in every state of a well-fed run. -/
structure Inv (run : RunState σ) : Prop where
  poolKeys : ∀ item ∈ run.app.memPool, item.txHash = env.codec.trieHash item.tx
  hasReceipt : ∀ hash ∈ run.executed,
    ∃ receipt ∈ run.app.receipts, receipt.transactionHash = hash
  isListed : ∀ hash ∈ run.executed, hash ∈ listed run.app
  executedOnce : run.executed.Nodup
  listedOnce : (listed run.app).Nodup

theorem inv_initial (state : σ) : Inv env (.initial state) := by
  constructor <;> simp [RunState.initial, listed]

theorem inv_addTransaction {run : RunState σ} {tx : TxEnvelope} {app : App σ}
    (hinv : Inv env run) (h : addTransaction env run.app tx = some app) :
    Inv env ⟨app, run.executed⟩ := by
  simp only [addTransaction, poolItem, Option.bind_eq_bind, Option.bind_eq_some_iff,
    Option.some.injEq] at h
  obtain ⟨item, ⟨inner, -, rfl⟩, rfl⟩ := h
  refine ⟨?_, hinv.hasReceipt, hinv.isListed, hinv.executedOnce, hinv.listedOnce⟩
  intro item hitem
  rcases List.mem_append.mp hitem with hold | hnew
  · exact hinv.poolKeys item (List.mem_of_mem_filter hold)
  · rw [List.mem_singleton.mp hnew]

theorem inv_genesisUpdate {run : RunState σ} {block : ExtendedBlock} (hinv : Inv env run)
    (hfed : WellFed env run (.genesisUpdate block)) :
    Inv env ⟨genesisUpdate run.app block, run.executed⟩ := by
  have hlisted : listed (genesisUpdate run.app block) = listed run.app ++ block.transactions := by
    simp [listed, genesisUpdate]
  refine ⟨hinv.poolKeys, hinv.hasReceipt, ?_, hinv.executedOnce, ?_⟩
  · intro hash hhash
    rw [hlisted]
    exact List.mem_append_left _ (hinv.isListed hash hhash)
  · rw [hlisted]
    refine List.nodup_append.mpr ⟨hinv.listedOnce, hfed.1, ?_⟩
    intro a ha b hb hab
    exact hfed.2 b hb (hab ▸ ha)

theorem payloadItem_key {run : RunState σ} {attributes : Payload} {item : Item}
    (hfed : RepeatsNothing env run attributes)
    (h : item ∈ attributes.transactions.filterMap (payloadItem env.codec)) :
    item.txHash = env.codec.trieHash item.tx := by
  obtain ⟨txBytes, hmem, hitem⟩ := List.mem_filterMap.mp h
  simp only [payloadItem, Option.bind_eq_bind, Option.bind_eq_some_iff, Prod.exists,
    Option.some.injEq] at hitem
  obtain ⟨tx, slice, hdecode, rfl⟩ := hitem
  exact congrArg env.codec.keccak256 (hfed.framing txBytes hmem tx slice hdecode)

/-- In a well-fed run the batch is keyed by transaction hashes, without repetitions, and
none of it is in a block. -/
theorem batch_fresh {run : RunState σ} {attributes : Payload} {drained : List Item}
    (hinv : Inv env run) (hfed : RepeatsNothing env run attributes)
    (hperm : drained.Perm run.app.memPool) :
    (∀ item ∈ collectTransactions env run.app attributes drained,
      item.txHash = env.codec.trieHash item.tx ∧ env.codec.trieHash item.tx ∉ listed run.app) ∧
    ((collectTransactions env run.app attributes drained).map
      fun item => env.codec.trieHash item.tx).Nodup := by
  let candidates := attributes.transactions.filterMap (payloadItem env.codec) ++ drained
  have hoffered : candidates.Perm (offered env run.app attributes) := hperm.append_left _
  have hkey : ∀ item ∈ candidates, item.txHash = env.codec.trieHash item.tx := by
    intro item hitem
    rcases List.mem_append.mp hitem with hpayload | hpool
    · exact payloadItem_key env hfed hpayload
    · exact hinv.poolKeys item (hperm.subset hpool)
  have hfresh : ∀ item ∈ candidates,
      (!run.app.receipts.any fun receipt => receipt.transactionHash == item.txHash) = true →
      Fresh env run item := by
    intro item hitem hnone hexecuted
    obtain ⟨receipt, hreceipt, hhash⟩ := hinv.hasReceipt _ hexecuted
    rw [← hkey item hitem] at hhash
    have hany : (run.app.receipts.any fun r => r.transactionHash == item.txHash) = true :=
      List.any_eq_true.mpr ⟨receipt, hreceipt, by simp [hhash]⟩
    simp [hany] at hnone
  constructor
  · intro item hitem
    obtain ⟨hmem, hnone⟩ := List.mem_filter.mp hitem
    exact ⟨hkey item hmem,
      hfed.unlisted item (hoffered.subset hmem) (hfresh item hmem hnone)⟩
  · have honce : ((candidates.filter fun item => env.codec.trieHash item.tx ∉ run.executed).map
        fun item => env.codec.trieHash item.tx).Nodup := by
      have hsorted := ((hoffered.map fun item => env.codec.trieHash item.tx).filter
        fun hash => hash ∉ run.executed).nodup_iff.mpr hfed.once
      rwa [List.filter_map] at hsorted
    refine honce.sublist (List.Sublist.map _ ?_)
    have hboth : collectTransactions env run.app attributes drained =
        (candidates.filter fun item => env.codec.trieHash item.tx ∉ run.executed).filter fun item =>
          !run.app.receipts.any fun receipt => receipt.transactionHash == item.txHash := by
      rw [List.filter_filter]
      refine List.filter_congr fun item hitem => ?_
      by_cases hnone : (!run.app.receipts.any fun r => r.transactionHash == item.txHash) = true
      · have hnotin : env.codec.trieHash item.tx ∉ run.executed := hfresh item hitem hnone
        simp [hnone, hnotin]
      · simp [hnone]
    rw [hboth]
    exact List.filter_sublist

theorem listed_withBlock {app : App σ} {attributes : Payload} {id : ℕ} {drained : List Item}
    {built : Built σ} (h : buildBlock env app attributes id drained = some built) :
    listed (app.withBlock built) = listed app ++
      (collectTransactions env app attributes drained).map fun item =>
        env.codec.trieHash item.tx := by
  obtain ⟨parent, baseFee, batch, progress, -, -, -, -, -, -, hhashes, -⟩ := buildBlock_spec env h
  simp [listed, App.withBlock, hhashes]

/-- A block out of fresh transactions keeps the invariant. -/
theorem inv_withBlock {run : RunState σ} {attributes : Payload} {id : ℕ} {drained : List Item}
    {built : Built σ} (hinv : Inv env run) (hfed : RepeatsNothing env run attributes)
    (hperm : drained.Perm run.app.memPool)
    (h : buildBlock env run.app attributes id drained = some built) :
    Inv env ⟨run.app.withBlock built,
      run.executed ++ built.executed.map fun item => env.codec.trieHash item.tx⟩ := by
  obtain ⟨hbatch, hnodup⟩ := batch_fresh env hinv hfed hperm
  obtain ⟨hsub, hreceipt⟩ := buildBlock_executed env h
  have hlisted := listed_withBlock env h
  have hnew : ∀ hash ∈ (collectTransactions env run.app attributes drained).map
      (fun item => env.codec.trieHash item.tx), hash ∉ listed run.app := by
    intro hash hhash
    obtain ⟨item, hitem, rfl⟩ := List.mem_map.mp hhash
    exact (hbatch item hitem).2
  refine ⟨by simp [App.withBlock], ?_, ?_, ?_, ?_⟩
  · intro hash hhash
    rcases List.mem_append.mp hhash with hold | hnow
    · obtain ⟨receipt, hmem, heq⟩ := hinv.hasReceipt hash hold
      exact ⟨receipt, List.mem_append_left _ hmem, heq⟩
    · obtain ⟨item, hitem, rfl⟩ := List.mem_map.mp hnow
      obtain ⟨receipt, hmem, heq⟩ := hreceipt item hitem
      exact ⟨receipt, List.mem_append_right _ hmem, heq.trans (hbatch item (hsub.subset hitem)).1⟩
  · intro hash hhash
    rw [hlisted]
    rcases List.mem_append.mp hhash with hold | hnow
    · exact List.mem_append_left _ (hinv.isListed hash hold)
    · exact List.mem_append_right _ ((hsub.map _).subset hnow)
  · refine List.nodup_append.mpr ⟨hinv.executedOnce, hnodup.sublist (hsub.map _), ?_⟩
    intro a ha b hb hab
    exact hnew b ((hsub.map _).subset hb) (hab ▸ hinv.isListed a ha)
  · rw [hlisted]
    refine List.nodup_append.mpr ⟨hinv.listedOnce, hnodup, ?_⟩
    intro a ha b hb hab
    exact hnew b hb (hab ▸ ha)

theorem inv_startBlockBuild {run : RunState σ} {attributes : Payload} {id : ℕ}
    {drained : List Item} {app : App σ} (hinv : Inv env run)
    (hfed : WellFed env run (.startBlockBuild attributes id))
    (hperm : drained.Perm run.app.memPool)
    (h : startBlockBuild env run.app attributes id drained = some app) :
    Inv env ⟨app, run.executed ++ executedBy env run.app attributes id drained⟩ := by
  unfold startBlockBuild at h
  by_cases hknown : run.app.isBuilt id
  · rw [if_pos hknown, Option.some.injEq] at h
    simpa only [executedBy, hknown, if_true, List.append_nil, ← h] using hinv
  · rw [if_neg hknown] at h
    obtain ⟨built, hbuilt, rfl⟩ := Option.map_eq_some_iff.mp h
    have hexecuted : executedBy env run.app attributes id drained =
        built.executed.map fun item => env.codec.trieHash item.tx := by
      simp [executedBy, hknown, hbuilt]
    rw [hexecuted]
    exact inv_withBlock env hinv (hfed (by simpa using hknown)) hperm hbuilt

theorem inv_handleCommand {run next : RunState σ} {command : Command} {drained : List Item}
    (hinv : Inv env run) (hfed : WellFed env run command)
    (hperm : drained.Perm run.app.memPool)
    (h : handleCommand env drained run command = some next) : Inv env next := by
  cases command with
  | startBlockBuild attributes id =>
    simp only [handleCommand, Option.bind_eq_bind, Option.bind_eq_some_iff, Option.some.injEq] at h
    obtain ⟨app, happ, rfl⟩ := h
    exact inv_startBlockBuild env hinv hfed hperm happ
  | addTransaction tx =>
    simp only [handleCommand, Option.bind_eq_bind, Option.bind_eq_some_iff, Option.some.injEq] at h
    obtain ⟨app, happ, rfl⟩ := h
    exact inv_addTransaction env hinv happ
  | genesisUpdate block =>
    rw [← Option.some.inj h]
    exact inv_genesisUpdate env hinv hfed

theorem inv_of_reaches {run : RunState σ} (h : Reaches env (WellFed env) run) : Inv env run := by
  induction h with
  | initial state => exact inv_initial env state
  | step _ hfed hperm hstep ih => exact inv_handleCommand env ih hfed hperm hstep

/-- In every run whose commands repeat nothing that was not executed, each transaction
is executed at most once and is in at most one place of all blocks. -/
theorem atMostOnce_of_wellFed {run : RunState σ} (h : Reaches env (WellFed env) run) :
    AtMostOnce run :=
  ⟨(inv_of_reaches env h).executedOnce, (inv_of_reaches env h).listedOnce⟩

end Runs

section Samples

open L1FeePaths

def depositTx : OpTxEnvelope := .deposit (attributesDeposit 10000000000 1)

/-- The EIP-2718 encoding of the L1-attributes deposit. -/
def depositBytes : Bytes :=
  [0x7e, 0xf8, 0xf8, 0xa0] ++ List.replicate 32 0 ++
    0x94 :: (leBytes 20 0xdeaddeaddeaddeaddeaddeaddeaddeaddead0001).reverse ++
    0x94 :: (leBytes 20 0x4200000000000000000000000000000000000015).reverse ++
    [0x80, 0x80, 0x83, 0x0f, 0x42, 0x40, 0x80, 0xb8, 0xa4] ++ attributesCalldata 10000000000 1

def depositHash : B256 := 0x750f1ea745dbe680bae57b48b0551958bfa1b26ef05059f7504d6684b2dc472f

/-- The consensus library at the deposit. -/
def depositCodec : Codec where
  decode bytes :=
    if bytes.take 251 = depositBytes then some (depositTx, bytes.drop 251) else none
  encode2718 tx := if tx = depositTx then depositBytes else []
  recoverSigner _ := none
  keccak256 bytes := if bytes = depositBytes then depositHash else BitVec.ofNat 256 (beNat bytes)

example : depositCodec.decode depositBytes = some (depositTx, []) := by
  decide +kernel

def depositEnv : Env Unit Unit := { sampleEnv with codec := depositCodec }

def genesisBlock : ExtendedBlock := ⟨0, 0, 0, sampleHeader, []⟩

theorem reaches_sampleApp (env : Env Unit Unit) (allowed : RunState Unit → Command → Prop)
    (hallowed : allowed (.initial ()) (.genesisUpdate genesisBlock)) :
    Reaches env allowed ⟨sampleApp, []⟩ :=
  .step (.initial ()) hallowed (List.Perm.refl []) rfl

/-- A payload that contains one deposit twice has it executed twice. -/
theorem deposit_executed_twice :
    ∃ run, Reaches depositEnv (fun _ _ => True) run ∧
      run.executed = [depositHash, depositHash] ∧ ¬ AtMostOnce run := by
  have hstep : (handleCommand depositEnv [] ⟨sampleApp, []⟩
      (.startBlockBuild (samplePayload [depositBytes, depositBytes]) 1)).map
        (fun run => run.executed) = some [depositHash, depositHash] := by decide +kernel
  obtain ⟨run, hrun, hexecuted⟩ := Option.map_eq_some_iff.mp hstep
  refine ⟨run, .step (reaches_sampleApp _ _ trivial) trivial (List.Perm.refl []) hrun,
    hexecuted, fun honce => ?_⟩
  have hnodup := honce.1
  rw [hexecuted] at hnodup
  simp at hnodup

theorem sample_framing (txBytes : Bytes) (h : txBytes ∈ [sampleBytes]) (tx : OpTxEnvelope)
    (slice : Bytes) (hdecode : sampleCodec.decode txBytes = some (tx, slice)) :
    txBytes = sampleCodec.encode2718 tx := by
  rw [List.mem_singleton.mp h] at hdecode ⊢
  have hsample : sampleCodec.decode sampleBytes = some (sampleTx, []) := by decide +kernel
  have htx : sampleTx = tx := (Prod.mk.inj (Option.some.inj (hsample.symm.trans hdecode))).1
  rw [← htx]
  decide +kernel

def offerSample (id : ℕ) : Command := .startBlockBuild (samplePayload [sampleBytes]) id

/-- The sample transaction was executed in block one. -/
def sampleRun : RunState Unit :=
  (handleCommand sampleEnv [] ⟨sampleApp, []⟩ (offerSample 1)).getD ⟨sampleApp, []⟩

/-- The transaction is offered a second time after it was executed. -/
theorem atMostOnce_sample :
    ∃ run, Reaches sampleEnv (WellFed sampleEnv) run ∧ run.executed = [sampleHash] ∧
      AtMostOnce run := by
  have hgenesis : WellFed sampleEnv (.initial ()) (.genesisUpdate genesisBlock) := by
    constructor <;> simp [genesisBlock]
  have hfirst : handleCommand sampleEnv [] ⟨sampleApp, []⟩ (offerSample 1) = some sampleRun := by
    have hsome : (handleCommand sampleEnv [] ⟨sampleApp, []⟩ (offerSample 1)).isSome := by
      decide +kernel
    obtain ⟨run, hrun⟩ := Option.isSome_iff_exists.mp hsome
    simp only [sampleRun, hrun, Option.getD_some]
  have hsecond : (handleCommand sampleEnv [] sampleRun (offerSample 2)).map
      (fun run => run.executed) = some [sampleHash] := by decide +kernel
  have hpool : sampleRun.app.memPool = [] := by decide +kernel
  have hfed : WellFed sampleEnv ⟨sampleApp, []⟩ (offerSample 1) := by
    refine fun _ => ⟨sample_framing, by decide +kernel, ?_⟩
    intro item _ _
    simp [listed, sampleApp]
  have hfed' : WellFed sampleEnv sampleRun (offerSample 2) := by
    refine fun _ => ⟨sample_framing, by decide +kernel, ?_⟩
    intro item hitem hfresh
    have hoffered : offered sampleEnv sampleRun.app (samplePayload [sampleBytes]) =
        [⟨sampleHash, sampleTx, .ofBytes []⟩] := by decide +kernel
    have hexecuted : sampleCodec.trieHash sampleTx ∈ sampleRun.executed := by decide +kernel
    rw [hoffered] at hitem
    rw [List.mem_singleton.mp hitem] at hfresh
    exact absurd hexecuted hfresh
  obtain ⟨run, hrun, hexecuted⟩ := Option.map_eq_some_iff.mp hsecond
  have hreach : Reaches sampleEnv (WellFed sampleEnv) run :=
    .step (.step (reaches_sampleApp _ _ hgenesis) hfed (List.Perm.refl []) hfirst) hfed'
      (List.Perm.of_eq hpool.symm) hrun
  exact ⟨run, hreach, hexecuted, atMostOnce_of_wellFed sampleEnv hreach⟩

end Samples

end OpMove.CommandRuns
