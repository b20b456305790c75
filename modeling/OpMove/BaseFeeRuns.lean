import OpMove.BlockStore
import OpMove.FeeFormulas

/-!
The base fee over runs of the node. The next block can be built only if the base fee after the
latest one is defined, and its divisor is the gas target of that block: the gas limit that the
payload asked for, over the elasticity multiplier. Nothing bounds the limit from below, so a block
may use gas with a target of zero, and no block follows it.
-/

namespace OpMove.BaseFeeRuns

open Primitives GasFees Transactions BlockBuilding BlockAgreement BlockStore FeeFormulas Multimaps

section OneBlock

variable {fee : Eip1559GasFee} {limit used : ℕ} {f : U256}

theorem checkedDiv_zero (a : U256) : checkedDiv a (BitVec.ofNat 256 0) = none := if_pos rfl

/-- The computation divides by zero exactly when the target is zero and gas was used. -/
theorem isSome_baseFeePerGas_iff (hfee : Accepted fee) (hlimit : limit ≤ maxU64)
    (hused : used ≤ maxU64) :
    (fee.baseFeePerGas limit used f).isSome ↔ fee.elasticityMultiplier ≤ limit ∨ used = 0 := by
  have hpos : fee.elasticityMultiplier ≤ limit ↔ 0 < gasTarget fee limit :=
    (Nat.div_pos_iff.trans (and_iff_right hfee.elasticityMultiplier)).symm
  by_cases ht : 0 < gasTarget fee limit
  · obtain ⟨next, hnext, -⟩ := baseFeePerGas_eq hfee hlimit hused ht f
    simp [hnext, hpos, ht]
  · have hzero : limit / fee.elasticityMultiplier = 0 := Nat.eq_zero_of_not_pos ht
    rcases Nat.eq_zero_or_pos used with rfl | hgas
    · rw [baseFeePerGas_of_eq hfee hzero.symm]
      simp
    · have hnone : fee.baseFeePerGas limit used f = none := by
        rw [Eip1559GasFee.baseFeePerGas, if_neg hfee.elasticityMultiplier.ne']
        simp only [hzero, hgas, if_true, checkedDiv_zero]
        rfl
      simp only [hnone, Option.isSome_none, hpos, ht, hgas.ne', or_false, Bool.false_eq_true]

end OneBlock

section Commands

variable {σ χ : Type} (env : Env σ χ) (pick : List ExtendedBlock → Option ExtendedBlock)

/-- What block building sees of the application. -/
def seen (app : App σ) : App σ := { app with blocks := visible pick app.blocks }

/-- The base fee of the next block can be computed. -/
def FeeDefined (app : App σ) : Prop :=
  ∃ parent, latestBlock (visible pick app.blocks) = some parent ∧ (baseFeeAfter env parent).isSome

/-- The batch of a payload uses no gas, if it runs at all. -/
def UsesNoGas (app : App σ) (attributes : Payload) (drained : List Item) : Prop :=
  ∀ parent baseFee progress, latestBlock (visible pick app.blocks) = some parent →
    baseFeeAfter env parent = some baseFee →
    executeTransactions env (seen pick app)
        (collectTransactions env (seen pick app) attributes drained) baseFee
        (headerForExecution parent attributes) = some progress →
    progress.cumulativeGasUsed = 0

/-- The payload asks for a gas limit with a positive target, or its batch uses no gas. -/
def LeavesTarget (app : App σ) (attributes : Payload) (drained : List Item) : Prop :=
  env.gasFee.elasticityMultiplier ≤ attributes.gasLimit ∨ UsesNoGas env pick app attributes drained

/-- The runs from a genesis block whose builds all pass a guard. -/
inductive GuardedRuns (guard : App σ → Payload → List Item → Prop) (state : σ)
    (genesis : ExtendedBlock) : App σ → Prop
  | start : GuardedRuns guard state genesis (genesisUpdate ⟨state, [], [], [], []⟩ genesis)
  | startBlockBuild {app next : App σ} {attributes : Payload} {id : ℕ} {drained : List Item} :
      GuardedRuns guard state genesis app → attributes.gasLimit ≤ maxU64 →
      guard app attributes drained → drained.Perm app.memPool →
      buildInMemory env pick app attributes id drained = some next →
      GuardedRuns guard state genesis next
  | addTransaction {app next : App σ} {tx : TxEnvelope} : GuardedRuns guard state genesis app →
      addTransaction env app tx = some next → GuardedRuns guard state genesis next
  | genesisUpdate {app : App σ} : GuardedRuns guard state genesis app →
      GuardedRuns guard state genesis (genesisUpdate app genesis)

end Commands

section Runs

variable {σ χ : Type} {env : Env σ χ} {pick : List ExtendedBlock → Option ExtendedBlock}
variable {state : σ} {genesis : ExtendedBlock} {app : App σ} {chain : List ExtendedBlock}

theorem GuardedRuns.chainRuns {guard : App σ → Payload → List Item → Prop}
    (h : GuardedRuns env pick guard state genesis app) :
    ∃ chain, ChainRuns env pick state genesis app chain := by
  induction h with
  | start => exact ⟨_, .start⟩
  | startBlockBuild _ _ _ hdrained hbuild ih =>
    obtain ⟨chain, hchain⟩ := ih
    exact ⟨_, hchain.startBlockBuild hdrained hbuild⟩
  | addTransaction _ hadd ih =>
    obtain ⟨chain, hchain⟩ := ih
    exact ⟨chain, hchain.addTransaction hadd⟩
  | genesisUpdate _ ih =>
    obtain ⟨chain, hchain⟩ := ih
    exact ⟨chain, hchain.genesisUpdate⟩

theorem latestBlock_eq (hpick : Picks pick) (h : ChainInv genesis app chain) :
    latestBlock (visible pick app.blocks) = chain.getLast? := by
  rw [latestBlock_visible hpick, h.last_eq hpick]

/-- Gas limit and gas used of a built block. -/
theorem buildBlock_gas {app : App σ} {attributes : Payload} {id : ℕ} {drained : List Item}
    {built : Built σ} (h : buildBlock env app attributes id drained = some built) :
    built.block.header.gasLimit = attributes.gasLimit ∧ built.block.header.gasUsed ≤ maxU64 ∧
      ∃ parent baseFee progress, latestBlock app.blocks = some parent ∧
        baseFeeAfter env parent = some baseFee ∧
        executeTransactions env app (collectTransactions env app attributes drained) baseFee
          (headerForExecution parent attributes) = some progress ∧
        built.block.header.gasUsed = progress.cumulativeGasUsed := by
  simp only [buildBlock, Option.bind_eq_bind, Option.bind_eq_some_iff] at h
  obtain ⟨parent, hparent, baseFee, hfee, progress, hrun, hbuilt⟩ := h
  split_ifs at hbuilt with hfits
  obtain rfl := Option.some.inj hbuilt
  exact ⟨rfl, Nat.le_of_not_lt hfits, parent, baseFee, progress, hparent, hfee, hrun, rfl⟩

/-- After a build, the next base fee is defined exactly if the payload left a target. -/
theorem feeDefined_withBlock_iff (hfee : Accepted env.gasFee) (hpick : Picks pick)
    (hinv : ChainInv genesis app chain) {attributes : Payload} {id : ℕ} {drained : List Item}
    (hlimit : attributes.gasLimit ≤ maxU64) {built : Built σ}
    (hfresh : ∀ block ∈ app.blocks, block.payloadId ≠ id)
    (h : buildBlock env (seen pick app) attributes id drained = some built) :
    FeeDefined env pick (app.withBlock built) ↔ LeavesTarget env pick app attributes drained := by
  obtain ⟨hasked, hused, parent, baseFee, progress, hparent, hbase, hrun, hgas⟩ := buildBlock_gas h
  have hnext : ChainInv genesis (app.withBlock built)
      (chain ++ addedBlocks app (app.withBlock built)) := by
    have hunknown : ¬ ((memoryOf app.blocks).byPayloadId pick id).isSome := fun hknown => by
      obtain ⟨block, hblock, hid⟩ := (isSome_byPayloadId_iff hpick).mp hknown
      exact hfresh block hblock hid
    have hbuild : buildInMemory env pick app attributes id drained =
        some (app.withBlock built) := by
      rw [buildInMemory, if_neg hunknown]
      exact congrArg (Option.map app.withBlock) h
    exact hinv.startBlockBuild hpick hbuild
  rw [addedBlocks_withBlock] at hnext
  have hlatest : latestBlock (visible pick (app.withBlock built).blocks) = some built.block := by
    rw [latestBlock_eq hpick hnext, List.getLast?_concat]
  have hiff : FeeDefined env pick (app.withBlock built) ↔
      (baseFeeAfter env built.block).isSome := by
    simp [FeeDefined, hlatest]
  rw [hiff, baseFeeAfter, isSome_baseFeePerGas_iff hfee (hasked ▸ hlimit) hused, hasked,
    LeavesTarget]
  refine or_congr_right ⟨fun hzero => ?_, fun hnone => ?_⟩
  · intro parent' baseFee' progress' hparent' hbase' hrun'
    obtain rfl := Option.some.inj (hparent.symm.trans hparent')
    obtain rfl := Option.some.inj (hbase.symm.trans hbase')
    obtain rfl := Option.some.inj (hrun.symm.trans hrun')
    rw [← hgas, hzero]
  · rw [hgas]
    exact hnone parent baseFee progress hparent hbase hrun

theorem feeDefined_of_latest {next : App σ}
    (h : latestBlock (visible pick next.blocks) = latestBlock (visible pick app.blocks)) :
    FeeDefined env pick next ↔ FeeDefined env pick app := by
  rw [FeeDefined, FeeDefined, h]

/-- In a run whose payloads all leave a target, the base fee of the next block is always defined;
and a new block leaves it defined only if its payload did. -/
theorem base_fee_defined (hpick : Picks pick) (hfee : Accepted env.gasFee)
    (hnumber : genesis.header.number = 0) (hlimit : genesis.header.gasLimit ≤ maxU64)
    (hused : genesis.header.gasUsed ≤ maxU64)
    (hgenesis : env.gasFee.elasticityMultiplier ≤ genesis.header.gasLimit ∨
      genesis.header.gasUsed = 0) :
    (∀ app, GuardedRuns env pick (LeavesTarget env pick) state genesis app →
      FeeDefined env pick app) ∧
    ∀ app chain attributes id drained next, ChainRuns env pick state genesis app chain →
      (∀ block ∈ app.blocks, block.payloadId ≠ id) → attributes.gasLimit ≤ maxU64 →
      buildInMemory env pick app attributes id drained = some next →
      (FeeDefined env pick next ↔ LeavesTarget env pick app attributes drained) := by
  constructor
  · intro app hrun
    induction hrun with
    | start =>
      refine ⟨genesis, latestBlock_eq hpick (chainInv_start hnumber), ?_⟩
      exact (isSome_baseFeePerGas_iff hfee hlimit hused).mpr hgenesis
    | startBlockBuild hrun hasked hguard _ hbuild ih =>
      obtain ⟨chain, hchain⟩ := hrun.chainRuns
      have hinv := chainInv_of_runs hpick hnumber hchain
      rcases buildInMemory_cases hpick hbuild with ⟨-, rfl⟩ | ⟨hfresh, built, hbuilt, rfl⟩
      · exact ih
      · exact (feeDefined_withBlock_iff hfee hpick hinv hasked hfresh hbuilt).mpr hguard
    | addTransaction _ hadd ih =>
      refine (feeDefined_of_latest ?_).mpr ih
      rw [addTransaction_blocks hadd]
    | genesisUpdate hrun ih =>
      obtain ⟨chain, hchain⟩ := hrun.chainRuns
      have hinv := chainInv_of_runs hpick hnumber hchain
      refine (feeDefined_of_latest ?_).mpr ih
      rw [latestBlock_eq hpick (hinv.again rfl), latestBlock_eq hpick hinv]
  · intro app chain attributes id drained next hchain hfresh hasked hbuild
    have hinv := chainInv_of_runs hpick hnumber hchain
    rcases buildInMemory_cases hpick hbuild with ⟨⟨block, hblock, hid⟩, -⟩ | ⟨-, built, hbuilt, rfl⟩
    · exact absurd hid (hfresh block hblock)
    · exact feeDefined_withBlock_iff hfee hpick hinv hasked hfresh hbuilt

end Runs

section Samples

def sampleStart : App Unit := genesisUpdate ⟨(), [], [], [], []⟩ sampleGenesis

theorem base_fee_defined_sample : ∃ next,
    buildInMemory sampleEnv List.head? sampleStart (samplePayload [sampleBytes]) 1 [] = some next ∧
      FeeDefined sampleEnv List.head? next := by
  have hbuild : (buildInMemory sampleEnv List.head? sampleStart (samplePayload [sampleBytes]) 1
      []).isSome := by
    decide +kernel
  obtain ⟨next, hnext⟩ := Option.isSome_iff_exists.mp hbuild
  have hfee : Accepted sampleEnv.gasFee := ⟨by decide, by decide⟩
  have hgenesis : sampleEnv.gasFee.elasticityMultiplier ≤ sampleGenesis.header.gasLimit ∨
      sampleGenesis.header.gasUsed = 0 := Or.inl (by decide)
  have hrun : GuardedRuns sampleEnv List.head? (LeavesTarget sampleEnv List.head?) ()
      sampleGenesis next :=
    .startBlockBuild .start (show (samplePayload [sampleBytes]).gasLimit ≤ maxU64 by decide)
      (Or.inl (by decide)) (.refl _) hnext
  exact ⟨next, hnext,
    (base_fee_defined picks_head hfee rfl (by decide) (by decide) hgenesis).1 next hrun⟩

/-- A payload with a gas limit below the multiplier of 6, whose transaction uses gas. -/
def starvedPayload : Payload := { samplePayload [sampleBytes] with gasLimit := 5 }

/-- Its block is built, but no block can be built on it. -/
theorem block_without_target_is_last : ∃ next,
    GuardedRuns sampleEnv List.head? (fun _ _ _ => True) () sampleGenesis next ∧
      ¬ FeeDefined sampleEnv List.head? next ∧
      buildInMemory sampleEnv List.head? next (samplePayload []) 2 [] = none := by
  have hbuild : (buildInMemory sampleEnv List.head? sampleStart starvedPayload 1 []).map
      (fun next => ((latestBlock (visible List.head? next.blocks)).bind (baseFeeAfter sampleEnv),
        (buildInMemory sampleEnv List.head? next (samplePayload []) 2 []).isSome)) =
      some (none, false) := by
    decide +kernel
  obtain ⟨next, hnext, hpair⟩ := Option.map_eq_some_iff.mp hbuild
  obtain ⟨hfee, hlast⟩ := Prod.mk.inj hpair
  refine ⟨next, .startBlockBuild .start (show starvedPayload.gasLimit ≤ maxU64 by decide) trivial
    (.refl _) hnext, ?_, Option.not_isSome_iff_eq_none.mp (by simp [hlast])⟩
  rintro ⟨parent, hparent, hsome⟩
  rw [hparent, Option.bind_some] at hfee
  simp [hfee] at hsome

end Samples

end OpMove.BaseFeeRuns
