import OpMove.BlockAgreement

/-!
The two ways a transaction reaches a block and the L1 cost it is charged on each.
The payload path counts the bytes that decoding left behind, the mempool path those
of the network encoding; the cost should be that of the EIP-2718 encoding on both.
-/

namespace OpMove.L1FeePaths

open Primitives GasFees Transactions BlockBuilding BlockAgreement NativeEvm

section Receipts

variable {σ χ : Type} (env : Env σ χ)

/-- The receipts of a block report the L1 information of the items they belong to. -/
theorem receipt_l1BlockInfo {app : App σ} {attributes : Payload} {id : ℕ} {drained : List Item}
    {built : Built σ} (h : buildBlock env app attributes id drained = some built) :
    ∃ baseFee blockHeader batch,
      batchFor (collectTransactions env app attributes drained) baseFee blockHeader =
        some batch ∧
      ∀ receipt ∈ built.receipts, ∃ item ∈ collectTransactions env app attributes drained,
        receipt.transactionHash = item.txHash ∧
        receipt.l1BlockInfo = batch.l1BlockInfo item := by
  obtain ⟨parent, baseFee, batch, progress, -, -, hbatch, hrun, -, hreceipts, -⟩ :=
    buildBlock_spec env h
  obtain ⟨done, receipts, -, hnew, hpairs, hsub, -, -⟩ := runBatch_spec env app.blocks batch hrun
  refine ⟨baseFee, _, batch, hbatch, fun receipt hreceipt => ?_⟩
  rw [hreceipts, hnew] at hreceipt
  obtain ⟨original, horiginal, rfl⟩ := List.mem_map.mp hreceipt
  have hmem : (original.transactionHash, original.l1BlockInfo) ∈
      done.map fun item => (item.txHash, batch.l1BlockInfo item) := by
    rw [← hpairs]
    exact List.mem_map.mpr ⟨original, horiginal, rfl⟩
  obtain ⟨item, hitem, hpair⟩ := List.mem_map.mp hmem
  obtain ⟨hhash, hinfo⟩ := Prod.mk.inj hpair
  exact ⟨item, hsub.subset hitem, hhash.symm, hinfo.symm⟩

end Receipts

section Paths

variable (codec : Codec)

/-- In every block headed by the deposit, the transaction is charged the L1 fee of its
EIP-2718 encoding and its receipt says so, on either path. -/
def PathIndependent (deposit : TxDeposit) (submitted : TxEnvelope) (tx : OpTxEnvelope) : Prop :=
  ∀ viaPayload viaPool head rest baseFee blockHeader batch fee,
    payloadItem codec (codec.encode2718 tx) = some viaPayload →
    poolItem codec submitted = some viaPool →
    head.tx = .deposit deposit → batchFor (head :: rest) baseFee blockHeader = some batch →
    batch.l1Fee = some fee →
    (batch.l1Cost viaPayload = fee.l1Fee (.ofBytes (codec.encode2718 tx)) ∧
      batch.l1BlockInfo viaPayload = fee.l1BlockInfo (.ofBytes (codec.encode2718 tx))) ∧
    (batch.l1Cost viaPool = fee.l1Fee (.ofBytes (codec.encode2718 tx)) ∧
      batch.l1BlockInfo viaPool = fee.l1BlockInfo (.ofBytes (codec.encode2718 tx)))

theorem l1Fee_of_batchFor {head : Item} {rest : List Item} {deposit : TxDeposit} {baseFee : U256}
    {blockHeader : HeaderForExecution} {batch : Batch} (hhead : head.tx = .deposit deposit)
    (h : batchFor (head :: rest) baseFee blockHeader = some batch) :
    batch.l1Fee = EcotoneGasFee.forDeposit deposit.input := by
  simp only [batchFor, headL1Fee, List.head?_cons, Option.bind_some, hhead, OpTxEnvelope.asDeposit,
    Option.bind_eq_bind, Option.bind_eq_some_iff, Option.map_eq_some_iff, Option.some.injEq] at h
  obtain ⟨-, ⟨fee, hfee, rfl⟩, rfl⟩ := h
  exact hfee.symm

theorem batch_charges {batch : Batch} {fee : EcotoneGasFee} (hfee : batch.l1Fee = some fee)
    (item : Item) :
    batch.l1Cost item = fee.l1Fee item.l1CostInput ∧
      batch.l1BlockInfo item = fee.l1BlockInfo item.l1CostInput := by
  simp [Batch.l1Cost, Batch.l1BlockInfo, hfee]

/-- The cost is independent of the path exactly when there is nothing to charge: the L1 fee
of the EIP-2718 encoding is zero, and so is that of the network encoding. -/
theorem pathIndependent_iff {deposit : TxDeposit} {submitted : TxEnvelope} {tx : OpTxEnvelope}
    (hsubmitted : OpTxEnvelope.tryFromEthEnvelope submitted = some tx)
    (hdecode : codec.decode (codec.encode2718 tx) = some (tx, [])) :
    PathIndependent codec deposit submitted tx ↔
      ∀ fee, EcotoneGasFee.forDeposit deposit.input = some fee →
        fee.l1Fee (.ofBytes (codec.encode2718 tx)) = 0 ∧
          fee.l1Fee (.ofBytes (codec.encode tx)) = 0 := by
  have hpayload : payloadItem codec (codec.encode2718 tx) =
      some ⟨codec.trieHash tx, tx, .ofBytes []⟩ := by
    simp only [payloadItem, hdecode, Option.bind_eq_bind, Option.bind_some]
    rfl
  have hpool : poolItem codec submitted =
      some ⟨codec.trieHash tx, tx, .ofBytes (codec.encode tx)⟩ := by
    simp only [poolItem, hsubmitted, Option.bind_eq_bind, Option.bind_some]
  constructor
  · intro hpath fee hfee
    let head : Item := ⟨0, .deposit deposit, .ofBytes []⟩
    let batch : Batch := ⟨0, ⟨0, 0, 0⟩, some fee, .withDefaultGasFeeMultiplier⟩
    have hbatch : batchFor [head] 0 ⟨0, 0, 0⟩ = some batch := by
      simp only [batchFor, headL1Fee, head, List.head?_cons, Option.bind_some,
        OpTxEnvelope.asDeposit, hfee, Option.map_some, Option.bind_eq_bind]
      rfl
    obtain ⟨⟨hcost, -⟩, hcost', -⟩ :=
      hpath _ _ head [] 0 ⟨0, 0, 0⟩ batch fee hpayload hpool rfl hbatch rfl
    rw [(batch_charges rfl _).1, EcotoneGasFee.l1Fee_nil] at hcost
    rw [(batch_charges rfl _).1] at hcost'
    exact ⟨hcost.symm, hcost'.trans hcost.symm⟩
  · intro hzero viaPayload viaPool head rest baseFee blockHeader batch fee hp hq hhead hbatch hfee
    rw [hpayload, Option.some.injEq] at hp
    rw [hpool, Option.some.injEq] at hq
    subst hp hq
    obtain ⟨hencoded, hnetwork⟩ := hzero fee (by rw [← l1Fee_of_batchFor hhead hbatch, hfee])
    rw [(batch_charges hfee _).1, (batch_charges hfee _).2, (batch_charges hfee _).1,
      (batch_charges hfee _).2]
    have hnil : fee.l1Fee (.ofBytes []) = fee.l1Fee (.ofBytes (codec.encode2718 tx)) := by
      rw [EcotoneGasFee.l1Fee_nil, hencoded]
    have hsame : fee.l1Fee (.ofBytes (codec.encode tx)) =
        fee.l1Fee (.ofBytes (codec.encode2718 tx)) := by
      rw [hnetwork, hencoded]
    exact ⟨⟨hnil, fee.l1BlockInfo_congr _ _ hnil⟩, hsame, fee.l1BlockInfo_congr _ _ hsame⟩

end Paths

section Samples

/-- Calldata of an L1-attributes deposit: scalars 1368 and 810949, base fee 10 gwei, blob
base fee 1. -/
def attributesCalldata (baseFee blobBaseFee : ℕ) : Bytes :=
  [0x44, 0x0a, 0x5e, 0x20] ++ (leBytes 4 1368).reverse ++ (leBytes 4 810949).reverse ++
    List.replicate 24 0 ++ (leBytes 32 baseFee).reverse ++ (leBytes 32 blobBaseFee).reverse ++
    List.replicate 64 0

def attributesDeposit (baseFee blobBaseFee : ℕ) : TxDeposit where
  sourceHash := 0
  origin := 0xdeaddeaddeaddeaddeaddeaddeaddeaddead0001
  target := .call 0x4200000000000000000000000000000000000015
  mint := none
  value := 0
  gasLimit := 1000000
  isSystemTransaction := false
  input := attributesCalldata baseFee blobBaseFee

def sampleSubmitted : TxEnvelope :=
  match sampleTx with
  | .legacy tx => .legacy tx
  | _ => .eip4844 []

def sampleFee : EcotoneGasFee := ⟨10000000000, 1368, 1, 810949⟩

example : EcotoneGasFee.forDeposit (attributesCalldata 10000000000 1) = some sampleFee := by
  decide +kernel

/-- The sample transaction is charged nothing through a payload and something through the
mempool. -/
theorem sample_charged_by_path :
    ¬ PathIndependent sampleCodec (attributesDeposit 10000000000 1) sampleSubmitted sampleTx := by
  intro hpath
  let head : Item := ⟨0, .deposit (attributesDeposit 10000000000 1), .ofBytes []⟩
  let batch : Batch := ⟨0, ⟨0, 0, 0⟩, some sampleFee, .withDefaultGasFeeMultiplier⟩
  have hfee : headL1Fee [head] = some (some sampleFee) := by decide +kernel
  have hbatch : batchFor [head] 0 ⟨0, 0, 0⟩ = some batch := by
    simp only [batchFor, hfee, Option.bind_eq_bind, Option.bind_some]
    rfl
  have hpayload : payloadItem sampleCodec (sampleCodec.encode2718 sampleTx) =
      some ⟨sampleHash, sampleTx, .ofBytes []⟩ := by decide +kernel
  have hpool : poolItem sampleCodec sampleSubmitted =
      some ⟨sampleHash, sampleTx, .ofBytes (sampleCodec.encode sampleTx)⟩ := by decide +kernel
  obtain ⟨⟨hcost, -⟩, -⟩ :=
    hpath _ _ head [] 0 ⟨0, 0, 0⟩ batch sampleFee hpayload hpool rfl hbatch rfl
  rw [(batch_charges rfl _).1, EcotoneGasFee.l1Fee_nil] at hcost
  revert hcost
  decide +kernel

/-- In a block whose L1 prices are zero the two paths agree. -/
theorem pathIndependent_of_free_block :
    PathIndependent sampleCodec (attributesDeposit 0 0) sampleSubmitted sampleTx := by
  refine (pathIndependent_iff sampleCodec (by rfl) (by decide +kernel)).mpr ?_
  intro fee hfee
  have hfree : EcotoneGasFee.forDeposit (attributesDeposit 0 0).input =
      some ⟨0, 1368, 0, 810949⟩ := by decide +kernel
  rw [hfree, Option.some.injEq] at hfee
  subst hfee
  decide +kernel

end Samples

end OpMove.L1FeePaths
