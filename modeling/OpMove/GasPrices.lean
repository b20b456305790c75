import OpMove.Node
import OpMove.FailedTransactions

/-!
The price of gas a transaction is charged, and what its sender has signed. The price is
computed twice: for execution, from the normalised transaction and the base fee as a
256-bit word, and for storage, from the envelope and the 64-bit base fee of the header.
Neither refuses a transaction whose maximum is below the base fee.
-/

namespace OpMove.GasPrices

open Primitives GasFees Transactions Errors Sessions Canonical CanonicalRuns
open BlockBuilding BlockAgreement Node

section Envelopes

/-- The signed maximum, which is the price itself for the two older types. -/
def maxFeePerGas : OpTxEnvelope → ℕ
  | .legacy signed => signed.tx.gasPrice
  | .eip2930 signed => signed.tx.gasPrice
  | .eip1559 signed => signed.tx.maxFeePerGas
  | .eip7702 signed => signed.tx.maxFeePerGas
  | .deposit _ => 0

def maxPriorityFeePerGas : OpTxEnvelope → ℕ
  | .legacy signed => signed.tx.gasPrice
  | .eip2930 signed => signed.tx.gasPrice
  | .eip1559 signed => signed.tx.maxPriorityFeePerGas
  | .eip7702 signed => signed.tx.maxPriorityFeePerGas
  | .deposit _ => 0

/-- The transaction has one price instead of a maximum and a priority fee. -/
def hasFixedPrice : OpTxEnvelope → Bool
  | .legacy _ => true
  | .eip2930 _ => true
  | _ => false

/-- The fee fields are 128-bit numbers in the source. -/
structure FeesFit (tx : OpTxEnvelope) : Prop where
  max : maxFeePerGas tx < 2 ^ 128
  priority : maxPriorityFeePerGas tx < 2 ^ 128

/-- The maximum covers the base fee, and the 64-bit base fee of the header gives the same
price as the base fee itself. -/
def MeetsBaseFee (tx : OpTxEnvelope) (baseFee : U256) : Prop :=
  baseFee.toNat ≤ maxFeePerGas tx ∧
    (hasFixedPrice tx = true ∨ baseFee.toNat ≤ maxU64 ∨
      maxFeePerGas tx ≤ maxPriorityFeePerGas tx + maxU64)

theorem normalized_fees {codec : Codec} {tx : OpTxEnvelope}
    {normalized : NormalizedEthTransaction}
    (h : NormalizedExtendedTxEnvelope.ofEnvelope codec tx = some (.canonical normalized)) :
    normalized.maxFeePerGas = BitVec.ofNat 256 (maxFeePerGas tx) ∧
      normalized.maxPriorityFeePerGas = BitVec.ofNat 256 (maxPriorityFeePerGas tx) := by
  cases tx with
  | eip7702 signed => cases h
  | deposit tx => cases h
  | legacy signed =>
    obtain ⟨signer, -, hsome⟩ := Option.bind_eq_some_iff.mp h
    cases hsome
    exact ⟨rfl, rfl⟩
  | eip2930 signed =>
    obtain ⟨signer, -, hsome⟩ := Option.bind_eq_some_iff.mp h
    cases hsome
    exact ⟨rfl, rfl⟩
  | eip1559 signed =>
    obtain ⟨signer, -, hsome⟩ := Option.bind_eq_some_iff.mp h
    cases hsome
    exact ⟨rfl, rfl⟩

/-- The price in the storage is the fixed price, or the base fee with the priority fee up to
the maximum. -/
theorem storedPrice_eq {codec : Codec} {tx : OpTxEnvelope} {normalized : NormalizedEthTransaction}
    (h : NormalizedExtendedTxEnvelope.ofEnvelope codec tx = some (.canonical normalized))
    (fee : ℕ) :
    effectiveGasPrice tx (some fee) =
      if hasFixedPrice tx = true then maxFeePerGas tx
      else if maxPriorityFeePerGas tx < maxFeePerGas tx - fee then maxPriorityFeePerGas tx + fee
      else maxFeePerGas tx := by
  cases tx with
  | eip7702 signed => cases h
  | deposit tx => cases h
  | legacy signed => rfl
  | eip2930 signed => rfl
  | eip1559 signed => rfl

theorem fixedPrice_eq {tx : OpTxEnvelope} (h : hasFixedPrice tx = true) :
    maxPriorityFeePerGas tx = maxFeePerGas tx := by
  cases tx <;> first | rfl | cases h

end Envelopes

section Prices

variable {tx : NormalizedEthTransaction} {baseFee : U256} {maxFee priority : ℕ}

theorem toNat_tipPerGas (hmax : tx.maxFeePerGas.toNat = maxFee)
    (hpriority : tx.maxPriorityFeePerGas.toNat = priority) :
    (tx.tipPerGas baseFee).toNat = min priority (maxFee - baseFee.toNat) := by
  have hextra : (if baseFee.toNat ≤ tx.maxFeePerGas.toNat then tx.maxFeePerGas - baseFee
      else 0).toNat = maxFee - baseFee.toNat := by
    split_ifs with hle
    · rw [BitVec.toNat_sub_of_le (BitVec.le_def.mpr hle), hmax]
    · have hzero : (0 : U256).toNat = 0 := rfl
      omega
  rw [NormalizedEthTransaction.tipPerGas, U256.toNat_min, hextra, hpriority]

/-- With a maximum below the base fee, the price is the base fee all the same. -/
theorem toNat_price (hmax : tx.maxFeePerGas.toNat = maxFee)
    (hpriority : tx.maxPriorityFeePerGas.toNat = priority) :
    (tx.effectiveGasPrice baseFee).toNat =
      if baseFee.toNat ≤ maxFee then min (priority + baseFee.toNat) maxFee else baseFee.toNat := by
  have htip : (tx.tipPerGas baseFee).toNat = _ := toNat_tipPerGas hmax hpriority
  have hfee := tx.maxFeePerGas.isLt
  have hbase := baseFee.isLt
  rw [NormalizedEthTransaction.effectiveGasPrice, BitVec.toNat_add, htip, Nat.mod_eq_of_lt]
  · split_ifs <;> omega
  · omega

end Prices

section Respect

variable {γ X τ : Type} {config : NodeConfig γ X τ}

/-- No more per gas than signed, and one price in the receipt and in the storage. -/
structure PriceRespected (built : Built ChainState) (batch : Batch) (item : Item)
    (tx : NormalizedEthTransaction) (receipt : ExtendedReceipt) : Prop where
  cap : (batch.input item (.canonical tx)).l2Input.effectiveGasPrice.toNat ≤ maxFeePerGas item.tx
  tip : (tx.tipPerGas batch.baseFee).toNat ≤ maxPriorityFeePerGas item.tx
  recorded : ∀ stored ∈ built.transactions, stored.inner = item.tx →
    receipt.l2GasPrice.toNat = stored.effectiveGasPrice
  covered : batch.baseFee.toNat ≤ maxFeePerGas item.tx

/-- The receipt has the price the transaction was charged at. -/
theorem l2GasPrice_of_recorded {blocks : List ExtendedBlock} {batch : Batch} {item : Item}
    {receipt : ExtendedReceipt} {tx : NormalizedEthTransaction}
    (hnormal : NormalizedExtendedTxEnvelope.ofEnvelope config.txCodec item.tx =
      some (.canonical tx))
    (h : Recorded (node config) blocks batch item receipt) :
    receipt.l2GasPrice = tx.effectiveGasPrice batch.baseFee := by
  obtain ⟨state, normalized, outcome, hnormal', hrun, hprice⟩ := h
  obtain rfl : normalized = .canonical tx := Option.some.inj (hnormal'.symm.trans hnormal)
  obtain ⟨result, hcanonical, rfl⟩ := accepted_canonical hrun
  obtain ⟨data, verified, afterPayload, run, settled, payload, vmOutcome, haccepted⟩ :=
    acceptedRun_of_ok hcanonical
  obtain ⟨-, -, -, -, hl2Price, -⟩ := finishCanonical_ok haccepted.finishes
  rw [hprice]
  exact hl2Price

/-- Both prices against the signed fields, as numbers. -/
theorem prices_iff (baseFee maxFee priority : ℕ) (fixed : Bool)
    (hfixed : fixed = true → priority = maxFee) :
    ((if baseFee ≤ maxFee then min (priority + baseFee) maxFee else baseFee) ≤ maxFee ∧
      min priority (maxFee - baseFee) ≤ priority ∧
      (if baseFee ≤ maxFee then min (priority + baseFee) maxFee else baseFee) =
        (if fixed = true then maxFee
          else if priority < maxFee - min baseFee maxU64 then priority + min baseFee maxU64
          else maxFee) ∧
      baseFee ≤ maxFee) ↔
    baseFee ≤ maxFee ∧ (fixed = true ∨ baseFee ≤ maxU64 ∨ maxFee ≤ priority + maxU64) := by
  generalize maxU64 = bound
  cases fixed with
  | true =>
    have hsame := hfixed rfl
    simp only [if_true, true_or, and_true]
    constructor
    · exact fun h => h.2.2.2
    · intro h
      rw [if_pos h]
      omega
  | false =>
    simp only [Bool.false_eq_true, if_false, false_or]
    constructor
    · rintro ⟨-, -, heq, hle⟩
      rw [if_pos hle] at heq
      split_ifs at heq <;> omega
    · rintro ⟨hle, hsame⟩
      rw [if_pos hle]
      split_ifs <;> omega

/-- An executed item is one of the batch, and its receipt was recorded there. -/
theorem executed_of_built {app : App ChainState} {attributes : Payload} {id : ℕ}
    {drained : List Item} {built : Built ChainState} {parent : ExtendedBlock} {baseFee : U256}
    {batch : Batch} {item : Item} {receipt : ExtendedReceipt}
    (hbuilt : buildBlock (node config) app attributes id drained = some built)
    (hparent : latestBlock app.blocks = some parent)
    (hbase : baseFeeAfter (node config) parent = some baseFee)
    (hbatch : batchFor (collectTransactions (node config) app attributes drained) baseFee
      (headerForExecution parent attributes) = some batch)
    (hexecuted : (item, receipt) ∈ built.executed.zip built.receipts) :
    batch.baseFee = baseFee ∧
      item ∈ collectTransactions (node config) app attributes drained ∧
      Recorded (node config) app.blocks batch item receipt := by
  obtain ⟨parent', baseFee', batch', progress, hparent', hbase', hbatch', hrun, hdone, hreceipts,
    -⟩ := buildBlock_spec (node config) hbuilt
  obtain rfl : parent = parent' := Option.some.inj (hparent.symm.trans hparent')
  obtain rfl : baseFee = baseFee' := Option.some.inj (hbase.symm.trans hbase')
  obtain rfl : batch = batch' := Option.some.inj (hbatch.symm.trans hbatch')
  obtain ⟨done, -, hexecutedEq, -, -, hsub, -⟩ := runBatch_spec (node config) app.blocks batch hrun
  have hforall := runBatch_recorded (node config) app.blocks batch hrun
  rw [hdone, hreceipts, List.zip_map_right] at hexecuted
  obtain ⟨⟨item', original⟩, hmem, hpair⟩ := List.mem_map.mp hexecuted
  obtain ⟨rfl, rfl⟩ := Prod.mk.inj hpair
  refine ⟨?_, ?_, ?_⟩
  · obtain ⟨l1Fee, -, hsome⟩ := Option.bind_eq_some_iff.mp hbatch
    rw [← Option.some.inj hsome]
  · have hin : item' ∈ progress.executed := (List.of_mem_zip hmem).1
    rw [hexecutedEq] at hin
    exact hsub.subset (by simpa [Progress.start] using hin)
  · have hrecorded : Recorded (node config) app.blocks batch item' original :=
      (List.forall₂_iff_zip.mp hforall).2 hmem
    exact hrecorded

/-- The price of an executed transaction is respected exactly when its maximum covers the
base fee and the base fee in the header is as good as the base fee itself. -/
theorem priceRespected_iff {app : App ChainState} {attributes : Payload} {id : ℕ}
    {drained : List Item} {built : Built ChainState} {parent : ExtendedBlock} {baseFee : U256}
    {batch : Batch} {item : Item} {receipt : ExtendedReceipt} {tx : NormalizedEthTransaction}
    (hbuilt : buildBlock (node config) app attributes id drained = some built)
    (hparent : latestBlock app.blocks = some parent)
    (hbase : baseFeeAfter (node config) parent = some baseFee)
    (hbatch : batchFor (collectTransactions (node config) app attributes drained) baseFee
      (headerForExecution parent attributes) = some batch)
    (hexecuted : (item, receipt) ∈ built.executed.zip built.receipts)
    (hnormal : NormalizedExtendedTxEnvelope.ofEnvelope config.txCodec item.tx =
      some (.canonical tx)) (hfits : FeesFit item.tx) :
    PriceRespected built batch item tx receipt ↔ MeetsBaseFee item.tx baseFee := by
  obtain ⟨hmax, hpriority⟩ := normalized_fees hnormal
  have hmaxNat : tx.maxFeePerGas.toNat = maxFeePerGas item.tx := by
    rw [hmax, BitVec.toNat_ofNat, Nat.mod_eq_of_lt (hfits.max.trans (by norm_num))]
  have hpriorityNat : tx.maxPriorityFeePerGas.toNat = maxPriorityFeePerGas item.tx := by
    rw [hpriority, BitVec.toNat_ofNat, Nat.mod_eq_of_lt (hfits.priority.trans (by norm_num))]
  obtain ⟨hbatchFee, hitem, hrecorded⟩ := executed_of_built hbuilt hparent hbase hbatch hexecuted
  have hreceipt := l2GasPrice_of_recorded hnormal hrecorded
  rw [hbatchFee] at hreceipt
  obtain ⟨hstored, hexists⟩ := buildBlock_stored (node config) hbuilt hparent hbase
  have hiff := prices_iff baseFee.toNat (maxFeePerGas item.tx) (maxPriorityFeePerGas item.tx)
    (hasFixedPrice item.tx) fixedPrice_eq
  rw [← storedPrice_eq hnormal, ← toNat_price hmaxNat hpriorityNat,
    ← toNat_tipPerGas hmaxNat hpriorityNat] at hiff
  refine Iff.trans ⟨fun h => ?_, fun h => ?_⟩ hiff
  · obtain ⟨hcap, htip, hsame, hcovered⟩ := h
    change (tx.effectiveGasPrice batch.baseFee).toNat ≤ _ at hcap
    rw [hbatchFee] at hcap htip hcovered
    obtain ⟨stored, hmem, hinner⟩ := hexists item hitem
    refine ⟨hcap, htip, ?_, hcovered⟩
    rw [← hreceipt, hsame stored hmem hinner, hstored stored hmem, hinner]
  · obtain ⟨hcap, htip, hsame, hcovered⟩ := h
    refine ⟨?_, ?_, ?_, ?_⟩
    · show (tx.effectiveGasPrice batch.baseFee).toNat ≤ _
      rw [hbatchFee]
      exact hcap
    · rw [hbatchFee]
      exact htip
    · intro stored hmem hinner
      rw [hreceipt, hsame, hstored stored hmem, hinner]
    · rw [hbatchFee]
      exact hcovered

end Respect

section Samples

open FailedTransactions Extraction

def sampleSigner : Address := 0x9d8a62f656a8d1615c1294fd71e9cfb3e4855a4f

/-- A node for chain one, with the consensus library at the sample transactions. -/
def sampleConfig : NodeConfig ℕ Unit Unit where
  toCanonicalEnv := { canonicalEnv with chainId := 1 }
  ethTreasury := 7
  txCodec := sampleCodec
  stateRoot _ := 0
  gasFee := ⟨6, 250⟩
  blockHash header := BitVec.ofNat 256 header.number
  orderedTrieRoot leaves := BitVec.ofNat 256 leaves.length
  encodeReceipt _ := []
  logBloom _ := 0

/-- The signer of the sample transaction has two ETH and has sent nine transactions. -/
def sampleChain : ChainState where
  move := {
    ethStores a :=
      if a = toMoveAddress sampleSigner then some ⟨a, 2000000000000000000, false⟩ else none
    ethSupply := 2000000000000000000
    sequenceNumbers a := if a = toMoveAddress sampleSigner then some 9 else none
    resources _ := none
    modules _ := none }
  evm := sampleBase.toEvmState

example : Sessions.balances sampleChain.move (toMoveAddress sampleSigner) = 2 * 10 ^ 18 := by
  decide +kernel

/-- A chain with a genesis block of the given base fee. -/
def appWithBaseFee (baseFee : ℕ) : App ChainState where
  state := sampleChain
  memPool := []
  receipts := []
  transactions := []
  blocks := [⟨0, 0, 0, { sampleHeader with baseFeePerGas := some baseFee }, []⟩]

def sampleItem : Item := ⟨sampleHash, sampleTx, .ofBytes []⟩

def sampleNormalized : NormalizedEthTransaction where
  signer := sampleSigner
  target := .call 0x3535353535353535353535353535353535353535
  nonce := 9
  value := 1000000000000000000
  data := []
  chainId := some 1
  gasLimitWord := 21000
  maxPriorityFeePerGas := 20000000000
  maxFeePerGas := 20000000000

def batchAt (baseFee : U256) : Batch :=
  ⟨baseFee, ⟨1, 1, 0⟩, none, .withDefaultGasFeeMultiplier⟩

/-- The block of the sample transaction, as far as its price goes. -/
theorem built_at (baseFee : ℕ) (price : U256) (stored : ℕ)
    (h : (buildBlock (node sampleConfig) (appWithBaseFee baseFee) (samplePayload [sampleBytes]) 1
        []).map (fun built => (built.executed, built.receipts.map fun r => r.l2GasPrice,
          built.transactions.map fun tx => (tx.inner, tx.effectiveGasPrice))) =
      some ([sampleItem], [price], [(sampleTx, stored)])) :
    ∃ built receipt, buildBlock (node sampleConfig) (appWithBaseFee baseFee)
        (samplePayload [sampleBytes]) 1 [] = some built ∧
      (sampleItem, receipt) ∈ built.executed.zip built.receipts ∧ receipt.l2GasPrice = price := by
  obtain ⟨built, hbuilt, hparts⟩ := Option.map_eq_some_iff.mp h
  obtain ⟨hexecuted, hrest⟩ := Prod.mk.inj hparts
  obtain ⟨hprices, -⟩ := Prod.mk.inj hrest
  obtain ⟨receipt, hreceipts, hprice⟩ := List.map_eq_singleton_iff.mp hprices
  exact ⟨built, receipt, hbuilt, by simp [hexecuted, hreceipts], hprice⟩

theorem batchFor_sample (baseFee : ℕ) (next : U256) :
    batchFor (collectTransactions (node sampleConfig) (appWithBaseFee baseFee)
      (samplePayload [sampleBytes]) []) next ⟨1, 1, 0⟩ = some (batchAt next) := by
  have hitems : collectTransactions (node sampleConfig) (appWithBaseFee baseFee)
      (samplePayload [sampleBytes]) [] =
        [sampleBytes].filterMap (payloadItem sampleCodec) := by
    simp [collectTransactions, appWithBaseFee, samplePayload, node, sampleConfig]
  have hhead : headL1Fee ([sampleBytes].filterMap (payloadItem sampleCodec)) = some none := by
    decide +kernel
  rw [hitems, batchFor, hhead]
  rfl

theorem sample_normalized : NormalizedExtendedTxEnvelope.ofEnvelope sampleConfig.txCodec sampleTx =
    some (.canonical sampleNormalized) := by
  decide +kernel

/-- At a base fee of 99.6 gwei the transaction is executed and charged that price, although
its sender has signed for 20 gwei at most. -/
theorem underpriced_is_executed :
    ∃ built receipt, buildBlock (node sampleConfig) (appWithBaseFee 100000000000)
        (samplePayload [sampleBytes]) 1 [] = some built ∧
      (sampleItem, receipt) ∈ built.executed.zip built.receipts ∧
      receipt.l2GasPrice = 99600000000 ∧ maxFeePerGas sampleTx = 20000000000 ∧
      ¬ PriceRespected built (batchAt 99600000000) sampleItem sampleNormalized receipt := by
  obtain ⟨built, receipt, hbuilt, hmem, hprice⟩ :=
    built_at 100000000000 99600000000 20000000000 (by decide +kernel)
  refine ⟨built, receipt, hbuilt, hmem, hprice, rfl, fun hrespected => ?_⟩
  have hcovered : 99600000000 ≤ 20000000000 := hrespected.covered
  omega

/-- At a base fee of one gwei the price is respected. -/
theorem priceRespected_sample :
    ∃ built receipt, buildBlock (node sampleConfig) (appWithBaseFee 1000000000)
        (samplePayload [sampleBytes]) 1 [] = some built ∧
      PriceRespected built (batchAt 996000000) sampleItem sampleNormalized receipt := by
  obtain ⟨built, receipt, hbuilt, hmem, -⟩ :=
    built_at 1000000000 20000000000 20000000000 (by decide +kernel)
  have hbase : baseFeeAfter (node sampleConfig)
      ⟨0, 0, 0, { sampleHeader with baseFeePerGas := some 1000000000 }, []⟩ = some 996000000 := by
    decide +kernel
  have hfits : FeesFit sampleItem.tx := ⟨by decide, by decide⟩
  have hmeets : MeetsBaseFee sampleItem.tx 996000000 := ⟨by decide, Or.inl rfl⟩
  exact ⟨built, receipt, hbuilt, (priceRespected_iff hbuilt rfl hbase
    (batchFor_sample 1000000000 996000000) hmem sample_normalized hfits).mpr hmeets⟩

end Samples

end OpMove.GasPrices
