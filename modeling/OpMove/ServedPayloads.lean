import OpMove.BlockStore
import OpMove.CommandRuns

/-!
The payload a block is served as, beside the commitments of its header. The header's tries are
built over the network encodings of the transactions and receipts, in which every typed envelope
is wrapped in an RLP string header; the payload carries the bare EIP-2718 bytes of the stored
transactions, and no withdrawals at all.
-/

namespace OpMove.ServedPayloads

open Primitives Transactions BlockBuilding BlockAgreement Multimaps BlockStore

section Payloads

structure ExecutionPayload where
  parentHash : B256
  feeRecipient : Address
  stateRoot : B256
  receiptsRoot : B256
  logsBloom : Bloom
  prevRandao : B256
  blockNumber : ℕ
  gasLimit : ℕ
  gasUsed : ℕ
  timestamp : ℕ
  baseFeePerGas : U256
  blockHash : B256
  transactions : List Bytes
  withdrawals : List Withdrawal
  blobGasUsed : ℕ
  excessBlobGas : ℕ
  deriving DecidableEq, Repr

structure BlobsBundle where
  commitments : List Bytes
  proofs : List Bytes
  blobs : List Bytes
  deriving DecidableEq, Repr

structure PayloadResponse where
  executionPayload : ExecutionPayload
  blockValue : U256
  blobsBundle : BlobsBundle
  shouldOverrideBuilder : Bool
  parentBeaconBlockRoot : B256
  deriving DecidableEq, Repr

variable (codec : Codec)

def ExecutionPayload.fromBlockWithTransactions (block : ExtendedBlock)
    (transactions : List OpTxEnvelope) : ExecutionPayload where
  blockHash := block.hash
  parentHash := block.header.parentHash
  feeRecipient := block.header.beneficiary
  stateRoot := block.header.stateRoot
  receiptsRoot := block.header.receiptsRoot
  logsBloom := block.header.logsBloom
  prevRandao := block.header.mixHash
  blockNumber := block.header.number
  gasLimit := block.header.gasLimit
  gasUsed := block.header.gasUsed
  timestamp := block.header.timestamp
  baseFeePerGas := BitVec.ofNat 256 (block.header.baseFeePerGas.getD 0)
  transactions := transactions.map codec.encode2718
  withdrawals := []
  blobGasUsed := block.header.blobGasUsed.getD 0
  excessBlobGas := block.header.excessBlobGas.getD 0

def PayloadResponse.fromBlockWithTransactions (block : ExtendedBlock)
    (transactions : List OpTxEnvelope) : PayloadResponse where
  parentBeaconBlockRoot := block.header.parentBeaconBlockRoot.getD 0
  blockValue := block.value
  executionPayload := .fromBlockWithTransactions codec block transactions
  blobsBundle := ⟨[], [], []⟩
  shouldOverrideBuilder := false

/-- The transactions in memory, under their hashes. -/
def transactionMemory (transactions : List ExtendedTransaction) :
    Multimap B256 ExtendedTransaction :=
  ⟨transactions.map fun tx => (tx.hash codec, tx)⟩

variable (pickTx : List ExtendedTransaction → Option ExtendedTransaction)

def byHashes (transactions : List ExtendedTransaction) (hashes : List B256) :
    List ExtendedTransaction :=
  hashes.filterMap ((transactionMemory codec transactions).getOne pickTx)

def blockIntoPayload (transactions : List ExtendedTransaction) (block : ExtendedBlock) :
    PayloadResponse :=
  .fromBlockWithTransactions codec block
    ((byHashes codec pickTx transactions block.transactions).map fun tx => tx.inner)

/-- The payload query of an application. -/
def payloadById {σ : Type} (pick : List ExtendedBlock → Option ExtendedBlock) (app : App σ)
    (id : ℕ) : Option PayloadResponse :=
  ((memoryOf app.blocks).byPayloadId pick id).map (blockIntoPayload codec pickTx app.transactions)

end Payloads

section Served

variable {codec : Codec} {pickTx : List ExtendedTransaction → Option ExtendedTransaction}

/-- No two of the transactions have encodings with one hash. -/
def HashesSeparate (codec : Codec) (transactions : List ExtendedTransaction) : Prop :=
  ∀ a ∈ transactions, ∀ b ∈ transactions,
    codec.trieHash a.inner = codec.trieHash b.inner →
      codec.encode2718 a.inner = codec.encode2718 b.inner

instance (transactions : List ExtendedTransaction) :
    Decidable (HashesSeparate codec transactions) :=
  inferInstanceAs (Decidable (∀ a ∈ transactions, ∀ b ∈ transactions, _ → _))

/-- What is served under the hash of a stored transaction is its encoding. -/
theorem encode2718_of_getOne (hpick : Picks pickTx) {transactions : List ExtendedTransaction}
    (hhash : HashesSeparate codec transactions) {tx : ExtendedTransaction}
    (htx : tx ∈ transactions) :
    ∃ found, (transactionMemory codec transactions).getOne pickTx (codec.trieHash tx.inner) =
        some found ∧ codec.encode2718 found.inner = codec.encode2718 tx.inner := by
  have hentry : (codec.trieHash tx.inner, tx) ∈ (transactionMemory codec transactions).entries :=
    List.mem_map.mpr ⟨tx, htx, rfl⟩
  obtain ⟨found, hfound⟩ := Option.isSome_iff_exists.mp
    ((Multimap.isSome_getOne_iff hpick).mpr ⟨tx, hentry⟩)
  obtain ⟨other, hother, hpair⟩ := List.mem_map.mp (Multimap.mem_of_getOne hpick hfound)
  obtain ⟨hkey, rfl⟩ := Prod.mk.inj hpair
  exact ⟨other, hfound, hhash other hother tx htx hkey⟩

theorem encode2718_byHashes (hpick : Picks pickTx) {transactions : List ExtendedTransaction}
    (hhash : HashesSeparate codec transactions) {txs : List OpTxEnvelope}
    (hstored : ∀ tx ∈ txs, ∃ stored ∈ transactions, stored.inner = tx) :
    (byHashes codec pickTx transactions (txs.map codec.trieHash)).map
      (fun tx => codec.encode2718 tx.inner) = txs.map codec.encode2718 := by
  induction txs with
  | nil => rfl
  | cons tx txs ih =>
    obtain ⟨stored, hmem, rfl⟩ := hstored tx List.mem_cons_self
    obtain ⟨found, hfound, hencode⟩ := encode2718_of_getOne hpick hhash hmem
    have hrest := ih fun tx htx => hstored tx (List.mem_cons_of_mem _ htx)
    rw [byHashes] at hrest ⊢
    rw [List.map_cons, List.filterMap_cons_some hfound, List.map_cons, List.map_cons, hencode, hrest]

end Served

section Commitments

variable {σ χ : Type} (env : Env σ χ)

def isLegacy : OpTxEnvelope → Bool
  | .legacy _ => true
  | _ => false

/-- Only a legacy transaction has its EIP-2718 bytes for network encoding. -/
theorem encode_eq_iff (codec : Codec) (tx : OpTxEnvelope) :
    codec.encode tx = codec.encode2718 tx ↔ isLegacy tx = true := by
  have hwrapped : ∀ bytes : Bytes, rlpStringHeader bytes.length ++ bytes ≠ bytes := by
    intro bytes h
    have hlen := congrArg List.length h
    have hpos : 0 < (rlpStringHeader bytes.length).length := by
      rw [rlpStringHeader, Rlp.header]
      split_ifs <;> simp
    rw [List.length_append] at hlen
    omega
  cases tx with
  | legacy tx => exact iff_of_true rfl rfl
  | eip2930 tx => exact iff_of_false (hwrapped _) Bool.false_ne_true
  | eip1559 tx => exact iff_of_false (hwrapped _) Bool.false_ne_true
  | eip7702 tx => exact iff_of_false (hwrapped _) Bool.false_ne_true
  | deposit tx => exact iff_of_false (hwrapped _) Bool.false_ne_true

/-- `Encodable::encode` of a receipt envelope with the given EIP-2718 bytes. -/
def encodeReceipt (receipt2718 : OpReceiptEnvelope → Bytes) (receipt : OpReceiptEnvelope) : Bytes :=
  match receipt with
  | .legacy _ _ => receipt2718 receipt
  | _ => rlpStringHeader (receipt2718 receipt).length ++ receipt2718 receipt

theorem encodeReceipt_of_legacy (receipt2718 : OpReceiptEnvelope → Bytes) {tx : OpTxEnvelope}
    {inner : Receipt} {bloom : Bloom} {receipt : OpReceiptEnvelope} (htx : isLegacy tx = true)
    (h : wrapReceipt tx inner bloom = some receipt) :
    encodeReceipt receipt2718 receipt = receipt2718 receipt := by
  cases tx with
  | legacy tx =>
    obtain rfl := Option.some.inj h
    rfl
  | _ => cases htx

/-- The header a consumer puts together from what it is served. -/
def rebuildHeader (response : PayloadResponse) : Header where
  parentHash := response.executionPayload.parentHash
  number := response.executionPayload.blockNumber
  timestamp := response.executionPayload.timestamp
  beneficiary := response.executionPayload.feeRecipient
  gasLimit := response.executionPayload.gasLimit
  mixHash := response.executionPayload.prevRandao
  parentBeaconBlockRoot := some response.parentBeaconBlockRoot
  transactionsRoot := env.orderedTrieRoot response.executionPayload.transactions
  withdrawalsRoot :=
    some (env.orderedTrieRoot (response.executionPayload.withdrawals.map Withdrawal.encode))
  baseFeePerGas := some response.executionPayload.baseFeePerGas.toNat
  blobGasUsed := some response.executionPayload.blobGasUsed
  excessBlobGas := some response.executionPayload.excessBlobGas
  stateRoot := response.executionPayload.stateRoot
  receiptsRoot := response.executionPayload.receiptsRoot
  logsBloom := response.executionPayload.logsBloom
  gasUsed := response.executionPayload.gasUsed

/-- The header of a block commits to what the block is served as. -/
structure Commits (receipt2718 : OpReceiptEnvelope → Bytes) (built : Built σ)
    (response : PayloadResponse) : Prop where
  transactions : built.block.header.transactionsRoot =
    env.orderedTrieRoot response.executionPayload.transactions
  withdrawals : built.block.header.withdrawalsRoot =
    some (env.orderedTrieRoot (response.executionPayload.withdrawals.map Withdrawal.encode))
  receipts : built.block.header.receiptsRoot =
    env.orderedTrieRoot (built.receipts.map fun receipt => receipt2718 receipt.receipt)
  hash : env.blockHash (rebuildHeader env response) = built.block.hash

/-- The lists of leaves whose roots a consumer compares. -/
def comparedLeaves (app : App σ) (attributes : Payload) (drained : List Item) :
    List (List Bytes) :=
  let txs := (collectTransactions env app attributes drained).map fun item => item.tx
  [txs.map env.codec.encode, txs.map env.codec.encode2718,
    attributes.withdrawals.map Withdrawal.encode, []]

/-- No two of the lists have one root. -/
def RootsSeparate (lists : List (List Bytes)) : Prop :=
  ∀ a ∈ lists, ∀ b ∈ lists, env.orderedTrieRoot a = env.orderedTrieRoot b → a = b

instance (lists : List (List Bytes)) : Decidable (RootsSeparate env lists) :=
  inferInstanceAs (Decidable (∀ a ∈ lists, ∀ b ∈ lists, _ → _))

variable {env} {app : App σ} {attributes : Payload} {id : ℕ} {drained : List Item}
variable {built : Built σ}

/-- A consumer rebuilds the header when the two roots it computes are the committed ones. -/
theorem rebuildHeader_eq {codec : Codec} {block : ExtendedBlock} {txs : List OpTxEnvelope} {fee : ℕ}
    {root : B256} (htransactions : block.header.transactionsRoot =
      env.orderedTrieRoot (txs.map codec.encode2718))
    (hwithdrawals : block.header.withdrawalsRoot = some (env.orderedTrieRoot []))
    (hbeacon : block.header.parentBeaconBlockRoot = some root)
    (hbase : block.header.baseFeePerGas = some fee) (hfee : fee ≤ maxU64)
    (hblob : block.header.blobGasUsed = some 0) (hexcess : block.header.excessBlobGas = some 0) :
    rebuildHeader env (.fromBlockWithTransactions codec block txs) = block.header := by
  obtain ⟨hash, value, id, header, hashes⟩ := block
  obtain ⟨⟩ := header
  have hword : fee < 2 ^ 256 := by
    unfold maxU64 at hfee
    omega
  dsimp only at htransactions hwithdrawals hbeacon hbase hblob hexcess
  subst htransactions hwithdrawals hbeacon hbase hblob hexcess
  simp [rebuildHeader, PayloadResponse.fromBlockWithTransactions,
    ExecutionPayload.fromBlockWithTransactions]
  exact hword

/-- Legacy transactions have legacy receipts. -/
theorem encodeReceipt_of_built {receipt2718 : OpReceiptEnvelope → Bytes}
    (h : buildBlock env app attributes id drained = some built)
    (hlegacy : ∀ item ∈ collectTransactions env app attributes drained, isLegacy item.tx = true)
    {receipt : ExtendedReceipt} (hreceipt : receipt ∈ built.receipts) :
    encodeReceipt receipt2718 receipt.receipt = receipt2718 receipt.receipt := by
  obtain ⟨parent, baseFee, batch, progress, -, -, -, hrun, -, hreceipts, -⟩ := buildBlock_spec env h
  have hall : ∀ receipt ∈ progress.receipts,
      encodeReceipt receipt2718 receipt.receipt = receipt2718 receipt.receipt := by
    refine runBatch_keeps env app.blocks batch (P := fun progress =>
      ∀ receipt ∈ progress.receipts,
        encodeReceipt receipt2718 receipt.receipt = receipt2718 receipt.receipt) ?_ hrun ?_
    · intro item hitem progress next hprogress hone
      rcases executeOne_executes env app.blocks batch hone with
        rfl | ⟨normalized, outcome, receipt, hone⟩
      · exact hprogress
      · obtain ⟨inner, bloom, hwraps⟩ := hone.wraps
        intro other hother
        rw [hone.receipts] at hother
        rcases List.mem_append.mp hother with hold | hnew
        · exact hprogress other hold
        · rw [List.mem_singleton.mp hnew]
          exact encodeReceipt_of_legacy receipt2718 (hlegacy item hitem) hwraps
    · intro receipt hreceipt
      cases hreceipt
  rw [hreceipts] at hreceipt
  obtain ⟨recorded, hrecorded, rfl⟩ := List.mem_map.mp hreceipt
  exact hall recorded hrecorded

variable {pick : List ExtendedBlock → Option ExtendedBlock}
variable {pickTx : List ExtendedTransaction → Option ExtendedTransaction}

/-- The query for a new payload id serves the block that was built for it, with the bare
encodings of the collected transactions. -/
theorem payloadById_of_built (hpick : Picks pick) (hpickTx : Picks pickTx)
    (hnew : ∀ block ∈ app.blocks, block.payloadId ≠ id)
    (h : buildBlock env { app with blocks := visible pick app.blocks } attributes id drained =
      some built)
    (hhash : HashesSeparate env.codec (app.withBlock built).transactions) :
    ∃ response, payloadById env.codec pickTx pick (app.withBlock built) id = some response ∧
      response = blockIntoPayload env.codec pickTx (app.withBlock built).transactions built.block ∧
      response.executionPayload.transactions =
        (collectTransactions env app attributes drained).map
          fun item => env.codec.encode2718 item.tx := by
  obtain ⟨-, -, -, -, hid, -⟩ := buildBlock_block env h
  obtain ⟨parent, baseFee, -, -, hparent, hfee, -, -, -, -, hhashes, -⟩ := buildBlock_spec env h
  obtain ⟨-, hstored⟩ := buildBlock_stored env h hparent hfee
  have hfound : (memoryOf (app.withBlock built).blocks).byPayloadId pick id = some built.block := by
    refine Multimap.getOne_eq_some hpick (mem_payloadIds.mpr ⟨?_, hid⟩) fun other hother => ?_
    · exact List.mem_append_right _ (List.mem_singleton_self _)
    · obtain ⟨hmem, hsame⟩ := mem_payloadIds.mp hother
      rcases List.mem_append.mp hmem with hold | hlast
      · exact absurd hsame (hnew other hold)
      · exact List.mem_singleton.mp hlast
  refine ⟨_, by rw [payloadById, hfound, Option.map_some], rfl, ?_⟩
  have hkept : ∀ tx ∈ (collectTransactions env app attributes drained).map (fun item => item.tx),
      ∃ stored ∈ (app.withBlock built).transactions, stored.inner = tx := by
    intro tx htx
    obtain ⟨item, hitem, rfl⟩ := List.mem_map.mp htx
    obtain ⟨stored, hmem, hinner⟩ := hstored item hitem
    exact ⟨stored, List.mem_append_right _ hmem, hinner⟩
  have hserved := encode2718_byHashes hpickTx hhash hkept
  simp only [List.map_map, Function.comp_def] at hserved
  simp only [blockIntoPayload, PayloadResponse.fromBlockWithTransactions,
    ExecutionPayload.fromBlockWithTransactions, List.map_map, Function.comp_def]
  rw [hhashes]
  exact hserved

/-- The header commits to what is served exactly when the block has legacy transactions only and
no withdrawals. -/
theorem commits_iff {receipt2718 : OpReceiptEnvelope → Bytes} (hpick : Picks pick)
    (hpickTx : Picks pickTx) (hencode : env.encodeReceipt = encodeReceipt receipt2718)
    (hnew : ∀ block ∈ app.blocks, block.payloadId ≠ id)
    (h : buildBlock env { app with blocks := visible pick app.blocks } attributes id drained =
      some built)
    (hhash : HashesSeparate env.codec (app.withBlock built).transactions)
    (hroots : RootsSeparate env (comparedLeaves env app attributes drained)) :
    ∃ response, payloadById env.codec pickTx pick (app.withBlock built) id = some response ∧
      (Commits env receipt2718 built response ↔ attributes.withdrawals = [] ∧
        ∀ item ∈ collectTransactions env app attributes drained, isLegacy item.tx = true) := by
  obtain ⟨response, hserved, hresponse, htxs⟩ := payloadById_of_built hpick hpickTx hnew h hhash
  obtain ⟨htxRoot, hwdRoot, hrxRoot, hbeacon, ⟨fee, hfee, hbase⟩, hblob, hexcess⟩ :=
    buildBlock_roots env h
  obtain ⟨-, -, -, -, -, hblockHash⟩ := buildBlock_block env h
  have htxRoot : built.block.header.transactionsRoot = env.orderedTrieRoot
      ((collectTransactions env app attributes drained).map fun item =>
        env.codec.encode item.tx) := htxRoot
  have hwithdrawals : response.executionPayload.withdrawals = [] := by
    rw [hresponse]
    rfl
  refine ⟨response, hserved, ?_, ?_⟩
  · intro hcommits
    constructor
    · have hroot := hcommits.withdrawals
      rw [hwdRoot, hwithdrawals, Option.some.injEq] at hroot
      have hsame := hroots _ (by simp [comparedLeaves]) _ (by simp [comparedLeaves]) hroot
      exact List.map_eq_nil_iff.mp hsame
    · have hroot := hcommits.transactions
      rw [htxRoot, htxs] at hroot
      have hsame := hroots _ (by simp [comparedLeaves, Function.comp_def]) _
        (by simp [comparedLeaves, Function.comp_def]) hroot
      intro item hitem
      exact (encode_eq_iff env.codec item.tx).mp (List.map_inj_left.mp hsame item hitem)
  · rintro ⟨hnone, hlegacy⟩
    have htransactions : built.block.header.transactionsRoot =
        env.orderedTrieRoot response.executionPayload.transactions := by
      rw [htxRoot, htxs]
      exact congrArg env.orderedTrieRoot (List.map_congr_left fun item hitem =>
        (encode_eq_iff env.codec item.tx).mpr (hlegacy item hitem))
    have hheader : rebuildHeader env response = built.block.header := by
      rw [hresponse] at htransactions ⊢
      rw [hnone] at hwdRoot
      exact rebuildHeader_eq htransactions hwdRoot hbeacon hbase hfee hblob hexcess
    refine ⟨htransactions, ?_, ?_, ?_⟩
    · rw [hwdRoot, hwithdrawals, hnone]
    · rw [hrxRoot, hencode]
      exact congrArg env.orderedTrieRoot (List.map_congr_left fun receipt hreceipt =>
        encodeReceipt_of_built h hlegacy hreceipt)
    · rw [hheader, ← hblockHash]

end Commitments

section Samples

open CommandRuns

def logBytes (log : Log) : Bytes :=
  Rlp.encodeList [Rlp.encodeString (addressBytes log.address),
    Rlp.encodeList (log.topics.map fun topic => Rlp.encodeString (leBytes 32 topic.toNat).reverse),
    Rlp.encodeString log.data]

/-- The RLP list of a receipt with its bloom, and what a deposit's receipt has beside it. -/
def receiptBody (receipt : Receipt) (bloom : Bloom) (extra : List Bytes) : Bytes :=
  Rlp.encodeList ([Rlp.encodeNat receipt.status.toNat, Rlp.encodeNat receipt.cumulativeGasUsed,
    Rlp.encodeString (leBytes 256 bloom.toNat).reverse,
    Rlp.encodeList (receipt.logs.map logBytes)] ++ extra)

/-- `encode_2718` of a receipt envelope. -/
def receiptBytes : OpReceiptEnvelope → Bytes
  | .legacy receipt bloom => receiptBody receipt bloom []
  | .eip2930 receipt bloom => 1 :: receiptBody receipt bloom []
  | .eip1559 receipt bloom => 2 :: receiptBody receipt bloom []
  | .deposit receipt bloom nonce version =>
      0x7e :: receiptBody receipt bloom ((nonce.toList ++ version.toList).map Rlp.encodeNat)

def successReceipt : Receipt := ⟨true, 21000, []⟩

/-- The roots of the tries with at most one leaf that the samples have. -/
def knownRoots : List (List Bytes × B256) :=
  [([], 0x56e81f171bcc55a6ff8345e692c0f86e5b48e01b996cadc001622fb5e363b421),
   ([sampleBytes], 0x36cf58bec935fe50593ac7443cb728dd37dedac603d60fddfae59fd3bdbfcd7f),
   ([depositBytes], 0xe9b9ca582bf50aae3bece7c95e43d8a6d152665f52a3194925fdfc680f4a1b57),
   ([rlpStringHeader 251 ++ depositBytes],
     0xec58add9149469753c3e851aab3fc6405df8ded2ea25c14063bd9682eff6d908),
   ([receiptBytes (.legacy successReceipt 0)],
     0x056b23fbba480696b65fe5a59b8f2148a1299103c4f57df839233af2cf4ca2d2),
   ([encodeReceipt receiptBytes (.deposit successReceipt 0 (some 0) (some 1))],
     0x94496bb66f84c464c12d5028d8f26748c4fb272765f166f707dddbc1f9006fa2)]

def rootedEnv (codec : Codec) : Env Unit Unit :=
  { sampleEnv with
    codec := codec
    orderedTrieRoot := fun leaves => ((knownRoots.lookup leaves).getD 0)
    encodeReceipt := encodeReceipt receiptBytes }

/-- The sample application as the builder sees it. -/
def seenApp : App Unit := { sampleApp with blocks := visible List.head? sampleApp.blocks }

theorem typed_transaction_uncommitted : ∃ built response,
    buildBlock (rootedEnv depositCodec) seenApp (samplePayload [depositBytes]) 1 [] = some built ∧
      payloadById depositCodec List.head? List.head? (sampleApp.withBlock built) 1 =
        some response ∧
      response.executionPayload.transactions = [depositBytes] ∧
      ¬ Commits (rootedEnv depositCodec) receiptBytes built response := by
  have hrun : (buildBlock (rootedEnv depositCodec) seenApp (samplePayload [depositBytes]) 1 []).map
      (fun built => (built.block.header.transactionsRoot,
        (payloadById depositCodec List.head? List.head? (sampleApp.withBlock built) 1).map
          fun response => response.executionPayload.transactions)) =
      some (0xec58add9149469753c3e851aab3fc6405df8ded2ea25c14063bd9682eff6d908,
        some [depositBytes]) := by decide +kernel
  obtain ⟨built, hbuilt, hpair⟩ := Option.map_eq_some_iff.mp hrun
  obtain ⟨hroot, hserved⟩ := Prod.mk.inj hpair
  obtain ⟨response, hresponse, htransactions⟩ := Option.map_eq_some_iff.mp hserved
  refine ⟨built, response, hbuilt, hresponse, htransactions, fun hcommits => ?_⟩
  have hsame := hcommits.transactions
  rw [hroot, htransactions] at hsame
  revert hsame
  decide +kernel

theorem commits_iff_sample : ∃ built response,
    buildBlock (rootedEnv sampleCodec) seenApp (samplePayload [sampleBytes]) 1 [] = some built ∧
      payloadById sampleCodec List.head? List.head? (sampleApp.withBlock built) 1 =
        some response ∧
      Commits (rootedEnv sampleCodec) receiptBytes built response := by
  have hrun : (buildBlock (rootedEnv sampleCodec) seenApp (samplePayload [sampleBytes]) 1 []).map
      (fun built => decide (HashesSeparate sampleCodec (sampleApp.withBlock built).transactions)) =
      some true := by decide +kernel
  obtain ⟨built, hbuilt, hhash⟩ := Option.map_eq_some_iff.mp hrun
  have hroots : RootsSeparate (rootedEnv sampleCodec)
      (comparedLeaves (rootedEnv sampleCodec) sampleApp (samplePayload [sampleBytes]) []) := by
    decide +kernel
  have hlegacy : ∀ item ∈ collectTransactions (rootedEnv sampleCodec) sampleApp
      (samplePayload [sampleBytes]) [], isLegacy item.tx = true := by decide +kernel
  have hnew : ∀ block ∈ sampleApp.blocks, block.payloadId ≠ 1 := by decide
  obtain ⟨response, hresponse, hiff⟩ := commits_iff picks_head picks_head rfl hnew hbuilt
    (of_decide_eq_true hhash) hroots
  exact ⟨built, response, hbuilt, hresponse, hiff.mpr ⟨rfl, hlegacy⟩⟩

end Samples

end OpMove.ServedPayloads
