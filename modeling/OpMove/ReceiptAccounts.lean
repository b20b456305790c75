import OpMove.BlockAgreement

/-!
What the receipts of a block add up to. The loop threads the gas used, the tip, the bloom and the
offset of the logs through its passes; rendering reads the offsets back to number the logs. All of
it is one invariant of the loop, stated on the receipts alone, so an item that is passed over
cannot take part in it.
-/

namespace OpMove.ReceiptAccounts

open Primitives GasFees Transactions BlockBuilding BlockAgreement

section Rendering

structure RpcLog where
  inner : Log
  blockHash : Option B256
  blockNumber : Option ℕ
  blockTimestamp : Option ℕ
  transactionHash : Option B256
  transactionIndex : Option ℕ
  logIndex : Option ℕ
  removed : Bool
  deriving DecidableEq, Repr

structure RpcReceipt where
  status : Bool
  cumulativeGasUsed : ℕ
  logs : List RpcLog
  deriving DecidableEq, Repr

inductive RpcReceiptEnvelope
  | legacy (receipt : RpcReceipt) (bloom : Bloom)
  | eip2930 (receipt : RpcReceipt) (bloom : Bloom)
  | eip1559 (receipt : RpcReceipt) (bloom : Bloom)
  | deposit (receipt : RpcReceipt) (bloom : Bloom) (depositNonce : Option ℕ)
      (depositReceiptVersion : Option ℕ)
  deriving DecidableEq, Repr

/-- The receipt inside an envelope, with its bloom. -/
def opened : OpReceiptEnvelope → Receipt × Bloom
  | .legacy receipt bloom => (receipt, bloom)
  | .eip2930 receipt bloom => (receipt, bloom)
  | .eip1559 receipt bloom => (receipt, bloom)
  | .deposit receipt bloom _ _ => (receipt, bloom)

def RpcReceiptEnvelope.logs : RpcReceiptEnvelope → List RpcLog
  | .legacy receipt _ => receipt.logs
  | .eip2930 receipt _ => receipt.logs
  | .eip1559 receipt _ => receipt.logs
  | .deposit receipt _ _ _ => receipt.logs

def withRpcLogs (envelope : OpReceiptEnvelope) (logs : List RpcLog) : RpcReceiptEnvelope :=
  let relogged (receipt : Receipt) : RpcReceipt :=
    ⟨receipt.status, receipt.cumulativeGasUsed, logs⟩
  match envelope with
  | .legacy receipt bloom => .legacy (relogged receipt) bloom
  | .eip2930 receipt bloom => .eip2930 (relogged receipt) bloom
  | .eip1559 receipt bloom => .eip1559 (relogged receipt) bloom
  | .deposit receipt bloom nonce version => .deposit (relogged receipt) bloom nonce version

structure TransactionReceipt where
  inner : RpcReceiptEnvelope
  transactionHash : B256
  transactionIndex : Option ℕ
  blockHash : Option B256
  blockNumber : Option ℕ
  gasUsed : ℕ
  effectiveGasPrice : ℕ
  blobGasUsed : Option ℕ
  blobGasPrice : Option ℕ
  sender : Address
  recipient : Option Address
  contractAddress : Option Address
  l1BlockInfo : L1BlockInfo
  deriving DecidableEq, Repr

def defaultL1BlockInfo : L1BlockInfo :=
  ⟨none, none, none, none, none, none, none, none, none⟩

def receiptLogs (rx : ExtendedReceipt) : List Log := (opened rx.receipt).1.logs

/-- `From<ExtendedReceipt> for TransactionReceipt`. -/
def TransactionReceipt.ofExtended (rx : ExtendedReceipt) : TransactionReceipt :=
  let logs : List RpcLog := (receiptLogs rx).mapIdx fun internalIndex log =>
    { inner := log
      blockHash := some rx.blockHash
      blockNumber := some rx.blockNumber
      blockTimestamp := some rx.blockTimestamp
      transactionHash := some rx.transactionHash
      transactionIndex := some rx.transactionIndex
      logIndex := some (rx.logsOffset + internalIndex)
      removed := false }
  { inner := withRpcLogs rx.receipt logs
    transactionHash := rx.transactionHash
    transactionIndex := some rx.transactionIndex
    blockHash := some rx.blockHash
    blockNumber := some rx.blockNumber
    gasUsed := rx.gasUsed
    effectiveGasPrice := saturatingToU128 rx.l2GasPrice
    blobGasUsed := none
    blobGasPrice := none
    sender := rx.sender
    recipient := rx.recipient
    contractAddress := rx.contractAddress
    l1BlockInfo := rx.l1BlockInfo.getD defaultL1BlockInfo }

/-- The log indices that a receipt is rendered with. -/
def logIndices (rx : ExtendedReceipt) : List (Option ℕ) :=
  (TransactionReceipt.ofExtended rx).inner.logs.map fun log => log.logIndex

theorem logs_withRpcLogs (envelope : OpReceiptEnvelope) (logs : List RpcLog) :
    (withRpcLogs envelope logs).logs = logs := by
  cases envelope <;> rfl

/-- A receipt numbers its logs from its offset on. -/
theorem logIndices_eq (rx : ExtendedReceipt) :
    logIndices rx = (List.range (receiptLogs rx).length).map fun i => some (rx.logsOffset + i) := by
  rw [logIndices, TransactionReceipt.ofExtended, logs_withRpcLogs]
  apply List.ext_getElem
  · simp
  · intro i hi hi'
    simp

end Rendering

section Totals

def gasTotal (receipts : List ExtendedReceipt) : ℕ := (receipts.map fun rx => rx.gasUsed).sum

def logTotal (receipts : List ExtendedReceipt) : ℕ :=
  (receipts.map fun rx => (receiptLogs rx).length).sum

def bloomUnion (receipts : List ExtendedReceipt) : Bloom :=
  receipts.foldl (fun bloom rx => bloom ||| (opened rx.receipt).2) 0

/-- The tip that a transaction pays for one unit of gas. -/
def tipOf (codec : Codec) (baseFee : U256) (item : Item) : ℕ :=
  ((NormalizedExtendedTxEnvelope.ofEnvelope codec item.tx).map fun normalized =>
    (normalized.tipPerGas baseFee).toNat).getD 0

def tipTotal (codec : Codec) (baseFee : U256) (executed : List Item)
    (receipts : List ExtendedReceipt) : ℕ :=
  (List.zipWith (fun item rx => rx.gasUsed * tipOf codec baseFee item) executed receipts).sum

@[simp] theorem gasTotal_concat (receipts : List ExtendedReceipt) (rx : ExtendedReceipt) :
    gasTotal (receipts ++ [rx]) = gasTotal receipts + rx.gasUsed := by
  simp [gasTotal]

@[simp] theorem logTotal_concat (receipts : List ExtendedReceipt) (rx : ExtendedReceipt) :
    logTotal (receipts ++ [rx]) = logTotal receipts + (receiptLogs rx).length := by
  simp [logTotal]

@[simp] theorem bloomUnion_concat (receipts : List ExtendedReceipt) (rx : ExtendedReceipt) :
    bloomUnion (receipts ++ [rx]) = bloomUnion receipts ||| (opened rx.receipt).2 := by
  simp [bloomUnion]

theorem tipTotal_concat (codec : Codec) (baseFee : U256) {executed : List Item}
    {receipts : List ExtendedReceipt} (hlength : executed.length = receipts.length) (item : Item)
    (rx : ExtendedReceipt) :
    tipTotal codec baseFee (executed ++ [item]) (receipts ++ [rx]) =
      tipTotal codec baseFee executed receipts + rx.gasUsed * tipOf codec baseFee item := by
  rw [tipTotal, List.zipWith_append hlength, List.sum_append]
  simp [tipTotal]

end Totals

section Fees

/-- The fee fields of an envelope are 128-bit numbers. -/
def FeesFit : OpTxEnvelope → Prop
  | .legacy signed => signed.tx.gasPrice < 2 ^ 128
  | .eip2930 signed => signed.tx.gasPrice < 2 ^ 128
  | .eip1559 signed => signed.tx.maxFeePerGas < 2 ^ 128 ∧ signed.tx.maxPriorityFeePerGas < 2 ^ 128
  | .eip7702 signed => signed.tx.maxFeePerGas < 2 ^ 128 ∧ signed.tx.maxPriorityFeePerGas < 2 ^ 128
  | .deposit _ => True

theorem tipPerGas_le (tx : NormalizedEthTransaction) (baseFee : U256) :
    (tx.tipPerGas baseFee).toNat ≤ tx.maxPriorityFeePerGas.toNat := by
  rw [NormalizedEthTransaction.tipPerGas, U256.toNat_min]
  exact Nat.min_le_left _ _

theorem tip_lt {codec : Codec} {tx : OpTxEnvelope} {normalized : NormalizedExtendedTxEnvelope}
    (hfits : FeesFit tx) (h : NormalizedExtendedTxEnvelope.ofEnvelope codec tx = some normalized)
    (baseFee : U256) : (normalized.tipPerGas baseFee).toNat < 2 ^ 128 := by
  have hword : ∀ {n : ℕ}, n < 2 ^ 128 → (BitVec.ofNat 256 n).toNat < 2 ^ 128 := fun hn =>
    (Nat.mod_le _ _).trans_lt hn
  cases tx with
  | legacy signed =>
    obtain ⟨signer, -, hnormal⟩ := Option.bind_eq_some_iff.mp h
    obtain rfl := Option.some.inj hnormal
    exact (tipPerGas_le _ baseFee).trans_lt (hword hfits)
  | eip2930 signed =>
    obtain ⟨signer, -, hnormal⟩ := Option.bind_eq_some_iff.mp h
    obtain rfl := Option.some.inj hnormal
    exact (tipPerGas_le _ baseFee).trans_lt (hword hfits)
  | eip1559 signed =>
    obtain ⟨signer, -, hnormal⟩ := Option.bind_eq_some_iff.mp h
    obtain rfl := Option.some.inj hnormal
    exact (tipPerGas_le _ baseFee).trans_lt (hword hfits.2)
  | eip7702 signed => simp [NormalizedExtendedTxEnvelope.ofEnvelope] at h
  | deposit deposit =>
    obtain rfl := Option.some.inj h
    exact Nat.two_pow_pos 128

end Fees

section Accounts

variable {σ χ : Type} (env : Env σ χ)

/-- The sums that a block reports are those of its receipts. -/
structure Accounts (baseFee : U256) (executed : List Item) (receipts : List ExtendedReceipt)
    (gasUsed : ℕ) (logsBloom : Bloom) (totalTip : U256) : Prop where
  hashes : receipts.map (fun rx => rx.transactionHash) = executed.map fun item => item.txHash
  running : ∀ (i : ℕ) (rx : ExtendedReceipt), receipts[i]? = some rx →
    (opened rx.receipt).1.cumulativeGasUsed = gasTotal (receipts.take (i + 1))
  gasUsed : gasUsed = gasTotal receipts
  indices : receipts.flatMap logIndices = (List.range (logTotal receipts)).map some
  blooms : ∀ rx ∈ receipts, (opened rx.receipt).2 = logsBloomOf env (receiptLogs rx)
  logsBloom : logsBloom = bloomUnion receipts
  totalTip : totalTip.toNat = tipTotal env.codec baseFee executed receipts

/-- The variables of the loop after some passes. -/
def Accounted (baseFee : U256) (progress : Progress σ) : Prop :=
  Accounts env baseFee progress.executed progress.receipts progress.cumulativeGasUsed
      progress.logsBloom progress.totalTip ∧
    progress.logOffset = logTotal progress.receipts

variable {env}

theorem Accounts.length {baseFee totalTip : U256} {executed : List Item}
    {receipts : List ExtendedReceipt} {gasUsed : ℕ} {logsBloom : Bloom}
    (h : Accounts env baseFee executed receipts gasUsed logsBloom totalTip) :
    executed.length = receipts.length := by
  have hlength := congrArg List.length h.hashes
  simpa using hlength.symm

theorem tipTotal_le {baseFee : U256} {executed : List Item} {receipts : List ExtendedReceipt}
    (htips : ∀ item ∈ executed, tipOf env.codec baseFee item < 2 ^ 128) :
    tipTotal env.codec baseFee executed receipts ≤ gasTotal receipts * 2 ^ 128 := by
  induction executed generalizing receipts with
  | nil => simp [tipTotal]
  | cons item executed ih =>
    cases receipts with
    | nil => simp [tipTotal]
    | cons rx receipts =>
      have hrest : tipTotal env.codec baseFee executed receipts ≤ gasTotal receipts * 2 ^ 128 :=
        ih fun other hother => htips other (List.mem_cons_of_mem item hother)
      have hone : rx.gasUsed * tipOf env.codec baseFee item ≤ rx.gasUsed * 2 ^ 128 :=
        Nat.mul_le_mul_left _ (htips item List.mem_cons_self).le
      calc tipTotal env.codec baseFee (item :: executed) (rx :: receipts)
          = rx.gasUsed * tipOf env.codec baseFee item +
              tipTotal env.codec baseFee executed receipts := by simp [tipTotal]
        _ ≤ rx.gasUsed * 2 ^ 128 + gasTotal receipts * 2 ^ 128 := Nat.add_le_add hone hrest
        _ = gasTotal (rx :: receipts) * 2 ^ 128 := by simp [gasTotal, Nat.add_mul]

theorem opened_wrapReceipt {tx : OpTxEnvelope} {receipt : Receipt} {bloom : Bloom}
    {envelope : OpReceiptEnvelope} (h : wrapReceipt tx receipt bloom = some envelope) :
    opened envelope = (receipt, bloom) := by
  cases tx with
  | eip7702 signed => simp [wrapReceipt] at h
  | legacy signed => obtain rfl := Option.some.inj h; rfl
  | eip2930 signed => obtain rfl := Option.some.inj h; rfl
  | eip1559 signed => obtain rfl := Option.some.inj h; rfl
  | deposit deposit => obtain rfl := Option.some.inj h; rfl

/-- What one recorded execution adds to the variables of the loop. -/
structure Records (env : Env σ χ) (batch : Batch) (progress next : Progress σ) (item : Item)
    (normalized : NormalizedExtendedTxEnvelope) (rx : ExtendedReceipt) : Prop where
  executed : next.executed = progress.executed ++ [item]
  receipts : next.receipts = progress.receipts ++ [rx]
  hash : rx.transactionHash = item.txHash
  offset : rx.logsOffset = progress.logOffset
  cumulative : next.cumulativeGasUsed = min (progress.cumulativeGasUsed + rx.gasUsed) maxU128
  reported : (opened rx.receipt).1.cumulativeGasUsed =
    if next.cumulativeGasUsed < maxU64 then next.cumulativeGasUsed else maxU64
  bloom : (opened rx.receipt).2 = logsBloomOf env (receiptLogs rx)
  logsBloom : next.logsBloom = progress.logsBloom ||| (opened rx.receipt).2
  logOffset : next.logOffset = progress.logOffset + (receiptLogs rx).length
  totalTip : next.totalTip = U256.saturatingAdd progress.totalTip
    (U256.saturatingMul (BitVec.ofNat 256 rx.gasUsed) (normalized.tipPerGas batch.baseFee))

theorem records_of_record {batch : Batch} {progress next : Progress σ} {item : Item}
    {normalized : NormalizedExtendedTxEnvelope} {outcome : Outcome χ}
    (h : record env batch progress item normalized outcome = some next) :
    ∃ rx, Records env batch progress next item normalized rx := by
  simp only [record, Option.bind_eq_bind, Option.bind_eq_some_iff, Option.some.injEq] at h
  obtain ⟨state, -, envelope, hwrap, rfl⟩ := h
  have hopen := opened_wrapReceipt hwrap
  refine ⟨_, rfl, rfl, rfl, rfl, rfl, ?_, ?_, ?_, ?_, rfl⟩
  · rw [hopen]
  · rw [receiptLogs, hopen]
  · rw [hopen]
  · rw [receiptLogs, hopen]

theorem executeOne_records {blocks : List ExtendedBlock} {batch : Batch}
    {progress next : Progress σ} {item : Item}
    (h : executeOne env blocks batch progress item = some next) :
    next = progress ∨ ∃ normalized rx,
      NormalizedExtendedTxEnvelope.ofEnvelope env.codec item.tx = some normalized ∧
        Records env batch progress next item normalized rx := by
  unfold executeOne at h
  split at h
  · exact Or.inl (Option.some.inj h).symm
  · rename_i normalized hnormal
    split at h
    · obtain ⟨rx, hrx⟩ := records_of_record h
      exact Or.inr ⟨normalized, rx, hnormal, hrx⟩
    · exact Or.inl (Option.some.inj h).symm
    · cases h

section Step

variable {batch : Batch} {progress next : Progress σ} {item : Item}
variable {normalized : NormalizedExtendedTxEnvelope} {rx : ExtendedReceipt}

theorem Records.gasTotal_eq (h : Records env batch progress next item normalized rx) :
    gasTotal next.receipts = gasTotal progress.receipts + rx.gasUsed := by
  rw [h.receipts, gasTotal_concat]

theorem Records.running (h : Records env batch progress next item normalized rx)
    (hgas : next.cumulativeGasUsed = gasTotal next.receipts)
    (hsum : gasTotal next.receipts < maxU64)
    (hold : ∀ (i : ℕ) (old : ExtendedReceipt), progress.receipts[i]? = some old →
      (opened old.receipt).1.cumulativeGasUsed = gasTotal (progress.receipts.take (i + 1)))
    (i : ℕ) (some_rx : ExtendedReceipt) (hi : next.receipts[i]? = some some_rx) :
    (opened some_rx.receipt).1.cumulativeGasUsed = gasTotal (next.receipts.take (i + 1)) := by
  have hnext := h.receipts
  rw [hnext] at hi
  rcases getElem?_concat_cases hi with hfound | ⟨rfl, rfl⟩
  · have hlt := (List.getElem?_eq_some_iff.mp hfound).1
    rw [hold i some_rx hfound, hnext, List.take_append_of_le_length (by omega)]
  · have hall : next.receipts.take (progress.receipts.length + 1) = next.receipts := by
      apply List.take_of_length_le
      simp [hnext]
    rw [hall, h.reported, hgas, if_pos hsum]

theorem Records.indices (h : Records env batch progress next item normalized rx)
    (hoffset : progress.logOffset = logTotal progress.receipts)
    (hold : progress.receipts.flatMap logIndices =
      (List.range (logTotal progress.receipts)).map some) :
    next.receipts.flatMap logIndices = (List.range (logTotal next.receipts)).map some := by
  rw [h.receipts, List.flatMap_append, hold, logTotal_concat, List.range_add, List.map_append,
    List.flatMap_singleton, logIndices_eq, h.offset, hoffset, List.map_map]
  rfl

/-- Below 2^192 no operation on the tip saturates. -/
theorem Records.totalTip_eq (h : Records env batch progress next item normalized rx)
    (hnormal : NormalizedExtendedTxEnvelope.ofEnvelope env.codec item.tx = some normalized)
    (hlength : progress.executed.length = progress.receipts.length)
    (hsum : gasTotal next.receipts < maxU64)
    (htips : ∀ done ∈ next.executed, tipOf env.codec batch.baseFee done < 2 ^ 128)
    (hold : progress.totalTip.toNat =
      tipTotal env.codec batch.baseFee progress.executed progress.receipts) :
    next.totalTip.toNat = tipTotal env.codec batch.baseFee next.executed next.receipts := by
  have htip : tipOf env.codec batch.baseFee item = (normalized.tipPerGas batch.baseFee).toNat := by
    rw [tipOf, hnormal]
    rfl
  have hsplit : tipTotal env.codec batch.baseFee next.executed next.receipts =
      progress.totalTip.toNat + rx.gasUsed * (normalized.tipPerGas batch.baseFee).toNat := by
    rw [h.executed, h.receipts, tipTotal_concat _ _ hlength, hold, htip]
  have hle : tipTotal env.codec batch.baseFee next.executed next.receipts ≤
      gasTotal next.receipts * 2 ^ 128 := tipTotal_le htips
  have hgas : rx.gasUsed ≤ gasTotal next.receipts := by
    rw [h.gasTotal_eq]
    omega
  unfold maxU64 at hsum
  have hbound : gasTotal next.receipts * 2 ^ 128 < 2 ^ 192 := by omega
  have hword : (BitVec.ofNat 256 rx.gasUsed).toNat = rx.gasUsed := by
    rw [BitVec.toNat_ofNat]
    omega
  have hmul : (U256.saturatingMul (BitVec.ofNat 256 rx.gasUsed)
      (normalized.tipPerGas batch.baseFee)).toNat =
      rx.gasUsed * (normalized.tipPerGas batch.baseFee).toNat := by
    rw [U256.toNat_saturatingMul, hword]
    exact Nat.min_eq_left (by omega)
  rw [h.totalTip, U256.toNat_saturatingAdd, hmul, hsplit]
  exact Nat.min_eq_left (by omega)

theorem Records.accounted (h : Records env batch progress next item normalized rx)
    (hnormal : NormalizedExtendedTxEnvelope.ofEnvelope env.codec item.tx = some normalized)
    (hsum : gasTotal next.receipts < maxU64)
    (htips : ∀ done ∈ next.executed, tipOf env.codec batch.baseFee done < 2 ^ 128)
    (hold : Accounted env batch.baseFee progress) : Accounted env batch.baseFee next := by
  obtain ⟨haccounts, hoffset⟩ := hold
  have hgas : next.cumulativeGasUsed = gasTotal next.receipts := by
    have hfits : gasTotal next.receipts ≤ maxU128 := by
      unfold maxU64 at hsum
      unfold maxU128
      omega
    rw [h.gasTotal_eq] at hfits ⊢
    rw [h.cumulative, haccounts.gasUsed]
    exact Nat.min_eq_left hfits
  refine ⟨⟨?_, h.running hgas hsum haccounts.running, hgas, h.indices hoffset haccounts.indices, ?_,
    ?_, h.totalTip_eq hnormal haccounts.length hsum htips haccounts.totalTip⟩, ?_⟩
  · rw [h.receipts, h.executed, List.map_append, List.map_append, haccounts.hashes,
      List.map_singleton, List.map_singleton, h.hash]
  · intro done hdone
    rw [h.receipts, List.mem_append, List.mem_singleton] at hdone
    rcases hdone with hdone | rfl
    · exact haccounts.blooms done hdone
    · exact h.bloom
  · rw [h.logsBloom, haccounts.logsBloom, h.receipts, bloomUnion_concat]
  · rw [h.logOffset, hoffset, h.receipts, logTotal_concat]

end Step

theorem tipOf_lt {codec : Codec} {item : Item} (hfits : FeesFit item.tx) (baseFee : U256) :
    tipOf codec baseFee item < 2 ^ 128 := by
  unfold tipOf
  cases hnormal : NormalizedExtendedTxEnvelope.ofEnvelope codec item.tx with
  | none => exact Nat.two_pow_pos 128
  | some normalized => exact tip_lt hfits hnormal baseFee

theorem accounted_start (baseFee : U256) (state : σ) :
    Accounted env baseFee (Progress.start state) := by
  refine ⟨⟨rfl, ?_, rfl, rfl, ?_, rfl, rfl⟩, rfl⟩
  · intro i rx hi
    simp [Progress.start] at hi
  · intro rx hrx
    simp [Progress.start] at hrx

/-- The variables of the loop account for its receipts after a whole batch. -/
theorem runBatch_accounted {blocks : List ExtendedBlock} {batch : Batch} {items : List Item}
    {state : σ} {final : Progress σ} (hfits : ∀ item ∈ items, FeesFit item.tx)
    (h : runBatch env blocks batch items (.start state) = some final)
    (hsum : gasTotal final.receipts < maxU64) : Accounted env batch.baseFee final := by
  have hinv : (∀ done ∈ final.executed, done ∈ items) ∧
      (gasTotal final.receipts < maxU64 → Accounted env batch.baseFee final) := by
    refine runBatch_keeps env blocks batch (P := fun progress =>
      (∀ done ∈ progress.executed, done ∈ items) ∧
        (gasTotal progress.receipts < maxU64 → Accounted env batch.baseFee progress)) ?_ h
      ⟨by simp [Progress.start], fun _ => accounted_start _ _⟩
    rintro item hitem progress next ⟨hsub, hold⟩ hone
    rcases executeOne_records hone with rfl | ⟨normalized, rx, hnormal, hrecords⟩
    · exact ⟨hsub, hold⟩
    · have hsub' : ∀ done ∈ next.executed, done ∈ items := by
        intro done hdone
        rw [hrecords.executed, List.mem_append, List.mem_singleton] at hdone
        rcases hdone with hdone | rfl
        · exact hsub done hdone
        · exact hitem
      refine ⟨hsub', fun hlt => ?_⟩
      have hbefore : gasTotal progress.receipts < maxU64 := by
        rw [hrecords.gasTotal_eq] at hlt
        omega
      exact hrecords.accounted hnormal hlt
        (fun done hdone => tipOf_lt (hfits done (hsub' done hdone)) _) (hold hbefore)
  exact hinv.2 hsum

/-- The items that were passed over can be left out of the batch. -/
theorem runBatch_executed {blocks : List ExtendedBlock} {batch : Batch} {items : List Item}
    {progress final : Progress σ} (h : runBatch env blocks batch items progress = some final) :
    ∃ done, final.executed = progress.executed ++ done ∧ done.Sublist items ∧
      runBatch env blocks batch done progress = some final := by
  induction items generalizing progress with
  | nil =>
    obtain rfl : progress = final := by simpa [runBatch] using h
    exact ⟨[], by simp, List.Sublist.slnil, h⟩
  | cons item rest ih =>
    simp only [runBatch, List.foldlM_cons, Option.bind_eq_bind, Option.bind_eq_some_iff] at h
    obtain ⟨next, hone, hrest⟩ := h
    obtain ⟨done, hdone, hsub, hrun⟩ := ih hrest
    rcases executeOne_records hone with rfl | ⟨normalized, rx, -, hrecords⟩
    · exact ⟨done, hdone, hsub.cons item, hrun⟩
    · refine ⟨item :: done, ?_, hsub.cons_cons item, ?_⟩
      · rw [hdone, hrecords.executed, List.append_assoc, List.singleton_append]
      · simp only [runBatch, List.foldlM_cons, hone]
        exact hrun

end Accounts

section Blocks

variable {σ χ : Type} {env : Env σ χ}

theorem logIndices_withBlockHash (rx : ExtendedReceipt) (hash : B256) :
    logIndices { rx with blockHash := hash } = logIndices rx := by
  rw [logIndices_eq, logIndices_eq]
  rfl

/-- Storing the hash of the block in its receipts changes none of the sums. -/
theorem Accounts.withBlockHash {baseFee totalTip : U256} {executed : List Item}
    {receipts : List ExtendedReceipt} {gasUsed : ℕ} {logsBloom : Bloom}
    (h : Accounts env baseFee executed receipts gasUsed logsBloom totalTip) (hash : B256) :
    Accounts env baseFee executed (receipts.map fun rx => { rx with blockHash := hash }) gasUsed
      logsBloom totalTip := by
  have hgas : ∀ rxs : List ExtendedReceipt,
      gasTotal (rxs.map fun rx => { rx with blockHash := hash }) = gasTotal rxs := fun rxs => by
    simp [gasTotal, Function.comp_def]
  have hlogs : logTotal (receipts.map fun rx => { rx with blockHash := hash }) =
      logTotal receipts := by
    simp [logTotal, Function.comp_def, receiptLogs]
  refine ⟨?_, ?_, ?_, ?_, ?_, ?_, ?_⟩
  · rw [List.map_map]
    exact h.hashes
  · intro i rx hi
    rw [List.getElem?_map, Option.map_eq_some_iff] at hi
    obtain ⟨old, hold, rfl⟩ := hi
    rw [← List.map_take, hgas]
    exact h.running i old hold
  · rw [hgas]
    exact h.gasUsed
  · rw [List.flatMap_map, hlogs]
    simp only [logIndices_withBlockHash]
    exact h.indices
  · intro rx hrx
    obtain ⟨old, hold, rfl⟩ := List.mem_map.mp hrx
    exact h.blooms old hold
  · rw [bloomUnion, List.foldl_map]
    exact h.logsBloom
  · rw [tipTotal, List.zipWith_map_right]
    exact h.totalTip

end Blocks

end OpMove.ReceiptAccounts
