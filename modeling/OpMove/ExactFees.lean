import OpMove.EthSupply
import OpMove.FailedTransactions

/-!
The fee of a canonical transaction to the wei. The prices a block builder computes and
64-bit gas limits stay far below a word, so no product saturates, and the gas meter never
reports more than its limit, so no difference does. What the charge and the refund leave is
the fee for layer one and for the used gas, on top of what the payload itself has moved.
-/

namespace OpMove.ExactFees

open Primitives GasFees Transactions Errors NativeEvm FailingActions Sessions EthToken Payments
open Canonical SessionProgress FeeSettlement CanonicalRuns EthSupply

section Arithmetic

/-- The transaction is executed at its effective price, as a block builder does it. -/
structure Priced (input : CanonicalExecutionInput) (baseFee : U256) : Prop where
  multiplier : input.l2Fee = .withDefaultGasFeeMultiplier
  l2Input : input.l2Input = ⟨input.tx.gasLimit, input.tx.effectiveGasPrice baseFee⟩
  maxFeePerGas : input.tx.maxFeePerGas.toNat < 2 ^ 128
  maxPriorityFeePerGas : input.tx.maxPriorityFeePerGas.toNat < 2 ^ 128
  baseFee : baseFee.toNat < 2 ^ 128

def priceOf (input : CanonicalExecutionInput) : ℕ := input.l2Input.effectiveGasPrice.toNat

def gasLimitOf (input : CanonicalExecutionInput) : ℕ := input.l2Input.gasLimit

/-- No operation on the way wraps or saturates. -/
structure ExactCosts (input : CanonicalExecutionInput) (baseFee : U256) : Prop where
  price : priceOf input = (input.tx.tipPerGas baseFee).toNat + baseFee.toNat
  fits : gasLimitOf input * priceOf input < 2 ^ 256 - 1
  charged : input.l2Cost.toNat = gasLimitOf input * priceOf input
  used : ∀ gasUsed ≤ gasLimitOf input,
    (input.usedL2Cost gasUsed).toNat = gasUsed * priceOf input ∧
      (input.usedL2Cost gasUsed).toNat ≤ input.l2Cost.toNat ∧
      (refundAmount input gasUsed).toNat = (gasLimitOf input - gasUsed) * priceOf input

theorem tipPerGas_le (tx : NormalizedEthTransaction) (baseFee : U256) :
    (tx.tipPerGas baseFee).toNat ≤ tx.maxPriorityFeePerGas.toNat := by
  rw [NormalizedEthTransaction.tipPerGas, U256.toNat_min]
  exact Nat.min_le_left _ _

theorem toNat_effectiveGasPrice (tx : NormalizedEthTransaction) {baseFee : U256}
    (hpriority : tx.maxPriorityFeePerGas.toNat < 2 ^ 128) (hbase : baseFee.toNat < 2 ^ 128) :
    (tx.effectiveGasPrice baseFee).toNat = (tx.tipPerGas baseFee).toNat + baseFee.toNat := by
  have htip := tipPerGas_le tx baseFee
  rw [NormalizedEthTransaction.effectiveGasPrice, BitVec.toNat_add, Nat.mod_eq_of_lt]
  omega

/-- Exact fees at a price and a limit whose product fits a word. -/
theorem toNat_l2Fee_default {gas : ℕ} {price : U256} (hgas : gas ≤ maxU64)
    (hfits : gas * price.toNat < 2 ^ 256 - 1) :
    (MovedGasFee.withDefaultGasFeeMultiplier.l2Fee ⟨gas, price⟩).toNat = gas * price.toNat := by
  have hone : MovedGasFee.withDefaultGasFeeMultiplier.gasFeeMultiplier.toNat = 1 := rfl
  rw [MovedGasFee.toNat_l2Fee _ hgas, hone, Nat.mul_one]
  dsimp only
  rw [Nat.mul_comm price.toNat, min_eq_left hfits.le, min_eq_left hfits.le]

theorem exactCosts_of_priced {input : CanonicalExecutionInput} {baseFee : U256}
    (h : Priced input baseFee) : ExactCosts input baseFee := by
  have hprice : priceOf input = (input.tx.tipPerGas baseFee).toNat + baseFee.toNat := by
    rw [priceOf, h.l2Input]
    exact toNat_effectiveGasPrice input.tx h.maxPriorityFeePerGas h.baseFee
  have htip : (input.tx.tipPerGas baseFee).toNat < 2 ^ 128 :=
    lt_of_le_of_lt (tipPerGas_le _ _) h.maxPriorityFeePerGas
  have hbase := h.baseFee
  have hlimit := input.gasLimitFits
  have hfits : gasLimitOf input * priceOf input < 2 ^ 256 - 1 := by
    have hbound : gasLimitOf input * priceOf input ≤ 2 ^ 64 * 2 ^ 129 := by
      apply Nat.mul_le_mul
      · unfold maxU64 at hlimit
        unfold gasLimitOf
        omega
      · omega
    omega
  have hused : ∀ gasUsed ≤ gasLimitOf input,
      (input.usedL2Cost gasUsed).toNat = gasUsed * priceOf input := by
    intro gasUsed hle
    rw [CanonicalExecutionInput.usedL2Cost, h.multiplier]
    exact toNat_l2Fee_default (hle.trans hlimit)
      (lt_of_le_of_lt (Nat.mul_le_mul_right _ hle) hfits)
  have hcharged : input.l2Cost.toNat = gasLimitOf input * priceOf input := hused _ le_rfl
  refine ⟨hprice, hfits, hcharged, fun gasUsed hle => ⟨hused gasUsed hle, ?_, ?_⟩⟩
  · rw [hused gasUsed hle, hcharged]
    exact Nat.mul_le_mul_right _ hle
  · rw [toNat_refundAmount, hused gasUsed hle, hcharged, Nat.sub_mul]

end Arithmetic

section Refund

variable {γ : Type}

theorem balances_of_isSome {state : MoveState} {a : AccountAddress}
    (h : (state.ethStores a).isSome) :
    ∃ store, state.ethStores a = some store ∧ store.balance = balances state a := by
  obtain ⟨store, hstore⟩ := Option.isSome_iff_exists.mp h
  exact ⟨store, hstore, by simp [balances, hstore]⟩

theorem ensurePrimaryStoreExists_unmetered (owner : AccountAddress) (s : Session γ) :
    ensurePrimaryStoreExists unmeteredGasMeter owner s =
      (.ok (), { s with move := ensured owner s.move }) := by
  unfold ensurePrimaryStoreExists ensured
  rw [bind_read]
  split_ifs <;> rfl

theorem withdrawInternal_unmetered {owner : AccountAddress} {amount : ℕ} {s : Session γ}
    (hsome : (s.move.ethStores owner).isSome) (henough : amount ≤ balances s.move owner) :
    ∃ s', withdrawInternal unmeteredGasMeter owner amount s = (.ok (), s') := by
  obtain ⟨store, hstore, hbalance⟩ := balances_of_isSome hsome
  unfold withdrawInternal
  rw [bind_of_ok (borrowStore_ok_iff.mpr ⟨hstore, rfl⟩)]
  split_ifs with hzero hpoor
  · exact ⟨s, rfl⟩
  · omega
  · exact ⟨_, rfl⟩

theorem depositInternal_unmetered {owner : AccountAddress} {amount : ℕ} {s : Session γ}
    (hsome : (s.move.ethStores owner).isSome)
    (hfits : balances s.move owner + amount < u256Size) :
    ∃ s', depositInternal unmeteredGasMeter owner amount s = (.ok (), s') := by
  obtain ⟨store, hstore, hbalance⟩ := balances_of_isSome hsome
  unfold depositInternal
  split_ifs with hzero
  · exact ⟨s, rfl⟩
  · rw [bind_of_ok (borrowStore_ok_iff.mpr ⟨hstore, rfl⟩)]
    split_ifs with hoverflow
    · omega
    · exact ⟨_, rfl⟩

/-- A transfer of the node fails only for want of ETH while the balances fit a word. -/
theorem transferEth_succeeds {s : Session γ} {source target : AccountAddress} {amount : U256}
    (hafford : Affords s.move source amount) (hfits : total s.move < u256Size) :
    ∃ s', transferEth unmeteredGasMeter source target amount s = (.ok (), s') := by
  unfold transferEth
  split_ifs with hzero
  · exact ⟨s, rfl⟩
  obtain ⟨hsource, henough⟩ := hafford hzero
  let first : Session γ := { s with move := ensured target s.move }
  have hsome : (first.move.ethStores source).isSome := isSome_ensured_of_isSome target hsource
  have hbalance : amount.toNat ≤ balances first.move source := by
    show _ ≤ balances (ensured target s.move) source
    rw [balances_ensured]
    exact henough
  obtain ⟨second, hwithdraw⟩ := withdrawInternal_unmetered hsome hbalance
  have htaken : total second.move + amount.toNat = total (ensured target s.move) :=
    total_withdrawInternal hwithdraw
  rw [total_ensured] at htaken
  have htarget : (second.move.ethStores target).isSome := by
    rw [(ran_of_withdrawInternal (toNat_ne_zero hzero) hwithdraw).2.move, isSome_withBalance]
    exact isSome_ensured target s.move
  have hle := balances_le_total second.move target
  have hroom : balances second.move target + amount.toNat < u256Size := by omega
  obtain ⟨third, hdeposit⟩ := depositInternal_unmetered htarget hroom
  refine ⟨third, ?_⟩
  unfold transfer
  rw [bind_of_ok (primaryStore_ok_iff.mpr ⟨hsource, rfl⟩),
    bind_of_ok (ensurePrimaryStoreExists_unmetered target s), bind_of_ok hwithdraw]
  exact hdeposit

end Refund

section Exactness

variable {γ X τ : Type} {env : CanonicalEnv γ X τ} {input : CanonicalExecutionInput}
variable {baseFee : U256}

/-- What is exact about the fee of an accepted transaction, between the sessions after
verification and after the payload. -/
structure ChargedExactly (env : CanonicalEnv γ X τ) (input : CanonicalExecutionInput)
    (verified run : Session γ) (outcome : TransactionExecutionOutcome) : Prop where
  gasUsed : outcome.gasUsed = env.totalGasUsed run.gas
  gasUsed_le : outcome.gasUsed ≤ gasLimitOf input
  balances : ∀ a, (balances outcome.move a : ℤ) =
    balances input.state.move a + (balances run.move a - balances verified.move a) +
      Payment.delta ⟨input.sender, input.ethTreasury,
        input.l1Cost.toNat + outcome.gasUsed * priceOf input⟩ a
  charge_total : total verified.move = total input.state.move
  refund_total : total outcome.move = total run.move

theorem payEth_moves {source : AccountAddress} (target : AccountAddress) {amount : U256}
    {state : MoveState} (h : Affords state source amount) :
    Moves (Sessions.balances state) (Sessions.balances (payEth source target amount state))
      (Payment.delta ⟨source, target, amount.toNat⟩) := by
  unfold payEth
  split_ifs with hzero
  · intro a
    rw [delta_eq, hzero]
    simp
  · exact paid_moves (h hzero).1 (h hzero).2

/-- The gas limit is paid for in advance. -/
theorem moves_verified {verified : Session γ}
    (h : verifyTransaction env input (startCanonical env input) = (.ok (), verified)) :
    Moves (balances input.state.move) (balances verified.move)
      (Payment.delta ⟨input.sender, input.ethTreasury,
        input.l1Cost.toNat + input.l2Cost.toNat⟩) := by
  obtain ⟨hl1, hl2, hran⟩ := ran_of_verifyTransaction h
  have hboth := (payEth_moves input.ethTreasury hl1).trans (payEth_moves input.ethTreasury hl2)
  simp only [delta_add] at hboth
  rw [hran.move]
  exact hboth

theorem chargedExactly_of_ok {outcome : TransactionExecutionOutcome} (hlawful : Lawful env)
    (hcosts : ExactCosts input baseFee)
    (h : executeCanonicalTransaction env input = .ok outcome) :
    ∃ data verified, parseFrom env.codec input.tx = .ok data ∧
      verifyTransaction env input (startCanonical env input) = (.ok (), verified) ∧
      ChargedExactly env input verified (payloadRun env input data verified).2 outcome := by
  obtain ⟨data, verified, afterPayload, run, settled, payload, vmOutcome, haccepted⟩ :=
    acceptedRun_of_ok h
  obtain ⟨-, hmove, hgasUsed, -⟩ := finishCanonical_ok haccepted.finishes
  have hgas := haccepted.gasUsed_le hlawful
  have hverified := moves_verified haccepted.verifies
  obtain ⟨hafford, hran⟩ := haccepted.ran_refund
  have hrefunded := payEth_moves input.sender hafford
  obtain ⟨hused, hle, -⟩ := hcosts.used _ hgas
  have hamount : (refundAmount input (env.totalGasUsed run.gas)).toNat = _ :=
    toNat_refundAmount (env.totalGasUsed run.gas)
  have hpart : (refundAmount input (env.totalGasUsed run.gas)).toNat ≤
      input.l1Cost.toNat + input.l2Cost.toNat := by omega
  have hdifference : input.l1Cost.toNat + input.l2Cost.toNat -
      (refundAmount input (env.totalGasUsed run.gas)).toNat =
        input.l1Cost.toNat + outcome.gasUsed * priceOf input := by
    rw [hgasUsed, ← hused]
    omega
  refine ⟨data, verified, haccepted.parsed, haccepted.verifies, ?_⟩
  rw [haccepted.runs]
  refine ⟨hgasUsed, hgasUsed ▸ hgas, fun a => ?_, total_verified haccepted.verifies, ?_⟩
  · have hfinal : balances outcome.move a = balances settled.move a := by
      rw [hmove]
      rfl
    have hnet := delta_back input.sender input.ethTreasury hpart a
    have hcharged := hverified a
    have hback := hrefunded a
    rw [← hran.move] at hback
    rw [hfinal, hback, ← hdifference]
    linarith
  · have hfinal : total outcome.move = total settled.move := by
      rw [hmove]
      rfl
    rw [hfinal, hran.move, total_payEth hafford]

/-- The treasury can refund what it has received unless the payload has taken it away. -/
theorem refund_succeeds {data : TransactionData} {verified : Session γ} (hlawful : Lawful env)
    (hvm : MintsNothing env) (hbacked : Backed input.state.move)
    (hverifies : verifyTransaction env input (startCanonical env input) = (.ok (), verified))
    (hkept : balances verified.move input.ethTreasury ≤
      balances (payloadRun env input data verified).2.move input.ethTreasury) (gasUsed : ℕ) :
    ∃ settled, refundGasCost input (refundAmount input gasUsed)
      (payloadRun env input data verified).2 = (.ok (), settled) := by
  have hadvances : Advances env.meter verified (payloadRun env input data verified).2 :=
    keeps_payloadRun (stepsKeep_advances hlawful) data verified
  have hrun : Backed (payloadRun env input data verified).2.move :=
    keeps_payloadRun (stepsKeep_backed hvm) data verified (backed_verified hverifies hbacked)
  have hfits : total (payloadRun env input data verified).2.move < u256Size :=
    lt_of_le_of_lt hrun.total hrun.fits
  refine transferEth_succeeds (fun hne => ?_) hfits
  obtain ⟨-, htreasury, hreceived⟩ := affords_refund hverifies gasUsed hne
  exact ⟨hadvances.stores _ htreasury, hreceived.trans hkept⟩

/-- Once the refund is made, the outcome is that of the finished session. -/
theorem executeCanonicalTransaction_of_refund {data : TransactionData}
    {verified settled : Session γ} (hparsed : parseFrom env.codec input.tx = .ok data)
    (hverifies : verifyTransaction env input (startCanonical env input) = (.ok (), verified))
    (hrefund : refundGasCost input (refundAmount input
        (env.totalGasUsed (payloadRun env input data verified).2.gas))
      (payloadRun env input data verified).2 = (.ok (), settled)) :
    executeCanonicalTransaction env input =
      finishCanonical env input (executePayload env input data verified).1
        (env.totalGasUsed (payloadRun env input data verified).2.gas) settled
        (payloadRun env input data verified).1 := by
  have hrun : payloadRun env input data verified =
      replicateAfter env (executePayload env input data verified).1
        (executePayload env input data verified).2 := payloadRun_eq rfl
  have hsettle : executeCanonicalTransaction env input = settleCanonical env input data verified := by
    unfold executeCanonicalTransaction
    rw [hparsed, hverifies]
    rfl
  rw [hsettle, settleCanonical]
  dsimp only
  rw [← hrun, hrefund]

end Exactness

section Samples

open FailedTransactions LedgerMirror

theorem canonicalEnv_mintsNothing : MintsNothing canonicalEnv :=
  ⟨fun _ _ => Keeps.fail _, fun _ _ => Keeps.fail _⟩

theorem total_canonicalChain : total canonicalChain.move = 30000 := by
  have halice : balances canonicalChain.move (toMoveAddress alice) = 30000 := by decide +kernel
  rw [← halice, total]
  refine finsum_eq_single _ _ fun a ha => ?_
  show balances canonicalChain.move a = 0
  unfold balances canonicalChain
  dsimp only
  rw [if_neg ha]
  split_ifs <;> rfl

end Samples

end OpMove.ExactFees
