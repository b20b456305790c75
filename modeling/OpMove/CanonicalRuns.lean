import OpMove.FeeSettlement
import OpMove.SessionProgress

/-!
The sessions a canonical transaction goes through when it is accepted, and the gas and the
ETH that pass between them. This is what the results about failed transactions and about
fees have in common.
-/

namespace OpMove.CanonicalRuns

open Primitives GasFees Transactions Errors StateChanges NativeEvm FailingActions Sessions
open EthToken EvmModule Payments Canonical SessionProgress FeeSettlement

section Runs

variable {γ X τ : Type} (env : CanonicalEnv γ X τ) (input : CanonicalExecutionInput)

/-- The payload, and replication after it. -/
def payloadRun (data : TransactionData) : Act (Session γ) Error Unit :=
  executePayload env input data >>= fun _ => (replicateTransfers env.meter).mapError userError

/-- The sessions an accepted transaction goes through. -/
structure AcceptedRun (data : TransactionData) (verified afterPayload run settled : Session γ)
    (payload : Except Error Deployed) (vmOutcome : Except Error Unit)
    (outcome : TransactionExecutionOutcome) : Prop where
  parsed : parseFrom env.codec input.tx = .ok data
  verifies : verifyTransaction env input (startCanonical env input) = (.ok (), verified)
  pays : executePayload env input data verified = (payload, afterPayload)
  replicates : replicateAfter env payload afterPayload = (vmOutcome, run)
  refunds : refundGasCost input (refundAmount input (env.totalGasUsed run.gas)) run =
    (.ok (), settled)
  finishes : finishCanonical env input payload (env.totalGasUsed run.gas) settled vmOutcome =
    .ok outcome

variable {env input}

theorem acceptedRun_of_ok {outcome : TransactionExecutionOutcome}
    (h : executeCanonicalTransaction env input = .ok outcome) :
    ∃ data verified afterPayload run settled payload vmOutcome,
      AcceptedRun env input data verified afterPayload run settled payload vmOutcome outcome := by
  obtain ⟨data, hparsed, h⟩ := bind_ok_iff.mp h
  rcases hverify : verifyTransaction env input (startCanonical env input) with ⟨e | _, verified⟩
  · rw [hverify] at h
    cases h
  · rw [hverify] at h
    dsimp only at h
    unfold settleCanonical at h
    rcases hpayload : executePayload env input data verified with ⟨payload, afterPayload⟩
    rcases hreplicate : replicateAfter env payload afterPayload with ⟨vmOutcome, run⟩
    rw [hpayload] at h
    dsimp only at h
    rw [hreplicate] at h
    dsimp only at h
    rcases hrefund : refundGasCost input (refundAmount input (env.totalGasUsed run.gas)) run with
      ⟨e | _, settled⟩
    · rw [hrefund] at h
      cases h
    · rw [hrefund] at h
      exact ⟨data, verified, afterPayload, run, settled, payload, vmOutcome,
        ⟨hparsed, hverify, hpayload, hreplicate, hrefund, h⟩⟩

theorem payloadRun_eq {data : TransactionData} {verified afterPayload : Session γ}
    {payload : Except Error Deployed}
    (h : executePayload env input data verified = (payload, afterPayload)) :
    payloadRun env input data verified = replicateAfter env payload afterPayload := by
  cases payload with
  | error e =>
    rw [payloadRun, bind_of_error h]
    rfl
  | ok deployed =>
    rw [payloadRun, bind_of_ok h]
    rfl

theorem keeps_payloadRun {R : Session γ → Session γ → Prop} [IsPreorder (Session γ) R]
    (hsteps : StepsKeep env R) (data : TransactionData) : Keeps R (payloadRun env input data) :=
  Keeps.bind (hsteps.executePayload data) fun _ =>
    (keeps_replicateTransfers hsteps.logs hsteps.transfer).mapError _

/-- What is known of the outcome of an accepted transaction. -/
theorem finishCanonical_ok {payload : Except Error Deployed} {gasUsed : ℕ} {settled : Session γ}
    {vmOutcome : Except Error Unit} {outcome : TransactionExecutionOutcome}
    (h : finishCanonical env input payload gasUsed settled vmOutcome = .ok outcome) :
    evmChangesOf env.toNodeEnv settled = some outcome.evm ∧
      outcome.move = { settled.move with
        modules := (deployChanges payload).apply settled.move.modules } ∧
      outcome.gasUsed = gasUsed ∧ outcome.logs = logsOf env.toNodeEnv settled.events ∧
      outcome.l2Price = input.l2Input.effectiveGasPrice ∧
      vmOutcome = outcome.vmOutcome.mapError Error.user := by
  unfold finishCanonical at h
  split at h
  · cases h
  · rename_i changes hchanges
    rcases vmOutcome with e | _
    · cases e with
      | user e =>
        obtain rfl := Except.ok.inj h
        exact ⟨hchanges, rfl, rfl, rfl, rfl, rfl⟩
      | invalidTransaction cause => cases h
      | invariantViolation violation => cases h
      | panicked => cases h
    · obtain rfl := Except.ok.inj h
      exact ⟨hchanges, rfl, rfl, rfl, rfl, rfl⟩

end Runs

section Settlement

variable {γ X τ : Type} {env : CanonicalEnv γ X τ} {input : CanonicalExecutionInput}
variable {data : TransactionData} {verified afterPayload run settled : Session γ}
variable {payload : Except Error Deployed} {vmOutcome : Except Error Unit}
variable {outcome : TransactionExecutionOutcome}

theorem toNat_refundAmount (gasUsed : ℕ) : (refundAmount input gasUsed).toNat =
    input.l2Cost.toNat - (input.usedL2Cost gasUsed).toNat :=
  U256.toNat_saturatingSub _ _

/-- The treasury has received the L2 cost, so it can refund a part of it. -/
theorem affords_refund
    (hverifies : verifyTransaction env input (startCanonical env input) = (.ok (), verified))
    (gasUsed : ℕ) (hrefund : refundAmount input gasUsed ≠ 0) :
    (verified.move.ethStores input.sender).isSome ∧
      (verified.move.ethStores input.ethTreasury).isSome ∧
      (refundAmount input gasUsed).toNat ≤ balances verified.move input.ethTreasury := by
  obtain ⟨-, hl2, hran⟩ := ran_of_verifyTransaction hverifies
  have hamount : (refundAmount input gasUsed).toNat = _ := toNat_refundAmount gasUsed
  have hle : (refundAmount input gasUsed).toNat ≤ input.l2Cost.toNat := by omega
  have hl2Cost : input.l2Cost ≠ 0 := by
    intro hzero
    rw [hzero] at hle
    exact hrefund (BitVec.eq_of_toNat_eq (Nat.le_zero.mp hle))
  obtain ⟨hsender, -⟩ := hl2 hl2Cost
  rw [hran.move]
  exact ⟨isSome_payEth hsender, isSome_payEth_target hl2Cost, le_balances_payEth hl2Cost hle hl2⟩

namespace AcceptedRun

variable (h : AcceptedRun env input data verified afterPayload run settled payload vmOutcome outcome)
include h

theorem runs : payloadRun env input data verified = (vmOutcome, run) := by
  rw [payloadRun_eq h.pays, h.replicates]

/-- What every step of a payload keeps, the payload and replication keep together. -/
theorem keeps {R : Session γ → Session γ → Prop} [IsPreorder (Session γ) R]
    (hsteps : StepsKeep env R) : R verified run := by
  have hrun : R verified (payloadRun env input data verified).2 :=
    keeps_payloadRun hsteps data verified
  rw [h.runs] at hrun
  exact hrun

/-- Nothing is taken back between verification and the refund. -/
theorem advances (hlawful : Lawful env) : Advances env.meter verified run :=
  h.keeps (stepsKeep_advances hlawful)

theorem gasUsed_le (hlawful : Lawful env) :
    env.totalGasUsed run.gas ≤ input.l2Input.gasLimit := by
  have hverified : Advances env.meter (startCanonical env input)
      (verifyTransaction env input (startCanonical env input)).2 := keeps_verifyTransaction _
  rw [h.verifies] at hverified
  obtain ⟨charges, hgas⟩ := (trans_of (Advances env.meter) hverified (h.advances hlawful)).gas
  rw [hgas]
  exact hlawful.gasBound input.l2Input.gasLimit charges

theorem usedL2Cost_le (hlawful : Lawful env) :
    (input.usedL2Cost (env.totalGasUsed run.gas)).toNat ≤ input.l2Cost.toNat :=
  input.l2Fee.l2Fee_le input.l2Input.effectiveGasPrice (h.gasUsed_le hlawful) input.gasLimitFits

/-- The refund gives the sender what the treasury loses, and no more than was charged. -/
theorem ran_refund : Affords run.move input.ethTreasury
      (refundAmount input (env.totalGasUsed run.gas)) ∧
    Ran run settled (payEth input.ethTreasury input.sender
        (refundAmount input (env.totalGasUsed run.gas)))
      (paymentEvents input.ethTreasury input.sender
        (refundAmount input (env.totalGasUsed run.gas))) :=
  ran_of_transferEth h.refunds

end AcceptedRun

end Settlement

end OpMove.CanonicalRuns
