import OpMove.Canonical

/-!
What verification and the refund do to the Move state together: the fee for layer one and
for the used gas is moved from the sender to the treasury, and the sequence number of the
sender goes up. The stores are compared as a whole, not only by their balances.
-/

namespace OpMove.FeeSettlement

open Primitives Errors FailingActions Sessions EthToken Payments Canonical

section Stores

/-- Every store that exists has its balance changed. -/
def moved (change : AccountAddress → ℤ) (state : MoveState) : MoveState :=
  { state with
    ethStores := fun a => (state.ethStores a).map fun store =>
      { store with balance := (store.balance + change a).toNat } }

/-- No store is overdrawn by the change. -/
def Covers (state : MoveState) (change : AccountAddress → ℤ) : Prop :=
  ∀ a store, state.ethStores a = some store → 0 ≤ (store.balance : ℤ) + change a

theorem isSome_moved (change : AccountAddress → ℤ) (state : MoveState) (a : AccountAddress) :
    ((moved change state).ethStores a).isSome = (state.ethStores a).isSome := by
  simp [moved]

theorem moved_moved {first second : AccountAddress → ℤ} {state : MoveState}
    (h : Covers state first) :
    moved second (moved first state) = moved (fun a => first a + second a) state := by
  apply MoveState.ext
  · funext a
    cases hstore : state.ethStores a with
    | none => simp [moved, hstore]
    | some store =>
      have hcovered := h a store hstore
      have hbalance : (((store.balance : ℤ) + first a).toNat : ℤ) + second a =
          store.balance + (first a + second a) := by omega
      simp only [moved, hstore, Option.map_some, hbalance]
  all_goals rfl

theorem moved_zero {change : AccountAddress → ℤ} (h : ∀ a, change a = 0) (state : MoveState) :
    moved change state = state := by
  apply MoveState.ext
  · funext a
    cases hstore : state.ethStores a with
    | none => simp [moved, hstore]
    | some store => simp [moved, hstore, h a]
  all_goals rfl

/-- A change that both states cover can be undone. -/
theorem moved_injective {change : AccountAddress → ℤ} {state other : MoveState}
    (h : Covers state change) (h' : Covers other change)
    (heq : moved change state = moved change other) : state = other := by
  have hback : ∀ {state : MoveState}, Covers state change →
      moved (fun a => -change a) (moved change state) = state := by
    intro state hcovers
    rw [moved_moved hcovers]
    exact moved_zero (fun a => add_neg_cancel (change a)) state
  rw [← hback h, heq, hback h']

theorem ensured_of_isSome {owner : AccountAddress} {state : MoveState}
    (h : (state.ethStores owner).isSome) : ensured owner state = state := by
  rw [ensured, if_pos h]

/-- A payment out of a store that has the amount overdraws nothing. -/
theorem covers_payment {source target : AccountAddress} {amount : ℕ} {state : MoveState}
    (h : amount ≤ balances state source) :
    Covers state (Payment.delta ⟨source, target, amount⟩) := by
  intro a store hstore
  have hbalance : balances state a = store.balance := by
    simp [balances, hstore]
  rw [delta_eq]
  by_cases ha : a = source
  · subst ha
    rw [if_pos rfl]
    split_ifs <;> omega
  · rw [if_neg ha]
    split_ifs <;> omega

theorem paid_eq_moved {source target : AccountAddress} {amount : ℕ} {state : MoveState}
    (h : amount ≤ balances state source) :
    paid source target amount state =
      moved (Payment.delta ⟨source, target, amount⟩) (ensured target state) := by
  rw [← balances_ensured target state] at h
  unfold paid
  generalize ensured target state = base at h ⊢
  apply MoveState.ext
  · funext a
    cases hstore : base.ethStores a with
    | none =>
      have hnone : ∀ owner f state, state.ethStores a = none →
          (withBalance owner f state).ethStores a = none := by
        intro owner f state hstate
        have hsome := isSome_withBalance owner f state a
        rw [hstate] at hsome
        exact Option.not_isSome_iff_eq_none.mp (by simp [hsome])
      rw [hnone _ _ _ (hnone _ _ _ hstore)]
      simp [moved, hstore]
    | some store =>
      have hbalance : balances base a = store.balance := by
        simp [balances, hstore]
      simp only [withBalance, MoveState.withStore, moved, delta_eq, Function.update_apply, hstore]
      by_cases hsource : a = source <;> by_cases htarget : a = target
      · subst hsource htarget
        simp only [if_true, hstore, Option.map_some]
        congr 2
        omega
      · subst hsource
        simp only [if_true, if_neg htarget, hstore, Option.map_some]
        congr 2
        omega
      · subst htarget
        simp only [if_true, if_neg hsource, hstore, Option.map_some]
        congr 2
      · simp only [if_neg hsource, if_neg htarget, Option.map_some]
        congr 2
  all_goals rfl

end Stores

section Payments

/-- The state after a payment of the node; paying nothing does nothing. -/
def payEth (source target : AccountAddress) (amount : U256) (state : MoveState) : MoveState :=
  if amount = 0 then state else paid source target amount.toNat state

def paymentEvents (source target : AccountAddress) (amount : U256) : List Event :=
  if amount = 0 then [] else [.withdraw source amount.toNat, .deposit target amount.toNat]

/-- The sender of a payment has the amount. -/
def Affords (state : MoveState) (source : AccountAddress) (amount : U256) : Prop :=
  amount ≠ 0 → (state.ethStores source).isSome ∧ amount.toNat ≤ balances state source

theorem ran_of_transferEth {γ : Type} {meter : GasMeter γ} {s s' : Session γ}
    {source target : AccountAddress} {amount : U256}
    (h : transferEth meter source target amount s = (.ok (), s')) :
    Affords s.move source amount ∧
      Ran s s' (payEth source target amount) (paymentEvents source target amount) := by
  unfold transferEth at h
  unfold paymentEvents
  split_ifs at h with hzero
  · obtain ⟨-, rfl⟩ := pure_ok.mp h
    refine ⟨fun hne => absurd hzero hne, ?_, ?_, rfl⟩
    · rw [payEth, if_pos hzero]
    · rw [if_pos hzero, List.append_nil]
  · obtain ⟨hsource, henough, hran⟩ := ran_of_transfer (toNat_ne_zero hzero) h
    refine ⟨fun _ => ⟨hsource, henough⟩, ?_, ?_, hran.evm⟩
    · rw [hran.move, payEth, if_neg hzero]
    · rw [hran.events, if_neg hzero]

theorem isSome_payEth {source target : AccountAddress} {amount : U256} {state : MoveState}
    {a : AccountAddress} (h : (state.ethStores a).isSome) :
    ((payEth source target amount state).ethStores a).isSome := by
  unfold payEth
  split_ifs
  · exact h
  · rw [paid, isSome_withBalance, isSome_withBalance]
    exact isSome_ensured_of_isSome target h

/-- The receiver of a payment can pay it back, also when it is the payer itself. -/
theorem le_balances_payEth {source target : AccountAddress} {amount back : U256}
    {state : MoveState} (hamount : amount ≠ 0) (hback : back.toNat ≤ amount.toNat)
    (hafford : Affords state source amount) :
    back.toNat ≤ balances (payEth source target amount state) target := by
  obtain ⟨hsource, henough⟩ := hafford hamount
  have hmoves : (balances (paid source target amount.toNat state) target : ℤ) = _ :=
    paid_moves hsource henough target
  rw [delta_eq, if_pos rfl] at hmoves
  rw [payEth, if_neg hamount]
  by_cases hsame : target = source
  · subst hsame
    rw [if_pos rfl] at hmoves
    omega
  · rw [if_neg hsame] at hmoves
    omega

theorem isSome_payEth_target {source target : AccountAddress} {amount : U256} {state : MoveState}
    (h : amount ≠ 0) : ((payEth source target amount state).ethStores target).isSome := by
  rw [payEth, if_neg h, paid, isSome_withBalance, isSome_withBalance]
  exact isSome_ensured target state

/-- What is paid and partly paid back has moved the difference. -/
theorem payEth_back {source target : AccountAddress} {amount back : U256} {state : MoveState}
    (hamount : amount ≠ 0) (hback : back.toNat ≤ amount.toNat)
    (hafford : Affords state source amount) :
    payEth target source back (payEth source target amount state) =
      moved (Payment.delta ⟨source, target, amount.toNat - back.toNat⟩) (ensured target state) := by
  obtain ⟨hsource, henough⟩ := hafford hamount
  have hpaid : payEth source target amount state =
      moved (Payment.delta ⟨source, target, amount.toNat⟩) (ensured target state) := by
    rw [payEth, if_neg hamount, paid_eq_moved henough]
  by_cases hzero : back = 0
  · subst hzero
    rw [hpaid, payEth, if_pos rfl]
    rfl
  · have hcovers : Covers (ensured target state)
        (Payment.delta ⟨source, target, amount.toNat⟩) := by
      apply covers_payment
      rw [balances_ensured]
      exact henough
    have hreceived : back.toNat ≤ balances (payEth source target amount state) target :=
      le_balances_payEth hamount hback hafford
    rw [payEth, if_neg hzero, paid_eq_moved hreceived, ensured_of_isSome (isSome_payEth hsource),
      hpaid, moved_moved hcovers]
    simp only [delta_back source target hback]

end Payments

section Fees

variable {γ X τ : Type} {env : CanonicalEnv γ X τ} {input : CanonicalExecutionInput}

/-- The state with the net fee moved; charging any fee gives the treasury a store. -/
def moveFee (sender treasury : AccountAddress) (l1Cost l2Cost : U256) (fee : ℕ)
    (state : MoveState) : MoveState :=
  if l1Cost = 0 ∧ l2Cost = 0 then state
  else moved (Payment.delta ⟨sender, treasury, fee⟩) (ensured treasury state)

/-- The account of the sender exists and has its next sequence number. -/
def nextNonce (sender : AccountAddress) (state : MoveState) : MoveState :=
  { state with
    sequenceNumbers := Function.update state.sequenceNumbers sender
      (some ((state.sequenceNumbers sender).getD 0 + 1)) }

/-- Both fees and then the refund amount to the net fee. -/
theorem payEth_settles {sender treasury : AccountAddress} {l1Cost l2Cost refund : U256}
    {state : MoveState} (hrefund : refund.toNat ≤ l2Cost.toNat)
    (hl1 : Affords state sender l1Cost)
    (hl2 : Affords (payEth sender treasury l1Cost state) sender l2Cost) :
    payEth treasury sender refund (payEth sender treasury l2Cost
        (payEth sender treasury l1Cost state)) =
      moveFee sender treasury l1Cost l2Cost (l1Cost.toNat + (l2Cost.toNat - refund.toNat))
        state := by
  by_cases hl2Zero : l2Cost = 0
  · have hrefundZero : refund = 0 := by
      rw [hl2Zero] at hrefund
      exact BitVec.eq_of_toNat_eq (Nat.le_zero.mp hrefund)
    subst hl2Zero hrefundZero
    rw [payEth, if_pos rfl, payEth, if_pos rfl, moveFee]
    by_cases hl1Zero : l1Cost = 0
    · rw [if_pos ⟨hl1Zero, rfl⟩, payEth, if_pos hl1Zero]
    · rw [if_neg (fun h => hl1Zero h.1), payEth, if_neg hl1Zero,
        paid_eq_moved (hl1 hl1Zero).2]
      rfl
  · rw [payEth_back hl2Zero hrefund hl2, moveFee, if_neg (fun h => hl2Zero h.2)]
    by_cases hl1Zero : l1Cost = 0
    · subst hl1Zero
      have hsum : (0 : U256).toNat + (l2Cost.toNat - refund.toNat) =
          l2Cost.toNat - refund.toNat := Nat.zero_add _
      rw [payEth, if_pos rfl, hsum]
    · obtain ⟨hsender, henough⟩ := hl1 hl1Zero
      have hpaid : payEth sender treasury l1Cost state =
          moved (Payment.delta ⟨sender, treasury, l1Cost.toNat⟩) (ensured treasury state) := by
        rw [payEth, if_neg hl1Zero, paid_eq_moved henough]
      have htreasury : ((payEth sender treasury l1Cost state).ethStores treasury).isSome := by
        rw [hpaid, isSome_moved]
        exact isSome_ensured treasury state
      have hcovers : Covers (ensured treasury state)
          (Payment.delta ⟨sender, treasury, l1Cost.toNat⟩) := by
        apply covers_payment
        rw [balances_ensured]
        exact henough
      rw [ensured_of_isSome htreasury, hpaid, moved_moved hcovers]
      simp only [delta_add]

theorem payEth_nextNonce (source target sender : AccountAddress) (amount : U256)
    (state : MoveState) :
    payEth source target amount (nextNonce sender state) =
      nextNonce sender (payEth source target amount state) := by
  unfold payEth
  split_ifs
  · rfl
  · unfold paid ensured
    split_ifs <;> first | rfl | contradiction

theorem getSequenceNumber_ok {signer : AccountAddress} {nonce : ℕ} {s s' : Session γ}
    (h : getSequenceNumber signer s = (.ok nonce, s')) :
    s.move.sequenceNumbers signer = some nonce ∧ s = s' := by
  obtain ⟨found, middle, hread, hrest⟩ := bind_ok.mp h
  obtain ⟨hfound, rfl⟩ := read_ok.mp hread
  cases found with
  | none => exact (fail_ok.mp hrest).elim
  | some found =>
    obtain ⟨rfl, rfl⟩ := pure_ok.mp hrest
    exact ⟨hfound, rfl⟩

theorem ran_of_createAccountIfDoesNotExist {meter : GasMeter γ} {signer : AccountAddress}
    {s s' : Session γ} (h : createAccountIfDoesNotExist meter signer s = (.ok (), s')) :
    Ran s s' (fun state => { state with
      sequenceNumbers := Function.update state.sequenceNumbers signer
        (some ((state.sequenceNumbers signer).getD 0)) }) [] := by
  obtain ⟨found, middle, hread, hrest⟩ := bind_ok.mp h
  obtain ⟨rfl, rfl⟩ := read_ok.mp hread
  split_ifs at hrest with hfound hreserved
  · obtain ⟨-, rfl⟩ := pure_ok.mp hrest
    obtain ⟨nonce, hnonce⟩ := Option.isSome_iff_exists.mp hfound
    refine ⟨?_, (List.append_nil _).symm, rfl⟩
    rw [hnonce, Option.getD_some, ← hnonce, Function.update_eq_self]
  · exact (fail_ok.mp hrest).elim
  · obtain ⟨hmove, hevents, hevm⟩ := ran_of_writeMove hrest
    refine ⟨?_, hevents, hevm⟩
    rw [hmove, Option.not_isSome_iff_eq_none.mp hfound]
    rfl

theorem ran_of_checkNonce {meter : GasMeter γ} {txNonce : ℕ} {signer : AccountAddress}
    {s s' : Session γ} (h : checkNonce meter txNonce signer s = (.ok (), s')) :
    Ran s s' (nextNonce signer) [] := by
  obtain ⟨_, created, hcreate, h⟩ := bind_ok.mp h
  obtain ⟨nonce, read, hget, h⟩ := bind_ok.mp h
  obtain ⟨hnonce, rfl⟩ := getSequenceNumber_ok (mapError_ok.mp hget)
  split_ifs at h
  · exact (fail_ok.mp h).elim
  · exact (fail_ok.mp h).elim
  · obtain ⟨nonce', read, hget', h⟩ := bind_ok.mp (mapError_ok.mp h)
    obtain ⟨hnonce', rfl⟩ := getSequenceNumber_ok hget'
    split_ifs at h
    · exact (fail_ok.mp h).elim
    · have hcreated := ran_of_createAccountIfDoesNotExist (mapError_ok.mp hcreate)
      have hran := hcreated.trans (ran_of_writeMove h)
      refine ⟨?_, hran.events, hran.evm⟩
      have hfirst : (s.move.sequenceNumbers signer).getD 0 = nonce' := by
        rw [hcreated.move] at hnonce'
        simpa using hnonce'
      rw [hran.move, nextNonce, hfirst]
      simp

/-- The Move state after verification. -/
def verifiedState (input : CanonicalExecutionInput) (state : MoveState) : MoveState :=
  nextNonce input.sender (payEth input.sender input.ethTreasury input.l2Cost
    (payEth input.sender input.ethTreasury input.l1Cost state))

def feeEvents (input : CanonicalExecutionInput) : List Event :=
  paymentEvents input.sender input.ethTreasury input.l1Cost ++
    paymentEvents input.sender input.ethTreasury input.l2Cost

theorem ran_of_verifyTransaction {s s' : Session γ}
    (h : verifyTransaction env input s = (.ok (), s')) :
    Affords s.move input.sender input.l1Cost ∧
      Affords (payEth input.sender input.ethTreasury input.l1Cost s.move) input.sender
        input.l2Cost ∧
      Ran s s' (verifiedState input) (feeEvents input) := by
  obtain ⟨_, checked, hcheck, h⟩ := bind_ok.mp h
  obtain ⟨_, charged, hcharge, h⟩ := bind_ok.mp h
  obtain ⟨_, paidL1, hl1, h⟩ := bind_ok.mp h
  obtain ⟨_, paidL2, hl2, hnonce⟩ := bind_ok.mp h
  have hchecked : checked = s := by
    unfold checkChainId at hcheck
    split_ifs at hcheck
    · exact (fail_ok.mp hcheck).elim
    · exact (pure_ok.mp hcheck).2.symm
  subst hchecked
  obtain ⟨_, intrinsic, hintrinsic, hio⟩ := bind_ok.mp (mapError_ok.mp hcharge)
  have hgas := (ran_of_chargeGas hintrinsic).trans (ran_of_chargeGas hio)
  obtain ⟨hafford, hran⟩ := ran_of_transferEth (mapError_ok.mp hl1)
  obtain ⟨hafford', hran'⟩ := ran_of_transferEth (mapError_ok.mp hl2)
  have hchain := ((hgas.trans hran).trans hran').trans (ran_of_checkNonce hnonce)
  rw [hran.move, hgas.move] at hafford'
  rw [hgas.move] at hafford
  refine ⟨hafford, hafford', hchain.move, ?_, hchain.evm⟩
  rw [hchain.events, feeEvents, List.append_nil, List.nil_append, List.nil_append]

end Fees

end OpMove.FeeSettlement
