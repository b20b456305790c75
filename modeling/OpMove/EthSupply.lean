import OpMove.CanonicalRuns
import OpMove.Deposits
import Mathlib.Algebra.BigOperators.Finprod
import Mathlib.Algebra.Order.BigOperators.Group.Finset
import Mathlib.Data.FinEnum

/-!
The total of all ETH balances. Transfers keep it, a transfer or a payment to the EVM that
fails half-way can only lower it, and a mint raises the recorded supply before it pays
anything out. So the balances are backed by the supply, which fits a word, in every state.
-/

namespace OpMove.EthSupply

open Primitives Transactions Errors StorageTries NativeEvm FailingActions Sessions EthToken
open EvmModule Payments Canonical SessionProgress FeeSettlement CanonicalRuns Deposits

section Totals

noncomputable def total (state : MoveState) : ℕ := ∑ᶠ a : AccountAddress, balances state a

theorem total_eq_sum (state : MoveState) : total state = ∑ a, balances state a :=
  finsum_eq_sum_of_fintype _

theorem total_of_moves {state state' : MoveState} {change : AccountAddress → ℤ}
    (h : Moves (balances state) (balances state') change) :
    (total state' : ℤ) = total state + ∑ a, change a := by
  rw [total_eq_sum, total_eq_sum]
  exact h.sum_eq

theorem balances_le_total (state : MoveState) (a : AccountAddress) :
    balances state a ≤ total state := by
  rw [total_eq_sum]
  exact Finset.single_le_sum (fun _ _ => Nat.zero_le _) (Finset.mem_univ a)

theorem total_ensured (owner : AccountAddress) (state : MoveState) :
    total (ensured owner state) = total state := by
  unfold total
  rw [balances_ensured]

theorem total_withStore (state : MoveState) (owner : AccountAddress) (store : FungibleStore) :
    total (state.withStore owner (some store)) + balances state owner =
      total state + store.balance := by
  have hupdate : balances (state.withStore owner (some store)) =
      Function.update (balances state) owner store.balance := by
    funext a
    by_cases ha : a = owner
    · subst ha
      simp [balances]
    · simp [balances, MoveState.withStore_of_ne _ _ ha, ha]
  rw [total_eq_sum, total_eq_sum, hupdate]
  exact sum_update_add (balances state) owner store.balance

/-- A payment of the node keeps the total, also when an account pays itself. -/
theorem total_payEth {source target : AccountAddress} {amount : U256} {state : MoveState}
    (h : Affords state source amount) : total (payEth source target amount state) = total state := by
  unfold payEth
  split_ifs with hzero
  · rfl
  · obtain ⟨hsource, henough⟩ := h hzero
    have hmoves : (total (paid source target amount.toNat state) : ℤ) = total state + _ :=
      total_of_moves (paid_moves hsource henough)
    rw [sum_delta] at hmoves
    omega

end Totals

section Growth

variable {γ : Type} {meter : GasMeter γ}

/-- The total has grown by `amount` at most, and the recorded supply is the same. -/
structure Grows (amount : ℕ) (s s' : Session γ) : Prop where
  total : total s'.move ≤ total s.move + amount
  supply : s'.move.ethSupply = s.move.ethSupply

theorem Grows.trans {amount more : ℕ} {s s' s'' : Session γ} (h : Grows amount s s')
    (h' : Grows more s' s'') : Grows (amount + more) s s'' := by
  have hfirst := h.total
  have hsecond := h'.total
  exact ⟨by omega, h'.supply.trans h.supply⟩

instance : IsPreorder (Session γ) (Grows 0) where
  refl _ := ⟨le_rfl, rfl⟩
  trans _ _ _ h h' := h.trans h'

theorem grows_of_move {s s' : Session γ} (h : s'.move = s.move) : Grows 0 s s' := by
  constructor <;> rw [h]
  exact le_rfl

theorem grows_refl (amount : ℕ) (s : Session γ) : Grows amount s s := ⟨Nat.le_add_right _ _, rfl⟩

/-- What two actions add is at most the sum of what each adds. -/
theorem grows_bind {ε α β : Type} {amount more : ℕ} {x : Act (Session γ) ε α}
    {f : α → Act (Session γ) ε β} {s : Session γ} (hx : Grows amount s (x s).2)
    (hf : ∀ a, Keeps (Grows more) (f a)) : Grows (amount + more) s ((x >>= f) s).2 := by
  rcases hxs : x s with ⟨e | a, s'⟩ <;> rw [hxs] at hx
  · rw [bind_of_error hxs]
    exact hx.trans (grows_refl more s')
  · rw [bind_of_ok hxs]
    exact hx.trans (hf a s')

theorem Grows.andThen {ε α β : Type} {amount : ℕ} {x : Act (Session γ) ε α}
    {f : α → Act (Session γ) ε β} (hx : Keeps (Grows amount) x)
    (hf : ∀ a, Keeps (Grows 0) (f a)) : Keeps (Grows amount) (x >>= f) :=
  fun s => grows_bind (hx s) hf

theorem Grows.andLater {ε α β : Type} {amount : ℕ} {x : Act (Session γ) ε α}
    {f : α → Act (Session γ) ε β} (hx : Keeps (Grows 0) x)
    (hf : ∀ a, Keeps (Grows amount) (f a)) : Keeps (Grows amount) (x >>= f) := by
  intro s
  rw [← Nat.zero_add amount]
  exact grows_bind (hx s) hf

theorem grows_chargeGas (charge : Charge) : Keeps (Grows 0) (chargeGas meter charge) := by
  intro s
  unfold chargeGas
  split <;> exact grows_of_move rfl

theorem grows_emit (event : Event) : Keeps (Grows 0) (emit meter event) :=
  Keeps.bind (grows_chargeGas _) fun _ _ => grows_of_move rfl

/-- A store that is written over changes the total by the difference of its balances. -/
theorem grows_setStore {owner : AccountAddress} {store : FungibleStore} {amount : ℕ}
    {s : Session γ} (h : store.balance ≤ balances s.move owner + amount) :
    Grows amount s (setStore meter owner store s).2 := by
  unfold setStore writeMove
  have hcharged : Grows 0 s (chargeGas meter .write s).2 := grows_chargeGas .write s
  rcases hcharge : chargeGas meter .write s with ⟨e | _, charged⟩ <;> rw [hcharge] at hcharged
  · rw [bind_of_error hcharge]
    exact ⟨hcharged.total.trans (by omega), hcharged.supply⟩
  · rw [bind_of_ok hcharge]
    have hmove : charged.move = s.move := (ran_of_chargeGas hcharge).move
    have hwritten := total_withStore s.move owner store
    refine ⟨?_, ?_⟩
    · show EthSupply.total (charged.move.withStore owner (some store)) ≤ _
      rw [hmove]
      omega
    · show charged.move.ethSupply = _
      rw [hmove]

theorem grows_ensurePrimaryStoreExists (owner : AccountAddress) :
    Keeps (Grows 0) (ensurePrimaryStoreExists meter owner) := by
  refine Keeps.bind (Keeps.read _) fun found => Keeps.ite (Keeps.pure ()) fun s => ?_
  exact grows_setStore (Nat.zero_le _)

theorem borrowStore_cases (owner : AccountAddress) (s : Session γ) :
    (∃ store, s.move.ethStores owner = some store ∧ borrowStore owner s = (.ok store, s)) ∨
      borrowStore owner s = (.error (.aborted fungibleStoreExistence), s) := by
  unfold borrowStore
  rw [bind_read]
  cases hstore : s.move.ethStores owner with
  | none => exact Or.inr rfl
  | some store => exact Or.inl ⟨store, rfl, rfl⟩

theorem grows_depositInternal (owner : AccountAddress) (amount : ℕ) :
    Keeps (Grows amount) (depositInternal meter owner amount) := by
  intro s
  unfold depositInternal
  split_ifs with hzero
  · exact grows_refl amount s
  · rcases borrowStore_cases owner s with ⟨store, hstore, hborrow⟩ | hborrow
    · rw [bind_of_ok hborrow]
      split_ifs with hoverflow
      · exact grows_refl amount s
      · have hbalance : balances s.move owner = store.balance := by
          simp [balances, hstore]
        refine grows_bind (grows_setStore ?_) fun _ => grows_emit _
        show store.balance + amount ≤ _
        omega
    · rw [bind_of_error hborrow]
      exact grows_refl amount s

theorem grows_withdrawInternal (owner : AccountAddress) (amount : ℕ) :
    Keeps (Grows 0) (withdrawInternal meter owner amount) := by
  intro s
  unfold withdrawInternal
  rcases borrowStore_cases owner s with ⟨store, hstore, hborrow⟩ | hborrow
  · rw [bind_of_ok hborrow]
    split_ifs with hzero hpoor
    · exact grows_refl 0 s
    · exact grows_refl 0 s
    · have hbalance : balances s.move owner = store.balance := by
        simp [balances, hstore]
      refine grows_bind (grows_setStore ?_) fun _ => grows_emit _
      show store.balance - amount ≤ _
      omega
  · rw [bind_of_error hborrow]
    exact grows_refl 0 s

theorem total_withdrawInternal {owner : AccountAddress} {amount : ℕ} {s s' : Session γ}
    (h : withdrawInternal meter owner amount s = (.ok (), s')) :
    total s'.move + amount = total s.move := by
  obtain ⟨store, middle, hborrow, hrest⟩ := bind_ok.mp h
  obtain ⟨hstore, rfl⟩ := borrowStore_ok_iff.mp hborrow
  by_cases hzero : amount = 0
  · subst hzero
    rw [if_pos rfl] at hrest
    obtain ⟨-, rfl⟩ := pure_ok.mp hrest
    rfl
  · obtain ⟨henough, hran⟩ := ran_of_withdrawInternal hzero h
    have hsome : (s.move.ethStores owner).isSome := by
      simp [hstore]
    have htaken : (total s'.move : ℤ) = total s.move + _ :=
      total_of_moves (hran.move ▸ debit_moves hsome henough)
    rw [Finset.sum_neg_distrib, Finset.sum_ite_eq_of_mem' _ _ _ (Finset.mem_univ _)] at htaken
    omega

/-- What was taken out before can be given to another account. -/
theorem grows_bind_of_taken {α β : Type} {x : Vm γ α} {f : α → Vm γ β} {taken : α → ℕ}
    (hx : Keeps (Grows 0) x)
    (htaken : ∀ s a s', x s = (.ok a, s') → total s'.move + taken a = total s.move)
    (hf : ∀ a, Keeps (Grows (taken a)) (f a)) : Keeps (Grows 0) (x >>= f) := by
  intro s
  have hfirst := hx s
  rcases hxs : x s with ⟨e | a, s'⟩ <;> rw [hxs] at hfirst
  · rw [bind_of_error hxs]
    exact hfirst
  · rw [bind_of_ok hxs]
    have hless := htaken s a s' hxs
    have hrest := (hf a s').total
    exact ⟨by omega, (hf a s').supply.trans hfirst.supply⟩

theorem grows_transferEth (source target : AccountAddress) (amount : U256) :
    Keeps (Grows 0) (transferEth meter source target amount) := by
  refine Keeps.ite (Keeps.pure ()) ?_
  refine Keeps.bind (keeps_primaryStore source) fun _ => ?_
  refine Keeps.bind (grows_ensurePrimaryStoreExists target) fun _ => ?_
  exact grows_bind_of_taken (grows_withdrawInternal source _)
    (fun _ _ _ hwithdraw => total_withdrawInternal hwithdraw)
    fun _ => grows_depositInternal target _

end Growth

section Evm

variable {γ X : Type} {meter : GasMeter γ} {revm : Revm X} {lib : TrieLibrary}

theorem grows_getAssetValue (asset : U256) :
    Keeps (Grows asset.toNat) (getAssetValue meter asset) := by
  refine Keeps.ite (fun s => grows_refl _ s) ?_
  refine Grows.andLater (grows_ensurePrimaryStoreExists _) fun _ => ?_
  refine Grows.andLater (keeps_depositSanityCheck _) fun _ => ?_
  exact Grows.andThen (grows_depositInternal _ _) fun _ => Keeps.pure asset

theorem grows_nativeEvmTransact (caller : AccountAddress) (transactTo : TxKind) (value : U256)
    (data : Bytes) :
    Keeps (Grows 0) (nativeEvmTransact meter revm lib caller transactTo value data) :=
  keeps_nativeEvmTransact grows_chargeGas fun _ => grows_of_move rfl

theorem grows_withdrawPayment (caller : AccountAddress) (value : U256) :
    Keeps (Grows 0) (withdrawPayment meter caller value) := by
  refine Keeps.ite (Keeps.pure 0) ?_
  refine Keeps.bind (grows_ensurePrimaryStoreExists caller) fun _ => ?_
  refine Keeps.bind (keeps_withdrawSanityCheck caller) fun _ => ?_
  exact Keeps.bind (grows_withdrawInternal caller _) fun _ => Keeps.pure value

theorem total_withdrawPayment {caller : AccountAddress} {value payment : U256} {s s' : Session γ}
    (h : withdrawPayment meter caller value s = (.ok payment, s')) :
    total s'.move + payment.toNat = total s.move := by
  obtain ⟨rfl, -, hmoves⟩ := withdrawPayment_spec h
  have htaken := total_of_moves hmoves
  rw [Finset.sum_neg_distrib, Finset.sum_ite_eq_of_mem' _ _ _ (Finset.mem_univ _)] at htaken
  omega

/-- The payment taken from the caller is what the EVM native account gets. -/
theorem grows_systemEvmTransact (caller : AccountAddress) (transactTo : TxKind) (value : U256)
    (data : Bytes) (failed : ℕ) : Keeps (Grows 0)
      (systemEvmTransact meter revm lib caller transactTo value data failed) := by
  refine grows_bind_of_taken (grows_withdrawPayment caller value)
    (fun _ _ _ hpayment => total_withdrawPayment hpayment) fun payment => ?_
  refine Grows.andThen (Grows.andThen (grows_getAssetValue payment) fun asset => ?_) fun result => ?_
  · exact grows_nativeEvmTransact caller transactTo asset data
  · refine Keeps.ite (Keeps.bind (grows_emit _) fun _ => ?_) (Keeps.fail _)
    exact Keeps.pure result

end Evm

section Backing

variable {γ X τ : Type} {env : CanonicalEnv γ X τ} {input : CanonicalExecutionInput}

/-- The balances are backed by the recorded supply, which fits a word. -/
structure Backed (state : MoveState) : Prop where
  total : total state ≤ state.ethSupply
  fits : state.ethSupply < u256Size

def StaysBacked (s s' : Session γ) : Prop := Backed s.move → Backed s'.move

instance : IsPreorder (Session γ) StaysBacked where
  refl _ h := h
  trans _ _ _ h h' hbacked := h' (h hbacked)

theorem Grows.staysBacked {s s' : Session γ} (h : Grows 0 s s') : StaysBacked s s' := by
  intro hbacked
  have htotal := h.total
  have hbefore := hbacked.total
  refine ⟨?_, ?_⟩
  · rw [h.supply]
    omega
  · rw [h.supply]
    exact hbacked.fits

/-- User code cannot mint ETH: only the framework has the reference to do it. -/
structure MintsNothing (env : CanonicalEnv γ X τ) : Prop where
  entryFunction : ∀ entryFn args, Keeps StaysBacked (env.vm.runEntryFunction entryFn args)
  script : ∀ script args, Keeps StaysBacked (env.vm.runScript script args)

theorem stepsKeep_backed (h : MintsNothing env) : StepsKeep env StaysBacked where
  charge charge s := (grows_chargeGas charge s).staysBacked
  transfer source target amount s := (grows_transferEth source target amount s).staysBacked
  evm caller transactTo value data failed s :=
    (grows_systemEvmTransact caller transactTo value data failed s).staysBacked
  logs _ _ hbacked := hbacked
  entryFunction := h.entryFunction
  script := h.script

theorem ethSupply_payEth (source target : AccountAddress) (amount : U256) (state : MoveState) :
    (payEth source target amount state).ethSupply = state.ethSupply := by
  unfold payEth
  split_ifs
  · rfl
  · unfold paid ensured
    split_ifs <;> rfl

/-- A payment of the node keeps the balances backed. -/
theorem backed_payEth {source target : AccountAddress} {amount : U256} {state : MoveState}
    (h : Affords state source amount) (hbacked : Backed state) :
    Backed (payEth source target amount state) := by
  refine ⟨?_, ?_⟩
  · rw [total_payEth h, ethSupply_payEth]
    exact hbacked.total
  · rw [ethSupply_payEth]
    exact hbacked.fits

theorem total_verified {verified : Session γ}
    (h : verifyTransaction env input (startCanonical env input) = (.ok (), verified)) :
    total verified.move = total input.state.move := by
  obtain ⟨hl1, hl2, hran⟩ := ran_of_verifyTransaction h
  rw [hran.move]
  exact (total_payEth hl2).trans (total_payEth hl1)

theorem backed_verified {verified : Session γ}
    (h : verifyTransaction env input (startCanonical env input) = (.ok (), verified))
    (hbacked : Backed input.state.move) : Backed verified.move := by
  obtain ⟨hl1, hl2, hran⟩ := ran_of_verifyTransaction h
  rw [hran.move]
  have hpaid : Backed (payEth input.sender input.ethTreasury input.l2Cost
      (payEth input.sender input.ethTreasury input.l1Cost input.state.move)) :=
    backed_payEth hl2 (backed_payEth hl1 hbacked)
  exact ⟨hpaid.total, hpaid.fits⟩

/-- A canonical transaction keeps the balances backed, whether its payload fails or not. -/
theorem backed_canonical {outcome : TransactionExecutionOutcome} (hvm : MintsNothing env)
    (hbacked : Backed input.state.move)
    (h : executeCanonicalTransaction env input = .ok outcome) : Backed outcome.move := by
  obtain ⟨data, verified, afterPayload, run, settled, payload, vmOutcome, haccepted⟩ :=
    acceptedRun_of_ok h
  have hrun : Backed run.move :=
    haccepted.keeps (stepsKeep_backed hvm) (backed_verified haccepted.verifies hbacked)
  obtain ⟨hafford, hran⟩ := haccepted.ran_refund
  have hsettled : Backed settled.move := by
    rw [hran.move]
    exact backed_payEth hafford hrun
  obtain ⟨-, hmove, -⟩ := finishCanonical_ok haccepted.finishes
  rw [hmove]
  exact ⟨hsettled.total, hsettled.fits⟩

theorem backed_increaseSupply {meter : GasMeter γ} (amount : ℕ) :
    Keeps StaysBacked (increaseSupply meter amount) := by
  intro s hbacked
  unfold increaseSupply
  rw [bind_read]
  split_ifs with hoverflow
  · exact hbacked
  · have hcharged : Grows 0 s (chargeGas meter .write s).2 := grows_chargeGas .write s
    unfold writeMove
    rcases hcharge : chargeGas meter .write s with ⟨e | _, charged⟩ <;> rw [hcharge] at hcharged
    · rw [bind_of_error hcharge]
      exact hcharged.staysBacked hbacked
    · rw [bind_of_ok hcharge]
      have htotal : total charged.move ≤ s.move.ethSupply :=
        hcharged.total.trans hbacked.total
      exact ⟨htotal.trans (Nat.le_add_right _ _), not_le.mp hoverflow⟩

/-- The supply is raised by the amount before it is paid out. -/
theorem backed_mintEth {meter : GasMeter γ} (target : AccountAddress) (amount : U256) :
    Keeps StaysBacked (mintEth meter target amount) := by
  unfold mintEth mint
  split_ifs with hzero hnat
  · exact Keeps.pure ()
  · exact absurd hnat (toNat_ne_zero hzero)
  refine Keeps.bind (fun s => (grows_ensurePrimaryStoreExists target s).staysBacked) ?_
  intro _ s hbacked
  have hraised : Backed (increaseSupply meter amount.toNat s).2.move :=
    backed_increaseSupply amount.toNat s hbacked
  rcases hsupply : increaseSupply meter amount.toNat s with ⟨e | _, raised⟩ <;>
    rw [hsupply] at hraised
  · rw [bind_of_error hsupply]
    exact hraised
  · rw [bind_of_ok hsupply]
    dsimp only
    have hran := increaseSupply_ok hsupply
    have hdeposited : Grows amount.toNat raised (depositInternal meter target amount.toNat raised).2 :=
      grows_depositInternal target amount.toNat raised
    have hsame : total raised.move = total s.move := by
      rw [hran.move]
      rfl
    have hmore : raised.move.ethSupply = s.move.ethSupply + amount.toNat := by
      rw [hran.move]
    have hpaid := hdeposited.total
    have hbefore := hbacked.total
    refine ⟨?_, ?_⟩
    · rw [hdeposited.supply]
      omega
    · rw [hdeposited.supply]
      exact hraised.fits

/-- A deposit keeps the balances backed: it mints through the supply. -/
theorem backed_deposit {nodeEnv : NodeEnv γ} {revm : Revm X} {state : ChainState}
    {hashByNumber : ℕ → Option B256} {blockHeader : HeaderForExecution} {tx : TxDeposit}
    {outcome : TransactionExecutionOutcome} (hbacked : Backed state.move)
    (h : executeDepositedTransaction nodeEnv revm state hashByNumber blockHeader tx = .ok outcome) :
    Backed outcome.move := by
  obtain ⟨target, hmove⟩ := move_of_deposit h
  rw [hmove]
  refine keeps_depositPayload nodeEnv revm ?_ backed_mintEth ?_ tx target _ hbacked
  · exact fun caller transactTo value data s =>
      (grows_nativeEvmTransact caller transactTo value data s).staysBacked
  · exact keeps_replicateTransfers (fun _ _ hbacked => hbacked) fun source target amount s =>
      (grows_transferEth source target amount s).staysBacked

end Backing

end OpMove.EthSupply
