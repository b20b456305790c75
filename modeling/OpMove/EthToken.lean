import OpMove.Sessions
import OpMove.Payments

/-!
The ETH token: the fungible store functions of the framework, the entry functions of
`eth_token`, and the functions of the node that call them. A transfer creates the store
of the receiver before it takes anything from the sender.
-/

namespace OpMove.EthToken

open Primitives Errors NativeEvm FailingActions Sessions Payments

def u256Size : ℕ := 2 ^ 256

section AbortCodes

def objectDoesNotExist : ℕ := 0x60002
def fungibleStoreExistence : ℕ := 0x60017
def insufficientBalance : ℕ := 0x10004
def storeIsFrozen : ℕ := 0x50003
def notStoreOwner : ℕ := 0x50008

end AbortCodes

section Framework

variable {γ : Type} (meter : GasMeter γ)

/-- A missing store is created empty. -/
def ensurePrimaryStoreExists (owner : AccountAddress) : Vm γ Unit := do
  let found ← Act.read fun s => (s.move.ethStores owner).isSome
  if found then pure () else setStore meter owner ⟨owner, 0, false⟩

/-- The object of the store must exist. -/
def primaryStore (owner : AccountAddress) : Vm γ Unit := do
  let found ← Act.read fun s => (s.move.ethStores owner).isSome
  if found then pure () else abort objectDoesNotExist

def borrowStore (owner : AccountAddress) : Vm γ FungibleStore := do
  let found ← Act.read fun s => s.move.ethStores owner
  match found with
  | some store => pure store
  | none => abort fungibleStoreExistence

def withdrawInternal (owner : AccountAddress) (amount : ℕ) : Vm γ Unit := do
  let store ← borrowStore owner
  if amount = 0 then pure ()
  else if store.balance < amount then abort insufficientBalance
  else do
    setStore meter owner { store with balance := store.balance - amount }
    emit meter (.withdraw owner amount)

def depositInternal (owner : AccountAddress) (amount : ℕ) : Vm γ Unit := do
  if amount = 0 then pure ()
  else do
    let store ← borrowStore owner
    if u256Size ≤ store.balance + amount then Act.fail (.status .arithmeticError)
    else do
      setStore meter owner { store with balance := store.balance + amount }
      emit meter (.deposit owner amount)

def withdrawSanityCheck (owner : AccountAddress) : Vm γ Unit := do
  let store ← borrowStore owner
  if store.owner ≠ owner then abort notStoreOwner
  else if store.frozen then abort storeIsFrozen
  else pure ()

def depositSanityCheck (owner : AccountAddress) : Vm γ Unit := do
  let store ← borrowStore owner
  if store.frozen then abort storeIsFrozen else pure ()

/-- ETH has no maximum supply. -/
def increaseSupply (amount : ℕ) : Vm γ Unit := do
  let supply ← Act.read fun s => s.move.ethSupply
  if u256Size ≤ supply + amount then Act.fail (.status .arithmeticError)
  else writeMove meter fun state => { state with ethSupply := supply + amount }

def mint (target : AccountAddress) (amount : ℕ) : Vm γ Unit := do
  ensurePrimaryStoreExists meter target
  if amount = 0 then pure () else increaseSupply meter amount
  depositInternal meter target amount

def transfer (source target : AccountAddress) (amount : ℕ) : Vm γ Unit := do
  primaryStore source
  ensurePrimaryStoreExists meter target
  withdrawInternal meter source amount
  depositInternal meter target amount

end Framework

section Node

variable {γ : Type} (meter : GasMeter γ)

def transferEth (source target : AccountAddress) (amount : U256) : Vm γ Unit :=
  if amount = 0 then pure () else transfer meter source target amount.toNat

def mintEth (target : AccountAddress) (amount : U256) : Vm γ Unit :=
  if amount = 0 then pure () else mint meter target amount.toNat

def takeOrigins : Vm γ (List (AccountAddress × U256)) := fun s =>
  let logs := s.evm.transferLogs
  (.ok logs.origins, { s with evm := { s.evm with transferLogs := { logs with origins := [] } } })

def takeTransfers : Vm γ (List EthTransfer) := fun s =>
  let logs := s.evm.transferLogs
  (.ok logs.transfers,
    { s with evm := { s.evm with transferLogs := { logs with transfers := [] } } })

/-- An origin gets its value back from the EVM native account. -/
def returnOrigin (origin : AccountAddress × U256) : Vm γ Unit :=
  if origin.2 = 0 then pure () else transferEth meter evmNativeAddress origin.1 origin.2

/-- All origins get their value back, then follow the transfers of the EVM. -/
def replicateTransfers : Vm γ Unit := do
  let origins ← takeOrigins
  Act.forEach origins (returnOrigin meter)
  let transfers ← takeTransfers
  Act.forEach transfers fun t => transferEth meter t.origin t.target t.amount

end Node

theorem toNat_ne_zero {value : U256} (h : value ≠ 0) : value.toNat ≠ 0 := by
  intro heq
  exact h (BitVec.eq_of_toNat_eq (by simpa using heq))

section Stores

/-- The state once a store exists. -/
def ensured (owner : AccountAddress) (state : MoveState) : MoveState :=
  if (state.ethStores owner).isSome then state
  else state.withStore owner (some ⟨owner, 0, false⟩)

def withBalance (owner : AccountAddress) (f : ℕ → ℕ) (state : MoveState) : MoveState :=
  state.withStore owner
    ((state.ethStores owner).map fun store => { store with balance := f store.balance })

/-- The state after a transfer. -/
def paid (source target : AccountAddress) (amount : ℕ) (state : MoveState) : MoveState :=
  withBalance target (fun balance => balance + amount)
    (withBalance source (fun balance => balance - amount) (ensured target state))

theorem balances_ensured (owner : AccountAddress) (state : MoveState) :
    balances (ensured owner state) = balances state := by
  funext a
  unfold ensured
  split_ifs with hsome
  · rfl
  · unfold balances
    by_cases ha : a = owner
    · subst ha
      rw [MoveState.withStore_self, Option.not_isSome_iff_eq_none.mp hsome]
      rfl
    · rw [MoveState.withStore_of_ne _ _ ha]

theorem isSome_ensured (owner : AccountAddress) (state : MoveState) :
    ((ensured owner state).ethStores owner).isSome := by
  unfold ensured
  split_ifs with hsome
  · exact hsome
  · simp

theorem isSome_ensured_of_isSome (owner : AccountAddress) {a : AccountAddress} {state : MoveState}
    (h : (state.ethStores a).isSome) : ((ensured owner state).ethStores a).isSome := by
  unfold ensured
  split_ifs with hsome
  · exact h
  · by_cases ha : a = owner
    · subst ha
      simp
    · rw [MoveState.withStore_of_ne _ _ ha]
      exact h

theorem balances_withBalance {owner : AccountAddress} (f : ℕ → ℕ) {state : MoveState}
    (h : (state.ethStores owner).isSome) :
    balances (withBalance owner f state) =
      Function.update (balances state) owner (f (balances state owner)) := by
  obtain ⟨store, hstore⟩ := Option.isSome_iff_exists.mp h
  funext a
  by_cases ha : a = owner
  · subst ha
    simp [balances, withBalance, hstore]
  · simp [balances, withBalance, MoveState.withStore_of_ne _ _ ha, ha]

theorem isSome_withBalance (owner : AccountAddress) (f : ℕ → ℕ) (state : MoveState)
    (a : AccountAddress) :
    ((withBalance owner f state).ethStores a).isSome = (state.ethStores a).isSome := by
  by_cases ha : a = owner
  · subst ha
    simp [withBalance]
  · simp [withBalance, MoveState.withStore_of_ne _ _ ha]

theorem debit_moves {owner : AccountAddress} {amount : ℕ} {state : MoveState}
    (h : (state.ethStores owner).isSome) (hamount : amount ≤ balances state owner) :
    Moves (balances state) (balances (withBalance owner (fun balance => balance - amount) state))
      (fun a => -if a = owner then (amount : ℤ) else 0) := by
  intro a
  rw [balances_withBalance _ h]
  by_cases ha : a = owner
  · subst ha
    simp only [Function.update_self, if_true]
    omega
  · simp [ha]

theorem credit_moves {owner : AccountAddress} (amount : ℕ) {state : MoveState}
    (h : (state.ethStores owner).isSome) :
    Moves (balances state) (balances (withBalance owner (fun balance => balance + amount) state))
      (fun a => if a = owner then (amount : ℤ) else 0) := by
  intro a
  rw [balances_withBalance _ h]
  by_cases ha : a = owner
  · subst ha
    simp
  · simp [ha]

/-- A transfer moves its amount and nothing else. -/
theorem paid_moves {source target : AccountAddress} {amount : ℕ} {state : MoveState}
    (hsource : (state.ethStores source).isSome) (hamount : amount ≤ balances state source) :
    Moves (balances state) (balances (paid source target amount state))
      (Payment.delta ⟨source, target, amount⟩) := by
  have hdebit := debit_moves (isSome_ensured_of_isSome target hsource)
    (balances_ensured target state ▸ hamount)
  have hstore : ((withBalance source (fun balance => balance - amount)
      (ensured target state)).ethStores target).isSome := by
    rw [isSome_withBalance]
    exact isSome_ensured target state
  have hboth := hdebit.trans (credit_moves amount hstore)
  rw [balances_ensured] at hboth
  intro a
  rw [paid, hboth a, Payment.delta]
  ring

end Stores

section Success

variable {γ : Type} {meter : GasMeter γ} {s s' : Session γ}

theorem ran_of_ensurePrimaryStoreExists {owner : AccountAddress}
    (h : ensurePrimaryStoreExists meter owner s = (.ok (), s')) : Ran s s' (ensured owner) [] := by
  obtain ⟨found, middle, hread, hrest⟩ := bind_ok.mp h
  obtain ⟨rfl, rfl⟩ := read_ok.mp hread
  split_ifs at hrest with hfound
  · obtain ⟨-, rfl⟩ := pure_ok.mp hrest
    refine ⟨?_, (List.append_nil _).symm, rfl⟩
    rw [ensured, if_pos hfound]
  · obtain ⟨hmove, hevents, hevm⟩ := ran_of_writeMove hrest
    refine ⟨?_, hevents, hevm⟩
    rw [hmove, ensured, if_neg hfound]

theorem primaryStore_ok_iff {owner : AccountAddress} :
    primaryStore owner s = (.ok (), s') ↔ (s.move.ethStores owner).isSome ∧ s = s' := by
  unfold primaryStore
  rw [bind_ok]
  constructor
  · intro h
    obtain ⟨found, middle, hread, hrest⟩ := h
    obtain ⟨rfl, rfl⟩ := read_ok.mp hread
    split_ifs at hrest with hfound
    · exact ⟨hfound, (pure_ok.mp hrest).2⟩
    · exact (fail_ok.mp hrest).elim
  · intro h
    refine ⟨true, s, read_ok.mpr ⟨h.1, rfl⟩, ?_⟩
    rw [if_pos rfl]
    exact pure_ok.mpr ⟨rfl, h.2⟩

theorem borrowStore_ok_iff {owner : AccountAddress} {store : FungibleStore} :
    borrowStore owner s = (.ok store, s') ↔ s.move.ethStores owner = some store ∧ s = s' := by
  unfold borrowStore
  rw [bind_ok]
  constructor
  · intro h
    obtain ⟨found, middle, hread, hrest⟩ := h
    obtain ⟨hfound, rfl⟩ := read_ok.mp hread
    cases found with
    | none => exact (fail_ok.mp hrest).elim
    | some found =>
      obtain ⟨rfl, rfl⟩ := pure_ok.mp hrest
      exact ⟨hfound, rfl⟩
  · intro h
    refine ⟨some store, s, read_ok.mpr ⟨h.1, rfl⟩, pure_ok.mpr ⟨rfl, h.2⟩⟩

theorem ran_of_withdrawInternal {owner : AccountAddress} {amount : ℕ} (hamount : amount ≠ 0)
    (h : withdrawInternal meter owner amount s = (.ok (), s')) :
    amount ≤ balances s.move owner ∧
      Ran s s' (withBalance owner fun balance => balance - amount) [.withdraw owner amount] := by
  obtain ⟨store, middle, hborrow, hrest⟩ := bind_ok.mp h
  obtain ⟨hstore, rfl⟩ := borrowStore_ok_iff.mp hborrow
  rw [if_neg hamount] at hrest
  split_ifs at hrest with hpoor
  · exact (fail_ok.mp hrest).elim
  · obtain ⟨_, written, hwrite, hemit⟩ := bind_ok.mp hrest
    obtain ⟨hmove, hevents, hevm⟩ := (ran_of_writeMove hwrite).trans (ran_of_emit hemit)
    have hbalance : balances s.move owner = store.balance := by
      simp [balances, hstore]
    refine ⟨by omega, ⟨?_, hevents, hevm⟩⟩
    rw [hmove]
    simp [withBalance, hstore]

theorem ran_of_depositInternal {owner : AccountAddress} {amount : ℕ} (hamount : amount ≠ 0)
    (h : depositInternal meter owner amount s = (.ok (), s')) :
    Ran s s' (withBalance owner fun balance => balance + amount) [.deposit owner amount] := by
  unfold depositInternal at h
  rw [if_neg hamount] at h
  obtain ⟨store, middle, hborrow, hrest⟩ := bind_ok.mp h
  obtain ⟨hstore, rfl⟩ := borrowStore_ok_iff.mp hborrow
  split_ifs at hrest with hoverflow
  · exact (fail_ok.mp hrest).elim
  · obtain ⟨_, written, hwrite, hemit⟩ := bind_ok.mp hrest
    obtain ⟨hmove, hevents, hevm⟩ := (ran_of_writeMove hwrite).trans (ran_of_emit hemit)
    refine ⟨?_, hevents, hevm⟩
    rw [hmove]
    simp [withBalance, hstore]

/-- A successful transfer: the sender had the amount, and only it has moved. -/
theorem ran_of_transfer {source target : AccountAddress} {amount : ℕ} (hamount : amount ≠ 0)
    (h : transfer meter source target amount s = (.ok (), s')) :
    (s.move.ethStores source).isSome ∧ amount ≤ balances s.move source ∧
      Ran s s' (paid source target amount)
        [.withdraw source amount, .deposit target amount] := by
  obtain ⟨_, first, hprimary, hrest⟩ := bind_ok.mp h
  obtain ⟨hsource, rfl⟩ := primaryStore_ok_iff.mp hprimary
  obtain ⟨_, second, hensure, hrest⟩ := bind_ok.mp hrest
  obtain ⟨_, third, hwithdraw, hdeposit⟩ := bind_ok.mp hrest
  have hensured := ran_of_ensurePrimaryStoreExists hensure
  obtain ⟨henough, hwithdrawn⟩ := ran_of_withdrawInternal hamount hwithdraw
  have hdeposited := ran_of_depositInternal hamount hdeposit
  rw [hensured.move, balances_ensured] at henough
  exact ⟨hsource, henough, (hensured.trans hwithdrawn).trans hdeposited⟩

theorem transferEth_spec {source target : AccountAddress} {amount : U256}
    (h : transferEth meter source target amount s = (.ok (), s')) :
    Moves (balances s.move) (balances s'.move) (Payment.delta ⟨source, target, amount.toNat⟩) ∧
      s'.evm = s.evm ∧ s'.move.ethSupply = s.move.ethSupply := by
  unfold transferEth at h
  split_ifs at h with hzero
  · obtain ⟨-, rfl⟩ := pure_ok.mp h
    subst hzero
    refine ⟨?_, rfl, rfl⟩
    intro a
    simp [Payment.delta]
  · have hamount : amount.toNat ≠ 0 := toNat_ne_zero hzero
    obtain ⟨hsource, henough, hran⟩ := ran_of_transfer hamount h
    refine ⟨?_, hran.evm, ?_⟩
    · rw [hran.move]
      exact paid_moves hsource henough
    · rw [hran.move]
      unfold paid ensured
      split_ifs <;> rfl

theorem increaseSupply_ok {amount : ℕ} (h : increaseSupply meter amount s = (.ok (), s')) :
    Ran s s' (fun state => { state with ethSupply := state.ethSupply + amount }) [] := by
  obtain ⟨supply, middle, hread, hrest⟩ := bind_ok.mp h
  obtain ⟨rfl, rfl⟩ := read_ok.mp hread
  split_ifs at hrest with hoverflow
  · exact (fail_ok.mp hrest).elim
  · obtain ⟨hmove, hevents, hevm⟩ := ran_of_writeMove hrest
    exact ⟨hmove, hevents, hevm⟩

theorem mintEth_spec {target : AccountAddress} {amount : U256}
    (h : mintEth meter target amount s = (.ok (), s')) :
    Moves (balances s.move) (balances s'.move)
        (fun a => if a = target then (amount.toNat : ℤ) else 0) ∧
      s'.evm = s.evm ∧ s'.move.ethSupply = s.move.ethSupply + amount.toNat := by
  unfold mintEth at h
  split_ifs at h with hzero
  · obtain ⟨-, rfl⟩ := pure_ok.mp h
    refine ⟨fun a => ?_, rfl, ?_⟩
    · simp [hzero]
    · simp [hzero]
  · have hamount : amount.toNat ≠ 0 := toNat_ne_zero hzero
    unfold mint at h
    rw [if_neg hamount] at h
    obtain ⟨_, first, hensure, h⟩ := bind_ok.mp h
    obtain ⟨_, second, hsupply, hdeposit⟩ := bind_ok.mp h
    have hran := (ran_of_ensurePrimaryStoreExists hensure).trans (increaseSupply_ok hsupply)
    have hdeposited := ran_of_depositInternal hamount hdeposit
    have hstore : (second.move.ethStores target).isSome := by
      rw [hran.move]
      exact isSome_ensured target s.move
    have hbefore : balances second.move = balances s.move := by
      rw [hran.move]
      exact balances_ensured target s.move
    have hmoves := credit_moves amount.toNat hstore
    rw [hbefore, ← hdeposited.move] at hmoves
    refine ⟨hmoves, hdeposited.evm.trans hran.evm, ?_⟩
    rw [hdeposited.move]
    show second.move.ethSupply = _
    rw [hran.move]
    show (ensured target s.move).ethSupply + amount.toNat = _
    rw [ensured]
    split_ifs <;> rfl

theorem returnOrigin_spec {origin : AccountAddress × U256}
    (h : returnOrigin meter origin s = (.ok (), s')) :
    Moves (balances s.move) (balances s'.move)
        (Payment.delta ⟨evmNativeAddress, origin.1, origin.2.toNat⟩) ∧
      s'.evm = s.evm ∧ s'.move.ethSupply = s.move.ethSupply := by
  unfold returnOrigin at h
  split_ifs at h with hzero
  · obtain ⟨-, rfl⟩ := pure_ok.mp h
    refine ⟨?_, rfl, rfl⟩
    intro a
    simp [Payment.delta, hzero]
  · exact transferEth_spec h

/-- A successful loop of payments moves the ledger by their net. -/
theorem forEach_spec {α : Type} (payment : α → Payment AccountAddress) {body : α → Vm γ Unit}
    (hbody : ∀ item s s', body item s = (.ok (), s') →
      Moves (balances s.move) (balances s'.move) (payment item).delta ∧
        s'.evm = s.evm ∧ s'.move.ethSupply = s.move.ethSupply)
    (items : List α) (h : Act.forEach items body s = (.ok (), s')) :
    Moves (balances s.move) (balances s'.move) (net (items.map payment)) ∧
      s'.evm = s.evm ∧ s'.move.ethSupply = s.move.ethSupply := by
  induction items generalizing s with
  | nil =>
    obtain ⟨-, rfl⟩ := pure_ok.mp h
    exact ⟨Moves.refl _, rfl, rfl⟩
  | cons item items ih =>
    obtain ⟨_, middle, hitem, hrest⟩ := bind_ok.mp h
    obtain ⟨hmoves, hevm, hsupply⟩ := hbody item s middle hitem
    obtain ⟨hmoves', hevm', hsupply'⟩ := ih hrest
    refine ⟨?_, hevm'.trans hevm, hsupply'.trans hsupply⟩
    intro a
    rw [hmoves.trans hmoves' a, List.map_cons, net_cons]

/-- The payments that give the origins their value. -/
def originPayments (origins : List (AccountAddress × U256)) : List (Payment AccountAddress) :=
  origins.map fun origin => ⟨evmNativeAddress, origin.1, origin.2.toNat⟩

def transferPayments (transfers : List EthTransfer) : List (Payment AccountAddress) :=
  transfers.map fun t => ⟨t.origin, t.target, t.amount.toNat⟩

/-- Replication moves the ledger by the origins and the transfers of the log. -/
theorem replicateTransfers_spec (h : replicateTransfers meter s = (.ok (), s')) :
    Moves (balances s.move) (balances s'.move)
        (fun a => net (originPayments s.evm.transferLogs.origins) a +
          net (transferPayments s.evm.transferLogs.transfers) a) ∧
      s'.move.ethSupply = s.move.ethSupply := by
  obtain ⟨origins, taken, htake, hrest⟩ := bind_ok.mp h
  obtain ⟨_, paidBack, horigins, hrest⟩ := bind_ok.mp hrest
  obtain ⟨transfers, emptied, htake', htransfers⟩ := bind_ok.mp hrest
  unfold takeOrigins at htake
  unfold takeTransfers at htake'
  obtain ⟨horiginsEq, htaken⟩ := Prod.mk.inj htake
  obtain ⟨htransfersEq, hemptied⟩ := Prod.mk.inj htake'
  rw [Except.ok.injEq] at horiginsEq htransfersEq
  obtain ⟨hmoves, hevm, hsupply⟩ := forEach_spec
    (fun origin => ⟨evmNativeAddress, origin.1, origin.2.toNat⟩)
    (fun item s s' hitem => returnOrigin_spec hitem) origins horigins
  obtain ⟨hmoves', -, hsupply'⟩ := forEach_spec (fun t => ⟨t.origin, t.target, t.amount.toNat⟩)
    (fun item s s' hitem => transferEth_spec hitem) transfers htransfers
  rw [← hemptied] at hmoves' hsupply'
  rw [hevm, ← htaken] at htransfersEq
  rw [← htaken] at hmoves hsupply
  rw [← horiginsEq] at hmoves
  rw [← htransfersEq] at hmoves'
  exact ⟨hmoves.trans hmoves', hsupply'.trans hsupply⟩

end Success

end OpMove.EthToken
