import OpMove.SessionProgress

/-!
Failures that leave nothing behind. A session has no savepoint, so a function that fails
has to fail before its first write to leave the session as it was. For each function of
the ETH token and of the EVM this says exactly when that is: the first write is refused by
the meter, or a check before it does not hold.
-/

namespace OpMove.CleanFailures

open Primitives Transactions Errors StorageTries StateChanges NativeEvm FailingActions Sessions
open EthToken EvmModule SessionProgress

section Traces

variable {γ : Type} (env : NodeEnv γ)

/-- The Move side of a session shows nothing of what was done. -/
structure Untouched (s s' : Session γ) : Prop where
  move : s'.move = s.move
  logs : logsOf env s'.events = logsOf env s.events

/-- At most gas has been spent and the log of transfers was read. -/
structure Quiet (s s' : Session γ) : Prop where
  move : s'.move = s.move
  events : s'.events = s.events
  evmState : s'.evm.state = s.evm.state
  stateChanges : s'.evm.stateChanges = s.evm.stateChanges

/-- The condition decides whether the step from `s` to `s'` has left a trace. -/
structure Decides (clean : Prop) (s s' : Session γ) : Prop where
  quiet : clean → Quiet s s'
  touched : ¬ clean → ¬ Untouched env s s'

theorem Quiet.refl (s : Session γ) : Quiet s s := ⟨rfl, rfl, rfl, rfl⟩

variable {env}

theorem Quiet.untouched {s s' : Session γ} (h : Quiet s s') : Untouched env s s' :=
  ⟨h.move, congrArg (logsOf env) h.events⟩

theorem logsOf_append (events more : List Event) :
    logsOf env (events ++ more) = logsOf env events ++ logsOf env more :=
  List.flatMap_append

theorem not_untouched_of_event {s s' : Session γ} {event : Event}
    (h : s.events ++ [event] <+: s'.events) (hlogs : pushLogs env event ≠ []) :
    ¬ Untouched env s s' := by
  intro huntouched
  obtain ⟨rest, hrest⟩ := h
  have hlength := congrArg List.length huntouched.logs
  rw [← hrest, logsOf_append, logsOf_append] at hlength
  have hevent : logsOf env [event] = pushLogs env event := by simp [logsOf]
  rw [hevent, List.length_append, List.length_append] at hlength
  have hpositive := List.length_pos_iff.mpr hlogs
  omega

theorem not_untouched_of_store {s s' : Session γ} {a : AccountAddress}
    (h : s.move.ethStores a = none) (h' : (s'.move.ethStores a).isSome) :
    ¬ Untouched env s s' := by
  intro huntouched
  rw [huntouched.move, h] at h'
  cases h'

end Traces

section Writes

variable {γ : Type} {meter : GasMeter γ} {s : Session γ}

theorem chargeGas_accepted (s : Session γ) {charge : Charge}
    (h : (meter.charge charge s.gas).1 = true) :
    chargeGas meter charge s = (.ok (), { s with gas := (meter.charge charge s.gas).2 }) := by
  unfold chargeGas
  rcases hcharge : meter.charge charge s.gas with ⟨accepted, gas⟩
  rw [hcharge] at h
  obtain rfl : accepted = true := h
  rfl

theorem chargeGas_refused (s : Session γ) {charge : Charge}
    (h : (meter.charge charge s.gas).1 = false) :
    chargeGas meter charge s =
      (.error .outOfGas, { s with gas := (meter.charge charge s.gas).2 }) := by
  unfold chargeGas
  rcases hcharge : meter.charge charge s.gas with ⟨accepted, gas⟩
  rw [hcharge] at h
  obtain rfl : accepted = false := h
  rfl

theorem setStore_accepted {owner : AccountAddress} {store : FungibleStore}
    (h : (meter.charge .write s.gas).1 = true) :
    setStore meter owner store s = (.ok (), { s with
      move := s.move.withStore owner (some store)
      gas := (meter.charge .write s.gas).2 }) := by
  rw [setStore, writeMove, bind_of_ok (chargeGas_accepted s h)]
  rfl

theorem setStore_refused {owner : AccountAddress} {store : FungibleStore}
    (h : (meter.charge .write s.gas).1 = false) :
    setStore meter owner store s =
      (.error .outOfGas, { s with gas := (meter.charge .write s.gas).2 }) := by
  rw [setStore, writeMove, bind_of_error (chargeGas_refused s h)]

theorem quiet_gas (s : Session γ) (gas : γ) : Quiet s { s with gas := gas } := ⟨rfl, rfl, rfl, rfl⟩

theorem ensurePrimaryStoreExists_found {owner : AccountAddress}
    (h : (s.move.ethStores owner).isSome) :
    ensurePrimaryStoreExists meter owner s = (.ok (), s) := by
  rw [ensurePrimaryStoreExists, bind_read, if_pos h]
  rfl

theorem ensurePrimaryStoreExists_missing {owner : AccountAddress}
    (h : s.move.ethStores owner = none) :
    ensurePrimaryStoreExists meter owner s = setStore meter owner ⟨owner, 0, false⟩ s := by
  rw [ensurePrimaryStoreExists, bind_read, if_neg (by simp [h])]

end Writes

section Withdrawals

variable {γ : Type} {env : NodeEnv γ} {meter : GasMeter γ} {s s' : Session γ}

theorem withdrawInternal_eq {owner : AccountAddress} {amount : ℕ} {store : FungibleStore}
    (hamount : amount ≠ 0) (hstore : s.move.ethStores owner = some store) :
    withdrawInternal meter owner amount s =
      if store.balance < amount then (.error (.aborted insufficientBalance), s)
      else (setStore meter owner { store with balance := store.balance - amount } >>= fun _ =>
        emit meter (.withdraw owner amount)) s := by
  rw [withdrawInternal, bind_of_ok (borrowStore_ok_iff.mpr ⟨hstore, rfl⟩), if_neg hamount]
  split_ifs
  · rfl
  · rfl

/-- A withdrawal is clean as long as it has not written the store; whatever follows it does
not undo that. -/
theorem withdrawInternal_decides {α : Type} {owner : AccountAddress} {amount : ℕ}
    {store : FungibleStore} {rest : Vm γ α} {e : VmError} (hamount : amount ≠ 0)
    (hstore : s.move.ethStores owner = some store) (hrest : Keeps (Advances meter) rest)
    (h : (withdrawInternal meter owner amount >>= fun _ => rest) s = (.error e, s')) :
    Decides env ((meter.charge .write s.gas).1 = false ∨ store.balance < amount) s s' := by
  have heq : withdrawInternal meter owner amount s = _ := withdrawInternal_eq hamount hstore
  by_cases hpoor : store.balance < amount
  · rw [if_pos hpoor] at heq
    rw [bind_of_error heq] at h
    rw [← (Prod.mk.inj h).2]
    exact ⟨fun _ => .refl s, fun hnot => absurd (.inr hpoor) hnot⟩
  · rw [if_neg hpoor] at heq
    cases hwrite : (meter.charge .write s.gas).1 with
    | false =>
      rw [bind_of_error (setStore_refused hwrite)] at heq
      rw [bind_of_error heq] at h
      rw [← (Prod.mk.inj h).2]
      exact ⟨fun _ => quiet_gas s _, fun hnot => absurd (.inl rfl) hnot⟩
    | true =>
      refine ⟨fun hclean => ?_, fun _ => ?_⟩
      · rcases hclean with hrefused | hpoor'
        · cases hrefused
        · exact absurd hpoor' hpoor
      · rw [bind_of_ok (setStore_accepted hwrite)] at heq
        rcases bind_error.mp h with hfailed | ⟨_, middle, hwithdrawn, hlater⟩
        · -- the event could not be paid for: the balance has gone down
          rw [heq] at hfailed
          rcases bind_error.mp hfailed with hcharge | ⟨_, charged, _, hupdate⟩
          · have hmove : s'.move = s.move.withStore owner
                (some { store with balance := store.balance - amount }) := by
              unfold chargeGas at hcharge
              split at hcharge
              · cases (Prod.mk.inj hcharge).1
              · rw [← (Prod.mk.inj hcharge).2]
            intro huntouched
            have hsame := huntouched.move
            rw [hmove] at hsame
            have hat := congrArg (fun state => state.ethStores owner) hsame
            simp only [MoveState.withStore_self, hstore, Option.some.injEq] at hat
            have hbalance := congrArg FungibleStore.balance hat
            dsimp only at hbalance
            omega
          · cases hupdate
        · obtain ⟨-, hran⟩ := ran_of_withdrawInternal hamount hwithdrawn
          have hadvance := hrest middle
          rw [hlater] at hadvance
          have hevents : s.events ++ [Event.withdraw owner amount] <+: s'.events := by
            rw [← hran.events]
            exact hadvance.events
          exact not_untouched_of_event hevents (by simp [pushLogs])

end Withdrawals

section Transfers

variable {γ : Type} {env : NodeEnv γ} {meter : GasMeter γ} {s s' : Session γ}

/-- A failing transfer is clean if the sender has no store, if the first write is refused, or
if the sender is too poor and nothing had to be created for the receiver. -/
def TransferFailsCleanly (meter : GasMeter γ) (state : MoveState) (gas : γ)
    (source target : AccountAddress) (amount : ℕ) : Prop :=
  state.ethStores source = none ∨ (meter.charge .write gas).1 = false ∨
    ((state.ethStores target).isSome ∧ balances state source < amount)

/-- A store that was created stays, whatever follows. -/
theorem ensure_decides {α : Type} {owner : AccountAddress} {rest : Vm γ α} {e : VmError}
    (hmissing : s.move.ethStores owner = none) (hrest : Keeps (Advances meter) rest)
    (h : (ensurePrimaryStoreExists meter owner >>= fun _ => rest) s = (.error e, s')) :
    Decides env ((meter.charge .write s.gas).1 = false) s s' := by
  have heq : ensurePrimaryStoreExists meter owner s = _ := ensurePrimaryStoreExists_missing hmissing
  cases hwrite : (meter.charge .write s.gas).1 with
  | false =>
    rw [setStore_refused hwrite] at heq
    rw [bind_of_error heq] at h
    rw [← (Prod.mk.inj h).2]
    exact ⟨fun _ => quiet_gas s _, fun hnot => absurd rfl hnot⟩
  | true =>
    rw [setStore_accepted hwrite] at heq
    rw [bind_of_ok heq] at h
    refine ⟨fun hclean => (by cases hclean), fun _ => ?_⟩
    have hadvance := hrest { s with
      move := s.move.withStore owner (some ⟨owner, 0, false⟩)
      gas := (meter.charge .write s.gas).2 }
    rw [h] at hadvance
    exact not_untouched_of_store hmissing (hadvance.stores owner (by simp))

theorem Decides.congr {clean clean' : Prop} (h : Decides env clean s s') (hiff : clean' ↔ clean) :
    Decides env clean' s s' :=
  ⟨fun hclean => h.quiet (hiff.mp hclean), fun hnot => h.touched (fun hclean => hnot (hiff.mpr hclean))⟩

/-- The condition decides about a failure in the transfer or in anything that follows. -/
theorem transfer_decides {α : Type} {source target : AccountAddress} {amount : ℕ}
    {rest : Vm γ α} {e : VmError} (hamount : amount ≠ 0) (hrest : Keeps (Advances meter) rest)
    (h : (transfer meter source target amount >>= fun _ => rest) s = (.error e, s')) :
    Decides env (TransferFailsCleanly meter s.move s.gas source target amount) s s' := by
  have hwrites := writesKeep_advances (paidBy_refl meter)
  have hdeposit : Keeps (Advances meter) (depositInternal meter target amount >>= fun _ => rest) :=
    Keeps.bind (hwrites.depositInternal target amount) fun _ => hrest
  rw [transfer, bind_assoc] at h
  simp only [bind_assoc] at h
  cases hsource : s.move.ethStores source with
  | none =>
    have hprimary : primaryStore source s = (.error (.aborted objectDoesNotExist), s) := by
      rw [primaryStore, bind_read, if_neg (by simp [hsource])]
      rfl
    rw [bind_of_error hprimary] at h
    rw [← (Prod.mk.inj h).2]
    exact ⟨fun _ => .refl s, fun hnot => absurd (.inl hsource) hnot⟩
  | some store =>
    have hbalance : balances s.move source = store.balance := by
      simp [balances, hsource]
    have hprimary : primaryStore source s = (.ok (), s) :=
      primaryStore_ok_iff.mpr ⟨by simp [hsource], rfl⟩
    rw [bind_of_ok hprimary] at h
    cases htarget : s.move.ethStores target with
    | none =>
      have hlater := Keeps.bind (hwrites.withdrawInternal source amount) fun _ => hdeposit
      refine (ensure_decides htarget hlater h).congr ?_
      simp [TransferFailsCleanly, hsource, htarget]
    | some receiver =>
      rw [bind_of_ok (ensurePrimaryStoreExists_found (by simp [htarget]))] at h
      refine (withdrawInternal_decides hamount hsource hdeposit h).congr ?_
      simp [TransferFailsCleanly, hsource, htarget, hbalance]

theorem transferEth_decides {α : Type} {source target : AccountAddress} {amount : U256}
    {rest : Vm γ α} {e : VmError} (hamount : amount ≠ 0) (hrest : Keeps (Advances meter) rest)
    (h : (transferEth meter source target amount >>= fun _ => rest) s = (.error e, s')) :
    Decides env (TransferFailsCleanly meter s.move s.gas source target amount.toNat) s s' := by
  rw [transferEth, if_neg hamount] at h
  exact transfer_decides (toNat_ne_zero hamount) hrest h

end Transfers

section Replication

variable {γ : Type} {env : NodeEnv γ} {meter : GasMeter γ} {s s' : Session γ}

/-- The first transfer of some amount decides for all of them. -/
def TransfersFailCleanly (meter : GasMeter γ) (state : MoveState) (gas : γ)
    (transfers : List EthTransfer) : Prop :=
  ∀ t, transfers.find? (fun t => t.amount ≠ 0) = some t →
    TransferFailsCleanly meter state gas t.origin t.target t.amount.toNat

theorem forEach_transferEth_decides {transfers : List EthTransfer} {e : VmError}
    (h : Act.forEach transfers (fun t => transferEth meter t.origin t.target t.amount) s =
      (.error e, s')) :
    Decides env (TransfersFailCleanly meter s.move s.gas transfers) s s' := by
  induction transfers with
  | nil => exact (pure_error.mp h).elim
  | cons t transfers ih =>
    change (transferEth meter t.origin t.target t.amount >>= fun _ =>
      Act.forEach transfers fun t => transferEth meter t.origin t.target t.amount) s = _ at h
    by_cases hzero : t.amount = 0
    · have hskip : transferEth meter t.origin t.target t.amount s = (.ok (), s) := by
        rw [transferEth, if_pos hzero]
        rfl
      rw [bind_of_ok hskip] at h
      refine (ih h).congr ?_
      simp [TransfersFailCleanly, hzero]
    · have hrest : Keeps (Advances meter)
          (Act.forEach transfers fun t => transferEth meter t.origin t.target t.amount) :=
        Keeps.forEach transfers fun t => (writesKeep_advances (paidBy_refl meter)).transferEth _ _ _
      have hfirst : (t :: transfers).find? (fun t => t.amount ≠ 0) = some t :=
        List.find?_cons_of_pos (by simpa using hzero)
      refine (transferEth_decides hzero hrest h).congr ?_
      simp only [TransfersFailCleanly, hfirst, Option.some.injEq, forall_eq']

theorem forEach_returnOrigin_zero {origins : List (AccountAddress × U256)}
    (h : ∀ origin ∈ origins, origin.2 = 0) :
    Act.forEach origins (returnOrigin meter) s = (.ok (), s) := by
  induction origins with
  | nil => rfl
  | cons origin origins ih =>
    have hskip : returnOrigin meter origin s = (.ok (), s) := by
      rw [returnOrigin, if_pos (h origin List.mem_cons_self)]
      rfl
    change (returnOrigin meter origin >>= fun _ => Act.forEach origins (returnOrigin meter)) s = _
    rw [bind_of_ok hskip]
    exact ih fun other hother => h other (List.mem_cons_of_mem origin hother)

/-- Replication where no origin has anything to get back. -/
theorem replicateTransfers_decides {e : VmError}
    (horigins : ∀ origin ∈ s.evm.transferLogs.origins, origin.2 = 0)
    (h : replicateTransfers meter s = (.error e, s')) :
    Decides env (TransfersFailCleanly meter s.move s.gas s.evm.transferLogs.transfers) s s' := by
  have htake : takeOrigins s = (.ok s.evm.transferLogs.origins, { s with
      evm := { s.evm with transferLogs := { s.evm.transferLogs with origins := [] } } }) := rfl
  rw [replicateTransfers, bind_of_ok htake,
    bind_of_ok (forEach_returnOrigin_zero horigins)] at h
  obtain ⟨hquiet, htouched⟩ : Decides env _ _ s' := forEach_transferEth_decides h
  refine ⟨fun hclean => ?_, fun hnot huntouched => ?_⟩
  · obtain ⟨hmove, hevents, hstate, hchanges⟩ := hquiet hclean
    exact ⟨hmove, hevents, hstate, hchanges⟩
  · exact htouched hnot ⟨huntouched.move, huntouched.logs⟩

theorem replicateTransfers_empty (h : s.evm.transferLogs = ⟨[], []⟩) :
    replicateTransfers meter s = (.ok (), s) := by
  rcases s with ⟨move, events, ⟨state, hashByNumber, blockHeader, cache, changes, logs⟩, gas⟩
  obtain rfl : logs = ⟨[], []⟩ := h
  rfl

end Replication

section EvmState

variable {γ : Type} (env : NodeEnv γ)

/-- Every account, every code and every slot is as it was. -/
structure EvmSame (lib : TrieLibrary) (before after : EvmState) : Prop where
  resources : ∀ key, after.resources key = before.resources key
  slots : ∀ a, (after.tries a).read lib = (before.tries a).read lib

/-- Nothing is changed by what is extracted from the state maps. -/
def EvmKept (state : EvmState) (maps : List StateMap) : Prop :=
  ∀ changes, extractEvmChanges env.lib env.keccak256 state maps = some changes →
    EvmSame env.lib state (applyChanges state changes)

/-- A step that cannot be seen in the state or in the logs. -/
structure NoTrace (s s' : Session γ) : Prop extends Untouched env s s' where
  evm : ∀ changes, evmChangesOf env s' = some changes →
    EvmSame env.lib s.evm.state (applyChanges s.evm.state changes)

variable {env}

theorem evmKept_nil (state : EvmState) : EvmKept env state [] := by
  intro changes h
  obtain rfl : (⟨∅, ∅⟩ : Changes) = changes := Option.some.inj h
  exact ⟨fun _ => rfl, fun _ => rfl⟩

/-- With the Move side settled, the state maps decide. -/
theorem noTrace_iff_evmKept {s s' : Session γ} (h : Untouched env s s')
    (hstate : s'.evm.state = s.evm.state) :
    NoTrace env s s' ↔ EvmKept env s.evm.state s'.evm.stateChanges := by
  have hextract : evmChangesOf env s' =
      extractEvmChanges env.lib env.keccak256 s.evm.state s'.evm.stateChanges := by
    rw [evmChangesOf, hstate]
  constructor
  · intro hnoTrace changes hchanges
    exact hnoTrace.evm changes (hextract.trans hchanges)
  · intro hkept
    exact ⟨h, fun changes hchanges => hkept changes (hextract.symm.trans hchanges)⟩

theorem Decides.noTrace_iff {clean : Prop} {s s' : Session γ} (h : Decides env clean s s')
    (hchanges : s.evm.stateChanges = []) : NoTrace env s s' ↔ clean := by
  constructor
  · intro hnoTrace
    by_contra hnot
    exact h.touched hnot hnoTrace.toUntouched
  · intro hclean
    have hquiet := h.quiet hclean
    rw [noTrace_iff_evmKept hquiet.untouched hquiet.evmState, hquiet.stateChanges, hchanges]
    exact evmKept_nil s.evm.state

end EvmState

section EvmCalls

variable {γ X : Type} {env : NodeEnv γ} {revm : Revm X} {s s' : Session γ}

/-- A failing payment is clean if the first write is refused, or if the caller has a store
that it may not or cannot pay from. -/
def PaymentFailsCleanly (meter : GasMeter γ) (state : MoveState) (gas : γ)
    (caller : AccountAddress) (value : ℕ) : Prop :=
  (meter.charge .write gas).1 = false ∨ ∃ store, state.ethStores caller = some store ∧
    (store.owner ≠ caller ∨ store.frozen = true ∨ store.balance < value)

theorem withdrawPayment_decides {α : Type} {meter : GasMeter γ} {caller : AccountAddress}
    {value : U256} {rest : U256 → Vm γ α} {e : VmError} (hvalue : value ≠ 0)
    (hrest : ∀ payment, Keeps (Advances meter) (rest payment))
    (h : (withdrawPayment meter caller value >>= rest) s = (.error e, s')) :
    Decides env (PaymentFailsCleanly meter s.move s.gas caller value.toNat) s s' := by
  have hwrites := writesKeep_advances (paidBy_refl meter)
  have hlater : Keeps (Advances meter) ((pure value : Vm γ U256) >>= rest) :=
    Keeps.bind (Keeps.pure value) hrest
  rw [withdrawPayment, if_neg hvalue] at h
  simp only [bind_assoc] at h
  cases hstore : s.move.ethStores caller with
  | none =>
    refine (ensure_decides hstore (Keeps.bind (keeps_withdrawSanityCheck caller) fun _ =>
      Keeps.bind (hwrites.withdrawInternal caller _) fun _ => hlater) h).congr ?_
    simp [PaymentFailsCleanly, hstore]
  | some store =>
    rw [bind_of_ok (ensurePrimaryStoreExists_found (by simp [hstore]))] at h
    have hcheck : withdrawSanityCheck caller s =
        if store.owner ≠ caller then (.error (.aborted notStoreOwner), s)
        else if store.frozen then (.error (.aborted storeIsFrozen), s) else (.ok (), s) := by
      rw [withdrawSanityCheck, bind_of_ok (borrowStore_ok_iff.mpr ⟨hstore, rfl⟩)]
      split_ifs <;> rfl
    split_ifs at hcheck with howner hfrozen
    · rw [bind_of_error hcheck] at h
      rw [← (Prod.mk.inj h).2]
      exact ⟨fun _ => .refl s, fun hnot => absurd (.inr ⟨store, hstore, .inl howner⟩) hnot⟩
    · rw [bind_of_error hcheck] at h
      rw [← (Prod.mk.inj h).2]
      exact ⟨fun _ => .refl s, fun hnot => absurd (.inr ⟨store, hstore, .inr (.inl hfrozen)⟩) hnot⟩
    · rw [bind_of_ok hcheck] at h
      refine (withdrawInternal_decides (toNat_ne_zero hvalue) hstore hlater h).congr ?_
      simp [PaymentFailsCleanly, hstore, hfrozen, not_not.mp howner]

theorem evmTransactWithNative_error {lib : TrieLibrary} {ctx ctx' : NativeEVMContext}
    {args : CallArgs} {e : EVMError} (h : evmTransactWithNative revm lib ctx args = (.error e, ctx')) :
    ctx'.state = ctx.state ∧ ctx'.stateChanges = ctx.stateChanges := by
  unfold evmTransactWithNative at h
  dsimp only at h
  split at h
  · rw [← (Prod.mk.inj h).2]
    exact ⟨rfl, rfl⟩
  · cases (Prod.mk.inj h).1

theorem evmTransactWithNative_ok {lib : TrieLibrary} {ctx ctx' : NativeEVMContext}
    {args : CallArgs} {outcome : ResultAndState}
    (h : evmTransactWithNative revm lib ctx args = (.ok outcome, ctx')) :
    ctx'.state = ctx.state ∧ ctx'.stateChanges = ctx.stateChanges ++ [outcome.state] ∧
      ctx'.transferLogs.origins =
        ctx.transferLogs.origins ++ [(toMoveAddress args.caller, args.value)] := by
  obtain ⟨machine, _, _, -, -, hlogs⟩ := finished_of_transact revm lib h
  unfold evmTransactWithNative at h
  dsimp only at h
  split at h
  · cases (Prod.mk.inj h).1
  · refine ⟨?_, ?_, ?_⟩
    · rw [← (Prod.mk.inj h).2]
    · rw [← (Prod.mk.inj h).2, Except.ok.inj (Prod.mk.inj h).1]
    · rw [hlogs]
      rfl

/-- After a successful run a failure is clean if the run has no logs and no transfer that
gets through, or if there is not enough gas to pay for the run and its logs. -/
def LaterFailsCleanly (meter : GasMeter γ) (state : MoveState) (gas : γ)
    (result : ExecutionResult) (transfers : List EthTransfer) : Prop :=
  let charged := meter.charge (.execution (evmGasUsed (gasUsed result))) gas
  let emitted := meter.charge .emit charged.2
  (evmResultToMoveValue result).isSuccess = true → charged.1 = true → emitted.1 = true →
    (evmResultToMoveValue result).logs = [] ∧
      TransfersFailCleanly meter state emitted.2 transfers

/-- A failing call without value is clean if the EVM stops with an error, or if its state
map changes nothing and what follows fails cleanly. -/
def RunFailsCleanly (env : NodeEnv γ) (revm : Revm X) (s : Session γ) (caller : AccountAddress)
    (transactTo : TxKind) (data : Bytes) : Prop :=
  match evmTransactWithNative revm env.lib s.evm
    (callArgs env.meter s caller transactTo 0 data) with
  | (.error _, _) => True
  | (.ok outcome, ctx) => EvmKept env s.evm.state [outcome.state] ∧
      LaterFailsCleanly env.meter s.move s.gas outcome.result ctx.transferLogs.transfers

def EvmFailsCleanly (env : NodeEnv γ) (revm : Revm X) (s : Session γ) (caller : AccountAddress)
    (transactTo : TxKind) (value : U256) (data : Bytes) : Prop :=
  if value = 0 then RunFailsCleanly env revm s caller transactTo data
  else PaymentFailsCleanly env.meter s.move s.gas caller value.toNat

/-- What is left to do once the EVM has run. -/
def finishRun (meter : GasMeter γ) (result : ExecutionResult) (failed : ℕ) : Vm γ Unit := do
  chargeGas meter (.execution (evmGasUsed (gasUsed result)))
  if (evmResultToMoveValue result).isSuccess then do
    emit meter (.evmLogs (evmResultToMoveValue result).logs)
    replicateTransfers meter
  else abort failed

/-- A call without value is the run of the EVM and what is left to do after it. -/
theorem systemEvmTransact_zero {caller : AccountAddress} {transactTo : TxKind} {data : Bytes}
    {failed : ℕ} : (systemEvmTransact env.meter revm env.lib caller transactTo 0 data failed >>=
        fun _ => replicateTransfers env.meter) s =
      match evmTransactWithNative revm env.lib s.evm
        (callArgs env.meter s caller transactTo 0 data) with
      | (.error e, ctx) => (.error (evmError e), { s with evm := ctx })
      | (.ok outcome, ctx) => finishRun env.meter outcome.result failed { s with evm := ctx } := by
  have hpayment : withdrawPayment env.meter caller 0 s = (.ok 0, s) := rfl
  have hasset : getAssetValue env.meter 0 s = (.ok 0, s) := rfl
  have hbranch : ∀ result : EvmNativeOutcome, ((if result.isSuccess then do
      emitEvmLogs env.meter result
      pure result
    else abort failed : Vm γ EvmNativeOutcome) >>= fun _ => replicateTransfers env.meter) =
      if result.isSuccess then do
        emit env.meter (.evmLogs result.logs)
        replicateTransfers env.meter
      else abort failed := by
    intro result
    split_ifs
    · rw [bind_assoc]
      rfl
    · rfl
  simp only [systemEvmTransact, evmTransact, bind_assoc, hbranch]
  rw [bind_of_ok hpayment, bind_of_ok hasset]
  rcases hrun : evmTransactWithNative revm env.lib s.evm
    (callArgs env.meter s caller transactTo 0 data) with ⟨e | outcome, ctx⟩
  · rw [bind_of_error (nativeEvmTransact_of_error hrun)]
  · rw [bind_congr_at (nativeEvmTransact_of_ok hrun), bind_assoc]
    rfl

/-- Where a session stops before replication, the state map decides alone. -/
theorem stopped_noTrace_iff {map : StateMap} {ctx : NativeEVMContext} {gas : γ}
    (hstate : ctx.state = s.evm.state) (hchanges : ctx.stateChanges = [map])
    (h : s' = { s with evm := ctx, gas := gas }) :
    NoTrace env s s' ↔ EvmKept env s.evm.state [map] := by
  subst h
  have huntouched : Untouched env s { s with evm := ctx, gas := gas } := ⟨rfl, rfl⟩
  rw [← hchanges]
  exact noTrace_iff_evmKept huntouched hstate

/-- Where replication fails, the logs and the transfers decide as well. -/
theorem replicated_noTrace_iff {map : StateMap} {ctx : NativeEVMContext} {gas : γ}
    {logs : List Log} {e : VmError} (hstate : ctx.state = s.evm.state)
    (hchanges : ctx.stateChanges = [map])
    (horigins : ∀ origin ∈ ctx.transferLogs.origins, origin.2 = 0)
    (h : replicateTransfers env.meter
      { s with events := s.events ++ [.evmLogs logs], evm := ctx, gas := gas } = (.error e, s')) :
    NoTrace env s s' ↔ EvmKept env s.evm.state [map] ∧
      logs = [] ∧ TransfersFailCleanly env.meter s.move gas ctx.transferLogs.transfers := by
  have hdecides : Decides env (TransfersFailCleanly env.meter s.move gas
    ctx.transferLogs.transfers) _ s' := replicateTransfers_decides horigins h
  have hadvance := (writesKeep_advances (paidBy_refl env.meter)).replicateTransfers
    { s with events := s.events ++ [.evmLogs logs], evm := ctx, gas := gas }
  rw [h] at hadvance
  by_cases hlogs : logs = []
  · have hnoLogs : logsOf env (s.events ++ [.evmLogs logs]) = logsOf env s.events := by
      rw [logsOf_append, hlogs]
      simp [logsOf, pushLogs]
    by_cases hclean : TransfersFailCleanly env.meter s.move gas ctx.transferLogs.transfers
    · obtain ⟨hmove, hevents, hevmState, hstateChanges⟩ := hdecides.quiet hclean
      have huntouched : Untouched env s s' := by
        refine ⟨hmove, ?_⟩
        rw [hevents]
        exact hnoLogs
      rw [noTrace_iff_evmKept huntouched (hevmState.trans hstate), hstateChanges, hchanges]
      exact ⟨fun hkept => ⟨hkept, hlogs, hclean⟩, fun hall => hall.1⟩
    · constructor
      · intro hnoTrace
        refine absurd ?_ (hdecides.touched hclean)
        exact ⟨hnoTrace.move, hnoTrace.logs.trans hnoLogs.symm⟩
      · intro hall
        exact absurd hall.2.2 hclean
  · constructor
    · intro hnoTrace
      exact absurd hnoTrace.toUntouched (not_untouched_of_event hadvance.events hlogs)
    · intro hall
      exact absurd hall.2.1 hlogs

/-- The condition decides about a failure after the run of the EVM. -/
theorem finishRun_noTrace_iff {outcome : ResultAndState} {ctx : NativeEVMContext} {failed : ℕ}
    {e : VmError} (hstate : ctx.state = s.evm.state) (hchanges : ctx.stateChanges = [outcome.state])
    (horigins : ∀ origin ∈ ctx.transferLogs.origins, origin.2 = 0)
    (h : finishRun env.meter outcome.result failed { s with evm := ctx } = (.error e, s')) :
    NoTrace env s s' ↔ EvmKept env s.evm.state [outcome.state] ∧
      LaterFailsCleanly env.meter s.move s.gas outcome.result ctx.transferLogs.transfers := by
  have hstopped : ∀ gas, s' = { s with evm := ctx, gas := gas } →
      (NoTrace env s s' ↔ EvmKept env s.evm.state [outcome.state]) :=
    fun gas => stopped_noTrace_iff hstate hchanges
  rw [finishRun] at h
  unfold LaterFailsCleanly
  dsimp only
  set charge := Charge.execution (evmGasUsed (gasUsed outcome.result))
  cases hcharged : (env.meter.charge charge s.gas).1 with
  | false =>
    rw [bind_of_error (chargeGas_refused { s with evm := ctx } hcharged)] at h
    rw [hstopped _ (Prod.mk.inj h).2.symm]
    simp
  | true =>
    rw [bind_of_ok (chargeGas_accepted { s with evm := ctx } hcharged)] at h
    cases hsuccess : (evmResultToMoveValue outcome.result).isSuccess with
    | false =>
      rw [if_neg (by simp [hsuccess])] at h
      rw [hstopped _ (fail_error.mp h).2.symm]
      simp
    | true =>
      rw [if_pos hsuccess, emit, bind_assoc] at h
      set paidRun : Session γ :=
        { s with evm := ctx, gas := (env.meter.charge charge s.gas).2 }
      cases hemitted : (env.meter.charge .emit (env.meter.charge charge s.gas).2).1 with
      | false =>
        rw [bind_of_error (chargeGas_refused paidRun hemitted)] at h
        rw [hstopped _ (Prod.mk.inj h).2.symm]
        simp
      | true =>
        rw [bind_of_ok (chargeGas_accepted paidRun hemitted), bind_of_ok (update_ok.mpr rfl)] at h
        rw [replicated_noTrace_iff hstate hchanges horigins h]
        simp [paidRun]

/-- When a failing EVM payload leaves no trace. -/
theorem evm_noTrace_iff {caller : AccountAddress} {transactTo : TxKind} {value : U256}
    {data : Bytes} {failed : ℕ} {e : VmError} (hlogs : s.evm.transferLogs = ⟨[], []⟩)
    (hchanges : s.evm.stateChanges = [])
    (h : (systemEvmTransact env.meter revm env.lib caller transactTo value data failed >>=
      fun _ => replicateTransfers env.meter) s = (.error e, s')) :
    NoTrace env s s' ↔ EvmFailsCleanly env revm s caller transactTo value data := by
  unfold EvmFailsCleanly
  split_ifs with hvalue
  · subst hvalue
    rw [systemEvmTransact_zero] at h
    unfold RunFailsCleanly
    rcases hrun : evmTransactWithNative revm env.lib s.evm
      (callArgs env.meter s caller transactTo 0 data) with ⟨e' | outcome, ctx⟩
    · obtain ⟨hstate, hsame⟩ := evmTransactWithNative_error hrun
      rw [hrun] at h
      have hquiet : Quiet s s' := by
        rw [← (Prod.mk.inj h).2]
        exact ⟨rfl, rfl, hstate, hsame⟩
      have hdecides : Decides env True s s' :=
        ⟨fun _ => hquiet, fun hnot => absurd trivial hnot⟩
      exact hdecides.noTrace_iff hchanges
    · obtain ⟨hstate, hpushed, horigins⟩ := evmTransactWithNative_ok hrun
      rw [hrun] at h
      rw [hchanges, List.nil_append] at hpushed
      rw [hlogs] at horigins
      refine finishRun_noTrace_iff hstate hpushed ?_ h
      intro origin horigin
      rw [horigins] at horigin
      rw [List.mem_singleton.mp horigin]
      rfl
  · rw [systemEvmTransact, bind_assoc] at h
    refine (withdrawPayment_decides hvalue (fun payment => ?_) h).noTrace_iff hchanges
    have hwrites := writesKeep_advances (paidBy_refl env.meter)
    refine Keeps.bind (Keeps.bind ?_ fun result => ?_) fun _ => hwrites.replicateTransfers
    · exact Keeps.bind (hwrites.getAssetValue payment) fun asset =>
        hwrites.nativeEvmTransact revm env.lib caller transactTo asset data
    · exact Keeps.ite (Keeps.bind (hwrites.emit _) fun _ => Keeps.pure result) (Keeps.fail _)

end EvmCalls

end OpMove.CleanFailures
