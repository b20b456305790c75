import OpMove.EvmModule
import OpMove.Extraction
import OpMove.JournaledBalances
import Mathlib.Algebra.Order.BigOperators.Group.List

/-!
The two ETH ledgers. The EVM moves ETH in its own accounts, and the Move ledger follows:
the caller pays the EVM native account, and replication pays the origins back and then
repeats the transfers found in the journals. Entries of destroyed accounts move ETH too,
but replication does not know them.
-/

namespace OpMove.LedgerMirror

open Primitives Transactions StorageTries NativeEvm FailingActions Sessions EthToken EvmModule
open Payments JournaledBalances

section Journals

def journalEntry : JournalEntry → Entry Address
  | .balanceTransfer origin target balance => .transfer origin target balance.toNat
  | .accountDestroyed address target _ hadBalance => .destroyed address target hadBalance.toNat
  | .accountCreated address => .created address
  | .other => .other

/-- The EVM library with the balances before and after the execution of a machine; its
journal is one that the journaled operations can leave. -/
structure LedgerRevm (X : Type) extends Revm X where
  before : X → Address → ℕ
  after : X → Address → ℕ
  journaled : ∀ machine, ∃ operations, Journaled.run ⟨before machine, [[]]⟩ operations =
    some ⟨after machine, (journal machine).map fun entries => entries.map journalEntry⟩

def entryPayment : JournalEntry → Option (Payment Address)
  | .balanceTransfer origin target balance => some ⟨origin, target, balance.toNat⟩
  | _ => none

/-- The transfers of a journal as payments. -/
def journalPayments (journal : List (List JournalEntry)) : List (Payment Address) :=
  journal.flatten.filterMap entryPayment

/-- What the entry of a destroyed account moves. -/
def destroyedDelta (a : Address) : JournalEntry → ℤ
  | .accountDestroyed address target wasDestroyed hadBalance =>
    (journalEntry (.accountDestroyed address target wasDestroyed hadBalance)).delta a
  | _ => 0

def destroyedNet (journal : List (List JournalEntry)) (a : Address) : ℤ :=
  (journal.flatten.map (destroyedDelta a)).sum

theorem transferPayments_journalTransfers (journal : List (List JournalEntry)) :
    transferPayments (journalTransfers journal) =
      (journalPayments journal).map (Payment.map toMoveAddress) := by
  unfold journalTransfers journalPayments transferPayments
  rw [List.flatMap_def, ← List.filterMap_flatten, List.map_filterMap, List.map_filterMap]
  congr 1
  funext entry
  cases entry <;> rfl

/-- An entry is a transfer, destroys an account, or moves nothing. -/
theorem delta_journalEntry (entry : JournalEntry) (a : Address) :
    (journalEntry entry).delta a =
      ((entryPayment entry).elim 0 fun p => p.delta a) + destroyedDelta a entry := by
  cases entry <;> simp [journalEntry, Entry.delta, entryPayment, destroyedDelta]

theorem netEntries_journal (journal : List (List JournalEntry)) (a : Address) :
    netEntries (journal.map fun entries => entries.map journalEntry).flatten a =
      net (journalPayments journal) a + destroyedNet journal a := by
  unfold journalPayments destroyedNet
  rw [← List.map_flatten]
  induction journal.flatten with
  | nil => rfl
  | cons entry entries ih =>
    unfold netEntries at ih ⊢
    rw [List.map_cons, List.map_cons, List.sum_cons, ih, List.map_cons, List.sum_cons,
      delta_journalEntry]
    cases hpayment : entryPayment entry with
    | none =>
      rw [List.filterMap_cons_none hpayment, Option.elim_none]
      ring
    | some p =>
      rw [List.filterMap_cons_some hpayment, net_cons, Option.elim_some]
      ring

variable {X : Type} (revm : LedgerRevm X)

/-- Inside the EVM, ETH moves by the transfers and by the destroyed accounts. -/
theorem LedgerRevm.moves (machine : X) (a : Address) :
    (revm.after machine a : ℤ) - revm.before machine a =
      net (journalPayments (revm.journal machine)) a + destroyedNet (revm.journal machine) a := by
  obtain ⟨operations, hrun⟩ := revm.journaled machine
  rw [(moves_of_run operations hrun).sub_eq a, netEntries_journal]

end Journals

section Runs

variable {γ X : Type} (meter : GasMeter γ) (revm : LedgerRevm X) (lib : TrieLibrary)

/-- One EVM run of a session: who paid which value, and the machine it ended with. -/
structure EvmRun (X : Type) where
  payer : AccountAddress
  value : U256
  machine : X

/-- A session with what its payments have changed so far and the EVM runs so far. -/
structure LedgerState (γ X : Type) where
  session : Session γ
  paidSoFar : AccountAddress → ℤ
  runs : List (EvmRun X)

/-- States of a session: calls of the EVM, each behind a payment of the caller, with any
other work of the Move VM in between. -/
inductive Reached : LedgerState γ X → Prop
  | start (session : Session γ) (hlogs : session.evm.transferLogs = ⟨[], []⟩) :
    Reached ⟨session, fun _ => 0, []⟩
  | other {state : LedgerState γ X} (session : Session γ) :
    Reached state → session.evm = state.session.evm → Reached { state with session := session }
  | call {state : LedgerState γ X} (payer : AccountAddress) (transactTo : TxKind)
      (value asset amount : U256) (data : Bytes) (withdrawn paidIn called : Session γ)
      (result : EvmNativeOutcome) (machine : X) :
    Reached state →
    withdrawPayment meter payer value state.session = (.ok asset, withdrawn) →
    getAssetValue meter asset withdrawn = (.ok amount, paidIn) →
    nativeEvmTransact meter revm.toRevm lib payer transactTo amount data paidIn =
      (.ok result, called) →
    machineOf revm.toRevm lib paidIn.evm (callArgs meter paidIn payer transactTo amount data) =
      some machine →
    Reached {
      session := called
      paidSoFar a := state.paidSoFar a +
        ((balances paidIn.move a : ℤ) - balances state.session.move a)
      runs := state.runs ++ [⟨payer, amount, machine⟩] }

/-- An Ethereum address behind twelve zero bytes. -/
def isEthShaped (a : AccountAddress) : Prop := toMoveAddress (toEthAddress a) = a

instance (a : AccountAddress) : Decidable (isEthShaped a) :=
  inferInstanceAs (Decidable (toMoveAddress (toEthAddress a) = a))

theorem isEthShaped_toMoveAddress (a : Address) : isEthShaped (toMoveAddress a) := by
  rw [isEthShaped, toEthAddress_toMoveAddress]

def paymentOf (run : EvmRun X) : Payment AccountAddress :=
  ⟨run.payer, evmNativeAddress, run.value.toNat⟩

def originOf (run : EvmRun X) : AccountAddress × U256 :=
  (toMoveAddress (toEthAddress run.payer), run.value)

/-- What a reached state knows about its payments and its log. -/
structure Logged (state : LedgerState γ X) : Prop where
  paid : ∀ a, state.paidSoFar a = net (state.runs.map paymentOf) a
  origins : state.session.evm.transferLogs.origins = state.runs.map originOf
  transfers : state.session.evm.transferLogs.transfers =
    state.runs.flatMap fun run => journalTransfers (revm.journal run.machine)

theorem logged_of_reached {state : LedgerState γ X} (h : Reached meter revm lib state) :
    Logged revm state := by
  induction h with
  | start session hlogs => exact ⟨fun a => rfl, by rw [hlogs]; rfl, by rw [hlogs]; rfl⟩
  | other session _ hevm ih =>
    exact ⟨ih.paid, by rw [hevm]; exact ih.origins, by rw [hevm]; exact ih.transfers⟩
  | @call state payer transactTo value asset amount data withdrawn paidIn called result machine
      _ hwithdraw hpay hcall hmachine ih =>
    obtain ⟨rfl, hevm, hmoves⟩ := withdrawPayment_spec hwithdraw
    obtain ⟨rfl, hevm', hmoves'⟩ := getAssetValue_spec hpay
    obtain ⟨outcome, htransact, -, -, -⟩ := nativeEvmTransact_spec hcall
    obtain ⟨machine', _, _, hmachine', -, hlogs⟩ := finished_of_transact _ _ htransact
    rw [hmachine, Option.some.injEq] at hmachine'
    subst hmachine'
    rw [hevm'.trans hevm] at hlogs
    refine ⟨fun a => ?_, ?_, ?_⟩
    · dsimp only
      rw [(hmoves.trans hmoves').sub_eq a, ih.paid a, List.map_append, net_append]
      simp only [List.map_cons, List.map_nil, net_cons, net_nil, paymentOf, Payment.delta]
      ring
    · rw [hlogs]
      simp only [EthTransfersLogger.pushTransfers, EthTransfersLogger.addTxOrigin, ih.origins,
        List.map_append]
      rfl
    · rw [hlogs]
      simp only [EthTransfersLogger.pushTransfers, EthTransfersLogger.addTxOrigin, ih.transfers,
        List.flatMap_append]
      simp

/-- What the payments and the replication changed in the Move ledger. -/
def moveNet (state : LedgerState γ X) (replicated : Session γ) (a : AccountAddress) : ℤ :=
  state.paidSoFar a + ((balances replicated.move a : ℤ) - balances state.session.move a)

/-- What the runs changed in the accounts of the EVM. -/
def evmNet (runs : List (EvmRun X)) (a : Address) : ℤ :=
  (runs.map fun run => (revm.after run.machine a : ℤ) - revm.before run.machine a).sum

/-- Only Ethereum addresses have an account inside the EVM. -/
def evmNetAt (runs : List (EvmRun X)) (a : AccountAddress) : ℤ :=
  if isEthShaped a then evmNet revm runs (toEthAddress a) else 0

/-- The Move ledger has followed the EVM, and the payments that went through the EVM native
account have all left it. -/
def Mirrors (state : LedgerState γ X) (replicated : Session γ) : Prop :=
  (∀ a, moveNet state replicated a = evmNetAt revm state.runs a) ∧
    state.paidSoFar evmNativeAddress +
      net (originPayments state.session.evm.transferLogs.origins) evmNativeAddress = 0

def destroyedNetOf (runs : List (EvmRun X)) (a : Address) : ℤ :=
  (runs.map fun run => destroyedNet (revm.journal run.machine) a).sum

/-- Every payer of a value has an Ethereum address, and the destroyed accounts leave no
account with more or less ETH. -/
def Mirrorable (runs : List (EvmRun X)) : Prop :=
  (∀ run ∈ runs, run.value = 0 ∨ isEthShaped run.payer) ∧ ∀ a, destroyedNetOf revm runs a = 0

/-- What an account gains because the origin is not the account that paid. -/
def drift (runs : List (EvmRun X)) (a : AccountAddress) : ℤ :=
  (runs.map fun run => Payment.delta ⟨run.payer, (originOf run).1, run.value.toNat⟩ a).sum

end Runs

section Mirror

variable {γ X : Type} {meter : GasMeter γ} (revm : LedgerRevm X) {lib : TrieLibrary}

theorem net_payments_and_origins (runs : List (EvmRun X)) (a : AccountAddress) :
    net (runs.map paymentOf) a + net (originPayments (runs.map originOf)) a = drift runs a := by
  induction runs with
  | nil => rfl
  | cons run runs ih =>
    have hthrough := delta_through run.payer evmNativeAddress (originOf run).1 run.value.toNat a
    unfold drift originPayments at ih ⊢
    simp only [List.map_cons, net_cons, List.sum_cons] at ih ⊢
    rw [← ih, ← hthrough]
    simp only [paymentOf, originOf]
    ring

theorem net_transfers (runs : List (EvmRun X)) (a : AccountAddress) :
    net (transferPayments (runs.flatMap fun run => journalTransfers (revm.journal run.machine))) a =
      evmNetAt revm runs a - if isEthShaped a then destroyedNetOf revm runs (toEthAddress a) else 0 := by
  have hrun : ∀ machine, net (transferPayments (journalTransfers (revm.journal machine))) a =
      if isEthShaped a then net (journalPayments (revm.journal machine)) (toEthAddress a) else 0 := by
    intro machine
    rw [transferPayments_journalTransfers]
    split_ifs with ha
    · conv_lhs => rw [← ha]
      exact net_map toMoveAddress toMoveAddress_injective _ _
    · apply net_map_of_forall_ne
      intro b hb
      exact ha (hb ▸ isEthShaped_toMoveAddress b)
  induction runs with
  | nil => simp [transferPayments, evmNetAt, evmNet, destroyedNetOf]
  | cons run runs ih =>
    have hmoves := revm.moves run.machine (toEthAddress a)
    rw [List.flatMap_cons, transferPayments, List.map_append, net_append]
    unfold transferPayments at hrun ih
    rw [hrun, ih]
    unfold evmNetAt evmNet destroyedNetOf
    split_ifs
    · simp only [List.map_cons, List.sum_cons, hmoves]
      ring
    · ring

/-- The ledgers differ by the drift of the payers and by the destroyed accounts. -/
theorem moveNet_eq {state : LedgerState γ X} (h : Reached meter revm lib state)
    {replicated : Session γ} (hreplicated : replicateTransfers meter state.session =
      (.ok (), replicated)) (a : AccountAddress) :
    moveNet state replicated a = evmNetAt revm state.runs a + (drift state.runs a -
      if isEthShaped a then destroyedNetOf revm state.runs (toEthAddress a) else 0) := by
  obtain ⟨hpaid, horigins, htransfers⟩ := logged_of_reached meter revm lib h
  have hmoves := (replicateTransfers_spec hreplicated).1.sub_eq a
  rw [horigins, htransfers, net_transfers] at hmoves
  rw [moveNet, hmoves, hpaid a, ← net_payments_and_origins]
  ring

theorem drift_eq_zero {runs : List (EvmRun X)}
    (h : ∀ run ∈ runs, run.value = 0 ∨ isEthShaped run.payer) (a : AccountAddress) :
    drift runs a = 0 := by
  apply List.sum_eq_zero
  intro delta hdelta
  obtain ⟨run, hrun, rfl⟩ := List.mem_map.mp hdelta
  rcases h run hrun with hzero | hshaped
  · simp [Payment.delta, hzero]
  · rw [originOf, hshaped]
    exact delta_self run.payer run.value.toNat a

/-- A payer without an Ethereum address loses everything it paid. -/
theorem value_eq_zero_of_drift {runs : List (EvmRun X)} {a : AccountAddress}
    (ha : ¬ isEthShaped a) (hdrift : drift runs a = 0) {run : EvmRun X} (hrun : run ∈ runs)
    (hpayer : run.payer = a) : run.value = 0 := by
  have horigin : ∀ run : EvmRun X, a ≠ (originOf run).1 := by
    intro run hrun
    apply ha
    rw [isEthShaped, hrun, originOf, toEthAddress_toMoveAddress]
  let loss : EvmRun X → ℤ := fun run =>
    -Payment.delta ⟨run.payer, (originOf run).1, run.value.toNat⟩ a
  have hloss : ∀ run, loss run = if a = run.payer then (run.value.toNat : ℤ) else 0 := by
    intro run
    simp only [loss, Payment.delta, if_neg (horigin run)]
    omega
  have hsum : (runs.map loss).sum = 0 := by
    have hneg := List.sum_neg (runs.map fun run =>
      Payment.delta ⟨run.payer, (originOf run).1, run.value.toNat⟩ a)
    rw [List.map_map] at hneg
    change -drift runs a = _ at hneg
    rw [hdrift, neg_zero] at hneg
    exact hneg.symm
  have hnonneg : ∀ amount ∈ runs.map loss, 0 ≤ amount := by
    intro amount hamount
    obtain ⟨other, -, rfl⟩ := List.mem_map.mp hamount
    rw [hloss]
    split_ifs <;> omega
  have hzero := List.all_zero_of_le_zero_le_of_sum_eq_zero hnonneg hsum (List.mem_map_of_mem hrun)
  rw [hloss, if_pos hpayer.symm] at hzero
  apply BitVec.eq_of_toNat_eq
  simpa using hzero

/-- The ledgers agree exactly when every payer has an Ethereum address and the destroyed
accounts cancel out. -/
theorem mirrors_iff {state : LedgerState γ X} (h : Reached meter revm lib state)
    {replicated : Session γ} (hreplicated : replicateTransfers meter state.session =
      (.ok (), replicated)) :
    Mirrors revm state replicated ↔ Mirrorable revm state.runs := by
  have hnet := moveNet_eq revm h hreplicated
  constructor
  · intro hmirrors
    have hdrift : ∀ a, drift state.runs a =
        if isEthShaped a then destroyedNetOf revm state.runs (toEthAddress a) else 0 := by
      intro a
      have ha := hnet a
      rw [hmirrors.1 a] at ha
      omega
    have hpayers : ∀ run ∈ state.runs, run.value = 0 ∨ isEthShaped run.payer := by
      intro run hrun
      by_cases hshaped : isEthShaped run.payer
      · exact .inr hshaped
      · have hzero := hdrift run.payer
        rw [if_neg hshaped] at hzero
        exact .inl (value_eq_zero_of_drift hshaped hzero hrun rfl)
    refine ⟨hpayers, fun a => ?_⟩
    have ha := hdrift (toMoveAddress a)
    rw [drift_eq_zero hpayers, if_pos (isEthShaped_toMoveAddress a),
      toEthAddress_toMoveAddress] at ha
    exact ha.symm
  · intro hmirrorable
    refine ⟨fun a => ?_, ?_⟩
    · rw [hnet a, drift_eq_zero hmirrorable.1, hmirrorable.2]
      simp
    · obtain ⟨hpaid, horigins, -⟩ := logged_of_reached meter revm lib h
      rw [hpaid, horigins, net_payments_and_origins]
      exact drift_eq_zero hmirrorable.1 evmNativeAddress

end Mirror

section Samples

open StateChanges Extraction

def alice : Address := 0xa11ce
def bob : Address := 0xb0b
def contract : Address := 0xc0ffee

def loadedAccount (balance : U256) (nonce : ℕ) (isSelfdestructed : Bool) : EvmAccount :=
  ⟨⟨balance, nonce, keccakEmpty, some []⟩, ∅, true, isSelfdestructed⟩

def aliceHasFive (a : Address) : ℕ := if a = alice then 5 else 0

def sampleOperations : Bool → List (Operation Address)
  | true => [.touch, .checkpoint, .create contract, .transfer alice contract 5,
      .selfdestruct contract bob]
  | false => [.touch, .checkpoint, .transfer alice bob 5]

def balancesAfter (first : Address → ℕ) (operations : List (Operation Address)) : Address → ℕ :=
  (Journaled.run ⟨first, [[]]⟩ operations).elim first fun final => final.balances

theorem run_eq_of_journal {first : Address → ℕ} {operations : List (Operation Address)}
    {journal : List (List (Entry Address))}
    (h : ((Journaled.run ⟨first, [[]]⟩ operations).map fun final => final.journal) =
      some journal) :
    Journaled.run ⟨first, [[]]⟩ operations = some ⟨balancesAfter first operations, journal⟩ := by
  obtain ⟨final, hfinal, rfl⟩ := Option.map_eq_some_iff.mp h
  simp [balancesAfter, hfinal]

/-- The EVM on two transactions of alice, who has 5 wei: a call pays them to bob, and a
creation gives them to a contract that destroys itself in favour of bob. -/
def sampleRevm : LedgerRevm Bool where
  execute env := .ask (.basic env.tx.caller) fun _ => .done (.ok (env.tx.kind == .create))
  journal
    | true => [[.other], [.accountCreated contract, .balanceTransfer alice contract 5,
        .accountDestroyed contract bob false 5]]
    | false => [[.other], [.balanceTransfer alice bob 5]]
  postExecution
    | true => .done (.ok ⟨.success 60000 [] [] (some contract),
        ((AList.singleton contract (loadedAccount 0 1 true)).insert bob
          (loadedAccount 5 0 false)).insert alice (loadedAccount 0 1 false)⟩)
    | false => .done (.ok ⟨.success 21000 [] [] none,
        (AList.singleton bob (loadedAccount 5 0 false)).insert alice (loadedAccount 0 1 false)⟩)
  before _ := aliceHasFive
  after machine := balancesAfter aliceHasFive (sampleOperations machine)
  journaled
    | true => ⟨sampleOperations true, run_eq_of_journal (by decide +kernel)⟩
    | false => ⟨sampleOperations false, run_eq_of_journal (by decide +kernel)⟩

/-- A session in which alice has 9 wei. -/
def sampleSession : Session Unit where
  move := {
    ethStores a := if a = toMoveAddress alice then some ⟨a, 9, false⟩ else none
    ethSupply := 9
    sequenceNumbers _ := none
    resources _ := none
    modules _ := none }
  events := []
  evm := .new sampleBase.toEvmState (fun _ => none) ⟨1, 0, 0⟩
  gas := ()

/-- alice has paid 5 wei. -/
def withdrawn : Session Unit :=
  (withdrawPayment unmeteredGasMeter (toMoveAddress alice) 5 sampleSession).2

/-- The EVM native account has them. -/
def paidIn : Session Unit := (getAssetValue unmeteredGasMeter 5 withdrawn).2

def called (transactTo : TxKind) : EvmNativeOutcome × Session Unit :=
  match nativeEvmTransact unmeteredGasMeter sampleRevm.toRevm sampleLib (toMoveAddress alice)
    transactTo 5 [] paidIn with
  | (.ok outcome, session) => (outcome, session)
  | (.error _, session) => (⟨false, [], []⟩, session)

/-- The state after one run of the EVM behind a payment of alice. -/
def sampleState (transactTo : TxKind) (machine : Bool) : LedgerState Unit Bool where
  session := (called transactTo).2
  paidSoFar a := 0 + ((balances paidIn.move a : ℤ) - balances sampleSession.move a)
  runs := [] ++ [⟨toMoveAddress alice, 5, machine⟩]

def replicated (transactTo : TxKind) : Session Unit :=
  (replicateTransfers unmeteredGasMeter (called transactTo).2).2

theorem eq_of_fst {α β : Type} {pair : α × β} {a : α} (h : pair.1 = a) : pair = (a, pair.2) := by
  rw [← h]

theorem reached_sampleState (transactTo : TxKind) (machine : Bool)
    (hmachine : machineOf sampleRevm.toRevm sampleLib paidIn.evm (callArgs unmeteredGasMeter paidIn
      (toMoveAddress alice) transactTo 5 []) = some machine)
    (hcall : (nativeEvmTransact unmeteredGasMeter sampleRevm.toRevm sampleLib (toMoveAddress alice)
      transactTo 5 [] paidIn).1 = .ok (called transactTo).1) :
    Reached unmeteredGasMeter sampleRevm sampleLib (sampleState transactTo machine) := by
  have hwithdraw : (withdrawPayment unmeteredGasMeter (toMoveAddress alice) 5 sampleSession).1 =
      .ok 5 := by
    decide +kernel
  have hpay : (getAssetValue unmeteredGasMeter 5 withdrawn).1 = .ok 5 := by
    decide +kernel
  have hcalled := eq_of_fst hcall
  have hsession : (nativeEvmTransact unmeteredGasMeter sampleRevm.toRevm sampleLib
      (toMoveAddress alice) transactTo 5 [] paidIn).2 = (called transactTo).2 := by
    unfold called
    rw [hcalled]
  rw [hsession] at hcalled
  exact .call (toMoveAddress alice) transactTo 5 5 5 [] withdrawn paidIn (called transactTo).2
    (called transactTo).1 machine (.start sampleSession rfl) (eq_of_fst hwithdraw)
    (eq_of_fst hpay) hcalled hmachine

/-- A contract that destroys itself where it was created takes its ETH to bob inside the EVM;
in the Move ledger it keeps it. -/
theorem destroyed_contract_keeps_eth :
    Reached unmeteredGasMeter sampleRevm sampleLib (sampleState .create true) ∧
      replicateTransfers unmeteredGasMeter (sampleState .create true).session =
        (.ok (), replicated .create) ∧
      ¬ Mirrors sampleRevm (sampleState .create true) (replicated .create) := by
  refine ⟨reached_sampleState .create true (by decide +kernel) (by decide +kernel),
    eq_of_fst (by decide +kernel), ?_⟩
  intro hmirrors
  have hbob := hmirrors.1 (toMoveAddress bob)
  revert hbob
  decide +kernel

/-- A call with value is mirrored. -/
theorem mirrors_call : Mirrors sampleRevm (sampleState (.call bob) false) (replicated (.call bob)) := by
  have hreached := reached_sampleState (.call bob) false (by decide +kernel) (by decide +kernel)
  have hreplicated : replicateTransfers unmeteredGasMeter (sampleState (.call bob) false).session =
      (.ok (), replicated (.call bob)) := eq_of_fst (by decide +kernel)
  refine (mirrors_iff sampleRevm hreached hreplicated).mpr ⟨?_, fun a => ?_⟩
  · intro run hrun
    obtain rfl : run = ⟨toMoveAddress alice, 5, false⟩ := by simpa [sampleState] using hrun
    exact .inr (by decide)
  · simp [destroyedNetOf, sampleState, destroyedNet, sampleRevm, destroyedDelta]

end Samples

end OpMove.LedgerMirror
