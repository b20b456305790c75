import OpMove.LedgerMirror

/-!
Calls of the EVM that Move code makes and that fail. The asset of a call goes to the EVM native
account, its signer is logged as an origin by the twenty bytes of its address that the EVM sees,
and replication gives the value to the origin. A failed call leaves no transfers, so its value
is back where it came from exactly if the origin is the signer.
-/

namespace OpMove.RevertedCalls

open Primitives Transactions Errors StorageTries NativeEvm FailingActions Sessions EthToken
open EvmModule ReadPrograms Payments LedgerMirror

section Calls

variable {γ X : Type} (meter : GasMeter γ) (revm : Revm X) (lib : TrieLibrary)

/-- One call of Move code that came back, with the sessions around it. -/
structure MoveCall (γ : Type) where
  caller : AccountAddress
  value : U256
  result : EvmNativeOutcome
  before : Session γ
  after : Session γ

/-- `evm_call` and `evm_create` with an asset of the value. -/
def Made (call : MoveCall γ) : Prop :=
  (∃ target data, evmCall meter revm lib call.caller target call.value data call.before =
    (.ok call.result, call.after)) ∨
  ∃ data, evmCreate meter revm lib call.caller call.value data call.before =
    (.ok call.result, call.after)

/-- The calls of a transaction so far. The rest of the Move code, which may take assets from any
account, does not touch the context of the EVM. -/
inductive Calls : List (MoveCall γ) → Session γ → Prop
  | start (s : Session γ) : s.evm.transferLogs = ⟨[], []⟩ → Calls [] s
  | other {calls : List (MoveCall γ)} {s : Session γ} (s' : Session γ) :
    Calls calls s → s'.evm = s.evm → Calls calls s'
  | call {calls : List (MoveCall γ)} (call : MoveCall γ) :
    Calls calls call.before → Made meter revm lib call → Calls (calls ++ [call]) call.after

/-- An execution that reverts or halts is undone: its journal holds no transfers. -/
def UndoesFailures : Prop :=
  ∀ (machine : X) (answers : Answers Answer DbError) (cache final : Cache Answer)
      (outcome : ResultAndState),
    (revm.postExecution machine).runCached answers cache = (.ok (.ok outcome), final) →
    (evmResultToMoveValue outcome.result).isSuccess = false →
    journalTransfers (revm.journal machine) = []

/-- The origins and the transfers a call adds to the log. -/
def MoveCall.origins (call : MoveCall γ) : List (AccountAddress × U256) :=
  call.after.evm.transferLogs.origins.drop call.before.evm.transferLogs.origins.length

def MoveCall.transfers (call : MoveCall γ) : List EthTransfer :=
  call.after.evm.transferLogs.transfers.drop call.before.evm.transferLogs.transfers.length

/-- What replication pays for a call. -/
def MoveCall.settled (call : MoveCall γ) (a : AccountAddress) : ℤ :=
  net (originPayments call.origins) a + net (transferPayments call.transfers) a

/-- What becomes of an account because of a call, from the asset passed to it to the end of the
replication. -/
def MoveCall.effect (call : MoveCall γ) (a : AccountAddress) : ℤ :=
  ((balances call.after.move a : ℤ) - balances call.before.move a) + call.settled a

/-- The signer has the value of the asset back, and no other account has changed. -/
def GivesBack (call : MoveCall γ) : Prop :=
  ∀ a, call.effect a = if a = call.caller then (call.value.toNat : ℤ) else 0

end Calls

section Accounting

variable {γ X : Type} {meter : GasMeter γ} {revm : Revm X} {lib : TrieLibrary}

/-- A call pays its value to the EVM native account and logs its signer, cut to the address the
EVM knows, as the origin of the value. -/
theorem made_spec {call : MoveCall γ} (h : Made meter revm lib call) :
    Moves (balances call.before.move) (balances call.after.move)
        (fun a => if a = evmNativeAddress then (call.value.toNat : ℤ) else 0) ∧
      call.after.evm.transferLogs.origins = call.before.evm.transferLogs.origins ++
        [(toMoveAddress (toEthAddress call.caller), call.value)] ∧
      ∃ transfers, call.after.evm.transferLogs.transfers =
          call.before.evm.transferLogs.transfers ++ transfers ∧
        (UndoesFailures revm → call.result.isSuccess = false → transfers = []) := by
  have hcalls : ∃ transactTo data middle, getAssetValue meter call.value call.before =
        (.ok call.value, middle) ∧
      nativeEvmTransact meter revm lib call.caller transactTo call.value data middle =
        (.ok call.result, call.after) := by
    rcases h with ⟨target, data, h⟩ | ⟨data, h⟩
    · obtain ⟨value, middle, hvalue, hcall⟩ := bind_ok.mp h
      obtain ⟨rfl, -, -⟩ := getAssetValue_spec hvalue
      exact ⟨_, data, middle, hvalue, hcall⟩
    · obtain ⟨value, middle, hvalue, hcall⟩ := bind_ok.mp h
      obtain ⟨rfl, -, -⟩ := getAssetValue_spec hvalue
      exact ⟨_, data, middle, hvalue, hcall⟩
  obtain ⟨transactTo, data, middle, hvalue, hcall⟩ := hcalls
  obtain ⟨-, hevm, hmoves⟩ := getAssetValue_spec hvalue
  obtain ⟨outcome, htransact, hresult, hmove, -⟩ := nativeEvmTransact_spec hcall
  obtain ⟨machine, cache, final, -, hfinish, hlogs⟩ := finished_of_transact _ _ htransact
  rw [hevm] at hlogs
  refine ⟨hmove ▸ hmoves, by rw [hlogs]; rfl, journalTransfers (revm.journal machine),
    by rw [hlogs]; rfl, fun hundoes hfailed => ?_⟩
  rw [hresult] at hfailed
  exact hundoes machine _ cache final outcome hfinish hfailed

theorem origins_of_made {call : MoveCall γ} (h : Made meter revm lib call) :
    call.origins = [(toMoveAddress (toEthAddress call.caller), call.value)] := by
  rw [MoveCall.origins, (made_spec h).2.1, List.drop_left]

theorem made_of_mem {calls : List (MoveCall γ)} {s : Session γ}
    (h : Calls meter revm lib calls s) : ∀ call ∈ calls, Made meter revm lib call := by
  induction h with
  | start s _ => simp
  | other s' _ _ ih => exact ih
  | call call _ hmade ih =>
    intro other hother
    rcases List.mem_append.mp hother with hearlier | hlast
    · exact ih other hearlier
    · rw [List.mem_singleton.mp hlast]
      exact hmade

/-- The log holds what the calls added, one after the other. -/
theorem logs_of_calls {calls : List (MoveCall γ)} {s : Session γ}
    (h : Calls meter revm lib calls s) :
    s.evm.transferLogs.origins = calls.flatMap MoveCall.origins ∧
      s.evm.transferLogs.transfers = calls.flatMap MoveCall.transfers := by
  induction h with
  | start s hlogs =>
    rw [hlogs]
    exact ⟨rfl, rfl⟩
  | other s' _ hevm ih => rwa [hevm]
  | call call _ hmade ih =>
    obtain ⟨-, horigins, transfers, htransfers, -⟩ := made_spec hmade
    have hadded : call.transfers = transfers := by
      rw [MoveCall.transfers, htransfers, List.drop_left]
    rw [List.flatMap_append, List.flatMap_append, List.flatMap_singleton, List.flatMap_singleton,
      ← ih.1, ← ih.2, origins_of_made hmade, hadded]
    exact ⟨horigins, htransfers⟩

/-- Replication pays for each call what it added to the log. -/
theorem replicated_eq {calls : List (MoveCall γ)} {s replicated : Session γ}
    (h : Calls meter revm lib calls s)
    (hreplicated : replicateTransfers meter s = (.ok (), replicated)) (a : AccountAddress) :
    (balances replicated.move a : ℤ) - balances s.move a =
      (calls.map fun call => call.settled a).sum := by
  obtain ⟨horigins, htransfers⟩ := logs_of_calls h
  rw [(replicateTransfers_spec hreplicated).1.sub_eq a, horigins, htransfers]
  clear h horigins htransfers
  induction calls with
  | nil => rfl
  | cons call calls ih =>
    rw [List.map_cons, List.sum_cons, ← ih, MoveCall.settled]
    simp only [originPayments, transferPayments, List.flatMap_cons, List.map_append, net_append]
    ring

/-- The value of a failed call ends at the origin. -/
theorem effect_of_failed (hundoes : UndoesFailures revm) {call : MoveCall γ}
    (h : Made meter revm lib call) (hfailed : call.result.isSuccess = false) (a : AccountAddress) :
    call.effect a =
      if a = toMoveAddress (toEthAddress call.caller) then (call.value.toNat : ℤ) else 0 := by
  obtain ⟨hmoves, -, transfers, htransfers, hnone⟩ := made_spec h
  have hadded : call.transfers = [] := by
    rw [MoveCall.transfers, htransfers, List.drop_left, hnone hundoes hfailed]
  rw [MoveCall.effect, hmoves.sub_eq a, MoveCall.settled, origins_of_made h, hadded]
  simp only [originPayments, transferPayments, List.map_cons, List.map_nil, net_cons, net_nil,
    delta_eq]
  ring

/-- In every transaction, replication pays for the calls one by one, and a call that failed
gives its value back exactly if it had none or its signer has an Ethereum address. -/
theorem failed_call_gives_back_iff (hundoes : UndoesFailures revm) {calls : List (MoveCall γ)}
    {s replicated : Session γ} (h : Calls meter revm lib calls s)
    (hreplicated : replicateTransfers meter s = (.ok (), replicated)) :
    (∀ a, (balances replicated.move a : ℤ) - balances s.move a =
      (calls.map fun call => call.settled a).sum) ∧
    ∀ call ∈ calls, call.result.isSuccess = false →
      (GivesBack call ↔ call.value = 0 ∨ isEthShaped call.caller) := by
  refine ⟨replicated_eq h hreplicated, fun call hcall hfailed => ?_⟩
  have heffect := effect_of_failed hundoes (made_of_mem h call hcall) hfailed
  constructor
  · intro hback
    by_cases hshaped : isEthShaped call.caller
    · exact .inr hshaped
    · -- the signer is not the origin, so nothing came back to it
      have hsigner := hback call.caller
      rw [heffect, if_pos rfl, if_neg fun heq => hshaped heq.symm] at hsigner
      left
      by_contra hvalue
      have hpositive := toNat_ne_zero hvalue
      omega
  · rintro (hzero | hshaped) a
    · rw [heffect, hzero]
      simp
    · rw [heffect, hshaped]

end Accounting

section Samples

open Extraction

/-- The EVM on a call that reverts. -/
def revertingRevm : Revm Unit where
  execute _ := .done (.ok ())
  journal _ := [[.other]]
  postExecution _ := .done (.ok ⟨.revert 21000 [], ∅⟩)

theorem revertingRevm_undoes : UndoesFailures revertingRevm := by
  intro machine answers cache final outcome _ _
  rfl

def emptySession : Session Unit where
  move := {
    ethStores _ := none
    ethSupply := 5
    sequenceNumbers _ := none
    resources _ := none
    modules _ := none }
  events := []
  evm := .new sampleBase.toEvmState (fun _ => none) ⟨1, 0, 0⟩
  gas := ()

/-- Move code passes an asset of 5 wei to a call that reverts. -/
def revertedRun (caller : AccountAddress) : Except VmError EvmNativeOutcome × Session Unit :=
  evmCall unmeteredGasMeter revertingRevm sampleLib caller (toMoveAddress contract) 5 []
    emptySession

def revertedCall (caller : AccountAddress) : MoveCall Unit where
  caller := caller
  value := 5
  result := ⟨false, [], []⟩
  before := emptySession
  after := (revertedRun caller).2

theorem revertedCall_made {caller : AccountAddress}
    (h : (revertedRun caller).1 = .ok ⟨false, [], []⟩) :
    Calls unmeteredGasMeter revertingRevm sampleLib [revertedCall caller]
      (revertedRun caller).2 :=
  .call (revertedCall caller) (.start emptySession rfl)
    (.inl ⟨toMoveAddress contract, [], eq_of_fst h⟩)

theorem failed_call_gives_back_sample : GivesBack (revertedCall (toMoveAddress alice)) := by
  have hrun : (revertedRun (toMoveAddress alice)).1 = .ok ⟨false, [], []⟩ ∧
      (replicateTransfers unmeteredGasMeter (revertedRun (toMoveAddress alice)).2).1 = .ok () := by
    decide +kernel
  exact ((failed_call_gives_back_iff revertingRevm_undoes (revertedCall_made hrun.1)
    (eq_of_fst hrun.2)).2 _ List.mem_cons_self rfl).mpr (.inr (by decide))

/-- An object account: its address is not one of the EVM. -/
def objectAccount : AccountAddress := BitVec.ofNat 256 (2 ^ 200 + 0xa11ce)

/-- The value of its reverted call goes to alice, who shares the last twenty bytes with it. -/
theorem object_account_loses_value :
    Calls unmeteredGasMeter revertingRevm sampleLib [revertedCall objectAccount]
        (revertedRun objectAccount).2 ∧
      (replicateTransfers unmeteredGasMeter (revertedRun objectAccount).2).1 = .ok () ∧
      balances (replicateTransfers unmeteredGasMeter (revertedRun objectAccount).2).2.move
        (toMoveAddress alice) = 5 ∧
      balances (replicateTransfers unmeteredGasMeter (revertedRun objectAccount).2).2.move
        objectAccount = 0 ∧
      ¬ GivesBack (revertedCall objectAccount) := by
  have hrun : (revertedRun objectAccount).1 = .ok ⟨false, [], []⟩ ∧
      (replicateTransfers unmeteredGasMeter (revertedRun objectAccount).2).1 = .ok () ∧
      balances (replicateTransfers unmeteredGasMeter (revertedRun objectAccount).2).2.move
        (toMoveAddress alice) = 5 ∧
      balances (replicateTransfers unmeteredGasMeter (revertedRun objectAccount).2).2.move
        objectAccount = 0 ∧
      (revertedCall objectAccount).effect objectAccount = 0 := by
    decide +kernel
  obtain ⟨hmade, hreplicated, halice, hobject, heffect⟩ := hrun
  refine ⟨revertedCall_made hmade, hreplicated, halice, hobject, fun hback => ?_⟩
  have hlost : (0 : ℤ) = ((5 : U256).toNat : ℤ) :=
    heffect.symm.trans ((hback objectAccount).trans (if_pos rfl))
  revert hlost
  decide

end Samples

end OpMove.RevertedCalls
