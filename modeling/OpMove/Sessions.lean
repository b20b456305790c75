import OpMove.FailingActions
import OpMove.Errors
import OpMove.NativeEvm

/-!
A session of the Move VM. It is one write buffer: what a function has written, emitted
or sent to the EVM stays in it when the function fails later on. Of the Move state, the
ETH stores, the ETH supply and the sequence numbers are read and written by the modelled
framework functions; everything else is kept as serialized resources and modules.
Metered functions are charged before each write and each event, so that they can run out
of gas after any part of their effects.
-/

namespace OpMove.Sessions

open Primitives MoveTypes Transactions Errors StorageTries StateChanges NativeEvm FailingActions

section Data

/-- The primary ETH store of an account. -/
structure FungibleStore where
  owner : AccountAddress
  balance : ℕ
  frozen : Bool
  deriving DecidableEq, Repr

abbrev ModuleId := AccountAddress × String

@[ext]
structure MoveState where
  ethStores : AccountAddress → Option FungibleStore
  ethSupply : ℕ
  sequenceNumbers : AccountAddress → Option ℕ
  resources : AccountAddress × StructTag → Option Bytes
  modules : ModuleId → Option Bytes

inductive Event
  | withdraw (owner : AccountAddress) (amount : ℕ)
  | deposit (owner : AccountAddress) (amount : ℕ)
  | evmLogs (logs : List Log)
  | other (tag : StructTag) (data : Bytes)
  deriving DecidableEq

structure Session (γ : Type) where
  move : MoveState
  events : List Event
  evm : NativeEVMContext
  gas : γ

/-- What gas is paid for; the sizes are those of a transaction or of a module. -/
inductive Charge
  | write
  | emit
  | execution (amount : ℕ)
  | intrinsic (size : ℕ)
  | io (size : ℕ)
  | publishRequest (size : ℕ)
  | dependency (size : ℕ)
  deriving DecidableEq, Repr

/-- A gas meter over states `γ`; a refused charge still spends what was left. -/
structure GasMeter (γ : Type) where
  charge : Charge → γ → Bool × γ
  balance : γ → ℕ

def unmeteredGasMeter {γ : Type} : GasMeter γ where
  charge _ gas := (true, gas)
  balance _ := maxU64

/-- Functions of the VM. -/
abbrev Vm (γ α : Type) := Act (Session γ) VmError α

def MoveState.withStore (state : MoveState) (owner : AccountAddress)
    (store : Option FungibleStore) : MoveState :=
  { state with ethStores := Function.update state.ethStores owner store }

@[simp] theorem MoveState.withStore_self (state : MoveState) (owner : AccountAddress)
    (store : Option FungibleStore) : (state.withStore owner store).ethStores owner = store := by
  simp [MoveState.withStore]

theorem MoveState.withStore_of_ne (state : MoveState) {owner a : AccountAddress}
    (store : Option FungibleStore) (ha : a ≠ owner) :
    (state.withStore owner store).ethStores a = state.ethStores a := by
  simp [MoveState.withStore, ha]

/-- The ETH balance of an account; an account without a store has none. -/
def balances (state : MoveState) (a : AccountAddress) : ℕ :=
  (state.ethStores a).elim 0 fun store => store.balance

end Data

section Primitives

variable {γ : Type} (meter : GasMeter γ)

def abort {α : Type} (code : ℕ) : Vm γ α := Act.fail (.aborted code)

def chargeGas (charge : Charge) : Vm γ Unit := fun s =>
  match meter.charge charge s.gas with
  | (true, gas) => (.ok (), { s with gas := gas })
  | (false, gas) => (.error .outOfGas, { s with gas := gas })

/-- Write the Move state, after paying for it. -/
def writeMove (f : MoveState → MoveState) : Vm γ Unit := do
  chargeGas meter .write
  Act.update fun s => { s with move := f s.move }

def emit (event : Event) : Vm γ Unit := do
  chargeGas meter .emit
  Act.update fun s => { s with events := s.events ++ [event] }

def setStore (owner : AccountAddress) (store : FungibleStore) : Vm γ Unit :=
  writeMove meter fun state => state.withStore owner (some store)

end Primitives

section Success

variable {γ : Type} {meter : GasMeter γ}

/-- What a successful function did to a session, up to gas. -/
structure Ran (s s' : Session γ) (f : MoveState → MoveState) (events : List Event) : Prop where
  move : s'.move = f s.move
  events : s'.events = s.events ++ events
  evm : s'.evm = s.evm

theorem Ran.trans {s s' s'' : Session γ} {f g : MoveState → MoveState} {events more : List Event}
    (h : Ran s s' f events) (h' : Ran s' s'' g more) : Ran s s'' (g ∘ f) (events ++ more) where
  move := by rw [h'.move, h.move, Function.comp_apply]
  events := by rw [h'.events, h.events, List.append_assoc]
  evm := h'.evm.trans h.evm

theorem ran_of_chargeGas {charge : Charge} {s s' : Session γ}
    (h : chargeGas meter charge s = (.ok (), s')) : Ran s s' id [] := by
  unfold chargeGas at h
  split at h
  · rw [← (Prod.mk.inj h).2]
    exact ⟨rfl, (List.append_nil _).symm, rfl⟩
  · cases (Prod.mk.inj h).1

theorem ran_of_writeMove {f : MoveState → MoveState} {s s' : Session γ}
    (h : writeMove meter f s = (.ok (), s')) : Ran s s' f [] := by
  obtain ⟨_, middle, hcharge, hupdate⟩ := bind_ok.mp h
  rw [update_ok] at hupdate
  have hran : Ran middle s' f [] := by
    rw [← hupdate]
    exact ⟨rfl, (List.append_nil _).symm, rfl⟩
  exact (ran_of_chargeGas hcharge).trans hran

theorem ran_of_emit {event : Event} {s s' : Session γ}
    (h : emit meter event s = (.ok (), s')) : Ran s s' id [event] := by
  obtain ⟨_, middle, hcharge, hupdate⟩ := bind_ok.mp h
  rw [update_ok] at hupdate
  have hran : Ran middle s' id [event] := by
    rw [← hupdate]
    exact ⟨rfl, rfl, rfl⟩
  exact (ran_of_chargeGas hcharge).trans hran

end Success

section Finish

/-- The state transactions are executed on. -/
structure ChainState where
  move : MoveState
  evm : EvmState

/-- What the functions of the node need besides the EVM: the gas meter and how it starts and
is read, the trie library, and the hashes that appear in results. -/
structure NodeEnv (γ : Type) where
  meter : GasMeter γ
  newGasMeter : ℕ → γ
  totalGasUsed : γ → ℕ
  lib : TrieLibrary
  keccak256 : Bytes → B256
  typeHash : StructTag → B256
  primaryStoreAddress : AccountAddress → AccountAddress

structure TransactionExecutionOutcome where
  vmOutcome : Except UserError Unit
  move : MoveState
  evm : Changes
  gasUsed : ℕ
  l2Price : U256
  logs : List Log
  deployment : Option (AccountAddress × ModuleId)

variable {γ : Type} (env : NodeEnv γ)

def withdrawTag : StructTag := ⟨1, "fungible_asset_u256", "Withdraw", []⟩

def depositTag : StructTag := ⟨1, "fungible_asset_u256", "Deposit", []⟩

def storeEventData (owner : AccountAddress) (amount : ℕ) : Bytes :=
  (leBytes 32 (env.primaryStoreAddress owner).toNat).reverse ++ leBytes 32 amount

/-- EVM logs come out as they went in, any other event as one log of its type. -/
def pushLogs : Event → List Log
  | .evmLogs logs => logs
  | .withdraw owner amount =>
    [⟨toEthAddress withdrawTag.address, [env.typeHash withdrawTag], storeEventData env owner amount⟩]
  | .deposit owner amount =>
    [⟨toEthAddress depositTag.address, [env.typeHash depositTag], storeEventData env owner amount⟩]
  | .other tag data => [⟨toEthAddress tag.address, [env.typeHash tag], data⟩]

def logsOf (events : List Event) : List Log := events.flatMap (pushLogs env)

def createVmSession (state : ChainState) (hashByNumber : ℕ → Option B256)
    (blockHeader : HeaderForExecution) (gasLimit : ℕ) : Session γ where
  move := state.move
  events := []
  evm := .new state.evm hashByNumber blockHeader
  gas := env.newGasMeter gasLimit

def evmChangesOf (s : Session γ) : Option Changes :=
  extractEvmChanges env.lib env.keccak256 s.evm.state s.evm.stateChanges

/-- The state after the changes of an outcome are applied. -/
def ChainState.apply (state : ChainState) (outcome : TransactionExecutionOutcome) : ChainState :=
  ⟨outcome.move, applyChanges state.evm outcome.evm⟩

end Finish

end OpMove.Sessions
