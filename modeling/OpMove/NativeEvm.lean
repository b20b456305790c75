import OpMove.ReadPrograms
import OpMove.StateChanges
import OpMove.Transactions

/-!
The EVM inside a Move session. The context holds one database for the whole session, a
cache in front of the resolver, together with the state maps and the ETH movements of
the calls made so far. The EVM library is a parameter: it reads through the four
questions of the database interface, stops once when execution is over (where the
transfers are taken from its journal), and ends with a result and a state map.
-/

namespace OpMove.NativeEvm

open Primitives Transactions StorageTries StateChanges ReadPrograms

section Database

inductive Query
  | basic (address : Address)
  | codeByHash (codeHash : B256)
  | storage (address : Address) (index : U256)
  | blockHash (number : ℕ)
  deriving DecidableEq, Repr

def Answer : Query → Type
  | .basic _ => Option AccountInfo
  | .codeByHash _ => Bytes
  | .storage _ _ => U256
  | .blockHash _ => B256

instance : (query : Query) → DecidableEq (Answer query)
  | .basic _ => inferInstanceAs (DecidableEq (Option AccountInfo))
  | .codeByHash _ => inferInstanceAs (DecidableEq Bytes)
  | .storage _ _ => inferInstanceAs (DecidableEq U256)
  | .blockHash _ => inferInstanceAs (DecidableEq B256)

instance decidableEqExcept {E A : Type} [DecidableEq E] [DecidableEq A] : DecidableEq (Except E A)
  | .ok a, .ok b => decidable_of_iff (a = b) (by simp)
  | .error a, .error b => decidable_of_iff (a = b) (by simp)
  | .ok _, .error _ => isFalse (by simp)
  | .error _, .ok _ => isFalse (by simp)

/-- `undecodable` stands for a failed `expect` on stored bytes. -/
inductive DbError
  | missingCode (codeHash : B256)
  | storageError
  | undecodable (key : ResourceKey)
  deriving DecidableEq, Repr

/-- The header fields that are known while a block is executed. -/
structure HeaderForExecution where
  number : ℕ
  timestamp : ℕ
  prevRandao : B256
  deriving DecidableEq, Repr

structure ResolverBackedDB where
  state : EvmState
  hashByNumber : ℕ → Option B256
  currentBlockNumber : ℕ

def AccountResource.toInfo (resource : AccountResource) : AccountInfo :=
  ⟨resource.balance, resource.nonce, resource.codeHash, none⟩

namespace ResolverBackedDB

variable (db : ResolverBackedDB)

def basicRef (address : Address) : Except DbError (Option AccountInfo) :=
  match db.state.resources (.account address) with
  | none => .ok none
  | some (.account resource) => .ok (some (AccountResource.toInfo resource))
  | some (.code _) => .error (.undecodable (.account address))

def codeByHashRef (codeHash : B256) : Except DbError Bytes :=
  if codeHash = keccakEmpty then .ok []
  else
    match db.state.resources (.code codeHash) with
    | none => .error (.missingCode codeHash)
    | some (.code bytes) => .ok bytes
    | some (.account _) => .error (.undecodable (.code codeHash))

def storageRef (lib : TrieLibrary) (address : Address) (index : U256) : Except DbError U256 :=
  match (db.state.tries address).read lib with
  | none => .error .storageError
  | some storage => .ok (storage index)

/-- Only the 256 blocks before the current one have a hash. -/
def blockHashRef (number : ℕ) : B256 :=
  if db.currentBlockNumber - 256 ≤ number ∧ number < db.currentBlockNumber then
    (db.hashByNumber number).getD 0
  else 0

def answers (lib : TrieLibrary) : Answers Answer DbError
  | .basic address => db.basicRef address
  | .codeByHash codeHash => db.codeByHashRef codeHash
  | .storage address index => db.storageRef lib address index
  | .blockHash number => .ok (db.blockHashRef number)

end ResolverBackedDB

end Database

section Library

structure TxEnv where
  caller : Address
  gasLimit : ℕ
  gasPrice : ℕ
  txType : ℕ
  kind : TxKind
  value : U256
  data : Bytes
  nonce : ℕ
  chainId : Option ℕ
  deriving DecidableEq, Repr

structure BlockEnv where
  number : ℕ
  beneficiary : Address
  timestamp : ℕ
  gasLimit : ℕ
  basefee : ℕ
  difficulty : U256
  prevrandao : Option B256
  excessBlobGas : ℕ
  blobGasprice : ℕ
  deriving DecidableEq, Repr

structure CfgEnv where
  disableBalanceCheck : Bool
  disableNonceCheck : Bool
  deriving DecidableEq, Repr

structure EvmEnv where
  tx : TxEnv
  block : BlockEnv
  cfg : CfgEnv
  deriving DecidableEq, Repr

/-- Entries that move no ETH are not told apart. -/
inductive JournalEntry
  | balanceTransfer (origin target : Address) (balance : U256)
  | accountDestroyed (address target : Address) (wasDestroyed : Bool) (hadBalance : U256)
  | accountCreated (address : Address)
  | other
  deriving DecidableEq, Repr

inductive ExecutionResult
  | success (gasUsed : ℕ) (logs : List Log) (output : Bytes) (createdAddress : Option Address)
  | revert (gasUsed : ℕ) (output : Bytes)
  | halt (gasUsed : ℕ)
  deriving DecidableEq, Repr

structure ResultAndState where
  result : ExecutionResult
  state : StateMap

inductive EVMError
  | database (e : DbError)
  | other (message : String)
  deriving DecidableEq, Repr

/-- The EVM library over machine states `X`: everything up to the end of execution, the
journal at that point, and the rest of the handler. -/
structure Revm (X : Type) where
  execute : EvmEnv → Program Query Answer (Except String X)
  journal : X → List (List JournalEntry)
  postExecution : X → Program Query Answer (Except String ResultAndState)

end Library

section Context

structure EthTransfer where
  origin : AccountAddress
  target : AccountAddress
  amount : U256
  deriving DecidableEq, Repr

structure EthTransfersLogger where
  transfers : List EthTransfer
  origins : List (AccountAddress × U256)
  deriving DecidableEq, Repr

structure NativeEVMContext where
  state : EvmState
  hashByNumber : ℕ → Option B256
  blockHeader : HeaderForExecution
  cache : Cache Answer
  stateChanges : List StateMap
  transferLogs : EthTransfersLogger

def NativeEVMContext.new (state : EvmState) (hashByNumber : ℕ → Option B256)
    (blockHeader : HeaderForExecution) : NativeEVMContext :=
  ⟨state, hashByNumber, blockHeader, fun _ => none, [], ⟨[], []⟩⟩

def NativeEVMContext.db (ctx : NativeEVMContext) : ResolverBackedDB :=
  ⟨ctx.state, ctx.hashByNumber, ctx.blockHeader.number⟩

def NativeEVMContext.blockEnv (ctx : NativeEVMContext) : BlockEnv where
  number := ctx.blockHeader.number
  beneficiary := 0
  timestamp := ctx.blockHeader.timestamp
  gasLimit := maxU64
  basefee := 0
  difficulty := 0
  prevrandao := some ctx.blockHeader.prevRandao
  excessBlobGas := 0
  blobGasprice := 0

/-- The arguments of one call of the EVM. -/
structure CallArgs where
  caller : Address
  transactTo : TxKind
  value : U256
  data : Bytes
  gasLimit : ℕ
  deriving DecidableEq, Repr

def buildEvm (blockEnv : BlockEnv) (args : CallArgs) : EvmEnv where
  tx := {
    caller := args.caller
    gasLimit := args.gasLimit
    gasPrice := 0
    txType := 0
    kind := args.transactTo
    value := args.value
    data := args.data
    nonce := 0
    chainId := none }
  block := blockEnv
  cfg := ⟨true, true⟩

/-- The transfers of a journal, as Move sees them. -/
def journalTransfers (journal : List (List JournalEntry)) : List EthTransfer :=
  journal.flatMap fun entries => entries.filterMap fun
    | .balanceTransfer origin target balance =>
      some ⟨toMoveAddress origin, toMoveAddress target, balance⟩
    | _ => none

def EthTransfersLogger.addTxOrigin (logs : EthTransfersLogger) (address : AccountAddress)
    (amount : U256) : EthTransfersLogger :=
  { logs with origins := logs.origins ++ [(address, amount)] }

def EthTransfersLogger.pushTransfers (logs : EthTransfersLogger) (transfers : List EthTransfer) :
    EthTransfersLogger :=
  { logs with transfers := logs.transfers ++ transfers }

end Context

section Calls

variable {X : Type} (revm : Revm X) (lib : TrieLibrary)

def flattenError {R : Type} : Except DbError (Except String R) → Except EVMError R
  | .error e => .error (.database e)
  | .ok (.error message) => .error (.other message)
  | .ok (.ok result) => .ok result

/-- The whole handler as one program, without the wrapper of this repository. -/
def handlerProgram (env : EvmEnv) : Program Query Answer (Except String ResultAndState) :=
  (revm.execute env).bind fun
    | .error message => .done (.error message)
    | .ok machine => revm.postExecution machine

/-- `WrappedMainnetHandler`: transfers are logged between execution and post-execution. -/
def handlerRun (answers : Answers Answer DbError) (cache : Cache Answer)
    (logs : EthTransfersLogger) (env : EvmEnv) :
    Except EVMError ResultAndState × Cache Answer × EthTransfersLogger :=
  let (executed, cache) := (revm.execute env).runCached answers cache
  match flattenError executed with
  | .error e => (.error e, cache, logs)
  | .ok machine =>
    let logs := logs.pushTransfers (journalTransfers (revm.journal machine))
    let (finished, cache) := (revm.postExecution machine).runCached answers cache
    (flattenError finished, cache, logs)

def evmTransactWithNative (ctx : NativeEVMContext) (args : CallArgs) :
    Except EVMError ResultAndState × NativeEVMContext :=
  let logs := ctx.transferLogs.addTxOrigin (toMoveAddress args.caller) args.value
  let (outcome, cache, logs) :=
    handlerRun revm (ctx.db.answers lib) ctx.cache logs (buildEvm ctx.blockEnv args)
  let ctx := { ctx with cache := cache, transferLogs := logs }
  match outcome with
  | .error e => (.error e, ctx)
  | .ok outcome => (.ok outcome, { ctx with stateChanges := ctx.stateChanges ++ [outcome.state] })

/-- The machine a call ends its execution with, if it gets that far. -/
def machineOf (ctx : NativeEVMContext) (args : CallArgs) : Option X :=
  match ((revm.execute (buildEvm ctx.blockEnv args)).runCached (ctx.db.answers lib) ctx.cache).1 with
  | .ok (.ok machine) => some machine
  | _ => none

theorem flattenError_ok {R : Type} {finished : Except DbError (Except String R)} {result : R}
    (h : flattenError finished = .ok result) : finished = .ok (.ok result) := by
  rcases finished with e | message | found
  · cases h
  · cases h
  · rw [Except.ok.inj h]

/-- A call stops before its machine is executed, with its origin logged, or it also logs the
transfers of that machine and answers as post-execution does. -/
theorem transact_cases (ctx : NativeEVMContext) (args : CallArgs) :
    ((∃ e, (evmTransactWithNative revm lib ctx args).1 = .error e) ∧
      (evmTransactWithNative revm lib ctx args).2.transferLogs =
        ctx.transferLogs.addTxOrigin (toMoveAddress args.caller) args.value) ∨
    ∃ machine cache finished final, machineOf revm lib ctx args = some machine ∧
      (revm.postExecution machine).runCached (ctx.db.answers lib) cache = (finished, final) ∧
      (evmTransactWithNative revm lib ctx args).1 = flattenError finished ∧
      (evmTransactWithNative revm lib ctx args).2.transferLogs =
        (ctx.transferLogs.addTxOrigin (toMoveAddress args.caller) args.value).pushTransfers
          (journalTransfers (revm.journal machine)) := by
  rcases hrun : (revm.execute (buildEvm ctx.blockEnv args)).runCached (ctx.db.answers lib)
    ctx.cache with ⟨executed, cache⟩
  rcases executed with e | message | machine
  · left
    simp [evmTransactWithNative, handlerRun, hrun, flattenError]
  · left
    simp [evmTransactWithNative, handlerRun, hrun, flattenError]
  · right
    rcases hfinish : (revm.postExecution machine).runCached (ctx.db.answers lib) cache with
      ⟨finished, final⟩
    refine ⟨machine, cache, finished, final, by simp [machineOf, hrun], hfinish, ?_⟩
    rcases finished with e | message | result <;>
      simp [evmTransactWithNative, handlerRun, hrun, hfinish, flattenError]

/-- A call that comes back has logged its origin and the transfers of its machine, and
post-execution of the machine gave its outcome. -/
theorem finished_of_transact {ctx ctx' : NativeEVMContext} {args : CallArgs}
    {outcome : ResultAndState}
    (h : evmTransactWithNative revm lib ctx args = (.ok outcome, ctx')) :
    ∃ machine cache final, machineOf revm lib ctx args = some machine ∧
      (revm.postExecution machine).runCached (ctx.db.answers lib) cache =
        (.ok (.ok outcome), final) ∧
      ctx'.transferLogs = (ctx.transferLogs.addTxOrigin (toMoveAddress args.caller)
        args.value).pushTransfers (journalTransfers (revm.journal machine)) := by
  rcases transact_cases revm lib ctx args with
    ⟨⟨e, herror⟩, -⟩ | ⟨machine, cache, finished, final, hmachine, hfinish, hanswer, hlogs⟩
  · rw [h] at herror
    cases herror
  · rw [h] at hanswer hlogs
    rw [flattenError_ok hanswer.symm] at hfinish
    exact ⟨machine, cache, final, hmachine, hfinish, hlogs⟩

/-- A view has a cache of its own over the cached database of the context. -/
def evmViewWithNative (ctx : NativeEVMContext) (caller target : Address) (value : U256)
    (data : Bytes) (gasLimit : ℕ) : Except EVMError ResultAndState :=
  let env := buildEvm ctx.blockEnv ⟨caller, .call target, value, data, gasLimit⟩
  flattenError ((handlerProgram revm env).runCached
    (overlay (ctx.db.answers lib) ctx.cache) fun _ => none).1

end Calls

end OpMove.NativeEvm
