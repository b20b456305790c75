import OpMove.BlockStore
import OpMove.Canonical
import OpMove.StateTrie

/-!
What a reader of the node answers about a height. Modules and resources come from the trie under
the state root of that height; storage slots of EVM contracts come from the storage tries, which
know the present root of each account only. The Move VM and the EVM are programs that ask these
questions, together with the hashes of older blocks. A panic of the reader gives `none`.
-/

namespace OpMove.Queries

open Primitives MoveTypes GasFees Transactions Errors ChangeSets StateChanges StorageTries
open NativeEvm ReadPrograms TreeKeys StateTrie BlockBuilding BlockStore Arguments Canonical

section State

/-- The changes of one outcome. -/
structure OutcomeChanges where
  moveVm : MoveChangeSet
  evm : Table Address StorageTrieChanges

structure NodeState where
  state : InMemoryState
  evmStorage : Address → TrieDb

/-- The libraries behind the state. The order is that of a hash map of tree values. -/
structure Libraries where
  codec : StateCodec
  rootHash : Tree → B256
  lib : TrieLibrary
  account : Bytes → Option AccountResource
  code : Bytes → Option Bytes
  order : MoveChangeSet → List (Σ _ : TreeKey, TreeValue)
  order_perm : ∀ changes, (order changes).Perm (toTreeValues changes).entries

variable (libs : Libraries)

/-- `StorageTrieRepository::apply`, which opens the trie of every account it writes to. -/
def applyStorage (tries : Address → TrieDb) (changes : Table Address StorageTrieChanges) :
    Option (Address → TrieDb) :=
  if changes.keys.all fun a => ((tries a).forAccount libs.lib).isSome then
    some fun a =>
      match changes.lookup a with
      | none => tries a
      | some trieChanges => (tries a).apply trieChanges
  else none

def NodeState.apply (node : NodeState) (changes : OutcomeChanges) : Option NodeState := do
  let state ← node.state.apply libs.codec libs.rootHash (libs.order changes.moveVm) changes.moveVm
  let evmStorage ← applyStorage libs node.evmStorage changes.evm
  some ⟨state, evmStorage⟩

/-- Block building over this state; how a transaction is executed is left to the base. -/
def nodeEnv (base : Env NodeState OutcomeChanges) : Env NodeState OutcomeChanges :=
  { base with
    applyChanges := NodeState.apply libs
    stateRoot := fun node => node.state.stateRoot }

end State

section Questions

inductive MoveQuestion
  | module (address : AccountAddress) (name : String)
  | resource (address : AccountAddress) (tag : StructTag)
  deriving DecidableEq

def MoveAnswer : MoveQuestion → Type
  | .module _ _ => Option Bytes
  | .resource _ _ => Option Bytes × ℕ

/-- What execution can ask: the resolver, or the database of the EVM. -/
inductive Question
  | move (question : MoveQuestion)
  | db (query : Query)
  deriving DecidableEq

def QuestionAnswer : Question → Type
  | .move question => MoveAnswer question
  | .db query => Except DbError (Answer query)

def codeHashStructTag (codeHash : B256) : StructTag where
  address := evmNativeAddress
  moduleName := evmNativeModule
  name := "CodeHash_" ++ String.ofList (Hex.encode 64 codeHash.toNat)
  typeArgs := []

def orPanic {α : Type} : Option α → Except Unit α
  | none => .error ()
  | some a => .ok a

variable (libs : Libraries) (tree : Tree)

def moveAnswers : Answers MoveAnswer Unit
  | .module address name => orPanic (getModule libs.codec tree address name)
  | .resource address tag => orPanic (getResource libs.codec tree address tag)

/-- A stored value, if there is one; bytes that do not decode give `none`. -/
def decodeStored {α : Type} (decode : Bytes → Option α) (tag : StructTag) : Option (Option α) := do
  match (← getResource libs.codec tree evmNativeAddress tag).1 with
  | none => some none
  | some bytes => (decode bytes).map some

/-- The resources of the EVM in the trie. -/
def resourceAt : ResourceKey → Option (Option ResourceValue)
  | .account a => (decodeStored libs tree libs.account (accountInfoStructTag a)).map fun value =>
      value.map .account
  | .code codeHash => (decodeStored libs tree libs.code (codeHashStructTag codeHash)).map
      fun value => value.map .code

/-- Whether what a question of the EVM reads from the trie decodes. -/
def decodes : Query → Bool
  | .basic a => (resourceAt libs tree (.account a)).isSome
  | .codeByHash codeHash =>
      codeHash = keccakEmpty || (resourceAt libs tree (.code codeHash)).isSome
  | .storage _ _ => true
  | .blockHash _ => true

/-- The database of the EVM over the resolver of a trie. -/
def dbAt (evmStorage : Address → TrieDb) (hashByNumber : ℕ → Option B256) (number : ℕ) :
    ResolverBackedDB :=
  ⟨⟨fun key => (resourceAt libs tree key).join, evmStorage⟩, hashByNumber, number⟩

def answers (evmStorage : Address → TrieDb) (hashByNumber : ℕ → Option B256) (number : ℕ) :
    Answers QuestionAnswer Unit
  | .move question => moveAnswers libs tree question
  | .db query =>
      if decodes libs tree query then
        .ok ((dbAt libs tree evmStorage hashByNumber number).answers libs.lib query)
      else .error ()

end Questions

section Simulation

/-- A request, as far as it is normalised; `to` and `from` are called `target` and `origin`. -/
structure TransactionRequest where
  origin : Option Address
  target : Option TxKind
  gas : Option ℕ
  maxFeePerGas : Option ℕ
  maxPriorityFeePerGas : Option ℕ
  value : Option U256
  input : Option Bytes
  data : Option Bytes
  nonce : Option ℕ
  chainId : Option ℕ

def TransactionRequest.normalized (request : TransactionRequest) : NormalizedEthTransaction where
  signer := request.origin.getD 0
  target := request.target.getD .create
  nonce := request.nonce.getD 0
  value := request.value.getD 0
  data := (request.input.or request.data).getD []
  chainId := request.chainId
  gasLimitWord := BitVec.ofNat 256 (request.gas.getD maxU64)
  maxPriorityFeePerGas := BitVec.ofNat 256 (request.maxPriorityFeePerGas.getD 0)
  maxFeePerGas := BitVec.ofNat 256 (request.maxFeePerGas.getD 0)

/-- The virtual machines over sessions `S`. Balances and nonces are read without the EVM. -/
structure Vm (S : Type) where
  ethBalance : AccountAddress → Program MoveQuestion MoveAnswer (Option U256)
  accountNonce : AccountAddress → Program MoveQuestion MoveAnswer (Option ℕ)
  verifyTransaction : NormalizedEthTransaction → Program Question QuestionAnswer (Except Error S)
  executeFunction : EntryFunction → S → Program Question QuestionAnswer (Except Error Bytes)
  executeScript : Script → AccountAddress → S → Program Question QuestionAnswer (Except Error Unit)
  executeEvmContract : AccountAddress → AccountAddress → U256 → Bytes → S →
    Program Question QuestionAnswer (Except Error Bytes)
  executeTransaction : ExecutionInput →
    Program Question QuestionAnswer (Except Error (Outcome OutcomeChanges))

/-- What a simulation takes from the wall clock and at random. -/
structure Ambient where
  timestamp : ℕ
  prevRandao : B256
  txHash : B256

structure ApplicationReader (S : Type) where
  libs : Libraries
  vm : Vm S
  payloads : PayloadCodec
  pick : List ExtendedBlock → Option ExtendedBlock
  genesisStateRoot : B256

variable {S : Type} (reader : ApplicationReader S) (tree : Tree)

namespace ApplicationReader

def quickGetEthBalance (account : AccountAddress) : Option U256 :=
  ((reader.vm.ethBalance account).run (moveAnswers reader.libs tree)).toOption.join

def quickGetNonce (account : AccountAddress) : Option ℕ :=
  ((reader.vm.accountNonce account).run (moveAnswers reader.libs tree)).toOption.map
    fun nonce => nonce.getD 0

/-- The transaction of a request; a sender without a nonce gets the one it has in the state. -/
def transactionOf (request : TransactionRequest) : Option NormalizedEthTransaction :=
  let tx := request.normalized
  if request.origin.isSome ∧ request.nonce.isNone then
    (reader.quickGetNonce tree (toMoveAddress tx.signer)).map fun nonce => { tx with nonce := nonce }
  else some tx

/-- The match of `call_transaction`, once the transaction is verified. -/
def callPayload (tx : NormalizedEthTransaction) (data : TransactionData) (session : S) :
    Program Question QuestionAnswer (Except Error Bytes) :=
  let sender := toMoveAddress tx.signer
  match data with
  | .entryFunction entryFn => reader.vm.executeFunction entryFn session
  | .scriptOrDeployment (.script script) =>
      (reader.vm.executeScript script sender session).bind fun result =>
        .done (result.map fun _ => [])
  | .l2Contract contract =>
      reader.vm.executeEvmContract sender (toMoveAddress contract) tx.value tx.data session
  | .evmContract address data =>
      reader.vm.executeEvmContract sender (toMoveAddress address) tx.value data session
  | _ => .done (.error (.invalidTransaction .unsupportedType))

def callTransaction (request : TransactionRequest) :
    Option (Program Question QuestionAnswer (Except Error Bytes)) := do
  let tx ← reader.transactionOf tree request
  match parseFrom reader.payloads tx with
  | .error e => some (.done (.error e))
  | .ok data => some ((reader.vm.verifyTransaction tx).bind fun verified =>
      match verified with
      | .error e => .done (.error e)
      | .ok session => reader.callPayload tx data session)

def simulateTransaction (ambient : Ambient) (blockHeight : ℕ) (request : TransactionRequest) :
    Option (Program Question QuestionAnswer (Except Error (Outcome OutcomeChanges))) := do
  let tx ← reader.transactionOf tree request
  some (reader.vm.executeTransaction
    { tx := .canonical tx
      txHash := ambient.txHash
      l1Cost := 1
      l2Fee := .withDefaultGasFeeMultiplier
      l2Input := ⟨maxU64, 0⟩
      blockHeader := ⟨blockHeight, ambient.timestamp, ambient.prevRandao⟩ })

end ApplicationReader

end Simulation

section Reader

inductive BlockNumberOrTag
  | latest
  | finalized
  | safe
  | earliest
  | pending
  | number (height : ℕ)

namespace ApplicationReader

variable {S : Type} (reader : ApplicationReader S) (app : App NodeState)

def resolveHeight : BlockNumberOrTag → Option ℕ
  | .number height => some height
  | .earliest => some 0
  | _ => (memoryOf app.blocks).height

def rootByHeight (height : ℕ) : Option B256 :=
  if height = 0 then some reader.genesisStateRoot
  else ((memoryOf app.blocks).byHeight reader.pick height).map fun block => block.header.stateRoot

/-- The trie of a height, if there is a block; a root without a trie makes the reader panic. -/
def resolver (height : ℕ) : Option (Option Tree) :=
  match reader.rootByHeight app height with
  | none => some none
  | some root => (app.state.state.db root).map some

def resolverAt (height : ℕ) : Option Tree := (reader.resolver app height).join

/-- `StorageBasedProvider::hash_by_number`. -/
def hashByNumber (number : ℕ) : Option B256 :=
  ((memoryOf app.blocks).byHeight reader.pick number).map fun block => block.hash

/-- Answers to a program that runs at a block number, over the trie of some height. -/
def answersAt (tree : Tree) (number : ℕ) : Answers QuestionAnswer Unit :=
  answers reader.libs tree app.state.evmStorage (reader.hashByNumber app) number

def balanceByHeight (address : Address) (tag : BlockNumberOrTag) : Option (Option U256) :=
  match resolveHeight app tag with
  | none => some none
  | some height => do
    match ← reader.resolver app height with
    | none => some none
    | some tree => (reader.quickGetEthBalance tree (toMoveAddress address)).map some

def nonceByHeight (address : Address) (tag : BlockNumberOrTag) : Option (Option ℕ) :=
  match resolveHeight app tag with
  | none => some none
  | some height => do
    match ← reader.resolver app height with
    | none => some none
    | some tree => (reader.quickGetNonce tree (toMoveAddress address)).map some

/-- A program over the trie of a height, run at a block number. -/
def runProgram {R : Type} (height number : ℕ)
    (program : Tree → Option (Program Question QuestionAnswer R)) : Option R := do
  let tree ← reader.resolverAt app height
  let program ← program tree
  (program.run (reader.answersAt app tree number)).toOption

/-- What such a program asks. -/
def programReads {R : Type} (height number : ℕ)
    (program : Tree → Option (Program Question QuestionAnswer R)) : List Question :=
  match reader.resolverAt app height with
  | none => []
  | some tree =>
      match program tree with
      | none => []
      | some program => program.reads (reader.answersAt app tree number)

/-- The session of a call has the default header, whose number is zero. -/
def call (request : TransactionRequest) (tag : BlockNumberOrTag) : Option (Except Error Bytes) := do
  let height ← resolveHeight app tag
  reader.runProgram app height 0 fun tree => reader.callTransaction tree request

/-- A third of the gas is added as a buffer, in 64 bits. -/
def withBuffer (gasUsed : ℕ) : ℕ := (gasUsed + gasUsed / 3) % 2 ^ 64

def estimateGas (ambient : Ambient) (request : TransactionRequest) (tag : BlockNumberOrTag) :
    Option (Except Error ℕ) := do
  let height ← resolveHeight app tag
  let outcome ← reader.runProgram app height height fun tree =>
    reader.simulateTransaction tree ambient height request
  some (outcome.map fun outcome => withBuffer outcome.gasUsed)

/-- What a call at a height asks. -/
def callReads (request : TransactionRequest) (height : ℕ) : List Question :=
  reader.programReads app height 0 fun tree => reader.callTransaction tree request

/-- What an estimate at a height asks. -/
def estimateReads (ambient : Ambient) (request : TransactionRequest) (height : ℕ) :
    List Question :=
  reader.programReads app height height fun tree =>
    reader.simulateTransaction tree ambient height request

end ApplicationReader

end Reader

end OpMove.Queries
