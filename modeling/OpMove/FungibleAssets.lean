import OpMove.Payments
import OpMove.Primitives

/-!
The fungible asset module with 256-bit amounts, and the ETH token on top of it. Supplies, stores
and metadata are resources in the global storage; fungible assets are values that a caller holds
until they are deposited, burned, merged or, when empty, destroyed. Every function aborts or
completes; arithmetic that does not fit a word aborts. What the object module answers is a
parameter of each call.
-/

namespace OpMove.FungibleAssets

open Primitives

section Data

/-- The reasons of the module's aborts. -/
inductive Reason
  | transferRefAndFungibleAssetMismatch
  | storeIsFrozen
  | insufficientBalance
  | maxSupplyExceeded
  | fungibleAssetMismatch
  | notStoreOwner
  | transferRefAndStoreMismatch
  | fungibleAssetAndStoreMismatch
  | amountIsNotZero
  | burnRefAndFungibleAssetMismatch
  | balanceIsNotZero
  | nameTooLong
  | symbolTooLong
  | decimalsTooLarge
  | objectIsDeletable
  | uriTooLong
  | supplyUnderflow
  | supplyNotFound
  | fungibleStoreExistence
  | notOwner
  deriving DecidableEq, Repr

/-- The categories of `std::error`, and what the Move VM itself aborts with. An operation on a
value that the caller does not hold is no Move program. -/
inductive Abort
  | invalidArgument (reason : Reason)
  | outOfRange (reason : Reason)
  | invalidState (reason : Reason)
  | permissionDenied (reason : Reason)
  | notFound (reason : Reason)
  | arithmeticError
  | resourceAlreadyExists
  | object
  | notHeld
  deriving DecidableEq, Repr

structure Supply where
  current : U256
  maximum : Option U256
  deriving DecidableEq, Repr

structure Metadata where
  name : String
  symbol : String
  decimals : ℕ
  iconUri : String
  projectUri : String
  deriving DecidableEq, Repr

structure FungibleStore where
  metadata : AccountAddress
  balance : U256
  frozen : Bool
  deriving DecidableEq, Repr

structure FungibleAsset where
  metadata : AccountAddress
  amount : U256
  deriving DecidableEq, Repr

structure MintRef where
  metadata : AccountAddress

structure TransferRef where
  metadata : AccountAddress

structure BurnRef where
  metadata : AccountAddress

inductive Event
  | deposit (store : AccountAddress) (amount : U256)
  | withdraw (store : AccountAddress) (amount : U256)
  | frozen (store : AccountAddress) (frozen : Bool)
  deriving DecidableEq, Repr

structure Resources where
  supply : AccountAddress → Option Supply
  metadata : AccountAddress → Option Metadata
  store : AccountAddress → Option FungibleStore
  events : List Event

/-- What the object module answers in a call; a constructor ref is known by its address. -/
structure Objects where
  owns : AccountAddress → AccountAddress → Bool
  isOwner : AccountAddress → AccountAddress → Bool
  canGenerateDeleteRef : AccountAddress → Bool
  isUntransferable : AccountAddress → Bool
  setUntransferable : AccountAddress → Bool
  createUserDerivedObject : AccountAddress → AccountAddress → Bool
  userDerivedObjectAddress : AccountAddress → AccountAddress → AccountAddress

namespace Resources

variable (resources : Resources)

def withSupply (metadata : AccountAddress) (supply : Supply) : Resources :=
  { resources with supply := Function.update resources.supply metadata (some supply) }

def withStore (address : AccountAddress) (store : Option FungibleStore) : Resources :=
  { resources with store := Function.update resources.store address store }

def emit (event : Event) : Resources := { resources with events := resources.events ++ [event] }

end Resources

end Data

section Checks

def require (condition : Bool) (abort : Abort) : Except Abort Unit :=
  if condition then .ok () else .error abort

def checkedAdd (a b : U256) : Except Abort U256 :=
  if a.toNat + b.toNat < 2 ^ 256 then .ok (a + b) else .error .arithmeticError

def checkedSub (a b : U256) : Except Abort U256 :=
  if b.toNat ≤ a.toNat then .ok (a - b) else .error .arithmeticError

variable (resources : Resources) (objects : Objects)

/-- `borrow_store_resource`. -/
def borrowStoreResource (store : AccountAddress) : Except Abort FungibleStore :=
  match resources.store store with
  | some found => .ok found
  | none => .error (.notFound .fungibleStoreExistence)

def withdrawSanityCheck (owner store : AccountAddress) : Except Abort Unit := do
  require (objects.owns store owner) (.permissionDenied .notStoreOwner)
  let found ← borrowStoreResource resources store
  require (!found.frozen) (.permissionDenied .storeIsFrozen)

def depositSanityCheck (store : AccountAddress) : Except Abort Unit := do
  let found ← borrowStoreResource resources store
  require (!found.frozen) (.permissionDenied .storeIsFrozen)

/-- `object::convert` to an object with metadata. -/
def convertMetadata (metadata : AccountAddress) : Except Abort Unit :=
  require (resources.metadata metadata).isSome .object

end Checks

section Functions

variable (resources : Resources) (objects : Objects)

def maxNameLength : ℕ := 32
def maxSymbolLength : ℕ := 10
def maxDecimals : ℕ := 32
def maxUriLength : ℕ := 512

def addFungibility (constructorRef : AccountAddress) (maximumSupply : Option U256)
    (metadata : Metadata) : Except Abort Resources := do
  require (!objects.canGenerateDeleteRef constructorRef) (.invalidArgument .objectIsDeletable)
  require (metadata.name.utf8ByteSize ≤ maxNameLength) (.outOfRange .nameTooLong)
  require (metadata.symbol.utf8ByteSize ≤ maxSymbolLength) (.outOfRange .symbolTooLong)
  require (metadata.decimals ≤ maxDecimals) (.outOfRange .decimalsTooLarge)
  require (metadata.iconUri.utf8ByteSize ≤ maxUriLength) (.outOfRange .uriTooLong)
  require (metadata.projectUri.utf8ByteSize ≤ maxUriLength) (.outOfRange .uriTooLong)
  require (resources.metadata constructorRef).isNone .resourceAlreadyExists
  require (resources.supply constructorRef).isNone .resourceAlreadyExists
  .ok { resources.withSupply constructorRef ⟨0, maximumSupply⟩ with
        metadata := Function.update resources.metadata constructorRef (some metadata) }

def increaseSupply (metadata : AccountAddress) (amount : U256) : Except Abort Resources :=
  if amount = 0 then .ok resources
  else
    match resources.supply metadata with
    | none => .error (.notFound .supplyNotFound)
    | some supply => do
      match supply.maximum with
      | none => .ok ()
      | some maximum => do
        let left ← checkedSub maximum supply.current
        require (amount.toNat ≤ left.toNat) (.outOfRange .maxSupplyExceeded)
      let current ← checkedAdd supply.current amount
      .ok (resources.withSupply metadata { supply with current := current })

def decreaseSupply (metadata : AccountAddress) (amount : U256) : Except Abort Resources :=
  if amount = 0 then .ok resources
  else
    match resources.supply metadata with
    | none => .error (.notFound .supplyNotFound)
    | some supply => do
      require (amount.toNat ≤ supply.current.toNat) (.invalidState .supplyUnderflow)
      let current ← checkedSub supply.current amount
      .ok (resources.withSupply metadata { supply with current := current })

def depositInternal (store : AccountAddress) (fa : FungibleAsset) : Except Abort Resources :=
  if fa.amount = 0 then .ok resources
  else do
    let found ← borrowStoreResource resources store
    require (fa.metadata == found.metadata) (.invalidArgument .fungibleAssetAndStoreMismatch)
    let balance ← checkedAdd found.balance fa.amount
    .ok ((resources.withStore store (some { found with balance := balance })).emit
      (.deposit store fa.amount))

def withdrawInternal (store : AccountAddress) (amount : U256) :
    Except Abort (FungibleAsset × Resources) := do
  let found ← borrowStoreResource resources store
  if amount = 0 then .ok (⟨found.metadata, amount⟩, resources)
  else do
    require (amount.toNat ≤ found.balance.toNat) (.invalidArgument .insufficientBalance)
    let balance ← checkedSub found.balance amount
    .ok (⟨found.metadata, amount⟩, (resources.withStore store
      (some { found with balance := balance })).emit (.withdraw store amount))

def mintInternal (metadata : AccountAddress) (amount : U256) :
    Except Abort (FungibleAsset × Resources) := do
  let resources ← increaseSupply resources metadata amount
  .ok (⟨metadata, amount⟩, resources)

def mint (ref : MintRef) (amount : U256) : Except Abort (FungibleAsset × Resources) :=
  mintInternal resources ref.metadata amount

def mintTo (ref : MintRef) (store : AccountAddress) (amount : U256) : Except Abort Resources := do
  depositSanityCheck resources store
  let (fa, resources) ← mint resources ref amount
  depositInternal resources store fa

def burnInternal (fa : FungibleAsset) : Except Abort Resources :=
  decreaseSupply resources fa.metadata fa.amount

def burn (ref : BurnRef) (fa : FungibleAsset) : Except Abort Resources := do
  require (ref.metadata == fa.metadata) (.invalidArgument .burnRefAndFungibleAssetMismatch)
  burnInternal resources fa

def burnFrom (ref : BurnRef) (store : AccountAddress) (amount : U256) : Except Abort Resources := do
  let (fa, resources) ← withdrawInternal resources store amount
  burn resources ref fa

def addressBurnFrom (ref : BurnRef) (store : AccountAddress) (amount : U256) :
    Except Abort Resources := do
  let (fa, resources) ← withdrawInternal resources store amount
  burn resources ref fa

def withdraw (owner store : AccountAddress) (amount : U256) :
    Except Abort (FungibleAsset × Resources) := do
  withdrawSanityCheck resources objects owner store
  withdrawInternal resources store amount

def deposit (store : AccountAddress) (fa : FungibleAsset) : Except Abort Resources := do
  depositSanityCheck resources store
  depositInternal resources store fa

def transfer (sender source target : AccountAddress) (amount : U256) : Except Abort Resources := do
  let (fa, resources) ← withdraw resources objects sender source amount
  deposit resources target fa

def withdrawWithRef (ref : TransferRef) (store : AccountAddress) (amount : U256) :
    Except Abort (FungibleAsset × Resources) := do
  let found ← borrowStoreResource resources store
  require (ref.metadata == found.metadata) (.invalidArgument .transferRefAndStoreMismatch)
  withdrawInternal resources store amount

def depositWithRef (ref : TransferRef) (store : AccountAddress) (fa : FungibleAsset) :
    Except Abort Resources := do
  require (ref.metadata == fa.metadata) (.invalidArgument .transferRefAndFungibleAssetMismatch)
  depositInternal resources store fa

def transferWithRef (ref : TransferRef) (source target : AccountAddress) (amount : U256) :
    Except Abort Resources := do
  let (fa, resources) ← withdrawWithRef resources ref source amount
  depositWithRef resources ref target fa

def zero (metadata : AccountAddress) : Except Abort FungibleAsset := do
  convertMetadata resources metadata
  .ok ⟨metadata, 0⟩

/-- The rest of the asset, and the extracted part. -/
def extract (fa : FungibleAsset) (amount : U256) : Except Abort (FungibleAsset × FungibleAsset) := do
  require (amount.toNat ≤ fa.amount.toNat) (.invalidArgument .insufficientBalance)
  let rest ← checkedSub fa.amount amount
  .ok (⟨fa.metadata, rest⟩, ⟨fa.metadata, amount⟩)

def merge (dst src : FungibleAsset) : Except Abort FungibleAsset := do
  require (src.metadata == dst.metadata) (.invalidArgument .fungibleAssetMismatch)
  let amount ← checkedAdd dst.amount src.amount
  .ok ⟨dst.metadata, amount⟩

def destroyZero (fa : FungibleAsset) : Except Abort Unit :=
  require (fa.amount == 0) (.invalidArgument .amountIsNotZero)

def createStore (constructorRef metadata : AccountAddress) : Except Abort Resources := do
  convertMetadata resources metadata
  require (resources.store constructorRef).isNone .resourceAlreadyExists
  require (!objects.isUntransferable metadata || objects.setUntransferable constructorRef) .object
  .ok (resources.withStore constructorRef (some ⟨metadata, 0, false⟩))

def removeStore (deleteRef : AccountAddress) : Except Abort Resources :=
  match resources.store deleteRef with
  | none => .error .object
  | some found => do
    require (found.balance == 0) (.permissionDenied .balanceIsNotZero)
    .ok (resources.withStore deleteRef none)

def setFrozenFlag (ref : TransferRef) (store : AccountAddress) (frozen : Bool) :
    Except Abort Resources := do
  let found ← borrowStoreResource resources store
  require (ref.metadata == found.metadata) (.invalidArgument .transferRefAndStoreMismatch)
  .ok ((resources.withStore store (some { found with frozen := frozen })).emit (.frozen store frozen))

end Functions

section EthToken

variable (resources : Resources) (objects : Objects)

/-- `primary_fungible_store_u256::ensure_primary_store_exists`. -/
def ensurePrimaryStoreExists (owner metadata : AccountAddress) :
    Except Abort (AccountAddress × Resources) :=
  let store := objects.userDerivedObjectAddress owner metadata
  if (resources.store store).isSome then .ok (store, resources)
  else do
    convertMetadata resources metadata
    require (objects.createUserDerivedObject owner metadata) .object
    let resources ← createStore resources objects store metadata
    .ok (store, resources)

/-- `primary_fungible_store_u256::primary_store`. -/
def primaryStore (owner metadata : AccountAddress) : Except Abort AccountAddress := do
  let store := objects.userDerivedObjectAddress owner metadata
  require (resources.store store).isSome .object
  .ok store

/-- `authorized_borrow_refs`; the refs were generated for the asset itself. -/
def authorizedBorrowRefs (owner asset : AccountAddress) :
    Except Abort (MintRef × TransferRef × BurnRef) := do
  convertMetadata resources asset
  require (objects.isOwner asset owner) (.permissionDenied .notOwner)
  .ok (⟨asset⟩, ⟨asset⟩, ⟨asset⟩)

variable (asset : AccountAddress)

def ethMint (admin target : AccountAddress) (amount : U256) : Except Abort Resources := do
  let refs ← authorizedBorrowRefs resources objects admin asset
  let (toWallet, resources) ← ensurePrimaryStoreExists resources objects target asset
  let (fa, resources) ← mint resources refs.1 amount
  depositWithRef resources refs.2.1 toWallet fa

def ethTransfer (admin source target : AccountAddress) (amount : U256) : Except Abort Resources := do
  let refs ← authorizedBorrowRefs resources objects admin asset
  let fromWallet ← primaryStore resources objects source asset
  let (toWallet, resources) ← ensurePrimaryStoreExists resources objects target asset
  let (fa, resources) ← withdrawWithRef resources refs.2.1 fromWallet amount
  depositWithRef resources refs.2.1 toWallet fa

def ethBurn (admin source : AccountAddress) (amount : U256) : Except Abort Resources := do
  let refs ← authorizedBorrowRefs resources objects admin asset
  let fromWallet ← primaryStore resources objects source asset
  burnFrom resources refs.2.2 fromWallet amount

end EthToken

section System

/-- The global storage and the fungible assets that exist as values. -/
structure System where
  resources : Resources
  live : List FungibleAsset

def System.empty : System := ⟨⟨fun _ => none, fun _ => none, fun _ => none, []⟩, []⟩

/-- A live asset is named by its place. -/
inductive Operation
  | addFungibility (constructorRef : AccountAddress) (maximumSupply : Option U256)
      (metadata : Metadata)
  | mint (ref : MintRef) (amount : U256)
  | mintTo (ref : MintRef) (store : AccountAddress) (amount : U256)
  | burn (ref : BurnRef) (fa : ℕ)
  | burnFrom (ref : BurnRef) (store : AccountAddress) (amount : U256)
  | addressBurnFrom (ref : BurnRef) (store : AccountAddress) (amount : U256)
  | withdraw (owner store : AccountAddress) (amount : U256)
  | withdrawWithRef (ref : TransferRef) (store : AccountAddress) (amount : U256)
  | deposit (store : AccountAddress) (fa : ℕ)
  | depositWithRef (ref : TransferRef) (store : AccountAddress) (fa : ℕ)
  | transfer (sender source target : AccountAddress) (amount : U256)
  | transferWithRef (ref : TransferRef) (source target : AccountAddress) (amount : U256)
  | extract (fa : ℕ) (amount : U256)
  | merge (dst src : ℕ)
  | zero (metadata : AccountAddress)
  | destroyZero (fa : ℕ)
  | createStore (constructorRef metadata : AccountAddress)
  | removeStore (deleteRef : AccountAddress)
  | setFrozenFlag (ref : TransferRef) (store : AccountAddress) (frozen : Bool)
  | ethMint (admin target : AccountAddress) (amount : U256)
  | ethTransfer (admin source target : AccountAddress) (amount : U256)
  | ethBurn (admin source : AccountAddress) (amount : U256)

/-- A value taken from the live ones, and the rest. -/
def take (live : List FungibleAsset) (place : ℕ) :
    Except Abort (FungibleAsset × List FungibleAsset) :=
  match live[place]? with
  | some fa => .ok (fa, live.eraseIdx place)
  | none => .error .notHeld

/-- A call that gives an asset to the caller. -/
def giving (live : List FungibleAsset) (call : Except Abort (FungibleAsset × Resources)) :
    Except Abort System := do
  let (fa, resources) ← call
  .ok ⟨resources, fa :: live⟩

/-- A call that leaves the caller's assets alone. -/
def keeping (live : List FungibleAsset) (call : Except Abort Resources) : Except Abort System := do
  let resources ← call
  .ok ⟨resources, live⟩

variable (asset : AccountAddress) (objects : Objects) (system : System)

/-- One operation by any caller; the ETH asset has a fixed address. -/
def step : Operation → Except Abort System
  | .addFungibility constructorRef maximumSupply metadata => keeping system.live
      (addFungibility system.resources objects constructorRef maximumSupply metadata)
  | .mint ref amount => giving system.live (mint system.resources ref amount)
  | .mintTo ref store amount => keeping system.live (mintTo system.resources ref store amount)
  | .burn ref place => do
      let (fa, live) ← take system.live place
      keeping live (burn system.resources ref fa)
  | .burnFrom ref store amount => keeping system.live (burnFrom system.resources ref store amount)
  | .addressBurnFrom ref store amount =>
      keeping system.live (addressBurnFrom system.resources ref store amount)
  | .withdraw owner store amount =>
      giving system.live (withdraw system.resources objects owner store amount)
  | .withdrawWithRef ref store amount =>
      giving system.live (withdrawWithRef system.resources ref store amount)
  | .deposit store place => do
      let (fa, live) ← take system.live place
      keeping live (deposit system.resources store fa)
  | .depositWithRef ref store place => do
      let (fa, live) ← take system.live place
      keeping live (depositWithRef system.resources ref store fa)
  | .transfer sender source target amount =>
      keeping system.live (transfer system.resources objects sender source target amount)
  | .transferWithRef ref source target amount =>
      keeping system.live (transferWithRef system.resources ref source target amount)
  | .extract place amount => do
      let (fa, live) ← take system.live place
      let (rest, part) ← extract fa amount
      .ok ⟨system.resources, part :: rest :: live⟩
  | .merge dst src => do
      let (dst, live) ← take system.live dst
      let (src, live) ← take live src
      let fa ← merge dst src
      .ok ⟨system.resources, fa :: live⟩
  | .zero metadata => do
      let fa ← zero system.resources metadata
      .ok ⟨system.resources, fa :: system.live⟩
  | .destroyZero place => do
      let (fa, live) ← take system.live place
      destroyZero fa
      .ok ⟨system.resources, live⟩
  | .createStore constructorRef metadata =>
      keeping system.live (createStore system.resources objects constructorRef metadata)
  | .removeStore deleteRef => keeping system.live (removeStore system.resources deleteRef)
  | .setFrozenFlag ref store frozen =>
      keeping system.live (setFrozenFlag system.resources ref store frozen)
  | .ethMint admin target amount =>
      keeping system.live (ethMint system.resources objects asset admin target amount)
  | .ethTransfer admin source target amount =>
      keeping system.live (ethTransfer system.resources objects asset admin source target amount)
  | .ethBurn admin source amount =>
      keeping system.live (ethBurn system.resources objects asset admin source amount)

/-- Sequences of operations by any callers; one that aborts has no effect. -/
inductive Runs : System → Prop
  | empty : Runs .empty
  | completed {system next : System} {objects : Objects} {operation : Operation} : Runs system →
      step asset objects system operation = .ok next → Runs next
  | aborted {system : System} {objects : Objects} {operation : Operation} {abort : Abort} :
      Runs system → step asset objects system operation = .error abort → Runs system

end System

end OpMove.FungibleAssets
