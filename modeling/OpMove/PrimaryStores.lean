import OpMove.AssetSupply

/-!
Primary stores of a fungible asset. Each owner has one store for an asset, at an address derived
from both, which is made when it is first needed. The functions of this module are calls of the
asset module on such stores, so that every balance is what was paid in less what was paid out,
through whichever of the two modules, and only an owner or a ref of the asset takes out.
-/

namespace OpMove.PrimaryStores

open Primitives FungibleAssets AssetSupply Outcomes Payments

section Functions

/-- The views of the asset module. -/
def storeBalance (resources : Resources) (store : AccountAddress) : U256 :=
  match resources.store store with
  | some found => found.balance
  | none => 0

def isAddressBalanceAtLeast (resources : Resources) (store : AccountAddress) (amount : U256) :
    Bool :=
  match resources.store store with
  | some found => amount.toNat ≤ found.balance.toNat
  | none => amount == 0

def isStoreFrozen (resources : Resources) (store : AccountAddress) : Bool :=
  match resources.store store with
  | some found => found.frozen
  | none => false

/-- What the object module answers about burnt objects too. Who takes an object back owns it from
then on; `unburn` has the owners afterwards. -/
structure StoreObjects extends Objects where
  isBurnt : AccountAddress → Bool
  unburn : AccountAddress → AccountAddress → Option (AccountAddress → AccountAddress → Bool)

variable (resources : Resources) (objects : Objects) (store : StoreObjects)

def primaryStoreAddress (owner metadata : AccountAddress) : AccountAddress :=
  objects.userDerivedObjectAddress owner metadata

def primaryStoreExists (account metadata : AccountAddress) : Bool :=
  (resources.store (primaryStoreAddress objects account metadata)).isSome

def balance (account metadata : AccountAddress) : U256 :=
  if primaryStoreExists resources objects account metadata then
    storeBalance resources (primaryStoreAddress objects account metadata)
  else 0

def isBalanceAtLeast (account metadata : AccountAddress) (amount : U256) : Bool :=
  if primaryStoreExists resources objects account metadata then
    isAddressBalanceAtLeast resources (primaryStoreAddress objects account metadata) amount
  else amount == 0

def isFrozen (account metadata : AccountAddress) : Bool :=
  if primaryStoreExists resources objects account metadata then
    isStoreFrozen resources (primaryStoreAddress objects account metadata)
  else false

/-- The derive ref of the new asset is kept by the object module. -/
def createPrimaryStoreEnabledFungibleAsset (constructorRef : AccountAddress)
    (maximumSupply : Option U256) (metadata : Metadata) : Except Abort Resources :=
  addFungibility resources objects constructorRef maximumSupply metadata

def mayBeUnburn (owner address : AccountAddress) : Except Abort Objects :=
  if store.isBurnt address then
    match store.unburn owner address with
    | some owns => .ok { store.toObjects with owns := owns }
    | none => .error .object
  else .ok store.toObjects

def withdraw (owner metadata : AccountAddress) (amount : U256) :
    Except Abort (FungibleAsset × Resources) := do
  let (address, resources) ← ensurePrimaryStoreExists resources store.toObjects owner metadata
  let objects ← mayBeUnburn store owner address
  FungibleAssets.withdraw resources objects owner address amount

def deposit (owner : AccountAddress) (fa : FungibleAsset) : Except Abort Resources := do
  let (address, resources) ← ensurePrimaryStoreExists resources objects owner fa.metadata
  FungibleAssets.deposit resources address fa

def forceDeposit (owner : AccountAddress) (fa : FungibleAsset) : Except Abort Resources := do
  let (address, resources) ← ensurePrimaryStoreExists resources objects owner fa.metadata
  depositInternal resources address fa

def transfer (sender metadata recipient : AccountAddress) (amount : U256) :
    Except Abort Resources := do
  let (source, resources) ← ensurePrimaryStoreExists resources store.toObjects sender metadata
  let objects ← mayBeUnburn store sender source
  let (target, resources) ← ensurePrimaryStoreExists resources objects recipient metadata
  FungibleAssets.transfer resources objects sender source target amount

/-- Aborts of the asset module, and that of a deposit that is too small. -/
inductive Failure
  | abort (abort : Abort)
  | amountMismatch
  deriving DecidableEq, Repr

def failing {α : Type} (x : Except Abort α) : Except Failure α := x.mapError .abort

/-- What is compared is the balance under the address of the metadata. -/
def transferAssertMinimumDeposit (sender metadata recipient : AccountAddress)
    (amount expected : U256) : Except Failure Resources := do
  let (source, resources) ←
    failing (ensurePrimaryStoreExists resources store.toObjects sender metadata)
  let objects ← failing (mayBeUnburn store sender source)
  let (target, resources) ← failing (ensurePrimaryStoreExists resources objects recipient metadata)
  let start := storeBalance resources metadata
  let resources ←
    failing (FungibleAssets.transfer resources objects sender source target amount)
  let gained ← failing (checkedSub (storeBalance resources metadata) start)
  if expected.toNat ≤ gained.toNat then .ok resources else .error .amountMismatch

def mint (ref : MintRef) (owner : AccountAddress) (amount : U256) : Except Abort Resources := do
  let (address, resources) ← ensurePrimaryStoreExists resources objects owner ref.metadata
  mintTo resources ref address amount

def burn (ref : BurnRef) (owner : AccountAddress) (amount : U256) : Except Abort Resources := do
  let address ← primaryStore resources objects owner ref.metadata
  burnFrom resources ref address amount

def setFrozenFlag (ref : TransferRef) (owner : AccountAddress) (frozen : Bool) :
    Except Abort Resources := do
  let (address, resources) ← ensurePrimaryStoreExists resources objects owner ref.metadata
  FungibleAssets.setFrozenFlag resources ref address frozen

def withdrawWithRef (ref : TransferRef) (owner : AccountAddress) (amount : U256) :
    Except Abort (FungibleAsset × Resources) := do
  let address ← primaryStore resources objects owner ref.metadata
  FungibleAssets.withdrawWithRef resources ref address amount

def depositWithRef (ref : TransferRef) (owner : AccountAddress) (fa : FungibleAsset) :
    Except Abort Resources := do
  let (address, resources) ← ensurePrimaryStoreExists resources objects owner ref.metadata
  FungibleAssets.depositWithRef resources ref address fa

def transferWithRef (ref : TransferRef) (owner recipient : AccountAddress) (amount : U256) :
    Except Abort Resources := do
  let source ← primaryStore resources objects owner ref.metadata
  let (target, resources) ← ensurePrimaryStoreExists resources objects recipient ref.metadata
  FungibleAssets.transferWithRef resources ref source target amount

end Functions

section Calls

/-- A call of either module. -/
inductive Call
  | asset (operation : Operation)
  | createPrimaryStoreEnabledFungibleAsset (constructorRef : AccountAddress)
      (maximumSupply : Option U256) (metadata : Metadata)
  | ensurePrimaryStoreExists (owner metadata : AccountAddress)
  | withdraw (owner metadata : AccountAddress) (amount : U256)
  | deposit (owner : AccountAddress) (fa : ℕ)
  | forceDeposit (owner : AccountAddress) (fa : ℕ)
  | transfer (sender metadata recipient : AccountAddress) (amount : U256)
  | transferAssertMinimumDeposit (sender metadata recipient : AccountAddress)
      (amount expected : U256)
  | mint (ref : MintRef) (owner : AccountAddress) (amount : U256)
  | burn (ref : BurnRef) (owner : AccountAddress) (amount : U256)
  | setFrozenFlag (ref : TransferRef) (owner : AccountAddress) (frozen : Bool)
  | withdrawWithRef (ref : TransferRef) (owner : AccountAddress) (amount : U256)
  | depositWithRef (ref : TransferRef) (owner : AccountAddress) (fa : ℕ)
  | transferWithRef (ref : TransferRef) (owner recipient : AccountAddress) (amount : U256)

variable (asset : AccountAddress) (objects : StoreObjects) (system : System)

def step : Call → Except Failure System
  | .asset operation => failing (FungibleAssets.step asset objects.toObjects system operation)
  | .createPrimaryStoreEnabledFungibleAsset constructorRef maximumSupply metadata =>
      failing (keeping system.live (createPrimaryStoreEnabledFungibleAsset system.resources
        objects.toObjects constructorRef maximumSupply metadata))
  | .ensurePrimaryStoreExists owner metadata => do
      let (_, resources) ← failing
        (FungibleAssets.ensurePrimaryStoreExists system.resources objects.toObjects owner metadata)
      .ok ⟨resources, system.live⟩
  | .withdraw owner metadata amount =>
      failing (giving system.live (withdraw system.resources objects owner metadata amount))
  | .deposit owner place => do
      let (fa, live) ← failing (take system.live place)
      failing (keeping live (deposit system.resources objects.toObjects owner fa))
  | .forceDeposit owner place => do
      let (fa, live) ← failing (take system.live place)
      failing (keeping live (forceDeposit system.resources objects.toObjects owner fa))
  | .transfer sender metadata recipient amount => failing (keeping system.live
      (transfer system.resources objects sender metadata recipient amount))
  | .transferAssertMinimumDeposit sender metadata recipient amount expected => do
      let resources ← transferAssertMinimumDeposit system.resources objects sender metadata
        recipient amount expected
      .ok ⟨resources, system.live⟩
  | .mint ref owner amount =>
      failing (keeping system.live (mint system.resources objects.toObjects ref owner amount))
  | .burn ref owner amount =>
      failing (keeping system.live (burn system.resources objects.toObjects ref owner amount))
  | .setFrozenFlag ref owner frozen => failing (keeping system.live
      (setFrozenFlag system.resources objects.toObjects ref owner frozen))
  | .withdrawWithRef ref owner amount => failing (giving system.live
      (withdrawWithRef system.resources objects.toObjects ref owner amount))
  | .depositWithRef ref owner place => do
      let (fa, live) ← failing (take system.live place)
      failing (keeping live (depositWithRef system.resources objects.toObjects ref owner fa))
  | .transferWithRef ref owner recipient amount => failing (keeping system.live
      (transferWithRef system.resources objects.toObjects ref owner recipient amount))

/-- A call that was made, with what the object module answered and what the caller held. -/
structure Done where
  objects : StoreObjects
  live : List FungibleAsset
  call : Call

/-- Sequences of calls by anyone, the last completed one first; one that aborts has no effect. -/
inductive Runs : System → List Done → Prop
  | empty : Runs .empty []
  | completed {system next : System} {history : List Done} {objects : StoreObjects} {call : Call} :
      Runs system history → step asset objects system call = .ok next →
      Runs next (⟨objects, system.live, call⟩ :: history)
  | aborted {system : System} {history : List Done} {objects : StoreObjects} {call : Call}
      {failure : Failure} : Runs system history →
      step asset objects system call = .error failure → Runs system history

end Calls

section Payments

/-- What is held under an address. -/
def heldAt (resources : Resources) (address : AccountAddress) : ℕ :=
  (storeBalance resources address).toNat

def credit (store : AccountAddress) (amount : U256) (address : AccountAddress) : ℤ :=
  if address = store then (amount.toNat : ℤ) else 0

def debit (store : AccountAddress) (amount : U256) (address : AccountAddress) : ℤ :=
  -credit store amount address

/-- From one store to another. -/
def moved (source target : AccountAddress) (amount : U256) (address : AccountAddress) : ℤ :=
  Payment.delta ⟨source, target, amount.toNat⟩ address

/-- The amount of the asset that a caller names. -/
def amountAt (live : List FungibleAsset) (place : ℕ) : U256 :=
  (live[place]?.map FungibleAsset.amount).getD 0

variable (asset : AccountAddress) (objects : Objects) (live : List FungibleAsset)

/-- What an operation of the asset module pays in and out under each address. -/
def operationPays : Operation → AccountAddress → ℤ
  | .mintTo _ store amount => credit store amount
  | .burnFrom _ store amount | .addressBurnFrom _ store amount | .withdraw _ store amount
  | .withdrawWithRef _ store amount => debit store amount
  | .deposit store place | .depositWithRef _ store place => credit store (amountAt live place)
  | .transfer _ source target amount | .transferWithRef _ source target amount =>
      moved source target amount
  | .ethMint _ target amount => credit (primaryStoreAddress objects target asset) amount
  | .ethTransfer _ source target amount => moved (primaryStoreAddress objects source asset)
      (primaryStoreAddress objects target asset) amount
  | .ethBurn _ source amount => debit (primaryStoreAddress objects source asset) amount
  | _ => fun _ => 0

end Payments

/-- What a call pays in and out. The metadata of a deposit is that of the asset. -/
def Call.pays (asset : AccountAddress) (objects : Objects) (live : List FungibleAsset) :
    Call → AccountAddress → ℤ
  | .asset operation => operationPays asset objects live operation
  | .withdraw owner metadata amount => debit (primaryStoreAddress objects owner metadata) amount
  | .deposit owner place | .forceDeposit owner place => credit (primaryStoreAddress objects owner
      ((live[place]?.map FungibleAsset.metadata).getD 0)) (amountAt live place)
  | .transfer sender metadata recipient amount
  | .transferAssertMinimumDeposit sender metadata recipient amount _ =>
      moved (primaryStoreAddress objects sender metadata)
        (primaryStoreAddress objects recipient metadata) amount
  | .mint ref owner amount => credit (primaryStoreAddress objects owner ref.metadata) amount
  | .burn ref owner amount => debit (primaryStoreAddress objects owner ref.metadata) amount
  | .withdrawWithRef ref owner amount =>
      debit (primaryStoreAddress objects owner ref.metadata) amount
  | .depositWithRef ref owner place =>
      credit (primaryStoreAddress objects owner ref.metadata) (amountAt live place)
  | .transferWithRef ref owner recipient amount =>
      moved (primaryStoreAddress objects owner ref.metadata)
        (primaryStoreAddress objects recipient ref.metadata) amount
  | _ => fun _ => 0

def Done.pays (asset : AccountAddress) (done : Done) : AccountAddress → ℤ :=
  done.call.pays asset done.objects.toObjects done.live

section Authority

/-- The owner of a store signs for it, and it is not frozen. -/
def SignedBy (objects : Objects) (resources : Resources) (owner store : AccountAddress) : Prop :=
  objects.owns store owner = true ∧
    ∃ found, resources.store store = some found ∧ found.frozen = false

/-- The store holds the asset of a ref. -/
def RefFor (resources : Resources) (metadata store : AccountAddress) : Prop :=
  ∃ found, resources.store store = some found ∧ found.metadata = metadata

/-- The owner signs, once a burnt store is taken back. -/
def SignedOrUnburnt (objects : StoreObjects) (resources : Resources)
    (owner store : AccountAddress) : Prop :=
  ∃ unburnt, mayBeUnburn objects owner store = .ok unburnt ∧ SignedBy unburnt resources owner store

/-- Who may take from a store by a call. -/
def Authorized (asset : AccountAddress) (objects : StoreObjects) (resources : Resources)
    (store : AccountAddress) : Call → Prop
  | .asset (.withdraw owner _ _) | .asset (.transfer owner _ _ _) =>
      SignedBy objects.toObjects resources owner store
  | .asset (.burnFrom ref _ _) | .asset (.addressBurnFrom ref _ _) | .burn ref _ _ =>
      RefFor resources ref.metadata store
  | .asset (.withdrawWithRef ref _ _) | .asset (.transferWithRef ref _ _ _)
  | .withdrawWithRef ref _ _ | .transferWithRef ref _ _ _ => RefFor resources ref.metadata store
  | .asset (.ethTransfer admin _ _ _) | .asset (.ethBurn admin _ _) =>
      objects.isOwner asset admin = true ∧ RefFor resources asset store
  | .withdraw owner _ _ | .transfer owner _ _ _ | .transferAssertMinimumDeposit owner _ _ _ _ =>
      SignedOrUnburnt objects resources owner store
  | _ => False

end Authority

section Balances

variable {resources next last : Resources}

theorem heldAt_eq_of_store (h : next.store = resources.store) : heldAt next = heldAt resources := by
  funext address
  unfold heldAt storeBalance
  rw [h]

/-- No store changes. -/
theorem moves_of_store (h : next.store = resources.store) :
    Moves (heldAt resources) (heldAt next) fun _ => 0 := by
  rw [heldAt_eq_of_store h]
  exact Moves.refl _

theorem moves_withStore {store : AccountAddress} {found : Option FungibleStore} {change : ℤ}
    (h : (((found.map FungibleStore.balance).getD 0).toNat : ℤ) =
      heldAt resources store + change) :
    Moves (heldAt resources) (heldAt (resources.withStore store found))
      fun address => if address = store then change else 0 := by
  intro address
  by_cases hstore : address = store
  · subst hstore
    simp only [if_true]
    rw [← h]
    unfold heldAt storeBalance Resources.withStore
    dsimp only
    rw [Function.update_self]
    cases found <;> rfl
  · simp only [hstore, if_false, add_zero]
    unfold heldAt storeBalance Resources.withStore
    dsimp only
    rw [Function.update_of_ne hstore]

theorem moves_congr {before after : AccountAddress → ℕ} {change change' : AccountAddress → ℤ}
    (h : Moves before after change) (heq : ∀ address, change address = change' address) :
    Moves before after change' := by
  intro address
  rw [h address, heq address]

/-- What goes down was there. -/
theorem held_pos {change : AccountAddress → ℤ} {address : AccountAddress}
    (h : Moves (heldAt resources) (heldAt next) change) (hneg : change address < 0) :
    0 < heldAt resources address := by
  have hstep := h address
  omega

/-- The stores that are there stay as they are, and new ones are empty. -/
structure Keeps (resources next : Resources) : Prop where
  stores : ∀ address found, resources.store address = some found →
    next.store address = some found
  moves : Moves (heldAt resources) (heldAt next) fun _ => 0

theorem Keeps.refl (resources : Resources) : Keeps resources resources :=
  ⟨fun _ _ h => h, Moves.refl _⟩

theorem Keeps.trans (h : Keeps resources next) (h' : Keeps next last) : Keeps resources last :=
  ⟨fun address found hfound => h'.stores address found (h.stores address found hfound),
    moves_congr (h.moves.trans h'.moves) fun _ => add_zero 0⟩

theorem Keeps.then {change : AccountAddress → ℤ} (h : Keeps resources next)
    (h' : Moves (heldAt next) (heldAt last) change) :
    Moves (heldAt resources) (heldAt last) change :=
  moves_congr (h.moves.trans h') fun _ => zero_add _

/-- A store that holds something is not a new one. -/
theorem Keeps.store_eq (h : Keeps resources next) {store : AccountAddress}
    (hheld : 0 < heldAt resources store) : next.store store = resources.store store := by
  cases hstore : resources.store store with
  | some found => exact h.stores store found hstore
  | none =>
    unfold heldAt storeBalance at hheld
    rw [hstore] at hheld
    exact absurd hheld (lt_irrefl 0)

theorem Keeps.signedBy (h : Keeps resources next) {objects : Objects}
    {owner store : AccountAddress} (hheld : 0 < heldAt resources store)
    (hsigned : SignedBy objects next owner store) : SignedBy objects resources owner store := by
  obtain ⟨howns, found, hfound, hfrozen⟩ := hsigned
  rw [h.store_eq hheld] at hfound
  exact ⟨howns, found, hfound, hfrozen⟩

theorem Keeps.refFor (h : Keeps resources next) {metadata store : AccountAddress}
    (hheld : 0 < heldAt resources store) (href : RefFor next metadata store) :
    RefFor resources metadata store := by
  obtain ⟨found, hfound, hmetadata⟩ := href
  rw [h.store_eq hheld] at hfound
  exact ⟨found, hfound, hmetadata⟩

end Balances

section AssetFunctions

variable {resources : Resources} {objects : Objects}

def Any (_ : Abort) : Prop := True

theorem withdrawInternal_pays (store : AccountAddress) (amount : U256) :
    Ensures Any (fun taken => (∃ found, resources.store store = some found ∧
        taken.1 = ⟨found.metadata, amount⟩) ∧
      Moves (heldAt resources) (heldAt taken.2) (debit store amount))
      (withdrawInternal resources store amount) := by
  refine Ensures.bind ((borrowStoreResource_ensures store).weaken fun _ _ => trivial)
    fun found hfound => ?_
  split_ifs with hzero
  · refine ensures_ok ⟨⟨found, hfound, rfl⟩, moves_congr (Moves.refl _) fun address => ?_⟩
    simp [debit, credit, hzero]
  · refine (require_ensures trivial).bind fun _ henough => ?_
    refine (checkedSub_ensures (of_decide_eq_true henough)).bind fun balance hbalance => ?_
    refine ensures_ok ⟨⟨found, hfound, rfl⟩, ?_⟩
    have hheld : heldAt resources store = found.balance.toNat := by
      unfold heldAt storeBalance
      rw [hfound]
    have hpaid : (balance.toNat : ℤ) = heldAt resources store + -(amount.toNat : ℤ) := by omega
    refine moves_congr (moves_withStore hpaid) fun address => ?_
    unfold debit credit
    split_ifs
    · rfl
    · exact neg_zero.symm

theorem depositInternal_pays (store : AccountAddress) (fa : FungibleAsset) :
    Ensures Any (fun next => Moves (heldAt resources) (heldAt next) (credit store fa.amount))
      (depositInternal resources store fa) := by
  unfold depositInternal
  split_ifs with hzero
  · refine ensures_ok (moves_congr (Moves.refl _) fun address => ?_)
    simp [credit, hzero]
  · refine Ensures.bind ((borrowStoreResource_ensures store).weaken fun _ _ => trivial)
      fun found hfound => ?_
    refine (require_ensures trivial).bind fun _ _ => ?_
    have hheld : heldAt resources store = found.balance.toNat := by
      unfold heldAt storeBalance
      rw [hfound]
    by_cases hfits : found.balance.toNat + fa.amount.toNat < 2 ^ 256
    · refine (checkedAdd_ensures hfits).bind fun balance hbalance => ?_
      refine ensures_ok (moves_withStore ?_)
      show (balance.toNat : ℤ) = _
      omega
    · have hover : checkedAdd found.balance fa.amount = .error .arithmeticError := if_neg hfits
      rw [hover]
      exact ensures_error trivial

theorem ensures_any {α : Type} (x : Except Abort α) : Ensures Any (fun _ => True) x := by
  cases x with
  | ok a => exact ensures_ok trivial
  | error abort => exact ensures_error trivial

theorem increaseSupply_store (metadata : AccountAddress) (amount : U256) :
    Ensures Any (fun next => next.store = resources.store)
      (increaseSupply resources metadata amount) := by
  unfold increaseSupply
  split_ifs
  · exact ensures_ok rfl
  split
  · exact ensures_error trivial
  rename_i supply _
  have hadd : ∀ maximum, Ensures Any (fun next : Resources => next.store = resources.store)
      (checkedAdd supply.current amount >>= fun current =>
        .ok (resources.withSupply metadata ⟨current, maximum⟩)) := by
    intro maximum
    unfold checkedAdd
    split_ifs
    · exact ensures_ok rfl
    · exact ensures_error trivial
  cases supply.maximum with
  | none => exact hadd none
  | some maximum =>
    refine Ensures.bind (ensures_any (checkedSub maximum supply.current)) fun left _ => ?_
    exact (require_ensures trivial).bind fun _ _ => hadd (some maximum)

theorem decreaseSupply_store (metadata : AccountAddress) (amount : U256) :
    Ensures Any (fun next => next.store = resources.store)
      (decreaseSupply resources metadata amount) := by
  unfold decreaseSupply
  split_ifs
  · exact ensures_ok rfl
  split
  · exact ensures_error trivial
  · refine (require_ensures trivial).bind fun _ henough => ?_
    refine (checkedSub_ensures (of_decide_eq_true henough)).bind fun current _ => ?_
    exact ensures_ok rfl

theorem mint_store (ref : MintRef) (amount : U256) :
    Ensures Any (fun minted => minted.1.amount = amount ∧ minted.2.store = resources.store)
      (FungibleAssets.mint resources ref amount) :=
  (increaseSupply_store ref.metadata amount).bind fun _ hstore => ensures_ok ⟨rfl, hstore⟩

theorem burn_store (ref : BurnRef) (fa : FungibleAsset) :
    Ensures Any (fun next => ref.metadata = fa.metadata ∧ next.store = resources.store)
      (FungibleAssets.burn resources ref fa) := by
  refine (require_ensures trivial).bind fun _ hmatch => ?_
  exact (decreaseSupply_store fa.metadata fa.amount).mono fun _ hstore => ⟨eq_of_beq hmatch, hstore⟩

theorem deposit_pays (store : AccountAddress) (fa : FungibleAsset) :
    Ensures Any (fun next => Moves (heldAt resources) (heldAt next) (credit store fa.amount))
      (FungibleAssets.deposit resources store fa) :=
  ((depositSanityCheck_ensures store).weaken fun _ _ => trivial).bind fun _ _ =>
    depositInternal_pays store fa

theorem depositWithRef_pays (ref : TransferRef) (store : AccountAddress) (fa : FungibleAsset) :
    Ensures Any (fun next => Moves (heldAt resources) (heldAt next) (credit store fa.amount))
      (FungibleAssets.depositWithRef resources ref store fa) :=
  (require_ensures trivial).bind fun _ _ => depositInternal_pays store fa

theorem mintTo_pays (ref : MintRef) (store : AccountAddress) (amount : U256) :
    Ensures Any (fun next => Moves (heldAt resources) (heldAt next) (credit store amount))
      (mintTo resources ref store amount) := by
  refine ((depositSanityCheck_ensures store).weaken fun _ _ => trivial).bind fun _ _ => ?_
  refine (mint_store ref amount).bind fun minted hminted => ?_
  obtain ⟨hamount, hstore⟩ := hminted
  refine (depositInternal_pays store minted.1).mono fun next hmoves => ?_
  rw [heldAt_eq_of_store hstore, hamount] at hmoves
  exact hmoves

theorem burnFrom_pays (ref : BurnRef) (store : AccountAddress) (amount : U256) :
    Ensures Any (fun next => RefFor resources ref.metadata store ∧
      Moves (heldAt resources) (heldAt next) (debit store amount))
      (burnFrom resources ref store amount) := by
  refine (withdrawInternal_pays store amount).bind fun taken htaken => ?_
  obtain ⟨⟨found, hfound, hfa⟩, hmoves⟩ := htaken
  refine (burn_store ref taken.1).mono fun next hnext => ?_
  obtain ⟨hmatch, hstore⟩ := hnext
  rw [hfa] at hmatch
  rw [heldAt_eq_of_store hstore]
  exact ⟨⟨found, hfound, hmatch.symm⟩, hmoves⟩

theorem withdrawSanityCheck_signed (owner store : AccountAddress) :
    Ensures Any (fun _ => SignedBy objects resources owner store)
      (withdrawSanityCheck resources objects owner store) := by
  refine (require_ensures trivial).bind fun _ howns => ?_
  refine Ensures.bind ((borrowStoreResource_ensures store).weaken fun _ _ => trivial)
    fun found hfound => ?_
  refine (require_ensures trivial).mono fun _ hfrozen => ⟨howns, found, hfound, ?_⟩
  simpa using hfrozen

theorem withdraw_pays (owner store : AccountAddress) (amount : U256) :
    Ensures Any (fun taken => SignedBy objects resources owner store ∧ taken.1.amount = amount ∧
      Moves (heldAt resources) (heldAt taken.2) (debit store amount))
      (FungibleAssets.withdraw resources objects owner store amount) := by
  refine (withdrawSanityCheck_signed owner store).bind fun _ hsigned => ?_
  refine (withdrawInternal_pays store amount).mono fun taken htaken => ?_
  obtain ⟨⟨found, -, hfa⟩, hmoves⟩ := htaken
  exact ⟨hsigned, congrArg FungibleAsset.amount hfa, hmoves⟩

theorem withdrawWithRef_pays (ref : TransferRef) (store : AccountAddress) (amount : U256) :
    Ensures Any (fun taken => RefFor resources ref.metadata store ∧ taken.1.amount = amount ∧
      Moves (heldAt resources) (heldAt taken.2) (debit store amount))
      (FungibleAssets.withdrawWithRef resources ref store amount) := by
  refine Ensures.bind ((borrowStoreResource_ensures store).weaken fun _ _ => trivial)
    fun found hfound => ?_
  refine (require_ensures trivial).bind fun _ hmatch => ?_
  refine (withdrawInternal_pays store amount).mono fun taken htaken => ?_
  obtain ⟨⟨_, -, hfa⟩, hmoves⟩ := htaken
  exact ⟨⟨found, hfound, (eq_of_beq hmatch).symm⟩, congrArg FungibleAsset.amount hfa, hmoves⟩

/-- What is taken out of one store and put into another. -/
theorem moves_through {middle last : Resources} {source target : AccountAddress} {amount : U256}
    (hout : Moves (heldAt resources) (heldAt middle) (debit source amount))
    (hin : Moves (heldAt middle) (heldAt last) (credit target amount)) :
    Moves (heldAt resources) (heldAt last) (moved source target amount) := by
  refine moves_congr (hout.trans hin) fun address => ?_
  unfold debit credit moved
  rw [delta_eq]
  ring

theorem transfer_pays (sender source target : AccountAddress) (amount : U256) :
    Ensures Any (fun next => SignedBy objects resources sender source ∧
      Moves (heldAt resources) (heldAt next) (moved source target amount))
      (FungibleAssets.transfer resources objects sender source target amount) := by
  refine (withdraw_pays sender source amount).bind fun taken htaken => ?_
  obtain ⟨hsigned, hamount, hout⟩ := htaken
  refine (deposit_pays target taken.1).mono fun next hin => ⟨hsigned, ?_⟩
  rw [hamount] at hin
  exact moves_through hout hin

theorem transferWithRef_pays (ref : TransferRef) (source target : AccountAddress)
    (amount : U256) :
    Ensures Any (fun next => RefFor resources ref.metadata source ∧
      Moves (heldAt resources) (heldAt next) (moved source target amount))
      (FungibleAssets.transferWithRef resources ref source target amount) := by
  refine (withdrawWithRef_pays ref source amount).bind fun taken htaken => ?_
  obtain ⟨href, hamount, hout⟩ := htaken
  refine (depositWithRef_pays ref target taken.1).mono fun next hin => ⟨href, ?_⟩
  rw [hamount] at hin
  exact moves_through hout hin

theorem createStore_keeps (constructorRef metadata : AccountAddress) :
    Ensures Any (fun next => Keeps resources next)
      (createStore resources objects constructorRef metadata) := by
  refine Ensures.bind (require_ensures trivial) fun _ _ => ?_
  refine (require_ensures trivial).bind fun _ hnone => ?_
  refine (require_ensures trivial).bind fun _ _ => ensures_ok ?_
  have hfree : resources.store constructorRef = none := Option.isNone_iff_eq_none.mp hnone
  have hempty : heldAt resources constructorRef = 0 := by
    unfold heldAt storeBalance
    rw [hfree]
    rfl
  refine ⟨fun address found hfound => ?_, ?_⟩
  · have hne : address ≠ constructorRef := by
      rintro rfl
      rw [hfree] at hfound
      cases hfound
    show Function.update resources.store constructorRef _ address = some found
    rw [Function.update_of_ne hne]
    exact hfound
  · have hpaid : ((0 : U256).toNat : ℤ) = heldAt resources constructorRef + 0 := by
      rw [hempty]
      rfl
    exact moves_congr (moves_withStore hpaid) fun address => ite_self 0

theorem removeStore_pays (deleteRef : AccountAddress) :
    Ensures Any (fun next => Moves (heldAt resources) (heldAt next) fun _ => 0)
      (removeStore resources deleteRef) := by
  unfold removeStore
  split
  · exact ensures_error trivial
  · rename_i found hfound
    refine (require_ensures trivial).bind fun _ hempty => ensures_ok ?_
    have hpaid : ((0 : U256).toNat : ℤ) = heldAt resources deleteRef + 0 := by
      unfold heldAt storeBalance
      rw [hfound]
      dsimp only
      rw [eq_of_beq hempty]
      rfl
    exact moves_congr (moves_withStore hpaid) fun address => ite_self 0

theorem setFrozenFlag_pays (ref : TransferRef) (store : AccountAddress) (frozen : Bool) :
    Ensures Any (fun next => Moves (heldAt resources) (heldAt next) fun _ => 0)
      (FungibleAssets.setFrozenFlag resources ref store frozen) := by
  refine Ensures.bind ((borrowStoreResource_ensures store).weaken fun _ _ => trivial)
    fun found hfound => ?_
  refine (require_ensures trivial).bind fun _ _ => ensures_ok ?_
  have hpaid : (found.balance.toNat : ℤ) = heldAt resources store + 0 := by
    unfold heldAt storeBalance
    rw [hfound, add_zero]
  exact moves_congr (moves_withStore hpaid) fun address => ite_self 0

theorem addFungibility_store (constructorRef : AccountAddress) (maximumSupply : Option U256)
    (metadata : Metadata) :
    Ensures Any (fun next => next.store = resources.store)
      (addFungibility resources objects constructorRef maximumSupply metadata) := by
  refine (require_ensures trivial).bind fun _ _ => ?_
  refine (require_ensures trivial).bind fun _ _ => ?_
  refine (require_ensures trivial).bind fun _ _ => ?_
  refine (require_ensures trivial).bind fun _ _ => ?_
  refine (require_ensures trivial).bind fun _ _ => ?_
  refine (require_ensures trivial).bind fun _ _ => ?_
  refine (require_ensures trivial).bind fun _ _ => ?_
  refine (require_ensures trivial).bind fun _ _ => ?_
  exact ensures_ok rfl

end AssetFunctions

section PrimaryFunctions

variable {resources : Resources} {objects : Objects} {store : StoreObjects}

theorem ensurePrimaryStoreExists_keeps (owner metadata : AccountAddress) :
    Ensures Any (fun ensured => ensured.1 = primaryStoreAddress objects owner metadata ∧
      Keeps resources ensured.2)
      (FungibleAssets.ensurePrimaryStoreExists resources objects owner metadata) := by
  unfold FungibleAssets.ensurePrimaryStoreExists
  dsimp only
  split_ifs
  · exact ensures_ok ⟨rfl, Keeps.refl resources⟩
  · refine Ensures.bind (require_ensures trivial) fun _ _ => ?_
    refine (require_ensures trivial).bind fun _ _ => ?_
    exact (createStore_keeps _ metadata).bind fun next hkeeps => ensures_ok ⟨rfl, hkeeps⟩

theorem primaryStore_eq (owner metadata : AccountAddress) :
    Ensures Any (fun address => address = primaryStoreAddress objects owner metadata)
      (primaryStore resources objects owner metadata) :=
  Ensures.bind (require_ensures trivial) fun _ _ => ensures_ok rfl

theorem mayBeUnburn_ok (owner address : AccountAddress) :
    Ensures Any (fun unburnt => mayBeUnburn store owner address = .ok unburnt)
      (mayBeUnburn store owner address) := by
  cases h : mayBeUnburn store owner address with
  | ok unburnt => exact ensures_ok rfl
  | error abort => exact ensures_error trivial

/-- Taking a store back makes no other store primary. -/
theorem derived_of_mayBeUnburn {owner address : AccountAddress} {unburnt : Objects}
    (h : mayBeUnburn store owner address = .ok unburnt) (holder metadata : AccountAddress) :
    primaryStoreAddress unburnt holder metadata =
      primaryStoreAddress store.toObjects holder metadata := by
  unfold mayBeUnburn at h
  split_ifs at h
  · cases howns : store.unburn owner address with
    | none =>
      rw [howns] at h
      cases h
    | some owns =>
      rw [howns] at h
      obtain rfl := Except.ok.inj h
      rfl
  · obtain rfl := Except.ok.inj h
    rfl

theorem authorizedBorrowRefs_owner (owner asset : AccountAddress) :
    Ensures Any
      (fun refs => objects.isOwner asset owner = true ∧ refs = (⟨asset⟩, ⟨asset⟩, ⟨asset⟩))
      (authorizedBorrowRefs resources objects owner asset) := by
  refine Ensures.bind (require_ensures trivial) fun _ _ => ?_
  exact (require_ensures trivial).bind fun _ howner => ensures_ok ⟨howner, rfl⟩

/-- What is paid in after the store was ensured. -/
theorem Ensures.ensured {α : Type} {f : AccountAddress × Resources → Except Abort α}
    {post : α → Prop} {owner metadata : AccountAddress}
    (h : ∀ next, Keeps resources next →
      Ensures Any post (f (primaryStoreAddress objects owner metadata, next))) :
    Ensures Any post
      (FungibleAssets.ensurePrimaryStoreExists resources objects owner metadata >>= f) := by
  refine (ensurePrimaryStoreExists_keeps owner metadata).bind fun ensured hensured => ?_
  obtain ⟨address, next⟩ := ensured
  obtain ⟨rfl, hkeeps⟩ := hensured
  exact h next hkeeps

end PrimaryFunctions

section Steps

variable {asset : AccountAddress} {objects : StoreObjects} {system : System} {call : Call}

/-- A call has paid what it says, and whoever was paid out of has authorized it. -/
structure Paid (asset : AccountAddress) (objects : StoreObjects) (system : System) (call : Call)
    (next : Resources) : Prop where
  moves : Moves (heldAt system.resources) (heldAt next)
    (call.pays asset objects.toObjects system.live)
  authorized : ∀ address, call.pays asset objects.toObjects system.live address < 0 →
    Authorized asset objects system.resources address call

variable {next : Resources}

theorem paid_of_zero (hpays : call.pays asset objects.toObjects system.live = fun _ => 0)
    (hmoves : Moves (heldAt system.resources) (heldAt next) fun _ => 0) :
    Paid asset objects system call next := by
  refine ⟨hpays ▸ hmoves, fun address hneg => ?_⟩
  rw [hpays] at hneg
  exact absurd hneg (lt_irrefl 0)

theorem paid_of_credit {store : AccountAddress} {amount : U256}
    (hpays : call.pays asset objects.toObjects system.live = credit store amount)
    (hmoves : Moves (heldAt system.resources) (heldAt next) (credit store amount)) :
    Paid asset objects system call next := by
  refine ⟨hpays ▸ hmoves, fun address hneg => ?_⟩
  rw [hpays] at hneg
  unfold credit at hneg
  split_ifs at hneg
  · omega
  · omega

theorem paid_of_debit {store : AccountAddress} {amount : U256}
    (hpays : call.pays asset objects.toObjects system.live = debit store amount)
    (hmoves : Moves (heldAt system.resources) (heldAt next) (debit store amount))
    (hauthorized : 0 < heldAt system.resources store →
      Authorized asset objects system.resources store call) :
    Paid asset objects system call next := by
  refine ⟨hpays ▸ hmoves, fun address hneg => ?_⟩
  rw [hpays] at hneg
  have hheld := held_pos hmoves hneg
  by_cases hstore : address = store
  · subst hstore
    exact hauthorized hheld
  · unfold debit credit at hneg
    rw [if_neg hstore, neg_zero] at hneg
    exact absurd hneg (lt_irrefl 0)

theorem paid_of_moved {source target : AccountAddress} {amount : U256}
    (hpays : call.pays asset objects.toObjects system.live = moved source target amount)
    (hmoves : Moves (heldAt system.resources) (heldAt next) (moved source target amount))
    (hauthorized : 0 < heldAt system.resources source →
      Authorized asset objects system.resources source call) :
    Paid asset objects system call next := by
  refine ⟨hpays ▸ hmoves, fun address hneg => ?_⟩
  rw [hpays] at hneg
  have hheld := held_pos hmoves hneg
  by_cases hsource : address = source
  · subst hsource
    exact hauthorized hheld
  · unfold moved at hneg
    rw [delta_eq, if_neg hsource] at hneg
    split_ifs at hneg
    · omega
    · omega

def AnyFailure (_ : Failure) : Prop := True

theorem failing_ensures {α : Type} {post : α → Prop} {x : Except Abort α}
    (h : Ensures Any post x) : Ensures AnyFailure post (failing x) := by
  cases x with
  | ok a => exact h
  | error abort => exact ensures_error trivial

theorem keeping_pays {live : List FungibleAsset} {x : Except Abort Resources}
    {post : Resources → Prop} (h : Ensures Any post x) :
    Ensures Any (fun system : System => post system.resources) (keeping live x) :=
  h.bind fun _ hnext => ensures_ok hnext

theorem giving_pays {live : List FungibleAsset} {x : Except Abort (FungibleAsset × Resources)}
    {post : Resources → Prop} (h : Ensures Any (fun given => post given.2) x) :
    Ensures Any (fun system : System => post system.resources) (giving live x) :=
  h.bind fun _ hnext => ensures_ok hnext

/-- The asset at a place, and what is written of it. -/
theorem take_named (live : List FungibleAsset) (place : ℕ) :
    Ensures Any (fun taken => live[place]? = some taken.1) (take live place) := by
  unfold take
  split
  · exact ensures_ok ‹_›
  · exact ensures_error trivial

theorem amountAt_of_getElem? {live : List FungibleAsset} {place : ℕ} {fa : FungibleAsset}
    (h : live[place]? = some fa) : amountAt live place = fa.amount := by
  unfold amountAt
  rw [h]
  rfl

theorem metadataAt_of_getElem? {live : List FungibleAsset} {place : ℕ} {fa : FungibleAsset}
    (h : live[place]? = some fa) :
    (live[place]?.map FungibleAsset.metadata).getD 0 = fa.metadata := by
  rw [h]
  rfl

/-- The operations of the asset module. -/
theorem operation_pays (operation : Operation) :
    Ensures Any (fun next : System => Paid asset objects system (.asset operation) next.resources)
      (FungibleAssets.step asset objects.toObjects system operation) := by
  cases operation with
  | addFungibility constructorRef maximumSupply metadata =>
    exact keeping_pays ((addFungibility_store constructorRef maximumSupply metadata).mono
      fun next hstore => paid_of_zero rfl (moves_of_store hstore))
  | mint ref amount =>
    exact giving_pays ((mint_store ref amount).mono
      fun minted hminted => paid_of_zero rfl (moves_of_store hminted.2))
  | mintTo ref store amount =>
    exact keeping_pays ((mintTo_pays ref store amount).mono
      fun next hmoves => paid_of_credit rfl hmoves)
  | burn ref place =>
    refine (take_named system.live place).bind fun taken _ => ?_
    exact keeping_pays ((burn_store ref taken.1).mono
      fun next hnext => paid_of_zero rfl (moves_of_store hnext.2))
  | burnFrom ref store amount =>
    exact keeping_pays ((burnFrom_pays ref store amount).mono
      fun next hnext => paid_of_debit rfl hnext.2 fun _ => hnext.1)
  | addressBurnFrom ref store amount =>
    exact keeping_pays ((burnFrom_pays ref store amount).mono
      fun next hnext => paid_of_debit rfl hnext.2 fun _ => hnext.1)
  | withdraw owner store amount =>
    exact giving_pays ((withdraw_pays owner store amount).mono
      fun taken htaken => paid_of_debit rfl htaken.2.2 fun _ => htaken.1)
  | withdrawWithRef ref store amount =>
    exact giving_pays ((withdrawWithRef_pays ref store amount).mono
      fun taken htaken => paid_of_debit rfl htaken.2.2 fun _ => htaken.1)
  | deposit store place =>
    refine (take_named system.live place).bind fun taken htaken => ?_
    refine keeping_pays ((deposit_pays store taken.1).mono fun next hmoves => ?_)
    rw [← amountAt_of_getElem? htaken] at hmoves
    exact paid_of_credit rfl hmoves
  | depositWithRef ref store place =>
    refine (take_named system.live place).bind fun taken htaken => ?_
    refine keeping_pays ((depositWithRef_pays ref store taken.1).mono fun next hmoves => ?_)
    rw [← amountAt_of_getElem? htaken] at hmoves
    exact paid_of_credit rfl hmoves
  | transfer sender source target amount =>
    exact keeping_pays ((transfer_pays sender source target amount).mono
      fun next hnext => paid_of_moved rfl hnext.2 fun _ => hnext.1)
  | transferWithRef ref source target amount =>
    exact keeping_pays ((transferWithRef_pays ref source target amount).mono
      fun next hnext => paid_of_moved rfl hnext.2 fun _ => hnext.1)
  | extract place amount =>
    refine (take_named system.live place).bind fun taken _ => ?_
    exact (ensures_any (extract taken.1 amount)).bind fun split _ =>
      ensures_ok (paid_of_zero rfl (Moves.refl _))
  | merge dst src =>
    refine (take_named system.live dst).bind fun first _ => ?_
    refine (take_named first.2 src).bind fun second _ => ?_
    exact (ensures_any (merge first.1 second.1)).bind fun fa _ =>
      ensures_ok (paid_of_zero rfl (Moves.refl _))
  | zero metadata =>
    exact (ensures_any (zero system.resources metadata)).bind fun fa _ =>
      ensures_ok (paid_of_zero rfl (Moves.refl _))
  | destroyZero place =>
    refine (take_named system.live place).bind fun taken _ => ?_
    exact (ensures_any (destroyZero taken.1)).bind fun _ _ =>
      ensures_ok (paid_of_zero rfl (Moves.refl _))
  | createStore constructorRef metadata =>
    exact keeping_pays ((createStore_keeps constructorRef metadata).mono
      fun next hkeeps => paid_of_zero rfl hkeeps.moves)
  | removeStore deleteRef =>
    exact keeping_pays ((removeStore_pays deleteRef).mono
      fun next hmoves => paid_of_zero rfl hmoves)
  | setFrozenFlag ref store frozen =>
    exact keeping_pays ((setFrozenFlag_pays ref store frozen).mono
      fun next hmoves => paid_of_zero rfl hmoves)
  | ethMint admin target amount =>
    refine keeping_pays ((authorizedBorrowRefs_owner admin asset).bind fun refs hrefs => ?_)
    obtain ⟨-, rfl⟩ := hrefs
    refine Ensures.ensured fun ensured hkeeps => ?_
    refine (mint_store _ amount).bind fun minted hminted => ?_
    refine (depositWithRef_pays _ _ minted.1).mono fun next hmoves => ?_
    rw [hminted.1, heldAt_eq_of_store hminted.2] at hmoves
    exact paid_of_credit rfl (hkeeps.then hmoves)
  | ethTransfer admin source target amount =>
    refine keeping_pays ((authorizedBorrowRefs_owner admin asset).bind fun refs hrefs => ?_)
    obtain ⟨howner, rfl⟩ := hrefs
    refine (primaryStore_eq source asset).bind fun address haddress => ?_
    subst haddress
    refine Ensures.ensured fun ensured hkeeps => ?_
    refine (transferWithRef_pays ⟨asset⟩ _ _ amount).mono fun next hnext => ?_
    exact paid_of_moved rfl (hkeeps.then hnext.2) fun hheld =>
      ⟨howner, hkeeps.refFor hheld hnext.1⟩
  | ethBurn admin source amount =>
    refine keeping_pays ((authorizedBorrowRefs_owner admin asset).bind fun refs hrefs => ?_)
    obtain ⟨howner, rfl⟩ := hrefs
    refine (primaryStore_eq source asset).bind fun address haddress => ?_
    subst haddress
    refine (burnFrom_pays ⟨asset⟩ _ amount).mono fun next hnext => ?_
    exact paid_of_debit rfl hnext.2 fun _ => ⟨howner, hnext.1⟩

/-- The transfer of a primary store, once both stores are there. -/
theorem paid_of_transfer {sender metadata recipient : AccountAddress} {amount : U256}
    {unburnt : Objects} {ensured : Resources}
    (hpays : call.pays asset objects.toObjects system.live =
      moved (primaryStoreAddress objects.toObjects sender metadata)
        (primaryStoreAddress objects.toObjects recipient metadata) amount)
    (hcall : ∀ store, SignedOrUnburnt objects system.resources sender store →
      Authorized asset objects system.resources store call)
    (hunburnt : mayBeUnburn objects sender (primaryStoreAddress objects.toObjects sender metadata) =
      .ok unburnt)
    (hkeeps : Keeps system.resources ensured)
    (hsigned : SignedBy unburnt ensured sender
      (primaryStoreAddress objects.toObjects sender metadata))
    (hmoves : Moves (heldAt ensured) (heldAt next)
      (moved (primaryStoreAddress objects.toObjects sender metadata)
        (primaryStoreAddress objects.toObjects recipient metadata) amount)) :
    Paid asset objects system call next :=
  paid_of_moved hpays (hkeeps.then hmoves) fun hheld =>
    hcall _ ⟨unburnt, hunburnt, hkeeps.signedBy hheld hsigned⟩

/-- Every call pays what it says. -/
theorem step_pays (call : Call) :
    Ensures AnyFailure (fun next => Paid asset objects system call next.resources)
      (step asset objects system call) := by
  cases call with
  | asset operation => exact failing_ensures (operation_pays operation)
  | createPrimaryStoreEnabledFungibleAsset constructorRef maximumSupply metadata =>
    exact failing_ensures (keeping_pays
      ((addFungibility_store constructorRef maximumSupply metadata).mono
        fun next hstore => paid_of_zero rfl (moves_of_store hstore)))
  | ensurePrimaryStoreExists owner metadata =>
    refine (failing_ensures (ensurePrimaryStoreExists_keeps owner metadata)).bind
      fun ensured hensured => ?_
    exact ensures_ok (paid_of_zero rfl hensured.2.moves)
  | withdraw owner metadata amount =>
    refine failing_ensures (giving_pays ?_)
    refine Ensures.ensured fun ensured hkeeps => ?_
    refine (mayBeUnburn_ok owner _).bind fun unburnt hunburnt => ?_
    refine (withdraw_pays owner _ amount).mono fun taken htaken => ?_
    exact paid_of_debit rfl (hkeeps.then htaken.2.2) fun hheld =>
      ⟨unburnt, hunburnt, hkeeps.signedBy hheld htaken.1⟩
  | deposit owner place =>
    refine (failing_ensures (take_named system.live place)).bind fun taken htaken => ?_
    refine failing_ensures (keeping_pays (Ensures.ensured fun ensured hkeeps => ?_))
    refine (deposit_pays _ taken.1).mono fun next hmoves => ?_
    have hpaid := hkeeps.then hmoves
    rw [← amountAt_of_getElem? htaken, ← metadataAt_of_getElem? htaken] at hpaid
    exact paid_of_credit rfl hpaid
  | forceDeposit owner place =>
    refine (failing_ensures (take_named system.live place)).bind fun taken htaken => ?_
    refine failing_ensures (keeping_pays (Ensures.ensured fun ensured hkeeps => ?_))
    refine (depositInternal_pays _ taken.1).mono fun next hmoves => ?_
    have hpaid := hkeeps.then hmoves
    rw [← amountAt_of_getElem? htaken, ← metadataAt_of_getElem? htaken] at hpaid
    exact paid_of_credit rfl hpaid
  | transfer sender metadata recipient amount =>
    refine failing_ensures (keeping_pays (Ensures.ensured fun ensured hkeeps => ?_))
    refine (mayBeUnburn_ok sender _).bind fun unburnt hunburnt => ?_
    refine Ensures.ensured fun later hkeeps' => ?_
    refine (transfer_pays sender _ _ amount).mono fun next hnext => ?_
    rw [derived_of_mayBeUnburn hunburnt] at hnext
    exact paid_of_transfer rfl (fun store hsigned => hsigned) hunburnt (hkeeps.trans hkeeps')
      hnext.1 hnext.2
  | transferAssertMinimumDeposit sender metadata recipient amount expected =>
    suffices h : Ensures AnyFailure (Paid asset objects system
        (.transferAssertMinimumDeposit sender metadata recipient amount expected))
        (transferAssertMinimumDeposit system.resources objects sender metadata recipient amount
          expected) from h.bind fun next hnext => ensures_ok hnext
    refine (failing_ensures (ensurePrimaryStoreExists_keeps sender metadata)).bind
      fun first hfirst => ?_
    refine (failing_ensures (mayBeUnburn_ok sender first.1)).bind fun unburnt hunburnt => ?_
    refine (failing_ensures (ensurePrimaryStoreExists_keeps recipient metadata)).bind
      fun second hsecond => ?_
    refine (failing_ensures (transfer_pays sender first.1 second.1 amount)).bind
      fun next hnext => ?_
    refine (failing_ensures (ensures_any (checkedSub _ _))).bind fun gained _ => ?_
    split_ifs
    · obtain ⟨hfirst, hkeeps⟩ := hfirst
      obtain ⟨hsecond, hkeeps'⟩ := hsecond
      rw [hfirst] at hunburnt hnext
      rw [hsecond, derived_of_mayBeUnburn hunburnt] at hnext
      exact ensures_ok (paid_of_transfer rfl (fun store hsigned => hsigned) hunburnt
        (hkeeps.trans hkeeps') hnext.1 hnext.2)
    · exact ensures_error trivial
  | mint ref owner amount =>
    refine failing_ensures (keeping_pays (Ensures.ensured fun ensured hkeeps => ?_))
    exact (mintTo_pays ref _ amount).mono fun next hmoves =>
      paid_of_credit rfl (hkeeps.then hmoves)
  | burn ref owner amount =>
    refine failing_ensures (keeping_pays ((primaryStore_eq owner ref.metadata).bind
      fun address haddress => ?_))
    subst haddress
    exact (burnFrom_pays ref _ amount).mono fun next hnext =>
      paid_of_debit rfl hnext.2 fun _ => hnext.1
  | setFrozenFlag ref owner frozen =>
    refine failing_ensures (keeping_pays (Ensures.ensured fun ensured hkeeps => ?_))
    exact (setFrozenFlag_pays ref _ frozen).mono fun next hmoves =>
      paid_of_zero rfl (hkeeps.then hmoves)
  | withdrawWithRef ref owner amount =>
    refine failing_ensures (giving_pays ((primaryStore_eq owner ref.metadata).bind
      fun address haddress => ?_))
    subst haddress
    exact (withdrawWithRef_pays ref _ amount).mono fun taken htaken =>
      paid_of_debit rfl htaken.2.2 fun _ => htaken.1
  | depositWithRef ref owner place =>
    refine (failing_ensures (take_named system.live place)).bind fun taken htaken => ?_
    refine failing_ensures (keeping_pays (Ensures.ensured fun ensured hkeeps => ?_))
    refine (depositWithRef_pays ref _ taken.1).mono fun next hmoves => ?_
    rw [← amountAt_of_getElem? htaken] at hmoves
    exact paid_of_credit rfl (hkeeps.then hmoves)
  | transferWithRef ref owner recipient amount =>
    refine failing_ensures (keeping_pays ((primaryStore_eq owner ref.metadata).bind
      fun address haddress => ?_))
    subst haddress
    refine Ensures.ensured fun ensured hkeeps => ?_
    refine (transferWithRef_pays ref _ _ amount).mono fun next hnext => ?_
    exact paid_of_moved rfl (hkeeps.then hnext.2) fun hheld => hkeeps.refFor hheld hnext.1

/-- The calls of this module are made of those of the asset module, which keep the supply. -/
theorem step_sound (h : Sound system) (call : Call) :
    Ensures AnyFailure Sound (step asset objects system call) := by
  have hensure : ∀ {live : List FungibleAsset}, Conserved system.resources live →
      ∀ (given : Objects) (owner metadata : AccountAddress),
        Ensures Any (fun ensured => Conserved ensured.2 live)
          (FungibleAssets.ensurePrimaryStoreExists system.resources given owner metadata) :=
    fun hlive given owner metadata =>
      ((ensurePrimaryStoreExists_ensures hlive owner metadata).weaken fun _ _ => trivial).mono
        fun _ hensured => hensured.1
  cases call with
  | asset operation =>
    exact failing_ensures ((step_ensures h operation).weaken fun _ _ => trivial)
  | createPrimaryStoreEnabledFungibleAsset constructorRef maximumSupply metadata =>
    exact failing_ensures (keeping_ensures
      ((addFungibility_ensures h constructorRef maximumSupply metadata).weaken fun _ _ => trivial))
  | ensurePrimaryStoreExists owner metadata =>
    exact (failing_ensures (hensure h _ owner metadata)).bind fun _ hnext => ensures_ok hnext
  | withdraw owner metadata amount =>
    refine failing_ensures (giving_ensures ((hensure h _ owner metadata).bind
      fun ensured hensured => ?_))
    refine (ensures_any (mayBeUnburn objects owner ensured.1)).bind fun unburnt _ => ?_
    exact (withdraw_ensures hensured owner ensured.1 amount).weaken fun _ _ => trivial
  | deposit owner place =>
    refine (failing_ensures ((take_ensures h place).weaken fun _ _ => trivial)).bind
      fun taken htaken => failing_ensures (keeping_ensures ?_)
    refine (hensure htaken _ owner taken.1.metadata).bind fun ensured hensured => ?_
    exact (deposit_ensures hensured ensured.1).weaken fun _ _ => trivial
  | forceDeposit owner place =>
    refine (failing_ensures ((take_ensures h place).weaken fun _ _ => trivial)).bind
      fun taken htaken => failing_ensures (keeping_ensures ?_)
    refine (hensure htaken _ owner taken.1.metadata).bind fun ensured hensured => ?_
    exact (depositInternal_ensures hensured ensured.1).weaken fun _ _ => trivial
  | transfer sender metadata recipient amount =>
    refine failing_ensures (keeping_ensures ((hensure h _ sender metadata).bind
      fun first hfirst => ?_))
    refine (ensures_any (mayBeUnburn objects sender first.1)).bind fun unburnt _ => ?_
    refine ((ensurePrimaryStoreExists_ensures hfirst recipient metadata).weaken
      fun _ _ => trivial).bind fun second hsecond => ?_
    exact (transfer_ensures hsecond.1 sender first.1 second.1 amount).weaken fun _ _ => trivial
  | transferAssertMinimumDeposit sender metadata recipient amount expected =>
    suffices hsound : Ensures AnyFailure (fun next => Conserved next system.live)
        (transferAssertMinimumDeposit system.resources objects sender metadata recipient amount
          expected) from hsound.bind fun next hnext => ensures_ok hnext
    refine (failing_ensures (hensure h _ sender metadata)).bind fun first hfirst => ?_
    refine (failing_ensures (ensures_any (mayBeUnburn objects sender first.1))).bind
      fun unburnt _ => ?_
    refine (failing_ensures ((ensurePrimaryStoreExists_ensures hfirst recipient metadata).weaken
      fun _ _ => trivial)).bind fun second hsecond => ?_
    refine (failing_ensures ((transfer_ensures hsecond.1 sender first.1 second.1 amount).weaken
      fun _ _ => trivial)).bind fun next hnext => ?_
    refine (failing_ensures (ensures_any (checkedSub _ _))).bind fun gained _ => ?_
    split_ifs
    · exact ensures_ok hnext
    · exact ensures_error trivial
  | mint ref owner amount =>
    refine failing_ensures (keeping_ensures ((hensure h _ owner ref.metadata).bind
      fun ensured hensured => ?_))
    exact (mintTo_ensures hensured ref ensured.1 amount).weaken fun _ _ => trivial
  | burn ref owner amount =>
    refine failing_ensures (keeping_ensures ((primaryStore_eq owner ref.metadata).bind
      fun address _ => ?_))
    exact (burnFrom_ensures h ref address amount).weaken fun _ _ => trivial
  | setFrozenFlag ref owner frozen =>
    refine failing_ensures (keeping_ensures ((hensure h _ owner ref.metadata).bind
      fun ensured hensured => ?_))
    exact (setFrozenFlag_ensures hensured ref ensured.1 frozen).weaken fun _ _ => trivial
  | withdrawWithRef ref owner amount =>
    refine failing_ensures (giving_ensures ((primaryStore_eq owner ref.metadata).bind
      fun address _ => ?_))
    exact (withdrawWithRef_ensures h ref address amount).weaken fun _ _ => trivial
  | depositWithRef ref owner place =>
    refine (failing_ensures ((take_ensures h place).weaken fun _ _ => trivial)).bind
      fun taken htaken => failing_ensures (keeping_ensures ?_)
    refine (hensure htaken _ owner ref.metadata).bind fun ensured hensured => ?_
    exact (depositWithRef_ensures hensured ref ensured.1).weaken fun _ _ => trivial
  | transferWithRef ref owner recipient amount =>
    refine failing_ensures (keeping_ensures ((primaryStore_eq owner ref.metadata).bind
      fun address _ => ?_))
    refine (hensure h _ recipient ref.metadata).bind fun ensured hensured => ?_
    exact (transferWithRef_ensures hensured ref address ensured.1 amount).weaken
      fun _ _ => trivial

end Steps

section Histories

variable {asset : AccountAddress} {system : System} {history : List Done}

/-- What was paid in under an address, less what was paid out. -/
def netPaid (asset : AccountAddress) (history : List Done) (address : AccountAddress) : ℤ :=
  (history.map fun done => done.pays asset address).sum

theorem sound_and_paid_of_runs (h : Runs asset system history) :
    Sound system ∧ ∀ address, (heldAt system.resources address : ℤ) =
      netPaid asset history address := by
  induction h with
  | empty => exact ⟨Conserved.empty, fun address => rfl⟩
  | @completed system next history objects call hrun hstep ih =>
    obtain ⟨hsound, hpaid⟩ := ih
    refine ⟨(step_sound hsound call).of_ok hstep, fun address => ?_⟩
    have hmoves := ((step_pays call).of_ok hstep).moves address
    rw [hmoves, hpaid address]
    exact add_comm _ _
  | aborted _ _ ih => exact ih

theorem balance_eq_storeBalance (resources : Resources) (objects : Objects)
    (account metadata : AccountAddress) :
    balance resources objects account metadata =
      storeBalance resources (primaryStoreAddress objects account metadata) := by
  unfold balance primaryStoreExists storeBalance
  cases resources.store (primaryStoreAddress objects account metadata) <;> rfl

theorem isBalanceAtLeast_iff (resources : Resources) (objects : Objects)
    (account metadata : AccountAddress) (amount : U256) :
    isBalanceAtLeast resources objects account metadata amount = true ↔
      amount.toNat ≤ (balance resources objects account metadata).toNat := by
  unfold isBalanceAtLeast balance primaryStoreExists isAddressBalanceAtLeast storeBalance
  cases resources.store (primaryStoreAddress objects account metadata) with
  | some found => simp
  | none =>
    simp only [Option.isSome_none, Bool.false_eq_true, if_false, beq_iff_eq]
    constructor
    · rintro rfl
      exact le_rfl
    · intro hle
      exact BitVec.eq_of_toNat_eq (Nat.le_zero.mp hle)

/-- Whatever anyone calls of the two modules: the balance of an account is what was paid into its
primary store less what was paid out, the amounts it is said to reach are those up to it, and the
supply is in stores and in values that callers hold. -/
theorem balances_are_net_payments (h : Runs asset system history) :
    (∀ objects account metadata,
      ((balance system.resources objects account metadata).toNat : ℤ) =
          netPaid asset history (primaryStoreAddress objects account metadata) ∧
        ∀ amount, isBalanceAtLeast system.resources objects account metadata amount = true ↔
          (amount.toNat : ℤ) ≤ netPaid asset history (primaryStoreAddress objects account metadata)) ∧
      ∀ metadata supply, system.resources.supply metadata = some supply →
        supply.current.toNat =
          storesTotal metadata system.resources + assetsTotal metadata system.live := by
  obtain ⟨hsound, hpaid⟩ := sound_and_paid_of_runs h
  refine ⟨fun objects account metadata => ?_, fun metadata supply hsupply => ?_⟩
  · have hbalance := balance_eq_storeBalance system.resources objects account metadata
    have hnet := hpaid (primaryStoreAddress objects account metadata)
    unfold heldAt at hnet
    rw [← hbalance] at hnet
    refine ⟨hnet, fun amount => ?_⟩
    rw [isBalanceAtLeast_iff, ← hnet, Nat.cast_le]
  · rw [← hsound.total metadata]
    simp [supplyOf, hsupply]

/-- Nothing is taken from a store but by a call that its owner signs while it is not frozen, by
one with a ref of its asset, or by the owner of the ETH asset. -/
theorem nobody_else_takes {objects : StoreObjects} {call : Call} {next : System}
    (hstep : step asset objects system call = .ok next) (store : AccountAddress)
    (hless : heldAt next.resources store < heldAt system.resources store) :
    Authorized asset objects system.resources store call := by
  obtain ⟨hmoves, hauthorized⟩ := (step_pays call).of_ok hstep
  refine hauthorized store ?_
  have hmove := hmoves store
  omega

end Histories

section MinimumDeposit

variable {resources : Resources} {objects : StoreObjects}

theorem failing_bind {α β : Type} (x : Except Abort α) (f : α → Except Abort β) :
    failing (x >>= f) = failing x >>= fun a => failing (f a) := by
  cases x <;> rfl

/-- A transfer between other stores leaves the balance under an address alone. -/
theorem storeBalance_of_transfer {given : Objects} {next : Resources}
    {sender source target address : AccountAddress} {amount : U256}
    (h : FungibleAssets.transfer resources given sender source target amount = .ok next)
    (hsource : source ≠ address) (htarget : target ≠ address) :
    storeBalance next address = storeBalance resources address := by
  have hmoves := ((transfer_pays sender source target amount).of_ok h).2 address
  unfold moved at hmoves
  rw [delta_eq, if_neg (Ne.symm htarget), if_neg (Ne.symm hsource), sub_zero, add_zero] at hmoves
  exact BitVec.eq_of_toNat_eq (Nat.cast_injective hmoves)

/-- The transfer with a minimum deposit compares the balance under the metadata's own address,
which no transfer between primary stores changes: it goes through as a plain transfer when nothing
is expected, and fails whatever arrives when anything is. -/
theorem minimum_deposit_is_never_seen {sender metadata recipient : AccountAddress}
    (hsender : primaryStoreAddress objects.toObjects sender metadata ≠ metadata)
    (hrecipient : primaryStoreAddress objects.toObjects recipient metadata ≠ metadata)
    (amount expected : U256) :
    transferAssertMinimumDeposit resources objects sender metadata recipient amount expected =
      failing (transfer resources objects sender metadata recipient amount) >>= fun next =>
        if expected = 0 then .ok next else .error .amountMismatch := by
  unfold transferAssertMinimumDeposit transfer
  simp only [failing_bind, bind_assoc]
  cases hfirst : FungibleAssets.ensurePrimaryStoreExists resources objects.toObjects sender
      metadata with
  | error abort => rfl
  | ok first =>
    obtain ⟨source, middle⟩ := first
    have haddress : source = primaryStoreAddress objects.toObjects sender metadata :=
      ((ensurePrimaryStoreExists_keeps sender metadata).of_ok hfirst).1
    have hsource : source ≠ metadata := haddress ▸ hsender
    show failing (mayBeUnburn objects sender source) >>= _ =
      failing (mayBeUnburn objects sender source) >>= _
    cases hunburnt : mayBeUnburn objects sender source with
    | error abort => rfl
    | ok unburnt =>
      show failing (FungibleAssets.ensurePrimaryStoreExists middle unburnt recipient metadata) >>= _
        = failing (FungibleAssets.ensurePrimaryStoreExists middle unburnt recipient metadata) >>= _
      cases hsecond : FungibleAssets.ensurePrimaryStoreExists middle unburnt recipient metadata with
      | error abort => rfl
      | ok second =>
        obtain ⟨target, ready⟩ := second
        have haddress' : target = primaryStoreAddress unburnt recipient metadata :=
          ((ensurePrimaryStoreExists_keeps recipient metadata).of_ok hsecond).1
        have htarget : target ≠ metadata := by
          rw [haddress', derived_of_mayBeUnburn hunburnt]
          exact hrecipient
        show failing (FungibleAssets.transfer ready unburnt sender source target amount) >>= _ =
          failing (FungibleAssets.transfer ready unburnt sender source target amount) >>= _
        cases htransfer : FungibleAssets.transfer ready unburnt sender source target amount with
        | error abort => rfl
        | ok next =>
          have hsame := storeBalance_of_transfer htransfer hsource htarget
          have hgained : checkedSub (storeBalance next metadata) (storeBalance ready metadata) =
              .ok 0 := by
            rw [hsame, checkedSub, if_pos le_rfl, BitVec.sub_self]
            rfl
          show failing (checkedSub (storeBalance next metadata) (storeBalance ready metadata)) >>= _
            = _
          rw [hgained]
          show (if expected.toNat ≤ (0 : U256).toNat then Except.ok next
            else Except.error Failure.amountMismatch) =
              if expected = 0 then Except.ok next else Except.error Failure.amountMismatch
          by_cases hexpected : expected = 0
          · rw [if_pos hexpected, if_pos (by rw [hexpected])]
          · have hpos : ¬ expected.toNat ≤ (0 : U256).toNat := by
              intro hle
              exact hexpected (BitVec.eq_of_toNat_eq (Nat.le_zero.mp hle))
            rw [if_neg hexpected, if_neg hpos]

end MinimumDeposit

section Samples

/-- The store of the second owner is burnt, and only this owner can take it back. -/
def sampleStores : StoreObjects :=
  { sampleObjects with
    owns := fun store owner => store == owner && store != 3
    isBurnt := fun store => store == 3
    unburn := fun owner store =>
      if owner = store then some fun store owner => store == owner else none }

/-- Thirty are minted to one owner, who sends twenty to another one, who takes five out. -/
def sampleCalls : List Call :=
  [.createPrimaryStoreEnabledFungibleAsset 1 (some 100) ⟨"Sample", "S", 18, "", ""⟩,
    .mint ⟨1⟩ 2 30, .transfer 2 1 3 20, .withdraw 3 1 5]

def callAll : List Call → System → List Done → Option (System × List Done)
  | [], system, history => some (system, history)
  | call :: calls, system, history =>
      match step 0 sampleStores system call with
      | .ok next => callAll calls next (⟨sampleStores, system.live, call⟩ :: history)
      | .error _ => none

theorem runs_of_callAll {calls : List Call} {system last : System} {history done : List Done}
    (h : callAll calls system history = some (last, done)) (hrun : Runs 0 system history) :
    Runs 0 last done := by
  induction calls generalizing system history with
  | nil =>
    obtain ⟨rfl, rfl⟩ := Prod.mk.inj (Option.some.inj h)
    exact hrun
  | cons call calls ih =>
    unfold callAll at h
    split at h
    · rename_i next hstep
      exact ih h (hrun.completed hstep)
    · cases h

theorem balances_are_net_payments_sample : ∃ system history, Runs 0 system history ∧
    ((balance system.resources sampleStores.toObjects 3 1).toNat : ℤ) = netPaid 0 history 3 ∧
      netPaid 0 history 3 = 15 := by
  obtain ⟨⟨system, history⟩, hcalls, hnet⟩ : ∃ last, callAll sampleCalls .empty [] = some last ∧
      netPaid 0 last.2 3 = 15 := ⟨_, rfl, by decide +kernel⟩
  have hrun := runs_of_callAll hcalls .empty
  exact ⟨system, history, hrun, ((balances_are_net_payments hrun).1 sampleStores.toObjects 3 1).1,
    hnet⟩

theorem nobody_else_takes_sample : ∃ system next : System,
    step 0 sampleStores system (.withdraw 3 1 5) = .ok next ∧
      heldAt next.resources 3 < heldAt system.resources 3 ∧
      SignedOrUnburnt sampleStores system.resources 3 3 := by
  obtain ⟨last, next, hstep, hless⟩ : ∃ (last : System × List Done) (next : System),
      step 0 sampleStores last.1 (.withdraw 3 1 5) = .ok next ∧
        heldAt next.resources 3 < heldAt last.1.resources 3 :=
    ⟨((callAll (sampleCalls.take 3) .empty []).getD (.empty, [])), _, rfl, by decide +kernel⟩
  exact ⟨last.1, next, hstep, hless, nobody_else_takes hstep 3 hless⟩

/-- Twenty are sent and twenty are expected. -/
theorem minimum_deposit_is_never_seen_sample : ∃ (resources next : Resources),
    transfer resources sampleStores 2 1 3 20 = .ok next ∧
      transferAssertMinimumDeposit resources sampleStores 2 1 3 20 20 =
        .error .amountMismatch := by
  obtain ⟨resources, next, htransfer⟩ : ∃ resources next,
      transfer resources sampleStores 2 1 3 20 = .ok next :=
    ⟨((callAll (sampleCalls.take 2) .empty []).getD (.empty, [])).1.resources, _, rfl⟩
  refine ⟨resources, next, htransfer, ?_⟩
  rw [minimum_deposit_is_never_seen (by decide) (by decide), htransfer]
  rfl

end Samples

end OpMove.PrimaryStores
