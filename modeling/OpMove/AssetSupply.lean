import OpMove.FungibleAssets
import OpMove.Outcomes
import OpMove.Payments
import Mathlib.Algebra.Order.BigOperators.Group.Finset
import Mathlib.Data.FinEnum
import Mathlib.Data.List.Perm.Basic

/-!
Conservation of a fungible asset's supply. What the stores of an asset hold and what its live
values are worth add up to its recorded supply, whatever the callers do. Each function of the
module is described once, by what it ensures of this sum, and the operations are assembled from
these. Since the supply is a word, no sum of balances can exceed one.
-/

namespace OpMove.AssetSupply

open Primitives FungibleAssets Outcomes

section Totals

variable (metadata : AccountAddress)

def heldBy : Option FungibleStore → ℕ
  | some store => if store.metadata = metadata then store.balance.toNat else 0
  | none => 0

def worth (fa : FungibleAsset) : ℕ := if fa.metadata = metadata then fa.amount.toNat else 0

def storesTotal (resources : Resources) : ℕ :=
  ∑ address : AccountAddress, heldBy metadata (resources.store address)

def assetsTotal (live : List FungibleAsset) : ℕ := (live.map (worth metadata)).sum

def supplyOf (resources : Resources) : ℕ :=
  match resources.supply metadata with
  | some supply => supply.current.toNat
  | none => 0

theorem supplyOf_lt (resources : Resources) : supplyOf metadata resources < 2 ^ 256 := by
  unfold supplyOf
  split
  · exact BitVec.isLt _
  · exact Nat.two_pow_pos 256

theorem heldBy_le_storesTotal (resources : Resources) (address : AccountAddress) :
    heldBy metadata (resources.store address) ≤ storesTotal metadata resources :=
  Finset.single_le_sum (f := fun address => heldBy metadata (resources.store address))
    (fun _ _ => Nat.zero_le _) (Finset.mem_univ address)

theorem storesTotal_withStore (resources : Resources) (address : AccountAddress)
    (store : Option FungibleStore) :
    storesTotal metadata (resources.withStore address store) +
        heldBy metadata (resources.store address) =
      storesTotal metadata resources + heldBy metadata store := by
  have hupdate : (fun a => heldBy metadata ((resources.withStore address store).store a)) =
      Function.update (fun a => heldBy metadata (resources.store a)) address
        (heldBy metadata store) := by
    funext a
    by_cases ha : a = address
    · subst ha
      simp [Resources.withStore]
    · simp [Resources.withStore, ha]
  unfold storesTotal
  rw [hupdate]
  exact Payments.sum_update_add (fun a => heldBy metadata (resources.store a)) address _

@[simp] theorem storesTotal_withSupply (resources : Resources) (m : AccountAddress)
    (supply : Supply) :
    storesTotal metadata (resources.withSupply m supply) = storesTotal metadata resources := rfl

@[simp] theorem storesTotal_emit (resources : Resources) (event : Event) :
    storesTotal metadata (resources.emit event) = storesTotal metadata resources := rfl

@[simp] theorem supplyOf_withStore (resources : Resources) (address : AccountAddress)
    (store : Option FungibleStore) :
    supplyOf metadata (resources.withStore address store) = supplyOf metadata resources := rfl

@[simp] theorem supplyOf_emit (resources : Resources) (event : Event) :
    supplyOf metadata (resources.emit event) = supplyOf metadata resources := rfl

theorem supplyOf_withSupply (resources : Resources) (m : AccountAddress) (supply : Supply) :
    supplyOf metadata (resources.withSupply m supply) =
      if metadata = m then supply.current.toNat else supplyOf metadata resources := by
  by_cases hm : metadata = m
  · subst hm
    simp [supplyOf, Resources.withSupply]
  · simp [supplyOf, Resources.withSupply, hm]

@[simp] theorem assetsTotal_nil : assetsTotal metadata [] = 0 := rfl

@[simp] theorem assetsTotal_cons (fa : FungibleAsset) (live : List FungibleAsset) :
    assetsTotal metadata (fa :: live) = worth metadata fa + assetsTotal metadata live := by
  simp [assetsTotal]

end Totals

section Invariant

/-- The invariant of a system: every supply is accounted for and within its maximum. -/
structure Conserved (resources : Resources) (live : List FungibleAsset) : Prop where
  total : ∀ metadata, supplyOf metadata resources =
    storesTotal metadata resources + assetsTotal metadata live
  capped : ∀ metadata supply maximum, resources.supply metadata = some supply →
    supply.maximum = some maximum → supply.current.toNat ≤ maximum.toNat

variable {resources next : Resources} {live live' : List FungibleAsset}

/-- Value that only changes its place. -/
theorem Conserved.move (h : Conserved resources live) (hsupply : next.supply = resources.supply)
    (htotal : ∀ metadata, storesTotal metadata next + assetsTotal metadata live' =
      storesTotal metadata resources + assetsTotal metadata live) : Conserved next live' := by
  refine ⟨fun metadata => ?_, fun metadata supply maximum hs => ?_⟩
  · rw [htotal metadata, ← h.total metadata]
    simp only [supplyOf, hsupply]
  · rw [hsupply] at hs
    exact h.capped metadata supply maximum hs

/-- Value that is created or destroyed together with its record. -/
theorem Conserved.record (h : Conserved resources live) {metadata : AccountAddress}
    {supply : Supply}
    (htotal : ∀ m, storesTotal m resources + assetsTotal m live' =
      if m = metadata then supply.current.toNat
      else storesTotal m resources + assetsTotal m live)
    (hcap : ∀ maximum, supply.maximum = some maximum →
      supply.current.toNat ≤ maximum.toNat) :
    Conserved (resources.withSupply metadata supply) live' := by
  refine ⟨fun m => ?_, fun m found maximum hfound hmaximum => ?_⟩
  · rw [supplyOf_withSupply, storesTotal_withSupply, htotal m, h.total m]
  · by_cases hm : m = metadata
    · subst hm
      simp only [Resources.withSupply, Function.update_self, Option.some.injEq] at hfound
      subst hfound
      exact hcap maximum hmaximum
    · simp only [Resources.withSupply, Function.update_of_ne hm] at hfound
      exact h.capped m found maximum hfound hmaximum

theorem Conserved.perm (h : Conserved resources live) (hperm : live'.Perm live) :
    Conserved resources live' := by
  refine h.move rfl fun metadata => ?_
  have hsum : assetsTotal metadata live' = assetsTotal metadata live :=
    (hperm.map (worth metadata)).sum_nat
  rw [hsum]

/-- No two parts of one supply exceed a word. -/
theorem Conserved.add_lt (h : Conserved resources live) (metadata : AccountAddress) :
    storesTotal metadata resources + assetsTotal metadata live < 2 ^ 256 := by
  rw [← h.total metadata]
  exact supplyOf_lt metadata resources

theorem Conserved.empty : Conserved System.empty.resources System.empty.live := by
  refine ⟨fun metadata => ?_, fun metadata supply maximum hs => ?_⟩
  · simp [System.empty, supplyOf, storesTotal, heldBy]
  · simp [System.empty] at hs

end Invariant

section Checks

/-- Any abort but one of the arithmetic. -/
def Deliberate (abort : Abort) : Prop := abort ≠ .arithmeticError

/-- An abort of the arithmetic has its one excuse. -/
def Excused (excuse : Prop) (abort : Abort) : Prop := abort = .arithmeticError → excuse

variable {onError : Abort → Prop} {resources : Resources}

theorem excused_of_deliberate {α : Type} {excuse : Prop} {post : α → Prop} {x : Except Abort α}
    (h : Ensures Deliberate post x) : Ensures (Excused excuse) post x :=
  h.weaken fun _ hdeliberate harithmetic => absurd harithmetic hdeliberate

theorem require_ensures {condition : Bool} {abort : Abort} (h : onError abort) :
    Ensures onError (fun _ => condition = true) (require condition abort) := by
  cases condition with
  | true => exact ensures_ok rfl
  | false => exact ensures_error h

theorem checkedAdd_ensures {a b : U256} (h : a.toNat + b.toNat < 2 ^ 256) :
    Ensures onError (fun sum => sum.toNat = a.toNat + b.toNat) (checkedAdd a b) := by
  unfold checkedAdd
  rw [if_pos h]
  refine ensures_ok ?_
  rw [BitVec.toNat_add, Nat.mod_eq_of_lt h]

theorem checkedSub_ensures {a b : U256} (h : b.toNat ≤ a.toNat) :
    Ensures onError (fun rest => rest.toNat + b.toNat = a.toNat) (checkedSub a b) := by
  unfold checkedSub
  rw [if_pos h]
  refine ensures_ok ?_
  rw [BitVec.toNat_sub_of_le (BitVec.le_def.mpr h)]
  omega

theorem borrowStoreResource_ensures (store : AccountAddress) :
    Ensures Deliberate (fun found => resources.store store = some found)
      (borrowStoreResource resources store) := by
  unfold borrowStoreResource
  split
  · exact ensures_ok ‹_›
  · exact ensures_error (by simp [Deliberate])

theorem withdrawSanityCheck_ensures {objects : Objects} (owner store : AccountAddress) :
    Ensures Deliberate (fun _ => True) (withdrawSanityCheck resources objects owner store) := by
  refine (require_ensures (by simp [Deliberate])).bind fun _ _ => ?_
  refine (borrowStoreResource_ensures store).bind fun _ _ => ?_
  exact (require_ensures (by simp [Deliberate])).mono fun _ _ => trivial

theorem depositSanityCheck_ensures (store : AccountAddress) :
    Ensures Deliberate (fun _ => True) (depositSanityCheck resources store) := by
  refine (borrowStoreResource_ensures store).bind fun _ _ => ?_
  exact (require_ensures (by simp [Deliberate])).mono fun _ _ => trivial

end Checks

section Stores

variable {resources : Resources} {live : List FungibleAsset}

/-- A store's change is balanced by a change of the live values. -/
theorem Conserved.setStore (h : Conserved resources live) {address : AccountAddress}
    {store : Option FungibleStore} {live' : List FungibleAsset}
    (hbalance : ∀ m, heldBy m store + assetsTotal m live' =
      heldBy m (resources.store address) + assetsTotal m live) :
    Conserved (resources.withStore address store) live' := by
  refine h.move rfl fun m => ?_
  have hupdate := storesTotal_withStore m resources address store
  have hm := hbalance m
  omega

theorem Conserved.emit (h : Conserved resources live) (event : Event) :
    Conserved (resources.emit event) live :=
  ⟨h.total, h.capped⟩

theorem withdrawInternal_ensures (h : Conserved resources live) (store : AccountAddress)
    (amount : U256) :
    Ensures Deliberate (fun result => Conserved result.2 (result.1 :: live))
      (withdrawInternal resources store amount) := by
  refine (borrowStoreResource_ensures store).bind fun found hfound => ?_
  split_ifs with hzero
  · refine ensures_ok (h.move rfl fun m => ?_)
    simp [worth, hzero]
  · refine (require_ensures (by simp [Deliberate])).bind fun _ henough => ?_
    refine (checkedSub_ensures (of_decide_eq_true henough)).bind fun balance hbalance => ?_
    refine ensures_ok ((h.setStore fun m => ?_).emit _)
    rw [hfound, assetsTotal_cons]
    by_cases hm : found.metadata = m
    · simp only [heldBy, worth, if_pos hm]
      omega
    · simp [heldBy, worth, hm]

theorem depositInternal_ensures {fa : FungibleAsset} (h : Conserved resources (fa :: live))
    (store : AccountAddress) :
    Ensures Deliberate (fun next => Conserved next live)
      (depositInternal resources store fa) := by
  unfold depositInternal
  split_ifs with hzero
  · refine ensures_ok (h.move rfl fun m => ?_)
    simp [worth, hzero]
  · refine (borrowStoreResource_ensures store).bind fun found hfound => ?_
    refine (require_ensures (by simp [Deliberate])).bind fun _ hmatch => ?_
    have hmetadata : fa.metadata = found.metadata := eq_of_beq hmatch
    have hfits : found.balance.toNat + fa.amount.toNat < 2 ^ 256 := by
      have htotal := h.add_lt found.metadata
      have hheld := heldBy_le_storesTotal found.metadata resources store
      simp only [hfound, heldBy, if_true] at hheld
      simp only [assetsTotal_cons, worth, if_pos hmetadata] at htotal
      omega
    refine (checkedAdd_ensures hfits).bind fun balance hbalance => ?_
    refine ensures_ok ((h.setStore fun m => ?_).emit _)
    rw [hfound, assetsTotal_cons]
    by_cases hm : found.metadata = m
    · simp only [heldBy, worth, hmetadata, if_pos hm]
      omega
    · simp [heldBy, worth, hmetadata, hm]

end Stores

section Records

variable {resources : Resources} {live : List FungibleAsset}

/-- The mint that a word cannot record. -/
def Unrecordable (resources : Resources) (metadata : AccountAddress) (amount : U256) : Prop :=
  ∃ supply, resources.supply metadata = some supply ∧ supply.maximum = none ∧
    2 ^ 256 ≤ supply.current.toNat + amount.toNat

/-- A recorded mint is within the maximum, and fits a word unless there is none. -/
theorem increaseSupply_ensures (h : Conserved resources live) (metadata : AccountAddress)
    (amount : U256) :
    Ensures (Excused (Unrecordable resources metadata amount))
      (fun next => Conserved next (⟨metadata, amount⟩ :: live))
      (increaseSupply resources metadata amount) := by
  unfold increaseSupply
  split_ifs with hzero
  · refine ensures_ok (h.move rfl fun m => ?_)
    simp [worth, hzero]
  split
  · exact ensures_error (by simp [Excused])
  rename_i supply hsupply
  have hrecord : ∀ recorded : Supply,
      recorded.current.toNat = supply.current.toNat + amount.toNat →
      (∀ maximum, recorded.maximum = some maximum →
        recorded.current.toNat ≤ maximum.toNat) →
      Conserved (resources.withSupply metadata recorded) (⟨metadata, amount⟩ :: live) := by
    intro recorded hcurrent hcap
    refine h.record (fun m => ?_) hcap
    have htotal := h.total m
    rw [assetsTotal_cons]
    by_cases hm : m = metadata
    · subst hm
      simp only [supplyOf, hsupply] at htotal
      simp only [worth, if_true]
      omega
    · simp [worth, hm, Ne.symm hm]
  cases hmaximum : supply.maximum with
  | none =>
    by_cases hfits : supply.current.toNat + amount.toNat < 2 ^ 256
    · refine (checkedAdd_ensures hfits).bind fun current hcurrent => ?_
      exact ensures_ok (hrecord _ hcurrent fun maximum hnone => by cases hnone)
    · -- only here can a mint fail for the size of a word
      have hoverflow : checkedAdd supply.current amount = .error .arithmeticError := if_neg hfits
      show Ensures _ _ (checkedAdd supply.current amount >>= _)
      rw [hoverflow]
      exact ensures_error fun _ => ⟨supply, hsupply, hmaximum, by omega⟩
  | some maximum =>
    have hcapped := h.capped metadata supply maximum hsupply hmaximum
    refine (checkedSub_ensures hcapped).bind fun left hleft => ?_
    refine (require_ensures (by simp [Excused])).bind fun _ henough => ?_
    have hroom : amount.toNat ≤ left.toNat := of_decide_eq_true henough
    have hfits : supply.current.toNat + amount.toNat < 2 ^ 256 := by
      have hlt := maximum.isLt
      omega
    refine (checkedAdd_ensures hfits).bind fun current hcurrent => ?_
    refine ensures_ok (hrecord _ hcurrent fun other hsome => ?_)
    rw [Option.some.injEq] at hsome
    subst hsome
    show current.toNat ≤ _
    omega

theorem mint_ensures (h : Conserved resources live) (ref : MintRef) (amount : U256) :
    Ensures (Excused (Unrecordable resources ref.metadata amount))
      (fun result => Conserved result.2 (result.1 :: live)) (mint resources ref amount) :=
  (increaseSupply_ensures h ref.metadata amount).bind fun _ hnext => ensures_ok hnext

theorem burnInternal_ensures {fa : FungibleAsset} (h : Conserved resources (fa :: live)) :
    Ensures Deliberate (fun next => Conserved next live) (burnInternal resources fa) := by
  unfold burnInternal decreaseSupply
  split_ifs with hzero
  · refine ensures_ok (h.move rfl fun m => ?_)
    simp [worth, hzero]
  split
  · exact ensures_error (by simp [Deliberate])
  · rename_i supply hsupply
    refine (require_ensures (by simp [Deliberate])).bind fun _ henough => ?_
    refine (checkedSub_ensures (of_decide_eq_true henough)).bind fun current hcurrent => ?_
    refine ensures_ok (h.record (fun m => ?_) fun maximum hmaximum => ?_)
    · have htotal := h.total m
      rw [assetsTotal_cons] at htotal ⊢
      by_cases hm : m = fa.metadata
      · subst hm
        simp only [supplyOf, hsupply, worth, if_true] at htotal ⊢
        omega
      · simp [worth, hm, Ne.symm hm]
    · have hcapped := h.capped fa.metadata supply maximum hsupply hmaximum
      show current.toNat ≤ _
      omega

end Records

section Functions

variable {resources : Resources} {objects : Objects} {live : List FungibleAsset}

theorem burn_ensures {fa : FungibleAsset} (h : Conserved resources (fa :: live)) (ref : BurnRef) :
    Ensures Deliberate (fun next => Conserved next live) (burn resources ref fa) := by
  refine (require_ensures (by simp [Deliberate])).bind fun _ _ => ?_
  exact burnInternal_ensures h

theorem burnFrom_ensures (h : Conserved resources live) (ref : BurnRef) (store : AccountAddress)
    (amount : U256) :
    Ensures Deliberate (fun next => Conserved next live)
      (burnFrom resources ref store amount) := by
  refine (withdrawInternal_ensures h store amount).bind fun taken htaken => ?_
  exact burn_ensures htaken ref

theorem withdraw_ensures (h : Conserved resources live) (owner store : AccountAddress)
    (amount : U256) :
    Ensures Deliberate (fun result => Conserved result.2 (result.1 :: live))
      (withdraw resources objects owner store amount) := by
  refine (withdrawSanityCheck_ensures owner store).bind fun _ _ => ?_
  exact withdrawInternal_ensures h store amount

theorem deposit_ensures {fa : FungibleAsset} (h : Conserved resources (fa :: live))
    (store : AccountAddress) :
    Ensures Deliberate (fun next => Conserved next live) (deposit resources store fa) := by
  refine (depositSanityCheck_ensures store).bind fun _ _ => ?_
  exact depositInternal_ensures h store

theorem transfer_ensures (h : Conserved resources live) (sender source target : AccountAddress)
    (amount : U256) :
    Ensures Deliberate (fun next => Conserved next live)
      (transfer resources objects sender source target amount) := by
  refine (withdraw_ensures h sender source amount).bind fun taken htaken => ?_
  exact deposit_ensures htaken target

theorem withdrawWithRef_ensures (h : Conserved resources live) (ref : TransferRef)
    (store : AccountAddress) (amount : U256) :
    Ensures Deliberate (fun result => Conserved result.2 (result.1 :: live))
      (withdrawWithRef resources ref store amount) := by
  refine (borrowStoreResource_ensures store).bind fun _ _ => ?_
  refine (require_ensures (by simp [Deliberate])).bind fun _ _ => ?_
  exact withdrawInternal_ensures h store amount

theorem depositWithRef_ensures {fa : FungibleAsset} (h : Conserved resources (fa :: live))
    (ref : TransferRef) (store : AccountAddress) :
    Ensures Deliberate (fun next => Conserved next live)
      (depositWithRef resources ref store fa) := by
  refine (require_ensures (by simp [Deliberate])).bind fun _ _ => ?_
  exact depositInternal_ensures h store

theorem transferWithRef_ensures (h : Conserved resources live) (ref : TransferRef)
    (source target : AccountAddress) (amount : U256) :
    Ensures Deliberate (fun next => Conserved next live)
      (transferWithRef resources ref source target amount) := by
  refine (withdrawWithRef_ensures h ref source amount).bind fun taken htaken => ?_
  exact depositWithRef_ensures htaken ref target

theorem mintTo_ensures (h : Conserved resources live) (ref : MintRef) (store : AccountAddress)
    (amount : U256) :
    Ensures (Excused (Unrecordable resources ref.metadata amount))
      (fun next => Conserved next live) (mintTo resources ref store amount) := by
  refine (excused_of_deliberate (depositSanityCheck_ensures store)).bind fun _ _ => ?_
  refine (mint_ensures h ref amount).bind fun minted hminted => ?_
  exact excused_of_deliberate (depositInternal_ensures hminted store)

theorem extract_ensures {fa : FungibleAsset} (h : Conserved resources (fa :: live))
    (amount : U256) :
    Ensures Deliberate (fun split => Conserved resources (split.2 :: split.1 :: live))
      (extract fa amount) := by
  refine (require_ensures (by simp [Deliberate])).bind fun _ henough => ?_
  refine (checkedSub_ensures (of_decide_eq_true henough)).bind fun rest hrest => ?_
  refine ensures_ok (h.move rfl fun m => ?_)
  simp only [assetsTotal_cons, worth]
  split_ifs <;> omega

/-- Two values of one asset are parts of its supply, so their sum fits a word. -/
theorem merge_ensures {dst src : FungibleAsset} (h : Conserved resources (src :: dst :: live)) :
    Ensures Deliberate (fun fa => Conserved resources (fa :: live)) (merge dst src) := by
  refine (require_ensures (by simp [Deliberate])).bind fun _ hmatch => ?_
  have hmetadata : src.metadata = dst.metadata := eq_of_beq hmatch
  have hfits : dst.amount.toNat + src.amount.toNat < 2 ^ 256 := by
    have htotal := h.add_lt dst.metadata
    simp only [assetsTotal_cons, worth, if_pos hmetadata, if_true] at htotal
    omega
  refine (checkedAdd_ensures hfits).bind fun amount hamount => ?_
  refine ensures_ok (h.move rfl fun m => ?_)
  simp only [assetsTotal_cons, worth, hmetadata]
  split_ifs <;> omega

theorem zero_ensures (h : Conserved resources live) (metadata : AccountAddress) :
    Ensures Deliberate (fun fa => Conserved resources (fa :: live)) (zero resources metadata) := by
  refine Ensures.bind (require_ensures (by simp [Deliberate])) fun _ _ => ?_
  refine ensures_ok (h.move rfl fun m => ?_)
  simp [worth]

theorem destroyZero_ensures {fa : FungibleAsset} (h : Conserved resources (fa :: live)) :
    Ensures Deliberate (fun _ => Conserved resources live) (destroyZero fa) := by
  refine (require_ensures (by simp [Deliberate])).mono fun _ hempty => ?_
  have hzero : fa.amount = 0 := eq_of_beq hempty
  refine h.move rfl fun m => ?_
  simp [worth, hzero]

theorem createStore_ensures (h : Conserved resources live)
    (constructorRef metadata : AccountAddress) :
    Ensures Deliberate
      (fun next => Conserved next live ∧ next.supply = resources.supply)
      (createStore resources objects constructorRef metadata) := by
  refine Ensures.bind (require_ensures (by simp [Deliberate])) fun _ _ => ?_
  refine (require_ensures (by simp [Deliberate])).bind fun _ hnone => ?_
  refine (require_ensures (by simp [Deliberate])).bind fun _ _ => ?_
  refine ensures_ok ⟨h.setStore fun m => ?_, rfl⟩
  rw [Option.isNone_iff_eq_none.mp hnone]
  simp [heldBy]

theorem removeStore_ensures (h : Conserved resources live) (deleteRef : AccountAddress) :
    Ensures Deliberate (fun next => Conserved next live) (removeStore resources deleteRef) := by
  unfold removeStore
  split
  · exact ensures_error (by simp [Deliberate])
  · rename_i found hfound
    refine (require_ensures (by simp [Deliberate])).bind fun _ hempty => ?_
    have hzero : found.balance = 0 := eq_of_beq hempty
    refine ensures_ok (h.setStore fun m => ?_)
    simp [hfound, heldBy, hzero]

theorem setFrozenFlag_ensures (h : Conserved resources live) (ref : TransferRef)
    (store : AccountAddress) (frozen : Bool) :
    Ensures Deliberate (fun next => Conserved next live)
      (setFrozenFlag resources ref store frozen) := by
  refine (borrowStoreResource_ensures store).bind fun found hfound => ?_
  refine (require_ensures (by simp [Deliberate])).bind fun _ _ => ?_
  refine ensures_ok ((h.setStore fun m => ?_).emit _)
  simp only [hfound, heldBy]

theorem addFungibility_ensures (h : Conserved resources live) (constructorRef : AccountAddress)
    (maximumSupply : Option U256) (metadata : Metadata) :
    Ensures Deliberate (fun next => Conserved next live)
      (addFungibility resources objects constructorRef maximumSupply metadata) := by
  refine (require_ensures (by simp [Deliberate])).bind fun _ _ => ?_
  refine (require_ensures (by simp [Deliberate])).bind fun _ _ => ?_
  refine (require_ensures (by simp [Deliberate])).bind fun _ _ => ?_
  refine (require_ensures (by simp [Deliberate])).bind fun _ _ => ?_
  refine (require_ensures (by simp [Deliberate])).bind fun _ _ => ?_
  refine (require_ensures (by simp [Deliberate])).bind fun _ _ => ?_
  refine (require_ensures (by simp [Deliberate])).bind fun _ _ => ?_
  refine (require_ensures (by simp [Deliberate])).bind fun _ hnone => ?_
  have hrecord : Conserved (resources.withSupply constructorRef ⟨0, maximumSupply⟩) live := by
    refine h.record (fun m => ?_) fun maximum _ => Nat.zero_le _
    have htotal := h.total m
    by_cases hm : m = constructorRef
    · subst hm
      simp only [supplyOf, Option.isNone_iff_eq_none.mp hnone] at htotal
      simp [← htotal]
    · simp [hm]
  exact ensures_ok ⟨hrecord.total, hrecord.capped⟩

end Functions

section EthToken

variable {resources : Resources} {objects : Objects} {live : List FungibleAsset}
  {asset : AccountAddress}

theorem ensurePrimaryStoreExists_ensures (h : Conserved resources live)
    (owner metadata : AccountAddress) :
    Ensures Deliberate
      (fun ensured => Conserved ensured.2 live ∧ ensured.2.supply = resources.supply)
      (ensurePrimaryStoreExists resources objects owner metadata) := by
  unfold ensurePrimaryStoreExists
  dsimp only
  split_ifs with hexists
  · exact ensures_ok ⟨h, rfl⟩
  · refine Ensures.bind (require_ensures (by simp [Deliberate])) fun _ _ => ?_
    refine (require_ensures (by simp [Deliberate])).bind fun _ _ => ?_
    refine (createStore_ensures h _ metadata).bind fun next hnext => ?_
    exact ensures_ok hnext

theorem primaryStore_ensures (owner metadata : AccountAddress) :
    Ensures Deliberate (fun _ => True) (primaryStore resources objects owner metadata) := by
  refine Ensures.bind (require_ensures (by simp [Deliberate])) fun _ _ => ?_
  exact ensures_ok trivial

theorem authorizedBorrowRefs_ensures (owner : AccountAddress) :
    Ensures Deliberate (fun refs => refs.1.metadata = asset)
      (authorizedBorrowRefs resources objects owner asset) := by
  refine Ensures.bind (require_ensures (by simp [Deliberate])) fun _ _ => ?_
  refine (require_ensures (by simp [Deliberate])).bind fun _ _ => ?_
  exact ensures_ok rfl

theorem ethMint_ensures (h : Conserved resources live) (admin target : AccountAddress)
    (amount : U256) :
    Ensures (Excused (Unrecordable resources asset amount)) (fun next => Conserved next live)
      (ethMint resources objects asset admin target amount) := by
  refine (excused_of_deliberate (authorizedBorrowRefs_ensures admin)).bind fun refs hrefs => ?_
  refine (excused_of_deliberate (ensurePrimaryStoreExists_ensures h target asset)).bind
    fun ensured hensured => ?_
  have hmint := mint_ensures hensured.1 refs.1 amount
  simp only [Unrecordable, hensured.2, hrefs] at hmint
  refine Ensures.bind hmint fun minted hminted => ?_
  exact excused_of_deliberate (depositWithRef_ensures hminted refs.2.1 ensured.1)

theorem ethTransfer_ensures (h : Conserved resources live) (admin source target : AccountAddress)
    (amount : U256) :
    Ensures Deliberate (fun next => Conserved next live)
      (ethTransfer resources objects asset admin source target amount) := by
  refine (authorizedBorrowRefs_ensures admin).bind fun refs _ => ?_
  refine (primaryStore_ensures source asset).bind fun fromWallet _ => ?_
  refine (ensurePrimaryStoreExists_ensures h target asset).bind fun ensured hensured => ?_
  refine (withdrawWithRef_ensures hensured.1 refs.2.1 fromWallet amount).bind
    fun taken htaken => ?_
  exact depositWithRef_ensures htaken refs.2.1 ensured.1

theorem ethBurn_ensures (h : Conserved resources live) (admin source : AccountAddress)
    (amount : U256) :
    Ensures Deliberate (fun next => Conserved next live)
      (ethBurn resources objects asset admin source amount) := by
  refine (authorizedBorrowRefs_ensures admin).bind fun refs _ => ?_
  refine (primaryStore_ensures source asset).bind fun fromWallet _ => ?_
  exact burnFrom_ensures h refs.2.2 fromWallet amount

end EthToken

section Steps

variable {system : System} {asset : AccountAddress} {objects : Objects}

theorem take_perm (live : List FungibleAsset) (place : ℕ) :
    Ensures Deliberate (fun taken => (taken.1 :: taken.2).Perm live) (take live place) := by
  unfold take
  split
  · rename_i fa hfa
    obtain ⟨hlt, rfl⟩ := List.getElem?_eq_some_iff.mp hfa
    exact ensures_ok (List.getElem_cons_eraseIdx_perm hlt)
  · exact ensures_error (by simp [Deliberate])

theorem take_ensures {resources : Resources} {live : List FungibleAsset}
    (h : Conserved resources live) (place : ℕ) :
    Ensures Deliberate (fun taken => Conserved resources (taken.1 :: taken.2))
      (take live place) :=
  (take_perm live place).mono fun _ hperm => h.perm hperm

def Sound (system : System) : Prop := Conserved system.resources system.live

theorem keeping_ensures {live : List FungibleAsset} {call : Except Abort Resources}
    {onError : Abort → Prop} (h : Ensures onError (fun next => Conserved next live) call) :
    Ensures onError Sound (keeping live call) :=
  h.bind fun _ hnext => ensures_ok hnext

theorem giving_ensures {live : List FungibleAsset}
    {call : Except Abort (FungibleAsset × Resources)} {onError : Abort → Prop}
    (h : Ensures onError (fun result => Conserved result.2 (result.1 :: live)) call) :
    Ensures onError Sound (giving live call) :=
  h.bind fun _ hnext => ensures_ok hnext

/-- What an operation mints, and of which asset. -/
def minted (asset : AccountAddress) : Operation → Option (AccountAddress × U256)
  | .mint ref amount => some (ref.metadata, amount)
  | .mintTo ref _ amount => some (ref.metadata, amount)
  | .ethMint _ _ amount => some (asset, amount)
  | _ => none

/-- A mint past the last word, of an asset without a maximum. -/
def Overflows (asset : AccountAddress) (resources : Resources) (operation : Operation) : Prop :=
  ∃ metadata amount, minted asset operation = some (metadata, amount) ∧
    Unrecordable resources metadata amount

theorem overflows_of_excused {α : Type} {post : α → Prop} {x : Except Abort α}
    {resources : Resources} {operation : Operation} {metadata : AccountAddress} {amount : U256}
    (h : Ensures (Excused (Unrecordable resources metadata amount)) post x)
    (hminted : minted asset operation = some (metadata, amount)) :
    Ensures (Excused (Overflows asset resources operation)) post x :=
  h.weaken fun _ hexcused harithmetic => ⟨metadata, amount, hminted, hexcused harithmetic⟩

/-- One operation keeps the supply accounted for, or aborts. -/
theorem step_ensures (h : Sound system) (operation : Operation) :
    Ensures (Excused (Overflows asset system.resources operation)) Sound
      (step asset objects system operation) := by
  cases operation with
  | mint ref amount => exact overflows_of_excused (giving_ensures (mint_ensures h ref amount)) rfl
  | mintTo ref store amount =>
    exact overflows_of_excused (keeping_ensures (mintTo_ensures h ref store amount)) rfl
  | ethMint admin target amount =>
    exact overflows_of_excused (keeping_ensures (ethMint_ensures h admin target amount)) rfl
  | addFungibility constructorRef maximumSupply metadata =>
    exact excused_of_deliberate
      (keeping_ensures (addFungibility_ensures h constructorRef maximumSupply metadata))
  | burn ref place =>
    refine excused_of_deliberate ((take_ensures h place).bind fun taken htaken => ?_)
    exact keeping_ensures (burn_ensures htaken ref)
  | burnFrom ref store amount =>
    exact excused_of_deliberate (keeping_ensures (burnFrom_ensures h ref store amount))
  | addressBurnFrom ref store amount =>
    exact excused_of_deliberate (keeping_ensures (burnFrom_ensures h ref store amount))
  | withdraw owner store amount =>
    exact excused_of_deliberate (giving_ensures (withdraw_ensures h owner store amount))
  | withdrawWithRef ref store amount =>
    exact excused_of_deliberate (giving_ensures (withdrawWithRef_ensures h ref store amount))
  | deposit store place =>
    refine excused_of_deliberate ((take_ensures h place).bind fun taken htaken => ?_)
    exact keeping_ensures (deposit_ensures htaken store)
  | depositWithRef ref store place =>
    refine excused_of_deliberate ((take_ensures h place).bind fun taken htaken => ?_)
    exact keeping_ensures (depositWithRef_ensures htaken ref store)
  | transfer sender source target amount =>
    exact excused_of_deliberate
      (keeping_ensures (transfer_ensures h sender source target amount))
  | transferWithRef ref source target amount =>
    exact excused_of_deliberate
      (keeping_ensures (transferWithRef_ensures h ref source target amount))
  | extract place amount =>
    refine excused_of_deliberate ((take_ensures h place).bind fun taken htaken => ?_)
    exact (extract_ensures htaken amount).bind fun split hsplit => ensures_ok hsplit
  | merge dst src =>
    refine excused_of_deliberate ((take_perm system.live dst).bind fun first hfirst => ?_)
    -- the destination stays with the caller while the source is taken
    refine (take_perm first.2 src).bind fun second hsecond => ?_
    have hboth : (second.1 :: first.1 :: second.2).Perm system.live :=
      (List.Perm.swap _ _ _).trans ((hsecond.cons first.1).trans hfirst)
    exact (merge_ensures (h.perm hboth)).bind fun fa hfa => ensures_ok hfa
  | zero metadata =>
    refine excused_of_deliberate ((zero_ensures h metadata).bind fun fa hfa => ?_)
    exact ensures_ok hfa
  | destroyZero place =>
    refine excused_of_deliberate ((take_ensures h place).bind fun taken htaken => ?_)
    exact (destroyZero_ensures htaken).bind fun _ hrest => ensures_ok hrest
  | createStore constructorRef metadata =>
    refine excused_of_deliberate (keeping_ensures ?_)
    exact (createStore_ensures h constructorRef metadata).mono fun _ hnext => hnext.1
  | removeStore deleteRef =>
    exact excused_of_deliberate (keeping_ensures (removeStore_ensures h deleteRef))
  | setFrozenFlag ref store frozen =>
    exact excused_of_deliberate (keeping_ensures (setFrozenFlag_ensures h ref store frozen))
  | ethTransfer admin source target amount =>
    exact excused_of_deliberate
      (keeping_ensures (ethTransfer_ensures h admin source target amount))
  | ethBurn admin source amount =>
    exact excused_of_deliberate (keeping_ensures (ethBurn_ensures h admin source amount))

theorem sound_of_runs (h : Runs asset system) : Sound system := by
  induction h with
  | empty => exact Conserved.empty
  | completed _ hstep ih => exact (step_ensures ih _).of_ok hstep
  | aborted _ _ ih => exact ih

end Steps

section Conservation

/-- Whatever the callers have done, the recorded supply of every asset is what its stores and its
live values hold together, and is within the maximum; and no operation is stopped by the size of
a word but a mint of an unlimited asset whose supply would not fit one. -/
theorem supply_is_conserved {asset : AccountAddress} {system : System} (h : Runs asset system) :
    (∀ metadata supply, system.resources.supply metadata = some supply →
      supply.current.toNat =
          storesTotal metadata system.resources + assetsTotal metadata system.live ∧
        ∀ maximum, supply.maximum = some maximum → supply.current.toNat ≤ maximum.toNat) ∧
      ∀ objects operation, step asset objects system operation = .error .arithmeticError →
        Overflows asset system.resources operation := by
  have hsound := sound_of_runs h
  refine ⟨fun metadata supply hsupply => ⟨?_, fun maximum hmaximum => ?_⟩,
    fun objects operation hstep => ?_⟩
  · rw [← hsound.total metadata]
    simp [supplyOf, hsupply]
  · exact hsound.capped metadata supply maximum hsupply hmaximum
  · exact (step_ensures hsound operation).of_error hstep rfl

/-- Objects that are owned by everyone and cannot be deleted. -/
def sampleObjects : Objects where
  owns := fun _ _ => true
  isOwner := fun _ _ => true
  canGenerateDeleteRef := fun _ => false
  isUntransferable := fun _ => false
  setUntransferable := fun _ => true
  createUserDerivedObject := fun _ _ => true
  userDerivedObjectAddress := fun owner _ => owner

/-- An asset with a maximum of a hundred, thirty of it minted to a store, and ten of these
withdrawn again. -/
theorem supply_is_conserved_sample :
    ∃ system, Runs 0 system ∧ system.resources.supply 1 = some ⟨30, some 100⟩ ∧
      system.live = [⟨1, 10⟩] ∧
      30 = storesTotal 1 system.resources + assetsTotal 1 system.live := by
  have hcreated := @Runs.completed 0 _ _ sampleObjects
    (.addFungibility 1 (some 100) ⟨"Sample", "S", 18, "", ""⟩) Runs.empty rfl
  have hstore := @Runs.completed _ _ _ sampleObjects (.createStore 2 1) hcreated rfl
  have hminted := @Runs.completed _ _ _ sampleObjects (.mintTo ⟨1⟩ 2 30) hstore rfl
  have hwithdrawn := @Runs.completed _ _ _ sampleObjects (.withdraw 3 2 10) hminted rfl
  have hsupply := (supply_is_conserved hwithdrawn).1 1 ⟨30, some 100⟩ rfl
  exact ⟨_, hwithdrawn, rfl, rfl, hsupply.1⟩

end Conservation

end OpMove.AssetSupply
