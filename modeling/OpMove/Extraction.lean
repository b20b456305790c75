import OpMove.StateChanges

/-!
What extraction keeps of the state maps. The tries, the account resources and the
code resources are followed separately through the two loops; a map persists an
account at most once, so each pass of the inner loop is about a fresh key.
-/

namespace OpMove.Extraction

open Primitives ChangeSets StorageTries StateChanges

section Slots

theorem insertSlots_content (entries : List (Σ _ : U256, EvmStorageSlot))
    (hnodup : entries.NodupKeys) (trie : StorageTrie) (i : U256) :
    (entries.foldl (fun trie slot => match slot.2.change with
      | some value => trie.insert slot.1 value
      | none => trie) trie).content i =
      ((entries.dlookup i).bind fun slot => slot.change).getD (trie.content i) := by
  induction entries generalizing trie with
  | nil => rfl
  | cons entry entries ih =>
    obtain ⟨j, slot⟩ := entry
    obtain ⟨hnew, hrest⟩ := List.nodupKeys_cons.mp hnodup
    rw [List.foldl_cons, ih hrest]
    by_cases hij : i = j
    · subst hij
      rw [List.dlookup_eq_none.mpr hnew, List.dlookup_cons_eq]
      cases hchange : slot.change with
      | none => simp [hchange]
      | some value => simp [hchange, StorageTrie.insert]
    · rw [List.dlookup_cons_ne _ _ hij]
      cases hchange : slot.change with
      | none => rfl
      | some value => simp [StorageTrie.insert, Function.update_of_ne hij]

theorem insertChangedSlots_eq (trie : StorageTrie) (account : EvmAccount) :
    insertChangedSlots trie account = ⟨trie.opened, slotsAfter trie.content account⟩ := by
  have hopened : (insertChangedSlots trie account).opened = trie.opened := by
    unfold insertChangedSlots
    induction account.storage.entries generalizing trie with
    | nil => rfl
    | cons slot entries ih =>
      rw [List.foldl_cons, ih]
      cases slot.2.change <;> rfl
  have hcontent : (insertChangedSlots trie account).content =
      slotsAfter trie.content account :=
    funext fun i => insertSlots_content account.storage.entries account.storage.nodupKeys trie i
  rw [← hcontent, ← hopened]

end Slots

section InnerLoop

variable (lib : TrieLibrary) (keccak256 : Bytes → B256) (state : EvmState)
variable (priorChanges : ChangeSet ResourceKey ResourceValue) (trieOf : Address → StorageTrie)

/-- The trie changes of one persisted account. -/
def trieChanges (a : Address) (account : EvmAccount) : StorageTrieChanges :=
  (insertChangedSlots (trieOf a) account).commit lib

/-- The operation one persisted account adds. -/
def accountOp (a : Address) (account : EvmAccount) : Op ResourceValue :=
  let value := ResourceValue.account (accountResource account (trieChanges lib trieOf a account).root)
  if resourceExists state.resources priorChanges (.account a) then .modify value else .new value

/-- Code operations are creations of code that did not exist. -/
def CodeIsNew (single : ChangeSet ResourceKey ResourceValue) : Prop :=
  ∀ hash op, single.lookup (.code hash) = some op →
    (∃ value, op = .new value) ∧ resourceExists state.resources priorChanges (.code hash) = false

theorem addCode_spec {result : ChangeSet ResourceKey ResourceValue} (info : AccountInfo)
    (hcode : CodeIsNew state priorChanges result) :
    (∀ b, (addCode keccak256 state.resources priorChanges result info).lookup (.account b) =
      result.lookup (.account b)) ∧
    CodeIsNew state priorChanges (addCode keccak256 state.resources priorChanges result info) := by
  unfold addCode
  dsimp only
  split_ifs with hexists
  · exact ⟨fun b => rfl, hcode⟩
  split
  · exact ⟨fun b => rfl, hcode⟩
  · exact ⟨fun b => rfl, hcode⟩
  unfold ChangeSet.addOp
  split_ifs with hpresent
  · exact ⟨fun b => rfl, hcode⟩
  · constructor
    · intro b
      rw [Option.getD_some, lookup_insert_if, if_neg (by simp)]
    · intro hash op hop
      rw [Option.getD_some, lookup_insert_if] at hop
      split_ifs at hop with hsame
      · rw [hsame]
        exact ⟨⟨_, (Option.some.inj hop).symm⟩, by simpa using hexists⟩
      · exact hcode hash op hop

variable (htrie : ∀ a, (state.tries a).forAccount lib = some (trieOf a))

include htrie in
theorem addAccountChanges_spec {result : ChangeSet ResourceKey ResourceValue} (a : Address)
    (account : EvmAccount) (hnew : result.lookup (.account a) = none)
    (hcode : CodeIsNew state priorChanges result) :
    ∃ next, addAccountChanges lib keccak256 state a account priorChanges result =
        some (trieChanges lib trieOf a account, next) ∧
      (∀ b, next.lookup (.account b) =
        if b = a then some (accountOp lib state priorChanges trieOf a account)
        else result.lookup (.account b)) ∧
      CodeIsNew state priorChanges next := by
  let added := result.insert (.account a) (accountOp lib state priorChanges trieOf a account)
  have hadd : result.addOp (.account a) (accountOp lib state priorChanges trieOf a account) =
      some added := by
    unfold ChangeSet.addOp
    rw [hnew]
    rfl
  have haddedCode : CodeIsNew state priorChanges added := by
    intro hash op hop
    rw [lookup_insert_if, if_neg (by simp)] at hop
    exact hcode hash op hop
  obtain ⟨haccounts, hcodes⟩ :=
    addCode_spec keccak256 state priorChanges account.info haddedCode
  refine ⟨_, ?_, ?_, hcodes⟩
  · unfold addAccountChanges
    rw [htrie a]
    show (result.addOp (.account a) (accountOp lib state priorChanges trieOf a account)).bind _ = _
    rw [hadd]
    rfl
  · intro b
    rw [haccounts b, lookup_insert_if]
    by_cases hb : b = a
    · simp [hb]
    · simp [hb]

theorem extractAccount_skips {a : Address} {account : EvmAccount} (h : account.isPersisted = false)
    (progress : MapProgress) :
    extractAccount lib keccak256 state priorChanges progress ⟨a, account⟩ = some progress := by
  have hskips : (!account.isTouched || account.isSelfdestructed) = true := by
    simp only [EvmAccount.isPersisted, Bool.and_eq_false_iff, Bool.not_eq_false'] at h
    rcases h with htouched | hdestroyed
    · simp [htouched]
    · simp [hdestroyed]
  simp only [extractAccount, hskips, if_true]

theorem extractAccount_persists {a : Address} {account : EvmAccount}
    (h : account.isPersisted = true) {single next : ChangeSet ResourceKey ResourceValue}
    {tries : Table Address StorageTrieChanges} {changes : StorageTrieChanges}
    (hnext : addAccountChanges lib keccak256 state a account priorChanges single =
      some (changes, next)) :
    extractAccount lib keccak256 state priorChanges (single, tries) ⟨a, account⟩ =
      some (next, withTrieChanges tries a changes) := by
  have hgoes : (!account.isTouched || account.isSelfdestructed) = false := by
    simp only [EvmAccount.isPersisted, Bool.and_eq_true, Bool.not_eq_true'] at h
    simp [h]
  simp only [extractAccount, hgoes, hnext, Option.bind_eq_bind, Option.bind_some]
  rfl

/-- The persisted account of an address among the entries of a map. -/
theorem filter_dlookup_cons {a b : Address} {account : EvmAccount}
    {entries : List (Σ _ : Address, EvmAccount)} (p : EvmAccount → Bool) :
    (List.dlookup b (⟨a, account⟩ :: entries)).filter p =
      if b = a then (some account).filter p else (entries.dlookup b).filter p := by
  by_cases hba : b = a
  · subst hba
    rw [List.dlookup_cons_eq, if_pos rfl]
  · rw [List.dlookup_cons_ne _ _ hba, if_neg hba]

include htrie in
/-- A map persists its accounts one by one, each under its own key. -/
theorem extractEntries_spec (entries : List (Σ _ : Address, EvmAccount))
    (hnodup : entries.NodupKeys) (single : ChangeSet ResourceKey ResourceValue)
    (tries : Table Address StorageTrieChanges)
    (hfresh : ∀ b ∈ entries.keys, single.lookup (.account b) = none)
    (hcode : CodeIsNew state priorChanges single) :
    ∃ single' tries',
      entries.foldlM (extractAccount lib keccak256 state priorChanges) (single, tries) =
        some (single', tries') ∧
      (∀ b, single'.lookup (.account b) =
        ((entries.dlookup b).filter fun account => account.isPersisted).elim
          (single.lookup (.account b))
          fun account => some (accountOp lib state priorChanges trieOf b account)) ∧
      (∀ b, tries'.lookup b =
        ((entries.dlookup b).filter fun account => account.isPersisted).elim (tries.lookup b)
          fun account => some (addTo (tries.lookup b) (trieChanges lib trieOf b account))) ∧
      CodeIsNew state priorChanges single' := by
  induction entries generalizing single tries with
  | nil => exact ⟨single, tries, rfl, fun b => rfl, fun b => rfl, hcode⟩
  | cons entry entries ih =>
    obtain ⟨a, account⟩ := entry
    obtain ⟨hnew, hrest⟩ := List.nodupKeys_cons.mp hnodup
    have hlater : entries.dlookup a = none := List.dlookup_eq_none.mpr hnew
    cases hpersisted : account.isPersisted with
    | true =>
      obtain ⟨next, hnext, haccounts, hcodes⟩ := addAccountChanges_spec lib keccak256 state
        priorChanges trieOf htrie a account (hfresh a (by simp)) hcode
      have hnextFresh : ∀ b ∈ entries.keys, next.lookup (.account b) = none := by
        intro b hb
        have hba : b ≠ a := fun heq => hnew (heq ▸ hb)
        rw [haccounts b, if_neg hba]
        exact hfresh b (by simp [hb])
      obtain ⟨single', tries', hrun, hsingle, htries, hcode'⟩ :=
        ih hrest next (withTrieChanges tries a (trieChanges lib trieOf a account)) hnextFresh
          hcodes
      refine ⟨single', tries', ?_, fun b => ?_, fun b => ?_, hcode'⟩
      · rw [List.foldlM_cons, extractAccount_persists lib keccak256 state priorChanges hpersisted
          hnext]
        exact hrun
      · rw [hsingle b, haccounts b, filter_dlookup_cons]
        by_cases hba : b = a
        · subst hba
          simp [hlater, Option.filter, hpersisted]
        · rw [if_neg hba, if_neg hba]
      · rw [htries b, filter_dlookup_cons]
        by_cases hba : b = a
        · subst hba
          simp [hlater, Option.filter, hpersisted, withTrieChanges]
        · rw [if_neg hba, withTrieChanges, AList.lookup_insert_ne hba]
    | false =>
      obtain ⟨single', tries', hrun, hsingle, htries, hcode'⟩ :=
        ih hrest single tries (fun b hb => hfresh b (by simp [hb])) hcode
      have hsame : ∀ b, (List.dlookup b (⟨a, account⟩ :: entries)).filter
          (fun account => account.isPersisted) =
            (entries.dlookup b).filter fun account => account.isPersisted := by
        intro b
        rw [filter_dlookup_cons]
        by_cases hba : b = a
        · subst hba
          simp [hlater, Option.filter, hpersisted]
        · rw [if_neg hba]
      refine ⟨single', tries', ?_, fun b => ?_, fun b => ?_, hcode'⟩
      · rw [List.foldlM_cons, extractAccount_skips lib keccak256 state priorChanges hpersisted]
        exact hrun
      · rw [hsingle b, hsame b]
      · rw [htries b, hsame b]

end InnerLoop

section OuterLoop

variable (lib : TrieLibrary) (keccak256 : Bytes → B256) (state : EvmState)
variable (trieOf : Address → StorageTrie)

/-- The resource written for an account that some map persists. -/
def writtenResource (b : Address) (account : EvmAccount) : ResourceValue :=
  .account (accountResource account (trieChanges lib trieOf b account).root)

/-- What the outer loop knows after a list of maps. -/
structure Extracted (maps : List StateMap) (progress : MapProgress) : Prop where
  accounts : ∀ b, (progress.1.lookup (.account b)).map Op.value =
    (persistedAll maps b).getLast?.map fun account => some (writtenResource lib trieOf b account)
  kept : ∀ key op, progress.1.lookup key = some op → op.value.isSome
  tries : ∀ b, progress.2.lookup b = (persistedAll maps b).foldl
    (fun old account => some (addTo old (trieChanges lib trieOf b account))) none

theorem persistedAll_append (maps : List StateMap) (map : StateMap) (b : Address) :
    persistedAll (maps ++ [map]) b = persistedAll maps b ++ (persisted map b).toList := by
  unfold persistedAll
  rw [List.filterMap_append]
  cases h : persisted map b <;> simp [h]

/-- A later account operation is a modification of what an earlier map left. -/
theorem merge_accountOp {accounts : ChangeSet ResourceKey ResourceValue} {b : Address}
    (account : EvmAccount) (hkept : ∀ op, accounts.lookup (.account b) = some op → op.value.isSome) :
    ∃ op, ChangeSet.merge (accounts.lookup (.account b))
        (some (accountOp lib state accounts trieOf b account)) = some (some op) ∧
      op.value = some (writtenResource lib trieOf b account) := by
  cases hold : accounts.lookup (.account b) with
  | none =>
    refine ⟨_, rfl, ?_⟩
    unfold accountOp
    dsimp only
    split_ifs <;> rfl
  | some old =>
    have hexists : resourceExists state.resources accounts (.account b) = true := by
      simp [resourceExists, hold]
    have hmodify : accountOp lib state accounts trieOf b account =
        .modify (writtenResource lib trieOf b account) := by
      unfold accountOp
      rw [hexists]
      rfl
    rw [hmodify]
    have hvalue := hkept old hold
    cases old with
    | new value => exact ⟨_, rfl, rfl⟩
    | modify value => exact ⟨_, rfl, rfl⟩
    | delete => simp [Op.value] at hvalue

/-- Account operations always fit, and the last persisted account is what is left. -/
theorem merge_accounts {maps : List StateMap} {map : StateMap} {progress : MapProgress}
    (h : Extracted lib trieOf maps progress) {single : ChangeSet ResourceKey ResourceValue}
    (hsingle : ∀ b, single.lookup (.account b) =
      (persisted map b).map fun account => accountOp lib state progress.1 trieOf b account)
    (b : Address) : ∃ merged,
      ChangeSet.merge (progress.1.lookup (.account b)) (single.lookup (.account b)) = some merged ∧
      merged.map Op.value = (persistedAll (maps ++ [map]) b).getLast?.map
        (fun account => some (writtenResource lib trieOf b account)) := by
  rw [hsingle b, persistedAll_append]
  cases hpersisted : persisted map b with
  | none => exact ⟨progress.1.lookup (.account b), rfl, by simpa using h.accounts b⟩
  | some account =>
    obtain ⟨op, hop, hvalue⟩ := merge_accountOp lib state trieOf account
      (fun op hop => h.kept (.account b) op hop)
    exact ⟨some op, hop, by simp [hvalue]⟩

/-- Code operations always fit, since they create what did not exist. -/
theorem merge_codes {accounts single : ChangeSet ResourceKey ResourceValue}
    (hkept : ∀ key op, accounts.lookup key = some op → op.value.isSome)
    (hcode : CodeIsNew state accounts single) (hash : B256) : ∃ merged,
      ChangeSet.merge (accounts.lookup (.code hash)) (single.lookup (.code hash)) = some merged ∧
      ∀ op, merged = some op → op.value.isSome := by
  cases hop : single.lookup (.code hash) with
  | none => exact ⟨accounts.lookup (.code hash), rfl, fun op => hkept (.code hash) op⟩
  | some op =>
    obtain ⟨⟨value, rfl⟩, hnew⟩ := hcode hash op hop
    have hnone : accounts.lookup (.code hash) = none := by
      simp only [resourceExists, Bool.or_eq_false_iff] at hnew
      exact Option.not_isSome_iff_eq_none.mp (by simp [hnew.1])
    rw [hnone]
    refine ⟨_, rfl, fun op hop => ?_⟩
    rw [← Option.some.inj hop]
    rfl

variable (htrie : ∀ a, (state.tries a).forAccount lib = some (trieOf a))

include htrie in
/-- One more map never fails and keeps what is known. -/
theorem extractMap_spec {maps : List StateMap} {progress : MapProgress}
    (h : Extracted lib trieOf maps progress) (map : StateMap) :
    ∃ next, extractMap lib keccak256 state progress map = some next ∧
      Extracted lib trieOf (maps ++ [map]) next := by
  obtain ⟨accounts, tries⟩ := progress
  obtain ⟨single, tries', hrun, hsingle, htries, hcode⟩ := extractEntries_spec lib keccak256 state
    accounts trieOf htrie map.entries map.nodupKeys ∅ tries (fun b _ => rfl)
    (fun hash op hop => by cases hop)
  have hsingle : ∀ b, single.lookup (.account b) =
      (persisted map b).map fun account => accountOp lib state accounts trieOf b account := by
    intro b
    rw [hsingle b]
    show (persisted map b).elim none _ = _
    cases persisted map b <;> rfl
  have hmerge := merge_accounts lib state trieOf h hsingle
  have hcodeMerge := merge_codes state h.kept hcode
  obtain ⟨merged, hsquash, hlookup⟩ := ChangeSet.exists_squash accounts single
    (fun key => by
      cases key with
      | account b =>
        obtain ⟨result, hresult, -⟩ := hmerge b
        rw [hresult]
        rfl
      | code hash =>
        obtain ⟨result, hresult, -⟩ := hcodeMerge hash
        rw [hresult]
        rfl)
  refine ⟨(merged, tries'), ?_, ?_, ?_, ?_⟩
  · simp only [extractMap, hrun, hsquash, Option.bind_eq_bind, Option.bind_some]
  · intro b
    obtain ⟨result, hresult, hvalue⟩ := hmerge b
    have hb := hlookup (.account b)
    rw [hresult, Option.some.injEq] at hb
    rw [← hvalue, ← hb]
  · intro key op hop
    have hkey := hlookup key
    cases key with
    | account b =>
      obtain ⟨result, hresult, hvalue⟩ := hmerge b
      rw [hresult, Option.some.injEq, hop] at hkey
      rw [← hkey] at hvalue
      cases hlast : (persistedAll (maps ++ [map]) b).getLast? with
      | none => simp [hlast] at hvalue
      | some account =>
        rw [hlast, Option.map_some, Option.map_some, Option.some.injEq] at hvalue
        rw [hvalue]
        rfl
    | code hash =>
      obtain ⟨result, hresult, hvalue⟩ := hcodeMerge hash
      rw [hresult, Option.some.injEq, hop] at hkey
      exact hvalue op hkey.symm
  · intro b
    rw [htries b, persistedAll_append, List.foldl_append, ← h.tries b]
    show (persisted map b).elim _ _ = _
    cases persisted map b <;> rfl

include htrie in
theorem extractMaps_spec (maps : List StateMap) :
    ∃ final, maps.foldlM (extractMap lib keccak256 state) (∅, ∅) = some final ∧
      Extracted lib trieOf maps final := by
  induction maps using List.reverseRecOn with
  | nil => exact ⟨(∅, ∅), rfl, fun b => rfl, fun key op hop => (by cases hop), fun b => rfl⟩
  | append_singleton maps map ih =>
    obtain ⟨progress, hrun, hextracted⟩ := ih
    obtain ⟨next, hnext, hextracted'⟩ :=
      extractMap_spec lib keccak256 state trieOf htrie hextracted map
    refine ⟨next, ?_, hextracted'⟩
    rw [List.foldlM_append, hrun]
    simpa using hnext

end OuterLoop

section Tries

variable {lib : TrieLibrary} {occurs : Storage → Prop}

/-- Applied to the database, the changes give a store with the old trie and the new one. -/
structure Covers (lib : TrieLibrary) (db : TrieDb) (opened : Option Storage) (new : Storage)
    (changes : StorageTrieChanges) : Prop where
  root : changes.root = lib.root new
  old : ∀ old ∈ opened, lib.Has (db.apply changes).nodes old
  new : lib.Has (db.apply changes).nodes new

/-- The nodes that new ones are written over: those of the database and of the changes before. -/
def nodesBefore (db : TrieDb) : Option StorageTrieChanges → Nodes
  | none => db.nodes
  | some changes => (db.apply changes).nodes

theorem lookup_addTo (db : TrieDb) (before : Option StorageTrieChanges) (opened : Option Storage)
    (new : Storage) (hash : B256) :
    (db.apply (addTo before (StorageTrie.commit lib ⟨opened, new⟩))).nodes.lookup hash =
      (lib.changedNodes opened new ∪ nodesBefore db before).lookup hash := by
  cases before with
  | none => rfl
  | some changes =>
    simp only [addTo, StorageTrieChanges.add, StorageTrie.commit, TrieDb.apply, nodesBefore,
      lookup_union_or, Option.or_assoc]

theorem covers_addTo (hlawful : lib.Lawful occurs) {db : TrieDb} {opened : Option Storage}
    {new : Storage} (hopened : ∀ old ∈ opened, occurs old) (hnew : occurs new)
    (hdb : ∀ old ∈ opened, lib.Has db.nodes old) (before : Option StorageTrieChanges)
    (hbefore : ∀ changes ∈ before, ∀ old ∈ opened, lib.Has (db.apply changes).nodes old) :
    Covers lib db opened new (addTo before (StorageTrie.commit lib ⟨opened, new⟩)) := by
  have hstore : ∀ old ∈ opened, lib.Has (nodesBefore db before) old := by
    cases before with
    | none => exact hdb
    | some changes => exact hbefore changes rfl
  refine ⟨by cases before <;> rfl, fun old hold hash node hnode => ?_, fun hash node hnode => ?_⟩
  · rw [lookup_addTo]
    exact has_union_changed hlawful hopened hnew (hopened old hold) (hstore old hold) hash node hnode
  · rw [lookup_addTo]
    exact has_new_of_changed hlawful hopened hnew hstore hash node hnode

/-- Adding up the tries of several maps leaves the trie of the last one. -/
theorem covers_foldl (hlawful : lib.Lawful occurs) {db : TrieDb} (trie : StorageTrie)
    (hopened : ∀ old ∈ trie.opened, occurs old)
    (hdb : ∀ old ∈ trie.opened, lib.Has db.nodes old) (accounts : List EvmAccount)
    (hoccurs : ∀ account ∈ accounts, occurs (slotsAfter trie.content account))
    (last : EvmAccount) (hlast : accounts.getLast? = some last) :
    ∃ changes, accounts.foldl
        (fun before account => some (addTo before ((insertChangedSlots trie account).commit lib)))
        none = some changes ∧
      Covers lib db trie.opened (slotsAfter trie.content last) changes := by
  induction accounts using List.reverseRecOn generalizing last with
  | nil => cases hlast
  | append_singleton accounts account ih =>
    obtain rfl : account = last := by simpa using hlast
    rw [List.foldl_append, List.foldl_cons, List.foldl_nil, insertChangedSlots_eq]
    refine ⟨_, rfl, covers_addTo hlawful hopened (hoccurs account (by simp)) hdb _ ?_⟩
    intro changes hchanges
    cases hbefore : accounts.getLast? with
    | none =>
      rw [List.getLast?_eq_none_iff.mp hbefore] at hchanges
      cases hchanges
    | some before =>
      obtain ⟨earlier, hearlier, hcovers⟩ :=
        ih (fun other hother => hoccurs other (by simp [hother])) before hbefore
      rw [hearlier] at hchanges
      obtain rfl : earlier = changes := Option.some.inj hchanges
      exact hcovers.old

/-- The changes of one account leave a database that stores its last map. -/
theorem stores_of_accounts (hlawful : lib.Lawful occurs) {db : TrieDb} {opened : Option Storage}
    {storage : Storage} (hoccurs : occurs storage) (hstored : Stores lib db storage)
    (hopened : ∀ old ∈ opened, old = storage ∧ lib.Has db.nodes old) {accounts : List EvmAccount}
    (hwithin : ∀ account ∈ accounts, occurs (slotsAfter storage account)) :
    ∃ next, occurs next ∧ Stores lib ((accounts.foldl (fun before account =>
      some (addTo before ((insertChangedSlots ⟨opened, storage⟩ account).commit lib)))
      none).elim db db.apply) next := by
  cases hlast : accounts.getLast? with
  | none =>
    rw [List.getLast?_eq_none_iff.mp hlast]
    exact ⟨storage, hoccurs, hstored⟩
  | some last =>
    have hold : ∀ old ∈ opened, occurs old := fun old hold => (hopened old hold).1 ▸ hoccurs
    obtain ⟨changes, hchanges, hcovers⟩ := covers_foldl hlawful ⟨opened, storage⟩ hold
      (fun old hold => (hopened old hold).2) accounts hwithin last hlast
    rw [hchanges]
    exact ⟨_, hwithin last (List.mem_of_getLast? hlast), hcovers.root, hcovers.new⟩

end Tries

section Loss

variable {lib : TrieLibrary} (keccak256 : Bytes → B256) (base : EvmBase lib)
variable (maps : List StateMap)

/-- The storage extraction ends with: the base with the last map's changes alone. -/
def finalStorage (a : Address) : Storage :=
  match (persistedAll maps a).getLast? with
  | none => base.storage a
  | some last => slotsAfter (base.storage a) last

theorem occurring_base (a : Address) : Occurring base maps (base.storage a) := ⟨a, .inl rfl⟩

theorem getLast?_persistedAll {a : Address} {account : EvmAccount}
    (h : lastTouched maps a = some account) (halive : account.isSelfdestructed = false) :
    (persistedAll maps a).getLast? = some account := by
  unfold lastTouched persistedAll persisted at *
  induction maps using List.reverseRecOn with
  | nil => cases h
  | append_singleton maps map ih =>
    rw [List.filterMap_append, List.getLast?_append] at h ⊢
    by_cases htouched : ∃ found, map.lookup a = some found ∧ found.isTouched
    · obtain ⟨found, hlookup, htouched⟩ := htouched
      obtain rfl : found = account := by simpa [hlookup, Option.filter, htouched] using h
      simp [hlookup, Option.filter, htouched, EvmAccount.isPersisted, halive]
    · have hnone : (map.lookup a).filter (fun account => account.isTouched) = none := by
        cases hlookup : map.lookup a with
        | none => rfl
        | some found => simpa [Option.filter, hlookup] using htouched
      have hnone' : (map.lookup a).filter (fun account => account.isPersisted) = none := by
        cases hlookup : map.lookup a with
        | none => rfl
        | some found =>
          have huntouched : found.isTouched = false := by simpa [hlookup] using htouched
          simp [Option.filter, EvmAccount.isPersisted, huntouched]
      simp only [List.filterMap_cons, List.filterMap_nil, hnone, hnone', List.getLast?_nil,
        Option.none_or] at h ⊢
      exact ih h

/-- Extraction never fails, and what it leaves is the last map of each account. -/
theorem extract_spec (hlawful : lib.Lawful (Occurring base maps)) :
    ∃ changes, extractEvmChanges lib keccak256 base.toEvmState maps = some changes ∧
      (∀ a, ((applyChanges base.toEvmState changes).tries a).read lib =
        some (finalStorage base maps a)) ∧
      (∀ a account, lastTouched maps a = some account → account.isSelfdestructed = false →
        ∃ root, (applyChanges base.toEvmState changes).resources (.account a) =
          some (.account (accountResource account root))) ∧
      ∀ a op resource, changes.accounts.lookup (.account a) = some op →
        op.value = some (.account resource) →
        ((applyChanges base.toEvmState changes).tries a).root = some resource.storageRoot := by
  choose opened hopen hopened using fun a =>
    forAccount_of_stores hlawful (occurring_base base maps a) (base.stores a)
  let trieOf : Address → StorageTrie := fun a => ⟨opened a, base.storage a⟩
  obtain ⟨⟨accounts, tries⟩, hrun, hextracted⟩ :=
    extractMaps_spec lib keccak256 base.toEvmState trieOf hopen maps
  have hcovers : ∀ a last, (persistedAll maps a).getLast? = some last →
      ∃ changes, tries.lookup a = some changes ∧
        Covers lib (base.tries a) (opened a) (slotsAfter (base.storage a) last) changes := by
    intro a last hlast
    obtain ⟨changes, hchanges, hcovers⟩ := covers_foldl hlawful (trieOf a)
      (fun old hold => ⟨a, .inl (hopened a old hold).1⟩)
      (fun old hold => (hopened a old hold).2) (persistedAll maps a)
      (fun account haccount => ⟨a, .inr ⟨account, haccount, rfl⟩⟩) last hlast
    exact ⟨changes, (hextracted.tries a).trans hchanges, hcovers⟩
  refine ⟨⟨accounts, tries⟩, ?_, ?_, ?_, ?_⟩
  · simp only [extractEvmChanges, hrun, Option.bind_eq_bind, Option.bind_some]
  · intro a
    unfold finalStorage
    cases hlast : (persistedAll maps a).getLast? with
    | none =>
      have hnone : tries.lookup a = none := by
        rw [hextracted.tries a, List.getLast?_eq_none_iff.mp hlast]
        rfl
      simp only [applyChanges, hnone]
      exact read_of_stores hlawful (occurring_base base maps a) (base.stores a)
    | some last =>
      obtain ⟨changes, hchanges, hcover⟩ := hcovers a last hlast
      simp only [applyChanges, hchanges]
      refine read_of_stores hlawful ⟨a, .inr ⟨last, ?_, rfl⟩⟩ ⟨hcover.root, hcover.new⟩
      exact List.mem_of_getLast? hlast
  · intro a account htouched halive
    have hlast := getLast?_persistedAll maps htouched halive
    have hvalue := hextracted.accounts a
    rw [hlast, Option.map_some, Option.map_eq_some_iff] at hvalue
    obtain ⟨op, hop, hopvalue⟩ := hvalue
    refine ⟨(trieChanges lib trieOf a account).root, ?_⟩
    simp only [applyChanges, ChangeSet.apply, hop]
    exact hopvalue
  · intro a op resource hop hopvalue
    have hvalue := hextracted.accounts a
    rw [hop, Option.map_some, hopvalue, eq_comm, Option.map_eq_some_iff] at hvalue
    obtain ⟨last, hlast, hresource⟩ := hvalue
    obtain ⟨changes, hchanges, hcover⟩ := hcovers a last hlast
    have hroot : resource.storageRoot = (trieChanges lib trieOf a last).root := by
      have hsame := Option.some.inj hresource
      simp only [writtenResource, ResourceValue.account.injEq] at hsame
      rw [← hsame]
      rfl
    simp only [applyChanges, hchanges, TrieDb.apply]
    rw [hcover.root, hroot, trieChanges, insertChangedSlots_eq]
    rfl

/-- A slot that an earlier map changed, and that the last map of its account did not change
again, is back at its base value. -/
def EarlierChangesUndone : Prop :=
  ∀ a i last value, (persistedAll maps a).getLast? = some last → last.slotChange i = none →
    lastChange maps a i = some value → value = base.storage a i

theorem finalStorage_eq_iff :
    (∀ a i, finalStorage base maps a i = (lastChange maps a i).getD (base.storage a i)) ↔
      EarlierChangesUndone base maps := by
  constructor
  · intro h a i last value hlast hunchanged hvalue
    have hai := h a i
    simp only [finalStorage, hlast, slotsAfter, hunchanged, Option.getD_none, hvalue,
      Option.getD_some] at hai
    exact hai.symm
  · intro h a i
    unfold finalStorage
    cases hlast : (persistedAll maps a).getLast? with
    | none => simp [lastChange, List.getLast?_eq_none_iff.mp hlast]
    | some last =>
      simp only [slotsAfter]
      cases hchange : last.slotChange i with
      | none =>
        cases hvalue : lastChange maps a i with
        | none => rfl
        | some value => exact (h a i last value hlast hchange hvalue).symm
      | some value =>
        obtain ⟨before, hbefore⟩ := List.getLast?_eq_some_iff.mp hlast
        simp [lastChange, hbefore, hchange]

/-- One call per account undoes nothing. -/
theorem earlierChangesUndone_of_length_le_one
    (h : ∀ a, (persistedAll maps a).length ≤ 1) : EarlierChangesUndone base maps := by
  intro a i last value hlast hunchanged hvalue
  have hone : persistedAll maps a = [last] := by
    obtain ⟨before, hbefore⟩ := List.getLast?_eq_some_iff.mp hlast
    have hlength := h a
    rw [hbefore, List.length_append, List.length_singleton] at hlength
    have hempty : before = [] := List.length_eq_zero_iff.mp (by omega)
    rw [hbefore, hempty, List.nil_append]
  simp [lastChange, hone, hunchanged] at hvalue

theorem lossless_iff_finalStorage (hlawful : lib.Lawful (Occurring base maps)) :
    Lossless keccak256 base maps ↔
      ∀ a i, finalStorage base maps a i = (lastChange maps a i).getD (base.storage a i) := by
  obtain ⟨changes, hextract, hread, hinfo, hroots⟩ := extract_spec keccak256 base maps hlawful
  constructor
  · rintro ⟨changes', hextract', hslots, -, -⟩ a i
    rw [hextract, Option.some.injEq] at hextract'
    subst hextract'
    obtain ⟨storage, hstorage, hvalues⟩ := hslots a
    rw [hread a, Option.some.injEq] at hstorage
    rw [hstorage]
    exact hvalues i
  · intro hfinal
    exact ⟨changes, hextract, fun a => ⟨_, hread a, hfinal a⟩, hinfo, hroots⟩

/-- Extraction loses nothing exactly when no account needs the changes of two maps. -/
theorem lossless_iff (hlawful : lib.Lawful (Occurring base maps)) :
    Lossless keccak256 base maps ↔ EarlierChangesUndone base maps :=
  (lossless_iff_finalStorage keccak256 base maps hlawful).trans (finalStorage_eq_iff base maps)

end Loss

section Samples

/-- One slot set to one. -/
def oneAt (j : U256) : Storage := fun i => if i = j then 1 else 0

def emptyRoot : B256 := 0x56e81f171bcc55a6ff8345e692c0f86e5b48e01b996cadc001622fb5e363b421
def rootZero : B256 := 0x821e2556a290c86405f8160a2d662042a431ba456b9db265c79bb837c04be5f0
def rootOne : B256 := 0xf38f9f63c760d088d7dd04f743619b6291f63beebd8bdf530628f90e9cfa52d7

/-- A leaf with value one, under the hash of a slot. -/
def leafBytes (key : ℕ) : Bytes := [0xe3, 0xa1, 0x20] ++ (leBytes 32 key).reverse ++ [1]

/-- The root and the only node of a storage map with at most slot zero or slot one. -/
def sampleNode (storage : Storage) : B256 × Bytes :=
  if storage 0 = 1 then
    (rootZero, leafBytes 0x290decd9548b62a8d60345a988386fc84ba6bc95484008f6362f93160ef3e563)
  else if storage 1 = 1 then
    (rootOne, leafBytes 0xb10e2d527612073b26eecdfd717e6a320cf44b4afac2b0732d9fcbe2b7fa0cf6)
  else (emptyRoot, [0x80])

/-- The trie library at the empty map, slot zero alone and slot one alone. -/
def sampleLib : TrieLibrary where
  root storage := (sampleNode storage).1
  nodes storage := AList.singleton (sampleNode storage).1 (sampleNode storage).2
  changedNodes _ storage := AList.singleton (sampleNode storage).1 (sampleNode storage).2
  openAt store root :=
    if (store.lookup root).isNone then none
    else if root = rootZero then some (oneAt 0)
    else if root = rootOne then some (oneAt 1)
    else if root = emptyRoot then some fun _ => 0
    else none

def isSample (storage : Storage) : Prop :=
  storage = (fun _ => 0) ∨ storage = oneAt 0 ∨ storage = oneAt 1

theorem sampleLib_has_iff (store : Nodes) (storage : Storage) :
    sampleLib.Has store storage ↔
      store.lookup (sampleNode storage).1 = some (sampleNode storage).2 := by
  constructor
  · intro h
    exact h _ _ (by simp [sampleLib, lookup_singleton])
  · intro h hash bytes hnode
    simp only [sampleLib, lookup_singleton] at hnode
    split_ifs at hnode with hhash
    rw [hhash, h, hnode]

theorem sampleNode_injective {storage other : Storage} (h : isSample storage)
    (h' : isSample other) (hroot : (sampleNode storage).1 = (sampleNode other).1) :
    (sampleNode storage).2 = (sampleNode other).2 := by
  rcases h with rfl | rfl | rfl <;> rcases h' with rfl | rfl | rfl
  all_goals first | rfl | (revert hroot; decide +kernel)

theorem sampleLib_lawful {occurs : Storage → Prop}
    (h : ∀ storage, occurs storage → isSample storage) : sampleLib.Lawful occurs := by
  refine ⟨fun store storage hoccurs hhas => ?_, fun opened storage _ _ hash bytes hnode => .inr hnode,
    fun opened new storage _ hnew hstorage hash bytes node hchange hnode => ?_⟩
  · rw [sampleLib_has_iff] at hhas
    have hroot : (store.lookup (sampleNode storage).1).isNone = false := by rw [hhas]; rfl
    simp only [sampleLib, hroot]
    rcases h storage hoccurs with rfl | rfl | rfl <;> rfl
  · simp only [sampleLib, lookup_singleton] at hchange hnode
    split_ifs at hchange hnode with hnewHash hhash
    rw [← Option.some.inj hchange, ← Option.some.inj hnode]
    exact sampleNode_injective (h new hnew) (h storage hstorage) (hnewHash.symm.trans hhash)

def emptyInfo : AccountInfo := ⟨0, 1, keccakEmpty, none⟩

/-- A call that sets one slot of a contract. -/
def setSlot (a : Address) (i : U256) : StateMap :=
  AList.singleton a ⟨emptyInfo, AList.singleton i ⟨0, 1⟩, true, false⟩

def sampleBase : EvmBase sampleLib where
  resources _ := none
  tries _ := ⟨none, ∅⟩
  storage _ _ := 0
  stores _ := stores_empty _

theorem persisted_setSlot (a : Address) (i : U256) (c : Address) :
    persisted (setSlot a i) c =
      if c = a then some ⟨emptyInfo, AList.singleton i ⟨0, 1⟩, true, false⟩ else none := by
  rw [persisted, setSlot, lookup_singleton]
  by_cases hc : c = a
  · rw [if_pos hc]
    rfl
  · rw [if_neg hc]
    rfl

theorem persistedAll_setSlot (a b : Address) (i j : U256) (c : Address) (account : EvmAccount)
    (h : account ∈ persistedAll [setSlot a i, setSlot b j] c) :
    account.storage = AList.singleton i ⟨0, 1⟩ ∨ account.storage = AList.singleton j ⟨0, 1⟩ := by
  obtain ⟨map, hmap, hpersisted⟩ := List.mem_filterMap.mp h
  simp only [List.mem_cons, List.not_mem_nil, or_false] at hmap
  rcases hmap with rfl | rfl
  · rw [persisted_setSlot] at hpersisted
    split_ifs at hpersisted
    rw [← Option.some.inj hpersisted]
    exact .inl rfl
  · rw [persisted_setSlot] at hpersisted
    split_ifs at hpersisted
    rw [← Option.some.inj hpersisted]
    exact .inr rfl

theorem length_persistedAll_setSlot (a b : Address) (i j : U256) (hab : a ≠ b) (c : Address) :
    (persistedAll [setSlot a i, setSlot b j] c).length ≤ 1 := by
  simp only [persistedAll, List.filterMap_cons, List.filterMap_nil, persisted_setSlot]
  by_cases hc : c = a
  · subst hc
    rw [if_pos rfl, if_neg hab]
    exact le_refl 1
  · rw [if_neg hc]
    by_cases hcb : c = b
    · rw [if_pos hcb]
      exact le_refl 1
    · rw [if_neg hcb]
      exact Nat.zero_le 1

theorem slotChange_singleton (account : EvmAccount) (i j : U256)
    (h : account.storage = AList.singleton j ⟨0, 1⟩) :
    account.slotChange i = if i = j then some 1 else none := by
  rw [EvmAccount.slotChange, h, lookup_singleton]
  by_cases hij : i = j
  · rw [if_pos hij, if_pos hij]
    rfl
  · rw [if_neg hij, if_neg hij]
    rfl

theorem slotsAfter_singleton (account : EvmAccount) (j : U256)
    (h : account.storage = AList.singleton j ⟨0, 1⟩) :
    slotsAfter (fun _ => 0) account = oneAt j := by
  funext i
  rw [slotsAfter, slotChange_singleton account i j h, oneAt]
  split_ifs <;> rfl

theorem sampleBase_lawful (a b : Address) :
    sampleLib.Lawful (Occurring sampleBase [setSlot a 0, setSlot b 1]) := by
  apply sampleLib_lawful
  intro storage hoccurs
  obtain ⟨c, rfl | ⟨account, haccount, rfl⟩⟩ := hoccurs
  · exact .inl rfl
  · rcases persistedAll_setSlot a b 0 1 c account haccount with hzero | hone
    · exact .inr (.inl (slotsAfter_singleton account 0 hzero))
    · exact .inr (.inr (slotsAfter_singleton account 1 hone))

/-- Two calls that set different slots of one contract: the first slot is lost. -/
theorem first_slot_lost :
    sampleLib.Lawful (Occurring sampleBase [setSlot 0xc0ffee 0, setSlot 0xc0ffee 1]) ∧
      ∀ keccak256, ¬ Lossless keccak256 sampleBase [setSlot 0xc0ffee 0, setSlot 0xc0ffee 1] := by
  refine ⟨sampleBase_lawful 0xc0ffee 0xc0ffee, fun keccak256 hlossless => ?_⟩
  have hfinal := (lossless_iff_finalStorage keccak256 sampleBase _
    (sampleBase_lawful 0xc0ffee 0xc0ffee)).mp hlossless
  have hslot := hfinal 0xc0ffee 0
  revert hslot
  decide +kernel

/-- Two calls that set slots of different contracts lose nothing. The contracts bring no code, so
that nothing but the empty string is hashed. -/
theorem lossless_two_contracts :
    Lossless (fun _ => keccakEmpty) sampleBase [setSlot 0xc0ffee 0, setSlot 0xbeef 1] := by
  refine (lossless_iff _ sampleBase _ (sampleBase_lawful 0xc0ffee 0xbeef)).mpr ?_
  exact earlierChangesUndone_of_length_le_one _ _
    (length_persistedAll_setSlot 0xc0ffee 0xbeef 0 1 (by decide))

end Samples

end OpMove.Extraction
