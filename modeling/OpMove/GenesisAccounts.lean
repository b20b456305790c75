import OpMove.Backends
import OpMove.GenesisState

/-!
What genesis leaves in the EVM. The contracts of the L2 are written as if one call had made all of
them, the bridged tokens by one call each, and all calls of the tokens run over the contracts: none
of them sees what an earlier one did. So an account is as the last call that wrote it left it, with
the slots of that call over those of the contract; its resource names the root of this storage, and
its database has the trie.
-/

namespace OpMove.Genesis

open Primitives MoveTypes ChangeSets StateChanges StorageTries NativeEvm TreeKeys StateTrie Queries
open EvmCode AccountProofs Sessions Tables Extraction PastAnswers

section Meaning

variable (keccak256 : Bytes → B256) (alloc : Table Address GenesisAccount) (maps : List StateMap)

/-- The account of a contract, as it is written. -/
def contractOf (a : Address) : Option EvmAccount :=
  (alloc.lookup a).map (genesisEvmAccount keccak256)

def contractStorage (a : Address) : Storage :=
  (contractOf keccak256 alloc a).elim (fun _ => 0) (slotsAfter fun _ => 0)

/-- The last account that was written for an address. -/
def lastWritten (a : Address) : Option EvmAccount :=
  (persistedAll maps a).getLast?.or (contractOf keccak256 alloc a)

/-- The slots of the last call over those of the contract. -/
def genesisStorage (a : Address) : Storage :=
  (persistedAll maps a).getLast?.elim (contractStorage keccak256 alloc a)
    (slotsAfter (contractStorage keccak256 alloc a))

/-- The storage maps that genesis goes through. -/
def GenesisStorages (storage : Storage) : Prop :=
  (storage = fun _ => 0) ∨ ∃ a, storage = contractStorage keccak256 alloc a ∨
    ∃ account ∈ persistedAll maps a,
      storage = slotsAfter (contractStorage keccak256 alloc a) account

theorem genesisStorages_genesisStorage (a : Address) :
    GenesisStorages keccak256 alloc maps (genesisStorage keccak256 alloc maps a) := by
  refine .inr ⟨a, ?_⟩
  unfold genesisStorage
  cases hlast : (persistedAll maps a).getLast? with
  | none => exact .inl rfl
  | some last => exact .inr ⟨last, List.mem_of_getLast? hlast, rfl⟩

end Meaning

section Tries

variable {lib : TrieLibrary} {occurs : Storage → Prop}

/-- A database with the changes of several accounts stores the storage of the last one. -/
theorem stores_last (hlawful : lib.Lawful occurs) {db : TrieDb} {opened : Option Storage}
    {storage : Storage} (hoccurs : occurs storage) (hstored : Stores lib db storage)
    (hopened : ∀ old ∈ opened, old = storage ∧ lib.Has db.nodes old) {accounts : List EvmAccount}
    (hwithin : ∀ account ∈ accounts, occurs (slotsAfter storage account)) :
    Stores lib ((accounts.foldl (fun before account =>
      some (addTo before ((insertChangedSlots ⟨opened, storage⟩ account).commit lib)))
      none).elim db db.apply) (accounts.getLast?.elim storage (slotsAfter storage)) := by
  cases hlast : accounts.getLast? with
  | none =>
    rw [List.getLast?_eq_none_iff.mp hlast]
    exact hstored
  | some last =>
    obtain ⟨changes, hchanges, hcovers⟩ := covers_foldl hlawful ⟨opened, storage⟩
      (fun old hold => (hopened old hold).1 ▸ hoccurs) (fun old hold => (hopened old hold).2)
      accounts hwithin last hlast
    rw [hchanges]
    exact ⟨hcovers.root, hcovers.new⟩

/-- Adding changes up before they are applied is applying one after the other. -/
theorem stores_addTo {db : TrieDb} {before : Option StorageTrieChanges}
    {changes : StorageTrieChanges} {storage : Storage}
    (h : Stores lib ((before.elim db db.apply).apply changes) storage) :
    Stores lib (db.apply (addTo before changes)) storage := by
  cases before with
  | none => exact h
  | some earlier =>
    refine ⟨h.1, fun hash bytes hnode => ?_⟩
    have hlookup := h.2 hash bytes hnode
    simpa only [TrieDb.apply, Option.elim_some, addTo, StorageTrieChanges.add, lookup_union_or,
      Option.or_assoc] using hlookup

theorem lookup_addTries (tries new : Table Address StorageTrieChanges) (a : Address) :
    (addTries tries new).lookup a = match new.lookup a with
      | none => tries.lookup a
      | some changes => some (addTo (tries.lookup a) changes) := by
  have hfold : ∀ (entries : List (Σ _ : Address, StorageTrieChanges)) (start), entries.NodupKeys →
      (entries.foldl (fun tries entry => withTrieChanges tries entry.1 entry.2) start).lookup a =
        match entries.dlookup a with
        | none => start.lookup a
        | some changes => some (addTo (start.lookup a) changes) := by
    intro entries
    induction entries with
    | nil => exact fun start _ => rfl
    | cons entry entries ih =>
      intro start hnodup
      obtain ⟨hnew, hrest⟩ := List.nodupKeys_cons.mp hnodup
      rw [List.foldl_cons, ih _ hrest]
      by_cases ha : a = entry.1
      · subst ha
        rw [List.dlookup_eq_none.mpr hnew, List.dlookup_cons_eq]
        exact AList.lookup_insert _
      · rw [List.dlookup_cons_ne _ _ ha, withTrieChanges, AList.lookup_insert_ne ha]
  exact hfold _ _ new.nodupKeys

end Tries

section Contracts

variable {libs : Libraries} {alloc : Table Address GenesisAccount} {contracts : Changes}
variable {maps : List StateMap} {tries : Address → TrieDb}

/-- No account has a trie before genesis. -/
def noTries : Address → TrieDb := fun _ => ⟨none, ∅⟩

theorem written_contracts
    (h : genesisStateChanges libs.lib libs.codec.keccak256 ⟨fun _ => none, noTries⟩ alloc =
      some contracts) :
    Written libs.lib (fun _ => ⟨none, fun _ => 0⟩)
      (fun a => (contractOf libs.codec.keccak256 alloc a).toList) contracts :=
  written_genesis (fun _ => rfl) h

theorem applyStorage_noTries (changes : Table Address StorageTrieChanges) :
    applyStorage libs noTries changes =
      some fun a => (changes.lookup a).elim ⟨none, ∅⟩ (TrieDb.apply ⟨none, ∅⟩) := by
  have hopen : (changes.keys.all fun a => ((noTries a).forAccount libs.lib).isSome) = true :=
    List.all_eq_true.mpr fun a _ => rfl
  rw [applyStorage, if_pos hopen]
  congr 1
  funext a
  cases changes.lookup a <;> rfl

theorem stores_contracts
    (hlawful : libs.lib.Lawful (GenesisStorages libs.codec.keccak256 alloc maps))
    (h : genesisStateChanges libs.lib libs.codec.keccak256 ⟨fun _ => none, noTries⟩ alloc =
      some contracts) (a : Address) :
    Stores libs.lib ((contracts.storage.lookup a).elim ⟨none, ∅⟩ (TrieDb.apply ⟨none, ∅⟩))
      (contractStorage libs.codec.keccak256 alloc a) := by
  have hwithin : ∀ account ∈ (contractOf libs.codec.keccak256 alloc a).toList,
      GenesisStorages libs.codec.keccak256 alloc maps (slotsAfter (fun _ => 0) account) := by
    intro account haccount
    rw [Option.mem_toList] at haccount
    refine .inr ⟨a, .inl ?_⟩
    rw [contractStorage, haccount, Option.elim_some]
  have hopened : ∀ old ∈ (none : Option Storage), old = (fun _ => 0) ∧ libs.lib.Has ∅ old := by
    intro old hold
    cases hold
  have hstores := stores_last hlawful (.inl rfl) (stores_empty libs.lib) hopened hwithin
  rw [(written_contracts h).tries a]
  unfold contractStorage
  cases hcontract : contractOf libs.codec.keccak256 alloc a with
  | none =>
    rw [hcontract] at hstores
    exact hstores
  | some account =>
    rw [hcontract] at hstores
    exact hstores

theorem account_contracts
    (h : genesisStateChanges libs.lib libs.codec.keccak256 ⟨fun _ => none, noTries⟩ alloc =
      some contracts) {a : Address} {account : EvmAccount}
    (haccount : contractOf libs.codec.keccak256 alloc a = some account) :
    (contracts.storage.lookup a).isSome ∧ (contracts.accounts.lookup (.account a)).map Op.value =
      some (some (.account (accountResource account
        (libs.lib.root (contractStorage libs.codec.keccak256 alloc a))))) := by
  have hwritten := written_contracts h
  have hroot : (trieChanges libs.lib (fun _ => ⟨none, fun _ => 0⟩) a account).root =
      libs.lib.root (contractStorage libs.codec.keccak256 alloc a) := by
    rw [contractStorage, haccount, Option.elim_some, trieChanges, insertChangedSlots_eq]
    rfl
  rw [hwritten.tries a, hwritten.accounts a, haccount, ← hroot]
  exact ⟨rfl, rfl⟩

/-- What the tokens add to the contracts, account by account. -/
theorem stores_tokens
    (hlawful : libs.lib.Lawful (GenesisStorages libs.codec.keccak256 alloc maps))
    (hcontracts : genesisStateChanges libs.lib libs.codec.keccak256 ⟨fun _ => none, noTries⟩ alloc =
      some contracts) {state : EvmState}
    (hstate : ∀ a, state.tries a =
      (contracts.storage.lookup a).elim ⟨none, ∅⟩ (TrieDb.apply ⟨none, ∅⟩))
    {new : Changes} (hnew : extractEvmChanges libs.lib libs.codec.keccak256 state maps = some new)
    (a : Address) :
    Stores libs.lib (((addTries contracts.storage new.storage).lookup a).elim ⟨none, ∅⟩
      (TrieDb.apply ⟨none, ∅⟩)) (genesisStorage libs.codec.keccak256 alloc maps a) ∧
    (new.accounts.lookup (.account a)).map Op.value =
      (persistedAll maps a).getLast?.map (fun last => some (.account (accountResource last
        (libs.lib.root (genesisStorage libs.codec.keccak256 alloc maps a))))) ∧
    ((persistedAll maps a).getLast?.isSome →
      ((addTries contracts.storage new.storage).lookup a).isSome) := by
  have hstored : ∀ a, Stores libs.lib (state.tries a)
      (contractStorage libs.codec.keccak256 alloc a) := by
    intro a
    rw [hstate a]
    exact stores_contracts hlawful hcontracts a
  choose opened hopen hopened using fun a =>
    forAccount_of_stores hlawful (.inr ⟨a, .inl rfl⟩) (hstored a)
  obtain ⟨⟨accounts, tries⟩, hrun, hextracted⟩ := extractMaps_spec libs.lib libs.codec.keccak256
    state (fun a => ⟨opened a, contractStorage libs.codec.keccak256 alloc a⟩) hopen maps
  obtain ⟨final, hfinal, hchanges⟩ := Option.bind_eq_some_iff.mp hnew
  rw [hrun, Option.some.injEq] at hfinal
  subst hfinal
  obtain rfl := Option.some.inj hchanges
  have hwithin : ∀ account ∈ persistedAll maps a, GenesisStorages libs.codec.keccak256 alloc maps
      (slotsAfter (contractStorage libs.codec.keccak256 alloc a) account) :=
    fun account haccount => .inr ⟨a, .inr ⟨account, haccount, rfl⟩⟩
  have hstores : Stores libs.lib ((tries.lookup a).elim (state.tries a) (state.tries a).apply)
      (genesisStorage libs.codec.keccak256 alloc maps a) := by
    rw [hextracted.tries a]
    exact stores_last hlawful (.inr ⟨a, .inl rfl⟩) (hstored a) (hopened a) hwithin
  refine ⟨?_, ?_, fun hsome => ?_⟩
  · rw [hstate a] at hstores
    rw [lookup_addTries]
    dsimp only
    cases hchanges : tries.lookup a with
    | none =>
      rw [hchanges] at hstores
      exact hstores
    | some changes =>
      rw [hchanges] at hstores
      exact stores_addTo hstores
  · rw [hextracted.accounts a]
    cases hlast : (persistedAll maps a).getLast? with
    | none => rfl
    | some last =>
      rw [genesisStorage, hlast, Option.map_some, Option.map_some, Option.elim_some,
        writtenResource, trieChanges, insertChangedSlots_eq]
      rfl
  · obtain ⟨last, hlast⟩ := Option.isSome_iff_exists.mp hsome
    obtain ⟨before, hbefore⟩ := List.getLast?_eq_some_iff.mp hlast
    rw [lookup_addTries, hextracted.tries a, hbefore, List.foldl_append]
    rfl

/-- With the tokens added, an account is as it was written last. -/
theorem account_tokens
    (hlawful : libs.lib.Lawful (GenesisStorages libs.codec.keccak256 alloc maps))
    (hcontracts : genesisStateChanges libs.lib libs.codec.keccak256 ⟨fun _ => none, noTries⟩ alloc =
      some contracts) {state : EvmState}
    (hstate : ∀ a, state.tries a =
      (contracts.storage.lookup a).elim ⟨none, ∅⟩ (TrieDb.apply ⟨none, ∅⟩))
    {new : Changes} (hnew : extractEvmChanges libs.lib libs.codec.keccak256 state maps = some new)
    {accounts : ChangeSet ResourceKey ResourceValue}
    (haccounts : contracts.accounts.squash new.accounts = some accounts) {a : Address}
    {last : EvmAccount} (hlast : lastWritten libs.codec.keccak256 alloc maps a = some last) :
    ((addTries contracts.storage new.storage).lookup a).isSome ∧
      (accounts.lookup (.account a)).map Op.value = some (some (.account (accountResource last
        (libs.lib.root (genesisStorage libs.codec.keccak256 alloc maps a))))) := by
  obtain ⟨-, hvalue, htrie⟩ := stores_tokens hlawful hcontracts hstate hnew a
  have hmerge := ChangeSet.lookup_of_squash haccounts (.account a)
  unfold lastWritten at hlast
  cases htoken : (persistedAll maps a).getLast? with
  | some token =>
    rw [htoken, Option.some_or, Option.some.injEq] at hlast
    subst hlast
    rw [htoken, Option.map_some] at hvalue
    refine ⟨htrie (by rw [htoken]; rfl), ?_⟩
    obtain ⟨op, hop, hopvalue⟩ := Option.map_eq_some_iff.mp hvalue
    rw [hop] at hmerge
    obtain ⟨merged, hmerged, hmergedValue⟩ := ChangeSet.value_of_merge hopvalue hmerge.symm
    rw [hmerged, Option.map_some, hmergedValue]
  | none =>
    rw [htoken, Option.none_or] at hlast
    rw [htoken, Option.map_none, Option.map_eq_none_iff] at hvalue
    rw [hvalue, ChangeSet.merge_none, Option.some.injEq] at hmerge
    obtain ⟨hcontractTrie, hcontract⟩ := account_contracts hcontracts hlast
    have hstorage : genesisStorage libs.codec.keccak256 alloc maps a =
        contractStorage libs.codec.keccak256 alloc a := by
      rw [genesisStorage, htoken, Option.elim_none]
    refine ⟨?_, by rw [hmerge, hstorage]; exact hcontract⟩
    rw [lookup_addTries]
    split
    · exact hcontractTrie
    · rfl

end Contracts

section Applied

variable {S X : Type} {libs : Libraries} {vm : GenesisVm S} {revm : Revm X}
variable {frameworks : Frameworks} {config : GenesisConfig} {contracts : Changes}
variable {ctx : NativeEVMContext}

/-- Every token is one call. -/
theorem length_deployTokens {tokens : List BridgedToken} {start last : NativeEVMContext}
    (h : tokens.foldlM (deployToken libs revm) start = some last) :
    last.stateChanges.length = start.stateChanges.length + tokens.length := by
  induction tokens generalizing start with
  | nil =>
    obtain rfl := Option.some.inj h
    rfl
  | cons token tokens ih =>
    rw [List.foldlM_cons] at h
    obtain ⟨middle, hmiddle, h⟩ := Option.bind_eq_some_iff.mp h
    unfold deployToken at hmiddle
    split at hmiddle
    · rename_i outcome after hrun
      split_ifs at hmiddle
      obtain rfl := Option.some.inj hmiddle
      rw [ih h, (CleanFailures.evmTransactWithNative_ok hrun).2.1, List.length_append,
        List.length_singleton, List.length_cons]
      omega
    · cases hmiddle

theorem length_runTokens {tokens : List BridgedToken}
    (h : runTokens libs revm contracts tokens = some ctx) :
    ctx.stateChanges.length = tokens.length := by
  obtain ⟨tries, -, h⟩ := Option.bind_eq_some_iff.mp h
  rw [length_deployTokens h]
  exact Nat.zero_add _

/-- The changes of the L2 for one account: its trie, and its resource if anything wrote it. -/
theorem l2_spec
    (hcontracts : genesisStateChanges libs.lib libs.codec.keccak256 ⟨fun _ => none, noTries⟩
      config.l2ContractGenesis = some contracts)
    (hrun : runTokens libs revm contracts config.tokenList = some ctx)
    (hlawful : libs.lib.Lawful
      (GenesisStorages libs.codec.keccak256 config.l2ContractGenesis ctx.stateChanges))
    {state : InMemoryStorage} {modules : List (ModuleId × Bytes)} (hstate : Holds state modules)
    {l2 : Changes} (h : l2Changes libs revm config state noTries = some l2) (a : Address) :
    Stores libs.lib ((l2.storage.lookup a).elim ⟨none, ∅⟩ (TrieDb.apply ⟨none, ∅⟩))
      (genesisStorage libs.codec.keccak256 config.l2ContractGenesis ctx.stateChanges a) ∧
    ∀ last, lastWritten libs.codec.keccak256 config.l2ContractGenesis ctx.stateChanges a =
      some last → (l2.storage.lookup a).isSome ∧ l2.accounts.lookup (.account a) =
        some (.new (.account (accountResource last (libs.lib.root (genesisStorage
          libs.codec.keccak256 config.l2ContractGenesis ctx.stateChanges a))))) := by
  have hfits := fits_l2 hstate h
  have hnew : ∀ value, (l2.accounts.lookup (.account a)).map Op.value = some (some value) →
      l2.accounts.lookup (.account a) = some (.new value) := by
    intro value hvalue
    obtain ⟨op, hop, hopvalue⟩ := Option.map_eq_some_iff.mp hvalue
    obtain ⟨found, rfl⟩ := (hfits _ op hop).eq_new
    rw [hop, Option.some.inj hopvalue]
  obtain ⟨found, hfound, h⟩ := Option.bind_eq_some_iff.mp h
  rw [l2InitState, evmStateOf_holds hstate, hcontracts, Option.some.injEq] at hfound
  subst hfound
  obtain ⟨tries, htries, hctx⟩ := state_runTokens hrun
  split_ifs at h with hempty
  · have hmaps : ctx.stateChanges = [] := by
      have hlength := length_runTokens hrun
      rw [List.isEmpty_iff.mp hempty] at hlength
      exact List.length_eq_zero_iff.mp hlength
    obtain rfl := Option.some.inj h
    rw [hmaps] at hlawful ⊢
    refine ⟨stores_contracts hlawful hcontracts a, fun last hlast => ?_⟩
    obtain ⟨htrie, hvalue⟩ := account_contracts hcontracts (show contractOf _ _ a = some last
      from hlast)
    exact ⟨htrie, hnew _ hvalue⟩
  · obtain ⟨found, hfound, h⟩ := Option.bind_eq_some_iff.mp h
    rw [hrun, Option.some.injEq] at hfound
    subst hfound
    obtain ⟨new, hextract, h⟩ := Option.bind_eq_some_iff.mp h
    obtain ⟨accounts, haccounts, h⟩ := Option.bind_eq_some_iff.mp h
    obtain rfl := Option.some.inj h
    have hstored : ∀ a, ctx.state.tries a =
        (contracts.storage.lookup a).elim ⟨none, ∅⟩ (TrieDb.apply ⟨none, ∅⟩) := by
      intro a
      rw [hctx, ← Option.some.inj ((applyStorage_noTries contracts.storage).symm.trans htries)]
      rfl
    refine ⟨(stores_tokens hlawful hcontracts hstored hextract a).1, fun last hlast => ?_⟩
    obtain ⟨htrie, hvalue⟩ :=
      account_tokens hlawful hcontracts hstored hextract haccounts hlast
    exact ⟨htrie, hnew _ hvalue⟩

theorem resourceTag_account {resource : ResourceKey} {a : Address}
    (h : resourceTag resource = accountInfoStructTag a) : resource = .account a := by
  have hkey := congrArg evmKeyAddress h
  rw [evmKeyAddress_accountInfoStructTag] at hkey
  cases resource with
  | account b =>
    rw [resourceTag, evmKeyAddress_accountInfoStructTag, Option.some.injEq] at hkey
    rw [hkey]
  | code codeHash =>
    rw [resourceTag, Backends.evmKeyAddress_codeHashStructTag] at hkey
    cases hkey

theorem opOf_account {accounts : ChangeSet ResourceKey ResourceValue} {a : Address}
    {op : Op ResourceValue} (h : accounts.lookup (.account a) = some op) :
    opOf (moveChanges accounts) (.resource evmNativeAddress (accountInfoStructTag a)) =
      some (encodeOp op) := by
  have hsome : (opOf (moveChanges accounts)
      (.resource evmNativeAddress (accountInfoStructTag a))).isSome := by
    rw [opOf_eq, moveChanges, owner, lookup_singleton, if_pos rfl, Option.bind_some, opIn,
      AList.lookup, List.toAList, List.dlookup_dedupKeys, List.dlookup_isSome]
    exact List.mem_map.mpr ⟨_, List.mem_map.mpr ⟨_, AList.mem_lookup_iff.mp h, rfl⟩, rfl⟩
  obtain ⟨found, hfound⟩ := Option.isSome_iff_exists.mp hsome
  obtain ⟨resource, written, hkey, hwritten, rfl⟩ := opOf_moveChanges hfound
  rw [resourceTag_account (StateKey.resource.inj hkey).2.symm, h, Option.some.injEq] at hwritten
  rw [hfound, hwritten]

/-- A node that starts from genesis has every account of the L2 as it was written last: its storage
is read from its trie, and its resource in the state names the root of that trie. -/
theorem genesis_accounts_are_stored (hvm : vm.Lawful)
    (hcontracts : genesisStateChanges libs.lib libs.codec.keccak256 ⟨fun _ => none, noTries⟩
      config.l2ContractGenesis = some contracts)
    (hrun : runTokens libs revm contracts config.tokenList = some ctx)
    (hlawful : libs.lib.Lawful
      (GenesisStorages libs.codec.keccak256 config.l2ContractGenesis ctx.stateChanges))
    {tables after : TableStore} {node : NodeState}
    (h : buildAndApply libs vm revm frameworks config emptyNode tables = some (node, after)) :
    node.state.stateRoot = config.initialStateRoot ∧
    ctx.stateChanges.length = config.tokenList.length ∧
    ∀ a, (node.evmStorage a).read libs.lib = some (genesisStorage libs.codec.keccak256
        config.l2ContractGenesis ctx.stateChanges a) ∧
      ∀ last, lastWritten libs.codec.keccak256 config.l2ContractGenesis ctx.stateChanges a =
          some last →
        ∃ root, (node.evmStorage a).root = some root ∧
          (node.state.resolver evmNativeAddress).resources (accountInfoStructTag a) =
            some (accountRlp (accountResource last root)) := by
  obtain ⟨genesis, hbuild, h⟩ := Option.bind_eq_some_iff.mp h
  obtain ⟨next, hnext, h⟩ := Option.bind_eq_some_iff.mp h
  obtain ⟨nextTables, -, h⟩ := Option.bind_eq_some_iff.mp h
  split_ifs at h with hroot
  obtain ⟨rfl, -⟩ := Prod.mk.inj (Option.some.inj h)
  obtain ⟨published, state, initialized, token, aptos, sui, l2, -, -, -, hstate, hl2, hstorage, -,
    -, -, -, hall⟩ := build_spec hvm hbuild
  obtain ⟨nextState, hnextState, hnext⟩ := Option.bind_eq_some_iff.mp hnext
  obtain ⟨evmStorage, hevmStorage, hnext⟩ := Option.bind_eq_some_iff.mp hnext
  obtain rfl := Option.some.inj hnext
  -- the trie of an empty node opens
  obtain ⟨resolver, hresolver, hnextState⟩ := Option.bind_eq_some_iff.mp hnextState
  obtain rfl := Option.some.inj hnextState
  refine ⟨hroot, length_runTokens hrun, fun a => ?_⟩
  have htrie : evmStorage a =
      (l2.storage.lookup a).elim ⟨none, ∅⟩ (TrieDb.apply ⟨none, ∅⟩) := by
    rw [← hstorage]
    exact congrFun (Option.some.inj (hevmStorage.symm.trans (applyStorage_noTries _))) a
  obtain ⟨hstores, hlast⟩ := l2_spec hcontracts hrun hlawful hstate hl2 a
  rw [← htrie] at hstores
  refine ⟨read_of_stores hlawful (genesisStorages_genesisStorage _ _ _ a) hstores,
    fun last hwritten => ?_⟩
  obtain ⟨hsome, hop⟩ := hlast last hwritten
  obtain ⟨changes, hchanges⟩ := Option.isSome_iff_exists.mp hsome
  rw [hchanges] at htrie
  have hrootOf : changes.root = libs.lib.root (genesisStorage libs.codec.keccak256
      config.l2ContractGenesis ctx.stateChanges a) := by
    rw [htrie] at hstores
    exact hstores.1
  have hcurrent : (evmStorage a).root = some changes.root := by
    rw [htrie]
    rfl
  refine ⟨changes.root, hcurrent, ?_⟩
  have hwrote := (hall.written (.resource evmNativeAddress (accountInfoStructTag a)) _).mpr
    ⟨_, by simp, opOf_account hop⟩
  change valueAt resolver (.resource evmNativeAddress (accountInfoStructTag a)) = _
  rw [valueAt_apply hresolver, hwrote, hrootOf]
  rfl

end Applied

section Samples

theorem contracts_isSome : (genesisStateChanges storeLibs.lib storeLibs.codec.keccak256
    ⟨fun _ => none, noTries⟩ tokenConfig.l2ContractGenesis).isSome := by
  decide +kernel

theorem tokens_isSome : (runTokens storeLibs factoryRevm (Option.get _ contracts_isSome)
    tokenConfig.tokenList).isSome := by
  decide +kernel

theorem stateChanges_tokens : (Option.get _ tokens_isSome).stateChanges =
    [setSlot factoryAddress 0, setSlot factoryAddress 1] := by
  rfl

theorem started_isSome : (buildAndApply storeLibs sampleVm factoryRevm sampleFrameworks tokenConfig
    emptyNode TableStore.empty).isSome := by
  decide +kernel

theorem contractStorage_tokens (a : Address) :
    contractStorage storeLibs.codec.keccak256 tokenConfig.l2ContractGenesis a = fun _ => 0 := by
  rw [contractStorage, contractOf, tokenConfig, lookup_singleton]
  split_ifs <;> rfl

theorem tokens_lawful : storeLibs.lib.Lawful (GenesisStorages storeLibs.codec.keccak256
    tokenConfig.l2ContractGenesis (Option.get _ tokens_isSome).stateChanges) := by
  refine sampleLib_lawful fun storage hoccurs => ?_
  rw [stateChanges_tokens] at hoccurs
  rcases hoccurs with rfl | ⟨a, rfl | ⟨account, haccount, rfl⟩⟩
  · exact .inl rfl
  · exact .inl (contractStorage_tokens a)
  · rw [contractStorage_tokens a]
    rcases persistedAll_setSlot factoryAddress factoryAddress 0 1 a account haccount with
      hzero | hone
    · exact .inr (.inl (slotsAfter_singleton account 0 hzero))
    · exact .inr (.inr (slotsAfter_singleton account 1 hone))

/-- Two tokens that took a slot of the factory each: the first of them is not there. -/
theorem genesis_accounts_are_stored_sample : ∃ node after,
    buildAndApply storeLibs sampleVm factoryRevm sampleFrameworks tokenConfig emptyNode
      TableStore.empty = some (node, after) ∧
    (node.evmStorage factoryAddress).read storeLibs.lib = some (oneAt 1) := by
  obtain ⟨⟨node, after⟩, hstarted⟩ := Option.isSome_iff_exists.mp started_isSome
  obtain ⟨-, -, hstored⟩ := genesis_accounts_are_stored sampleVm_lawful
    (Option.some_get contracts_isSome).symm (Option.some_get tokens_isSome).symm tokens_lawful
    hstarted
  refine ⟨node, after, hstarted, ?_⟩
  have hlast : (persistedAll [setSlot factoryAddress 0, setSlot factoryAddress 1]
      factoryAddress).getLast? = some ⟨emptyInfo, AList.singleton 1 ⟨0, 1⟩, true, false⟩ := rfl
  rw [(hstored factoryAddress).1, stateChanges_tokens, genesisStorage, hlast,
    contractStorage_tokens, Option.elim_some, slotsAfter_singleton _ 1 rfl]

end Samples

end OpMove.Genesis
