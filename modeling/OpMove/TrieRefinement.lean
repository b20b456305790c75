import OpMove.StateTrie

/-!
The trie shows what the flat store has. One change set moves both in the same way at every key of
the trie, so by induction they agree after any sequence of change sets, and the resolver over the
trie reads, under the key it computes for a request, what the flat store holds there.
-/

namespace OpMove.TrieRefinement

open Primitives MoveTypes ChangeSets Writes TreeKeys StateTrie

section Step

variable {codec : StateCodec} {used : Set TreeKey} {changes : MoveChangeSet} {tree : Tree}
variable {order : List (Σ _ : TreeKey, TreeValue)}

/-- The bytes the trie keeps of a value. -/
def valueBytes (codec : StateCodec) : TreeKey → Bytes → Bytes
  | .stateKey _, data => codec.stateValueBytes data
  | .evm _, bytes => bytes

def stored (codec : StateCodec) (value : TreeValue) : Option Bytes :=
  if codec.serialize value = [] then none else some (codec.serialize value)

/-- Every key of a change set is among the used ones. -/
def Covers (used : Set TreeKey) (changes : MoveChangeSet) : Prop :=
  ∀ key ∈ toTreeValues changes, key ∈ used

theorem insertChangeSet_eq : insertChangeSet codec tree order =
    writeAll tree (order.map fun pair => (codec.keyHash pair.1, stored codec pair.2)) := by
  rw [writeAll, List.foldl_map]
  rfl

theorem stored_treeValue (hlawful : codec.Lawful used) (hvalues : AccountValues changes)
    {key : TreeKey} {op : Op Bytes} (hop : opAt changes key = some op) :
    stored codec (treeValue key op) = op.value.map (valueBytes codec key) := by
  cases key with
  | stateKey key =>
    cases hvalue : op.value with
    | none => simp [treeValue, hvalue, stored, StateCodec.serialize]
    | some data =>
      simp [treeValue, hvalue, stored, StateCodec.serialize, hlawful.tagged data, valueBytes]
  | evm address =>
    obtain ⟨account, haccount, hop⟩ := Option.bind_eq_some_iff.mp hop
    have hne := hvalues _ _ _ _ haccount hop
      (isEvmStorageOrAccountKey_of_evmKeyAddress (evmKeyAddress_accountInfoStructTag address))
    cases hvalue : op.value with
    | none => simp [treeValue, hvalue, stored, StateCodec.serialize]
    | some bytes =>
      have hbytes : bytes ≠ [] := by
        intro hnil
        rw [hvalue, hnil] at hne
        exact hne rfl
      simp [treeValue, hvalue, stored, StateCodec.serialize, hbytes, valueBytes]

/-- The writes of one change set go to different places. -/
theorem nodup_writes (hlawful : codec.Lawful used) (hcovers : Covers used changes)
    (horder : order.Perm (toTreeValues changes).entries) :
    ((order.map fun pair => (codec.keyHash pair.1, stored codec pair.2)).map Prod.fst).Nodup := by
  have hkeys : (order.map Sigma.fst).Nodup :=
    (horder.map Sigma.fst).nodup_iff.mpr (toTreeValues changes).nodupKeys
  have hmem : ∀ key ∈ order.map Sigma.fst, key ∈ used := by
    intro key hkey
    exact hcovers key ((horder.map Sigma.fst).mem_iff.mp hkey)
  have hhashes := hkeys.map_on (f := codec.keyHash) fun a ha b hb hhash =>
    hlawful.keyHash_inj (hmem a ha) (hmem b hb) hhash
  rw [List.map_map] at hhashes ⊢
  exact hhashes

/-- The order of the writes does not matter. -/
theorem insertChangeSet_perm (hlawful : codec.Lawful used) (hcovers : Covers used changes)
    {other : List (Σ _ : TreeKey, TreeValue)} (horder : order.Perm (toTreeValues changes).entries)
    (hother : other.Perm (toTreeValues changes).entries) :
    insertChangeSet codec tree order = insertChangeSet codec tree other := by
  rw [insertChangeSet_eq, insertChangeSet_eq]
  exact writeAll_perm ((horder.trans hother.symm).map _) (nodup_writes hlawful hcovers horder)

/-- One change set at one key of the trie. -/
theorem insertChangeSet_at (hlawful : codec.Lawful used) (hkeys : AccountKeys changes)
    (hvalues : AccountValues changes) (hcovers : Covers used changes)
    (horder : order.Perm (toTreeValues changes).entries) {key : TreeKey} (hkey : key ∈ used)
    (hformed : Formed key) {old : Option Bytes}
    (hold : tree (codec.keyHash key) = old.map (valueBytes codec key)) :
    insertChangeSet codec tree order (codec.keyHash key) =
      (Op.after old (opAt changes key)).map (valueBytes codec key) := by
  rw [insertChangeSet_eq]
  cases hop : opAt changes key with
  | some op =>
    have hentry : ⟨key, treeValue key op⟩ ∈ order :=
      horder.mem_iff.mpr (AList.mem_lookup_iff.mp
        ((lookup_toTreeValues hkeys).mpr ⟨hformed, op, hop, rfl⟩))
    rw [writeAll_of_mem (nodup_writes hlawful hcovers horder)
      (List.mem_map.mpr ⟨_, hentry, rfl⟩), stored_treeValue hlawful hvalues hop]
    rfl
  | none =>
    rw [writeAll_of_not_mem, hold]
    · rfl
    · intro hmem
      rw [List.map_map] at hmem
      obtain ⟨⟨other, value⟩, hpair, hhash⟩ := List.mem_map.mp hmem
      have hentry := horder.mem_iff.mp hpair
      have hother : other ∈ used := hcovers other (List.mem_map.mpr ⟨_, hentry, rfl⟩)
      obtain rfl := hlawful.keyHash_inj hother hkey hhash
      obtain ⟨-, op, hsome, -⟩ := (lookup_toTreeValues hkeys).mp (AList.mem_lookup_iff.mpr hentry)
      rw [hop] at hsome
      cases hsome

end Step

section Runs

variable {codec : StateCodec} {rootHash : Tree → B256} {used : Set TreeKey}
variable {state : InMemoryState} {history : List MoveChangeSet}

/-- The trie under the current root and the flat store tell the same. -/
structure Agrees (codec : StateCodec) (used : Set TreeKey) (state : InMemoryState) (tree : Tree) :
    Prop where
  current : state.tree = some tree
  keys : ∀ key ∈ used, Formed key →
    tree (codec.keyHash key) = (memoryAt state.resolver key).map (valueBytes codec key)
  accounts : ∀ address tag, (state.resolver address).resources tag ≠ none →
    isEvmStorageOrAccountKey tag = true →
      address = evmNativeAddress ∧ ∃ evmAddress, tag = accountInfoStructTag evmAddress

theorem agrees_new : Agrees codec used .new fun _ => none :=
  ⟨rfl, fun key _ _ => by cases key with
    | stateKey key => cases key <;> rfl
    | evm address => rfl, fun _ _ h => absurd rfl h⟩

/-- What a change set that fits leaves. -/
theorem exists_next {tree : Tree} (htree : state.tree = some tree) {changes : MoveChangeSet}
    {order : List (Σ _ : TreeKey, TreeValue)} {resolver : InMemoryStorage}
    (hresolver : state.resolver.apply changes = some resolver) :
    ∃ next, state.apply codec rootHash order changes = some next ∧
      next.tree = some (insertChangeSet codec tree order) ∧ next.resolver = resolver := by
  refine ⟨⟨resolver, Function.update state.db (rootHash (insertChangeSet codec tree order))
    (some (insertChangeSet codec tree order)), some (rootHash (insertChangeSet codec tree order))⟩,
    ?_, ?_, rfl⟩
  · simp only [InMemoryState.apply, htree, hresolver, Option.bind_eq_bind, Option.bind_some]
  · simp only [InMemoryState.tree, Function.update_self]

theorem Agrees.apply (hlawful : codec.Lawful used) {changes : MoveChangeSet} {tree : Tree}
    (h : Agrees codec used state tree) (hkeys : AccountKeys changes)
    (hvalues : AccountValues changes) (hcovers : Covers used changes)
    {order : List (Σ _ : TreeKey, TreeValue)} (horder : order.Perm (toTreeValues changes).entries)
    {next : InMemoryState} (happly : state.apply codec rootHash order changes = some next) :
    Agrees codec used next (insertChangeSet codec tree order) := by
  simp only [InMemoryState.apply, h.current, Option.bind_eq_bind, Option.bind_some,
    Option.bind_eq_some_iff, Option.some.injEq] at happly
  obtain ⟨resolver, hresolver, rfl⟩ := happly
  refine ⟨?_, ?_, ?_⟩
  · simp only [InMemoryState.tree, Function.update_self]
  · intro key hkey hformed
    rw [insertChangeSet_at hlawful hkeys hvalues hcovers horder hkey hformed
      (h.keys key hkey hformed), memoryAt_apply hresolver]
  · intro address tag hsome hevm
    have hafter : (resolver address).resources tag = Op.after ((state.resolver address).resources tag)
        (opAt changes (.stateKey (.resource address tag))) :=
      memoryAt_apply hresolver (.stateKey (.resource address tag))
    cases hop : opAt changes (.stateKey (.resource address tag)) with
    | none =>
      rw [hafter, hop] at hsome
      exact h.accounts address tag hsome hevm
    | some op =>
      obtain ⟨account, haccount, hlookup⟩ := Option.bind_eq_some_iff.mp hop
      exact hkeys address account tag op haccount hlookup hevm

/-- A change set with well-formed account resources and with its keys among the used ones. -/
structure Admitted (used : Set TreeKey) (changes : MoveChangeSet) : Prop where
  keys : AccountKeys changes
  values : AccountValues changes
  covers : Covers used changes

theorem agrees_of_runs (hlawful : codec.Lawful used) (hrun : StateRuns codec rootHash state history)
    (hadmitted : ∀ changes ∈ history, Admitted used changes) :
    ∃ tree, Agrees codec used state tree := by
  induction hrun with
  | new => exact ⟨_, agrees_new⟩
  | @apply state next history changes order _ horder happly ih =>
    obtain ⟨tree, hagrees⟩ := ih fun other hother => hadmitted other (List.mem_append_left _ hother)
    have hlast := hadmitted changes (List.mem_append_right _ (List.mem_singleton_self _))
    exact ⟨_, hagrees.apply hlawful hlast.keys hlast.values hlast.covers horder happly⟩

/-- What the flat store has for a request of the trie's resolver: a tag with an address in its
name stands for that account's resource, whatever account is asked. -/
def readAs (storage : InMemoryStorage) (address : AccountAddress) (tag : StructTag) :
    Option Bytes × ℕ :=
  match evmKeyAddress tag with
  | some evmAddress => storage.getResource evmNativeAddress (accountInfoStructTag evmAddress)
  | none => storage.getResource address tag

theorem Agrees.getModule_eq (hlawful : codec.Lawful used) {tree : Tree}
    (h : Agrees codec used state tree) {address : AccountAddress} {name : String}
    (hused : .stateKey (.module address name) ∈ used) :
    getModule codec tree address name = some (state.resolver.getModule address name) := by
  rw [getModule, h.keys _ hused trivial]
  cases hmemory : memoryAt state.resolver (.stateKey (.module address name)) with
  | none => exact congrArg some hmemory.symm
  | some data =>
    rw [Option.map_some, deserializeStateValue, valueBytes, hlawful.roundTrip]
    exact congrArg some hmemory.symm

theorem Agrees.getResource_eq (hlawful : codec.Lawful used) {tree : Tree}
    (h : Agrees codec used state tree) {address : AccountAddress} {tag : StructTag}
    (hused : resourceKey address tag ∈ used) :
    getResource codec tree address tag = some (readAs state.resolver address tag) := by
  cases hkey : evmKeyAddress tag with
  | some evmAddress =>
    have hevm := isEvmStorageOrAccountKey_of_evmKeyAddress hkey
    simp only [resourceKey, hkey] at hused
    have hread := h.keys _ hused trivial
    have hid : valueBytes codec (.evm evmAddress) = id := rfl
    rw [hid, Option.map_id, id] at hread
    simp only [getResource, resourceKey, readAs, hkey, hevm, if_true, hread]
    rfl
  | none =>
    simp only [resourceKey, hkey] at hused
    have hread := h.keys (.stateKey (.resource address tag)) hused hkey
    simp only [getResource, resourceKey, readAs, hkey, hread]
    cases hmemory : memoryAt state.resolver (.stateKey (.resource address tag)) with
    | none =>
      have hnone : (state.resolver address).resources tag = none := hmemory
      simp [deserializeStateValue, InMemoryStorage.getResource, hnone]
    | some data =>
      have hsome : (state.resolver address).resources tag = some data := hmemory
      have hplain : isEvmStorageOrAccountKey tag = false := by
        rw [Bool.eq_false_iff]
        intro hevm
        obtain ⟨-, evmAddress, rfl⟩ := h.accounts address tag (by rw [hsome]; simp) hevm
        rw [evmKeyAddress_accountInfoStructTag] at hkey
        cases hkey
      simp [hplain, deserializeStateValue, valueBytes, hlawful.roundTrip,
        InMemoryStorage.getResource, hsome]

/-- The resolver over a tree refines the flat store, whose last change set is given. -/
structure Refines (codec : StateCodec) (used : Set TreeKey) (state : InMemoryState) (tree : Tree)
    (last : MoveChangeSet) : Prop where
  modules : ∀ address name, .stateKey (.module address name) ∈ used →
    getModule codec tree address name = some (state.resolver.getModule address name)
  resources : ∀ address tag, resourceKey address tag ∈ used →
    getResource codec tree address tag = some (readAs state.resolver address tag)
  accounts : ∀ evmAddress, evmKeyAddress (accountInfoStructTag evmAddress) = some evmAddress
  separate : ∀ a ∈ used, ∀ b ∈ used, a ≠ b → codec.keyHash a ≠ codec.keyHash b
  deleted : ∀ key ∈ used, Formed key → opAt last key = some .delete →
    tree (codec.keyHash key) = none
  unordered : ∀ before order other, order.Perm (toTreeValues last).entries →
    other.Perm (toTreeValues last).entries →
      insertChangeSet codec before order = insertChangeSet codec before other

/-- The last step of a run. -/
theorem last_of_runs {earlier : List MoveChangeSet} {last : MoveChangeSet}
    (hrun : StateRuns codec rootHash state (earlier ++ [last])) :
    state.db state.stateRoot = state.tree ∧
      ∃ storage : InMemoryStorage, storage.apply last = some state.resolver := by
  generalize hhistory : earlier ++ [last] = history at hrun
  cases hrun with
  | new => simp at hhistory
  | apply _ _ happly =>
    obtain ⟨-, hlast⟩ := List.append_inj' hhistory rfl
    obtain rfl := List.singleton_inj.mp hlast
    simp only [InMemoryState.apply, Option.bind_eq_bind, Option.bind_eq_some_iff,
      Option.some.injEq] at happly
    obtain ⟨tree, -, resolver, hresolver, rfl⟩ := happly
    exact ⟨rfl, _, hresolver⟩

/-- After every sequence of change sets the trie under the state root refines the flat store. -/
theorem trie_refines_store (hlawful : codec.Lawful used) {earlier : List MoveChangeSet}
    {last : MoveChangeSet} (hrun : StateRuns codec rootHash state (earlier ++ [last]))
    (hadmitted : ∀ changes ∈ earlier ++ [last], Admitted used changes) :
    ∃ tree, state.db state.stateRoot = some tree ∧ Refines codec used state tree last := by
  obtain ⟨tree, hagrees⟩ := agrees_of_runs hlawful hrun hadmitted
  obtain ⟨hroot, storage, hstorage⟩ := last_of_runs hrun
  have hlast := hadmitted last (List.mem_append_right _ (List.mem_singleton_self _))
  refine ⟨tree, hroot.trans hagrees.current, ?_, ?_, evmKeyAddress_accountInfoStructTag, ?_, ?_, ?_⟩
  · exact fun address name hused => hagrees.getModule_eq hlawful hused
  · exact fun address tag hused => hagrees.getResource_eq hlawful hused
  · exact fun a ha b hb hne hhash => hne (hlawful.keyHash_inj ha hb hhash)
  · intro key hkey hformed hdelete
    rw [hagrees.keys key hkey hformed, memoryAt_apply hstorage, hdelete]
    rfl
  · exact fun before order other horder hother =>
      insertChangeSet_perm hlawful hlast.covers horder hother

end Runs

section Samples

/-- The BCS form of a state value without metadata: a variant, the length and the data. -/
def legacyBytes (data : Bytes) : Bytes := 0 :: (ulebBytes (data.length + 1) data.length ++ data)

/-- Every byte of a length but the last one has its high bit set. -/
def legacyData (bytes : Bytes) : Option Bytes :=
  match bytes with
  | [] => none
  | variant :: rest =>
      if variant = 0 then some ((rest.dropWhile fun b => 128 ≤ b.toNat).drop 1) else none

theorem drop_ulebBytes (fuel n : ℕ) (h : n < fuel) (data : Bytes) :
    ((ulebBytes fuel n ++ data).dropWhile fun b => 128 ≤ b.toNat).drop 1 = data := by
  induction fuel generalizing n with
  | zero => omega
  | succ fuel ih =>
    unfold ulebBytes
    split_ifs with hsmall
    · have hlast : ¬ 128 ≤ (UInt8.ofNat n).toNat := by
        rw [UInt8.toNat_ofNat']
        omega
      rw [List.cons_append, List.dropWhile_cons_of_neg (by simpa using hlast)]
      rfl
    · have hhigh : 128 ≤ (UInt8.ofNat (128 + n % 128)).toNat := by
        rw [UInt8.toNat_ofNat']
        omega
      rw [List.cons_append, List.dropWhile_cons_of_pos (by simpa using hhigh)]
      exact ih (n / 128) (by omega)

def bridgeAddress : Address := 0x4200000000000000000000000000000000000015

/-- The state key of a module, as it is hashed. -/
def moduleKeyBytes (address : AccountAddress) (name : Bytes) : Bytes :=
  let path := 0 :: ((leBytes 32 address.toNat).reverse ++ ulebBytes 5 name.length ++ name)
  0 :: ((leBytes 32 address.toNat).reverse ++ ulebBytes 5 path.length ++ path)

/-- The libraries at the bridge account and the module of the native EVM. -/
def bridgeCodec : StateCodec where
  encoded _ := moduleKeyBytes 1 [0x65, 0x76, 0x6d]
  keccak256 bytes :=
    if bytes = addressBytes bridgeAddress then
      0x88d7eb2b05f896ff0105268980868fa165a0822afb78240802859cc07e175beb
    else if bytes = moduleKeyBytes 1 [0x65, 0x76, 0x6d] then
      0x85370715e8148cb5fa03dce107b5df1528b1f36bc783f87697723ac6c2aba4a3
    else 0
  stateValueBytes := legacyBytes
  stateValueData := legacyData

def bridgeUsed : Set TreeKey :=
  {.evm bridgeAddress, .stateKey (.module evmNativeAddress evmNativeModule)}

theorem bridgeCodec_lawful : bridgeCodec.Lawful bridgeUsed := by
  refine ⟨?_, ?_, ?_, ?_, ?_⟩
  · rintro a b (ha | ha) (hb | hb) - <;> cases ha <;> cases hb
    rfl
  · intro a _
    exact (by decide : (moduleKeyBytes 1 [0x65, 0x76, 0x6d]).length ≠ 20)
  · rintro x ⟨a, ha | ha, rfl⟩ y ⟨b, hb | hb, rfl⟩ hhash <;> cases ha <;> cases hb
    · rfl
    · revert hhash
      decide +kernel
    · revert hhash
      decide +kernel
    · rfl
  · intro data
    simp only [bridgeCodec, legacyBytes, legacyData, if_true]
    exact congrArg some (drop_ulebBytes _ _ (by omega) data)
  · intro data h
    cases h

/-- A change of the bridge's account. -/
def accountChange (op : Op Bytes) : MoveChangeSet :=
  AList.singleton evmNativeAddress ⟨∅, AList.singleton (accountInfoStructTag bridgeAddress) op⟩

theorem lookup_accountChange {op other : Op Bytes} {address : AccountAddress}
    {account : AccountChanges} {tag : StructTag}
    (haccount : (accountChange op).lookup address = some account)
    (hop : account.resources.lookup tag = some other) :
    address = evmNativeAddress ∧ tag = accountInfoStructTag bridgeAddress ∧ other = op := by
  have hentry := AList.mem_lookup_iff.mp haccount
  obtain ⟨rfl, rfl⟩ : address = evmNativeAddress ∧
      account = ⟨∅, AList.singleton (accountInfoStructTag bridgeAddress) op⟩ := by
    simpa [accountChange, AList.singleton_entries] using hentry
  have hchange := AList.mem_lookup_iff.mp hop
  obtain ⟨rfl, rfl⟩ : tag = accountInfoStructTag bridgeAddress ∧ other = op := by
    simpa [AList.singleton_entries] using hchange
  exact ⟨rfl, rfl, rfl⟩

theorem accountKeys_accountChange (op : Op Bytes) : AccountKeys (accountChange op) := by
  intro address account tag other haccount hop _
  obtain ⟨haddress, htag, -⟩ := lookup_accountChange haccount hop
  exact ⟨haddress, bridgeAddress, htag⟩

theorem opAt_accountChange (op : Op Bytes) :
    opAt (accountChange op) (.evm bridgeAddress) = some op := by
  simp [opAt, accountChange, AList.lookup, AList.singleton_entries]

theorem covers_accountChange (op : Op Bytes) : Covers bridgeUsed (accountChange op) := by
  intro key hkey
  obtain ⟨value, hvalue⟩ := Option.isSome_iff_exists.mp (AList.lookup_isSome.mpr hkey)
  have hpair := (mem_treeValues_iff (accountKeys_accountChange op)).mpr
    ((lookup_toTreeValues (accountKeys_accountChange op)).mp hvalue)
  have hpairs : treeValues (accountChange op) = [(.evm bridgeAddress,
      resourceValue (accountInfoStructTag bridgeAddress) op)] := by
    simp [treeValues, accountChange, AList.singleton_entries, resourceKey,
      evmKeyAddress_accountInfoStructTag]
  rw [hpairs, List.mem_singleton] at hpair
  exact Or.inl (Prod.mk.inj hpair).1

theorem admitted_accountChange {op : Op Bytes} (hop : op.value ≠ some []) :
    Admitted bridgeUsed (accountChange op) := by
  refine ⟨accountKeys_accountChange op, ?_, covers_accountChange op⟩
  intro address account tag other haccount hother _
  obtain ⟨-, -, rfl⟩ := lookup_accountChange haccount hother
  exact hop

def accountBytes (nonce : UInt8) : Bytes :=
  [0xf8, 0x44, nonce, 0x80, 0xa0] ++ (leBytes 32
    0x56e81f171bcc55a6ff8345e692c0f86e5b48e01b996cadc001622fb5e363b421).reverse ++
    0xa0 :: (leBytes 32 0xc5d2460186f7233c927e7db2dcc703c0e500b653ca82273b7bfad8045d85a470).reverse

/-- The roots of the empty trie and of the tries with the bridge's account in it. -/
def bridgeRoot (tree : Tree) : B256 :=
  match tree (bridgeCodec.keyHash (.evm bridgeAddress)) with
  | none => 0x56e81f171bcc55a6ff8345e692c0f86e5b48e01b996cadc001622fb5e363b421
  | some bytes =>
      if bytes = accountBytes 0x80 then
        0x335031092cff6498ba736fdd7321e3dd1ec554c1766a76ce3d191a41455096e2
      else 0xf6ffbc48972b3c4f9b4eeceb401f08eb07fc6640d516ab720419c657de43bf72

/-- One more change of the bridge's account. -/
theorem exists_apply {state : InMemoryState} {tree : Tree} (htree : state.tree = some tree)
    {op : Op Bytes} (hfits : fits op ((state.resolver evmNativeAddress).resources
      (accountInfoStructTag bridgeAddress)) = true) :
    ∃ next, state.apply bridgeCodec bridgeRoot (toTreeValues (accountChange op)).entries
        (accountChange op) = some next ∧
      next.tree = some (insertChangeSet bridgeCodec tree (toTreeValues (accountChange op)).entries) ∧
      (next.resolver evmNativeAddress).resources (accountInfoStructTag bridgeAddress) = op.value := by
  have hresolver : (state.resolver.apply (accountChange op)).isSome := by
    simp [InMemoryStorage.apply, accountChange, AList.singleton_entries, changesFit, hfits]
  obtain ⟨resolver, happly⟩ := Option.isSome_iff_exists.mp hresolver
  have hexists : ∃ next, state.apply bridgeCodec bridgeRoot (toTreeValues (accountChange op)).entries
        (accountChange op) = some next ∧
      next.tree = some (insertChangeSet bridgeCodec tree (toTreeValues (accountChange op)).entries) ∧
      next.resolver = resolver := exists_next htree happly
  obtain ⟨next, hnext, htree, rfl⟩ := hexists
  have hafter := memoryAt_apply happly (.evm bridgeAddress)
  rw [opAt_accountChange] at hafter
  exact ⟨next, hnext, htree, hafter⟩

/-- The first change of the account, on an empty state. -/
theorem exists_first (bytes : Bytes) : ∃ state,
    StateRuns bridgeCodec bridgeRoot state [accountChange (.new bytes)] ∧
      state.tree = some (insertChangeSet bridgeCodec (fun _ => none)
        (toTreeValues (accountChange (.new bytes))).entries) ∧
      (state.resolver evmNativeAddress).resources (accountInfoStructTag bridgeAddress) =
        some bytes := by
  have hfits : fits (.new bytes) ((InMemoryState.new.resolver evmNativeAddress).resources
      (accountInfoStructTag bridgeAddress)) = true := rfl
  obtain ⟨state, happly, htree, hstored⟩ := exists_apply rfl hfits
  exact ⟨state, .apply .new (.refl _) happly, htree, hstored⟩

/-- The trie has nothing for an account of no bytes. -/
theorem insert_empty_account : insertChangeSet bridgeCodec (fun _ => none)
    (toTreeValues (accountChange (.new []))).entries
      (bridgeCodec.keyHash (.evm bridgeAddress)) = none := by
  have hlookup : (toTreeValues (accountChange (.new []))).lookup (.evm bridgeAddress) =
      some (treeValue (.evm bridgeAddress) (.new [])) :=
    (lookup_toTreeValues (accountKeys_accountChange _)).mpr
      ⟨trivial, _, opAt_accountChange _, rfl⟩
  have hentry := AList.mem_lookup_iff.mp hlookup
  rw [insertChangeSet_eq, writeAll_of_mem (nodup_writes bridgeCodec_lawful
    (covers_accountChange _) (.refl _)) (List.mem_map.mpr ⟨_, hentry, rfl⟩)]
  rfl

/-- An account is read under any address; an account of no bytes is not read at all; before the
first change set there is no tree under the state root. -/
theorem account_reads_differ :
    (∃ state tree, StateRuns bridgeCodec bridgeRoot state [accountChange (.new (accountBytes 0x80))] ∧
      AccountKeys (accountChange (.new (accountBytes 0x80))) ∧
      state.db state.stateRoot = some tree ∧
      getResource bridgeCodec tree 2 (accountInfoStructTag bridgeAddress) ≠
        some (state.resolver.getResource 2 (accountInfoStructTag bridgeAddress))) ∧
    (∃ state tree, StateRuns bridgeCodec bridgeRoot state [accountChange (.new [])] ∧
      AccountKeys (accountChange (.new [])) ∧ state.db state.stateRoot = some tree ∧
      getResource bridgeCodec tree evmNativeAddress (accountInfoStructTag bridgeAddress) ≠
        some (state.resolver.getResource evmNativeAddress (accountInfoStructTag bridgeAddress))) ∧
    StateRuns bridgeCodec bridgeRoot .new [] ∧
      InMemoryState.new.db InMemoryState.new.stateRoot = none := by
  have hkey := evmKeyAddress_accountInfoStructTag bridgeAddress
  have hevm := isEvmStorageOrAccountKey_of_evmKeyAddress hkey
  refine ⟨?_, ?_, .new, rfl⟩
  · obtain ⟨state, hrun, -, hstored⟩ := exists_first (accountBytes 0x80)
    have hadmitted : Admitted bridgeUsed (accountChange (.new (accountBytes 0x80))) :=
      admitted_accountChange (by decide)
    obtain ⟨tree, hagrees⟩ := agrees_of_runs bridgeCodec_lawful hrun (by simpa using hadmitted)
    obtain ⟨hroot, -⟩ := last_of_runs (show StateRuns bridgeCodec bridgeRoot state
      ([] ++ [accountChange (.new (accountBytes 0x80))]) from hrun)
    refine ⟨state, tree, hrun, accountKeys_accountChange _, hroot.trans hagrees.current, ?_⟩
    have hother : (state.resolver 2).resources (accountInfoStructTag bridgeAddress) = none := by
      by_contra hsome
      have haddress := (hagrees.accounts 2 _ hsome hevm).1
      revert haddress
      decide
    have hused : resourceKey 2 (accountInfoStructTag bridgeAddress) ∈ bridgeUsed := by
      rw [resourceKey, hkey]
      exact Or.inl rfl
    have hread : readAs state.resolver 2 (accountInfoStructTag bridgeAddress) =
        withLength (some (accountBytes 0x80)) := by
      rw [readAs, hkey]
      exact congrArg withLength hstored
    have hnone : state.resolver.getResource 2 (accountInfoStructTag bridgeAddress) =
        withLength none := congrArg withLength hother
    rw [hagrees.getResource_eq bridgeCodec_lawful hused, hread, hnone]
    simp [withLength]
  · obtain ⟨state, hrun, htree, hstored⟩ := exists_first []
    obtain ⟨hroot, -⟩ := last_of_runs (show StateRuns bridgeCodec bridgeRoot state
      ([] ++ [accountChange (.new [])]) from hrun)
    refine ⟨state, _, hrun, accountKeys_accountChange _, hroot.trans htree, ?_⟩
    simp [getResource, resourceKey, hkey, hevm, insert_empty_account, InMemoryStorage.getResource,
      hstored, withLength]

theorem trie_refines_store_sample : ∃ state tree,
    StateRuns bridgeCodec bridgeRoot state
      [accountChange (.new (accountBytes 0x80)), accountChange (.modify (accountBytes 1))] ∧
    state.db state.stateRoot = some tree ∧
    (state.resolver evmNativeAddress).resources (accountInfoStructTag bridgeAddress) =
      some (accountBytes 1) ∧
    Refines bridgeCodec bridgeUsed state tree (accountChange (.modify (accountBytes 1))) := by
  obtain ⟨first, hfirst, htree, hstored⟩ := exists_first (accountBytes 0x80)
  have hfits : fits (.modify (accountBytes 1)) ((first.resolver evmNativeAddress).resources
      (accountInfoStructTag bridgeAddress)) = true := by
    rw [hstored]
    rfl
  obtain ⟨state, happly, -, hmodified⟩ := exists_apply htree hfits
  have hrun : StateRuns bridgeCodec bridgeRoot state
      ([accountChange (.new (accountBytes 0x80))] ++ [accountChange (.modify (accountBytes 1))]) :=
    .apply hfirst (.refl _) happly
  have hadmitted : ∀ changes ∈ [accountChange (.new (accountBytes 0x80))] ++
      [accountChange (.modify (accountBytes 1))], Admitted bridgeUsed changes := by
    intro changes hchanges
    rcases List.mem_append.mp hchanges with hnew | hmodify
    · rw [List.mem_singleton.mp hnew]
      exact admitted_accountChange (by decide)
    · rw [List.mem_singleton.mp hmodify]
      exact admitted_accountChange (by decide)
  obtain ⟨tree, hroot, hrefines⟩ := trie_refines_store bridgeCodec_lawful hrun hadmitted
  exact ⟨state, tree, hrun, hroot, hmodified, hrefines⟩

end Samples

end OpMove.TrieRefinement
