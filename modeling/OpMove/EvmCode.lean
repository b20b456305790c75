import OpMove.Extraction
import OpMove.NativeEvm

/-!
The code of EVM accounts. An account resource names its code by hash, and the code is a resource
of its own under that hash, shared by all accounts with the same code. Code is written when an
account that carries it is written and nothing has stored it before, be it the state, an earlier
call or an earlier account of the same call. So the code of every stored account is there,
provided an account that carries no code has had its code hash before.
-/

namespace OpMove.EvmCode

open Primitives ChangeSets StorageTries StateChanges NativeEvm

section Genesis

structure GenesisAccount where
  nonce : Option ℕ
  balance : U256
  code : Option Bytes
  storage : Option (Table U256 U256)

variable (lib : TrieLibrary) (keccak256 : Bytes → B256)

/-- `Bytecode::hash_slow`. -/
def hashSlow (code : Bytes) : B256 := if code = [] then keccakEmpty else keccak256 code

/-- The original values are zero, so that every slot counts as changed. -/
def genesisSlots (storage : Option (Table U256 U256)) : Table U256 EvmStorageSlot :=
  match storage with
  | some slots => (slots.entries.map fun slot => ⟨slot.1, ⟨0, slot.2⟩⟩).toAList
  | none => ∅

def genesisEvmAccount (account : GenesisAccount) : EvmAccount where
  info := {
    balance := account.balance
    nonce := account.nonce.getD 0
    codeHash := match account.code with
      | some raw => hashSlow keccak256 raw
      | none => keccakEmpty
    code := account.code }
  storage := genesisSlots account.storage
  isTouched := true
  isSelfdestructed := false

def genesisAccountChanges (state : EvmState) (progress : MapProgress)
    (entry : Σ _ : Address, GenesisAccount) : Option MapProgress := do
  let (storageChanges, result) ← addAccountChanges lib keccak256 state entry.1
    (genesisEvmAccount keccak256 entry.2) ∅ progress.1
  some (result, withTrieChanges progress.2 entry.1 storageChanges)

def genesisStateChanges (state : EvmState) (alloc : Table Address GenesisAccount) :
    Option Changes := do
  let (accounts, tries) ← alloc.entries.foldlM (genesisAccountChanges lib keccak256 state) (∅, ∅)
  some ⟨accounts, tries⟩

end Genesis

section Runs

variable (lib : TrieLibrary) (keccak256 : Bytes → B256)

/-- The code hashes an account can have without carrying its code: that of no code, and what it
had in the state or where an earlier call left it. -/
def HadCodeHash (state : EvmState) (earlier : List StateMap) (a : Address) (hash : B256) : Prop :=
  hash = keccakEmpty ∨
    (∃ resource, state.resources (.account a) = some (.account resource) ∧
      resource.codeHash = hash) ∨
    ∃ map ∈ earlier, ∃ account, persisted map a = some account ∧ account.info.codeHash = hash

/-- What the EVM library promises of an account's code: a changed code comes with its hash, and
code that did not change is not there or is what the database gave. -/
inductive CodeReported (state : EvmState) (earlier : List StateMap) (a : Address)
    (info : AccountInfo) : Prop
  | changed (code : Bytes) : info.code = some code → info.codeHash = hashSlow keccak256 code →
      CodeReported state earlier a info
  | unloaded : info.code = none → HadCodeHash state earlier a info.codeHash →
      CodeReported state earlier a info
  | loaded (code : Bytes) (hashByNumber : ℕ → Option B256) (number : ℕ) :
      info.code = some code → HadCodeHash state earlier a info.codeHash →
      ResolverBackedDB.codeByHashRef ⟨state, hashByNumber, number⟩ info.codeHash = .ok code →
      CodeReported state earlier a info

/-- The promise for all accounts the calls of one transaction persist. -/
def CodesReported (state : EvmState) (maps : List StateMap) : Prop :=
  ∀ earlier map later, maps = earlier ++ map :: later → ∀ a account,
    persisted map a = some account → CodeReported keccak256 state earlier a account.info

/-- The results of `genesis_state_changes` and `extract_evm_changes` on a state. -/
inductive Yields (state : EvmState) (changes : Changes) : Prop
  | genesis (alloc : Table Address GenesisAccount) :
      genesisStateChanges lib keccak256 state alloc = some changes → Yields state changes
  | extracted (maps : List StateMap) : CodesReported keccak256 state maps →
      extractEvmChanges lib keccak256 state maps = some changes → Yields state changes

/-- The states such results lead to, one after another. -/
inductive Built : EvmState → Prop
  | empty (tries : Address → TrieDb) : Built ⟨fun _ => none, tries⟩
  | applied {state : EvmState} {changes : Changes} : Built state →
      Yields lib keccak256 state changes → Built (applyChanges state changes)

end Runs

section Accounts

variable (keccak256 : Bytes → B256) (state : EvmState)
  (prior : ChangeSet ResourceKey ResourceValue)

/-- A code hash whose code is stored once the changes are applied. -/
def Known (result : ChangeSet ResourceKey ResourceValue) (hash : B256) : Prop :=
  hash = keccakEmpty ∨ resourceExists state.resources prior (.code hash) = true ∨
    (result.lookup (.code hash)).isSome = true

/-- The changes of one call, over those of the earlier ones: they create only code that is not
there, under its hash, and write only accounts whose code is known. -/
structure Covered (result : ChangeSet ResourceKey ResourceValue) : Prop where
  codes : ∀ hash op, result.lookup (.code hash) = some op → ∃ bytes, op = .new (.code bytes) ∧
    bytes ≠ [] ∧ keccak256 bytes = hash ∧
    resourceExists state.resources prior (.code hash) = false
  accounts : ∀ a op, result.lookup (.account a) = some op →
    ∃ resource, op.value = some (.account resource) ∧ Known state prior result resource.codeHash

/-- The account carries its code, or its code hash is known already. -/
def Carried (info : AccountInfo) : Prop :=
  (∃ code, info.code = some code ∧ info.codeHash = hashSlow keccak256 code) ∨
    info.code = none ∧ (info.codeHash = keccakEmpty ∨
      resourceExists state.resources prior (.code info.codeHash) = true)

variable {keccak256 state prior}

theorem covered_empty : Covered keccak256 state prior ∅ := by
  constructor
  · intro hash op h
    cases h
  · intro a op h
    cases h

theorem Known.mono {result next : ChangeSet ResourceKey ResourceValue} {hash : B256}
    (h : Known state prior result hash)
    (hkept : ∀ key, (result.lookup key).isSome → (next.lookup key).isSome) :
    Known state prior next hash := by
  rcases h with hempty | hexists | hresult
  · exact .inl hempty
  · exact .inr (.inl hexists)
  · exact .inr (.inr (hkept _ hresult))

theorem accountCodeHash_of_some {info : AccountInfo} {code : Bytes} (h : info.code = some code) :
    accountCodeHash keccak256 info = hashSlow keccak256 code := by
  cases code with
  | nil => simp [accountCodeHash, h, hashSlow]
  | cons byte code => simp [accountCodeHash, h, hashSlow]

/-- Code is not written, or it is written under its hash where nothing was. -/
theorem addCode_cases (result : ChangeSet ResourceKey ResourceValue) (info : AccountInfo) :
    addCode keccak256 state.resources prior result info = result ∨
      ∃ code, code ≠ [] ∧
        resourceExists state.resources prior (.code (keccak256 code)) = false ∧
        addCode keccak256 state.resources prior result info =
          result.insert (.code (keccak256 code)) (.new (.code code)) := by
  unfold addCode
  dsimp only
  split_ifs with hexists
  · exact .inl rfl
  split
  · exact .inl rfl
  · exact .inl rfl
  rename_i code hnonempty hcode
  have hne : code ≠ [] := fun h => hnonempty h
  have hhash : accountCodeHash keccak256 info = keccak256 code := by
    rw [accountCodeHash_of_some hcode, hashSlow, if_neg hne]
  rw [hhash] at hexists ⊢
  unfold ChangeSet.addOp
  split_ifs with hpresent
  · exact .inl rfl
  · exact .inr ⟨code, hne, by simpa using hexists, rfl⟩

/-- What is in the changes stays there. -/
theorem isSome_addCode (info : AccountInfo) {result : ChangeSet ResourceKey ResourceValue}
    {key : ResourceKey} (h : (result.lookup key).isSome) :
    ((addCode keccak256 state.resources prior result info).lookup key).isSome := by
  obtain hsame | ⟨code, -, -, hinsert⟩ := addCode_cases result info
  · rw [hsame]
    exact h
  · rw [hinsert, lookup_insert_if]
    split_ifs
    · rfl
    · exact h

/-- After an account has been written, its code is known. -/
theorem known_addCode {info : AccountInfo} (h : Carried keccak256 state prior info)
    (result : ChangeSet ResourceKey ResourceValue) :
    Known state prior (addCode keccak256 state.resources prior result info) info.codeHash := by
  obtain ⟨code, hcode, hhash⟩ | ⟨-, hempty | hexists⟩ := h
  · rw [hhash]
    by_cases hne : code = []
    · exact .inl (by rw [hashSlow, if_pos hne])
    · have hcodeHash : accountCodeHash keccak256 info = hashSlow keccak256 code :=
        accountCodeHash_of_some hcode
      refine .inr ?_
      unfold addCode
      rw [hcodeHash]
      dsimp only
      split_ifs with hexists
      · exact .inl hexists
      · right
        cases code with
        | nil => exact absurd rfl hne
        | cons byte code =>
          simp only [hcode]
          unfold ChangeSet.addOp
          split_ifs with hpresent
          · exact hpresent
          · rw [Option.getD_some, lookup_insert_if, if_pos rfl]
            rfl
  · exact .inl hempty
  · exact .inr (.inl hexists)

/-- An account is written under its own key, then its code. -/
theorem addAccountChanges_cases {lib : TrieLibrary}
    {result next : ChangeSet ResourceKey ResourceValue} {a : Address} {account : EvmAccount}
    {storageChanges : StorageTrieChanges}
    (h : addAccountChanges lib keccak256 state a account prior result =
      some (storageChanges, next)) :
    ∃ op root, op.value = some (.account (accountResource account root)) ∧
      (result.lookup (.account a)).isSome = false ∧
      next = addCode keccak256 state.resources prior (result.insert (.account a) op)
        account.info := by
  unfold addAccountChanges at h
  obtain ⟨trie, -, hrest⟩ := Option.bind_eq_some_iff.mp h
  obtain ⟨added, hop, hnext⟩ := Option.bind_eq_some_iff.mp hrest
  rw [Option.some.injEq, Prod.mk.injEq] at hnext
  unfold ChangeSet.addOp at hop
  by_cases hpresent : (result.lookup (.account a)).isSome = true
  · rw [if_pos hpresent] at hop
    cases hop
  · rw [if_neg hpresent, Option.some.injEq] at hop
    subst hop
    refine ⟨_, (StorageTrie.commit lib (insertChangedSlots trie account)).root, ?_,
      by simpa using hpresent, hnext.2.symm⟩
    split_ifs <;> rfl

/-- One more account is covered, and its code is known. -/
theorem covered_addAccountChanges {lib : TrieLibrary}
    {result next : ChangeSet ResourceKey ResourceValue} (h : Covered keccak256 state prior result)
    {a : Address} {account : EvmAccount} (hcarried : Carried keccak256 state prior account.info)
    {storageChanges : StorageTrieChanges}
    (hadd : addAccountChanges lib keccak256 state a account prior result =
      some (storageChanges, next)) :
    Covered keccak256 state prior next ∧
      (∀ key, (result.lookup key).isSome → (next.lookup key).isSome) ∧
      Known state prior next account.info.codeHash := by
  obtain ⟨op, root, hvalue, hfresh, hnext⟩ := addAccountChanges_cases hadd
  have hknown : Known state prior next account.info.codeHash := by
    rw [hnext]
    exact known_addCode hcarried _
  have hinsert : ∀ key, (result.lookup key).isSome →
      ((result.insert (.account a) op).lookup key).isSome := by
    intro key hkey
    rw [lookup_insert_if]
    split_ifs
    · rfl
    · exact hkey
  have hkept : ∀ key, (result.lookup key).isSome → (next.lookup key).isSome := by
    intro key hkey
    rw [hnext]
    exact isSome_addCode account.info (hinsert key hkey)
  have hadded : ∀ hash, (result.insert (.account a) op).lookup (.code hash) =
      result.lookup (.code hash) := by
    intro hash
    rw [lookup_insert_if, if_neg (by simp)]
  refine ⟨⟨fun hash codeOp hop => ?_, fun b accountOp hop => ?_⟩, hkept, hknown⟩
  · obtain hsame | ⟨code, hne, hnew, hwritten⟩ :=
      @addCode_cases keccak256 state prior (result.insert (.account a) op) account.info
    · rw [hnext, hsame, hadded] at hop
      exact h.codes hash codeOp hop
    · rw [hnext, hwritten, lookup_insert_if, hadded] at hop
      split_ifs at hop with hsame
      · rw [ResourceKey.code.injEq] at hsame
        subst hsame
        exact ⟨code, (Option.some.inj hop).symm, hne, rfl, hnew⟩
      · exact h.codes hash codeOp hop
  · have hlookup : next.lookup (.account b) =
        (result.insert (.account a) op).lookup (.account b) := by
      obtain hsame | ⟨code, -, -, hwritten⟩ :=
        @addCode_cases keccak256 state prior (result.insert (.account a) op) account.info
      · rw [hnext, hsame]
      · rw [hnext, hwritten, AList.lookup_insert_ne (by simp)]
    rw [hlookup, lookup_insert_if] at hop
    split_ifs at hop with hsame
    · rw [Option.some.injEq] at hop
      subst hop
      exact ⟨_, hvalue, hknown⟩
    · obtain ⟨resource, hresource, hcode⟩ := h.accounts b accountOp hop
      exact ⟨resource, hresource, hcode.mono hkept⟩

end Accounts

section Loops

variable (lib : TrieLibrary) (keccak256 : Bytes → B256) (state : EvmState)
  (prior : ChangeSet ResourceKey ResourceValue)

/-- A loop body that writes the accounts of some of its entries. -/
def Writes {E : Type} (f : MapProgress → E → Option MapProgress)
    (written : E → Option EvmAccount) : Prop :=
  ∀ progress e next, f progress e = some next →
    match written e with
    | none => next.1 = progress.1
    | some account => ∃ a storageChanges, addAccountChanges lib keccak256 state a account prior
        progress.1 = some (storageChanges, next.1)

theorem genesisAccountChanges_writes :
    Writes lib keccak256 state ∅ (genesisAccountChanges lib keccak256 state)
      fun entry => some (genesisEvmAccount keccak256 entry.2) := by
  intro progress entry next hnext
  obtain ⟨added, hadd, hresult⟩ := Option.bind_eq_some_iff.mp hnext
  rw [Option.some.injEq] at hresult
  subst hresult
  exact ⟨entry.1, added.1, hadd⟩

theorem extractAccount_writes :
    Writes lib keccak256 state prior (extractAccount lib keccak256 state prior)
      fun entry => (some entry.2).filter fun account => account.isPersisted := by
  intro progress entry next hnext
  cases hpersisted : entry.2.isPersisted with
  | false =>
    rw [Extraction.extractAccount_skips lib keccak256 state prior hpersisted progress,
      Option.some.injEq] at hnext
    simp only [Option.filter, hpersisted, hnext, Bool.false_eq_true, if_false]
  | true =>
    have hgoes : ¬(!entry.2.isTouched || entry.2.isSelfdestructed) = true := by
      simp only [EvmAccount.isPersisted, Bool.and_eq_true, Bool.not_eq_true'] at hpersisted
      simp [hpersisted]
    unfold extractAccount at hnext
    rw [if_neg hgoes] at hnext
    obtain ⟨added, hadd, hresult⟩ := Option.bind_eq_some_iff.mp hnext
    rw [Option.some.injEq] at hresult
    subst hresult
    simp only [Option.filter, hpersisted, if_true]
    exact ⟨entry.1, added.1, hadd⟩

variable {lib keccak256 state prior}

theorem covered_fold {E : Type} {f : MapProgress → E → Option MapProgress}
    {written : E → Option EvmAccount} (hwrites : Writes lib keccak256 state prior f written)
    {entries : List E}
    (hcarried : ∀ e ∈ entries, ∀ account, written e = some account →
      Carried keccak256 state prior account.info)
    {progress final : MapProgress} (h : Covered keccak256 state prior progress.1)
    (hfold : entries.foldlM f progress = some final) :
    Covered keccak256 state prior final.1 ∧
      (∀ key, (progress.1.lookup key).isSome → (final.1.lookup key).isSome) ∧
      ∀ e ∈ entries, ∀ account, written e = some account →
        Known state prior final.1 account.info.codeHash := by
  induction entries generalizing progress with
  | nil =>
    rw [List.foldlM_nil, Option.pure_def, Option.some.injEq] at hfold
    subst hfold
    exact ⟨h, fun _ hkey => hkey, fun e he => by cases he⟩
  | cons e entries ih =>
    rw [List.foldlM_cons] at hfold
    obtain ⟨next, hnext, hrest⟩ := Option.bind_eq_some_iff.mp hfold
    have hhead := hwrites progress e next hnext
    have htail := fun e he => hcarried e (List.mem_cons_of_mem _ he)
    cases hwritten : written e with
    | none =>
      simp only [hwritten] at hhead
      obtain ⟨hcovered, hkept, hknown⟩ := ih htail (hhead ▸ h) hrest
      refine ⟨hcovered, fun key hkey => hkept key (hhead ▸ hkey), fun e' he' account haccount => ?_⟩
      rcases List.mem_cons.mp he' with rfl | he'
      · rw [hwritten] at haccount
        cases haccount
      · exact hknown e' he' account haccount
    | some account =>
      simp only [hwritten] at hhead
      obtain ⟨a, storageChanges, hadd⟩ := hhead
      obtain ⟨hcovered, hkept, hknown⟩ := covered_addAccountChanges h
        (hcarried e (List.mem_cons_self ..) account hwritten) hadd
      obtain ⟨hcovered', hkept', hknown'⟩ := ih htail hcovered hrest
      refine ⟨hcovered', fun key hkey => hkept' key (hkept key hkey), fun e' he' other hother => ?_⟩
      rcases List.mem_cons.mp he' with rfl | he'
      · rw [hwritten, Option.some.injEq] at hother
        subst hother
        exact hknown.mono hkept'
      · exact hknown' e' he' other hother

theorem carried_genesis (account : GenesisAccount) :
    Carried keccak256 state prior (genesisEvmAccount keccak256 account).info := by
  unfold Carried genesisEvmAccount
  cases hcode : account.code with
  | none => exact .inr ⟨rfl, .inl rfl⟩
  | some raw => exact .inl ⟨raw, rfl, rfl⟩

theorem covered_genesis {alloc : Table Address GenesisAccount} {changes : Changes}
    (h : genesisStateChanges lib keccak256 state alloc = some changes) :
    Covered keccak256 state ∅ changes.accounts := by
  obtain ⟨final, hfold, hchanges⟩ := Option.bind_eq_some_iff.mp h
  rw [Option.some.injEq] at hchanges
  subst hchanges
  refine (covered_fold (genesisAccountChanges_writes lib keccak256 state) ?_ covered_empty hfold).1
  intro entry hentry account haccount
  rw [Option.some.injEq] at haccount
  subst haccount
  exact carried_genesis entry.2

/-- The accounts a map persists are covered, over what the earlier maps left. -/
theorem covered_entries {map : StateMap} {tries : Table Address StorageTrieChanges}
    {final : MapProgress}
    (hcarried : ∀ a account, persisted map a = some account →
      Carried keccak256 state prior account.info)
    (hfold : map.entries.foldlM (extractAccount lib keccak256 state prior) (∅, tries) =
      some final) :
    Covered keccak256 state prior final.1 ∧
      ∀ a account, persisted map a = some account →
        Known state prior final.1 account.info.codeHash := by
  have hentries : ∀ e ∈ map.entries, ∀ account,
      (some e.2).filter (fun account => account.isPersisted) = some account →
        persisted map e.1 = some account := by
    intro e he account haccount
    have hlookup : map.lookup e.1 = some e.2 := AList.mem_lookup_iff.mpr he
    rw [persisted, hlookup]
    exact haccount
  obtain ⟨hcovered, -, hknown⟩ := covered_fold (extractAccount_writes lib keccak256 state prior)
    (fun e he account haccount => hcarried e.1 account (hentries e he account haccount))
    covered_empty hfold
  refine ⟨hcovered, fun a account haccount => ?_⟩
  obtain ⟨hlookup, hkeeps⟩ := Option.filter_eq_some_iff.mp haccount
  refine hknown ⟨a, account⟩ (AList.mem_lookup_iff.mp hlookup) account ?_
  exact Option.filter_eq_some_iff.mpr ⟨rfl, hkeeps⟩

theorem known_iff {accounts : ChangeSet ResourceKey ResourceValue} {hash : B256} :
    Known state ∅ accounts hash ↔
      hash = keccakEmpty ∨ resourceExists state.resources accounts (.code hash) = true := by
  simp only [Known, resourceExists, Bool.or_eq_true, AList.lookup_empty, Option.isSome_none,
    Bool.false_eq_true, false_or]
  exact or_congr Iff.rfl or_comm

/-- The changes of one call after those of the earlier ones. -/
theorem covered_squash {accounts single merged : ChangeSet ResourceKey ResourceValue}
    (h : Covered keccak256 state ∅ accounts) (hsingle : Covered keccak256 state accounts single)
    (hsquash : accounts.squash single = some merged) :
    Covered keccak256 state ∅ merged ∧
      (∀ hash, Known state ∅ accounts hash → Known state ∅ merged hash) ∧
      ∀ hash, Known state accounts single hash → Known state ∅ merged hash := by
  have hlookup := ChangeSet.lookup_of_squash hsquash
  -- code that an earlier call wrote is not written again
  have hcode : ∀ hash, merged.lookup (.code hash) =
      (single.lookup (.code hash)).or (accounts.lookup (.code hash)) := by
    intro hash
    have hmerge := hlookup (.code hash)
    cases hop : single.lookup (.code hash) with
    | none =>
      rw [hop, ChangeSet.merge_none, Option.some.injEq] at hmerge
      rw [hmerge, Option.none_or]
    | some op =>
      obtain ⟨bytes, rfl, -, -, hnew⟩ := hsingle.codes hash op hop
      simp only [resourceExists, Bool.or_eq_false_iff, Option.isSome_eq_false_iff,
        Option.isNone_iff_eq_none] at hnew
      rw [hop, hnew.1] at hmerge
      exact Option.some.inj hmerge
  have hearlier : ∀ hash, Known state ∅ accounts hash → Known state ∅ merged hash := by
    intro hash hknown
    rcases known_iff.mp hknown with hempty | hexists
    · exact .inl hempty
    · refine known_iff.mpr (.inr ?_)
      simp only [resourceExists, hcode, Option.isSome_or, Bool.or_eq_true] at hexists ⊢
      tauto
  have hlater : ∀ hash, Known state accounts single hash → Known state ∅ merged hash := by
    intro hash hknown
    rcases hknown with hempty | hexists | hwritten
    · exact .inl hempty
    · exact hearlier hash (known_iff.mpr (.inr hexists))
    · refine known_iff.mpr (.inr ?_)
      simp only [resourceExists, hcode, Option.isSome_or, hwritten, Bool.true_or]
  refine ⟨⟨fun hash op hop => ?_, fun a op hop => ?_⟩, hearlier, hlater⟩
  · rw [hcode, Option.or_eq_some_iff] at hop
    rcases hop with hop | ⟨-, hop⟩
    · obtain ⟨bytes, hnew, hne, hhash, hexists⟩ := hsingle.codes hash op hop
      simp only [resourceExists, Bool.or_eq_false_iff] at hexists
      exact ⟨bytes, hnew, hne, hhash, by simp [resourceExists, hexists.2]⟩
    · exact h.codes hash op hop
  · have hmerge := hlookup (.account a)
    rw [hop] at hmerge
    cases hsop : single.lookup (.account a) with
    | none =>
      have hold : accounts.lookup (.account a) = some op := by
        rw [hsop, ChangeSet.merge_none, Option.some.injEq] at hmerge
        exact hmerge.symm
      obtain ⟨resource, hvalue, hknown⟩ := h.accounts a op hold
      exact ⟨resource, hvalue, hearlier _ hknown⟩
    | some sop =>
      obtain ⟨resource, hvalue, hknown⟩ := hsingle.accounts a sop hsop
      rw [hsop] at hmerge
      obtain ⟨result, hresult, hleft⟩ := ChangeSet.value_of_merge hvalue hmerge.symm
      rw [Option.some.injEq] at hresult
      subst hresult
      exact ⟨resource, hleft, hlater _ hknown⟩

end Loops

section States

variable {lib : TrieLibrary} {keccak256 : Bytes → B256} {state : EvmState}

/-- The invariant of a state: what accounts and codes are, and that no code is missing. -/
structure CodeStored (keccak256 : Bytes → B256) (state : EvmState) : Prop where
  accounts : ∀ a value, state.resources (.account a) = some value →
    ∃ resource, value = .account resource ∧ (resource.codeHash = keccakEmpty ∨
      (state.resources (.code resource.codeHash)).isSome = true)
  codes : ∀ hash value, state.resources (.code hash) = some value →
    ∃ bytes, value = .code bytes ∧ bytes ≠ [] ∧ keccak256 bytes = hash

theorem CodeStored.apply (h : CodeStored keccak256 state) {changes : Changes}
    (hcovered : Covered keccak256 state ∅ changes.accounts) :
    CodeStored keccak256 (applyChanges state changes) := by
  have hknown : ∀ hash, Known state ∅ changes.accounts hash → hash = keccakEmpty ∨
      ((applyChanges state changes).resources (.code hash)).isSome = true := by
    intro hash hknown
    refine (known_iff.mp hknown).imp_right fun hexists => ?_
    show (changes.accounts.apply state.resources (.code hash)).isSome = true
    unfold ChangeSet.apply
    cases hop : changes.accounts.lookup (.code hash) with
    | none => simpa [resourceExists, hop] using hexists
    | some op =>
      obtain ⟨bytes, rfl, -⟩ := hcovered.codes hash op hop
      rfl
  constructor
  · intro a value hvalue
    change changes.accounts.apply state.resources (.account a) = some value at hvalue
    unfold ChangeSet.apply at hvalue
    cases hop : changes.accounts.lookup (.account a) with
    | none =>
      simp only [hop] at hvalue
      obtain ⟨resource, hresource, hcode⟩ := h.accounts a value hvalue
      refine ⟨resource, hresource, hknown _ (known_iff.mpr (hcode.imp_right fun hstored => ?_))⟩
      simp [resourceExists, hstored]
    | some op =>
      simp only [hop] at hvalue
      obtain ⟨resource, hresource, hcode⟩ := hcovered.accounts a op hop
      rw [hvalue, Option.some.injEq] at hresource
      exact ⟨resource, hresource, hknown _ hcode⟩
  · intro hash value hvalue
    change changes.accounts.apply state.resources (.code hash) = some value at hvalue
    unfold ChangeSet.apply at hvalue
    cases hop : changes.accounts.lookup (.code hash) with
    | none =>
      simp only [hop] at hvalue
      exact h.codes hash value hvalue
    | some op =>
      simp only [hop] at hvalue
      obtain ⟨bytes, rfl, hne, hhash, -⟩ := hcovered.codes hash op hop
      exact ⟨bytes, (Option.some.inj hvalue).symm, hne, hhash⟩

/-- Everything the earlier calls of a transaction have left, code by code. -/
structure Accumulated (keccak256 : Bytes → B256) (state : EvmState) (earlier : List StateMap)
    (accounts : ChangeSet ResourceKey ResourceValue) : Prop where
  covered : Covered keccak256 state ∅ accounts
  seen : ∀ map ∈ earlier, ∀ a account, persisted map a = some account →
    Known state ∅ accounts account.info.codeHash

/-- An account that kept its code hash has a hash that is known. -/
theorem Accumulated.known {earlier : List StateMap}
    {accounts : ChangeSet ResourceKey ResourceValue}
    (h : Accumulated keccak256 state earlier accounts) (hstored : CodeStored keccak256 state)
    {a : Address} {hash : B256} (hhad : HadCodeHash state earlier a hash) :
    Known state ∅ accounts hash := by
  rcases hhad with hempty | ⟨resource, hresource, rfl⟩ | ⟨map, hmap, account, haccount, rfl⟩
  · exact .inl hempty
  · obtain ⟨found, hfound, hcode⟩ := hstored.accounts a _ hresource
    rw [ResourceValue.account.injEq] at hfound
    subst hfound
    refine known_iff.mpr (hcode.imp_right fun hexists => ?_)
    simp [resourceExists, hexists]
  · exact h.seen map hmap a account haccount

theorem Accumulated.carried {earlier : List StateMap}
    {accounts : ChangeSet ResourceKey ResourceValue}
    (h : Accumulated keccak256 state earlier accounts) (hstored : CodeStored keccak256 state)
    {a : Address} {info : AccountInfo} (hreported : CodeReported keccak256 state earlier a info) :
    Carried keccak256 state accounts info := by
  cases hreported with
  | changed code hcode hhash => exact .inl ⟨code, hcode, hhash⟩
  | unloaded hcode hhad => exact .inr ⟨hcode, known_iff.mp (h.known hstored hhad)⟩
  | loaded code hashByNumber number hcode hhad hloaded =>
    refine .inl ⟨code, hcode, ?_⟩
    unfold ResolverBackedDB.codeByHashRef at hloaded
    split_ifs at hloaded with hempty
    · rw [Except.ok.injEq] at hloaded
      rw [hempty, ← hloaded]
      rfl
    · -- what was loaded is stored under its hash
      split at hloaded
      · cases hloaded
      · rename_i bytes hbytes
        rw [Except.ok.injEq] at hloaded
        subst hloaded
        obtain ⟨found, hfound, hne, hhash⟩ := hstored.codes _ _ hbytes
        rw [ResourceValue.code.injEq] at hfound
        subst hfound
        rw [hashSlow, if_neg hne, hhash]
      · cases hloaded

theorem Accumulated.extractMap {earlier : List StateMap} {progress next : MapProgress}
    (h : Accumulated keccak256 state earlier progress.1) (hstored : CodeStored keccak256 state)
    {map : StateMap}
    (hreported : ∀ a account, persisted map a = some account →
      CodeReported keccak256 state earlier a account.info)
    (hnext : extractMap lib keccak256 state progress map = some next) :
    Accumulated keccak256 state (earlier ++ [map]) next.1 := by
  obtain ⟨⟨single, tries⟩, hfold, hrest⟩ := Option.bind_eq_some_iff.mp hnext
  obtain ⟨merged, hsquash, hresult⟩ := Option.bind_eq_some_iff.mp hrest
  rw [Option.some.injEq] at hresult
  subst hresult
  obtain ⟨hsingle, hknown⟩ := covered_entries
    (fun a account haccount => h.carried hstored (hreported a account haccount)) hfold
  obtain ⟨hcovered, hearlier, hlater⟩ := covered_squash h.covered hsingle hsquash
  refine ⟨hcovered, fun m hm a account haccount => ?_⟩
  rcases List.mem_append.mp hm with hm | hm
  · exact hearlier _ (h.seen m hm a account haccount)
  · rw [List.mem_singleton] at hm
    subst hm
    exact hlater _ (hknown a account haccount)

/-- All calls of a transaction, one after another. -/
theorem accumulated_of_maps (hstored : CodeStored keccak256 state) (maps : List StateMap)
    (hreported : CodesReported keccak256 state maps) {final : MapProgress}
    (hfold : maps.foldlM (extractMap lib keccak256 state) (∅, ∅) = some final) :
    Accumulated keccak256 state maps final.1 := by
  induction maps using List.reverseRecOn generalizing final with
  | nil =>
    rw [List.foldlM_nil, Option.pure_def, Option.some.injEq] at hfold
    subst hfold
    exact ⟨covered_empty, fun map hmap => by cases hmap⟩
  | append_singleton maps map ih =>
    rw [List.foldlM_append] at hfold
    obtain ⟨progress, hprogress, hlast⟩ := Option.bind_eq_some_iff.mp hfold
    have hbefore : CodesReported keccak256 state maps := by
      intro earlier found later hmaps
      exact hreported earlier found (later ++ [map]) (by simp [hmaps])
    rw [List.foldlM_cons] at hlast
    obtain ⟨next, hnext, hlast⟩ := Option.bind_eq_some_iff.mp hlast
    rw [List.foldlM_nil, Option.pure_def, Option.some.injEq] at hlast
    subst hlast
    exact (ih hbefore hprogress).extractMap hstored (hreported maps map [] rfl) hnext

theorem covered_extracted (hstored : CodeStored keccak256 state) {maps : List StateMap}
    (hreported : CodesReported keccak256 state maps) {changes : Changes}
    (h : extractEvmChanges lib keccak256 state maps = some changes) :
    Covered keccak256 state ∅ changes.accounts := by
  obtain ⟨final, hfold, hchanges⟩ := Option.bind_eq_some_iff.mp h
  rw [Option.some.injEq] at hchanges
  subst hchanges
  exact (accumulated_of_maps hstored maps hreported hfold).covered

theorem covered_of_yields (hstored : CodeStored keccak256 state) {changes : Changes}
    (h : Yields lib keccak256 state changes) : Covered keccak256 state ∅ changes.accounts := by
  cases h with
  | genesis alloc hchanges => exact covered_genesis hchanges
  | extracted maps hreported hchanges => exact covered_extracted hstored hreported hchanges

theorem codeStored_of_built (h : Built lib keccak256 state) : CodeStored keccak256 state := by
  induction h with
  | empty tries =>
    constructor
    · intro a value hvalue
      cases hvalue
    · intro hash value hvalue
      cases hvalue
  | applied _ hyields ih => exact ih.apply (covered_of_yields ih hyields)

/-- The code of every stored account is stored, under its hash, so the database finds it; and
code is only ever created where the state has none. -/
theorem code_is_available (h : Built lib keccak256 state) :
    (∀ a resource, state.resources (.account a) = some (.account resource) →
      resource.codeHash ≠ keccakEmpty → ∃ bytes,
        state.resources (.code resource.codeHash) = some (.code bytes) ∧
          keccak256 bytes = resource.codeHash) ∧
    (∀ a resource hashByNumber number,
      state.resources (.account a) = some (.account resource) → ∃ bytes,
        ResolverBackedDB.codeByHashRef ⟨state, hashByNumber, number⟩ resource.codeHash =
          .ok bytes) ∧
    ∀ changes hash op, Yields lib keccak256 state changes →
      changes.accounts.lookup (.code hash) = some op →
        (∃ bytes, op = .new (.code bytes)) ∧ state.resources (.code hash) = none := by
  have hstored := codeStored_of_built h
  have hcode : ∀ a resource, state.resources (.account a) = some (.account resource) →
      resource.codeHash ≠ keccakEmpty → ∃ bytes,
        state.resources (.code resource.codeHash) = some (.code bytes) ∧
          keccak256 bytes = resource.codeHash := by
    intro a resource hresource hne
    obtain ⟨found, hfound, hempty | hexists⟩ := hstored.accounts a _ hresource
    · rw [ResourceValue.account.injEq] at hfound
      exact absurd (hfound ▸ hempty) hne
    · rw [ResourceValue.account.injEq] at hfound
      subst hfound
      obtain ⟨value, hvalue⟩ := Option.isSome_iff_exists.mp hexists
      obtain ⟨bytes, rfl, -, hhash⟩ := hstored.codes _ value hvalue
      exact ⟨bytes, hvalue, hhash⟩
  refine ⟨hcode, fun a resource hashByNumber number hresource => ?_,
    fun changes hash op hyields hop => ?_⟩
  · unfold ResolverBackedDB.codeByHashRef
    split_ifs with hempty
    · exact ⟨[], rfl⟩
    · obtain ⟨bytes, hbytes, -⟩ := hcode a resource hresource hempty
      exact ⟨bytes, by simp only [hbytes]⟩
  · obtain ⟨bytes, hnew, -, -, hexists⟩ := (covered_of_yields hstored hyields).codes hash op hop
    simp only [resourceExists, Bool.or_eq_false_iff, Option.isSome_eq_false_iff,
      Option.isNone_iff_eq_none] at hexists
    exact ⟨⟨bytes, hnew⟩, hexists.2⟩

end States

section Sample

open Extraction

/-- The hash of a contract that only stops. -/
def stopHash : B256 := 0xbc36789e7a1e281436464229828f817d6612f7b477d66591ff96a9e064bcc98a

def sampleKeccak (bytes : Bytes) : B256 := if bytes = [0] then stopHash else keccakEmpty

def sampleAlloc : Table Address GenesisAccount :=
  AList.singleton 0xc0ffee ⟨none, 0, some [0], none⟩

/-- A call that deploys the contract of the genesis account once more. -/
def deployAgain : StateMap :=
  AList.singleton 0xbeef ⟨⟨0, 1, stopHash, some [0]⟩, ∅, true, false⟩

theorem genesis_isSome :
    (genesisStateChanges sampleLib sampleKeccak sampleBase.toEvmState sampleAlloc).isSome := by
  decide +kernel

def genesisState : EvmState :=
  applyChanges sampleBase.toEvmState (Option.get _ genesis_isSome)

theorem deployAgain_isSome :
    (extractEvmChanges sampleLib sampleKeccak genesisState [deployAgain]).isSome := by
  decide +kernel

def sampleDeployed : EvmState := applyChanges genesisState (Option.get _ deployAgain_isSome)

theorem codesReported_deployAgain :
    CodesReported sampleKeccak genesisState [deployAgain] := by
  intro earlier map later hmaps a account haccount
  obtain ⟨rfl, rfl⟩ : earlier = [] ∧ map = deployAgain := by
    cases earlier with
    | nil => exact ⟨rfl, (List.cons.inj hmaps).1.symm⟩
    | cons first rest => simp at hmaps
  rw [persisted, deployAgain, lookup_singleton] at haccount
  split_ifs at haccount
  · obtain ⟨heq, -⟩ := Option.filter_eq_some_iff.mp haccount
    rw [Option.some.injEq] at heq
    subst heq
    exact .changed [0] rfl rfl
  · cases haccount

/-- Two accounts share their code, which is stored once. -/
theorem code_is_available_sample :
    Built sampleLib sampleKeccak sampleDeployed ∧
      sampleDeployed.resources (.account 0xbeef) =
        some (.account ⟨1, 0, stopHash, emptyRoot⟩) ∧
      ∃ bytes, sampleDeployed.resources (.code stopHash) = some (.code bytes) ∧
        sampleKeccak bytes = stopHash := by
  have hgenesis : Built sampleLib sampleKeccak genesisState :=
    .applied (.empty _) (.genesis sampleAlloc (Option.some_get _).symm)
  have hdeployed : Built sampleLib sampleKeccak sampleDeployed :=
    .applied hgenesis (.extracted [deployAgain] codesReported_deployAgain
      (Option.some_get _).symm)
  have haccount : sampleDeployed.resources (.account 0xbeef) =
      some (.account ⟨1, 0, stopHash, emptyRoot⟩) := by
    decide +kernel
  refine ⟨hdeployed, haccount, ?_⟩
  exact (code_is_available hdeployed).1 0xbeef _ haccount (by decide)

end Sample

end OpMove.EvmCode
