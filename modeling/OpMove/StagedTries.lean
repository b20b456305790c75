import OpMove.AccountProofs
import OpMove.HashedStores
import OpMove.HeadTail

/-!
The storage trie of an account over its staging database. All tries of one account share the
database: what a commit writes and removes goes to a buffer in memory, reads go to the buffer
first and to the inner database after it, and only applying changes writes to the inner one.
The trie library is a parameter. It is told what the database reads and gives back what it
writes; its laws are asked only of the contents at hand, since no hash is free of collisions.
-/

namespace OpMove.StagedTries

open Primitives ChangeSets StorageTries PayloadIds AccountProofs HeadTail HashedStores

section Databases

/-- A node database. -/
class DB (δ : Type) where
  get : δ → B256 → Option Bytes
  insert : δ → B256 → Bytes → δ
  remove : δ → B256 → δ

class DbWithRoot (δ : Type) extends DB δ where
  root : δ → Option B256
  putRoot : δ → B256 → δ

variable {δ : Type}

def insertBatch [DB δ] (db : δ) (keys : List B256) (values : List Bytes) : δ :=
  (keys.zip values).foldl (fun db entry => DB.insert db entry.1 entry.2) db

/-- Writes a set of nodes as one batch. -/
def insertNodes [DB δ] (db : δ) (nodes : Nodes) : δ :=
  insertBatch db (nodes.entries.map fun entry => entry.1) (nodes.entries.map fun entry => entry.2)

/-- Only a light database forgets what is removed. -/
structure MemoryDb where
  light : Bool
  storage : Nodes

def MemoryDb.new (light : Bool) : MemoryDb := ⟨light, ∅⟩

instance : DB MemoryDb where
  get db key := db.storage.lookup key
  insert db key value := { db with storage := db.storage.insert key value }
  remove db key := if db.light then { db with storage := db.storage.erase key } else db

structure InMemoryDb where
  root : Option B256
  db : MemoryDb

def InMemoryDb.empty : InMemoryDb := ⟨none, MemoryDb.new false⟩

instance : DbWithRoot InMemoryDb where
  get self key := DB.get self.db key
  insert self key value := { self with db := DB.insert self.db key value }
  remove self key := { self with db := DB.remove self.db key }
  root self := self.root
  putRoot self root := { self with root := some root }

/-- A buffer in front of a database that is only read. -/
structure StagingEthTrieDb (δ : Type) where
  memory : MemoryDb
  inner : δ

def StagingEthTrieDb.new (inner : δ) : StagingEthTrieDb δ := ⟨MemoryDb.new true, inner⟩

instance [DB δ] : DB (StagingEthTrieDb δ) where
  get self key :=
    match DB.get self.memory key with
    | some value => some value
    | none => DB.get self.inner key
  insert self key value := { self with memory := DB.insert self.memory key value }
  remove self key := { self with memory := DB.remove self.memory key }

instance [DbWithRoot δ] : DbWithRoot (StagingEthTrieDb δ) where
  root self := DbWithRoot.root self.inner
  putRoot self root := { self with inner := DbWithRoot.putRoot self.inner root }

end Databases

section Tries

/-- What a trie reads of its database. -/
abbrev View := Store B256 Bytes

/-- What a commit does: the nodes it writes, the nodes it then removes, and the trie and the
changes it returns. -/
structure Committed (τ : Type) where
  written : Nodes
  removed : List B256
  result : Option (τ × StorageTrieChanges)

/-- The trie library; `none` is an error, as for a node that the database does not have. -/
structure EthTrie (τ : Type) where
  new : τ
  openAt : View → B256 → Option τ
  get : View → τ → B256 → Option (Option Bytes)
  insert : View → τ → B256 → Bytes → Option τ
  remove : View → τ → B256 → Option τ
  commit : View → τ → Committed τ

/-- `decode_exact` of a word: no leading zeros, and at most 32 bytes. -/
def decodeExact (bytes : Bytes) : Option U256 := do
  let payload ← Rlp.decodeString bytes
  if payload.head? = some 0 then none
  else if 32 < payload.length then none
  else some (BitVec.ofNat 256 (beNat payload))

variable {δ τ : Type} [DbWithRoot δ] (lib : EthTrie τ) (keccak256 : Bytes → B256)

def trieKey (index : U256) : B256 := keccak256 (wordBytes index)

/-- The trie at the stored root, or a new one. -/
def forAccount (db : StagingEthTrieDb δ) : Option τ :=
  match DbWithRoot.root db with
  | some root => lib.openAt (DB.get db) root
  | none => some lib.new

namespace StorageTrie

def get (view : View) (trie : τ) (index : U256) : Option (Option U256) := do
  match ← lib.get view trie (trieKey keccak256 index) with
  | none => some none
  | some bytes => (decodeExact bytes).map some

/-- Inserting zero removes the slot. -/
def insert (view : View) (trie : τ) (index value : U256) : Option τ :=
  if value = 0 then lib.remove view trie (trieKey keccak256 index)
  else lib.insert view trie (trieKey keccak256 index) (wordRlp value)

/-- Everything the library writes and removes goes through the staging database. -/
def commit (db : StagingEthTrieDb δ) (trie : τ) :
    StagingEthTrieDb δ × Option (τ × StorageTrieChanges) :=
  let outcome := lib.commit (DB.get db) trie
  (outcome.removed.foldl DB.remove (insertNodes db outcome.written), outcome.result)

/-- A batch of nodes for the inner database, then the new root. -/
def apply (db : StagingEthTrieDb δ) (changes : StorageTrieChanges) : StagingEthTrieDb δ :=
  { db with inner := DbWithRoot.putRoot (insertNodes db.inner changes.trieDiff) changes.root }

end StorageTrie

/-- The staging databases of all accounts; one that was never asked for is empty. -/
abbrev InMemoryStorageTrieRepository := Address → StagingEthTrieDb InMemoryDb

namespace InMemoryStorageTrieRepository

def create : StagingEthTrieDb InMemoryDb := .new .empty

def new : InMemoryStorageTrieRepository := fun _ => create

/-- Account after account, in the order of the map; an error stops there, and what was applied
before it stays. -/
def apply (repository : InMemoryStorageTrieRepository) :
    List (Address × StorageTrieChanges) → InMemoryStorageTrieRepository × Option Unit
  | [] => (repository, some ())
  | (account, changes) :: rest =>
      match forAccount lib (repository account) with
      | none => (repository, none)
      | some _ =>
          apply (Function.update repository account
            (StorageTrie.apply (repository account) changes)) rest

end InMemoryStorageTrieRepository

end Tries

section Reads

theorem beNat_beBytes (n : ℕ) : beNat (Rlp.beBytes n) = n := by
  have hdigits : ∀ digits : List ℕ, (∀ d ∈ digits, d < 256) →
      leNat (digits.map UInt8.ofNat) = Nat.ofDigits 256 digits := by
    intro digits hlt
    induction digits with
    | nil => rfl
    | cons d digits ih =>
      have hd := hlt d List.mem_cons_self
      rw [List.map_cons, leNat, ih fun e he => hlt e (List.mem_cons_of_mem d he), Nat.ofDigits_cons,
        UInt8.toNat_ofNat', Nat.mod_eq_of_lt (by omega)]
  rw [beNat_eq_leNat_reverse, Rlp.beBytes, List.reverse_reverse,
    hdigits _ fun d hd => Nat.digits_lt_base (by norm_num) hd, Nat.ofDigits_digits]

theorem decodeExact_wordRlp (value : U256) : decodeExact (wordRlp value) = some value := by
  have hlength : (Rlp.beBytes value.toNat).length ≤ 32 :=
    Rlp.length_beBytes_le (value.isLt.trans_eq (by norm_num))
  have hpayload : Rlp.decodeString (wordRlp value) = some (Rlp.beBytes value.toNat) :=
    Rlp.decodeString_encodeString (hlength.trans (by omega))
  unfold decodeExact
  rw [hpayload, Option.bind_eq_bind, Option.bind_some, if_neg (Rlp.head?_beBytes value.toNat),
    if_neg (by omega), beNat_beBytes, BitVec.ofNat_toNat, BitVec.setWidth_eq]

theorem get_insert (db : MemoryDb) (key hash : B256) (value : Bytes) :
    DB.get (DB.insert db key value) hash = if hash = key then some value else DB.get db hash :=
  lookup_insert_if db.storage key value hash

theorem get_remove (db : MemoryDb) (key hash : B256) :
    DB.get (DB.remove db key) hash =
      if db.light ∧ hash = key then none else DB.get db hash := by
  show (if db.light then { db with storage := db.storage.erase key } else db).storage.lookup
    hash = _
  by_cases hlight : db.light
  · simp only [hlight, if_true, true_and]
    exact lookup_erase_if db.storage key hash
  · rw [if_neg hlight, if_neg (fun h => hlight h.1)]
    rfl

theorem insertNodes_eq {δ : Type} [DB δ] (db : δ) (nodes : Nodes) :
    insertNodes db nodes =
      nodes.entries.foldl (fun db entry => DB.insert db entry.1 entry.2) db := by
  unfold insertNodes insertBatch
  rw [List.zip_map', List.foldl_map]

/-- Nodes that are written stand in front of what was there. -/
theorem get_insertNodes (db : MemoryDb) (nodes : Nodes) :
    DB.get (insertNodes db nodes) = overlay (fun hash => nodes.lookup hash) (DB.get db) := by
  have hentries : ∀ (entries : List (Sigma fun _ : B256 => Bytes)), entries.NodupKeys →
      ∀ (db : MemoryDb) (hash : B256),
        DB.get (entries.foldl (fun db entry => DB.insert db entry.1 entry.2) db) hash =
          (entries.dlookup hash).or (DB.get db hash) := by
    intro entries
    induction entries with
    | nil => exact fun _ db hash => rfl
    | cons entry entries ih =>
      intro hnodup db hash
      obtain ⟨hfresh, hrest⟩ := List.nodupKeys_cons.mp hnodup
      rw [List.foldl_cons, ih hrest, get_insert]
      by_cases hhash : hash = entry.1
      · subst hhash
        have hnone : List.dlookup entry.1 entries = none := List.dlookup_eq_none.mpr hfresh
        rw [hnone, if_pos rfl, Option.none_or, List.dlookup_cons_eq, Option.some_or]
      · rw [if_neg hhash, List.dlookup_cons_ne entries entry hhash]
  funext hash
  rw [insertNodes_eq]
  exact hentries nodes.entries nodes.nodupKeys db hash

/-- Removing gives nothing a new reading. -/
theorem get_of_get_removed {keys : List B256} {db : MemoryDb} {hash : B256} {bytes : Bytes}
    (h : DB.get (keys.foldl DB.remove db) hash = some bytes) : DB.get db hash = some bytes := by
  induction keys generalizing db with
  | nil => exact h
  | cons key keys ih =>
    have hget := ih h
    rw [get_remove] at hget
    split_ifs at hget
    exact hget

variable {δ : Type}

theorem insertNodes_inMemory (db : InMemoryDb) (nodes : Nodes) :
    insertNodes db nodes = { db with db := insertNodes db.db nodes } := by
  rw [insertNodes_eq, insertNodes_eq]
  refine List.foldl_hom (fun memory => { db with db := memory }) ?_
  intro memory entry
  rfl

theorem insertNodes_staging [DB δ] (db : StagingEthTrieDb δ) (nodes : Nodes) :
    insertNodes db nodes = { db with memory := insertNodes db.memory nodes } := by
  rw [insertNodes_eq, insertNodes_eq]
  refine List.foldl_hom (fun memory => { db with memory := memory }) ?_
  intro memory entry
  rfl

theorem removed_staging [DB δ] (db : StagingEthTrieDb δ) (keys : List B256) :
    keys.foldl DB.remove db = { db with memory := keys.foldl DB.remove db.memory } :=
  List.foldl_hom (fun memory => { db with memory := memory }) fun _ _ => rfl

theorem get_staging [DB δ] (db : StagingEthTrieDb δ) :
    DB.get db = overlay (DB.get db.memory) (DB.get db.inner) := by
  funext hash
  show (match DB.get db.memory hash with
    | some value => some value
    | none => DB.get db.inner hash) = (DB.get db.memory hash).or (DB.get db.inner hash)
  cases DB.get db.memory hash <;> rfl

/-- A commit leaves the inner database alone. -/
theorem commit_inner {τ : Type} [DbWithRoot δ] (lib : EthTrie τ) (db : StagingEthTrieDb δ)
    (trie : τ) : (StorageTrie.commit lib db trie).1.inner = db.inner := by
  simp only [StorageTrie.commit, insertNodes_staging, removed_staging]

/-- What the buffer has after a commit was in it or was written by the commit. -/
theorem get_commit_memory {τ : Type} [DbWithRoot δ] (lib : EthTrie τ) {db : StagingEthTrieDb δ}
    {trie : τ} {hash : B256} {bytes : Bytes}
    (h : DB.get (StorageTrie.commit lib db trie).1.memory hash = some bytes) :
    overlay (fun hash => (lib.commit (DB.get db) trie).written.lookup hash) (DB.get db.memory)
      hash = some bytes := by
  simp only [StorageTrie.commit, insertNodes_staging, removed_staging] at h
  rw [← get_insertNodes]
  exact get_of_get_removed h

/-- Applying changes leaves the buffer alone. -/
theorem apply_inner (db : StagingEthTrieDb InMemoryDb) (changes : StorageTrieChanges) :
    (StorageTrie.apply db changes).memory = db.memory ∧
      (StorageTrie.apply db changes).inner.root = some changes.root ∧
      DB.get (StorageTrie.apply db changes).inner =
        overlay (fun hash => changes.trieDiff.lookup hash) (DB.get db.inner) := by
  refine ⟨rfl, rfl, ?_⟩
  rw [StorageTrie.apply, insertNodes_inMemory]
  exact get_insertNodes db.inner.db changes.trieDiff

/-- The inner database changes as the database of one account does without a buffer. -/
theorem apply_eq_trieDb (db : StagingEthTrieDb InMemoryDb) (changes : StorageTrieChanges) :
    let applied := TrieDb.apply ⟨db.inner.root, db.inner.db.storage⟩ changes
    (StorageTrie.apply db changes).inner.root = applied.root ∧
      ∀ hash, DB.get (StorageTrie.apply db changes).inner hash = applied.nodes.lookup hash := by
  obtain ⟨-, hroot, hget⟩ := apply_inner db changes
  refine ⟨hroot, fun hash => ?_⟩
  rw [hget]
  exact (lookup_union_or changes.trieDiff db.inner.db.storage hash).symm

end Reads

section Laws

/-- What a storage trie has under the hashes of the slots. -/
abbrev Content := B256 → Option Bytes

/-- What the tries of the library stand for: the content that a trie was opened with or had at its
last commit, its content with the inserts since then, the root and the nodes of a content, and the
hashes that a node refers to. A new trie was opened with nothing. -/
structure Meaning (τ : Type) where
  loaded : τ → Option Content
  content : τ → Content
  root : Content → B256
  nodes : Content → View
  refs : Bytes → List B256

variable {τ : Type}

/-- Nothing is read in place of a node of a content that occurs. -/
def Meaning.Sound (m : Meaning τ) (occurs : Content → Prop) (view : View) : Prop :=
  ∀ content, occurs content → Compatible view (m.nodes content)

def Meaning.Known (m : Meaning τ) (occurs : Content → Prop) (trie : τ) : Prop :=
  occurs (m.content trie) ∧ ∀ old ∈ m.loaded trie, occurs old

/-- Every node of the new content is one of the old content or in the diff. -/
def Meaning.Covers (m : Meaning τ) (old : Option Content) (new : Content) (diff : Nodes) : Prop :=
  ∀ hash node, m.nodes new hash = some node →
    (∃ content ∈ old, m.nodes content hash = some node) ∨ diff.lookup hash = some node

/-- The documented behaviour of the library on the contents that occur: nodes are stored and
looked up by their hashes, a trie opens at a root whose nodes are there, and a commit writes
changed nodes, may remove any, and returns every node that is new. -/
structure EthTrie.Lawful (lib : EthTrie τ) (m : Meaning τ) (occurs : Content → Prop) : Prop where
  closed : ∀ content, occurs content → Closed m.refs (m.nodes content) (m.root content)
  hashed : ∀ content, occurs content → m.Sound occurs (m.nodes content)
  new : m.loaded lib.new = none ∧ m.content lib.new = fun _ => none
  opens : ∀ view content, occurs content → Has view (m.nodes content) →
    ∃ trie, lib.openAt view (m.root content) = some trie ∧
      m.loaded trie = some content ∧ m.content trie = content
  get : ∀ view trie key, (∀ old ∈ m.loaded trie, occurs old ∧ Has view (m.nodes old)) →
    lib.get view trie key = some (m.content trie key)
  insert : ∀ view trie key value trie', m.Sound occurs view → m.Known occurs trie → value ≠ [] →
    lib.insert view trie key value = some trie' →
      m.loaded trie' = m.loaded trie ∧
        m.content trie' = Function.update (m.content trie) key (some value)
  remove : ∀ view trie key trie', m.Sound occurs view → m.Known occurs trie →
    lib.remove view trie key = some trie' →
      m.loaded trie' = m.loaded trie ∧
        m.content trie' = Function.update (m.content trie) key none
  written : ∀ view trie, m.Sound occurs view → m.Known occurs trie →
    m.Sound occurs fun hash => (lib.commit view trie).written.lookup hash
  commit : ∀ view trie trie' changes, m.Sound occurs view → m.Known occurs trie →
    (lib.commit view trie).result = some (trie', changes) →
      m.loaded trie' = some (m.content trie) ∧ m.content trie' = m.content trie ∧
        changes.root = m.root (m.content trie) ∧
        (m.Sound occurs fun hash => changes.trieDiff.lookup hash) ∧
        m.Covers (m.loaded trie) (m.content trie) changes.trieDiff

variable {lib : EthTrie τ} {m : Meaning τ} {occurs : Content → Prop}

/-- A root stands for one content. -/
theorem root_injective (hlawful : lib.Lawful m occurs) {a b : Content} (ha : occurs a)
    (hb : occurs b) (h : m.root a = m.root b) : a = b := by
  -- one view that has the nodes of both
  have hhas : Has (overlay (m.nodes a) (m.nodes b)) (m.nodes a) :=
    has_overlay_of_either (hlawful.hashed a ha a ha) fun key node hnode => Or.inl hnode
  have hhas' : Has (overlay (m.nodes a) (m.nodes b)) (m.nodes b) :=
    has_overlay (hlawful.hashed a ha b hb) fun key node hnode => hnode
  obtain ⟨trie, hopen, hloaded, -⟩ := hlawful.opens _ a ha hhas
  obtain ⟨trie', hopen', hloaded', -⟩ := hlawful.opens _ b hb hhas'
  rw [h, hopen', Option.some.injEq] at hopen
  rw [← hopen, hloaded', Option.some.injEq] at hloaded
  exact hloaded.symm

/-- The content after an insert. -/
def put (keccak256 : Bytes → B256) (content : Content) (entry : U256 × U256) : Content :=
  Function.update content (trieKey keccak256 entry.1) (leafOf entry.2)

theorem wordRlp_ne_nil (value : U256) : wordRlp value ≠ [] := by
  intro h
  have hdecode := decodeExact_wordRlp value
  rw [h] at hdecode
  cases hdecode

theorem insert_content (hlawful : lib.Lawful m occurs) (keccak256 : Bytes → B256) {view : View}
    {trie trie' : τ} {index value : U256} (hview : m.Sound occurs view)
    (hknown : m.Known occurs trie)
    (h : StorageTrie.insert lib keccak256 view trie index value = some trie') :
    m.loaded trie' = m.loaded trie ∧
      m.content trie' = put keccak256 (m.content trie) (index, value) := by
  unfold StorageTrie.insert at h
  unfold put leafOf
  split_ifs at h with hzero
  · rw [if_pos hzero]
    exact hlawful.remove view trie _ trie' hview hknown h
  · rw [if_neg hzero]
    exact hlawful.insert view trie _ _ trie' hview hknown (wordRlp_ne_nil value) h

theorem get_slot (hlawful : lib.Lawful m occurs) (keccak256 : Bytes → B256) {view : View}
    {trie : τ} {index : U256} {value : Option U256}
    (hhas : ∀ old ∈ m.loaded trie, occurs old ∧ Has view (m.nodes old))
    (hvalue : m.content trie (trieKey keccak256 index) = value.map wordRlp) :
    StorageTrie.get lib keccak256 view trie index = some value := by
  unfold StorageTrie.get
  rw [hlawful.get view trie _ hhas, hvalue]
  cases value with
  | none => rfl
  | some value => simp [decodeExact_wordRlp]

end Laws

end OpMove.StagedTries
