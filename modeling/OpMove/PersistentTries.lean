import OpMove.Databases
import OpMove.StorageSessions

/-!
Storage tries on disk. The nodes of all accounts are in one table, each under the address of its
account and its hash, and the roots are in a second one; nothing is ever taken out. Unlike in
memory, each trie that is opened has a buffer of its own. Applying changes is two writes for each
account, the nodes as one batch and then the root, and the process may end between any two writes:
what was opened and committed is lost, and the tables stay as they are. Whatever happens, a root
that was stored once can be opened from then on and reads as it did then.
-/

namespace OpMove.PersistentTries

open Primitives ChangeSets StateChanges StorageTries Extraction PayloadIds AccountProofs
open HashedStores StagedTries StorageSessions Traces

section Tables

/-- The tables `evm_storage_trie` and `evm_storage_trie_root`. -/
structure Env where
  trie : Table Bytes Bytes
  root : Table Address B256

/-- The storage trie of one account; the databases of `heed` and of `rocksdb` are alike. -/
structure EthStorageTrieDb where
  env : Env
  account : Address

abbrev HeedEthStorageTrieDb := EthStorageTrieDb
abbrev RocksEthStorageTrieDb := EthStorageTrieDb

def uniqueKey (account : Address) (key : B256) : Bytes := addressBytes account ++ wordBytes key

/-- Removing is ignored, so that historical nodes stay. -/
instance : DB EthStorageTrieDb where
  get db key := db.env.trie.lookup (uniqueKey db.account key)
  insert db key value :=
    { db with env := { db.env with trie := db.env.trie.insert (uniqueKey db.account key) value } }
  remove db _ := db

instance : DbWithRoot EthStorageTrieDb where
  root db := db.env.root.lookup db.account
  putRoot db root := { db with env := { db.env with root := db.env.root.insert db.account root } }

/-- `StorageTrieDb::db`: a new buffer over the tables. -/
def Env.db (env : Env) (account : Address) : StagingEthTrieDb EthStorageTrieDb :=
  .new ⟨env, account⟩

/-- One write to the tables; each of them is atomic. -/
inductive TrieWrite
  | insertBatch (account : Address) (nodes : Nodes)
  | putRoot (account : Address) (root : B256)

def TrieWrite.apply (write : TrieWrite) (env : Env) : Env :=
  match write with
  | .insertBatch account nodes => (insertNodes (⟨env, account⟩ : EthStorageTrieDb) nodes).env
  | .putRoot account root => (DbWithRoot.putRoot (⟨env, account⟩ : EthStorageTrieDb) root).env

variable {τ : Type} (lib : EthTrie τ) (keccak256 : Bytes → B256)

/-- The trie of an account is opened, then the changes are written. -/
def applyAccount (env : Env) (change : Address × StorageTrieChanges) : Trace TrieWrite Env := do
  let _ ← .ofOption (forAccount lib (env.db change.1))
  let nodes := TrieWrite.insertBatch change.1 change.2.trieDiff
  Trace.emit nodes
  let root := TrieWrite.putRoot change.1 change.2.root
  Trace.emit root
  pure (root.apply (nodes.apply env))

/-- `StorageTrieRepository::apply`, with what it writes. -/
def apply (env : Env) (changes : List (Address × StorageTrieChanges)) : Trace TrieWrite Env :=
  changes.foldlM (applyAccount lib) env

/-- `for_account_with_root`. -/
def forAccountWithRoot (env : Env) (account : Address) (root : B256) : Option τ :=
  lib.openAt (DB.get (env.db account)) root

end Tables

section Worlds

/-- An open trie with its buffer. -/
structure Opened (τ : Type) where
  session : Session τ
  memory : MemoryDb

/-- A root that was stored, with all inserts that were applied to its account until then. -/
structure Stored where
  root : B256
  inserts : List (U256 × U256)

/-- `history` has the roots that were stored for an account, the last one first. -/
structure World (τ : Type) where
  env : Env
  sessions : ℕ → Option (Opened τ)
  offers : List Offer
  history : Address → List Stored

inductive Action
  | forAccount (id : ℕ) (account : Address)
  | forAccountWithRoot (id : ℕ) (account : Address) (root : B256)
  | insert (id : ℕ) (index value : U256)
  | commit (id : ℕ)
  | discard (id : ℕ)
  | withTrieChanges (earlier later : Offer)
  | apply (batch : List Offer)
  | interrupt (batch : List Offer) (count : ℕ)

variable {τ : Type} (lib : EthTrie τ) (keccak256 : Bytes → B256)

/-- The inserts that were applied to an account. -/
def applied (history : List Stored) : List (U256 × U256) :=
  (history.head?.map Stored.inserts).getD []

def record (history : Address → List Stored) (offer : Offer) : Address → List Stored :=
  Function.update history offer.account
    (⟨offer.changes.root, applied (history offer.account) ++ offer.inserts⟩ ::
      history offer.account)

namespace World

def start : World τ := ⟨⟨∅, ∅⟩, fun _ => none, [], fun _ => []⟩

def putSession (world : World τ) (id : ℕ) (opened : Option (Opened τ)) : World τ :=
  { world with sessions := Function.update world.sessions id opened }

/-- What a trie reads and writes: its own buffer, and the tables behind it. -/
def staging (world : World τ) (opened : Opened τ) : StagingEthTrieDb EthStorageTrieDb :=
  ⟨opened.memory, ⟨world.env, opened.session.account⟩⟩

/-- The writes for a batch, as far as they are made. Every second one stores a root. -/
def store (world : World τ) (batch : List Offer) (writes : List TrieWrite) : World τ :=
  { world with
    env := Trace.after TrieWrite.apply writes world.env
    history := (batch.take (writes.length / 2)).foldl record world.history }

/-- What `apply` writes for a batch. -/
def writesOf (world : World τ) (batch : List Offer) : List TrieWrite :=
  (PersistentTries.apply lib world.env
    (batch.map fun offer => (offer.account, offer.changes))).writes

def step (world : World τ) : Action → World τ
  | .forAccount id account =>
      let db := world.env.db account
      world.putSession id ((StagedTries.forAccount lib db).map fun trie =>
        ⟨⟨account, trie, DbWithRoot.root db, []⟩, db.memory⟩)
  | .forAccountWithRoot id account root =>
      world.putSession id ((PersistentTries.forAccountWithRoot lib world.env account root).map
        fun trie => ⟨⟨account, trie, some root, []⟩, (world.env.db account).memory⟩)
  | .insert id index value =>
      match world.sessions id with
      | none => world
      | some opened =>
          let ⟨session, memory⟩ := opened
          let view := DB.get (world.staging opened)
          world.putSession id
            ((StorageTrie.insert lib keccak256 view session.trie index value).map fun trie =>
              ⟨{ session with trie := trie, inserts := session.inserts ++ [(index, value)] },
                memory⟩)
  | .commit id =>
      match world.sessions id with
      | none => world
      | some opened =>
          let session := opened.session
          match StorageTrie.commit lib (world.staging opened) session.trie with
          | (_, none) => world.putSession id none
          | (db, some (trie, changes)) =>
              let world := world.putSession id
                (some ⟨⟨session.account, trie, some changes.root, []⟩, db.memory⟩)
              { world with
                offers :=
                  ⟨session.account, session.base, session.inserts, changes⟩ :: world.offers }
  | .discard id => world.putSession id none
  | .withTrieChanges earlier later =>
      { world with
        offers := ⟨earlier.account, earlier.base, earlier.inserts ++ later.inserts,
          earlier.changes.add later.changes⟩ :: world.offers }
  | .apply batch => world.store batch (world.writesOf lib batch)
  | .interrupt batch count =>
      { world.store batch ((world.writesOf lib batch).take count) with
        sessions := fun _ => none
        offers := [] }

/-- What a new trie of the account gives for a slot. -/
def read (world : World τ) (account : Address) (index : U256) : Option (Option U256) := do
  let trie ← forAccount lib (world.env.db account)
  StorageTrie.get lib keccak256 (DB.get (world.env.db account)) trie index

/-- What the trie of the account at some root gives for a slot. -/
def readAt (world : World τ) (account : Address) (root : B256) (index : U256) :
    Option (Option U256) := do
  let trie ← PersistentTries.forAccountWithRoot lib world.env account root
  StorageTrie.get lib keccak256 (DB.get (world.env.db account)) trie index

end World

/-- Inserts are to the slots in use, and tries are opened at roots that were stored. A batch has
one entry for each of its accounts, computed from the root that is stored for it. -/
def Allowed (used : Set U256) (world : World τ) : Action → Prop
  | .forAccountWithRoot _ account root => ∃ stored ∈ world.history account, stored.root = root
  | .insert _ index _ => index ∈ used
  | .withTrieChanges earlier later =>
      earlier ∈ world.offers ∧ later ∈ world.offers ∧ later.account = earlier.account ∧
        later.base = some earlier.changes.root
  | .apply batch | .interrupt batch _ =>
      (batch.map Offer.account).Nodup ∧ ∀ offer ∈ batch, offer ∈ world.offers ∧
        offer.base = DbWithRoot.root (world.env.db offer.account)
  | _ => True

/-- The worlds of the runs in which the tries only have contents that occur. -/
inductive Runs (m : Meaning τ) (occurs : Content → Prop) (used : Set U256) : World τ → Prop
  | start : Runs m occurs used World.start
  | step {world : World τ} {action : Action} : Runs m occurs used world →
      Allowed used world action →
      (∀ id opened, (world.step lib keccak256 action).sessions id = some opened →
        occurs (m.content opened.session.trie)) →
      Runs m occurs used (world.step lib keccak256 action)

end Worlds

section Accounts

theorem uniqueKey_inj {account other : Address} {key hash : B256}
    (h : uniqueKey account key = uniqueKey other hash) : account = other ∧ key = hash := by
  obtain ⟨haccount, hkey⟩ := List.append_inj h (by simp only [length_addressBytes])
  exact ⟨addressBytes_inj haccount, wordBytes_inj hkey⟩

/-- The nodes of an account. -/
def Env.nodes (env : Env) (account : Address) : View := DB.get (⟨env, account⟩ : EthStorageTrieDb)

theorem get_db (env : Env) (account : Address) : DB.get (env.db account) = env.nodes account := by
  funext key
  rfl

theorem get_insert (db : EthStorageTrieDb) (key hash : B256) (value : Bytes) (other : Address) :
    (DB.insert db key value).env.nodes other hash =
      if other = db.account ∧ hash = key then some value else db.env.nodes other hash := by
  show (db.env.trie.insert (uniqueKey db.account key) value).lookup (uniqueKey other hash) = _
  rw [lookup_insert_if]
  by_cases hsame : other = db.account ∧ hash = key
  · rw [if_pos hsame, hsame.1, hsame.2, if_pos rfl]
  · rw [if_neg hsame, if_neg fun h => hsame (uniqueKey_inj h)]
    rfl

/-- A batch of nodes stands in front of those of its account, and the other accounts keep theirs. -/
theorem nodes_insertBatch (env : Env) (account other : Address) (nodes : Nodes) :
    (TrieWrite.apply (.insertBatch account nodes) env).nodes other =
      if other = account then overlay (fun hash => nodes.lookup hash) (env.nodes account)
      else env.nodes other := by
  have hentries : ∀ (entries : List (Sigma fun _ : B256 => Bytes)), entries.NodupKeys →
      ∀ (db : EthStorageTrieDb) (hash : B256), db.account = account →
        (entries.foldl (fun db entry => DB.insert db entry.1 entry.2) db).env.nodes other hash =
          if other = account then (entries.dlookup hash).or (db.env.nodes other hash)
          else db.env.nodes other hash := by
    intro entries
    induction entries with
    | nil =>
      intro _ db hash _
      by_cases hother : other = account
      · rw [if_pos hother]
        rfl
      · rw [if_neg hother]
        rfl
    | cons entry entries ih =>
      intro hnodup db hash haccount
      obtain ⟨hfresh, hrest⟩ := List.nodupKeys_cons.mp hnodup
      rw [List.foldl_cons, ih hrest (DB.insert db entry.1 entry.2) hash haccount, get_insert,
        haccount]
      by_cases hother : other = account
      · rw [if_pos hother, if_pos hother]
        by_cases hhash : hash = entry.1
        · subst hhash
          have hnone : List.dlookup entry.1 entries = none := List.dlookup_eq_none.mpr hfresh
          rw [hnone, if_pos ⟨hother, rfl⟩, Option.none_or, List.dlookup_cons_eq, Option.some_or]
        · rw [if_neg fun h => hhash h.2, List.dlookup_cons_ne entries entry hhash]
      · rw [if_neg hother, if_neg hother, if_neg fun h => hother h.1]
  funext hash
  show (insertNodes (⟨env, account⟩ : EthStorageTrieDb) nodes).env.nodes other hash = _
  rw [insertNodes_eq, hentries nodes.entries nodes.nodupKeys ⟨env, account⟩ hash rfl]
  by_cases hother : other = account
  · rw [if_pos hother, if_pos hother, hother]
    rfl
  · rw [if_neg hother, if_neg hother]

theorem root_insertBatch (env : Env) (account : Address) (nodes : Nodes) :
    (TrieWrite.apply (.insertBatch account nodes) env).root = env.root := by
  show (insertNodes (⟨env, account⟩ : EthStorageTrieDb) nodes).env.root = env.root
  rw [insertNodes_eq]
  exact List.foldlRecOn nodes.entries _ (motive := fun db : EthStorageTrieDb =>
    db.env.root = env.root) rfl fun db h entry _ => h

theorem root_putRoot (env : Env) (account other : Address) (root : B256) :
    (TrieWrite.apply (.putRoot account root) env).root.lookup other =
      if other = account then some root else env.root.lookup other :=
  lookup_insert_if env.root account root other

theorem nodes_putRoot (env : Env) (account other : Address) (root : B256) :
    (TrieWrite.apply (.putRoot account root) env).nodes other = env.nodes other := rfl

end Accounts

section Refinement

open Databases

/-- The write to the state of a node that has one database for each account. -/
def TrieWrite.toState : TrieWrite → StateWrite
  | .insertBatch account nodes => .storageNodes account nodes
  | .putRoot account root => .storageRoot account root

/-- The tables have what the databases of the accounts have. -/
def Refines (env : Env) (state : StoredState) : Prop :=
  ∀ account, env.root.lookup account = (state.evmStorage account).root ∧
    ∀ hash, env.nodes account hash = (state.evmStorage account).nodes.lookup hash

variable (engine : Engine) (rootHash : StateTrie.Tree → B256)

theorem refines_write {env : Env} {state : StoredState} (h : Refines env state)
    (write : TrieWrite) :
    Refines (write.apply env) (write.toState.apply engine rootHash state) := by
  intro other
  obtain ⟨hroot, hnodes⟩ := h other
  cases write with
  | insertBatch account nodes =>
    rw [root_insertBatch, nodes_insertBatch]
    show _ = (Function.update state.evmStorage account _ other).root ∧
      ∀ hash, _ = (Function.update state.evmStorage account _ other).nodes.lookup hash
    by_cases hother : other = account
    · subst hother
      rw [Function.update_self, if_pos rfl]
      refine ⟨hroot, fun hash => ?_⟩
      rw [lookup_union_or, ← hnodes]
      rfl
    · rw [Function.update_of_ne hother, if_neg hother]
      exact ⟨hroot, hnodes⟩
  | putRoot account root =>
    rw [root_putRoot, nodes_putRoot]
    show _ = (Function.update state.evmStorage account _ other).root ∧
      ∀ hash, _ = (Function.update state.evmStorage account _ other).nodes.lookup hash
    by_cases hother : other = account
    · subst hother
      rw [Function.update_self, if_pos rfl]
      exact ⟨rfl, hnodes⟩
    · rw [Function.update_of_ne hother, if_neg hother]
      exact ⟨hroot, hnodes⟩

/-- One table with the address in front of each key does the work of a database for each account,
whatever is written and in whichever order. -/
theorem tables_refine_databases (writes : List TrieWrite) :
    Refines (Trace.after TrieWrite.apply writes ⟨∅, ∅⟩)
      (Trace.after (StateWrite.apply engine rootHash) (writes.map TrieWrite.toState)
        Database.new.state) := by
  have hrun : ∀ (env : Env) (state : StoredState), Refines env state →
      Refines (Trace.after TrieWrite.apply writes env)
        (Trace.after (StateWrite.apply engine rootHash) (writes.map TrieWrite.toState) state) := by
    induction writes with
    | nil => exact fun env state h => h
    | cons write writes ih =>
      exact fun env state h => ih _ _ (refines_write engine rootHash h write)
  exact hrun _ _ fun account => ⟨rfl, fun hash => rfl⟩

end Refinement

section Invariants

variable {τ : Type} (m : Meaning τ) (occurs : Content → Prop) (keccak256 : Bytes → B256)
  (used : Set U256)

/-- The root stands for what the inserts lead to, and its nodes are all there. -/
structure StoredOk (nodes : View) (stored : Stored) : Prop where
  root : stored.root = m.root (contentAfter keccak256 none stored.inserts)
  occurs : occurs (contentAfter keccak256 none stored.inserts)
  nodes : Has nodes (m.nodes (contentAfter keccak256 none stored.inserts))
  used : ∀ entry ∈ stored.inserts, entry.1 ∈ used

structure AccountOk (env : Env) (account : Address) (history : List Stored) : Prop where
  sound : m.Sound occurs (env.nodes account)
  root : env.root.lookup account = history.head?.map Stored.root
  stored : ∀ stored ∈ history, StoredOk m occurs keccak256 used (env.nodes account) stored

def EnvOk (env : Env) (history : Address → List Stored) : Prop :=
  ∀ account, AccountOk m occurs keccak256 used env account (history account)

structure OpenedOk (opened : Opened τ) : Prop where
  session : SessionOk m occurs keccak256 used opened.session
  memory : m.Sound occurs (DB.get opened.memory)

structure Invariant (world : World τ) : Prop where
  env : EnvOk m occurs keccak256 used world.env world.history
  sessions : ∀ id opened, world.sessions id = some opened →
    OpenedOk m occurs keccak256 used opened
  offers : ∀ offer ∈ world.offers, ∃ old, OfferOk m occurs keccak256 used offer old

variable {m occurs keccak256 used} {lib : EthTrie τ}

section Histories

variable {env : Env} {account : Address} {history : List Stored}

/-- The content at the present root. -/
def present (keccak256 : Bytes → B256) (history : List Stored) : Option Content :=
  history.head?.map fun stored => contentAfter keccak256 none stored.inserts

theorem contentAfter_present (inserts : List (U256 × U256)) :
    contentAfter keccak256 (present keccak256 history) inserts =
      contentAfter keccak256 none (applied history ++ inserts) := by
  rw [contentAfter_append]
  cases history with
  | nil => rfl
  | cons stored history => rfl

theorem AccountOk.present_root (h : AccountOk m occurs keccak256 used env account history) :
    env.root.lookup account = (present keccak256 history).map m.root := by
  rw [h.root]
  cases history with
  | nil => rfl
  | cons stored history => exact congrArg some (h.stored stored List.mem_cons_self).root

theorem AccountOk.present_ok (h : AccountOk m occurs keccak256 used env account history) :
    ∀ content ∈ present keccak256 history,
      occurs content ∧ Has (env.nodes account) (m.nodes content) := by
  intro content hcontent
  obtain ⟨stored, hstored, rfl⟩ := Option.map_eq_some_iff.mp hcontent
  have hok := h.stored stored (List.mem_of_mem_head? hstored)
  exact ⟨hok.occurs, hok.nodes⟩

theorem AccountOk.applied_used (h : AccountOk m occurs keccak256 used env account history) :
    ∀ entry ∈ applied history, entry.1 ∈ used := by
  intro entry hentry
  cases history with
  | nil => cases hentry
  | cons stored history => exact (h.stored stored List.mem_cons_self).used entry hentry

theorem StoredOk.opens (hlawful : lib.Lawful m occurs) {stored : Stored}
    (h : StoredOk m occurs keccak256 used (env.nodes account) stored) :
    ∃ trie, forAccountWithRoot lib env account stored.root = some trie ∧
      m.loaded trie = some (contentAfter keccak256 none stored.inserts) ∧
      m.content trie = contentAfter keccak256 none stored.inserts := by
  unfold forAccountWithRoot
  rw [get_db, h.root]
  exact hlawful.opens (env.nodes account) _ h.occurs h.nodes

/-- The trie of an account opens with what was applied to it. -/
theorem AccountOk.opens (hlawful : lib.Lawful m occurs)
    (h : AccountOk m occurs keccak256 used env account history) :
    ∃ trie, forAccount lib (env.db account) = some trie ∧
      m.loaded trie = present keccak256 history ∧
      m.content trie = contentAfter keccak256 none (applied history) := by
  unfold forAccount
  have hroot : DbWithRoot.root (env.db account) = history.head?.map Stored.root := h.root
  rw [hroot]
  cases history with
  | nil => exact ⟨lib.new, rfl, hlawful.new.1, hlawful.new.2⟩
  | cons stored history =>
    exact (h.stored stored List.mem_cons_self).opens hlawful

end Histories

section Writes

variable {env : Env} {history : Address → List Stored}

theorem envOk_start : EnvOk m occurs keccak256 used (World.start : World τ).env fun _ => [] :=
  fun account => {
    sound := fun content _ => compatible_empty (m.nodes content)
    root := rfl
    stored := fun stored hstored => by cases hstored }

theorem StoredOk.of_has {nodes nodes' : View} {stored : Stored}
    (h : StoredOk m occurs keccak256 used nodes stored)
    (hhas : Has nodes' (m.nodes (contentAfter keccak256 none stored.inserts))) :
    StoredOk m occurs keccak256 used nodes' stored := ⟨h.root, h.occurs, hhas, h.used⟩

/-- New nodes hide none of those that are there, whether or not a root follows. -/
theorem EnvOk.insertBatch (h : EnvOk m occurs keccak256 used env history) (account : Address)
    {nodes : Nodes} (hnodes : m.Sound occurs fun hash => nodes.lookup hash) :
    EnvOk m occurs keccak256 used (TrieWrite.apply (.insertBatch account nodes) env) history := by
  intro other
  have hother := h other
  have hview := nodes_insertBatch env account other nodes
  by_cases hsame : other = account
  · subst hsame
    rw [if_pos rfl] at hview
    refine ⟨fun content hcontent => ?_, ?_, fun stored hstored => ?_⟩
    · rw [hview]
      exact (hnodes content hcontent).overlay (hother.sound content hcontent)
    · rw [root_insertBatch]
      exact hother.root
    · have hok := hother.stored stored hstored
      refine hok.of_has ?_
      rw [hview]
      exact has_overlay (hnodes _ hok.occurs) hok.nodes
  · rw [if_neg hsame] at hview
    refine ⟨?_, ?_, ?_⟩
    · rw [hview]
      exact hother.sound
    · rw [root_insertBatch]
      exact hother.root
    · rw [hview]
      exact hother.stored

theorem EnvOk.putRoot (h : EnvOk m occurs keccak256 used env history) {account : Address}
    {stored : Stored} (hstored : StoredOk m occurs keccak256 used (env.nodes account) stored) :
    EnvOk m occurs keccak256 used (TrieWrite.apply (.putRoot account stored.root) env)
      (Function.update history account (stored :: history account)) := by
  intro other
  have hother := h other
  have hroot := root_putRoot env account other stored.root
  by_cases hsame : other = account
  · subst hsame
    rw [Function.update_self]
    refine ⟨hother.sound, ?_, ?_⟩
    · rw [hroot, if_pos rfl]
      rfl
    · exact List.forall_mem_cons.mpr ⟨hstored, hother.stored⟩
  · rw [Function.update_of_ne hsame]
    refine ⟨hother.sound, ?_, hother.stored⟩
    rw [hroot, if_neg hsame]
    exact hother.root

/-- Both writes for changes that were computed from the present root. -/
theorem EnvOk.record (hlawful : lib.Lawful m occurs)
    (h : EnvOk m occurs keccak256 used env history) {offer : Offer} {old : Option Content}
    (hoffer : OfferOk m occurs keccak256 used offer old)
    (hbase : offer.base = DbWithRoot.root (env.db offer.account)) :
    EnvOk m occurs keccak256 used
      (TrieWrite.apply (.putRoot offer.account offer.changes.root)
        (TrieWrite.apply (.insertBatch offer.account offer.changes.trieDiff) env))
      (PersistentTries.record history offer) := by
  have haccount := h offer.account
  obtain rfl : old = present keccak256 (history offer.account) := by
    refine eq_of_map_root hlawful hoffer.known ?_ ?_
    · exact fun content hcontent => (haccount.present_ok content hcontent).1
    · rw [← hoffer.base, hbase]
      exact haccount.present_root
  have hview := nodes_insertBatch env offer.account offer.account offer.changes.trieDiff
  rw [if_pos rfl] at hview
  have hroot := hoffer.root
  have hnew := hoffer.new
  have hcovers := hoffer.covers
  rw [contentAfter_present] at hroot hnew hcovers
  have hstored : StoredOk m occurs keccak256 used
      ((TrieWrite.apply (.insertBatch offer.account offer.changes.trieDiff) env).nodes
        offer.account)
      ⟨offer.changes.root, applied (history offer.account) ++ offer.inserts⟩ := by
    refine ⟨hroot, hnew, ?_, List.forall_mem_append.mpr ⟨haccount.applied_used, hoffer.used⟩⟩
    rw [hview]
    -- a node of the new content is in the diff, or it was there with the content before
    refine has_overlay_of_either (hoffer.diff _ hnew) fun hash node hnode => ?_
    rcases hcovers hash node hnode with ⟨content, hcontent, hold⟩ | hdiff
    · exact Or.inr ((haccount.present_ok content hcontent).2 hash node hold)
    · exact Or.inl hdiff
  exact (h.insertBatch offer.account hoffer.diff).putRoot hstored

theorem applyAccount_eq {trie : τ} {account : Address} (changes : StorageTrieChanges)
    (hopen : forAccount lib (env.db account) = some trie) :
    applyAccount lib env (account, changes) =
      ⟨[.insertBatch account changes.trieDiff, .putRoot account changes.root],
        some (TrieWrite.apply (.putRoot account changes.root)
          (TrieWrite.apply (.insertBatch account changes.trieDiff) env))⟩ := by
  unfold applyAccount
  rw [Trace.bind_of_some hopen]
  rfl

/-- A batch of changes from the stored roots, up to any of its writes. -/
theorem store_batch (hlawful : lib.Lawful m occurs) (batch : List Offer) :
    ∀ (env : Env) (history : Address → List Stored),
      EnvOk m occurs keccak256 used env history → (batch.map Offer.account).Nodup →
      (∀ offer ∈ batch, (∃ old, OfferOk m occurs keccak256 used offer old) ∧
        offer.base = DbWithRoot.root (env.db offer.account)) → ∀ count,
      let writes := (apply lib env (batch.map fun offer => (offer.account, offer.changes))).writes
      EnvOk m occurs keccak256 used (Trace.after TrieWrite.apply (writes.take count) env)
        ((batch.take ((writes.take count).length / 2)).foldl PersistentTries.record history) := by
  induction batch with
  | nil =>
    intro env history h _ _ count
    show EnvOk m occurs keccak256 used
      (Trace.after TrieWrite.apply (([] : List _).take count) env) _
    rw [List.take_nil, List.take_nil]
    exact h
  | cons offer batch ih =>
    intro env history h hnodup hbatch count
    rw [List.map_cons, List.nodup_cons] at hnodup
    obtain ⟨hfresh, hnodup⟩ := hnodup
    obtain ⟨⟨old, hoffer⟩, hbase⟩ := hbatch offer List.mem_cons_self
    obtain ⟨trie, hopen, -⟩ := (h offer.account).opens hlawful
    have hwrites : (apply lib env ((offer :: batch).map fun offer =>
        (offer.account, offer.changes))).writes =
        .insertBatch offer.account offer.changes.trieDiff ::
        .putRoot offer.account offer.changes.root ::
        (apply lib (TrieWrite.apply (.putRoot offer.account offer.changes.root)
          (TrieWrite.apply (.insertBatch offer.account offer.changes.trieDiff) env))
          (batch.map fun offer => (offer.account, offer.changes))).writes := by
      rw [List.map_cons, apply, List.foldlM_cons, applyAccount_eq offer.changes hopen,
        Trace.bind_of_some rfl]
      rfl
    intro writes
    rw [show writes = _ from hwrites]
    match count with
    | 0 => simpa using h
    | 1 => simpa using h.insertBatch offer.account hoffer.diff
    | count + 2 =>
      have hrest := ih _ _ (h.record hlawful hoffer hbase) hnodup (fun other hother => by
        have hne : other.account ≠ offer.account := by
          intro heq
          exact hfresh (heq ▸ List.mem_map_of_mem hother)
        obtain ⟨hok, hroot⟩ := hbatch other (List.mem_cons_of_mem offer hother)
        refine ⟨hok, hroot.trans ?_⟩
        have hkept := root_putRoot (TrieWrite.apply (.insertBatch offer.account
          offer.changes.trieDiff) env) offer.account other.account offer.changes.root
        rw [if_neg hne, root_insertBatch] at hkept
        exact hkept.symm) count
      have hhalf : ∀ n : ℕ, (n + 1 + 1) / 2 = n / 2 + 1 := by omega
      rw [List.take_succ_cons, List.take_succ_cons, List.length_cons, List.length_cons, hhalf,
        List.take_succ_cons, Trace.after_cons, Trace.after_cons, List.foldl_cons]
      exact hrest

end Writes

section Steps

variable {world : World τ}

theorem invariant_start : Invariant m occurs keccak256 used (World.start : World τ) where
  env := envOk_start
  sessions id opened h := by cases h
  offers offer h := by cases h

/-- A session that is put in place of another one leaves the others as they are. -/
theorem Invariant.putSession (h : Invariant m occurs keccak256 used world) (id : ℕ)
    (opened : Option (Opened τ))
    (hopened : ∀ session ∈ opened, OpenedOk m occurs keccak256 used session) :
    Invariant m occurs keccak256 used (world.putSession id opened) := by
  refine ⟨h.env, fun other session hsession => ?_, h.offers⟩
  by_cases hid : other = id
  · subst hid
    have hsome : Function.update world.sessions other opened other = some session := hsession
    rw [Function.update_self] at hsome
    exact hopened session hsome
  · have hsome : Function.update world.sessions id opened other = some session := hsession
    rw [Function.update_of_ne hid] at hsome
    exact h.sessions other session hsome

theorem Invariant.addOffer (h : Invariant m occurs keccak256 used world) {offer : Offer}
    (hoffer : ∃ old, OfferOk m occurs keccak256 used offer old) :
    Invariant m occurs keccak256 used { world with offers := offer :: world.offers } := by
  refine ⟨h.env, h.sessions, fun other hother => ?_⟩
  rcases List.mem_cons.mp hother with rfl | hin
  · exact hoffer
  · exact h.offers other hin

/-- A new buffer has nothing in it. -/
theorem sound_new : m.Sound occurs (DB.get (MemoryDb.new true)) :=
  fun content _ => compatible_empty (m.nodes content)

theorem Invariant.sound_staging (h : Invariant m occurs keccak256 used world) {opened : Opened τ}
    (hopened : OpenedOk m occurs keccak256 used opened) :
    m.Sound occurs (DB.get (world.staging opened)) := by
  intro content hcontent
  rw [get_staging]
  exact (hopened.memory content hcontent).overlay
    ((h.env opened.session.account).sound content hcontent)

theorem Invariant.forAccount (hlawful : lib.Lawful m occurs)
    (h : Invariant m occurs keccak256 used world) (id : ℕ) (account : Address)
    (hoccurs : ∀ trie, StagedTries.forAccount lib (world.env.db account) = some trie →
      occurs (m.content trie)) :
    Invariant m occurs keccak256 used (world.step lib keccak256 (.forAccount id account)) := by
  have haccount := h.env account
  obtain ⟨trie, hopen, hloaded, hcontent⟩ := haccount.opens hlawful
  refine h.putSession id _ fun opened hopened => ?_
  obtain ⟨trie', hopen', rfl⟩ := Option.map_eq_some_iff.mp hopened
  obtain rfl : trie = trie' := Option.some.inj (hopen.symm.trans hopen')
  refine ⟨⟨⟨hoccurs trie hopen, fun old hold => ?_⟩, ?_, ?_, fun entry hentry => ?_⟩, sound_new⟩
  · rw [hloaded] at hold
    exact (haccount.present_ok old hold).1
  · rw [hloaded]
    exact haccount.present_root
  · rw [hloaded, contentAfter_present, List.append_nil, hcontent]
  · cases hentry

theorem Invariant.forAccountWithRoot (hlawful : lib.Lawful m occurs)
    (h : Invariant m occurs keccak256 used world) (id : ℕ) {account : Address} {stored : Stored}
    (hstored : stored ∈ world.history account) :
    Invariant m occurs keccak256 used
      (world.step lib keccak256 (.forAccountWithRoot id account stored.root)) := by
  have hok := (h.env account).stored stored hstored
  obtain ⟨trie, hopen, hloaded, hcontent⟩ := hok.opens hlawful
  refine h.putSession id _ fun opened hopened => ?_
  obtain ⟨trie', hopen', rfl⟩ := Option.map_eq_some_iff.mp hopened
  obtain rfl : trie = trie' := Option.some.inj (hopen.symm.trans hopen')
  refine ⟨⟨⟨hcontent ▸ hok.occurs, fun old hold => ?_⟩, ?_, ?_, fun entry hentry => ?_⟩, sound_new⟩
  · rw [hloaded, Option.mem_some_iff] at hold
    exact hold ▸ hok.occurs
  · rw [hloaded, hok.root]
    rfl
  · rw [hloaded, hcontent]
    rfl
  · cases hentry

theorem Invariant.insert (hlawful : lib.Lawful m occurs)
    (h : Invariant m occurs keccak256 used world) {id : ℕ} {opened : Opened τ}
    (hopened : world.sessions id = some opened) {index value : U256} (hindex : index ∈ used)
    (hoccurs : ∀ trie, StorageTrie.insert lib keccak256 (DB.get (world.staging opened))
      opened.session.trie index value = some trie → occurs (m.content trie)) :
    Invariant m occurs keccak256 used (world.step lib keccak256 (.insert id index value)) := by
  have hok := h.sessions id opened hopened
  simp only [World.step, hopened]
  refine h.putSession id _ fun next hnext => ?_
  obtain ⟨trie, hinsert, rfl⟩ := Option.map_eq_some_iff.mp hnext
  exact ⟨sessionOk_insert hlawful (h.sound_staging hok) hok.session hindex hinsert
    (hoccurs trie hinsert), hok.memory⟩

theorem Invariant.commit (hlawful : lib.Lawful m occurs)
    (h : Invariant m occurs keccak256 used world) {id : ℕ} {opened : Opened τ}
    (hopened : world.sessions id = some opened) :
    Invariant m occurs keccak256 used (world.step lib keccak256 (.commit id)) := by
  have hok := h.sessions id opened hopened
  have hview := h.sound_staging hok
  have hmemory := sound_commit hlawful hok.memory hview hok.session.known
  simp only [World.step, hopened]
  cases hcommit : StorageTrie.commit lib (world.staging opened) opened.session.trie with
  | mk db result =>
    rw [hcommit] at hmemory
    cases result with
    | none => exact h.putSession id none fun session hsession => by cases hsession
    | some result =>
      obtain ⟨trie, changes⟩ := result
      obtain ⟨hnext, hoffer⟩ := sessionOk_commit hlawful hview hok.session
        (congrArg Prod.snd hcommit)
      refine (h.putSession id _ fun session hsession => ?_).addOffer ⟨_, hoffer⟩
      rw [Option.mem_some_iff] at hsession
      exact hsession ▸ ⟨hnext, hmemory⟩

/-- A batch is applied up to any of its writes. -/
theorem Invariant.store (hlawful : lib.Lawful m occurs)
    (h : Invariant m occurs keccak256 used world) {batch : List Offer}
    (hnodup : (batch.map Offer.account).Nodup)
    (hbatch : ∀ offer ∈ batch, offer ∈ world.offers ∧
      offer.base = DbWithRoot.root (world.env.db offer.account)) (count : ℕ) :
    Invariant m occurs keccak256 used
      (world.store batch ((world.writesOf lib batch).take count)) :=
  ⟨store_batch hlawful batch world.env world.history h.env hnodup
    (fun offer hoffer => ⟨h.offers offer (hbatch offer hoffer).1, (hbatch offer hoffer).2⟩) count,
    h.sessions, h.offers⟩

/-- Every step keeps the invariant, also one that is interrupted. -/
theorem invariant_step (hlawful : lib.Lawful m occurs) {action : Action}
    (h : Invariant m occurs keccak256 used world) (hallowed : Allowed used world action)
    (hoccurs : ∀ id opened, (world.step lib keccak256 action).sessions id = some opened →
      occurs (m.content opened.session.trie)) :
    Invariant m occurs keccak256 used (world.step lib keccak256 action) := by
  cases action with
  | forAccount id account =>
    refine h.forAccount hlawful id account fun trie hopen => ?_
    refine hoccurs id ⟨⟨account, trie, DbWithRoot.root (world.env.db account), []⟩,
      (world.env.db account).memory⟩ ?_
    simp only [World.step, World.putSession, hopen, Function.update_self, Option.map_some]
  | forAccountWithRoot id account root =>
    obtain ⟨stored, hstored, rfl⟩ := hallowed
    exact h.forAccountWithRoot hlawful id hstored
  | insert id index value =>
    cases hopened : world.sessions id with
    | none =>
      simp only [World.step, hopened]
      exact h
    | some opened =>
      refine h.insert hlawful hopened hallowed fun trie hinsert => ?_
      refine hoccurs id ⟨{ opened.session with
        trie := trie, inserts := opened.session.inserts ++ [(index, value)] }, opened.memory⟩ ?_
      simp only [World.step, World.putSession, hopened, hinsert, Function.update_self,
        Option.map_some]
  | commit id =>
    cases hopened : world.sessions id with
    | none =>
      simp only [World.step, hopened]
      exact h
    | some opened => exact h.commit hlawful hopened
  | discard id => exact h.putSession id none fun session hsession => by cases hsession
  | withTrieChanges earlier later =>
    obtain ⟨hearlier, hlater, -, hbase⟩ := hallowed
    obtain ⟨old, hold⟩ := h.offers earlier hearlier
    obtain ⟨middle, hmiddle⟩ := h.offers later hlater
    exact h.addOffer ⟨old, hold.add hlawful hmiddle hbase⟩
  | apply batch =>
    have hstore := h.store hlawful hallowed.1 hallowed.2 (world.writesOf lib batch).length
    rw [List.take_length] at hstore
    exact hstore
  | interrupt batch count =>
    have hstore := h.store hlawful hallowed.1 hallowed.2 count
    exact ⟨hstore.env, fun id opened hopened => (by cases hopened), fun offer hoffer =>
      (by cases hoffer)⟩

theorem invariant_of_runs (hlawful : lib.Lawful m occurs)
    (h : Runs lib keccak256 m occurs used world) : Invariant m occurs keccak256 used world := by
  induction h with
  | start => exact invariant_start
  | step _ hallowed hoccurs ih => exact invariant_step hlawful ih hallowed hoccurs

/-- A trie that has the nodes of a stored root gives the last insert of every slot. -/
theorem get_stored (hlawful : lib.Lawful m occurs) (hinj : Set.InjOn (trieKey keccak256) used)
    {env : Env} {account : Address} {inserts : List (U256 × U256)} {trie : τ}
    (hhas : ∀ old ∈ m.loaded trie, occurs old ∧ Has (env.nodes account) (m.nodes old))
    (hcontent : m.content trie = contentAfter keccak256 none inserts)
    (hused : ∀ entry ∈ inserts, entry.1 ∈ used) {index : U256} (hindex : index ∈ used) :
    StorageTrie.get lib keccak256 (DB.get (env.db account)) trie index =
      some (lastInsert inserts index) := by
  refine get_slot hlawful keccak256 ?_ ?_
  · rw [get_db]
    exact hhas
  · rw [hcontent, contentAfter_slot hinj hused hindex]

end Steps

end Invariants

section Samples

abbrev SampleRuns : World SampleTrie → Prop :=
  Runs sampleEngine sampleKeccak sampleMeaning isSampleContent {0, 1}

theorem sampleRuns_step {world : World SampleTrie} {action : Action} (h : SampleRuns world)
    (hallowed : Allowed {0, 1} world action) :
    SampleRuns (world.step sampleEngine sampleKeccak action) :=
  .step h hallowed fun _ opened _ => ⟨opened.session.trie.slots, rfl⟩

theorem sampleRuns_foldl {actions : List Action} {world : World SampleTrie} (h : SampleRuns world)
    (hallowed : ∀ action ∈ actions, ∀ other : World SampleTrie, Allowed {0, 1} other action) :
    SampleRuns (actions.foldl (World.step sampleEngine sampleKeccak) world) := by
  induction actions generalizing world with
  | nil => exact h
  | cons action actions ih =>
    refine ih (sampleRuns_step h (hallowed action List.mem_cons_self world)) ?_
    exact fun other hother => hallowed other (List.mem_cons_of_mem action hother)

/-- The last changes are from the present root of their account. -/
def fromPresent (world : World SampleTrie) : Prop :=
  ((world.offers.take 1).map Offer.account).Nodup ∧ ∀ offer ∈ world.offers.take 1,
    offer.base = DbWithRoot.root (world.env.db offer.account)

theorem allowed_last {world : World SampleTrie} (h : fromPresent world) :
    (((world.offers.take 1).map Offer.account).Nodup ∧ ∀ offer ∈ world.offers.take 1,
      offer ∈ world.offers ∧ offer.base = DbWithRoot.root (world.env.db offer.account)) :=
  ⟨h.1, fun offer hoffer => ⟨List.mem_of_mem_take hoffer, h.2 offer hoffer⟩⟩

/-- The first slot is set, and the changes are applied. -/
def setWorld : World SampleTrie :=
  [.forAccount 0 7, .insert 0 0 1, .commit 0].foldl (World.step sampleEngine sampleKeccak) .start

def storedWorld : World SampleTrie :=
  setWorld.step sampleEngine sampleKeccak (.apply (setWorld.offers.take 1))

/-- The first slot is cleared and the second one set. -/
def clearActions : List Action := [.forAccount 1 7, .insert 1 0 0, .insert 1 1 1, .commit 1]

def clearedWorld : World SampleTrie :=
  clearActions.foldl (World.step sampleEngine sampleKeccak) storedWorld

/-- The process ends between the nodes and the root of these changes, and they are made again. -/
def stoppedWorld : World SampleTrie :=
  clearedWorld.step sampleEngine sampleKeccak (.interrupt (clearedWorld.offers.take 1) 1)

def againWorld : World SampleTrie :=
  clearActions.foldl (World.step sampleEngine sampleKeccak) stoppedWorld

def lastWorld : World SampleTrie :=
  againWorld.step sampleEngine sampleKeccak (.apply (againWorld.offers.take 1))

theorem sampleRuns_lastWorld : SampleRuns lastWorld := by
  have hclear : ∀ action ∈ clearActions, ∀ other : World SampleTrie,
      Allowed {0, 1} other action := by simp [clearActions, Allowed]
  have hset : SampleRuns setWorld := sampleRuns_foldl .start (by simp [Allowed])
  have hstored : SampleRuns storedWorld :=
    sampleRuns_step hset (allowed_last ⟨by decide +kernel, by decide +kernel⟩)
  have hstopped : SampleRuns stoppedWorld := sampleRuns_step (sampleRuns_foldl hstored hclear)
    (allowed_last ⟨by decide +kernel, by decide +kernel⟩)
  exact sampleRuns_step (sampleRuns_foldl hstopped hclear)
    (allowed_last ⟨by decide +kernel, by decide +kernel⟩)

end Samples

end OpMove.PersistentTries
