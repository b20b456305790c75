import OpMove.StagedTries

/-!
Sessions on the storage tries. Any number of tries are open at a time, also of one account; each
is read from and committed through the staging database that all tries of the account share, and
most are thrown away. The node buffer is never cleared, so what a read finds in it may come from
any earlier session. The nodes in it are still the right ones for their hashes, and the inner
database has all nodes of the stored root by itself: a read at that root sees the changes that
were applied and nothing else.
-/

namespace OpMove.StorageSessions

open Primitives ChangeSets StorageTries Extraction PayloadIds AccountProofs HashedStores StagedTries

section Worlds

/-- An open trie, with the root it was computed from and the inserts since then. -/
structure Session (τ : Type) where
  account : Address
  trie : τ
  base : Option B256
  inserts : List (U256 × U256)

/-- The changes of a commit, with the root and the inserts they were computed from. -/
structure Offer where
  account : Address
  base : Option B256
  inserts : List (U256 × U256)
  changes : StorageTrieChanges

/-- `applied` are the inserts of the changes that were applied to an account, in order. -/
structure World (τ : Type) where
  repository : InMemoryStorageTrieRepository
  sessions : ℕ → Option (Session τ)
  offers : List Offer
  applied : Address → List (U256 × U256)

inductive Action
  | forAccount (id : ℕ) (account : Address)
  | insert (id : ℕ) (index value : U256)
  | commit (id : ℕ)
  | discard (id : ℕ)
  | withTrieChanges (earlier later : Offer)
  | apply (batch : List Offer)

variable {τ : Type} (lib : EthTrie τ) (keccak256 : Bytes → B256)

namespace World

def start : World τ := ⟨.new, fun _ => none, [], fun _ => []⟩

def putSession (world : World τ) (id : ℕ) (session : Option (Session τ)) : World τ :=
  { world with sessions := Function.update world.sessions id session }

def putDb (world : World τ) (account : Address) (db : StagingEthTrieDb InMemoryDb) : World τ :=
  { world with repository := Function.update world.repository account db }

/-- The inserts of applied changes are added to those of their accounts. -/
def addInserts (applied : Address → List (U256 × U256)) (offer : Offer) :
    Address → List (U256 × U256) :=
  Function.update applied offer.account (applied offer.account ++ offer.inserts)

/-- An error of the trie ends its session: the callers give the error on or stop. -/
def step (world : World τ) : Action → World τ
  | .forAccount id account =>
      let db := world.repository account
      world.putSession id
        ((forAccount lib db).map fun trie => ⟨account, trie, DbWithRoot.root db, []⟩)
  | .insert id index value =>
      match world.sessions id with
      | none => world
      | some session =>
          let view := DB.get (world.repository session.account)
          world.putSession id
            ((StorageTrie.insert lib keccak256 view session.trie index value).map fun trie =>
              { session with trie := trie, inserts := session.inserts ++ [(index, value)] })
  | .commit id =>
      match world.sessions id with
      | none => world
      | some session =>
          match StorageTrie.commit lib (world.repository session.account) session.trie with
          | (db, none) => (world.putDb session.account db).putSession id none
          | (db, some (trie, changes)) =>
              let world := (world.putDb session.account db).putSession id
                (some ⟨session.account, trie, some changes.root, []⟩)
              { world with
                offers :=
                  ⟨session.account, session.base, session.inserts, changes⟩ :: world.offers }
  | .discard id => world.putSession id none
  | .withTrieChanges earlier later =>
      { world with
        offers := ⟨earlier.account, earlier.base, earlier.inserts ++ later.inserts,
          earlier.changes.add later.changes⟩ :: world.offers }
  | .apply batch =>
      match InMemoryStorageTrieRepository.apply lib world.repository
          (batch.map fun offer => (offer.account, offer.changes)) with
      | (repository, none) => { world with repository := repository }
      | (repository, some ()) =>
          { world with repository := repository, applied := batch.foldl addInserts world.applied }

/-- What a new trie of the account gives for a slot. -/
def read (world : World τ) (account : Address) (index : U256) : Option (Option U256) := do
  let trie ← forAccount lib (world.repository account)
  StorageTrie.get lib keccak256 (DB.get (world.repository account)) trie index

end World

/-- Inserts are to the slots in use. Changes are put together only when the later ones were
computed from the root of the earlier ones, and a batch has one entry for each of its accounts,
computed from the root that is stored for it. -/
def Allowed (used : Set U256) (world : World τ) : Action → Prop
  | .insert _ index _ => index ∈ used
  | .withTrieChanges earlier later =>
      earlier ∈ world.offers ∧ later ∈ world.offers ∧ later.account = earlier.account ∧
        later.base = some earlier.changes.root
  | .apply batch =>
      (batch.map Offer.account).Nodup ∧
        ∀ offer ∈ batch, offer ∈ world.offers ∧
          offer.base = DbWithRoot.root (world.repository offer.account)
  | _ => True

/-- The worlds of the runs in which the tries only have contents that occur. -/
inductive Runs (m : Meaning τ) (occurs : Content → Prop) (used : Set U256) : World τ → Prop
  | start : Runs m occurs used World.start
  | step {world : World τ} {action : Action} : Runs m occurs used world →
      Allowed used world action →
      (∀ id session, (world.step lib keccak256 action).sessions id = some session →
        occurs (m.content session.trie)) →
      Runs m occurs used (world.step lib keccak256 action)

/-- The value of the last insert to a slot; nothing after a zero or when there was none. -/
def lastInsert (inserts : List (U256 × U256)) (index : U256) : Option U256 :=
  ((inserts.reverse.find? fun entry => entry.1 = index).map fun entry => entry.2).filter
    fun value => value ≠ 0

end Worlds

section Invariants

variable {τ : Type} (m : Meaning τ) (occurs : Content → Prop) (keccak256 : Bytes → B256)
  (used : Set U256)

/-- The content after some inserts into what a trie was opened with. -/
def contentAfter (old : Option Content) (inserts : List (U256 × U256)) : Content :=
  inserts.foldl (put keccak256) (old.getD fun _ => none)

structure SessionOk (session : Session τ) : Prop where
  known : m.Known occurs session.trie
  base : session.base = (m.loaded session.trie).map m.root
  content : m.content session.trie =
    contentAfter keccak256 (m.loaded session.trie) session.inserts
  used : ∀ entry ∈ session.inserts, entry.1 ∈ used

/-- The changes lead from one content to another. -/
structure OfferOk (offer : Offer) (old : Option Content) : Prop where
  base : offer.base = old.map m.root
  known : ∀ content ∈ old, occurs content
  new : occurs (contentAfter keccak256 old offer.inserts)
  root : offer.changes.root = m.root (contentAfter keccak256 old offer.inserts)
  diff : m.Sound occurs fun hash => offer.changes.trieDiff.lookup hash
  covers : m.Covers old (contentAfter keccak256 old offer.inserts) offer.changes.trieDiff
  used : ∀ entry ∈ offer.inserts, entry.1 ∈ used

/-- Nodes stand under the right hashes, and the inner database alone has the applied content. -/
structure DbOk (db : StagingEthTrieDb InMemoryDb) (applied : List (U256 × U256))
    (stored : Option Content) : Prop where
  memory : m.Sound occurs (DB.get db.memory)
  inner : m.Sound occurs (DB.get db.inner)
  root : DbWithRoot.root db = stored.map m.root
  content : contentAfter keccak256 none applied = stored.getD fun _ => none
  stored : ∀ content ∈ stored, occurs content ∧ Has (DB.get db.inner) (m.nodes content)
  used : ∀ entry ∈ applied, entry.1 ∈ used

def DbsOk (repository : InMemoryStorageTrieRepository)
    (applied : Address → List (U256 × U256)) : Prop :=
  ∀ account, ∃ stored, DbOk m occurs keccak256 used (repository account) (applied account) stored

structure Invariant (world : World τ) : Prop where
  dbs : DbsOk m occurs keccak256 used world.repository world.applied
  sessions : ∀ id session, world.sessions id = some session →
    SessionOk m occurs keccak256 used session
  offers : ∀ offer ∈ world.offers, ∃ old, OfferOk m occurs keccak256 used offer old

variable {m occurs keccak256 used} {lib : EthTrie τ}

theorem contentAfter_append (old : Option Content) (first rest : List (U256 × U256)) :
    contentAfter keccak256 old (first ++ rest) =
      contentAfter keccak256 (some (contentAfter keccak256 old first)) rest :=
  List.foldl_append

theorem invariant_start : Invariant m occurs keccak256 used (World.start : World τ) where
  dbs account := ⟨none, {
    memory := fun content _ => compatible_empty (m.nodes content)
    inner := fun content _ => compatible_empty (m.nodes content)
    root := rfl
    content := rfl
    stored := fun content hcontent => by cases hcontent
    used := fun entry hentry => by cases hentry }⟩
  sessions id session h := by cases h
  offers offer h := by cases h

section Databases

variable {db : StagingEthTrieDb InMemoryDb} {applied : List (U256 × U256)}
  {stored : Option Content}

/-- The buffer and the inner database together still read every node right. -/
theorem DbOk.sound (h : DbOk m occurs keccak256 used db applied stored) :
    m.Sound occurs (DB.get db) := by
  intro content hcontent
  rw [get_staging]
  exact (h.memory content hcontent).overlay (h.inner content hcontent)

/-- The trie opens with the applied content, and all its nodes can be read. -/
theorem DbOk.opens (hlawful : lib.Lawful m occurs)
    (h : DbOk m occurs keccak256 used db applied stored) :
    ∃ trie, forAccount lib db = some trie ∧ m.loaded trie = stored ∧
      m.content trie = stored.getD (fun _ => none) ∧
      ∀ old ∈ m.loaded trie, occurs old ∧ Has (DB.get db) (m.nodes old) := by
  unfold forAccount
  rw [h.root]
  cases stored with
  | none =>
    obtain ⟨hloaded, hcontent⟩ := hlawful.new
    refine ⟨lib.new, rfl, hloaded, hcontent, fun old hold => ?_⟩
    rw [hloaded] at hold
    cases hold
  | some content =>
    obtain ⟨hoccurs, hinner⟩ := h.stored content rfl
    have hhas : Has (DB.get db) (m.nodes content) := by
      rw [get_staging]
      exact has_overlay (h.memory content hoccurs) hinner
    obtain ⟨trie, hopen, hloaded, hcontent⟩ := hlawful.opens (DB.get db) content hoccurs hhas
    refine ⟨trie, hopen, hloaded, hcontent, fun old hold => ?_⟩
    rw [hloaded, Option.mem_some_iff] at hold
    exact hold ▸ ⟨hoccurs, hhas⟩

/-- What a commit leaves in the buffer reads every node right. -/
theorem sound_commit {δ : Type} [DbWithRoot δ] (hlawful : lib.Lawful m occurs)
    {db : StagingEthTrieDb δ} (hmemory : m.Sound occurs (DB.get db.memory))
    (hview : m.Sound occurs (DB.get db)) {trie : τ} (hknown : m.Known occurs trie) :
    m.Sound occurs (DB.get (StorageTrie.commit lib db trie).1.memory) := by
  intro content hcontent
  have hwritten := hlawful.written (DB.get db) trie hview hknown content hcontent
  exact (hwritten.overlay (hmemory content hcontent)).of_subset
    fun hash node hnode => get_commit_memory lib hnode

/-- A commit writes to the buffer and removes from it, whoever's nodes these are. -/
theorem DbOk.commit (hlawful : lib.Lawful m occurs)
    (h : DbOk m occurs keccak256 used db applied stored) {trie : τ} (hknown : m.Known occurs trie) :
    DbOk m occurs keccak256 used (StorageTrie.commit lib db trie).1 applied stored := by
  have hinner := commit_inner lib db trie
  refine ⟨sound_commit hlawful h.memory h.sound hknown, ?_, ?_, h.content, ?_, h.used⟩
  · rw [hinner]
    exact h.inner
  · show DbWithRoot.root (StorageTrie.commit lib db trie).1.inner = _
    rw [hinner]
    exact h.root
  · rw [hinner]
    exact h.stored

/-- Options of occurring contents with the same root are the same. -/
theorem eq_of_map_root (hlawful : lib.Lawful m occurs) {a b : Option Content}
    (ha : ∀ content ∈ a, occurs content) (hb : ∀ content ∈ b, occurs content)
    (h : a.map m.root = b.map m.root) : a = b := by
  cases a with
  | none =>
    cases b with
    | none => rfl
    | some b => cases h
  | some a =>
    cases b with
    | none => cases h
    | some b =>
      rw [Option.map_some, Option.map_some, Option.some.injEq] at h
      rw [root_injective hlawful (ha a rfl) (hb b rfl) h]

/-- Changes that were computed from the stored root add their inserts. -/
theorem DbOk.apply (hlawful : lib.Lawful m occurs)
    (h : DbOk m occurs keccak256 used db applied stored) {offer : Offer} {old : Option Content}
    (hoffer : OfferOk m occurs keccak256 used offer old)
    (hbase : offer.base = DbWithRoot.root db) :
    DbOk m occurs keccak256 used (StorageTrie.apply db offer.changes) (applied ++ offer.inserts)
      (some (contentAfter keccak256 old offer.inserts)) := by
  obtain ⟨hmemory, hroot, hinner⟩ := apply_inner db offer.changes
  obtain rfl : old = stored := by
    refine eq_of_map_root hlawful hoffer.known ?_ ?_
    · exact fun content hcontent => (h.stored content hcontent).1
    · rw [← hoffer.base, hbase, h.root]
  refine ⟨hmemory ▸ h.memory, ?_, ?_, ?_, ?_, ?_⟩
  · intro content hcontent
    rw [hinner]
    exact (hoffer.diff content hcontent).overlay (h.inner content hcontent)
  · show (StorageTrie.apply db offer.changes).inner.root = _
    rw [hroot, hoffer.root]
    rfl
  · rw [contentAfter_append, h.content]
    rfl
  · intro content hcontent
    rw [Option.mem_some_iff] at hcontent
    subst hcontent
    refine ⟨hoffer.new, ?_⟩
    rw [hinner]
    refine has_overlay_of_either (hoffer.diff _ hoffer.new) fun hash node hnode => ?_
    rcases hoffer.covers hash node hnode with ⟨content, hcontent, hold⟩ | hdiff
    · exact Or.inr ((h.stored content hcontent).2 hash node hold)
    · exact Or.inl hdiff
  · exact List.forall_mem_append.mpr ⟨h.used, hoffer.used⟩

end Databases

end Invariants

section Steps

variable {τ : Type} {m : Meaning τ} {occurs : Content → Prop} {keccak256 : Bytes → B256}
  {used : Set U256} {lib : EthTrie τ}

/-- Later changes that were computed from the root of earlier ones go on from them. -/
theorem OfferOk.add (hlawful : lib.Lawful m occurs) {earlier later : Offer}
    {old middle : Option Content} (hearlier : OfferOk m occurs keccak256 used earlier old)
    (hlater : OfferOk m occurs keccak256 used later middle)
    (hbase : later.base = some earlier.changes.root) :
    OfferOk m occurs keccak256 used ⟨earlier.account, earlier.base,
      earlier.inserts ++ later.inserts, earlier.changes.add later.changes⟩ old := by
  obtain rfl : middle = some (contentAfter keccak256 old earlier.inserts) := by
    refine eq_of_map_root hlawful hlater.known (fun content hcontent => ?_) ?_
    · rw [Option.mem_some_iff] at hcontent
      exact hcontent ▸ hearlier.new
    · rw [← hlater.base, hbase, hearlier.root]
      rfl
  have hdiff : (fun hash => (earlier.changes.add later.changes).trieDiff.lookup hash) =
      overlay (fun hash => later.changes.trieDiff.lookup hash)
        fun hash => earlier.changes.trieDiff.lookup hash := by
    funext hash
    exact lookup_union_or later.changes.trieDiff earlier.changes.trieDiff hash
  have hafter : contentAfter keccak256 old (earlier.inserts ++ later.inserts) =
      contentAfter keccak256 (some (contentAfter keccak256 old earlier.inserts)) later.inserts :=
    contentAfter_append old earlier.inserts later.inserts
  refine ⟨hearlier.base, hearlier.known, ?_, ?_, ?_, ?_, ?_⟩
  · rw [hafter]
    exact hlater.new
  · rw [hafter]
    exact hlater.root
  · intro content hcontent
    rw [hdiff]
    exact (hlater.diff content hcontent).overlay (hearlier.diff content hcontent)
  · -- a new node is in the later diff, or in the earlier one, or was there from the start
    intro hash node hnode
    rw [hafter] at hnode
    have hsound := hlater.diff _ hlater.new
    have hlookup := congrFun hdiff hash
    dsimp only at hlookup ⊢
    rw [hlookup]
    rcases hlater.covers hash node hnode with ⟨content, hcontent, hmiddle⟩ | hin
    · rw [Option.mem_some_iff] at hcontent
      subst hcontent
      rcases hearlier.covers hash node hmiddle with hold | hin
      · exact Or.inl hold
      · exact Or.inr (overlay_eq_of_either hsound hnode (Or.inr hin))
    · exact Or.inr (overlay_eq_of_either hsound hnode (Or.inl hin))
  · exact List.forall_mem_append.mpr ⟨hearlier.used, hlater.used⟩

/-- A batch of changes from the stored roots is applied to its end. -/
theorem apply_batch (hlawful : lib.Lawful m occurs) (batch : List Offer) :
    ∀ (repository : InMemoryStorageTrieRepository) (applied : Address → List (U256 × U256)),
      DbsOk m occurs keccak256 used repository applied → (batch.map Offer.account).Nodup →
      (∀ offer ∈ batch, (∃ old, OfferOk m occurs keccak256 used offer old) ∧
        offer.base = DbWithRoot.root (repository offer.account)) →
      ∃ repository', InMemoryStorageTrieRepository.apply lib repository
          (batch.map fun offer => (offer.account, offer.changes)) = (repository', some ()) ∧
        DbsOk m occurs keccak256 used repository' (batch.foldl World.addInserts applied) := by
  induction batch with
  | nil => exact fun repository applied hdbs _ _ => ⟨repository, rfl, hdbs⟩
  | cons offer batch ih =>
    intro repository applied hdbs hnodup hbatch
    rw [List.map_cons, List.nodup_cons] at hnodup
    obtain ⟨hfresh, hnodup⟩ := hnodup
    obtain ⟨⟨old, hoffer⟩, hbase⟩ := hbatch offer List.mem_cons_self
    obtain ⟨stored, hdb⟩ := hdbs offer.account
    obtain ⟨trie, hopen, -⟩ := hdb.opens hlawful
    have hnext : DbsOk m occurs keccak256 used
        (Function.update repository offer.account
          (StorageTrie.apply (repository offer.account) offer.changes))
        (World.addInserts applied offer) := by
      intro account
      unfold World.addInserts
      by_cases haccount : account = offer.account
      · subst haccount
        rw [Function.update_self, Function.update_self]
        exact ⟨_, hdb.apply hlawful hoffer hbase⟩
      · rw [Function.update_of_ne haccount, Function.update_of_ne haccount]
        exact hdbs account
    obtain ⟨repository', hrest, hdbs'⟩ := ih _ _ hnext hnodup fun other hother => by
      have hne : other.account ≠ offer.account := by
        intro heq
        exact hfresh (heq ▸ List.mem_map_of_mem hother)
      rw [Function.update_of_ne hne]
      exact hbatch other (List.mem_cons_of_mem offer hother)
    refine ⟨repository', ?_, hdbs'⟩
    rw [List.map_cons, InMemoryStorageTrieRepository.apply, hopen]
    exact hrest

/-- A session that is put in place of another one leaves the others as they are. -/
theorem Invariant.putSession {world : World τ} (h : Invariant m occurs keccak256 used world)
    (id : ℕ) (session : Option (Session τ))
    (hsession : ∀ opened ∈ session, SessionOk m occurs keccak256 used opened) :
    Invariant m occurs keccak256 used (world.putSession id session) := by
  refine ⟨h.dbs, fun other opened hopened => ?_, h.offers⟩
  by_cases hid : other = id
  · subst hid
    have hsome : Function.update world.sessions other session other = some opened := hopened
    rw [Function.update_self] at hsome
    exact hsession opened hsome
  · have hsome : Function.update world.sessions id session other = some opened := hopened
    rw [Function.update_of_ne hid] at hsome
    exact h.sessions other opened hsome

theorem Invariant.putDb {world : World τ} (h : Invariant m occurs keccak256 used world)
    {account : Address} {db : StagingEthTrieDb InMemoryDb}
    (hdb : ∃ stored, DbOk m occurs keccak256 used db (world.applied account) stored) :
    Invariant m occurs keccak256 used (world.putDb account db) := by
  refine ⟨fun other => ?_, h.sessions, h.offers⟩
  show ∃ stored, DbOk m occurs keccak256 used
    (Function.update world.repository account db other) (world.applied other) stored
  by_cases hother : other = account
  · subst hother
    rw [Function.update_self]
    exact hdb
  · rw [Function.update_of_ne hother]
    exact h.dbs other

theorem Invariant.addOffer {world : World τ} (h : Invariant m occurs keccak256 used world)
    {offer : Offer} (hoffer : ∃ old, OfferOk m occurs keccak256 used offer old) :
    Invariant m occurs keccak256 used { world with offers := offer :: world.offers } := by
  refine ⟨h.dbs, h.sessions, fun other hother => ?_⟩
  rcases List.mem_cons.mp hother with rfl | hin
  · exact hoffer
  · exact h.offers other hin

section Sessions

variable {db : StagingEthTrieDb InMemoryDb} {applied : List (U256 × U256)}
  {stored : Option Content}

theorem sessionOk_open (hlawful : lib.Lawful m occurs)
    (h : DbOk m occurs keccak256 used db applied stored) {trie : τ}
    (hopen : forAccount lib db = some trie) (hoccurs : occurs (m.content trie))
    (account : Address) :
    SessionOk m occurs keccak256 used ⟨account, trie, DbWithRoot.root db, []⟩ := by
  obtain ⟨trie', hopen', hloaded, hcontent, hhas⟩ := h.opens hlawful
  obtain rfl : trie' = trie := Option.some.inj (hopen'.symm.trans hopen)
  refine ⟨⟨hoccurs, fun old hold => (hhas old hold).1⟩, ?_, ?_, ?_⟩
  · rw [hloaded]
    exact h.root
  · rw [hloaded]
    exact hcontent
  · intro entry hentry
    cases hentry

theorem sessionOk_insert (hlawful : lib.Lawful m occurs) {view : View}
    (hview : m.Sound occurs view) {session : Session τ}
    (h : SessionOk m occurs keccak256 used session) {index value : U256} {trie : τ}
    (hindex : index ∈ used)
    (hinsert : StorageTrie.insert lib keccak256 view session.trie index value = some trie)
    (hoccurs : occurs (m.content trie)) :
    SessionOk m occurs keccak256 used
      { session with trie := trie, inserts := session.inserts ++ [(index, value)] } := by
  obtain ⟨hloaded, hcontent⟩ := insert_content hlawful keccak256 hview h.known hinsert
  refine ⟨⟨hoccurs, hloaded ▸ h.known.2⟩, hloaded ▸ h.base, ?_, ?_⟩
  · rw [hcontent, h.content, hloaded, contentAfter_append]
    rfl
  · exact List.forall_mem_append.mpr ⟨h.used, List.forall_mem_singleton.mpr hindex⟩

/-- After a commit the trie is as if it were opened at the new root, and the changes lead there
from where it was opened before. -/
theorem sessionOk_commit {δ : Type} [DbWithRoot δ] (hlawful : lib.Lawful m occurs)
    {db : StagingEthTrieDb δ} (hview : m.Sound occurs (DB.get db)) {session : Session τ}
    (hsession : SessionOk m occurs keccak256 used session) {trie : τ}
    {changes : StorageTrieChanges}
    (hcommit : (StorageTrie.commit lib db session.trie).2 = some (trie, changes)) :
    SessionOk m occurs keccak256 used ⟨session.account, trie, some changes.root, []⟩ ∧
      OfferOk m occurs keccak256 used
        ⟨session.account, session.base, session.inserts, changes⟩ (m.loaded session.trie) := by
  obtain ⟨hloaded, hcontent, hroot, hdiff, hcovers⟩ :=
    hlawful.commit (DB.get db) session.trie trie changes hview hsession.known hcommit
  have hknown := hsession.known
  constructor
  · refine ⟨⟨hcontent ▸ hknown.1, fun old hold => ?_⟩, ?_, ?_, ?_⟩
    · rw [hloaded, Option.mem_some_iff] at hold
      exact hold ▸ hknown.1
    · rw [hloaded, hroot]
      rfl
    · rw [hloaded, hcontent]
      rfl
    · intro entry hentry
      cases hentry
  · rw [hsession.content] at hroot hcovers
    refine ⟨hsession.base, hknown.2, ?_, hroot, hdiff, hcovers, hsession.used⟩
    show occurs (contentAfter keccak256 (m.loaded session.trie) session.inserts)
    rw [← hsession.content]
    exact hknown.1

end Sessions

section Actions

variable {world : World τ} {id : ℕ} {session : Session τ}

theorem Invariant.forAccount (hlawful : lib.Lawful m occurs)
    (h : Invariant m occurs keccak256 used world) (id : ℕ) (account : Address)
    (hoccurs : ∀ trie, StagedTries.forAccount lib (world.repository account) = some trie →
      occurs (m.content trie)) :
    Invariant m occurs keccak256 used (world.step lib keccak256 (.forAccount id account)) := by
  obtain ⟨stored, hdb⟩ := h.dbs account
  refine h.putSession id _ fun opened hopened => ?_
  obtain ⟨trie, hopen, rfl⟩ := Option.map_eq_some_iff.mp hopened
  exact sessionOk_open hlawful hdb hopen (hoccurs trie hopen) account

theorem Invariant.insert (hlawful : lib.Lawful m occurs)
    (h : Invariant m occurs keccak256 used world) (hsession : world.sessions id = some session)
    {index value : U256} (hindex : index ∈ used)
    (hoccurs : ∀ trie, StorageTrie.insert lib keccak256 (DB.get (world.repository session.account))
      session.trie index value = some trie → occurs (m.content trie)) :
    Invariant m occurs keccak256 used (world.step lib keccak256 (.insert id index value)) := by
  obtain ⟨stored, hdb⟩ := h.dbs session.account
  simp only [World.step, hsession]
  refine h.putSession id _ fun opened hopened => ?_
  obtain ⟨trie, hinsert, rfl⟩ := Option.map_eq_some_iff.mp hopened
  exact sessionOk_insert hlawful hdb.sound (h.sessions id session hsession) hindex hinsert
    (hoccurs trie hinsert)

theorem Invariant.commit (hlawful : lib.Lawful m occurs)
    (h : Invariant m occurs keccak256 used world) (hsession : world.sessions id = some session) :
    Invariant m occurs keccak256 used (world.step lib keccak256 (.commit id)) := by
  obtain ⟨stored, hdb⟩ := h.dbs session.account
  have hok := h.sessions id session hsession
  have hdbs := h.putDb ⟨stored, hdb.commit hlawful hok.known⟩
  simp only [World.step, hsession]
  cases hresult : (StorageTrie.commit lib (world.repository session.account) session.trie).2 with
  | none =>
    rw [show StorageTrie.commit lib (world.repository session.account) session.trie =
      (_, none) from Prod.ext rfl hresult]
    exact hdbs.putSession id none fun opened hopened => by cases hopened
  | some result =>
    obtain ⟨trie, changes⟩ := result
    obtain ⟨hnext, hoffer⟩ := sessionOk_commit hlawful hdb.sound hok hresult
    rw [show StorageTrie.commit lib (world.repository session.account) session.trie =
      (_, some (trie, changes)) from Prod.ext rfl hresult]
    refine (hdbs.putSession id _ fun opened hopened => ?_).addOffer ⟨_, hoffer⟩
    rw [Option.mem_some_iff] at hopened
    exact hopened ▸ hnext

theorem Invariant.apply (hlawful : lib.Lawful m occurs)
    (h : Invariant m occurs keccak256 used world) {batch : List Offer}
    (hallowed : Allowed used world (.apply batch)) :
    Invariant m occurs keccak256 used (world.step lib keccak256 (.apply batch)) := by
  obtain ⟨hnodup, hbatch⟩ := hallowed
  obtain ⟨repository, happly, hdbs⟩ := apply_batch hlawful batch world.repository world.applied
    h.dbs hnodup fun offer hoffer =>
      ⟨h.offers offer (hbatch offer hoffer).1, (hbatch offer hoffer).2⟩
  simp only [World.step, happly]
  exact ⟨hdbs, h.sessions, h.offers⟩

end Actions

/-- Every step keeps the invariant, whichever session makes it. -/
theorem invariant_step (hlawful : lib.Lawful m occurs) {world : World τ} {action : Action}
    (h : Invariant m occurs keccak256 used world) (hallowed : Allowed used world action)
    (hoccurs : ∀ id session, (world.step lib keccak256 action).sessions id = some session →
      occurs (m.content session.trie)) :
    Invariant m occurs keccak256 used (world.step lib keccak256 action) := by
  cases action with
  | forAccount id account =>
    refine h.forAccount hlawful id account fun trie hopen => ?_
    refine hoccurs id ⟨account, trie, DbWithRoot.root (world.repository account), []⟩ ?_
    simp only [World.step, World.putSession, hopen, Function.update_self, Option.map_some]
  | insert id index value =>
    cases hsession : world.sessions id with
    | none =>
      simp only [World.step, hsession]
      exact h
    | some session =>
      refine h.insert hlawful hsession hallowed fun trie hinsert => ?_
      refine hoccurs id
        { session with trie := trie, inserts := session.inserts ++ [(index, value)] } ?_
      simp only [World.step, World.putSession, hsession, hinsert, Function.update_self,
        Option.map_some]
  | commit id =>
    cases hsession : world.sessions id with
    | none =>
      simp only [World.step, hsession]
      exact h
    | some session => exact h.commit hlawful hsession
  | discard id =>
    exact h.putSession id none fun opened hopened => by cases hopened
  | withTrieChanges earlier later =>
    obtain ⟨hearlier, hlater, -, hbase⟩ := hallowed
    obtain ⟨old, hold⟩ := h.offers earlier hearlier
    obtain ⟨middle, hmiddle⟩ := h.offers later hlater
    exact h.addOffer ⟨old, hold.add hlawful hmiddle hbase⟩
  | apply batch => exact h.apply hlawful hallowed

theorem invariant_of_runs (hlawful : lib.Lawful m occurs) {world : World τ}
    (h : Runs lib keccak256 m occurs used world) :
    Invariant m occurs keccak256 used world := by
  induction h with
  | start => exact invariant_start
  | step _ hallowed hoccurs ih => exact invariant_step hlawful ih hallowed hoccurs

end Steps

section Visibility

variable {τ : Type} {m : Meaning τ} {occurs : Content → Prop} {keccak256 : Bytes → B256}
  {used : Set U256} {lib : EthTrie τ}

theorem lastInsert_append (inserts : List (U256 × U256)) (entry : U256 × U256) (index : U256) :
    lastInsert (inserts ++ [entry]) index =
      if entry.1 = index then (some entry.2).filter (fun value => value ≠ 0)
      else lastInsert inserts index := by
  unfold lastInsert
  rw [List.reverse_append, List.reverse_singleton, List.singleton_append]
  by_cases hentry : entry.1 = index
  · rw [List.find?_cons_of_pos (by simpa using hentry), if_pos hentry]
    rfl
  · rw [List.find?_cons_of_neg (by simpa using hentry), if_neg hentry]

theorem leafOf_eq (value : U256) :
    leafOf value = ((some value).filter fun value => value ≠ 0).map wordRlp := by
  unfold leafOf
  by_cases hzero : value = 0
  · simp [hzero]
  · rw [if_neg hzero, Option.filter_some_pos (by simpa using hzero)]
    rfl

/-- Slots with different hashes do not touch each other. -/
theorem contentAfter_slot (hinj : Set.InjOn (trieKey keccak256) used)
    {inserts : List (U256 × U256)} (hused : ∀ entry ∈ inserts, entry.1 ∈ used) {index : U256}
    (hindex : index ∈ used) :
    contentAfter keccak256 none inserts (trieKey keccak256 index) =
      (lastInsert inserts index).map wordRlp := by
  induction inserts using List.reverseRecOn with
  | nil => rfl
  | append_singleton inserts entry ih =>
    have hprevious := ih fun other hother => hused other (List.mem_append_left _ hother)
    have hentry := hused entry (List.mem_append_right _ (List.mem_singleton_self entry))
    rw [contentAfter_append, lastInsert_append]
    show put keccak256 (contentAfter keccak256 none inserts) entry (trieKey keccak256 index) = _
    unfold put
    by_cases hsame : entry.1 = index
    · rw [hsame, Function.update_self, if_pos rfl, leafOf_eq]
    · have hkey : trieKey keccak256 index ≠ trieKey keccak256 entry.1 := by
        intro heq
        exact hsame (hinj hindex hentry heq).symm
      rw [Function.update_of_ne hkey, if_neg hsame, hprevious]

/-- Whatever sessions are open, were committed or were thrown away, a new trie of an account gives
the last applied insert of every slot, and the inner database has whatever is reached from the
stored root. -/
theorem uncommitted_changes_invisible (hlawful : lib.Lawful m occurs)
    (hinj : Set.InjOn (trieKey keccak256) used) {world : World τ}
    (hruns : Runs lib keccak256 m occurs used world) (account : Address) :
    (∀ index ∈ used, world.read lib keccak256 account index =
        some (lastInsert (world.applied account) index)) ∧
      ∀ root, DbWithRoot.root (world.repository account) = some root →
        ∀ hash, Reach m.refs (DB.get (world.repository account).inner) root hash →
          (DB.get (world.repository account).inner hash).isSome := by
  obtain ⟨stored, hdb⟩ := (invariant_of_runs hlawful hruns).dbs account
  constructor
  · intro index hindex
    obtain ⟨trie, hopen, -, hcontent, hhas⟩ := hdb.opens hlawful
    have hslot : m.content trie (trieKey keccak256 index) =
        (lastInsert (world.applied account) index).map wordRlp := by
      rw [hcontent, ← hdb.content, contentAfter_slot hinj hdb.used hindex]
    unfold World.read
    rw [hopen]
    exact get_slot hlawful keccak256 hhas hslot
  · intro root hroot hash hreach
    rw [hdb.root] at hroot
    obtain ⟨content, hstored, rfl⟩ := Option.map_eq_some_iff.mp hroot
    obtain ⟨hoccurs, hinner⟩ := hdb.stored content hstored
    exact (hlawful.closed content hoccurs).present hinner hreach

end Visibility

section Samples

def keyZero : B256 := 0x290decd9548b62a8d60345a988386fc84ba6bc95484008f6362f93160ef3e563
def keyOne : B256 := 0xb10e2d527612073b26eecdfd717e6a320cf44b4afac2b0732d9fcbe2b7fa0cf6

/-- The hash of the first two slots. -/
def sampleKeccak (bytes : Bytes) : B256 :=
  if bytes = wordBytes 0 then keyZero
  else if bytes = wordBytes 1 then keyOne
  else BitVec.ofNat 256 (beNat bytes)

/-- No slot is set, or one of the first two is one. -/
inductive SampleSlots
  | empty
  | zero
  | one
  deriving DecidableEq

def SampleSlots.content : SampleSlots → Content
  | .empty => fun _ => none
  | .zero => Function.update (fun _ => none) keyZero (some [1])
  | .one => Function.update (fun _ => none) keyOne (some [1])

/-- The root and the only node of a content. -/
def nodeOf (content : Content) : B256 × Bytes :=
  if content keyZero = some [1] then (rootZero, leafBytes keyZero.toNat)
  else if content keyOne = some [1] then (rootOne, leafBytes keyOne.toNat)
  else (emptyRoot, [0x80])

structure SampleTrie where
  loaded : Option SampleSlots
  slots : SampleSlots

def openSample (slots : SampleSlots) : SampleTrie := ⟨some slots, slots⟩

/-- The trie library at these contents. A trie of one node has nothing else to remove. -/
def sampleEngine : EthTrie SampleTrie where
  new := ⟨none, .empty⟩
  openAt view root :=
    if view root = none then none
    else if root = rootZero then some (openSample .zero)
    else if root = rootOne then some (openSample .one)
    else if root = emptyRoot then some (openSample .empty)
    else none
  get _ trie key := some (trie.slots.content key)
  insert _ trie key value :=
    if trie.slots = .empty ∧ value = [1] then
      if key = keyZero then some { trie with slots := .zero }
      else if key = keyOne then some { trie with slots := .one }
      else none
    else none
  remove _ trie key :=
    if trie.slots.content key = none then some trie else some { trie with slots := .empty }
  commit _ trie :=
    let node := nodeOf trie.slots.content
    ⟨AList.singleton node.1 node.2, [],
      some (openSample trie.slots, ⟨node.1, AList.singleton node.1 node.2⟩)⟩

/-- A leaf refers to no other node. -/
def sampleMeaning : Meaning SampleTrie where
  loaded trie := trie.loaded.map SampleSlots.content
  content trie := trie.slots.content
  root content := (nodeOf content).1
  nodes content := fun hash => if hash = (nodeOf content).1 then some (nodeOf content).2 else none
  refs _ := []

def isSampleContent (content : Content) : Prop := ∃ slots : SampleSlots, slots.content = content

theorem nodeOf_content : nodeOf SampleSlots.empty.content = (emptyRoot, [0x80]) ∧
    nodeOf SampleSlots.zero.content = (rootZero, leafBytes keyZero.toNat) ∧
    nodeOf SampleSlots.one.content = (rootOne, leafBytes keyOne.toNat) := by
  decide +kernel

theorem nodeOf_injective {a b : Content} (ha : isSampleContent a) (hb : isSampleContent b)
    (h : (nodeOf a).1 = (nodeOf b).1) : nodeOf a = nodeOf b := by
  obtain ⟨a, rfl⟩ := ha
  obtain ⟨b, rfl⟩ := hb
  obtain ⟨hempty, hzero, hone⟩ := nodeOf_content
  have hdistinct : emptyRoot ≠ rootZero ∧ emptyRoot ≠ rootOne ∧ rootZero ≠ rootOne := by
    decide +kernel
  cases a <;> cases b <;> simp_all

theorem sampleMeaning_nodes (content : Content) (hash : B256) (node : Bytes) :
    sampleMeaning.nodes content hash = some node ↔
      hash = (nodeOf content).1 ∧ (nodeOf content).2 = node := by
  simp only [sampleMeaning, Option.ite_none_right_eq_some, Option.some.injEq]

theorem lookup_nodeOf (content : Content) :
    (fun hash => (AList.singleton (nodeOf content).1 (nodeOf content).2 : Nodes).lookup hash) =
      sampleMeaning.nodes content := by
  funext hash
  exact lookup_singleton (nodeOf content).1 hash (nodeOf content).2

theorem sound_nodes {content : Content} (h : isSampleContent content) :
    sampleMeaning.Sound isSampleContent (sampleMeaning.nodes content) := by
  intro other hother hash found node hfound hnode
  obtain ⟨hhash, rfl⟩ := (sampleMeaning_nodes content hash found).mp hfound
  obtain ⟨hhash', rfl⟩ := (sampleMeaning_nodes other hash node).mp hnode
  rw [nodeOf_injective h hother (hhash.symm.trans hhash')]

theorem sampleEngine_opens (view : View) (slots : SampleSlots)
    (h : Has view (sampleMeaning.nodes slots.content)) :
    sampleEngine.openAt view (sampleMeaning.root slots.content) = some (openSample slots) := by
  have hroot := h _ _ ((sampleMeaning_nodes slots.content _ _).mpr ⟨rfl, rfl⟩)
  have hdistinct : rootOne ≠ rootZero ∧ emptyRoot ≠ rootZero ∧ emptyRoot ≠ rootOne := by
    decide +kernel
  obtain ⟨hempty, hzero, hone⟩ := nodeOf_content
  cases slots <;> simp_all [sampleEngine, sampleMeaning]

theorem sampleEngine_insert {view : View} {trie trie' : SampleTrie} {key : B256} {value : Bytes}
    (h : sampleEngine.insert view trie key value = some trie') :
    trie'.loaded = trie.loaded ∧
      trie'.slots.content = Function.update trie.slots.content key (some value) := by
  simp only [sampleEngine] at h
  split_ifs at h with hempty hkey hkey
  · obtain rfl := Option.some.inj h
    obtain ⟨hslots, rfl⟩ := hempty
    rw [hslots, hkey]
    exact ⟨rfl, rfl⟩
  · obtain rfl := Option.some.inj h
    obtain ⟨hslots, rfl⟩ := hempty
    rw [hslots, hkey]
    exact ⟨rfl, rfl⟩

/-- Taking away the only slot that is set leaves nothing. -/
theorem update_update_none {slot key : B256} {value : Option Bytes}
    (h : Function.update (fun _ => none) slot value key ≠ none) :
    Function.update (Function.update (fun _ => none) slot value) key none = fun _ => none := by
  have hkey : key = slot := by
    by_contra hne
    exact h (Function.update_of_ne hne value fun _ => none)
  rw [hkey, Function.update_idem]
  exact Function.update_eq_self slot (fun _ => none)

theorem sampleEngine_remove {view : View} {trie trie' : SampleTrie} {key : B256}
    (h : sampleEngine.remove view trie key = some trie') :
    trie'.loaded = trie.loaded ∧
      trie'.slots.content = Function.update trie.slots.content key none := by
  simp only [sampleEngine] at h
  split_ifs at h with hnone
  · obtain rfl := Option.some.inj h
    refine ⟨rfl, ?_⟩
    rw [← hnone, Function.update_eq_self]
  · obtain rfl := Option.some.inj h
    obtain ⟨loaded, slots⟩ := trie
    refine ⟨rfl, ?_⟩
    cases slots with
    | empty => exact absurd rfl hnone
    | zero => exact (update_update_none hnone).symm
    | one => exact (update_update_none hnone).symm

theorem sampleEngine_lawful : sampleEngine.Lawful sampleMeaning isSampleContent where
  closed content _ := by
    refine ⟨?_, fun key node _ child hchild => by cases hchild⟩
    have hroot := (sampleMeaning_nodes content (sampleMeaning.root content) _).mpr ⟨rfl, rfl⟩
    rw [hroot]
    rfl
  hashed content hcontent := sound_nodes hcontent
  new := ⟨rfl, rfl⟩
  opens view content hcontent hhas := by
    obtain ⟨slots, rfl⟩ := hcontent
    exact ⟨openSample slots, sampleEngine_opens view slots hhas, rfl, rfl⟩
  get _ _ _ _ := rfl
  insert view trie key value trie' _ _ _ h := by
    obtain ⟨hloaded, hcontent⟩ := sampleEngine_insert h
    exact ⟨congrArg (Option.map SampleSlots.content) hloaded, hcontent⟩
  remove view trie key trie' _ _ h := by
    obtain ⟨hloaded, hcontent⟩ := sampleEngine_remove h
    exact ⟨congrArg (Option.map SampleSlots.content) hloaded, hcontent⟩
  written view trie _ hknown := by
    show sampleMeaning.Sound isSampleContent fun hash => (AList.singleton
      (nodeOf trie.slots.content).1 (nodeOf trie.slots.content).2 : Nodes).lookup hash
    rw [lookup_nodeOf]
    exact sound_nodes hknown.1
  commit view trie trie' changes _ hknown h := by
    obtain ⟨rfl, rfl⟩ := Prod.mk.inj (Option.some.inj h)
    refine ⟨rfl, rfl, rfl, ?_, fun hash node hnode => Or.inr ?_⟩
    · rw [lookup_nodeOf]
      exact sound_nodes hknown.1
    · rw [← hnode]
      exact congrFun (lookup_nodeOf trie.slots.content) hash

/-- Two sessions on one account: the first one sets slot one and is thrown away after its commit,
the second one sets slot zero. -/
def sampleActions : List Action :=
  [.forAccount 0 7, .forAccount 1 7, .insert 0 1 1, .commit 0, .insert 1 0 1, .commit 1, .discard 0]

def stagedWorld : World SampleTrie :=
  sampleActions.foldl (World.step sampleEngine sampleKeccak) .start

/-- The changes of the second session are applied. -/
def appliedWorld : World SampleTrie :=
  stagedWorld.step sampleEngine sampleKeccak (.apply (stagedWorld.offers.take 1))

theorem runs_step {world : World SampleTrie} {action : Action} {used : Set U256}
    (h : Runs sampleEngine sampleKeccak sampleMeaning isSampleContent used world)
    (hallowed : Allowed used world action) :
    Runs sampleEngine sampleKeccak sampleMeaning isSampleContent used
      (world.step sampleEngine sampleKeccak action) :=
  .step h hallowed fun _ session _ => ⟨session.trie.slots, rfl⟩

theorem runs_foldl {used : Set U256} {actions : List Action} {world : World SampleTrie}
    (h : Runs sampleEngine sampleKeccak sampleMeaning isSampleContent used world)
    (hallowed : ∀ action ∈ actions, ∀ other : World SampleTrie, Allowed used other action) :
    Runs sampleEngine sampleKeccak sampleMeaning isSampleContent used
      (actions.foldl (World.step sampleEngine sampleKeccak) world) := by
  induction actions generalizing world with
  | nil => exact h
  | cons action actions ih =>
    refine ih (runs_step h (hallowed action List.mem_cons_self world)) ?_
    exact fun other hother => hallowed other (List.mem_cons_of_mem action hother)

theorem runs_appliedWorld :
    Runs sampleEngine sampleKeccak sampleMeaning isSampleContent {0, 1} appliedWorld := by
  have hstaged : Runs sampleEngine sampleKeccak sampleMeaning isSampleContent {0, 1}
      stagedWorld := runs_foldl .start (by simp [sampleActions, Allowed])
  refine runs_step hstaged ⟨by decide +kernel, fun offer hoffer => ?_⟩
  refine ⟨List.mem_of_mem_take hoffer, ?_⟩
  revert offer
  decide +kernel

theorem sampleKeccak_injOn : Set.InjOn (trieKey sampleKeccak) {0, 1} := by
  have hkeys : trieKey sampleKeccak 0 ≠ trieKey sampleKeccak 1 := by decide +kernel
  rintro a (rfl | rfl) b (rfl | rfl) h
  · rfl
  · exact absurd h hkeys
  · exact absurd h.symm hkeys
  · rfl

theorem uncommitted_changes_invisible_sample :
    appliedWorld.read sampleEngine sampleKeccak 7 0 = some (some 1) ∧
      appliedWorld.read sampleEngine sampleKeccak 7 1 = some none ∧
      DbWithRoot.root (appliedWorld.repository 7) = some rootZero ∧
      (DB.get (appliedWorld.repository 7).inner rootZero).isSome ∧
      (DB.get (appliedWorld.repository 7).memory rootOne).isSome := by
  obtain ⟨happlied, hroot, hstaged⟩ : appliedWorld.applied 7 = [(0, 1)] ∧
      DbWithRoot.root (appliedWorld.repository 7) = some rootZero ∧
      (DB.get (appliedWorld.repository 7).memory rootOne).isSome := by
    decide +kernel
  obtain ⟨hread, hreach⟩ := uncommitted_changes_invisible sampleEngine_lawful sampleKeccak_injOn
    runs_appliedWorld 7
  rw [happlied] at hread
  exact ⟨hread 0 (Or.inl rfl), hread 1 (Or.inr rfl), hroot,
    hreach rootZero hroot rootZero .root, hstaged⟩

end Samples

end OpMove.StorageSessions
