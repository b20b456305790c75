import OpMove.Primitives
import Mathlib.Data.List.AList

/-!
The storage trie of an EVM account and the database behind it. The trie library is a
parameter: it names the root and the nodes of a storage map, the nodes it reports as
changed, and what a database gives when it is opened at a root. Its laws are asked
only of the storage maps at hand, since no hash is free of collisions everywhere.
-/

namespace OpMove.StorageTries

open Primitives

/-- Storage slots; an absent slot is zero. -/
abbrev Storage := U256 → U256

/-- Encoded trie nodes under their hashes. -/
abbrev Nodes := AList fun _ : B256 => Bytes

/-- `changedNodes` is told what the trie was opened with; a new trie has no old nodes. -/
structure TrieLibrary where
  root : Storage → B256
  nodes : Storage → Nodes
  changedNodes : Option Storage → Storage → Nodes
  openAt : Nodes → B256 → Option Storage

/-- A node store that has every node of a storage map. -/
def TrieLibrary.Has (lib : TrieLibrary) (store : Nodes) (storage : Storage) : Prop :=
  ∀ hash bytes, (lib.nodes storage).lookup hash = some bytes → store.lookup hash = some bytes

/-- The documented behaviour of the library on the storage maps that occur: a database with
the nodes of a map opens to it at its root, every node is an old one or among the changed
ones, and a hash stands for one node only. -/
structure TrieLibrary.Lawful (lib : TrieLibrary) (occurs : Storage → Prop) : Prop where
  opens : ∀ store storage, occurs storage → lib.Has store storage →
    lib.openAt store (lib.root storage) = some storage
  changed : ∀ opened storage, (∀ old ∈ opened, occurs old) → occurs storage →
    ∀ hash bytes, (lib.nodes storage).lookup hash = some bytes →
      (∃ old ∈ opened, (lib.nodes old).lookup hash = some bytes) ∨
        (lib.changedNodes opened storage).lookup hash = some bytes
  keyed : ∀ opened new storage, (∀ old ∈ opened, occurs old) → occurs new → occurs storage →
    ∀ hash bytes node, (lib.changedNodes opened new).lookup hash = some bytes →
      (lib.nodes storage).lookup hash = some node → bytes = node

/-- The database of one account. -/
structure TrieDb where
  root : Option B256
  nodes : Nodes

structure StorageTrie where
  opened : Option Storage
  content : Storage

structure StorageTrieChanges where
  root : B256
  trieDiff : Nodes

/-- `for_account`: the trie at the stored root, or a new one. -/
def TrieDb.forAccount (lib : TrieLibrary) (db : TrieDb) : Option StorageTrie :=
  match db.root with
  | none => some ⟨none, fun _ => 0⟩
  | some root => (lib.openAt db.nodes root).map fun storage => ⟨some storage, storage⟩

/-- Inserting zero removes the slot. -/
def StorageTrie.insert (trie : StorageTrie) (index value : U256) : StorageTrie :=
  { trie with content := Function.update trie.content index value }

def StorageTrie.commit (lib : TrieLibrary) (trie : StorageTrie) : StorageTrieChanges :=
  ⟨lib.root trie.content, lib.changedNodes trie.opened trie.content⟩

/-- `Add`: the root of the right operand, and both node sets. -/
def StorageTrieChanges.add (left right : StorageTrieChanges) : StorageTrieChanges :=
  ⟨right.root, right.trieDiff ∪ left.trieDiff⟩

/-- `apply`: a batch of nodes, then the new root. -/
def TrieDb.apply (db : TrieDb) (changes : StorageTrieChanges) : TrieDb :=
  ⟨some changes.root, changes.trieDiff ∪ db.nodes⟩

/-- The database stores the map: it opens to it, or was never written and the map is empty. -/
def Stores (lib : TrieLibrary) (db : TrieDb) (storage : Storage) : Prop :=
  match db.root with
  | none => storage = fun _ => 0
  | some root => root = lib.root storage ∧ lib.Has db.nodes storage

theorem stores_empty (lib : TrieLibrary) : Stores lib ⟨none, ∅⟩ fun _ => 0 := rfl

/-- The map a database answers from. -/
def TrieDb.read (lib : TrieLibrary) (db : TrieDb) : Option Storage :=
  (db.forAccount lib).map fun trie => trie.content

theorem lookup_union_or (left right : Nodes) (hash : B256) :
    (left ∪ right).lookup hash = (left.lookup hash).or (right.lookup hash) := by
  cases hleft : left.lookup hash with
  | none => rw [AList.lookup_union_right (AList.lookup_eq_none.mp hleft), Option.none_or]
  | some bytes =>
    have hmem : hash ∈ left := AList.lookup_isSome.mp (by rw [hleft]; rfl)
    rw [AList.lookup_union_left hmem, hleft, Option.some_or]

section Lawful

variable {lib : TrieLibrary} {occurs : Storage → Prop}

theorem forAccount_of_stores (hlawful : lib.Lawful occurs) {db : TrieDb} {storage : Storage}
    (hoccurs : occurs storage) (h : Stores lib db storage) :
    ∃ opened, db.forAccount lib = some ⟨opened, storage⟩ ∧
      ∀ old ∈ opened, old = storage ∧ lib.Has db.nodes old := by
  unfold Stores at h
  unfold TrieDb.forAccount
  split at h
  · subst h
    exact ⟨none, rfl, by simp⟩
  · rename_i root
    obtain ⟨rfl, hnodes⟩ := h
    refine ⟨some storage, ?_, ?_⟩
    · simp [hlawful.opens db.nodes storage hoccurs hnodes]
    · intro old hold
      obtain rfl : storage = old := Option.some.inj hold
      exact ⟨rfl, hnodes⟩

theorem read_of_stores (hlawful : lib.Lawful occurs) {db : TrieDb} {storage : Storage}
    (hoccurs : occurs storage) (h : Stores lib db storage) : db.read lib = some storage := by
  obtain ⟨opened, hopen, -⟩ := forAccount_of_stores hlawful hoccurs h
  simp [TrieDb.read, hopen]

/-- Changed nodes written over a store take nothing from what it has. -/
theorem has_union_changed (hlawful : lib.Lawful occurs) {store : Nodes} {opened : Option Storage}
    {new storage : Storage} (hopened : ∀ old ∈ opened, occurs old) (hnew : occurs new)
    (hstorage : occurs storage) (h : lib.Has store storage) :
    lib.Has (lib.changedNodes opened new ∪ store) storage := by
  intro hash node hnode
  rw [lookup_union_or]
  cases hlookup : (lib.changedNodes opened new).lookup hash with
  | none => rw [Option.none_or, h hash node hnode]
  | some bytes =>
    rw [hlawful.keyed opened new storage hopened hnew hstorage hash bytes node hlookup hnode]
    rfl

/-- Changed nodes complete a store that has the trie they were computed from. -/
theorem has_new_of_changed (hlawful : lib.Lawful occurs) {store : Nodes} {opened : Option Storage}
    {new : Storage} (hopened : ∀ old ∈ opened, occurs old) (hnew : occurs new)
    (h : ∀ old ∈ opened, lib.Has store old) :
    lib.Has (lib.changedNodes opened new ∪ store) new := by
  intro hash node hnode
  rw [lookup_union_or]
  rcases hlawful.changed opened new hopened hnew hash node hnode with ⟨old, hold, hin⟩ | hchanged
  · have hstore := h old hold hash node hin
    cases hlookup : (lib.changedNodes opened new).lookup hash with
    | none => rw [Option.none_or, hstore]
    | some bytes =>
      rw [hlawful.keyed opened new new hopened hnew hnew hash bytes node hlookup hnode]
      rfl
  · rw [hchanged]
    rfl

end Lawful

end OpMove.StorageTries
