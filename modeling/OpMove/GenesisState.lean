import OpMove.Genesis
import OpMove.CleanFailures
import OpMove.Outcomes

/-!
What genesis leaves in the state. The stages run over scratch states that lack what the sessions
before them wrote, and their change sets are squashed. In a state that has no resources a stage can
only create, and creations of one key do not squash: so where the build comes to its end, no stage
wrote over another, and the state is what all of them wrote together.
-/

namespace OpMove.Genesis

open Primitives MoveTypes ChangeSets StateChanges StorageTries NativeEvm TreeKeys StateTrie Queries
open EvmCode AccountProofs Sessions Tables Extraction CleanFailures Outcomes PastAnswers

section Flat

/-- The operation a change set has for a module or a resource. -/
abbrev opOf (changes : MoveChangeSet) (key : StateKey) : Option (Op Bytes) :=
  opAt changes (.stateKey key)

abbrev valueAt (storage : InMemoryStorage) (key : StateKey) : Option Bytes :=
  memoryAt storage (.stateKey key)

def owner : StateKey → AccountAddress
  | .module address _ | .resource address _ => address

def opIn (account : AccountChanges) : StateKey → Option (Op Bytes)
  | .module _ name => account.modules.lookup name
  | .resource _ tag => account.resources.lookup tag

theorem opOf_eq (changes : MoveChangeSet) (key : StateKey) :
    opOf changes key = (changes.lookup (owner key)).bind fun account => opIn account key := by
  cases key <;> rfl

variable {changes other merged next : MoveChangeSet}

theorem opIn_squashAccount {account later both : AccountChanges}
    (h : squashAccount account later = some both) (key : StateKey) :
    some (opIn both key) = ChangeSet.merge (opIn account key) (opIn later key) := by
  simp only [squashAccount, Option.bind_eq_bind, Option.bind_eq_some_iff, Option.some.injEq] at h
  obtain ⟨modules, hmodules, resources, hresources, rfl⟩ := h
  cases key with
  | module address name => exact ChangeSet.lookup_of_squash hmodules name
  | resource address tag => exact ChangeSet.lookup_of_squash hresources tag

theorem opOf_squashEntry {address : AccountAddress} {account : AccountChanges}
    (h : squashEntry changes ⟨address, account⟩ = some next) (key : StateKey) :
    some (opOf next key) =
      if owner key = address then ChangeSet.merge (opOf changes key) (opIn account key)
      else some (opOf changes key) := by
  rw [opOf_eq, opOf_eq]
  unfold squashEntry at h
  dsimp only at h
  cases hold : changes.lookup address with
  | none =>
    rw [hold] at h
    obtain rfl := Option.some.inj h
    rw [lookup_insert_if]
    by_cases hkey : owner key = address
    · rw [if_pos hkey, if_pos hkey, hkey, hold, Option.bind_some, Option.bind_none,
        ChangeSet.merge_none_left]
    · rw [if_neg hkey, if_neg hkey]
  | some earlier =>
    rw [hold] at h
    obtain ⟨both, hboth, rfl⟩ := Option.map_eq_some_iff.mp h
    rw [lookup_insert_if]
    by_cases hkey : owner key = address
    · rw [if_pos hkey, if_pos hkey, hkey, hold, Option.bind_some, Option.bind_some]
      exact opIn_squashAccount hboth key
    · rw [if_neg hkey, if_neg hkey]

theorem opOf_squashEntries {entries : List (Σ _ : AccountAddress, AccountChanges)}
    (hnodup : entries.NodupKeys) (h : entries.foldlM squashEntry changes = some merged)
    (key : StateKey) : some (opOf merged key) = ChangeSet.merge (opOf changes key)
      ((entries.dlookup (owner key)).bind fun account => opIn account key) := by
  induction entries generalizing changes with
  | nil =>
    rw [List.foldlM_nil, Option.pure_def, Option.some.injEq] at h
    rw [h, List.dlookup_nil, Option.bind_none, ChangeSet.merge_none]
  | cons entry entries ih =>
    obtain ⟨address, account⟩ := entry
    obtain ⟨hnew, hrest⟩ := List.nodupKeys_cons.mp hnodup
    rw [List.foldlM_cons] at h
    obtain ⟨middle, hmiddle, hmerged⟩ := Option.bind_eq_some_iff.mp h
    have hlater := ih hrest hmerged
    have hfirst := opOf_squashEntry hmiddle key
    by_cases hkey : owner key = address
    · rw [if_pos hkey] at hfirst
      rw [hkey, List.dlookup_eq_none.mpr hnew, Option.bind_none, ChangeSet.merge_none] at hlater
      rw [hlater, hfirst, hkey, List.dlookup_cons_eq, Option.bind_some]
    · rw [if_neg hkey, Option.some.injEq] at hfirst
      rw [hlater, hfirst, List.dlookup_cons_ne _ _ hkey]

/-- Change sets of several accounts squash key by key. -/
theorem opOf_squash (h : squash changes other = some merged) (key : StateKey) :
    some (opOf merged key) = ChangeSet.merge (opOf changes key) (opOf other key) := by
  rw [opOf_eq other]
  exact opOf_squashEntries other.nodupKeys h key

/-- An operation of either kind. -/
def addAt (changes : MoveChangeSet) : StateKey → Op Bytes → Option MoveChangeSet
  | .module address name, op => addModuleOp changes (address, name) op
  | .resource address tag, op => addResourceOp changes address tag op

/-- An account that is not there has no operations. -/
theorem opIn_getD (changes : MoveChangeSet) {key : StateKey} {address : AccountAddress}
    (h : owner key = address) :
    opIn ((changes.lookup address).getD noChanges) key = opOf changes key := by
  rw [opOf_eq, h]
  cases changes.lookup address with
  | none => cases key <;> rfl
  | some account => rfl

theorem exists_addAt {key : StateKey} {op : Op Bytes} (h : opOf changes key = none) :
    ∃ next, addAt changes key op = some next ∧ ∀ other, opOf next other =
      if other = key then some op else opOf changes other := by
  have habsent := (opIn_getD changes rfl).trans h
  cases key with
  | module address name =>
    have hadd := (@ChangeSet.addOp_eq_some_iff _ _ _ _ _ _ op).mpr ⟨habsent, rfl⟩
    refine ⟨_, Option.bind_eq_some_iff.mpr ⟨_, hadd, rfl⟩, fun other => ?_⟩
    rw [opOf_eq, lookup_insert_if]
    by_cases howner : owner other = address
    · rw [if_pos howner, Option.bind_some]
      cases other with
      | module other found =>
        obtain rfl : other = address := howner
        simp only [opIn, lookup_insert_if, StateKey.module.injEq, true_and]
        by_cases hname : found = name
        · rw [if_pos hname, if_pos hname]
        · rw [if_neg hname, if_neg hname]
          exact opIn_getD changes (show owner (.module other found) = other from rfl)
      | resource other tag =>
        rw [if_neg (by simp)]
        exact opIn_getD changes howner
    · rw [if_neg howner, if_neg (fun hkey => howner (by rw [hkey]; rfl)), opOf_eq]
  | resource address tag =>
    have hadd := (@ChangeSet.addOp_eq_some_iff _ _ _ _ _ _ op).mpr ⟨habsent, rfl⟩
    refine ⟨_, Option.bind_eq_some_iff.mpr ⟨_, hadd, rfl⟩, fun other => ?_⟩
    rw [opOf_eq, lookup_insert_if]
    by_cases howner : owner other = address
    · rw [if_pos howner, Option.bind_some]
      cases other with
      | module other name =>
        rw [if_neg (by simp)]
        exact opIn_getD changes howner
      | resource other found =>
        obtain rfl : other = address := howner
        simp only [opIn, lookup_insert_if, StateKey.resource.injEq, true_and]
        by_cases htag : found = tag
        · rw [if_pos htag, if_pos htag]
        · rw [if_neg htag, if_neg htag]
          exact opIn_getD changes (show owner (.resource other found) = other from rfl)
    · rw [if_neg howner, if_neg (fun hkey => howner (by rw [hkey]; rfl)), opOf_eq]

/-- A second operation for a key is refused. -/
theorem absent_of_addAt {key : StateKey} {op : Op Bytes} (h : addAt changes key op = some next) :
    opOf changes key = none := by
  rw [← opIn_getD changes rfl]
  cases key with
  | module address name =>
    obtain ⟨modules, hmodules, -⟩ := Option.bind_eq_some_iff.mp h
    exact (ChangeSet.addOp_eq_some_iff.mp hmodules).1
  | resource address tag =>
    obtain ⟨resources, hresources, -⟩ := Option.bind_eq_some_iff.mp h
    exact (ChangeSet.addOp_eq_some_iff.mp hresources).1

theorem opOf_addAt {key : StateKey} {op : Op Bytes} (h : addAt changes key op = some next) :
    opOf changes key = none ∧ ∀ other, opOf next other =
      if other = key then some op else opOf changes other := by
  have habsent := absent_of_addAt h
  have hexists := @exists_addAt changes key op habsent
  rw [h] at hexists
  obtain ⟨found, hfound, hafter⟩ := hexists
  rw [Option.some.inj hfound]
  exact ⟨habsent, hafter⟩

theorem fits_iff {op : Op Bytes} {old : Option Bytes} : fits op old = true ↔ op.Fits old := by
  cases op <;> simp [fits, Op.Fits, Option.isSome_iff_ne_none]

theorem changesFit_iff {K : Type} [DecidableEq K] {set : ChangeSet K Bytes}
    {base : K → Option Bytes} :
    changesFit set base = true ↔ ∀ k op, set.lookup k = some op → op.Fits (base k) := by
  simp only [changesFit, List.all_eq_true, fits_iff]
  constructor
  · exact fun h k op hop => h ⟨k, op⟩ (AList.mem_lookup_iff.mp hop)
  · rintro h ⟨k, op⟩ hmem
    exact h k op (AList.mem_lookup_iff.mpr hmem)

/-- A change set goes through where each of its operations does. -/
theorem isSome_apply_iff {storage : InMemoryStorage} : (storage.apply changes).isSome ↔
    ∀ key op, opOf changes key = some op → op.Fits (valueAt storage key) := by
  have happly : (storage.apply changes).isSome ↔ ∀ entry ∈ changes.entries,
      changesFit entry.2.modules (storage entry.1).modules = true ∧
        changesFit entry.2.resources (storage entry.1).resources = true := by
    unfold InMemoryStorage.apply
    split_ifs with hall
    · simpa [List.all_eq_true] using hall
    · simpa [List.all_eq_true] using hall
  rw [happly]
  constructor
  · intro h key op hop
    rw [opOf_eq] at hop
    obtain ⟨account, haccount, hop⟩ := Option.bind_eq_some_iff.mp hop
    obtain ⟨hmodules, hresources⟩ := h ⟨_, account⟩ (AList.mem_lookup_iff.mp haccount)
    cases key with
    | module address name => exact changesFit_iff.mp hmodules name op hop
    | resource address tag => exact changesFit_iff.mp hresources tag op hop
  · rintro h ⟨address, account⟩ hmem
    have haccount := AList.mem_lookup_iff.mpr hmem
    refine ⟨changesFit_iff.mpr fun name op hop => ?_, changesFit_iff.mpr fun tag op hop => ?_⟩
    · refine h (.module address name) op ?_
      rw [opOf_eq]
      exact Option.bind_eq_some_iff.mpr ⟨account, haccount, hop⟩
    · refine h (.resource address tag) op ?_
      rw [opOf_eq]
      exact Option.bind_eq_some_iff.mpr ⟨account, haccount, hop⟩

theorem valueAt_apply {storage next : InMemoryStorage} (h : storage.apply changes = some next)
    (key : StateKey) : valueAt next key = Op.after (valueAt storage key) (opOf changes key) :=
  memoryAt_apply h _

end Flat

section Creations

/-- Every operation creates its key. -/
def Creates (changes : MoveChangeSet) : Prop :=
  ∀ key op, opOf changes key = some op → ∃ value, op = .new value

/-- A change set that several stages make together: all of them create, no two of them create the
same key, and it creates what they create. -/
structure Joins (changes : MoveChangeSet) (stages : List MoveChangeSet) : Prop where
  creates : ∀ stage ∈ stages, Creates stage
  apart : stages.Pairwise fun a b => ∀ key, opOf a key = none ∨ opOf b key = none
  written : ∀ key op, opOf changes key = some op ↔ ∃ stage ∈ stages, opOf stage key = some op

/-- Creations of resources alone. -/
structure CreatesResources (changes : MoveChangeSet) : Prop where
  creates : Creates changes
  modules : ∀ address name, opOf changes (.module address name) = none

variable {a b changes : MoveChangeSet} {stages later : List MoveChangeSet}

theorem Joins.creates_all (h : Joins changes stages) : Creates changes := by
  intro key op hop
  obtain ⟨stage, hstage, hop⟩ := (h.written key op).mp hop
  exact h.creates stage hstage key op hop

theorem joins_nil : Joins ∅ [] where
  creates stage hstage := by cases hstage
  apart := .nil
  written key op := by
    rw [opOf_eq, AList.lookup_empty]
    simp

theorem joins_singleton (h : Creates changes) : Joins changes [changes] where
  creates stage hstage := List.mem_singleton.mp hstage ▸ h
  apart := List.pairwise_singleton _ _
  written key op := by simp

theorem Joins.value_iff (h : Joins changes stages) (key : StateKey) (value : Bytes) :
    (opOf changes key).bind Op.value = some value ↔
      ∃ stage ∈ stages, opOf stage key = some (.new value) := by
  rw [← h.written]
  cases hop : opOf changes key with
  | none => simp
  | some op =>
    obtain ⟨found, rfl⟩ := h.creates_all key op hop
    simp [Op.value]

/-- Two creations of one key do not squash. -/
theorem apart_of_squash (ha : Creates a) (hb : Creates b) (h : squash a b = some changes)
    (key : StateKey) : (opOf a key = none ∨ opOf b key = none) ∧
      opOf changes key = (opOf a key).or (opOf b key) := by
  have hmerge := opOf_squash h key
  cases hfirst : opOf a key with
  | none =>
    rw [hfirst, ChangeSet.merge_none_left, Option.some.injEq] at hmerge
    exact ⟨Or.inl rfl, hmerge⟩
  | some first =>
    cases hsecond : opOf b key with
    | none =>
      rw [hfirst, hsecond, ChangeSet.merge_none, Option.some.injEq] at hmerge
      exact ⟨Or.inr rfl, hmerge⟩
    | some second =>
      obtain ⟨value, rfl⟩ := ha key first hfirst
      obtain ⟨other, rfl⟩ := hb key second hsecond
      rw [hfirst, hsecond] at hmerge
      cases hmerge

theorem Joins.squash (ha : Joins a stages) (hb : Joins b later) (h : squash a b = some changes) :
    Joins changes (stages ++ later) where
  creates stage hstage := (List.mem_append.mp hstage).elim (ha.creates stage) (hb.creates stage)
  apart := by
    refine List.pairwise_append.mpr ⟨ha.apart, hb.apart, fun first hfirst second hsecond key => ?_⟩
    by_contra hboth
    rw [not_or] at hboth
    obtain ⟨op, hop⟩ := Option.ne_none_iff_exists'.mp hboth.1
    obtain ⟨other, hother⟩ := Option.ne_none_iff_exists'.mp hboth.2
    have hopA := (ha.written key op).mpr ⟨first, hfirst, hop⟩
    have hopB := (hb.written key other).mpr ⟨second, hsecond, hother⟩
    rcases (apart_of_squash ha.creates_all hb.creates_all h key).1 with hnone | hnone
    · rw [hnone] at hopA
      cases hopA
    · rw [hnone] at hopB
      cases hopB
  written key op := by
    obtain ⟨hapart, hor⟩ := apart_of_squash ha.creates_all hb.creates_all h key
    have hsplit : opOf changes key = some op ↔ opOf a key = some op ∨ opOf b key = some op := by
      rw [hor]
      rcases hapart with hnone | hnone <;> rw [hnone] <;> simp
    rw [hsplit, ha.written, hb.written]
    simp only [List.mem_append, or_and_right, exists_or]

/-- An empty state takes every creation. -/
theorem apply_new (h : Creates changes) : ∃ storage,
    InMemoryState.new.resolver.apply changes = some storage ∧
      ∀ key, valueAt storage key = (opOf changes key).bind Op.value := by
  have hempty : ∀ key, valueAt InMemoryState.new.resolver key = none := by
    intro key
    cases key <;> rfl
  have hfits : (InMemoryState.new.resolver.apply changes).isSome := by
    rw [isSome_apply_iff]
    intro key op hop
    obtain ⟨value, rfl⟩ := h key op hop
    exact hempty key
  obtain ⟨storage, hstorage⟩ := Option.isSome_iff_exists.mp hfits
  refine ⟨storage, hstorage, fun key => ?_⟩
  rw [valueAt_apply hstorage, hempty key]
  cases opOf changes key <;> rfl

end Creations

section Publishing

/-- Creations of modules, each under its own id. -/
structure Publishes (writes : MoveChangeSet) (modules : List (ModuleId × Bytes)) : Prop where
  nodup : (modules.map Prod.fst).Nodup
  modules : ∀ id op, opOf writes (.module id.1 id.2) = some op ↔
    ∃ bytes, (id, bytes) ∈ modules ∧ op = .new bytes
  resources : ∀ address tag, opOf writes (.resource address tag) = none

/-- A state with modules and nothing else. -/
structure Holds (state : InMemoryStorage) (modules : List (ModuleId × Bytes)) : Prop where
  nodup : (modules.map Prod.fst).Nodup
  modules : ∀ id bytes, valueAt state (.module id.1 id.2) = some bytes ↔ (id, bytes) ∈ modules
  resources : ∀ address tag, valueAt state (.resource address tag) = none

variable {writes next : MoveChangeSet} {modules later : List (ModuleId × Bytes)}

theorem Publishes.creates (h : Publishes writes modules) : Creates writes := by
  intro key op hop
  cases key with
  | module address name =>
    obtain ⟨bytes, -, rfl⟩ := (h.modules (address, name) op).mp hop
    exact ⟨bytes, rfl⟩
  | resource address tag =>
    rw [h.resources] at hop
    cases hop

theorem publishes_nil : Publishes ∅ [] where
  nodup := List.nodup_nil
  modules id op := by
    rw [opOf_eq, AList.lookup_empty]
    simp
  resources address tag := rfl

theorem Publishes.perm (h : Publishes writes modules) (hperm : modules.Perm later) :
    Publishes writes later where
  nodup := (hperm.map Prod.fst).nodup_iff.mp h.nodup
  modules id op := by
    rw [h.modules]
    simp only [hperm.mem_iff]
  resources := h.resources

/-- An id has one module. -/
theorem Publishes.eq_of_mem (h : Publishes writes modules) {id : ModuleId} {bytes other : Bytes}
    (hbytes : (id, bytes) ∈ modules) (hother : (id, other) ∈ modules) : bytes = other := by
  have hfirst := (h.modules id (.new bytes)).mpr ⟨bytes, hbytes, rfl⟩
  have hsecond := (h.modules id (.new other)).mpr ⟨other, hother, rfl⟩
  rw [hfirst, Option.some.injEq, Op.new.injEq] at hsecond
  exact hsecond

theorem Publishes.squash {all : MoveChangeSet} (h : Publishes writes modules)
    (hnext : Publishes next later) (hsquash : Genesis.squash writes next = some all) :
    Publishes all (modules ++ later) where
  nodup := by
    rw [List.map_append]
    refine List.nodup_append'.mpr ⟨h.nodup, hnext.nodup, ?_⟩
    intro id hid hid'
    obtain ⟨⟨_, bytes⟩, hmem, rfl⟩ := List.mem_map.mp hid
    obtain ⟨⟨_, other⟩, hmem', hsame⟩ := List.mem_map.mp hid'
    dsimp only at hsame
    subst hsame
    have hfirst := (h.modules _ (.new bytes)).mpr ⟨bytes, hmem, rfl⟩
    have hsecond := (hnext.modules _ (.new other)).mpr ⟨other, hmem', rfl⟩
    rcases (apart_of_squash h.creates hnext.creates hsquash (.module _ _)).1 with hnone | hnone
    · rw [hnone] at hfirst
      cases hfirst
    · rw [hnone] at hsecond
      cases hsecond
  modules id op := by
    obtain ⟨hapart, hor⟩ := apart_of_squash h.creates hnext.creates hsquash (.module id.1 id.2)
    have hsplit : opOf all (.module id.1 id.2) = some op ↔
        opOf writes (.module id.1 id.2) = some op ∨ opOf next (.module id.1 id.2) = some op := by
      rw [hor]
      rcases hapart with hnone | hnone <;> rw [hnone] <;> simp
    rw [hsplit, h.modules, hnext.modules]
    simp only [List.mem_append, or_and_right, exists_or]
  resources address tag := by
    rw [(apart_of_squash h.creates hnext.creates hsquash (.resource address tag)).2, h.resources,
      hnext.resources]
    rfl

theorem publishes_bundle {bundle : List (ModuleId × Bytes)}
    (h : convertBundleIntoModuleOps bundle = some writes) : Publishes writes bundle := by
  unfold convertBundleIntoModuleOps at h
  induction bundle using List.reverseRecOn generalizing writes with
  | nil =>
    obtain rfl := Option.some.inj h
    exact publishes_nil
  | append_singleton bundle module ih =>
    obtain ⟨id, bytes⟩ := module
    rw [List.foldlM_append] at h
    obtain ⟨before, hbefore, hadd⟩ := Option.bind_eq_some_iff.mp h
    have hadd : addAt before (.module id.1 id.2) (.new bytes) = some writes := by
      simpa [addAt] using hadd
    have hpublished := ih hbefore
    obtain ⟨habsent, hafter⟩ := opOf_addAt hadd
    have hnew : ∀ other, (id, other) ∉ bundle := by
      intro other hmem
      rw [(hpublished.modules id (.new other)).mpr ⟨other, hmem, rfl⟩] at habsent
      cases habsent
    refine ⟨?_, fun key op => ?_, fun address tag => ?_⟩
    · rw [List.map_append, List.nodup_append']
      refine ⟨hpublished.nodup, List.nodup_singleton _, ?_⟩
      intro found hfound hlast
      obtain rfl := List.mem_singleton.mp hlast
      obtain ⟨⟨_, other⟩, hmem, hid⟩ := List.mem_map.mp hfound
      dsimp only at hid
      exact hnew other (hid ▸ hmem)
    · rw [hafter]
      by_cases hkey : key = id
      · subst hkey
        rw [if_pos rfl]
        simp only [List.mem_append, List.mem_singleton, Prod.mk.injEq, true_and, hnew, false_or,
          Option.some.injEq]
        exact ⟨fun hop => ⟨bytes, rfl, hop.symm⟩, fun ⟨_, hbytes, hop⟩ => by rw [hop, hbytes]⟩
      · have hkeys : ¬ StateKey.module key.1 key.2 = .module id.1 id.2 := by
          intro hsame
          obtain ⟨hfirst, hsecond⟩ := StateKey.module.inj hsame
          exact hkey (Prod.ext hfirst hsecond)
        rw [if_neg hkeys, hpublished.modules]
        simp [hkey]
    · rw [hafter, if_neg (by simp)]
      exact hpublished.resources address tag

/-- What is published into a state was not there. -/
theorem Holds.fresh {state after : InMemoryStorage} (h : Holds state modules)
    (hwrites : Publishes writes later) (happly : state.apply writes = some after) {id : ModuleId}
    {bytes other : Bytes} (hlater : (id, bytes) ∈ later) : (id, other) ∉ modules := by
  have hop := (hwrites.modules id (.new bytes)).mpr ⟨bytes, hlater, rfl⟩
  have hfits : valueAt state (.module id.1 id.2) = none :=
    isSome_apply_iff.mp (Option.isSome_iff_exists.mpr ⟨_, happly⟩) _ _ hop
  rw [← h.modules, hfits]
  simp

theorem Holds.add {state after : InMemoryStorage} (h : Holds state modules)
    (hwrites : Publishes writes later) (happly : state.apply writes = some after) :
    Holds after (modules ++ later) where
  nodup := by
    rw [List.map_append]
    refine List.nodup_append'.mpr ⟨h.nodup, hwrites.nodup, fun id hid hid' => ?_⟩
    obtain ⟨⟨_, bytes⟩, hmem, rfl⟩ := List.mem_map.mp hid
    obtain ⟨⟨_, other⟩, hmem', hsame⟩ := List.mem_map.mp hid'
    dsimp only at hsame
    subst hsame
    exact h.fresh hwrites happly hmem' hmem
  modules id bytes := by
    have hvalue := valueAt_apply happly (.module id.1 id.2)
    cases hop : opOf writes (.module id.1 id.2) with
    | none =>
      rw [hop] at hvalue
      have hnot : (id, bytes) ∉ later := by
        intro hmem
        rw [(hwrites.modules id (.new bytes)).mpr ⟨bytes, hmem, rfl⟩] at hop
        cases hop
      rw [hvalue, List.mem_append, ← h.modules]
      simp [hnot, Op.after]
    | some op =>
      obtain ⟨found, hmem, rfl⟩ := (hwrites.modules id op).mp hop
      have hnot : (id, bytes) ∉ modules := h.fresh hwrites happly hmem
      rw [hop] at hvalue
      rw [hvalue, List.mem_append]
      simp only [hnot, false_or, Op.after, Op.value, Option.some.injEq]
      constructor
      · rintro rfl
        exact hmem
      · exact fun hbytes => hwrites.eq_of_mem hmem hbytes
  resources address tag := by
    rw [valueAt_apply happly, hwrites.resources, h.resources]
    rfl

end Publishing

section Frameworks

variable {S : Type} (vm : GenesisVm S)

/-- The sessions that run over a state. -/
inductive GenesisVm.Ran (state : InMemoryStorage) : S → Prop
  | new : GenesisVm.Ran state (vm.newSession state)
  | execute {session next : S} {id : ModuleId} {function : String} {args : List Bytes} :
      GenesisVm.Ran state session →
      vm.executeFunction state session id function args = some next → GenesisVm.Ran state next

/-- Documented behaviour of the Move VM: a verified bundle is the code it was made of, each module
under its own id; a session publishes no modules, and its changes fit the state it ran over. -/
structure GenesisVm.Lawful : Prop where
  verify : ∀ state sender code bundle, vm.verify state sender code = some bundle →
    bundle.Perm (code.map fun bytes => (vm.selfId bytes, bytes))
  publishesNone : ∀ state session writes, vm.Ran state session →
    vm.finish state session = some writes →
    ∀ address name, opOf writes (.module address name) = none
  fits : ∀ state session writes, vm.Ran state session → vm.finish state session = some writes →
    ∀ key op, opOf writes key = some op → op.Fits (valueAt state key)

def named (code : List Bytes) : List (ModuleId × Bytes) :=
  code.map fun bytes => (vm.selfId bytes, bytes)

theorem named_append (code later : List Bytes) :
    named vm (code ++ later) = named vm code ++ named vm later :=
  List.map_append

def aptosCode (packages : List ReleasePackage) : List Bytes :=
  packages.flatMap ReleasePackage.code

def suiCode (snapshots : Table AccountAddress (List Bytes)) : List Bytes :=
  (snapshots.lookup suiStdlibAddress).getD [] ++ (snapshots.lookup suiFrameworkAddress).getD []

variable {vm} (hvm : vm.Lawful) {state : InMemoryStorage} {writes : MoveChangeSet}

include hvm

theorem publishes_verified {sender : AccountAddress} {code : List Bytes}
    {bundle : List (ModuleId × Bytes)} (h : vm.verify state sender code = some bundle)
    (hwrites : convertBundleIntoModuleOps bundle = some writes) :
    Publishes writes (named vm code) :=
  (publishes_bundle hwrites).perm (hvm.verify _ _ _ _ h)

theorem publishes_l2 {code : List Bytes}
    (h : code.foldlM (publishL2Module vm state) ∅ = some writes) :
    Publishes writes (named vm code) := by
  induction code using List.reverseRecOn generalizing writes with
  | nil =>
    obtain rfl := Option.some.inj h
    exact publishes_nil
  | append_singleton code module ih =>
    rw [List.foldlM_append] at h
    obtain ⟨before, hbefore, hlast⟩ := Option.bind_eq_some_iff.mp h
    have hlast : publishL2Module vm state before module = some writes := by simpa using hlast
    unfold publishL2Module at hlast
    dsimp only at hlast
    split_ifs at hlast
    obtain ⟨bundle, hbundle, hlast⟩ := Option.bind_eq_some_iff.mp hlast
    obtain ⟨single, hsingle, hsquash⟩ := Option.bind_eq_some_iff.mp hlast
    rw [named_append]
    exact (ih hbefore).squash (publishes_verified hvm hbundle hsingle) hsquash

theorem publishes_package {package : ReleasePackage}
    (h : packageWrites vm state package = some writes) :
    Publishes writes (named vm package.code) := by
  unfold packageWrites at h
  split_ifs at h
  · exact publishes_l2 hvm h
  · cases hcode : package.code with
    | nil =>
      rw [hcode] at h
      cases h
    | cons code rest =>
      simp only [hcode] at h
      split_ifs at h
      obtain ⟨bundle, hbundle, hwrites⟩ := Option.bind_eq_some_iff.mp h
      exact publishes_verified hvm hbundle hwrites

/-- What was published since a state was taken over, and the state it was published in. -/
structure Deployed (before : List (ModuleId × Bytes)) (deployment : Deployment)
    (modules : List (ModuleId × Bytes)) : Prop where
  writes : Publishes deployment.1 modules
  state : Holds deployment.2 (before ++ modules)

omit hvm in
theorem Deployed.add {before modules later : List (ModuleId × Bytes)} {deployment next : Deployment}
    (h : Deployed before deployment modules) (hwrites : Publishes writes later)
    (hadd : deployment.add writes = some next) : Deployed before next (modules ++ later) := by
  obtain ⟨state, hstate, hadd⟩ := Option.bind_eq_some_iff.mp hadd
  obtain ⟨merged, hmerged, hnext⟩ := Option.bind_eq_some_iff.mp hadd
  obtain rfl := Option.some.inj hnext
  refine ⟨h.writes.squash hwrites hmerged, ?_⟩
  rw [← List.append_assoc]
  exact h.state.add hwrites hstate

theorem deployed_packages {packages : List ReleasePackage}
    {before modules : List (ModuleId × Bytes)}
    {deployment next : Deployment} (h : Deployed before deployment modules)
    (hrun : packages.foldlM (publishPackage vm) deployment = some next) :
    Deployed before next (modules ++ named vm (aptosCode packages)) := by
  induction packages generalizing deployment modules with
  | nil =>
    obtain rfl := Option.some.inj hrun
    rwa [aptosCode, List.flatMap_nil, named, List.map_nil, List.append_nil]
  | cons package packages ih =>
    rw [List.foldlM_cons] at hrun
    obtain ⟨middle, hmiddle, hrun⟩ := Option.bind_eq_some_iff.mp hrun
    obtain ⟨writes, hwrites, hadd⟩ := Option.bind_eq_some_iff.mp hmiddle
    have hlast := ih (h.add (publishes_package hvm hwrites) hadd) hrun
    rwa [List.append_assoc, ← named_append] at hlast

theorem deployed_sui {snapshots : Table AccountAddress (List Bytes)}
    {before modules : List (ModuleId × Bytes)} {deployment next : Deployment}
    {address : AccountAddress} (h : Deployed before deployment modules)
    (hrun : publishSui vm snapshots deployment address = some next) :
    Deployed before next (modules ++ named vm ((snapshots.lookup address).getD [])) := by
  obtain ⟨code, hcode, hrun⟩ := Option.bind_eq_some_iff.mp hrun
  obtain ⟨bundle, hbundle, hrun⟩ := Option.bind_eq_some_iff.mp hrun
  obtain ⟨writes, hwrites, hadd⟩ := Option.bind_eq_some_iff.mp hrun
  rw [hcode, Option.getD_some]
  exact h.add (publishes_verified hvm hbundle hwrites) hadd

/-- A session over modules alone has nothing to modify or delete. -/
theorem creates_of_finish {modules : List (ModuleId × Bytes)} (hstate : Holds state modules)
    {session : S} (hran : vm.Ran state session) (h : vm.finish state session = some writes) :
    CreatesResources writes where
  creates key op hop := by
    cases key with
    | module address name =>
      rw [hvm.publishesNone state session writes hran h] at hop
      cases hop
    | resource address tag =>
      have hfits := hvm.fits state session writes hran h _ op hop
      rw [hstate.resources] at hfits
      exact hfits.eq_new
  modules := hvm.publishesNone state session writes hran h

omit hvm in
theorem ran_of_packages {packages : List ReleasePackage} {session last : S}
    (h : vm.Ran state session)
    (hrun : packages.foldlM (initializePackage vm state) session = some last) :
    vm.Ran state last := by
  induction packages generalizing session with
  | nil => exact Option.some.inj hrun ▸ h
  | cons package packages ih =>
    rw [List.foldlM_cons] at hrun
    obtain ⟨middle, hmiddle, hrun⟩ := Option.bind_eq_some_iff.mp hrun
    refine ih ?_ hrun
    unfold initializePackage at hmiddle
    split at hmiddle
    · cases hmiddle
    · obtain ⟨framework, -, hmiddle⟩ := Option.bind_eq_some_iff.mp hmiddle
      obtain ⟨owner, -, hmiddle⟩ := Option.bind_eq_some_iff.mp hmiddle
      exact .execute h hmiddle

theorem creates_of_initializePackages {packages : List ReleasePackage}
    {modules : List (ModuleId × Bytes)} (hstate : Holds state modules)
    (h : initializePackages vm state packages = some writes) : CreatesResources writes := by
  obtain ⟨session, hsession, hfinish⟩ := Option.bind_eq_some_iff.mp h
  exact creates_of_finish hvm hstate (ran_of_packages .new hsession) hfinish

theorem creates_of_initializeEthToken {modules : List (ModuleId × Bytes)}
    (hstate : Holds state modules) (h : initializeEthToken vm state = some writes) :
    CreatesResources writes := by
  obtain ⟨session, hsession, hfinish⟩ := Option.bind_eq_some_iff.mp h
  exact creates_of_finish hvm hstate (.execute .new hsession) hfinish

omit hvm in
theorem holds_new : Holds InMemoryState.new.resolver [] where
  nodup := List.nodup_nil
  modules id bytes := by
    constructor
    · intro h
      cases h
    · intro h
      cases h
  resources address tag := rfl

/-- The two frameworks: what their sessions ran over and wrote, and what there is afterwards. -/
theorem deployFramework_spec {frameworks : Frameworks} {deployment : Deployment}
    (h : deployFramework vm frameworks InMemoryState.new.resolver = some deployment) :
    ∃ published initialized token aptos sui,
      Holds published (named vm (aptosCode frameworks.aptos)) ∧
      initializePackages vm published frameworks.aptos = some initialized ∧
      initializeEthToken vm published = some token ∧
      Publishes aptos (named vm (aptosCode frameworks.aptos)) ∧
      Publishes sui (named vm (suiCode frameworks.sui)) ∧
      CreatesResources initialized ∧ CreatesResources token ∧
      Joins deployment.1 [aptos, initialized, token, sui] ∧
      Holds deployment.2
        (named vm (aptosCode frameworks.aptos) ++ named vm (suiCode frameworks.sui)) := by
  obtain ⟨afterAptos, haptos, h⟩ := Option.bind_eq_some_iff.mp h
  obtain ⟨token, htoken, h⟩ := Option.bind_eq_some_iff.mp h
  obtain ⟨afterSui, hsui, h⟩ := Option.bind_eq_some_iff.mp h
  obtain ⟨withEth, hwithEth, h⟩ := Option.bind_eq_some_iff.mp h
  obtain ⟨all, hall, h⟩ := Option.bind_eq_some_iff.mp h
  obtain rfl := Option.some.inj h
  obtain ⟨⟨aptos, published⟩, hpackages, haptos⟩ := Option.bind_eq_some_iff.mp haptos
  obtain ⟨initialized, hinitialized, haptos⟩ := Option.bind_eq_some_iff.mp haptos
  obtain ⟨joined, hjoined, haptos⟩ := Option.bind_eq_some_iff.mp haptos
  obtain rfl := Option.some.inj haptos
  obtain ⟨stdlib, hstdlib, hframework⟩ := Option.bind_eq_some_iff.mp hsui
  have hstart : Deployed [] (∅, InMemoryState.new.resolver) [] := ⟨publishes_nil, holds_new⟩
  have hdeployed := deployed_packages hvm hstart hpackages
  rw [List.nil_append] at hdeployed
  have hstate : Holds published (named vm (aptosCode frameworks.aptos)) := hdeployed.state
  have hsuiStart : Deployed (named vm (aptosCode frameworks.aptos)) (∅, published) [] :=
    ⟨publishes_nil, by rwa [List.append_nil]⟩
  have hsuiDeployed := deployed_sui hvm (deployed_sui hvm hsuiStart hstdlib) hframework
  rw [List.nil_append, ← named_append] at hsuiDeployed
  have hinit := creates_of_initializePackages hvm hstate hinitialized
  have heth := creates_of_initializeEthToken hvm hstate htoken
  refine ⟨published, initialized, token, aptos, afterSui.1, hstate, hinitialized, htoken,
    hdeployed.writes, hsuiDeployed.writes, hinit, heth, ?_, hsuiDeployed.state⟩
  have hfirst := (joins_singleton hdeployed.writes.creates).squash
    (joins_singleton hinit.creates) hjoined
  exact (hfirst.squash (joins_singleton heth.creates) hwithEth).squash
    (joins_singleton hsuiDeployed.writes.creates) hall

end Frameworks

section Contracts

variable {lib : TrieLibrary} {keccak256 : Bytes → B256} {state : EvmState}
variable {prior result next : ChangeSet ResourceKey ResourceValue}

/-- Operations that fit a state and delete nothing. -/
structure Updates (resources : ResourceKey → Option ResourceValue)
    (changes : ChangeSet ResourceKey ResourceValue) : Prop where
  fits : changes.Fits resources
  kept : ∀ key op, changes.lookup key = some op → op.value.isSome

theorem updates_empty (resources : ResourceKey → Option ResourceValue) : Updates resources ∅ where
  fits key op hop := by cases hop
  kept key op hop := by cases hop

/-- A resource exists where earlier changes leave one. -/
theorem resourceExists_iff (hprior : Updates state.resources prior) (key : ResourceKey) :
    resourceExists state.resources prior key = true ↔
      prior.apply state.resources key ≠ none := by
  unfold resourceExists ChangeSet.apply
  cases hop : prior.lookup key with
  | none => simp [Option.isSome_iff_ne_none]
  | some op => simp [Option.isSome_iff_ne_none.mp (hprior.kept key op hop)]

theorem Updates.addOp {resources : ResourceKey → Option ResourceValue}
    (h : Updates resources result) {key : ResourceKey} {op : Op ResourceValue}
    (hop : op.Fits (resources key)) (hkept : op.value.isSome)
    (hnext : result.addOp key op = some next) : Updates resources next := by
  obtain ⟨-, rfl⟩ := ChangeSet.addOp_eq_some_iff.mp hnext
  constructor
  · intro other found hfound
    rw [lookup_insert_if] at hfound
    split_ifs at hfound with hother
    · rw [hother, ← Option.some.inj hfound]
      exact hop
    · exact h.fits other found hfound
  · intro other found hfound
    rw [lookup_insert_if] at hfound
    split_ifs at hfound
    · rw [← Option.some.inj hfound]
      exact hkept
    · exact h.kept other found hfound

theorem updates_addAccountChanges {a : Address} {account : EvmAccount} {trie : StorageTrieChanges}
    (hprior : Updates state.resources prior)
    (hresult : Updates (prior.apply state.resources) result)
    (h : addAccountChanges lib keccak256 state a account prior result = some (trie, next)) :
    Updates (prior.apply state.resources) next := by
  obtain ⟨opened, -, h⟩ := Option.bind_eq_some_iff.mp h
  obtain ⟨added, hadded, h⟩ := Option.bind_eq_some_iff.mp h
  obtain ⟨-, rfl⟩ := Prod.mk.inj (Option.some.inj h)
  have hwithAccount : Updates (prior.apply state.resources) added := by
    refine hresult.addOp ?_ ?_ hadded
    · split_ifs with hexists
      · exact (resourceExists_iff hprior _).mp hexists
      · exact not_ne_iff.mp (mt (resourceExists_iff hprior _).mpr hexists)
    · split_ifs <;> rfl
  unfold addCode
  dsimp only
  split_ifs with hexists
  · exact hwithAccount
  split
  · exact hwithAccount
  · exact hwithAccount
  · rename_i code _ _
    have habsent := not_ne_iff.mp (mt (resourceExists_iff hprior _).mpr hexists)
    cases hcode : added.addOp (.code (accountCodeHash keccak256 account.info))
      (.new (.code code)) with
    | none => exact hwithAccount
    | some withCode =>
      refine hwithAccount.addOp ?_ ?_ hcode
      · exact habsent
      · rfl

/-- The changes of the L2 contracts fit the state they are computed over. -/
theorem updates_genesis {alloc : Table Address GenesisAccount} {changes : Changes}
    (h : genesisStateChanges lib keccak256 state alloc = some changes) :
    Updates state.resources changes.accounts := by
  obtain ⟨⟨accounts, tries⟩, hfold, hchanges⟩ := Option.bind_eq_some_iff.mp h
  obtain rfl := Option.some.inj hchanges
  refine keeps_foldlM (P := fun progress : MapProgress => Updates state.resources progress.1)
    (fun start entry next hstart hnext => ?_) (updates_empty _) hfold
  obtain ⟨⟨trie, accounts⟩, hadd, hnext⟩ := Option.bind_eq_some_iff.mp hnext
  obtain rfl := Option.some.inj hnext
  exact updates_addAccountChanges (updates_empty _) hstart hadd

theorem updates_extractMap {progress last : MapProgress} {map : StateMap}
    (h : Updates state.resources progress.1)
    (hlast : extractMap lib keccak256 state progress map = some last) :
    Updates state.resources last.1 := by
  obtain ⟨⟨single, tries⟩, hsingle, hlast⟩ := Option.bind_eq_some_iff.mp hlast
  obtain ⟨accounts, hsquash, hlast⟩ := Option.bind_eq_some_iff.mp hlast
  obtain rfl := Option.some.inj hlast
  have hsingle : Updates (progress.1.apply state.resources) single := by
    refine keeps_foldlM (P := fun middle : MapProgress =>
      Updates (progress.1.apply state.resources) middle.1)
      (fun start entry next hstart hnext => ?_) (updates_empty _) hsingle
    unfold extractAccount at hnext
    split_ifs at hnext
    · exact Option.some.inj hnext ▸ hstart
    · obtain ⟨⟨trie, accounts⟩, hadd, hnext⟩ := Option.bind_eq_some_iff.mp hnext
      obtain rfl := Option.some.inj hnext
      exact updates_addAccountChanges h hstart hadd
  obtain ⟨merged, hmerged, hfits, -⟩ := h.fits.squash hsingle.fits
  rw [hsquash, Option.some.injEq] at hmerged
  subst hmerged
  refine ⟨hfits, fun key op hop => ?_⟩
  have hlookup := ChangeSet.lookup_of_squash hsquash key
  rw [hop] at hlookup
  cases hlater : single.lookup key with
  | none =>
    rw [hlater, ChangeSet.merge_none, Option.some.injEq] at hlookup
    exact h.kept key op hlookup.symm
  | some later =>
    obtain ⟨value, hvalue⟩ := Option.isSome_iff_exists.mp (hsingle.kept key later hlater)
    rw [hlater] at hlookup
    obtain ⟨found, hfound, hfoundValue⟩ := ChangeSet.value_of_merge hvalue hlookup.symm
    rw [Option.some.inj hfound, hfoundValue]
    rfl

theorem updates_extract {maps : List StateMap} {changes : Changes}
    (h : extractEvmChanges lib keccak256 state maps = some changes) :
    Updates state.resources changes.accounts := by
  obtain ⟨⟨accounts, tries⟩, hfold, hchanges⟩ := Option.bind_eq_some_iff.mp h
  obtain rfl := Option.some.inj hchanges
  exact keeps_foldlM (P := fun progress : MapProgress => Updates state.resources progress.1)
    (fun start map next hstart hnext => updates_extractMap hstart hnext) (updates_empty _) hfold

end Contracts

section Build

variable {S X : Type} {libs : Libraries} {vm : GenesisVm S} {revm : Revm X}
variable {frameworks : Frameworks} {config : GenesisConfig} {tries : Address → TrieDb}

theorem state_deployToken {ctx next : NativeEVMContext} {token : BridgedToken}
    (h : deployToken libs revm ctx token = some next) : next.state = ctx.state := by
  unfold deployToken at h
  split at h
  · rename_i outcome after hrun
    split_ifs at h
    obtain rfl := Option.some.inj h
    exact (evmTransactWithNative_ok hrun).1
  · cases h

/-- The tokens are run over what the contracts left. -/
theorem state_runTokens {l2 : Changes} {tokens : List BridgedToken} {ctx : NativeEVMContext}
    (h : runTokens libs revm l2 tokens = some ctx) : ∃ tries,
      applyStorage libs (fun _ => ⟨none, ∅⟩) l2.storage = some tries ∧
        ctx.state = stateOfChanges l2 tries := by
  obtain ⟨tries, htries, h⟩ := Option.bind_eq_some_iff.mp h
  exact ⟨tries, htries,
    keeps_foldlM (P := fun ctx : NativeEVMContext => ctx.state = stateOfChanges l2 tries)
      (fun start token next hstart hnext => (state_deployToken hnext).trans hstart) rfl h⟩

theorem fits_tokens {l2 changes : Changes} {tokens : List BridgedToken}
    (hl2 : Updates (fun _ => none) l2.accounts)
    (h : deployBridgedTokens libs revm l2 tokens = some changes) :
    changes.accounts.Fits fun _ => none := by
  obtain ⟨ctx, hctx, h⟩ := Option.bind_eq_some_iff.mp h
  obtain ⟨new, hnew, h⟩ := Option.bind_eq_some_iff.mp h
  obtain ⟨accounts, haccounts, h⟩ := Option.bind_eq_some_iff.mp h
  obtain rfl := Option.some.inj h
  obtain ⟨tries, -, hstate⟩ := state_runTokens hctx
  have hresources : ctx.state.resources = l2.accounts.apply fun _ => none := by
    rw [hstate]
    funext key
    simp only [stateOfChanges, ChangeSet.apply]
    cases l2.accounts.lookup key <;> rfl
  have hfits := (updates_extract hnew).fits
  rw [hresources] at hfits
  obtain ⟨merged, hmerged, hfits, -⟩ := hl2.fits.squash hfits
  rw [haccounts, Option.some.injEq] at hmerged
  exact hmerged ▸ hfits

theorem evmStateOf_holds {state : InMemoryStorage} {modules : List (ModuleId × Bytes)}
    (hstate : Holds state modules) (tries : Address → TrieDb) :
    evmStateOf libs ⟨⟨state, fun _ => none, none⟩, tries⟩ = ⟨fun _ => none, tries⟩ := by
  have hresource : ∀ tag, (state evmNativeAddress).resources tag = none :=
    fun tag => hstate.resources evmNativeAddress tag
  unfold evmStateOf
  congr 1
  funext key
  cases key with
  | account a => simp only [hresource, Option.bind_none]
  | code codeHash => simp only [hresource, Option.bind_none]

/-- Over a state without resources the L2 contracts create all they write. -/
theorem fits_l2 {state : InMemoryStorage} {modules : List (ModuleId × Bytes)}
    (hstate : Holds state modules) {l2 : Changes}
    (h : l2Changes libs revm config state tries = some l2) : l2.accounts.Fits fun _ => none := by
  obtain ⟨contracts, hcontracts, h⟩ := Option.bind_eq_some_iff.mp h
  have hupdates := updates_genesis hcontracts
  rw [evmStateOf_holds hstate] at hupdates
  split_ifs at h
  · exact Option.some.inj h ▸ hupdates.fits
  · exact fits_tokens hupdates h

theorem opOf_moveChanges {accounts : ChangeSet ResourceKey ResourceValue} {key : StateKey}
    {op : Op Bytes} (h : opOf (moveChanges accounts) key = some op) :
    ∃ resource written, key = .resource evmNativeAddress (resourceTag resource) ∧
      accounts.lookup resource = some written ∧ op = encodeOp written := by
  rw [opOf_eq] at h
  obtain ⟨account, haccount, hop⟩ := Option.bind_eq_some_iff.mp h
  obtain ⟨howner, rfl⟩ := eq_of_lookup_singleton haccount
  cases key with
  | module address name => cases hop
  | resource address tag =>
    obtain rfl : address = evmNativeAddress := howner
    rw [opIn, AList.lookup, List.toAList, List.dlookup_dedupKeys] at hop
    have hentry := List.of_mem_dlookup hop
    obtain ⟨⟨resource, written⟩, hwritten, hsame⟩ := List.mem_map.mp hentry
    cases hsame
    exact ⟨resource, written, rfl, AList.mem_lookup_iff.mpr hwritten, rfl⟩

theorem creates_moveChanges {accounts : ChangeSet ResourceKey ResourceValue}
    (h : accounts.Fits fun _ => none) : CreatesResources (moveChanges accounts) where
  creates key op hop := by
    obtain ⟨resource, written, -, hwritten, rfl⟩ := opOf_moveChanges hop
    obtain ⟨value, rfl⟩ := (h resource written hwritten).eq_new
    exact ⟨_, rfl⟩
  modules address name := by
    by_contra hsome
    obtain ⟨op, hop⟩ := Option.ne_none_iff_exists'.mp hsome
    obtain ⟨_, _, hkey, -⟩ := opOf_moveChanges hop
    cases hkey

/-- The stages of a build, and what they make together. -/
theorem build_spec (hvm : vm.Lawful) {genesis : GenesisChanges}
    (h : build libs vm revm frameworks config tries = some genesis) :
    ∃ published state initialized token aptos sui l2,
      Holds published (named vm (aptosCode frameworks.aptos)) ∧
      initializePackages vm published frameworks.aptos = some initialized ∧
      initializeEthToken vm published = some token ∧
      Holds state (named vm (aptosCode frameworks.aptos ++ suiCode frameworks.sui)) ∧
      l2Changes libs revm config state tries = some l2 ∧ genesis.evmStorage = l2.storage ∧
      genesis.tables = .default ∧
      Publishes aptos (named vm (aptosCode frameworks.aptos)) ∧
      Publishes sui (named vm (suiCode frameworks.sui)) ∧
      (∀ stage ∈ [initialized, token, moveChanges l2.accounts], CreatesResources stage) ∧
      Joins genesis.accounts [aptos, initialized, token, sui, moveChanges l2.accounts] := by
  obtain ⟨framework, hframework, h⟩ := Option.bind_eq_some_iff.mp h
  obtain ⟨l2, hl2, h⟩ := Option.bind_eq_some_iff.mp h
  obtain ⟨start, hstart, h⟩ := Option.bind_eq_some_iff.mp h
  obtain ⟨accounts, haccounts, h⟩ := Option.bind_eq_some_iff.mp h
  obtain rfl := Option.some.inj h
  obtain ⟨published, initialized, token, aptos, sui, hpublished, hinitialized, htoken, haptos,
    hsui, hinit, heth, hjoins, hstate⟩ := deployFramework_spec hvm hframework
  have hmove := creates_moveChanges (fits_l2 hstate hl2)
  have hall := (joins_nil.squash hjoins hstart).squash (joins_singleton hmove.creates) haccounts
  rw [← named_append] at hstate
  refine ⟨published, _, initialized, token, aptos, sui, l2, hpublished, hinitialized, htoken,
    hstate, hl2, rfl, rfl, haptos, hsui, ?_, hall⟩
  intro stage hstage
  simp only [List.mem_cons, List.not_mem_nil, or_false] at hstage
  rcases hstage with rfl | rfl | rfl
  · exact hinit
  · exact heth
  · exact hmove

/-- A build that comes to its end has lost nothing: applied to an empty state, its changes leave
exactly the modules of both frameworks, each under its own id, and exactly the resources that the
two sessions and the EVM wrote, no two of which wrote the same one. -/
theorem genesis_keeps_every_write (hvm : vm.Lawful) {genesis : GenesisChanges}
    (h : build libs vm revm frameworks config tries = some genesis) :
    ∃ published state initialized token l2 storage,
      Holds published (named vm (aptosCode frameworks.aptos)) ∧
      initializePackages vm published frameworks.aptos = some initialized ∧
      initializeEthToken vm published = some token ∧
      Holds state (named vm (aptosCode frameworks.aptos ++ suiCode frameworks.sui)) ∧
      l2Changes libs revm config state tries = some l2 ∧ genesis.evmStorage = l2.storage ∧
      InMemoryState.new.resolver.apply genesis.accounts = some storage ∧
      (∀ id bytes, storage.getModule id.1 id.2 = some bytes ↔
        (id, bytes) ∈ named vm (aptosCode frameworks.aptos ++ suiCode frameworks.sui)) ∧
      [initialized, token, moveChanges l2.accounts].Pairwise
        (fun a b => ∀ key, opAt a (.stateKey key) = none ∨ opAt b (.stateKey key) = none) ∧
      ∀ address tag value, (storage address).resources tag = some value ↔
        ∃ writes ∈ [initialized, token, moveChanges l2.accounts],
          opAt writes (.stateKey (.resource address tag)) = some (.new value) := by
  obtain ⟨published, state, initialized, token, aptos, sui, l2, hpublished, hinitialized, htoken,
    hstate, hl2, hstorage, -, haptos, hsui, hresources, hall⟩ := build_spec hvm h
  obtain ⟨storage, happly, hvalue⟩ := apply_new hall.creates_all
  have hinit := (hresources initialized (by simp)).modules
  have heth := (hresources token (by simp)).modules
  have hmove := (hresources (moveChanges l2.accounts) (by simp)).modules
  refine ⟨published, state, initialized, token, l2, storage, hpublished, hinitialized, htoken,
    hstate, hl2, hstorage, happly, fun id bytes => ?_, ?_, fun address tag value => ?_⟩
  · change valueAt storage (.module id.1 id.2) = some bytes ↔ _
    rw [hvalue, hall.value_iff, named_append, List.mem_append]
    simp [hinit, heth, hmove, haptos.modules, hsui.modules]
  · refine hall.apart.sublist ?_
    exact .cons _ (.cons_cons _ (.cons_cons _ (.cons _ (.refl _))))
  · change valueAt storage (.resource address tag) = some value ↔ _
    rw [hvalue, hall.value_iff]
    simp [haptos.resources, hsui.resources]

end Build

section Samples

/-- The modules of the sample packages, by their bytes. -/
def sampleSelfId : Bytes → ModuleId
  | [1] => (frameworkAddress, "code")
  | [2] => (frameworkAddress, "eth_token")
  | [3] => (toMoveAddress factoryAddress, "token_factory")
  | [4] => (suiStdlibAddress, "vector")
  | _ => (suiFrameworkAddress, "object")

/-- The resource that a function leaves under its last signer. -/
def functionTag (id : ModuleId) (function : String) : StructTag := ⟨id.1, id.2, function, []⟩

def lastSigner (args : List Bytes) : AccountAddress :=
  BitVec.ofNat 256 (beNat ((args.take 2).getLastD []))

/-- A machine whose functions leave one resource each. -/
def sampleVm : GenesisVm MoveChangeSet where
  selfId := sampleSelfId
  verify _ _ code := some (code.map fun bytes => (sampleSelfId bytes, bytes))
  newSession _ := ∅
  executeFunction state session id function args :=
    if (state.getModule id.1 id.2).isSome then
      addResourceOp session (lastSigner args) (functionTag id function) (.new [1])
    else none
  finish state session := if (state.apply session).isSome then some session else none

theorem modules_of_ran {state : InMemoryStorage} {session : MoveChangeSet}
    (h : sampleVm.Ran state session) (address : AccountAddress) (name : String) :
    opOf session (.module address name) = none := by
  induction h with
  | new => rfl
  | @execute session next id function args hran hexecuted ih =>
    simp only [sampleVm, Option.ite_none_right_eq_some] at hexecuted
    have hadd : addAt session (.resource (lastSigner args) (functionTag id function)) (.new [1]) =
        some next := hexecuted.2
    rw [(opOf_addAt hadd).2, if_neg (by simp), ih]

theorem sampleVm_lawful : sampleVm.Lawful where
  verify state sender code bundle h := by
    obtain rfl : _ = bundle := Option.some.inj h
    exact .refl _
  publishesNone state session writes hran h := by
    simp only [sampleVm, Option.ite_none_right_eq_some, Option.some.injEq] at h
    obtain ⟨-, rfl⟩ := h
    exact modules_of_ran hran
  fits state session writes hran h := by
    simp only [sampleVm, Option.ite_none_right_eq_some, Option.some.injEq] at h
    obtain ⟨happly, rfl⟩ := h
    exact isSome_apply_iff.mp happly

/-- The initializer's package, one of the L2, and the two of Sui. -/
def sampleFrameworks : Frameworks where
  aptos := [⟨"AptosFramework", [7], [[1], [2]]⟩, ⟨l2PackageName, [8], [[3]]⟩]
  sui := (AList.singleton suiStdlibAddress [[4]]).insert suiFrameworkAddress [[5]]

/-- A factory with one slot for the first token and one for all others. -/
def factoryRevm : Revm U256 where
  execute env := .done (.ok (if env.tx.data[35]? = some 0xc7 then 0 else 1))
  journal _ := []
  postExecution slot := .done (.ok ⟨.success 21000 [] [] none, setSlot factoryAddress slot⟩)

def tokenConfig : GenesisConfig where
  initialStateRoot := emptyRoot
  l2ContractGenesis := AList.singleton factoryAddress ⟨none, 0, none, none⟩
  tokenList := [⟨"Tether USD", "USDT", 6, 0xdac17f958d2ee523a2206206994597c13d831ec7⟩,
    ⟨"Dai", "DAI", 18, 0x6b175474e89094c44da98b954eedeac495271d0f⟩]

theorem deployed_isSome : (build storeLibs sampleVm factoryRevm sampleFrameworks tokenConfig
    emptyNode.evmStorage).isSome := by
  decide +kernel

/-- Both frameworks' modules, and nothing else, are where they belong. -/
theorem genesis_keeps_every_write_sample : ∃ genesis storage,
    build storeLibs sampleVm factoryRevm sampleFrameworks tokenConfig emptyNode.evmStorage =
      some genesis ∧
    InMemoryState.new.resolver.apply genesis.accounts = some storage ∧
    storage.getModule suiFrameworkAddress "object" = some [5] ∧
    storage.getModule frameworkAddress "object" = none := by
  obtain ⟨genesis, hgenesis⟩ := Option.isSome_iff_exists.mp deployed_isSome
  obtain ⟨-, -, -, -, -, storage, -, -, -, -, -, -, happly, hmodules, -, -⟩ :=
    genesis_keeps_every_write sampleVm_lawful hgenesis
  refine ⟨genesis, storage, hgenesis, happly, ?_, ?_⟩
  · exact (hmodules (suiFrameworkAddress, "object") [5]).mpr (by decide)
  · refine Option.eq_none_iff_forall_ne_some.mpr fun bytes hbytes => ?_
    have hmem := (hmodules (frameworkAddress, "object") bytes).mp hbytes
    obtain ⟨code, hcode, hsame⟩ := List.mem_map.mp hmem
    have hid : ∀ code ∈ aptosCode sampleFrameworks.aptos ++ suiCode sampleFrameworks.sui,
        sampleSelfId code ≠ (frameworkAddress, "object") := by
      decide
    exact hid code hcode (Prod.mk.inj hsame).1

end Samples

end OpMove.Genesis
