import Mathlib.Data.List.AList
import Mathlib.Tactic.Common

/-!
Finite sets of creations, modifications and deletions, over any keys and values.
A change set has at most one operation for a key. Two change sets that follow one
another are squashed into one; the merge fails where the second does not fit what
the first left, such as a creation of what the first one created.
-/

namespace OpMove.ChangeSets

section Tables

variable {K V : Type} [DecidableEq K]

theorem lookup_insert_if (table : AList fun _ : K => V) (k : K) (v : V) (j : K) :
    (table.insert k v).lookup j = if j = k then some v else table.lookup j := by
  by_cases hj : j = k
  · subst hj
    rw [if_pos rfl, AList.lookup_insert]
  · rw [if_neg hj, AList.lookup_insert_ne hj]

theorem lookup_erase_if (table : AList fun _ : K => V) (k j : K) :
    (table.erase k).lookup j = if j = k then none else table.lookup j := by
  by_cases hj : j = k
  · subst hj
    rw [if_pos rfl, AList.lookup_erase]
  · rw [if_neg hj, AList.lookup_erase_ne hj]

theorem lookup_singleton (k j : K) (v : V) :
    (AList.singleton k v : AList fun _ : K => V).lookup j = if j = k then some v else none := by
  rw [← AList.insert_empty, lookup_insert_if, AList.lookup_empty]

theorem eq_of_lookup_singleton {k j : K} {v w : V}
    (h : (AList.singleton k v : AList fun _ : K => V).lookup j = some w) : j = k ∧ w = v := by
  rw [lookup_singleton] at h
  split_ifs at h with hj
  exact ⟨hj, (Option.some.inj h).symm⟩

/-- Maps that answer alike have the same entries. -/
theorem perm_of_lookup {a b : AList fun _ : K => V} (h : ∀ k, a.lookup k = b.lookup k) :
    a.entries.Perm b.entries := by
  refine List.lookup_ext a.nodupKeys b.nodupKeys fun k v => ?_
  change v ∈ a.lookup k ↔ v ∈ b.lookup k
  rw [h k]

end Tables

inductive Op (V : Type)
  | new (value : V)
  | modify (value : V)
  | delete
  deriving DecidableEq, Repr

/-- One operation after another on one key; `some none` when they cancel out. -/
def Op.squash {V : Type} : Op V → Op V → Option (Option (Op V))
  | .new _, .modify value => some (some (.new value))
  | .modify _, .modify value => some (some (.modify value))
  | .new _, .delete => some none
  | .modify _, .delete => some (some .delete)
  | .delete, .new value => some (some (.modify value))
  | .new _, .new _ | .modify _, .new _ | .delete, .modify _ | .delete, .delete => none

/-- The value an operation leaves. -/
def Op.value {V : Type} : Op V → Option V
  | .new value | .modify value => some value
  | .delete => none

/-- What is there after an operation, if there is one. -/
def Op.after {V : Type} (old : Option V) : Option (Op V) → Option V
  | none => old
  | some op => op.value

/-- A creation needs an absent key, a modification and a deletion a present one. -/
def Op.Fits {V : Type} (op : Op V) (old : Option V) : Prop :=
  match op with
  | .new _ => old = none
  | .modify _ | .delete => old ≠ none

/-- Where nothing is, an operation that fits creates. -/
theorem Op.Fits.eq_new {V : Type} {op : Op V} (h : op.Fits none) : ∃ value, op = .new value := by
  cases op with
  | new value => exact ⟨value, rfl⟩
  | modify value => exact absurd rfl h
  | delete => exact absurd rfl h

abbrev ChangeSet (K V : Type) := AList fun _ : K => Op V

namespace ChangeSet

variable {K V : Type} [DecidableEq K]

/-- Adding an operation for a key that has one already fails. -/
def addOp (changes : ChangeSet K V) (k : K) (op : Op V) : Option (ChangeSet K V) :=
  if (changes.lookup k).isSome then none else some (changes.insert k op)

theorem addOp_eq_some_iff {changes next : ChangeSet K V} {k : K} {op : Op V} :
    changes.addOp k op = some next ↔ changes.lookup k = none ∧ changes.insert k op = next := by
  unfold addOp
  cases changes.lookup k <;> simp

def squashOp (changes : ChangeSet K V) (k : K) (op : Op V) : Option (ChangeSet K V) :=
  match changes.lookup k with
  | none => some (changes.insert k op)
  | some old =>
      match old.squash op with
      | none => none
      | some none => some (changes.erase k)
      | some (some merged) => some (changes.insert k merged)

def squash (changes other : ChangeSet K V) : Option (ChangeSet K V) :=
  other.entries.foldlM (fun acc p => acc.squashOp p.1 p.2) changes

def apply (changes : ChangeSet K V) (base : K → Option V) (k : K) : Option V :=
  match changes.lookup k with
  | none => base k
  | some op => op.value

theorem apply_eq_after (changes : ChangeSet K V) (base : K → Option V) (k : K) :
    changes.apply base k = Op.after (base k) (changes.lookup k) := by
  unfold apply
  cases changes.lookup k <;> rfl

/-- How two operations on a key that follow one another merge. -/
def merge : Option (Op V) → Option (Op V) → Option (Option (Op V))
  | old, none => some old
  | none, some op => some (some op)
  | some old, some op => old.squash op

@[simp] theorem merge_none (old : Option (Op V)) : merge old none = some old := by
  cases old <;> rfl

theorem merge_none_left (op : Option (Op V)) : merge none op = some op := by
  cases op <;> rfl

theorem exists_squashOp {changes : ChangeSet K V} {k : K} {op : Op V}
    (h : (merge (changes.lookup k) (some op)).isSome) :
    ∃ merged, changes.squashOp k op = some merged ∧
      ∀ j, some (merged.lookup j) =
        if j = k then merge (changes.lookup k) (some op) else some (changes.lookup j) := by
  unfold squashOp
  cases hget : changes.lookup k with
  | none =>
    refine ⟨_, rfl, fun j => ?_⟩
    rw [lookup_insert_if]
    split_ifs <;> rfl
  | some old =>
    simp only [merge, hget] at h ⊢
    cases hsquash : old.squash op with
    | none => simp [hsquash] at h
    | some result =>
      cases result with
      | none =>
        refine ⟨_, rfl, fun j => ?_⟩
        rw [lookup_erase_if]
        split_ifs <;> rfl
      | some merged =>
        refine ⟨_, rfl, fun j => ?_⟩
        rw [lookup_insert_if]
        split_ifs <;> rfl

theorem lookup_of_squashOp {changes merged : ChangeSet K V} {k : K} {op : Op V}
    (h : changes.squashOp k op = some merged) (j : K) :
    some (merged.lookup j) =
      if j = k then merge (changes.lookup k) (some op) else some (changes.lookup j) := by
  have hfits : (merge (changes.lookup k) (some op)).isSome := by
    unfold squashOp at h
    cases hget : changes.lookup k with
    | none => rfl
    | some old =>
      simp only [hget] at h
      cases hsquash : old.squash op with
      | none => simp [hsquash] at h
      | some result => simp [merge, hsquash]
  obtain ⟨next, hnext, hget⟩ := exists_squashOp hfits
  rw [h, Option.some.injEq] at hnext
  rw [hnext]
  exact hget j

/-- At the head's key the tail has nothing to add, elsewhere the head changes nothing. -/
theorem merge_cons {k : K} {op : Op V} {entries : List (Σ _ : K, Op V)}
    (hnew : k ∉ entries.keys) {changes next : ChangeSet K V}
    (hget : ∀ j, some (next.lookup j) =
      if j = k then merge (changes.lookup k) (some op) else some (changes.lookup j)) (j : K) :
    merge (next.lookup j) (entries.dlookup j) =
      merge (changes.lookup j) (List.dlookup j (⟨k, op⟩ :: entries)) := by
  have hlater : entries.dlookup k = none := List.dlookup_eq_none.mpr hnew
  have hj := hget j
  by_cases hjk : j = k
  · subst hjk
    rw [if_pos rfl] at hj
    rw [List.dlookup_cons_eq, hlater, ← hj, merge_none]
  · rw [if_neg hjk, Option.some.injEq] at hj
    rw [List.dlookup_cons_ne _ _ hjk, hj]

theorem exists_squashEntries {entries : List (Σ _ : K, Op V)} (hnodup : entries.NodupKeys)
    {changes : ChangeSet K V}
    (h : ∀ k, (merge (changes.lookup k) (entries.dlookup k)).isSome) :
    ∃ merged, entries.foldlM (fun acc p => acc.squashOp p.1 p.2) changes = some merged ∧
      ∀ k, some (merged.lookup k) = merge (changes.lookup k) (entries.dlookup k) := by
  induction entries generalizing changes with
  | nil => exact ⟨changes, rfl, fun k => (merge_none _).symm⟩
  | cons p entries ih =>
    obtain ⟨k, op⟩ := p
    obtain ⟨hnew, hrest⟩ := List.nodupKeys_cons.mp hnodup
    have hfits : (merge (changes.lookup k) (some op)).isSome := by
      simpa using h k
    obtain ⟨next, hnext, hget⟩ := exists_squashOp hfits
    obtain ⟨merged, hmerged, hall⟩ := ih hrest fun j => merge_cons hnew hget j ▸ h j
    refine ⟨merged, ?_, fun j => (hall j).trans (merge_cons hnew hget j)⟩
    rw [List.foldlM_cons, hnext]
    exact hmerged

theorem lookup_of_squashEntries {entries : List (Σ _ : K, Op V)} (hnodup : entries.NodupKeys)
    {changes merged : ChangeSet K V}
    (h : entries.foldlM (fun acc p => acc.squashOp p.1 p.2) changes = some merged) (k : K) :
    some (merged.lookup k) = merge (changes.lookup k) (entries.dlookup k) := by
  induction entries generalizing changes with
  | nil =>
    rw [List.foldlM_nil, Option.pure_def, Option.some.injEq] at h
    rw [h, List.dlookup_nil, merge_none]
  | cons p entries ih =>
    obtain ⟨j, op⟩ := p
    obtain ⟨hnew, hrest⟩ := List.nodupKeys_cons.mp hnodup
    rw [List.foldlM_cons] at h
    obtain ⟨next, hnext, hmerged⟩ := Option.bind_eq_some_iff.mp h
    exact (ih hrest hmerged).trans (merge_cons hnew (lookup_of_squashOp hnext) k)

/-- Change sets whose operations fit together merge, key by key. -/
theorem exists_squash (changes other : ChangeSet K V)
    (h : ∀ k, (merge (changes.lookup k) (other.lookup k)).isSome) :
    ∃ merged, changes.squash other = some merged ∧
      ∀ k, some (merged.lookup k) = merge (changes.lookup k) (other.lookup k) :=
  exists_squashEntries other.nodupKeys h

/-- What a merge that succeeds leaves at a key. -/
theorem lookup_of_squash {changes other merged : ChangeSet K V}
    (h : changes.squash other = some merged) (k : K) :
    some (merged.lookup k) = merge (changes.lookup k) (other.lookup k) :=
  lookup_of_squashEntries other.nodupKeys h k

/-- The later of two merged operations decides the value, unless it deletes. -/
theorem value_of_merge {old : Option (Op V)} {op : Op V} {value : V} {merged : Option (Op V)}
    (hvalue : op.value = some value) (h : merge old (some op) = some merged) :
    ∃ result, merged = some result ∧ result.value = some value := by
  cases old with
  | none => exact ⟨op, (Option.some.inj h).symm, hvalue⟩
  | some old =>
    cases op with
    | delete => cases hvalue
    | new later =>
      cases old <;> simp_all [merge, Op.squash, Op.value]
      exact ⟨_, h.symm, rfl⟩
    | modify later =>
      cases old <;> simp_all [merge, Op.squash, Op.value]
      · exact ⟨_, h.symm, rfl⟩
      · exact ⟨_, h.symm, rfl⟩

section Sequences

variable {old new merged : Option (Op V)} {base : Option V}

/-- Two operations on a key merge where the second finds what the first left. -/
theorem isSome_merge {op : Op V} (hold : ∀ first ∈ old, first.Fits base)
    (hop : op.Fits (Op.after base old)) : (merge old (some op)).isSome := by
  cases old with
  | none => rfl
  | some first =>
    cases first <;> cases op <;>
      simp_all [merge, Op.squash, Op.Fits, Op.after, Op.value]

/-- Merged operations leave what they leave one after the other. -/
theorem after_merge (hold : ∀ first ∈ old, first.Fits base) (h : merge old new = some merged) :
    Op.after base merged = Op.after (Op.after base old) new := by
  cases new with
  | none =>
    rw [merge_none, Option.some.injEq] at h
    rw [h]
    rfl
  | some second =>
    cases old with
    | none =>
      rw [← Option.some.inj h]
      rfl
    | some first =>
      have hfirst := hold first rfl
      cases first <;> cases second <;> simp only [merge, Op.squash, reduceCtorEq,
        Option.some.injEq] at h <;> subst h <;> simp_all [Op.after, Op.value, Op.Fits]

theorem fits_merge (hold : ∀ first ∈ old, first.Fits base)
    (hnew : ∀ second ∈ new, second.Fits (Op.after base old)) (h : merge old new = some merged) :
    ∀ op ∈ merged, op.Fits base := by
  cases new with
  | none =>
    rw [merge_none, Option.some.injEq] at h
    exact h ▸ hold
  | some second =>
    cases old with
    | none =>
      rw [← Option.some.inj h]
      exact hnew
    | some first =>
      have hfirst := hold first rfl
      intro op hop
      cases first <;> cases second <;> simp only [merge, Op.squash, reduceCtorEq,
        Option.some.injEq] at h <;> subst h <;> cases hop <;> simp_all [Op.Fits]

/-- Every operation finds what it needs. -/
def Fits (changes : ChangeSet K V) (base : K → Option V) : Prop :=
  ∀ k op, changes.lookup k = some op → op.Fits (base k)

/-- Squashing a change set with one that fits what it leaves gives both of them, in this order. -/
theorem Fits.squash {changes other : ChangeSet K V} {base : K → Option V} (h : changes.Fits base)
    (hother : other.Fits (changes.apply base)) :
    ∃ merged, changes.squash other = some merged ∧ merged.Fits base ∧
      merged.apply base = other.apply (changes.apply base) := by
  have hold : ∀ k, ∀ first ∈ changes.lookup k, first.Fits (base k) := fun k first => h k first
  have hnew : ∀ k, ∀ second ∈ other.lookup k,
      second.Fits (Op.after (base k) (changes.lookup k)) := by
    intro k second hsecond
    rw [← apply_eq_after]
    exact hother k second hsecond
  obtain ⟨merged, hmerged, hlookup⟩ := exists_squash changes other fun k => by
    cases hop : other.lookup k with
    | none => rw [merge_none]; rfl
    | some second => exact isSome_merge (hold k) (hnew k second hop)
  refine ⟨merged, hmerged, fun k op hop => ?_, funext fun k => ?_⟩
  · exact fits_merge (hold k) (hnew k) (hlookup k).symm op hop
  · rw [apply_eq_after, apply_eq_after, apply_eq_after]
    exact after_merge (hold k) (hlookup k).symm

end Sequences

end ChangeSet

end OpMove.ChangeSets
