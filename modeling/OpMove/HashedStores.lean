import Mathlib.Logic.Function.Basic

/-!
Stores of nodes under their hashes. A part is the nodes of one structure; two stores are
compatible where they have the same node under every hash that both know. A store in front of
another one hides nothing of a part that the store behind has, whatever is written to it and
removed from it, as long as it stays compatible with the part. A part that has its root and every
child of its nodes has everything that can be reached from the root.
-/

namespace OpMove.HashedStores

variable {K N : Type}

abbrev Store (K N : Type) := K → Option N

/-- The store has every node of the part. -/
def Has (store part : Store K N) : Prop :=
  ∀ key node, part key = some node → store key = some node

def Compatible (store part : Store K N) : Prop :=
  ∀ key found node, store key = some found → part key = some node → found = node

/-- One store in front of another. -/
def overlay (front back : Store K N) : Store K N := fun key => (front key).or (back key)

section Overlays

variable {front back store part : Store K N}

theorem compatible_empty (part : Store K N) : Compatible (fun _ => none) part := by
  intro key found node hfound
  cases hfound

theorem Compatible.overlay (hfront : Compatible front part) (hback : Compatible back part) :
    Compatible (overlay front back) part := by
  intro key found node hfound hnode
  unfold HashedStores.overlay at hfound
  cases hkey : front key with
  | some other =>
    rw [hkey, Option.some_or] at hfound
    exact hfront key found node (hkey.trans hfound) hnode
  | none =>
    rw [hkey, Option.none_or] at hfound
    exact hback key found node hfound hnode

/-- Removing nodes takes nothing away from it. -/
theorem Compatible.of_subset {store' : Store K N} (h : Compatible store part)
    (hsub : ∀ key node, store' key = some node → store key = some node) :
    Compatible store' part := by
  intro key found node hfound hnode
  exact h key found node (hsub key found hfound) hnode

theorem overlay_eq_of_either (hfront : Compatible front part) {key : K} {node : N}
    (hnode : part key = some node) (h : front key = some node ∨ back key = some node) :
    overlay front back key = some node := by
  unfold overlay
  cases hkey : front key with
  | some found =>
    rw [hfront key found node hkey hnode]
    rfl
  | none =>
    rw [Option.none_or]
    rcases h with hfound | hfound
    · rw [hkey] at hfound
      cases hfound
    · exact hfound

/-- A part whose nodes are all in front or behind is had by the overlay. -/
theorem has_overlay_of_either (hfront : Compatible front part)
    (h : ∀ key node, part key = some node → front key = some node ∨ back key = some node) :
    Has (overlay front back) part := by
  intro key node hnode
  exact overlay_eq_of_either hfront hnode (h key node hnode)

/-- What is behind stays visible. -/
theorem has_overlay (hfront : Compatible front part) (hback : Has back part) :
    Has (overlay front back) part :=
  has_overlay_of_either hfront fun key node hnode => Or.inr (hback key node hnode)

end Overlays

section Reachability

variable (refs : N → List K)

/-- The hashes that are reached from a root by following the nodes of a store. -/
inductive Reach (store : Store K N) (root : K) : K → Prop
  | root : Reach store root root
  | child {key child : K} {node : N} : Reach store root key → store key = some node →
      child ∈ refs node → Reach store root child

/-- The part has its root and the children of all its nodes. -/
structure Closed (part : Store K N) (root : K) : Prop where
  root : (part root).isSome
  children : ∀ key node, part key = some node → ∀ child ∈ refs node, (part child).isSome

variable {refs} {store part : Store K N} {root : K}

/-- A store that has a closed part has whatever is reached from its root. -/
theorem Closed.present (hclosed : Closed refs part root) (hhas : Has store part) {key : K}
    (h : Reach refs store root key) : (store key).isSome := by
  have hpart : (part key).isSome := by
    induction h with
    | root => exact hclosed.root
    | @child key child node _ hnode hchild ih =>
      obtain ⟨own, hown⟩ := Option.isSome_iff_exists.mp ih
      have hsame : own = node := Option.some.inj ((hhas key own hown).symm.trans hnode)
      exact hclosed.children key own hown child (hsame ▸ hchild)
  obtain ⟨node, hnode⟩ := Option.isSome_iff_exists.mp hpart
  rw [hhas key node hnode]
  rfl

end Reachability

end OpMove.HashedStores
