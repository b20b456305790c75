import Mathlib.Data.List.Dedup
import Mathlib.Data.List.Perm.Basic
import Mathlib.Data.List.Range

/-!
Maps with a bag of values for each key. A reader that asks for one value gets any of them:
which one is decided by a function of the bag. The number of keys counts each key once.
-/

namespace OpMove.Multimaps

variable {K V : Type} [DecidableEq K]

/-- The insertions, in order. -/
structure Multimap (K V : Type) where
  entries : List (K × V)

/-- A choice of one value out of every bag that has one. -/
structure Picks (pick : List V → Option V) : Prop where
  mem : ∀ {values v}, pick values = some v → v ∈ values
  isSome : ∀ {values}, values ≠ [] → (pick values).isSome

theorem picks_head : Picks (fun values : List V => values.head?) where
  mem h := List.mem_of_head? h
  isSome h := List.isSome_head?.mpr h

namespace Multimap

def empty : Multimap K V := ⟨[]⟩

def insert (m : Multimap K V) (key : K) (value : V) : Multimap K V :=
  ⟨m.entries ++ [(key, value)]⟩

def values (m : Multimap K V) (key : K) : List V :=
  (m.entries.filter fun entry => entry.1 = key).map Prod.snd

def keys (m : Multimap K V) : List K := (m.entries.map Prod.fst).dedup

def len (m : Multimap K V) : ℕ := m.keys.length

def getOne (pick : List V → Option V) (m : Multimap K V) (key : K) : Option V :=
  pick (m.values key)

theorem mem_values {m : Multimap K V} {key : K} {v : V} :
    v ∈ m.values key ↔ (key, v) ∈ m.entries := by
  simp [values]

theorem mem_keys {m : Multimap K V} {key : K} : key ∈ m.keys ↔ ∃ v, (key, v) ∈ m.entries := by
  simp [keys]

theorem nodup_keys (m : Multimap K V) : m.keys.Nodup := List.nodup_dedup _

section Reads

variable {pick : List V → Option V} (hpick : Picks pick) {m : Multimap K V} {key : K}
include hpick

theorem mem_of_getOne {v : V} (h : m.getOne pick key = some v) : (key, v) ∈ m.entries :=
  mem_values.mp (hpick.mem h)

theorem isSome_getOne_iff : (m.getOne pick key).isSome ↔ ∃ v, (key, v) ∈ m.entries := by
  constructor
  · intro h
    obtain ⟨v, hv⟩ := Option.isSome_iff_exists.mp h
    exact ⟨v, mem_of_getOne hpick hv⟩
  · rintro ⟨v, hv⟩
    exact hpick.isSome (List.ne_nil_of_mem (mem_values.mpr hv))

/-- A reader is sure of a value when every insertion under the key has it. -/
theorem getOne_eq_some {v : V} (hmem : (key, v) ∈ m.entries)
    (hunique : ∀ w, (key, w) ∈ m.entries → w = v) : m.getOne pick key = some v := by
  obtain ⟨w, hw⟩ := Option.isSome_iff_exists.mp ((isSome_getOne_iff hpick).mpr ⟨v, hmem⟩)
  rw [hw, hunique w (mem_of_getOne hpick hw)]

end Reads

/-- When the keys are the numbers below `n`, there are `n` of them. -/
theorem len_eq_of_keys {m : Multimap ℕ V} {n : ℕ} (h : ∀ key, key ∈ m.keys ↔ key < n) :
    m.len = n := by
  have hperm : m.keys.Perm (List.range n) :=
    (List.perm_ext_iff_of_nodup m.nodup_keys List.nodup_range).mpr fun key => by
      rw [h key, List.mem_range]
  rw [len, hperm.length_eq, List.length_range]

end Multimap

end OpMove.Multimaps
