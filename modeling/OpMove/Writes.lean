import Mathlib.Data.List.Perm.Basic
import Mathlib.Data.List.Nodup
import Mathlib.Logic.Function.Basic

/-!
Writes into a map, one after the other; a write of nothing removes the key. When every key is
written once, the order does not matter: a written key has what was written, and any other key
what it had.
-/

namespace OpMove.Writes

variable {K V : Type} [DecidableEq K]

def writeAll (map : K → Option V) (writes : List (K × Option V)) : K → Option V :=
  writes.foldl (fun map write => Function.update map write.1 write.2) map

variable {map : K → Option V} {writes : List (K × Option V)}

theorem writeAll_of_not_mem {key : K} (h : key ∉ writes.map Prod.fst) :
    writeAll map writes key = map key := by
  induction writes generalizing map with
  | nil => rfl
  | cons write writes ih =>
    obtain ⟨hne, hrest⟩ := not_or.mp (mt List.mem_cons.mpr h)
    rw [writeAll, List.foldl_cons, ← writeAll, ih hrest, Function.update_of_ne hne]

theorem writeAll_of_mem (hnodup : (writes.map Prod.fst).Nodup) {key : K} {value : Option V}
    (h : (key, value) ∈ writes) : writeAll map writes key = value := by
  induction writes generalizing map with
  | nil => cases h
  | cons write writes ih =>
    obtain ⟨hnew, hrest⟩ := List.nodup_cons.mp hnodup
    rw [writeAll, List.foldl_cons, ← writeAll]
    rcases List.mem_cons.mp h with rfl | htail
    · rw [writeAll_of_not_mem hnew, Function.update_self]
    · exact ih hrest htail

theorem writeAll_perm {other : List (K × Option V)} (hperm : writes.Perm other)
    (hnodup : (writes.map Prod.fst).Nodup) : writeAll map writes = writeAll map other := by
  have hkeys : (writes.map Prod.fst).Perm (other.map Prod.fst) := hperm.map Prod.fst
  funext key
  by_cases hmem : key ∈ writes.map Prod.fst
  · obtain ⟨⟨k, value⟩, hwrite, rfl⟩ := List.mem_map.mp hmem
    rw [writeAll_of_mem hnodup hwrite,
      writeAll_of_mem (hkeys.nodup_iff.mp hnodup) (hperm.mem_iff.mp hwrite)]
  · rw [writeAll_of_not_mem hmem, writeAll_of_not_mem (mt hkeys.mem_iff.mpr hmem)]

end OpMove.Writes
