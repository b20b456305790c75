import Mathlib.Data.List.Basic
import Mathlib.Tactic.Common

/-!
JSON values and the records that are read out of them. A form says how values of a type are
written and read; a record has named fields, which are read by name from an object and by
position from an array. A record is read back if each of its fields is.
-/

namespace OpMove.JsonValues

/-- A JSON value; numbers are kept as they were written. -/
inductive Json
  | null
  | bool (value : Bool)
  | number (literal : String)
  | string (text : String)
  | array (items : List Json)
  | object (members : List (String × Json))

namespace Json

def member (name : String) : Json → Option Json
  | .object members => members.lookup name
  | _ => none

def asString : Json → Option String
  | .string text => some text
  | _ => none

def asArray : Json → Option (List Json)
  | .array items => some items
  | _ => none

end Json

/-- How values of a type are written and read. -/
structure Form (α : Type) where
  write : α → Json
  read : Json → Option α

namespace Form

variable {α : Type}

/-- What is written is read back. -/
def Exact (form : Form α) : Prop := ∀ a, form.read (form.write a) = some a

def list (form : Form α) : Form (List α) where
  write items := .array (items.map form.write)
  read json := json.asArray.bind fun items => items.mapM form.read

/-- Nothing is written as `null`. -/
def option (form : Form α) : Form (Option α) where
  write
    | none => .null
    | some a => form.write a
  read
    | .null => some none
    | json => (form.read json).map some

theorem Exact.list {form : Form α} (h : form.Exact) : form.list.Exact := by
  intro items
  have hitems : (items.map form.write).mapM form.read = some items := by
    induction items with
    | nil => rfl
    | cons a items ih => simp [h a, ih]
  exact hitems

theorem Exact.option {form : Form α} (h : form.Exact) (hnull : ∀ a, form.write a ≠ .null) :
    form.option.Exact := by
  intro value
  cases value with
  | none => rfl
  | some a =>
    have hread : form.option.read (form.write a) = (form.read (form.write a)).map some := by
      unfold Form.option
      dsimp only
      split
      · rename_i heq
        exact absurd heq (hnull a)
      · rfl
    exact hread.trans (by rw [h a, Option.map_some])

end Form

section Records

variable {α : Type}

/-- The values of the named fields, if the value has the shape of a record. -/
def readFields (names : List String) : Json → Option (List (Option Json))
  | .object members => some (names.map fun name => members.lookup name)
  | .array items => if items.length = names.length then some (items.map some) else none
  | _ => none

/-- A record with the names of its fields; the reader gets the values of the fields by their
positions, nothing for a missing one. -/
structure Record (α : Type) where
  names : List String
  write : α → List Json
  read : (ℕ → Option Json) → Option α

def Record.form (record : Record α) : Form α where
  write a := .object (record.names.zip (record.write a))
  read json := (readFields record.names json).bind fun fields =>
    record.read fun i => (fields[i]?).join

/-- Every name has its own place, every field is written, and fields are read back. -/
structure Record.Lawful (record : Record α) : Prop where
  nodup : record.names.Nodup
  length : ∀ a, (record.write a).length = record.names.length
  read_write : ∀ a, record.read (fun i => (record.write a)[i]?) = some a

theorem map_lookup_zip {names : List String} {values : List Json} (hnodup : names.Nodup)
    (hlen : values.length = names.length) :
    (names.map fun name => (names.zip values).lookup name) = values.map some := by
  induction names generalizing values with
  | nil =>
    obtain rfl := List.length_eq_zero_iff.mp hlen
    rfl
  | cons name names ih =>
    obtain ⟨value, values, rfl⟩ := List.exists_cons_of_length_eq_add_one hlen
    obtain ⟨hnot, hnodup⟩ := List.nodup_cons.mp hnodup
    have hrest : (names.map fun other => ((name, value) :: names.zip values).lookup other) =
        names.map fun other => (names.zip values).lookup other := by
      refine List.map_congr_left fun other hother => ?_
      have hne : (other == name) = false := by
        rw [beq_eq_false_iff_ne]
        rintro rfl
        exact hnot hother
      rw [List.lookup_cons, hne]
    rw [List.zip_cons_cons, List.map_cons, hrest, ih hnodup (by simpa using hlen),
      List.lookup_cons_self, List.map_cons]

theorem Record.Lawful.exact {record : Record α} (h : record.Lawful) : record.form.Exact := by
  intro a
  have hfields : readFields record.names (.object (record.names.zip (record.write a))) =
      some ((record.write a).map some) := by
    rw [readFields, map_lookup_zip h.nodup (h.length a)]
  have hread : (fun i : ℕ => (((record.write a).map some)[i]?).join) =
      fun i : ℕ => (record.write a)[i]? := by
    funext i
    rw [List.getElem?_map]
    cases (record.write a)[i]? <;> rfl
  calc record.form.read (record.form.write a)
      = (readFields record.names (.object (record.names.zip (record.write a)))).bind
          (fun fields => record.read fun i => (fields[i]?).join) := rfl
    _ = record.read (fun i => (record.write a)[i]?) := by rw [hfields, Option.bind_some, hread]
    _ = some a := h.read_write a

/-- Records are written as objects. -/
theorem Record.write_ne_null (record : Record α) (a : α) : record.form.write a ≠ .null := by
  intro h
  cases h

end Records

end OpMove.JsonValues
