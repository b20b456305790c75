import OpMove.Multimaps

/-!
Maps with one writer and many readers. A write stays with the writer until the map is refreshed;
readers see the map as it was refreshed last. A program of writes is run one step at a time, and
readers may come between any two steps.
-/

namespace OpMove.Handles

open Multimaps

variable {K V : Type}

/-- What readers see, and what the writer has written. -/
structure Handle (K V : Type) where
  shown : Multimap K V
  written : Multimap K V

namespace Handle

/-- Everything that was written is shown. -/
def settled (m : Multimap K V) : Handle K V := ⟨m, m⟩

def insert (handle : Handle K V) (key : K) (value : V) : Handle K V :=
  { handle with written := handle.written.insert key value }

def extend (handle : Handle K V) (entries : List (K × V)) : Handle K V :=
  { handle with written := ⟨handle.written.entries ++ entries⟩ }

def refresh (handle : Handle K V) : Handle K V := { handle with shown := handle.written }

@[simp] theorem shown_settled (m : Multimap K V) : (settled m).shown = m := rfl

@[simp] theorem written_settled (m : Multimap K V) : (settled m).written = m := rfl

@[simp] theorem shown_insert (handle : Handle K V) (key : K) (value : V) :
    (handle.insert key value).shown = handle.shown := rfl

@[simp] theorem written_insert (handle : Handle K V) (key : K) (value : V) :
    (handle.insert key value).written = handle.written.insert key value := rfl

@[simp] theorem shown_extend (handle : Handle K V) (entries : List (K × V)) :
    (handle.extend entries).shown = handle.shown := rfl

@[simp] theorem written_extend (handle : Handle K V) (entries : List (K × V)) :
    (handle.extend entries).written = ⟨handle.written.entries ++ entries⟩ := rfl

@[simp] theorem shown_refresh (handle : Handle K V) : handle.refresh.shown = handle.written := rfl

@[simp] theorem written_refresh (handle : Handle K V) :
    handle.refresh.written = handle.written := rfl

/-- Readers see nothing that was not written. -/
def Behind (handle : Handle K V) : Prop := handle.shown.entries ⊆ handle.written.entries

theorem behind_settled (m : Multimap K V) : (settled m).Behind := List.Subset.refl _

theorem Behind.insert {handle : Handle K V} (h : handle.Behind) (key : K) (value : V) :
    (handle.insert key value).Behind := fun _ hentry => List.mem_append_left _ (h hentry)

theorem Behind.extend {handle : Handle K V} (h : handle.Behind) (entries : List (K × V)) :
    (handle.extend entries).Behind := fun _ hentry => List.mem_append_left _ (h hentry)

theorem behind_refresh (handle : Handle K V) : handle.refresh.Behind := List.Subset.refl _

end Handle

end OpMove.Handles
