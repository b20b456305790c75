import Mathlib.Data.List.Infix

/-!
Programs that write to a store, one write after the other, and may stop on the way. A trace is
what a program writes, in order, with its result unless it stops. Whoever interrupts a program
leaves a prefix of its writes in the store.
-/

namespace OpMove.Traces

structure Trace (W α : Type) where
  writes : List W
  result : Option α

namespace Trace

variable {W α β ι S : Type}

def emit (write : W) : Trace W Unit := ⟨[write], some ()⟩

/-- A step without writes, which may stop. -/
def ofOption (result : Option α) : Trace W α := ⟨[], result⟩

def bind (trace : Trace W α) (f : α → Trace W β) : Trace W β :=
  match trace.result with
  | none => ⟨trace.writes, none⟩
  | some a => ⟨trace.writes ++ (f a).writes, (f a).result⟩

instance : Monad (Trace W) where
  pure a := ⟨[], some a⟩
  bind := bind

@[simp] theorem writes_pure (a : α) : (pure a : Trace W α).writes = [] := rfl

@[simp] theorem result_pure (a : α) : (pure a : Trace W α).result = some a := rfl

@[simp] theorem writes_ofOption (a : Option α) : (ofOption a : Trace W α).writes = [] := rfl

@[simp] theorem result_ofOption (a : Option α) : (ofOption a : Trace W α).result = a := rfl

@[simp] theorem writes_emit (write : W) : (emit write).writes = [write] := rfl

@[simp] theorem result_emit (write : W) : (emit write).result = some () := rfl

theorem bind_of_some {trace : Trace W α} {f : α → Trace W β} {a : α} (h : trace.result = some a) :
    trace >>= f = ⟨trace.writes ++ (f a).writes, (f a).result⟩ := by
  change trace.bind f = _
  rw [bind, h]

theorem bind_of_none {trace : Trace W α} {f : α → Trace W β} (h : trace.result = none) :
    trace >>= f = ⟨trace.writes, none⟩ := by
  change trace.bind f = _
  rw [bind, h]

theorem result_bind_eq_some {trace : Trace W α} {f : α → Trace W β} {b : β}
    (h : (trace >>= f).result = some b) :
    ∃ a, trace.result = some a ∧ (f a).result = some b ∧
      (trace >>= f).writes = trace.writes ++ (f a).writes := by
  cases htrace : trace.result with
  | none =>
    rw [bind_of_none htrace] at h
    cases h
  | some a =>
    rw [bind_of_some htrace] at h ⊢
    exact ⟨a, rfl, h, rfl⟩

/-- A write of a sequence comes from one of its two parts. -/
theorem mem_writes_bind {trace : Trace W α} {f : α → Trace W β} {write : W}
    (h : write ∈ (trace >>= f).writes) :
    write ∈ trace.writes ∨ ∃ a, trace.result = some a ∧ write ∈ (f a).writes := by
  cases htrace : trace.result with
  | none =>
    rw [bind_of_none htrace] at h
    exact Or.inl h
  | some a =>
    rw [bind_of_some htrace] at h
    rcases List.mem_append.mp h with hfirst | hsecond
    · exact Or.inl hfirst
    · exact Or.inr ⟨a, rfl, hsecond⟩

/-- A prefix that reaches a write contains everything before it. -/
theorem prefix_through {before rest done : List W} {write : W}
    (hdone : done <+: before ++ write :: rest) (hwrite : write ∈ done) (hnew : write ∉ before) :
    ∃ part, part <+: rest ∧ done = before ++ write :: part := by
  rcases List.prefix_or_prefix_of_prefix hdone (List.prefix_append before (write :: rest)) with
    hshort | hlong
  · exact absurd (hshort.subset hwrite) hnew
  · obtain ⟨tail, rfl⟩ := hlong
    rw [List.prefix_append_right_inj] at hdone
    cases tail with
    | nil => exact absurd (by simpa using hwrite) hnew
    | cons first part =>
      obtain ⟨rfl, hpart⟩ := List.cons_prefix_cons.mp hdone
      exact ⟨part, hpart, rfl⟩

section Stores

variable (apply : W → S → S)

/-- The store after some writes. -/
def after (writes : List W) (store : S) : S := writes.foldl (fun store write => apply write store) store

@[simp] theorem after_nil (store : S) : after apply [] store = store := rfl

@[simp] theorem after_cons (write : W) (writes : List W) (store : S) :
    after apply (write :: writes) store = after apply writes (apply write store) := rfl

theorem after_append (writes more : List W) (store : S) :
    after apply (writes ++ more) store = after apply more (after apply writes store) := by
  simp [after]

variable {apply}

/-- What every one of the writes keeps, they keep together. -/
theorem after_keeps {P : S → Prop} {writes : List W} {store : S}
    (hstep : ∀ write ∈ writes, ∀ store, P store → P (apply write store)) (h : P store) :
    P (after apply writes store) := by
  induction writes generalizing store with
  | nil => exact h
  | cons write rest ih =>
    rw [after_cons]
    refine ih (fun other hother => hstep other (List.mem_cons_of_mem write hother)) ?_
    exact hstep write List.mem_cons_self store h

end Stores

section Loops

variable {step : α → ι → Trace W α}

theorem mem_writes_foldlM {P : W → Prop} {items : List ι}
    (hstep : ∀ a, ∀ item ∈ items, ∀ write ∈ (step a item).writes, P write) {a : α} {write : W}
    (h : write ∈ (items.foldlM step a).writes) : P write := by
  induction items generalizing a with
  | nil => cases h
  | cons item rest ih =>
    rw [List.foldlM_cons] at h
    rcases mem_writes_bind h with hfirst | ⟨next, -, hrest⟩
    · exact hstep a item List.mem_cons_self write hfirst
    · exact ih (fun a other hother => hstep a other (List.mem_cons_of_mem item hother)) hrest

/-- The result of a loop is the loop over the results. -/
theorem result_foldlM (items : List ι) (a : α) :
    (items.foldlM step a).result = items.foldlM (fun a item => (step a item).result) a := by
  induction items generalizing a with
  | nil => rfl
  | cons item rest ih =>
    rw [List.foldlM_cons, List.foldlM_cons]
    cases hone : (step a item).result with
    | none => rw [bind_of_none hone, Option.bind_eq_bind, Option.bind_none]
    | some next => rw [bind_of_some hone, Option.bind_eq_bind, Option.bind_some, ← ih next]

/-- A loop whose steps keep the store in a relation with the accumulator does so to its end. -/
theorem foldlM_relates {apply : W → S → S} {R : S → α → Prop} {items : List ι}
    (hstep : ∀ item ∈ items, ∀ store a next, R store a → (step a item).result = some next →
      R (after apply (step a item).writes store) next)
    {a final : α} {store : S} (h : (items.foldlM step a).result = some final) (hstart : R store a) :
    R (after apply (items.foldlM step a).writes store) final := by
  induction items generalizing a store with
  | nil =>
    obtain rfl : a = final := Option.some.inj h
    exact hstart
  | cons item rest ih =>
    rw [List.foldlM_cons] at h ⊢
    obtain ⟨next, hone, hrest, hwrites⟩ := result_bind_eq_some h
    rw [hwrites, after_append]
    refine ih (fun other hother => hstep other (List.mem_cons_of_mem item hother)) hrest ?_
    exact hstep item List.mem_cons_self store a next hstart hone

end Loops

end Trace

end OpMove.Traces
