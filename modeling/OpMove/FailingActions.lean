import Mathlib.Order.Defs.Unbundled

/-!
Actions on a state that can fail and have no rollback: a failed action still leaves a
state, with everything written before the failure. The rules say what a successful
action has done, step by step, and what every action keeps whether or not it fails.
-/

namespace OpMove.FailingActions

/-- An action from states to a result and the state it leaves. -/
def Act (σ ε α : Type) := σ → Except ε α × σ

variable {σ ε α β : Type}

namespace Act

protected def pure (a : α) : Act σ ε α := fun s => (.ok a, s)

protected def bind (x : Act σ ε α) (f : α → Act σ ε β) : Act σ ε β := fun s =>
  match x s with
  | (.ok a, s') => f a s'
  | (.error e, s') => (.error e, s')

instance : Monad (Act σ ε) where
  pure := Act.pure
  bind := Act.bind

def fail (e : ε) : Act σ ε α := fun s => (.error e, s)

def read (f : σ → α) : Act σ ε α := fun s => (.ok (f s), s)

/-- A question about the state that can have no answer. -/
def query (f : σ → Except ε α) : Act σ ε α := fun s => (f s, s)

def update (f : σ → σ) : Act σ ε Unit := fun s => (.ok (), f s)

def mapError {ε' : Type} (f : ε → ε') (x : Act σ ε α) : Act σ ε' α := fun s =>
  match x s with
  | (.ok a, s') => (.ok a, s')
  | (.error e, s') => (.error (f e), s')

def forEach (items : List α) (body : α → Act σ ε Unit) : Act σ ε Unit :=
  match items with
  | [] => Act.pure ()
  | item :: items => (body item).bind fun _ => forEach items body

end Act

section Steps

theorem bind_of_ok {x : Act σ ε α} {f : α → Act σ ε β} {a : α} {s s' : σ}
    (h : x s = (.ok a, s')) : (x >>= f) s = f a s' := by
  show Act.bind x f s = _
  rw [Act.bind, h]

theorem bind_of_error {x : Act σ ε α} {f : α → Act σ ε β} {e : ε} {s s' : σ}
    (h : x s = (.error e, s')) : (x >>= f) s = (.error e, s') := by
  show Act.bind x f s = _
  rw [Act.bind, h]

theorem bind_assoc {δ : Type} (x : Act σ ε α) (f : α → Act σ ε β) (g : β → Act σ ε δ) :
    (x >>= f) >>= g = x >>= fun a => f a >>= g := by
  funext s
  show Act.bind (Act.bind x f) g s = Act.bind x (fun a => Act.bind (f a) g) s
  unfold Act.bind
  rcases x s with ⟨e | a, s'⟩ <;> rfl

theorem bind_pure_unit (x : Act σ ε Unit) : (x >>= fun _ => pure ()) = x := by
  funext s
  show Act.bind x (fun _ => Act.pure ()) s = x s
  unfold Act.bind
  rcases x s with ⟨e | a, s'⟩ <;> rfl

/-- What follows an action depends on its result and on the state it leaves. -/
theorem bind_congr_at {x y : Act σ ε α} {f : α → Act σ ε β} {s t : σ} (h : x s = y t) :
    (x >>= f) s = (y >>= f) t := by
  show Act.bind x f s = Act.bind y f t
  rw [Act.bind, Act.bind, h]

theorem bind_read {f : σ → α} {g : α → Act σ ε β} {s : σ} :
    (Act.read f >>= g) s = g (f s) s := rfl

end Steps

section Success

theorem pure_ok {a b : α} {s s' : σ} :
    (pure a : Act σ ε α) s = (.ok b, s') ↔ a = b ∧ s = s' := by
  simp [pure, Act.pure]

theorem bind_ok {x : Act σ ε α} {f : α → Act σ ε β} {b : β} {s s'' : σ} :
    (x >>= f) s = (.ok b, s'') ↔ ∃ a s', x s = (.ok a, s') ∧ f a s' = (.ok b, s'') := by
  show Act.bind x f s = _ ↔ _
  unfold Act.bind
  rcases x s with ⟨e | a, s'⟩
  · simp
  · constructor
    · intro h
      exact ⟨a, s', rfl, h⟩
    · rintro ⟨a', s'', h, h'⟩
      obtain ⟨ha, hs⟩ := Prod.mk.inj h
      rw [Except.ok.inj ha, hs]
      exact h'

theorem fail_ok {e : ε} {b : α} {s s' : σ} : (Act.fail e : Act σ ε α) s = (.ok b, s') ↔ False := by
  simp [Act.fail]

theorem read_ok {f : σ → α} {b : α} {s s' : σ} :
    (Act.read f : Act σ ε α) s = (.ok b, s') ↔ f s = b ∧ s = s' := by
  simp [Act.read]

theorem query_ok {f : σ → Except ε α} {b : α} {s s' : σ} :
    (Act.query f) s = (.ok b, s') ↔ f s = .ok b ∧ s = s' := by
  simp [Act.query]

theorem update_ok {f : σ → σ} {s s' : σ} :
    (Act.update f : Act σ ε Unit) s = (.ok (), s') ↔ f s = s' := by
  simp [Act.update]

theorem mapError_ok {ε' : Type} {f : ε → ε'} {x : Act σ ε α} {b : α} {s s' : σ} :
    x.mapError f s = (.ok b, s') ↔ x s = (.ok b, s') := by
  unfold Act.mapError
  rcases x s with ⟨e | a, s''⟩ <;> simp

end Success

section Failure

theorem bind_error {x : Act σ ε α} {f : α → Act σ ε β} {e : ε} {s s'' : σ} :
    (x >>= f) s = (.error e, s'') ↔
      x s = (.error e, s'') ∨ ∃ a s', x s = (.ok a, s') ∧ f a s' = (.error e, s'') := by
  show Act.bind x f s = _ ↔ _
  unfold Act.bind
  rcases x s with ⟨e' | a, s'⟩
  · simp
  · constructor
    · intro h
      exact .inr ⟨a, s', rfl, h⟩
    · rintro (h | ⟨a', s'', h, h'⟩)
      · cases (Prod.mk.inj h).1
      · obtain ⟨ha, hs⟩ := Prod.mk.inj h
        rw [Except.ok.inj ha, hs]
        exact h'

theorem pure_error {a : α} {e : ε} {s s' : σ} :
    (pure a : Act σ ε α) s = (.error e, s') ↔ False := by
  simp [pure, Act.pure]

theorem fail_error {e e' : ε} {s s' : σ} :
    (Act.fail e : Act σ ε α) s = (.error e', s') ↔ e = e' ∧ s = s' := by
  simp [Act.fail]

theorem query_error {f : σ → Except ε α} {e : ε} {s s' : σ} :
    (Act.query f) s = (.error e, s') ↔ f s = .error e ∧ s = s' := by
  simp [Act.query]

theorem mapError_error {ε' : Type} {f : ε → ε'} {x : Act σ ε α} {e : ε'} {s s' : σ} :
    x.mapError f s = (.error e, s') ↔ ∃ inner, x s = (.error inner, s') ∧ f inner = e := by
  unfold Act.mapError
  rcases x s with ⟨e' | a, s''⟩
  · simp only [Prod.mk.injEq, Except.error.injEq]
    constructor
    · rintro ⟨he, hs⟩
      exact ⟨e', ⟨rfl, hs⟩, he⟩
    · rintro ⟨inner, ⟨rfl, hs⟩, he⟩
      exact ⟨he, hs⟩
  · simp

end Failure

section Keeps

/-- The relation holds between every state and the state the action leaves. -/
def Keeps (R : σ → σ → Prop) (x : Act σ ε α) : Prop := ∀ s, R s (x s).2

variable {R : σ → σ → Prop}

theorem Keeps.run {x : Act σ ε α} {r : Except ε α} {s s' : σ} (h : Keeps R x)
    (hx : x s = (r, s')) : R s s' := by
  have hkept := h s
  rw [hx] at hkept
  exact hkept

variable [IsPreorder σ R]

theorem Keeps.pure (a : α) : Keeps R (Pure.pure a : Act σ ε α) := fun s => refl_of R s

theorem Keeps.fail (e : ε) : Keeps R (Act.fail e : Act σ ε α) := fun s => refl_of R s

theorem Keeps.read (f : σ → α) : Keeps R (Act.read f : Act σ ε α) := fun s => refl_of R s

theorem Keeps.query (f : σ → Except ε α) : Keeps R (Act.query f) := fun s => refl_of R s

omit [IsPreorder σ R] in
theorem Keeps.mapError {ε' : Type} {x : Act σ ε α} (h : Keeps R x) (f : ε → ε') :
    Keeps R (x.mapError f) := by
  intro s
  have hx := h s
  unfold Act.mapError
  rcases hxs : x s with ⟨e | a, s'⟩ <;> rw [hxs] at hx <;> exact hx

omit [IsPreorder σ R] in
theorem Keeps.ite {p : Prop} [Decidable p] {x y : Act σ ε α} (hx : Keeps R x) (hy : Keeps R y) :
    Keeps R (if p then x else y) := by
  split
  · exact hx
  · exact hy

theorem Keeps.bind {x : Act σ ε α} {f : α → Act σ ε β} (hx : Keeps R x)
    (hf : ∀ a, Keeps R (f a)) : Keeps R (x >>= f) := by
  intro s
  show R s (Act.bind x f s).2
  unfold Act.bind
  have hfirst := hx s
  rcases hxs : x s with ⟨e | a, s'⟩ <;> rw [hxs] at hfirst
  · exact hfirst
  · exact trans_of R hfirst (hf a s')

/-- After a question, only the answers it can have count. -/
theorem Keeps.query_bind {f : σ → Except ε α} {g : α → Act σ ε β}
    (h : ∀ s a, f s = .ok a → R s (g a s).2) : Keeps R (Act.query f >>= g) := by
  intro s
  show R s (Act.bind (Act.query f) g s).2
  unfold Act.bind Act.query
  cases hanswer : f s with
  | error e => exact refl_of R s
  | ok a => exact h s a hanswer

/-- A loop keeps what its body keeps for the items at hand. -/
theorem Keeps.forEach_mem {items : List α} {body : α → Act σ ε Unit}
    (hbody : ∀ item ∈ items, Keeps R (body item)) : Keeps R (Act.forEach items body) := by
  induction items with
  | nil => exact fun s => refl_of R s
  | cons item items ih =>
    refine Keeps.bind (hbody item (List.mem_cons_self)) fun _ => ih ?_
    exact fun other hother => hbody other (List.mem_cons_of_mem item hother)

theorem Keeps.forEach (items : List α) {body : α → Act σ ε Unit}
    (hbody : ∀ item, Keeps R (body item)) : Keeps R (Act.forEach items body) :=
  Keeps.forEach_mem fun item _ => hbody item

end Keeps

section FailsOnly

/-- The action fails in ways of the given kind only. -/
def FailsOnly (P : ε → Prop) (x : Act σ ε α) : Prop := ∀ s e s', x s = (.error e, s') → P e

variable {P : ε → Prop}

theorem FailsOnly.pure (a : α) : FailsOnly P (Pure.pure a : Act σ ε α) :=
  fun _ _ _ h => (pure_error.mp h).elim

theorem FailsOnly.fail {e : ε} (h : P e) : FailsOnly P (Act.fail e : Act σ ε α) :=
  fun _ _ _ hfail => (fail_error.mp hfail).1 ▸ h

theorem FailsOnly.query {f : σ → Except ε α} (h : ∀ s e, f s = .error e → P e) :
    FailsOnly P (Act.query f) :=
  fun s e _ hquery => h s e (query_error.mp hquery).1

theorem FailsOnly.mapError {ε' : Type} {Q : ε' → Prop} {x : Act σ ε α} {f : ε → ε'}
    (hx : FailsOnly P x) (hf : ∀ e, P e → Q (f e)) : FailsOnly Q (x.mapError f) := by
  intro s e s' h
  obtain ⟨inner, hinner, rfl⟩ := mapError_error.mp h
  exact hf inner (hx s inner s' hinner)

theorem FailsOnly.ite {p : Prop} [Decidable p] {x y : Act σ ε α} (hx : p → FailsOnly P x)
    (hy : ¬ p → FailsOnly P y) : FailsOnly P (if p then x else y) := by
  split
  · rename_i hp
    exact hx hp
  · rename_i hp
    exact hy hp

theorem FailsOnly.bind {x : Act σ ε α} {f : α → Act σ ε β} (hx : FailsOnly P x)
    (hf : ∀ a, FailsOnly P (f a)) : FailsOnly P (x >>= f) := by
  intro s e s'' h
  rcases bind_error.mp h with hfirst | ⟨a, s', -, hsecond⟩
  · exact hx s e s'' hfirst
  · exact hf a s' e s'' hsecond

end FailsOnly

section Succeeds

/-- The action succeeds from the state. -/
def Succeeds (x : Act σ ε α) (s : σ) : Prop := ∃ a s', x s = (.ok a, s')

theorem Succeeds.pure (a : α) (s : σ) : Succeeds (Pure.pure a : Act σ ε α) s := ⟨a, s, rfl⟩

theorem not_succeeds_fail (e : ε) (s : σ) : ¬ Succeeds (Act.fail e : Act σ ε α) s := by
  rintro ⟨a, s', h⟩
  exact fail_ok.mp h

theorem succeeds_bind {x : Act σ ε α} {f : α → Act σ ε β} {s : σ} :
    Succeeds (x >>= f) s ↔ ∃ a s', x s = (.ok a, s') ∧ Succeeds (f a) s' := by
  constructor
  · rintro ⟨b, s'', h⟩
    obtain ⟨a, s', hx, hf⟩ := bind_ok.mp h
    exact ⟨a, s', hx, b, s'', hf⟩
  · rintro ⟨a, s', hx, b, s'', hf⟩
    exact ⟨b, s'', bind_ok.mpr ⟨a, s', hx, hf⟩⟩

end Succeeds

end OpMove.FailingActions
