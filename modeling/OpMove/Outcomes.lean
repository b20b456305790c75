import Mathlib.Logic.Basic

/-!
What a computation that can fail ensures: one condition on its result and another on its error.
The rules follow the shape of the computation.
-/

namespace OpMove.Outcomes

variable {ε α β : Type} {onError : ε → Prop} {x : Except ε α}

/-- Either an error that is allowed for, or a result with the property. -/
def Ensures (onError : ε → Prop) (post : α → Prop) (x : Except ε α) : Prop :=
  match x with
  | .ok a => post a
  | .error e => onError e

theorem ensures_ok {post : α → Prop} {a : α} (h : post a) :
    Ensures onError post (.ok a : Except ε α) := h

theorem ensures_error {post : α → Prop} {e : ε} (h : onError e) :
    Ensures onError post (.error e : Except ε α) := h

theorem Ensures.bind {middle : α → Prop} {post : β → Prop} {f : α → Except ε β}
    (hx : Ensures onError middle x) (hf : ∀ a, middle a → Ensures onError post (f a)) :
    Ensures onError post (x >>= f) := by
  cases x with
  | error e => exact hx
  | ok a => exact hf a hx

theorem Ensures.mono {post post' : α → Prop} (hx : Ensures onError post x)
    (h : ∀ a, post a → post' a) : Ensures onError post' x := by
  cases x with
  | error e => exact hx
  | ok a => exact h a hx

theorem Ensures.weaken {onError' : ε → Prop} {post : α → Prop} (hx : Ensures onError post x)
    (h : ∀ e, onError e → onError' e) : Ensures onError' post x := by
  cases x with
  | error e => exact h e hx
  | ok a => exact hx

theorem Ensures.of_ok {post : α → Prop} {a : α} (hx : Ensures onError post x) (h : x = .ok a) :
    post a := by
  subst h
  exact hx

theorem Ensures.of_error {post : α → Prop} {e : ε} (hx : Ensures onError post x)
    (h : x = .error e) : onError e := by
  subst h
  exact hx

/-- A loop that can stop keeps what each of its rounds keeps. -/
theorem keeps_foldlM {σ ι : Type} {step : σ → ι → Option σ} {P : σ → Prop}
    (hstep : ∀ start item next, P start → step start item = some next → P next)
    {items : List ι} {start last : σ} (hstart : P start)
    (hrun : items.foldlM step start = some last) : P last := by
  induction items generalizing start with
  | nil => exact Option.some.inj hrun ▸ hstart
  | cons item items ih =>
    rw [List.foldlM_cons] at hrun
    obtain ⟨middle, hmiddle, hrun⟩ := Option.bind_eq_some_iff.mp hrun
    exact ih (hstep start item middle hstart hmiddle) hrun

end OpMove.Outcomes
