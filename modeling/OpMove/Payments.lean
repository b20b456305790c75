import Mathlib.Algebra.BigOperators.Group.List.Basic
import Mathlib.Algebra.BigOperators.Ring.Finset
import Mathlib.Tactic.Ring

/-!
Payments between accounts and what they add up to. The net of a list of payments is an
integer for each account; a ledger moves by it when every balance changes by the net of
its account.
-/

namespace OpMove.Payments

structure Payment (A : Type) where
  source : A
  target : A
  amount : ℕ
  deriving DecidableEq, Repr

/-- Every balance changes by the given amount. -/
def Moves {A : Type} (before after : A → ℕ) (change : A → ℤ) : Prop :=
  ∀ a, (after a : ℤ) = before a + change a

section Net

variable {A B : Type} [DecidableEq A] [DecidableEq B]

def Payment.delta (p : Payment A) (a : A) : ℤ :=
  (if a = p.target then (p.amount : ℤ) else 0) - if a = p.source then (p.amount : ℤ) else 0

def net (payments : List (Payment A)) (a : A) : ℤ := (payments.map fun p => p.delta a).sum

def Payment.map (f : A → B) (p : Payment A) : Payment B := ⟨f p.source, f p.target, p.amount⟩

theorem delta_eq (source target : A) (amount : ℕ) (a : A) :
    Payment.delta ⟨source, target, amount⟩ a =
      (if a = target then (amount : ℤ) else 0) - if a = source then (amount : ℤ) else 0 := rfl

@[simp] theorem net_nil (a : A) : net ([] : List (Payment A)) a = 0 := rfl

@[simp] theorem net_cons (p : Payment A) (payments : List (Payment A)) (a : A) :
    net (p :: payments) a = p.delta a + net payments a := by
  simp [net]

@[simp] theorem net_append (payments more : List (Payment A)) (a : A) :
    net (payments ++ more) a = net payments a + net more a := by
  simp [net]

@[simp] theorem delta_map (f : A → B) (hf : Function.Injective f) (p : Payment A) (a : A) :
    (p.map f).delta (f a) = p.delta a := by
  simp only [Payment.delta, Payment.map, hf.eq_iff]

theorem net_map (f : A → B) (hf : Function.Injective f) (payments : List (Payment A)) (a : A) :
    net (payments.map (Payment.map f)) (f a) = net payments a := by
  induction payments with
  | nil => rfl
  | cons p payments ih => rw [List.map_cons, net_cons, net_cons, ih, delta_map f hf]

omit [DecidableEq A] in
theorem net_map_of_forall_ne (f : A → B) (payments : List (Payment A)) {b : B}
    (hb : ∀ a, b ≠ f a) : net (payments.map (Payment.map f)) b = 0 := by
  induction payments with
  | nil => rfl
  | cons p payments ih =>
    rw [List.map_cons, net_cons, ih]
    simp [Payment.delta, Payment.map, hb]

/-- An amount paid on at once has gone through the account between. -/
theorem delta_through (source between target : A) (amount : ℕ) (a : A) :
    Payment.delta ⟨source, between, amount⟩ a + Payment.delta ⟨between, target, amount⟩ a =
      Payment.delta ⟨source, target, amount⟩ a := by
  unfold Payment.delta
  ring

theorem delta_add (source target : A) (amount more : ℕ) (a : A) :
    Payment.delta ⟨source, target, amount⟩ a + Payment.delta ⟨source, target, more⟩ a =
      Payment.delta ⟨source, target, amount + more⟩ a := by
  rw [delta_eq, delta_eq, delta_eq, Nat.cast_add]
  split_ifs <;> ring

/-- What is partly paid back has moved the difference. -/
theorem delta_back (source target : A) {amount back : ℕ} (hback : back ≤ amount) (a : A) :
    Payment.delta ⟨source, target, amount⟩ a + Payment.delta ⟨target, source, back⟩ a =
      Payment.delta ⟨source, target, amount - back⟩ a := by
  rw [delta_eq, delta_eq, delta_eq, Nat.cast_sub hback]
  split_ifs <;> ring

/-- Paying oneself moves nothing. -/
theorem delta_self (source : A) (amount : ℕ) (a : A) :
    Payment.delta ⟨source, source, amount⟩ a = 0 := by
  simp [Payment.delta]

end Net

section Moves

variable {A : Type} {before middle after : A → ℕ} {first second : A → ℤ}

theorem Moves.refl (balances : A → ℕ) : Moves balances balances fun _ => 0 := by
  intro a
  simp

theorem Moves.trans (h : Moves before middle first) (h' : Moves middle after second) :
    Moves before after fun a => first a + second a := by
  intro a
  rw [h' a, h a]
  ring

theorem Moves.sub_eq (h : Moves before after first) (a : A) :
    (after a : ℤ) - before a = first a := by
  rw [h a]
  ring

end Moves

section Totals

variable {A : Type} [Fintype A] [DecidableEq A] {before after : A → ℕ} {change : A → ℤ}

/-- What one account gains, another loses. -/
theorem sum_delta (p : Payment A) : ∑ a, p.delta a = 0 := by
  unfold Payment.delta
  rw [Finset.sum_sub_distrib, Finset.sum_ite_eq_of_mem' _ _ _ (Finset.mem_univ _),
    Finset.sum_ite_eq_of_mem' _ _ _ (Finset.mem_univ _), sub_self]

omit [DecidableEq A] in
theorem Moves.sum_eq (h : Moves before after change) :
    ((∑ a, after a : ℕ) : ℤ) = (∑ a, before a : ℕ) + ∑ a, change a := by
  rw [Nat.cast_sum, Nat.cast_sum, ← Finset.sum_add_distrib]
  exact Finset.sum_congr rfl fun a _ => h a

/-- Replacing one balance changes the total by the difference. -/
theorem sum_update_add (balances : A → ℕ) (owner : A) (balance : ℕ) :
    (∑ a, Function.update balances owner balance a) + balances owner =
      (∑ a, balances a) + balance := by
  rw [Finset.sum_update_of_mem (Finset.mem_univ owner), ← Finset.erase_eq,
    ← Finset.add_sum_erase Finset.univ balances (Finset.mem_univ owner)]
  ring

end Totals

end OpMove.Payments
