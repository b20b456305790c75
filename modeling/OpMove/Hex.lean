import Mathlib.Algebra.Group.Nat.Defs
import Mathlib.Data.Nat.Basic
import Mathlib.Tactic.Common
import Mathlib.Data.List.Basic

/-!
Numbers in hexadecimal digits. A number is written with a fixed count of lower-case digits and
read back from digits of either case.
-/

namespace OpMove.Hex

def digitChar (digit : ℕ) : Char :=
  if digit < 10 then Char.ofNat (48 + digit) else Char.ofNat (87 + digit)

def digitValue (c : Char) : Option ℕ :=
  if 48 ≤ c.toNat ∧ c.toNat ≤ 57 then some (c.toNat - 48)
  else if 97 ≤ c.toNat ∧ c.toNat ≤ 102 then some (c.toNat - 87)
  else if 65 ≤ c.toNat ∧ c.toNat ≤ 70 then some (c.toNat - 55)
  else none

def encode : ℕ → ℕ → List Char
  | 0, _ => []
  | len + 1, n => encode len (n / 16) ++ [digitChar (n % 16)]

def decode (digits : List Char) : Option ℕ :=
  digits.foldlM (fun acc c => (digitValue c).map fun digit => acc * 16 + digit) 0

theorem digitValue_digitChar {digit : ℕ} (h : digit < 16) :
    digitValue (digitChar digit) = some digit := by
  revert digit
  decide

@[simp] theorem length_encode (len n : ℕ) : (encode len n).length = len := by
  induction len generalizing n with
  | zero => rfl
  | succ len ih => simp [encode, ih]

/-- What was written is read back, as far as it fits. -/
theorem decode_encode (len n : ℕ) : decode (encode len n) = some (n % 16 ^ len) := by
  induction len generalizing n with
  | zero => simp [decode, encode, Nat.mod_one]
  | succ len ih =>
    have hsplit : n % 16 ^ (len + 1) = n % 16 + 16 * (n / 16 % 16 ^ len) := by
      rw [Nat.pow_succ', Nat.mod_mul]
    have hlast : n % 16 < 16 := Nat.mod_lt n (by decide)
    have hprev := ih (n / 16)
    unfold decode at hprev ⊢
    rw [encode, List.foldlM_append, hprev, hsplit]
    simp only [Option.bind_eq_bind, Option.bind_some, List.foldlM_cons, List.foldlM_nil,
      digitValue_digitChar hlast, Option.map_some, Option.pure_def, Option.some.injEq]
    omega

/-- Every character that is written is a digit. -/
theorem isSome_digitValue_of_mem {len n : ℕ} {c : Char} (h : c ∈ encode len n) :
    (digitValue c).isSome := by
  induction len generalizing n with
  | zero => cases h
  | succ len ih =>
    rcases List.mem_append.mp h with hprev | hlast
    · exact ih hprev
    · rw [List.mem_singleton.mp hlast, digitValue_digitChar (Nat.mod_lt n (by decide))]
      rfl

end OpMove.Hex
