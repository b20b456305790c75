import Mathlib.Data.BitVec
import Mathlib.Tactic.Ring

/-!
Machine words, addresses and byte strings shared by the whole development.
A `U256` is a 256-bit word whose `+` and `*` wrap, as the operators of the
source's integer library do; the saturating operations are the ones the source
calls by name. Ethereum addresses have 20 bytes and Move addresses 32, read as
big-endian numbers, so that dropping the first 12 bytes is a truncation and
prepending 12 zero bytes is a zero extension.
-/

namespace OpMove.Primitives

abbrev U128 := BitVec 128
abbrev U256 := BitVec 256
abbrev B256 := BitVec 256
abbrev Address := BitVec 160
abbrev AccountAddress := BitVec 256
abbrev Bytes := List UInt8

def maxU64 : ℕ := 2 ^ 64 - 1

/-- `EVM_NATIVE_ADDRESS`. -/
def evmNativeAddress : AccountAddress := 1

/-- The last 20 bytes of a Move address. -/
def toEthAddress (a : AccountAddress) : Address := a.setWidth 160

/-- An Ethereum address behind 12 zero bytes. -/
def toMoveAddress (a : Address) : AccountAddress := a.setWidth 256

@[simp] theorem toEthAddress_toMoveAddress (a : Address) :
    toEthAddress (toMoveAddress a) = a := by
  apply BitVec.eq_of_toNat_eq
  have ha := a.isLt
  simp only [toEthAddress, toMoveAddress, BitVec.toNat_setWidth]
  omega

theorem toMoveAddress_injective : Function.Injective toMoveAddress := by
  intro a b hab
  have h := congrArg toEthAddress hab
  simpa only [toEthAddress_toMoveAddress] using h

namespace U256

def maxValue : U256 := BitVec.allOnes 256

def saturatingMul (a b : U256) : U256 :=
  if a.toNat * b.toNat < 2 ^ 256 then a * b else maxValue

def saturatingAdd (a b : U256) : U256 :=
  if a.toNat + b.toNat < 2 ^ 256 then a + b else maxValue

def saturatingSub (a b : U256) : U256 :=
  if b.toNat ≤ a.toNat then a - b else 0

def max (a b : U256) : U256 := if a.toNat ≤ b.toNat then b else a

def min (a b : U256) : U256 := if a.toNat ≤ b.toNat then a else b

theorem toNat_saturatingMul (a b : U256) :
    (saturatingMul a b).toNat = Nat.min (a.toNat * b.toNat) (2 ^ 256 - 1) := by
  unfold saturatingMul
  split
  · rename_i h
    rw [BitVec.toNat_mul, Nat.mod_eq_of_lt h]
    exact (Nat.min_eq_left (by omega)).symm
  · rename_i h
    rw [maxValue, BitVec.toNat_allOnes]
    exact (Nat.min_eq_right (by omega)).symm

theorem toNat_saturatingAdd (a b : U256) :
    (saturatingAdd a b).toNat = Nat.min (a.toNat + b.toNat) (2 ^ 256 - 1) := by
  unfold saturatingAdd
  split
  · rename_i h
    rw [BitVec.toNat_add, Nat.mod_eq_of_lt h]
    exact (Nat.min_eq_left (by omega)).symm
  · rename_i h
    rw [maxValue, BitVec.toNat_allOnes]
    exact (Nat.min_eq_right (by omega)).symm

theorem toNat_saturatingSub (a b : U256) :
    (saturatingSub a b).toNat = a.toNat - b.toNat := by
  unfold saturatingSub
  split
  · rename_i h
    exact BitVec.toNat_sub_of_le (BitVec.le_def.mpr h)
  · have hzero : (0 : U256).toNat = 0 := rfl
    omega

theorem toNat_max (a b : U256) : (U256.max a b).toNat = Nat.max a.toNat b.toNat := by
  unfold U256.max
  split
  · rename_i h
    exact (Nat.max_eq_right h).symm
  · rename_i h
    exact (Nat.max_eq_left (by omega)).symm

theorem toNat_min (a b : U256) : (U256.min a b).toNat = Nat.min a.toNat b.toNat := by
  unfold U256.min
  split
  · rename_i h
    exact (Nat.min_eq_left h).symm
  · rename_i h
    exact (Nat.min_eq_right (by omega)).symm

end U256

/-- The elements of a list with one more at its end. -/
theorem getElem?_concat {α : Type} (l : List α) (a : α) (i : ℕ) :
    (l ++ [a])[i]? = if i = l.length then some a else l[i]? := by
  rcases lt_trichotomy i l.length with hlt | rfl | hgt
  · rw [List.getElem?_append_left hlt, if_neg (by omega)]
  · rw [List.getElem?_concat_length, if_pos rfl]
  · rw [List.getElem?_eq_none (by simp; omega), if_neg (by omega), List.getElem?_eq_none hgt.le]

theorem getElem?_concat_cases {α : Type} {l : List α} {a b : α} {i : ℕ}
    (h : (l ++ [a])[i]? = some b) : l[i]? = some b ∨ i = l.length ∧ a = b := by
  rw [getElem?_concat] at h
  split_ifs at h with hlast
  · exact Or.inr ⟨hlast, Option.some.inj h⟩
  · exact Or.inl h

/-- A list is read back if each of its elements is. -/
theorem mapM_map_of_inverse {α β : Type} {read : β → Option α} {write : α → β} {l : List α}
    (h : ∀ a ∈ l, read (write a) = some a) : (l.map write).mapM read = some l := by
  induction l with
  | nil => rfl
  | cons a l ih =>
    have hrest := ih fun b hb => h b (List.mem_cons_of_mem a hb)
    simp [h a List.mem_cons_self, hrest]

/-- The value of a big-endian byte string. -/
def beNat (bytes : Bytes) : ℕ :=
  bytes.foldl (fun acc b => acc * 256 + b.toNat) 0

/-- `len` little-endian bytes of a number. -/
def leBytes (len n : ℕ) : Bytes :=
  (List.range len).map fun i => UInt8.ofNat (n / 256 ^ i % 256)

/-- The 20 bytes of an address, big-endian. -/
def addressBytes (address : Address) : Bytes := (leBytes 20 address.toNat).reverse

/-- The value of a little-endian byte string. -/
def leNat : Bytes → ℕ
  | [] => 0
  | b :: rest => b.toNat + 256 * leNat rest

@[simp] theorem length_leBytes (len n : ℕ) : (leBytes len n).length = len := by
  simp [leBytes]

theorem leBytes_succ (len n : ℕ) :
    leBytes (len + 1) n = UInt8.ofNat (n % 256) :: leBytes len (n / 256) := by
  simp only [leBytes, List.range_succ_eq_map, List.map_cons, List.map_map, pow_zero, Nat.div_one]
  refine congrArg _ (List.map_congr_left fun i _ => ?_)
  rw [Function.comp, Nat.div_div_eq_div_mul, ← Nat.pow_succ', Nat.succ_eq_add_one]

/-- The bytes tell the number, as far as it fits. -/
theorem leNat_leBytes (len n : ℕ) : leNat (leBytes len n) = n % 256 ^ len := by
  induction len generalizing n with
  | zero => simp [leBytes, leNat, Nat.mod_one]
  | succ len ih =>
    have hsplit : n % 256 ^ (len + 1) = n % 256 + 256 * (n / 256 % 256 ^ len) := by
      rw [Nat.pow_succ', Nat.mod_mul]
    rw [leBytes_succ, leNat, ih, UInt8.toNat_ofNat', hsplit]
    omega

theorem leBytes_inj {len m n : ℕ} (hm : m < 256 ^ len) (hn : n < 256 ^ len)
    (h : leBytes len m = leBytes len n) : m = n := by
  have hval := congrArg leNat h
  rwa [leNat_leBytes, leNat_leBytes, Nat.mod_eq_of_lt hm, Nat.mod_eq_of_lt hn] at hval

theorem length_addressBytes (address : Address) : (addressBytes address).length = 20 := by
  rw [addressBytes, List.length_reverse, length_leBytes]

theorem addressBytes_inj {a b : Address} (h : addressBytes a = addressBytes b) : a = b :=
  BitVec.eq_of_toNat_eq (leBytes_inj a.isLt b.isLt (List.reverse_injective h))

end OpMove.Primitives
