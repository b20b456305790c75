import OpMove.ChangeSets
import OpMove.Hex
import OpMove.MoveTypes

/-!
The keys and values of the state trie. A resource `Account_<address>` of the native EVM module is
stored under the hash of the address, with its bytes as they are; every other resource and every
module is stored under the hash of its state key, as a serialised state value. Which key a
resource gets is decided by reading the address out of its name, which value it gets by the
prefix of the name alone. The encoding of state keys, the hash and the serialisation of state
values are parameters.
-/

namespace OpMove.TreeKeys

open Primitives MoveTypes ChangeSets

section Names

def evmNativeModule : String := "evm"

def accountInfoPrefix : String := "Account_"

def accountInfoStructTag (address : Address) : StructTag where
  address := evmNativeAddress
  moduleName := evmNativeModule
  name := accountInfoPrefix ++ String.ofList (Hex.encode 40 address.toNat)
  typeArgs := []

/-- `Address::from_hex`: forty digits of either case, with or without `0x` in front. -/
def addressFromHex (text : List Char) : Option Address :=
  let digits := if ['0', 'x'].isPrefixOf text then text.drop 2 else text
  if digits.length = 40 then (Hex.decode digits).map (BitVec.ofNat 160) else none

/-- The rest of a name behind the prefix of account resources. -/
def stripAccountInfo (name : String) : Option (List Char) :=
  if accountInfoPrefix.toList.isPrefixOf name.toList then
    some (name.toList.drop accountInfoPrefix.toList.length)
  else none

def evmKeyAddress (tag : StructTag) : Option Address :=
  if tag.address = evmNativeAddress ∧ tag.moduleName = evmNativeModule then
    (stripAccountInfo tag.name).bind addressFromHex
  else none

def isEvmStorageOrAccountKey (tag : StructTag) : Bool :=
  tag.address == evmNativeAddress && tag.moduleName == evmNativeModule &&
    accountInfoPrefix.toList.isPrefixOf tag.name.toList

theorem addressFromHex_encode (address : Address) :
    addressFromHex (Hex.encode 40 address.toNat) = some address := by
  have hmarked : ['0', 'x'].isPrefixOf (Hex.encode 40 address.toNat) = false := by
    rw [Bool.eq_false_iff]
    intro h
    have hx : 'x' ∈ Hex.encode 40 address.toNat :=
      (List.isPrefixOf_iff_prefix.mp h).subset (by simp)
    have hdigit := Hex.isSome_digitValue_of_mem hx
    revert hdigit
    decide
  have hlt : address.toNat < 16 ^ 40 := address.isLt.trans_le (by norm_num)
  rw [addressFromHex, hmarked]
  simp only [Bool.false_eq_true, if_false, Hex.length_encode, if_true, Hex.decode_encode,
    Option.map_some, Nat.mod_eq_of_lt hlt, BitVec.ofNat_toNat, BitVec.setWidth_eq]

/-- The key of an account's resource is the account's address. -/
theorem evmKeyAddress_accountInfoStructTag (address : Address) :
    evmKeyAddress (accountInfoStructTag address) = some address := by
  have hname : (accountInfoStructTag address).name.toList =
      accountInfoPrefix.toList ++ Hex.encode 40 address.toNat := by
    rw [accountInfoStructTag, String.toList_append, String.toList_ofList]
  have hstrip : stripAccountInfo (accountInfoStructTag address).name =
      some (Hex.encode 40 address.toNat) := by
    rw [stripAccountInfo, hname, if_pos (List.isPrefixOf_iff_prefix.mpr (List.prefix_append _ _)),
      List.drop_left]
  rw [evmKeyAddress, if_pos ⟨rfl, rfl⟩, hstrip, Option.bind_some, addressFromHex_encode]

theorem isEvmStorageOrAccountKey_of_evmKeyAddress {tag : StructTag} {address : Address}
    (h : evmKeyAddress tag = some address) : isEvmStorageOrAccountKey tag = true := by
  unfold evmKeyAddress at h
  split_ifs at h with hmodule
  obtain ⟨digits, hdigits, -⟩ := Option.bind_eq_some_iff.mp h
  unfold stripAccountInfo at hdigits
  split_ifs at hdigits with hprefix
  simp [isEvmStorageOrAccountKey, hmodule, hprefix]

end Names

section Keys

inductive StateKey
  | module (address : AccountAddress) (name : String)
  | resource (address : AccountAddress) (tag : StructTag)
  deriving DecidableEq

inductive TreeKey
  | stateKey (key : StateKey)
  | evm (address : Address)
  deriving DecidableEq

/-- A state value without metadata is known by its data. -/
inductive TreeValue
  | deleted
  | stateValue (data : Bytes)
  | evm (bytes : Bytes)
  deriving DecidableEq

/-- What the key and value libraries do. -/
structure StateCodec where
  encoded : StateKey → Bytes
  keccak256 : Bytes → B256
  stateValueBytes : Bytes → Bytes
  stateValueData : Bytes → Option Bytes

namespace StateCodec

variable (codec : StateCodec)

/-- The bytes a key is hashed from. -/
def keyBytes : TreeKey → Bytes
  | .stateKey key => codec.encoded key
  | .evm address => addressBytes address

def keyHash (key : TreeKey) : B256 := codec.keccak256 (codec.keyBytes key)

def serialize : TreeValue → Bytes
  | .deleted => []
  | .evm bytes => bytes
  | .stateValue data => codec.stateValueBytes data

/-- Documented behaviour on the keys that are used: state keys have encodings of their own, none
of them with the length of an address, and the hash does not collide; a serialised state value
starts with its variant and reads back. -/
structure Lawful (used : Set TreeKey) : Prop where
  encoded : ∀ a b, .stateKey a ∈ used → .stateKey b ∈ used →
    codec.encoded a = codec.encoded b → a = b
  length : ∀ a, .stateKey a ∈ used → (codec.encoded a).length ≠ 20
  keccak256 : Set.InjOn codec.keccak256 (codec.keyBytes '' used)
  roundTrip : ∀ data, codec.stateValueData (codec.stateValueBytes data) = some data
  tagged : ∀ data, codec.stateValueBytes data ≠ []

variable {codec} {used : Set TreeKey}

/-- No two keys share a hash, be they state keys or addresses. -/
theorem Lawful.keyHash_inj (h : codec.Lawful used) {a b : TreeKey} (ha : a ∈ used) (hb : b ∈ used)
    (hhash : codec.keyHash a = codec.keyHash b) : a = b := by
  have hbytes := h.keccak256 ⟨a, ha, rfl⟩ ⟨b, hb, rfl⟩ hhash
  cases a with
  | stateKey a =>
    cases b with
    | stateKey b => rw [h.encoded a b ha hb hbytes]
    | evm b => exact absurd ((congrArg List.length hbytes).trans (length_addressBytes b)) (h.length a ha)
  | evm a =>
    cases b with
    | stateKey b =>
      exact absurd ((congrArg List.length hbytes.symm).trans (length_addressBytes a)) (h.length b hb)
    | evm b => rw [addressBytes_inj hbytes]

end StateCodec

end Keys

end OpMove.TreeKeys
