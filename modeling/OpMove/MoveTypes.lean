import OpMove.Primitives

/-!
Move types, layouts and values. A type tag is a primitive, a vector or a struct
instance; a layout says how a value is serialised and, for a fully annotated
layout, carries the struct tag at every struct. Field names and the contents of
enum variants are left out: nothing that is modelled reads them.
-/

namespace OpMove.MoveTypes

open Primitives

inductive PrimitiveType
  | bool | u8 | u16 | u32 | u64 | u128 | u256 | address | signer
  deriving DecidableEq, Repr

inductive TypeTag
  | primitive (type : PrimitiveType)
  | vector (inner : TypeTag)
  | struct (address : AccountAddress) (moduleName name : String) (typeArgs : List TypeTag)
  deriving Repr

structure StructTag where
  address : AccountAddress
  moduleName : String
  name : String
  typeArgs : List TypeTag
  deriving Repr

def StructTag.toTypeTag (tag : StructTag) : TypeTag :=
  .struct tag.address tag.moduleName tag.name tag.typeArgs

mutual

def TypeTag.decEq : (a b : TypeTag) → Decidable (a = b)
  | .primitive p, .primitive q =>
      decidable_of_iff (p = q) (by simp only [TypeTag.primitive.injEq])
  | .vector a, .vector b =>
      match TypeTag.decEq a b with
      | isTrue h => isTrue (by rw [h])
      | isFalse h => isFalse (by simpa only [TypeTag.vector.injEq] using h)
  | .struct a m n ts, .struct a' m' n' ts' =>
      match TypeTag.decEqList ts ts' with
      | isTrue h => decidable_of_iff (a = a' ∧ m = m' ∧ n = n') (by
          simp only [TypeTag.struct.injEq, h, and_true])
      | isFalse h => isFalse (by simp [h])
  | .primitive _, .vector _ | .primitive _, .struct .. | .vector _, .primitive _
  | .vector _, .struct .. | .struct .., .primitive _ | .struct .., .vector _ =>
      isFalse (by simp)

def TypeTag.decEqList : (as bs : List TypeTag) → Decidable (as = bs)
  | [], [] => isTrue rfl
  | [], _ :: _ | _ :: _, [] => isFalse (by simp)
  | a :: as, b :: bs =>
      match TypeTag.decEq a b, TypeTag.decEqList as bs with
      | isTrue h, isTrue hs => isTrue (by rw [h, hs])
      | isFalse h, _ => isFalse (by simp [h])
      | _, isFalse hs => isFalse (by simp [hs])

end

instance : DecidableEq TypeTag := TypeTag.decEq

deriving instance DecidableEq for StructTag

inductive MoveTypeLayout
  | primitive (type : PrimitiveType)
  | vector (inner : MoveTypeLayout)
  /-- `MoveStructLayout::Runtime` and `WithFields`: the fields without a struct tag. -/
  | structUntagged (fields : List MoveTypeLayout)
  /-- `MoveStructLayout::WithTypes`. -/
  | structWithTypes (tag : StructTag) (fields : List MoveTypeLayout)
  /-- `MoveStructLayout::RuntimeVariants` and `WithVariants`. -/
  | structVariants
  | native (inner : MoveTypeLayout)
  deriving Repr

inductive MoveValue
  | bool (x : Bool)
  | u8 (x : UInt8)
  | u16 (x : BitVec 16)
  | u32 (x : BitVec 32)
  | u64 (x : BitVec 64)
  | u128 (x : BitVec 128)
  | u256 (x : U256)
  | address (x : AccountAddress)
  | signer (x : AccountAddress)
  | vector (elements : List MoveValue)
  | struct (fields : List MoveValue)
  deriving Repr

/-- How many bytes a primitive value takes. -/
def PrimitiveType.width : PrimitiveType → ℕ
  | .bool | .u8 => 1
  | .u16 => 2
  | .u32 => 4
  | .u64 => 8
  | .u128 => 16
  | .u256 | .address => 32
  | .signer => 33

section Bcs

/-- Little-endian base-128 length prefix of BCS, at most five bytes. -/
def ulebBytes : ℕ → ℕ → Bytes
  | 0, _ => []
  | fuel + 1, n =>
      if n < 128 then [UInt8.ofNat n]
      else UInt8.ofNat (128 + n % 128) :: ulebBytes fuel (n / 128)

def readUleb : ℕ → Bytes → Option (ℕ × Bytes)
  | 0, _ => none
  | _, [] => none
  | fuel + 1, b :: rest =>
      if b.toNat < 128 then some (b.toNat, rest)
      else do
        let (high, rest) ← readUleb fuel rest
        some (b.toNat - 128 + 128 * high, rest)

/-- One value of a primitive type. A signer is the enum variant with index zero
followed by its address. -/
def decodePrimitive (type : PrimitiveType) (bytes : Bytes) : Option (MoveValue × Bytes) :=
  if bytes.length < type.width then none
  else
    let word := bytes.take type.width
    let rest := bytes.drop type.width
    let n := leNat word
    match type with
    | .bool => if n ≤ 1 then some (.bool (n == 1), rest) else none
    | .u8 => some (.u8 (UInt8.ofNat n), rest)
    | .u16 => some (.u16 (BitVec.ofNat 16 n), rest)
    | .u32 => some (.u32 (BitVec.ofNat 32 n), rest)
    | .u64 => some (.u64 (BitVec.ofNat 64 n), rest)
    | .u128 => some (.u128 (BitVec.ofNat 128 n), rest)
    | .u256 => some (.u256 (BitVec.ofNat 256 n), rest)
    | .address => some (.address (BitVec.ofNat 256 (beNat word)), rest)
    | .signer =>
        match word with
        | 0 :: account => some (.signer (BitVec.ofNat 256 (beNat account)), rest)
        | _ => none

/-- `count` values read one after the other. -/
def decodeMany (one : Bytes → Option (MoveValue × Bytes)) :
    ℕ → Bytes → Option (List MoveValue × Bytes)
  | 0, bytes => some ([], bytes)
  | count + 1, bytes => do
      let (v, rest) ← one bytes
      let (vs, rest) ← decodeMany one count rest
      some (v :: vs, rest)

/-- BCS refuses longer sequences. -/
def maxSequenceLength : ℕ := 2 ^ 31 - 1

mutual

/-- `MoveValue::simple_serialize`. -/
def simpleSerialize : MoveValue → Option Bytes
  | .bool x => some [if x then 1 else 0]
  | .u8 x => some [x]
  | .u16 x => some (leBytes 2 x.toNat)
  | .u32 x => some (leBytes 4 x.toNat)
  | .u64 x => some (leBytes 8 x.toNat)
  | .u128 x => some (leBytes 16 x.toNat)
  | .u256 x => some (leBytes 32 x.toNat)
  | .address x => some (leBytes 32 x.toNat).reverse
  | .signer x => some (0 :: (leBytes 32 x.toNat).reverse)
  | .vector elements =>
      if elements.length ≤ maxSequenceLength then do
        let body ← serializeAll elements
        some (ulebBytes 5 elements.length ++ body)
      else none
  | .struct fields => serializeAll fields

def serializeAll : List MoveValue → Option Bytes
  | [] => some []
  | value :: values => do
      let head ← simpleSerialize value
      let tail ← serializeAll values
      some (head ++ tail)

end

mutual

/-- BCS decoding directed by a layout, and nothing but the layout. -/
def decodeLayout : MoveTypeLayout → Bytes → Option (MoveValue × Bytes)
  | .primitive type, bytes => decodePrimitive type bytes
  | .vector inner, bytes => do
      let (count, rest) ← readUleb 5 bytes
      let (elements, rest) ← decodeMany (decodeLayout inner) count rest
      some (.vector elements, rest)
  | .structUntagged fields, bytes | .structWithTypes _ fields, bytes => do
      let (values, rest) ← decodeFields fields bytes
      some (.struct values, rest)
  | .structVariants, _ => none
  | .native inner, bytes => decodeLayout inner bytes

def decodeFields : List MoveTypeLayout → Bytes → Option (List MoveValue × Bytes)
  | [], bytes => some ([], bytes)
  | field :: fields, bytes => do
      let (value, rest) ← decodeLayout field bytes
      let (values, rest) ← decodeFields fields rest
      some (value :: values, rest)

end

/-- `ValueSerDeContext::deserialize`: the whole input must be one value. -/
def deserialize (layout : MoveTypeLayout) (bytes : Bytes) : Option MoveValue :=
  match decodeLayout layout bytes with
  | some (value, []) => some value
  | _ => none

end Bcs

end OpMove.MoveTypes
