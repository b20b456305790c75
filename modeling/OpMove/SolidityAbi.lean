import OpMove.TagValidation

/-!
Decoding Solidity ABI data into Move values. A Move layout is turned into a
Solidity type, the ABI library decodes the bytes at that type, and the decoded
value is repacked along the layout. The ABI library is a parameter. A runtime value
does not know its type, so what a result contains is read off the layout it was
decoded for: `Inside` pairs the parts of a layout with the parts of a value.
-/

namespace OpMove.SolidityAbi

open Primitives MoveTypes

inductive DynSolType
  | bool
  | uint (size : ℕ)
  | fixedBytes (size : ℕ)
  | address
  | bytes
  | string
  | array (inner : DynSolType)
  | tuple (types : List DynSolType)

/-- `int`, `function` and `fixedArray` values have no Move counterpart. -/
inductive DynSolValue
  | bool (b : Bool)
  | int (i : U256) (size : ℕ)
  | uint (u : U256) (size : ℕ)
  | fixedBytes (word : B256) (size : ℕ)
  | address (a : Address)
  | function (f : Bytes)
  | bytes (b : Bytes)
  | string (utf8 : Bytes)
  | array (values : List DynSolValue)
  | fixedArray (values : List DynSolValue)
  | tuple (values : List DynSolValue)

inductive AbiError
  | fixedArrayUnsupported
  | uintSizeUnsupported
  | signerNotAllowed
  | variantsUnsupported
  | mismatchedTypes
  | library
  | panicked
  deriving DecidableEq, Repr

section Conversions

def fixedBytesTag : StructTag := ⟨1, "evm", "SolidityFixedBytes", []⟩
def fixedArrayTag : StructTag := ⟨1, "evm", "SolidityFixedArray", []⟩
def stringTag : StructTag := ⟨1, "string", "String", []⟩

/-- Same module and name; the type arguments may differ. -/
def sameStruct (a b : StructTag) : Bool :=
  a.address == b.address && a.moduleName == b.moduleName && a.name == b.name

def structArgs : TypeTag → Option (List TypeTag)
  | .struct _ _ _ typeArgs => some typeArgs
  | _ => none

def structName : TypeTag → String
  | .struct _ _ name _ => name
  | _ => ""

/-- The size of fixed bytes is spelled by five marker types; `B0` clears a bit. -/
def typeArgsToUsize (typeArgs : List TypeTag) : ℕ :=
  let params := ((typeArgs.head?.bind structArgs).getD []).take 5
  let bits := params.zipIdx.foldl
    (fun size p => if structName p.1 = "B0" then size ^^^ (1 <<< (4 - p.2)) else size) 0b11111
  bits + 1

mutual

def layoutToSolType : MoveTypeLayout → Except AbiError DynSolType
  | .primitive .bool => .ok .bool
  | .primitive .u8 => .ok (.uint 8)
  | .primitive .u16 => .ok (.uint 16)
  | .primitive .u32 => .ok (.uint 32)
  | .primitive .u64 => .ok (.uint 64)
  | .primitive .u128 => .ok (.uint 128)
  | .primitive .u256 => .ok (.uint 256)
  | .primitive .signer | .primitive .address => .ok .address
  | .vector (.primitive .u8) => .ok .bytes
  | .vector inner => do
      let type ← layoutToSolType inner
      .ok (.array type)
  | .structWithTypes tag fields =>
      if sameStruct fixedBytesTag tag then .ok (.fixedBytes (typeArgsToUsize tag.typeArgs))
      else if sameStruct fixedArrayTag tag then .error .fixedArrayUnsupported
      else if tag = stringTag then .ok .string
      else do
        let types ← fieldsToSolTypes fields
        .ok (.tuple types)
  | .structUntagged _ | .structVariants => .error .panicked
  | .native inner => layoutToSolType inner

def fieldsToSolTypes : List MoveTypeLayout → Except AbiError (List DynSolType)
  | [] => .ok []
  | field :: fields => do
      let type ← layoutToSolType field
      let types ← fieldsToSolTypes fields
      .ok (type :: types)

end

def uintToValue (u : U256) : ℕ → MoveTypeLayout → Except AbiError MoveValue
  | 8, .primitive .u8 => .ok (.u8 (UInt8.ofNat u.toNat))
  | 16, .primitive .u16 => .ok (.u16 (u.setWidth 16))
  | 32, .primitive .u32 => .ok (.u32 (u.setWidth 32))
  | 64, .primitive .u64 => .ok (.u64 (u.setWidth 64))
  | 128, .primitive .u128 => .ok (.u128 (u.setWidth 128))
  | 256, .primitive .u256 => .ok (.u256 u)
  | _, _ => .error .uintSizeUnsupported

/-- `Value::vector_u8`. -/
def vectorU8 (bytes : Bytes) : MoveValue := .vector (bytes.map .u8)

mutual

def solToValue : MoveTypeLayout → DynSolValue → Except AbiError MoveValue
  | .primitive .bool, .bool b => .ok (.bool b)
  | layout, .uint u size => uintToValue u size layout
  | .structUntagged _, .fixedBytes word _ | .structWithTypes _ _, .fixedBytes word _
  | .structVariants, .fixedBytes word _ =>
      .ok (.struct [vectorU8 (leBytes 32 word.toNat).reverse])
  | .primitive .address, .address a => .ok (.address (toMoveAddress a))
  | .primitive .signer, .address _ => .error .signerNotAllowed
  | .vector (.primitive .u8), .bytes b => .ok (vectorU8 b)
  | .structUntagged _, .string s | .structWithTypes _ _, .string s | .structVariants, .string s =>
      .ok (.struct [vectorU8 s])
  | .vector inner, .array values => do
      let elements ← values.mapM (solToValue inner)
      .ok (.vector elements)
  | .structUntagged fields, .tuple values | .structWithTypes _ fields, .tuple values => do
      let packed ← solToFields fields values
      .ok (.struct packed)
  | .structVariants, .tuple _ => .error .variantsUnsupported
  | _, _ => .error .mismatchedTypes

/-- The values of a tuple zipped with the fields of a struct. -/
def solToFields : List MoveTypeLayout → List DynSolValue → Except AbiError (List MoveValue)
  | field :: fields, value :: values => do
      let first ← solToValue field value
      let rest ← solToFields fields values
      .ok (first :: rest)
  | _, _ => .ok []

end

example : solToValue (.primitive .signer) (.address 7) = .error .signerNotAllowed := by
  simp [solToValue]

/-- `inner_abi_decode_params`, over the decoder of the ABI library. -/
def abiDecodeParams (libraryDecode : DynSolType → Bytes → Option DynSolValue) (bytes : Bytes)
    (layout : MoveTypeLayout) : Except AbiError MoveValue := do
  let type ← layoutToSolType layout
  match libraryDecode type bytes with
  | none => .error .library
  | some value => solToValue layout value

end Conversions

section Typing

mutual

/-- The values of a Solidity type. -/
def HasType : DynSolType → DynSolValue → Prop
  | .bool, .bool _ => True
  | .uint size, .uint u size' => size = size' ∧ u.toNat < 2 ^ size
  | .fixedBytes size, .fixedBytes _ size' => size = size'
  | .address, .address _ => True
  | .bytes, .bytes _ => True
  | .string, .string s => TagValidation.isUtf8 s
  | .array inner, .array values => ∀ value ∈ values, HasType inner value
  | .tuple types, .tuple values => HaveTypes types values
  | _, _ => False

def HaveTypes : List DynSolType → List DynSolValue → Prop
  | [], [] => True
  | type :: types, value :: values => HasType type value ∧ HaveTypes types values
  | _, _ => False

end

/-- The part of a value that belongs to a part of its layout. -/
inductive Inside : MoveTypeLayout → MoveValue → MoveTypeLayout → MoveValue → Prop
  | here (layout : MoveTypeLayout) (value : MoveValue) : Inside layout value layout value
  | element {inner part : MoveTypeLayout} {elements : List MoveValue} {element value : MoveValue} :
      element ∈ elements → Inside inner element part value →
      Inside (.vector inner) (.vector elements) part value
  | field {tag : StructTag} {fields : List MoveTypeLayout} {values : List MoveValue}
      {field part : MoveTypeLayout} {fieldValue value : MoveValue} :
      (field, fieldValue) ∈ fields.zip values → Inside field fieldValue part value →
      Inside (.structWithTypes tag fields) (.struct values) part value

/-- Structs that are packed from bytes, whatever their fields are. -/
def isPackedBytes (tag : StructTag) : Bool := sameStruct fixedBytesTag tag || tag == stringTag

mutual

/-- Layouts of which some value can be decoded. -/
def isDecodable : MoveTypeLayout → Bool
  | .primitive type => type != .signer
  | .vector _ => true
  | .structWithTypes tag fields => isPackedBytes tag || areDecodable fields
  | .structUntagged _ | .structVariants | .native _ => false

def areDecodable : List MoveTypeLayout → Bool
  | [] => true
  | field :: fields => isDecodable field && areDecodable fields

end

/-- The struct types that can occur in a decoded value of a layout. -/
inductive Occurs : MoveTypeLayout → StructTag → Prop
  | here {tag : StructTag} {fields : List MoveTypeLayout} :
      isDecodable (.structWithTypes tag fields) → Occurs (.structWithTypes tag fields) tag
  | field {tag other : StructTag} {fields : List MoveTypeLayout} {field : MoveTypeLayout} :
      isPackedBytes tag = false → areDecodable fields → field ∈ fields → Occurs field other →
      Occurs (.structWithTypes tag fields) other
  | element {inner : MoveTypeLayout} {tag : StructTag} :
      Occurs inner tag → Occurs (.vector inner) tag

end Typing

section Soundness

/-- Nothing inside a value is a signer, and the structs inside are those of the layout. -/
def Explained (layout : MoveTypeLayout) (value : MoveValue) : Prop :=
  ∀ part inside, Inside layout value part inside →
    (∀ a, inside ≠ .signer a) ∧
    ∀ tag fields values, part = .structWithTypes tag fields → inside = .struct values →
      Occurs layout tag

theorem inside_vectorU8 {layout part : MoveTypeLayout} {bytes : Bytes} {value : MoveValue}
    (h : Inside layout (vectorU8 bytes) part value) :
    value = vectorU8 bytes ∨ ∃ x, value = .u8 x := by
  cases h with
  | here => exact Or.inl rfl
  | element hmem hinner =>
    obtain ⟨x, -, rfl⟩ := List.mem_map.mp hmem
    cases hinner
    exact Or.inr ⟨x, rfl⟩

theorem explained_primitive {type : PrimitiveType} {solType : DynSolType} {sv : DynSolValue}
    {value : MoveValue} (htype : layoutToSolType (.primitive type) = .ok solType)
    (hsv : HasType solType sv) (hvalue : solToValue (.primitive type) sv = .ok value) :
    isDecodable (.primitive type) ∧ Explained (.primitive type) value := by
  have hplain : type ≠ .signer ∧ ∀ a, value ≠ .signer a := by
    cases type <;> simp only [layoutToSolType, Except.ok.injEq] at htype <;> subst htype <;>
      cases sv <;> simp only [HasType] at hsv <;>
      simp only [solToValue, reduceCtorEq, Except.ok.injEq] at hvalue
    case bool.bool => simp [← hvalue]
    case address.address => simp [← hvalue]
    all_goals
      obtain ⟨rfl, -⟩ := hsv
      simp only [uintToValue, Except.ok.injEq] at hvalue
      simp [← hvalue]
  refine ⟨by simp [isDecodable, hplain.1], fun part inside hinside => ?_⟩
  cases hinside
  exact ⟨hplain.2, fun _ _ _ hpart => by cases hpart⟩

theorem mem_of_mapM_ok {α β : Type} {f : α → Except AbiError β} {l : List α} {r : List β}
    (h : l.mapM f = .ok r) : ∀ b ∈ r, ∃ a ∈ l, f a = .ok b := by
  induction l generalizing r with
  | nil =>
    obtain rfl : [] = r := Except.ok.inj h
    simp
  | cons a l ih =>
    simp only [List.mapM_cons, Errors.bind_ok_iff] at h
    obtain ⟨b, hb, rest, hrest, hr⟩ := h
    obtain rfl : b :: rest = r := Except.ok.inj hr
    intro c hc
    rcases List.mem_cons.mp hc with rfl | hmem
    · exact ⟨a, by simp, hb⟩
    · obtain ⟨a', ha', hfa⟩ := ih hrest c hmem
      exact ⟨a', by simp [ha'], hfa⟩

/-- What one layout promises about everything decoded for it. -/
def Sound (layout : MoveTypeLayout) : Prop :=
  ∀ solType sv value, layoutToSolType layout = .ok solType → HasType solType sv →
    solToValue layout sv = .ok value → isDecodable layout ∧ Explained layout value

theorem sound_vector {inner : MoveTypeLayout} (ih : Sound inner) : Sound (.vector inner) := by
  intro solType sv value htype hsv hvalue
  refine ⟨rfl, fun part inside hinside => ?_⟩
  by_cases hbyte : inner = .primitive .u8
  · subst hbyte
    simp only [layoutToSolType, Except.ok.injEq] at htype
    subst htype
    cases sv <;> simp only [HasType] at hsv
    simp only [solToValue, Except.ok.injEq] at hvalue
    subst hvalue
    rcases inside_vectorU8 hinside with rfl | ⟨x, rfl⟩
    · exact ⟨by simp [vectorU8], by simp [vectorU8]⟩
    · exact ⟨by simp, by simp⟩
  · simp only [layoutToSolType, Errors.bind_ok_iff, Except.ok.injEq] at htype
    obtain ⟨innerType, hinner, rfl⟩ := htype
    cases sv <;> simp only [HasType] at hsv
    rename_i values
    have helements : ∃ elements, values.mapM (solToValue inner) = .ok elements ∧
        .vector elements = value := by
      cases inner <;> simpa only [solToValue, Errors.bind_ok_iff, Except.ok.injEq] using hvalue
    obtain ⟨elements, hmap, rfl⟩ := helements
    cases hinside with
    | here => exact ⟨by simp, by simp⟩
    | element hmem hdeep =>
      obtain ⟨original, horiginal, hconv⟩ := mem_of_mapM_ok hmap _ hmem
      have hexplained := (ih _ _ _ hinner (hsv original horiginal) hconv).2 part inside hdeep
      exact ⟨hexplained.1, fun tag fields vs hpart hin =>
        .element (hexplained.2 tag fields vs hpart hin)⟩

/-- What the fields of a struct promise together. -/
def FieldsSound (fields : List MoveTypeLayout) : Prop :=
  ∀ types values packed, fieldsToSolTypes fields = .ok types → HaveTypes types values →
    solToFields fields values = .ok packed →
    areDecodable fields ∧ ∀ p ∈ fields.zip packed, Explained p.1 p.2

theorem fieldsSound_cons {field : MoveTypeLayout} {fields : List MoveTypeLayout}
    (hfield : Sound field) (hfields : FieldsSound fields) : FieldsSound (field :: fields) := by
  intro types values packed htypes hvalues hpacked
  simp only [fieldsToSolTypes, Errors.bind_ok_iff, Except.ok.injEq] at htypes
  obtain ⟨type, htype, others, hothers, rfl⟩ := htypes
  cases values with
  | nil => simp [HaveTypes] at hvalues
  | cons value values =>
    simp only [solToFields, Errors.bind_ok_iff, Except.ok.injEq] at hpacked
    obtain ⟨first, hfirst, rest, hrest, rfl⟩ := hpacked
    simp only [HaveTypes] at hvalues
    obtain ⟨hdecodable, hexplained⟩ := hfield _ _ _ htype hvalues.1 hfirst
    obtain ⟨hdecodables, hall⟩ := hfields _ _ _ hothers hvalues.2 hrest
    refine ⟨by simp [areDecodable, hdecodable, hdecodables], ?_⟩
    intro p hp
    rcases List.mem_cons.mp hp with rfl | hmem
    · exact hexplained
    · exact hall p hmem

theorem explained_packedBytes {tag : StructTag} {fields : List MoveTypeLayout} {bytes : Bytes}
    (h : isPackedBytes tag) :
    isDecodable (.structWithTypes tag fields) ∧
      Explained (.structWithTypes tag fields) (.struct [vectorU8 bytes]) := by
  have hdecodable : isDecodable (.structWithTypes tag fields) := by simp [isDecodable, h]
  refine ⟨hdecodable, fun part inside hinside => ?_⟩
  cases hinside with
  | here =>
    refine ⟨by simp, fun other _ _ hpart _ => ?_⟩
    cases hpart
    exact .here hdecodable
  | field hmem hdeep =>
    obtain rfl := List.mem_singleton.mp (List.of_mem_zip hmem).2
    rcases inside_vectorU8 hdeep with rfl | ⟨x, rfl⟩
    · exact ⟨by simp [vectorU8], by simp [vectorU8]⟩
    · exact ⟨by simp, by simp⟩

theorem sound_struct {tag : StructTag} {fields : List MoveTypeLayout} (ih : FieldsSound fields) :
    Sound (.structWithTypes tag fields) := by
  intro solType sv value htype hsv hvalue
  unfold layoutToSolType at htype
  split_ifs at htype with hfixed _ hstring
  · obtain rfl := Except.ok.inj htype
    cases sv <;> simp only [HasType] at hsv
    simp only [solToValue, Except.ok.injEq] at hvalue
    subst hvalue
    exact explained_packedBytes (by simp [isPackedBytes, hfixed])
  · obtain rfl := Except.ok.inj htype
    cases sv <;> simp only [HasType] at hsv
    simp only [solToValue, Except.ok.injEq] at hvalue
    subst hvalue
    exact explained_packedBytes (by simp [isPackedBytes, hstring])
  · simp only [Errors.bind_ok_iff, Except.ok.injEq] at htype
    obtain ⟨types, htypes, rfl⟩ := htype
    cases sv <;> simp only [HasType] at hsv
    rename_i values
    simp only [solToValue, Errors.bind_ok_iff, Except.ok.injEq] at hvalue
    obtain ⟨packed, hpacked, rfl⟩ := hvalue
    obtain ⟨hdecodable, hall⟩ := ih _ _ _ htypes hsv hpacked
    have hstruct : isDecodable (.structWithTypes tag fields) := by simp [isDecodable, hdecodable]
    refine ⟨hstruct, fun part inside hinside => ?_⟩
    cases hinside with
    | here =>
      refine ⟨by simp, fun other _ _ hpart _ => ?_⟩
      cases hpart
      exact .here hstruct
    | field hmem hdeep =>
      have hexplained := hall _ hmem part inside hdeep
      refine ⟨hexplained.1, fun other fs vs hpart hin => ?_⟩
      exact .field (by simp [isPackedBytes, hfixed, hstring]) hdecodable (List.of_mem_zip hmem).1
        (hexplained.2 other fs vs hpart hin)

mutual

theorem sound : ∀ layout : MoveTypeLayout, Sound layout
  | .primitive _ => fun _ _ _ htype hsv hvalue => explained_primitive htype hsv hvalue
  | .vector inner => sound_vector (sound inner)
  | .structWithTypes _ fields => sound_struct (fieldsSound fields)
  | .structUntagged _ => fun _ _ _ htype => by simp [layoutToSolType] at htype
  | .structVariants => fun _ _ _ htype => by simp [layoutToSolType] at htype
  | .native _ => fun _ sv _ _ _ hvalue => by
      cases sv <;> simp [solToValue, uintToValue] at hvalue

theorem fieldsSound : ∀ fields : List MoveTypeLayout, FieldsSound fields
  | [] => fun _ _ _ _ _ _ => ⟨rfl, by simp⟩
  | field :: fields => fieldsSound_cons (sound field) (fieldsSound fields)

end

end Soundness

section Completeness

/-- Some Solidity value of the right type is repacked as the Move value. -/
def Produces (layout : MoveTypeLayout) (solType : DynSolType) (value : MoveValue) : Prop :=
  ∃ sv, HasType solType sv ∧ solToValue layout sv = .ok value

def ProducesFields (fields : List MoveTypeLayout) (types : List DynSolType)
    (packed : List MoveValue) : Prop :=
  ∃ values, HaveTypes types values ∧ solToFields fields values = .ok packed

theorem producesFields_cons {field : MoveTypeLayout} {fields : List MoveTypeLayout}
    {type : DynSolType} {types : List DynSolType} {first : MoveValue} {rest : List MoveValue}
    (hfirst : Produces field type first) (hrest : ProducesFields fields types rest) :
    ProducesFields (field :: fields) (type :: types) (first :: rest) := by
  obtain ⟨sv, hsv, hvalue⟩ := hfirst
  obtain ⟨values, hvalues, hpacked⟩ := hrest
  refine ⟨sv :: values, ⟨hsv, hvalues⟩, ?_⟩
  simp only [solToFields, hvalue, hpacked, bind, Except.bind]

theorem produces_packedBytes {tag : StructTag} {fields : List MoveTypeLayout}
    {solType : DynSolType} (h : isPackedBytes tag)
    (htype : layoutToSolType (.structWithTypes tag fields) = .ok solType) :
    ∃ bytes, Produces (.structWithTypes tag fields) solType (.struct [vectorU8 bytes]) := by
  unfold layoutToSolType at htype
  split_ifs at htype with hfixed _ hstring
  · obtain rfl := Except.ok.inj htype
    exact ⟨_, .fixedBytes 0 (typeArgsToUsize tag.typeArgs), rfl, rfl⟩
  · obtain rfl := Except.ok.inj htype
    have hempty : TagValidation.isUtf8 [] := by decide
    exact ⟨[], .string [], hempty, rfl⟩
  · simp [isPackedBytes, hfixed, hstring] at h

theorem produces_struct {tag : StructTag} {fields : List MoveTypeLayout}
    {solType : DynSolType} (packedOf : List MoveValue → Prop) (h : isPackedBytes tag = false)
    (hfields : ∀ types, fieldsToSolTypes fields = .ok types →
      ∃ packed, ProducesFields fields types packed ∧ packedOf packed)
    (htype : layoutToSolType (.structWithTypes tag fields) = .ok solType) :
    ∃ packed, Produces (.structWithTypes tag fields) solType (.struct packed) ∧
      packedOf packed := by
  unfold layoutToSolType at htype
  split_ifs at htype with hfixed _ hstring
  · simp [isPackedBytes, hfixed] at h
  · simp [isPackedBytes, hstring] at h
  · simp only [Errors.bind_ok_iff, Except.ok.injEq] at htype
    obtain ⟨types, htypes, rfl⟩ := htype
    obtain ⟨packed, ⟨values, hvalues, hpacked⟩, hof⟩ := hfields types htypes
    refine ⟨packed, ⟨.tuple values, hvalues, ?_⟩, hof⟩
    simp only [solToValue, hpacked, bind, Except.bind]

theorem produces_primitive {type : PrimitiveType} {solType : DynSolType} (h : type ≠ .signer)
    (htype : layoutToSolType (.primitive type) = .ok solType) :
    ∃ value, Produces (.primitive type) solType value := by
  cases type <;> simp only [layoutToSolType, Except.ok.injEq] at htype <;> subst htype
  case bool => exact ⟨_, .bool true, trivial, rfl⟩
  case address => exact ⟨_, .address 0, trivial, rfl⟩
  case signer => exact absurd rfl h
  all_goals exact ⟨_, .uint 0 _, ⟨rfl, by decide⟩, rfl⟩

theorem produces_vector_nil {inner : MoveTypeLayout} {solType : DynSolType}
    (htype : layoutToSolType (.vector inner) = .ok solType) :
    Produces (.vector inner) solType (.vector []) := by
  by_cases hbyte : inner = .primitive .u8
  · subst hbyte
    obtain rfl := Except.ok.inj htype
    exact ⟨.bytes [], trivial, rfl⟩
  · simp only [layoutToSolType, Errors.bind_ok_iff, Except.ok.injEq] at htype
    obtain ⟨innerType, -, rfl⟩ := htype
    exact ⟨.array [], by simp [HasType], by cases inner <;> rfl⟩

mutual

theorem produces_of_isDecodable : ∀ (layout : MoveTypeLayout) (solType : DynSolType),
    layoutToSolType layout = .ok solType → isDecodable layout →
    ∃ value, Produces layout solType value
  | .primitive type, _ => fun htype h => produces_primitive (by simpa [isDecodable] using h) htype
  | .vector _, _ => fun htype _ => ⟨_, produces_vector_nil htype⟩
  | .structWithTypes tag fields, _ => fun htype h => by
      by_cases hpacked : isPackedBytes tag
      · obtain ⟨bytes, hproduces⟩ := produces_packedBytes hpacked htype
        exact ⟨_, hproduces⟩
      · have hfields : areDecodable fields := by simpa [isDecodable, hpacked] using h
        obtain ⟨packed, hproduces, -⟩ := produces_struct (fun _ => True)
          (by simpa using hpacked)
          (fun types htypes => by
            obtain ⟨packed, hpacked⟩ := producesFields_of_areDecodable fields types htypes hfields
            exact ⟨packed, hpacked, trivial⟩) htype
        exact ⟨_, hproduces⟩
  | .structUntagged _, _ => fun htype _ => by simp [layoutToSolType] at htype
  | .structVariants, _ => fun htype _ => by simp [layoutToSolType] at htype
  | .native _, _ => fun _ h => by simp [isDecodable] at h

theorem producesFields_of_areDecodable : ∀ (fields : List MoveTypeLayout)
    (types : List DynSolType), fieldsToSolTypes fields = .ok types → areDecodable fields →
    ∃ packed, ProducesFields fields types packed
  | [], _ => fun htypes _ => by
      obtain rfl := Except.ok.inj htypes
      exact ⟨[], [], trivial, rfl⟩
  | field :: fields, _ => fun htypes h => by
      simp only [fieldsToSolTypes, Errors.bind_ok_iff, Except.ok.injEq] at htypes
      obtain ⟨type, htype, types, hrest, rfl⟩ := htypes
      simp only [areDecodable, Bool.and_eq_true] at h
      obtain ⟨value, hvalue⟩ := produces_of_isDecodable field type htype h.1
      obtain ⟨packed, hpacked⟩ := producesFields_of_areDecodable fields types hrest h.2
      exact ⟨_, producesFields_cons hvalue hpacked⟩

end

/-- A chosen value of one field, completed by values of the others. -/
theorem producesFields_with {fields : List MoveTypeLayout} {types : List DynSolType}
    {field : MoveTypeLayout} {good : MoveValue → Prop}
    (htypes : fieldsToSolTypes fields = .ok types) (h : areDecodable fields)
    (hmem : field ∈ fields)
    (hfield : ∀ type, layoutToSolType field = .ok type →
      ∃ value, Produces field type value ∧ good value) :
    ∃ packed, ProducesFields fields types packed ∧
      ∃ value, (field, value) ∈ fields.zip packed ∧ good value := by
  induction fields generalizing types with
  | nil => cases hmem
  | cons first fields ih =>
    simp only [fieldsToSolTypes, Errors.bind_ok_iff, Except.ok.injEq] at htypes
    obtain ⟨type, htype, types, hrest, rfl⟩ := htypes
    simp only [areDecodable, Bool.and_eq_true] at h
    rcases List.mem_cons.mp hmem with rfl | hlater
    · obtain ⟨value, hvalue, hgood⟩ := hfield type htype
      obtain ⟨packed, hpacked⟩ := producesFields_of_areDecodable fields types hrest h.2
      exact ⟨_, producesFields_cons hvalue hpacked, value, by simp, hgood⟩
    · obtain ⟨packed, hpacked, value, hzip, hgood⟩ := ih hrest h.2 hlater
      obtain ⟨head, hhead⟩ := produces_of_isDecodable first type htype h.1
      exact ⟨_, producesFields_cons hhead hpacked, value, by simp [hzip], hgood⟩

/-- A struct that can occur does occur in some decoded value. -/
theorem exists_inside_of_occurs {layout : MoveTypeLayout} {tag : StructTag}
    (h : Occurs layout tag) {solType : DynSolType} (htype : layoutToSolType layout = .ok solType) :
    ∃ value, Produces layout solType value ∧
      ∃ fields values, Inside layout value (.structWithTypes tag fields) (.struct values) := by
  induction h generalizing solType with
  | @here tag fields hdecodable =>
    by_cases hpacked : isPackedBytes tag
    · obtain ⟨bytes, hproduces⟩ := produces_packedBytes hpacked htype
      exact ⟨_, hproduces, _, _, .here _ _⟩
    · have hfields : areDecodable fields := by simpa [isDecodable, hpacked] using hdecodable
      obtain ⟨packed, hproduces, -⟩ := produces_struct (fun _ => True)
        (by simpa using hpacked)
        (fun types htypes => by
          obtain ⟨packed, hpacked⟩ := producesFields_of_areDecodable fields types htypes hfields
          exact ⟨packed, hpacked, trivial⟩) htype
      exact ⟨_, hproduces, _, _, .here _ _⟩
  | @field tag other fields field hpacked hfields hmem _ ih =>
    obtain ⟨packed, hproduces, value, hzip, inner, values, hinside⟩ := produces_struct _ hpacked
      (fun types htypes => producesFields_with htypes hfields hmem fun type htype => ih htype) htype
    exact ⟨_, hproduces, inner, values, .field hzip hinside⟩
  | @element inner tag hoccurs ih =>
    have hbyte : inner ≠ .primitive .u8 := by
      rintro rfl
      cases hoccurs
    simp only [layoutToSolType, Errors.bind_ok_iff, Except.ok.injEq] at htype
    obtain ⟨innerType, hinner, rfl⟩ := htype
    obtain ⟨value, ⟨sv, hsv, hvalue⟩, fields, values, hinside⟩ := ih hinner
    refine ⟨.vector [value], ⟨.array [sv], by simpa [HasType] using hsv, ?_⟩, fields, values,
      .element (by simp) hinside⟩
    cases inner <;> simp [solToValue, hvalue, bind, Except.bind, pure, Except.pure]

end Completeness

section Authority

variable (libraryDecode : DynSolType → Bytes → Option DynSolValue)
variable (reserved : StructTag → Prop)
variable (signsFor : StructTag → List MoveValue → Option AccountAddress) (sender : AccountAddress)

/-- Whatever is decoded for the layout holds no signer and no struct whose construction is
reserved to its module, so that the only account it can sign for is the sender's. -/
def ForgesNothing (layout : MoveTypeLayout) : Prop :=
  ∀ bytes value, abiDecodeParams libraryDecode bytes layout = .ok value →
    (∀ part a, ¬ Inside layout value part (.signer a)) ∧
    ∀ tag fields values,
      Inside layout value (.structWithTypes tag fields) (.struct values) →
      ¬ reserved tag ∧ ∀ a, signsFor tag values = some a → a = sender

theorem abiDecodeParams_ok_iff (bytes : Bytes) (layout : MoveTypeLayout) (value : MoveValue) :
    abiDecodeParams libraryDecode bytes layout = .ok value ↔
      ∃ solType sv, layoutToSolType layout = .ok solType ∧
        libraryDecode solType bytes = some sv ∧ solToValue layout sv = .ok value := by
  simp only [abiDecodeParams, Errors.bind_ok_iff]
  constructor
  · rintro ⟨solType, htype, h⟩
    split at h
    · cases h
    · rename_i sv hsv
      exact ⟨solType, sv, htype, hsv, h⟩
  · rintro ⟨solType, sv, htype, hsv, hvalue⟩
    exact ⟨solType, htype, by rw [hsv]; exact hvalue⟩

/-- The ABI library at the two tuple types below. -/
def sampleDecode : DynSolType → Bytes → Option DynSolValue
  | .tuple [.address], bytes =>
      if bytes.length = 32 ∧ beNat bytes < 2 ^ 160 then
        some (.tuple [.address (BitVec.ofNat 160 (beNat bytes))])
      else none
  | .tuple [.bool], bytes =>
      if bytes.length = 32 ∧ beNat bytes ≤ 1 then some (.tuple [.bool (beNat bytes == 1)])
      else none
  | _, _ => none

def signerCapabilityTag : StructTag := ⟨1, "account", "SignerCapability", []⟩

def signerCapabilityLayout : MoveTypeLayout :=
  .structWithTypes signerCapabilityTag [.primitive .address]

/-- `account::create_signer_with_capability`. -/
def capabilitySigner (tag : StructTag) (values : List MoveValue) : Option AccountAddress :=
  match values with
  | [.address account] => if tag = signerCapabilityTag then some account else none
  | _ => none

theorem capabilitySigner_reserved (tag : StructTag) (values : List MoveValue)
    (a : AccountAddress) (h : capabilitySigner tag values = some a) : tag = signerCapabilityTag := by
  unfold capabilitySigner at h
  split at h
  · split_ifs at h with htag
    exact htag
  · cases h

def flagLayout : MoveTypeLayout := .structWithTypes ⟨0x42, "flags", "Flag", []⟩ [.primitive .bool]

end Authority

end OpMove.SolidityAbi
