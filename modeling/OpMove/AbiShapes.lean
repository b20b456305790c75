import OpMove.SolidityAbi

/-!
The shape of what ABI decoding gives. The Solidity type and the repacking are both read off
the layout; for a layout of plain data the two stay in step at every depth, so that each
Solidity value of the type becomes a value of the layout. Where a layout has a signer, nothing
with a signer in it is ever decoded.
-/

namespace OpMove.AbiShapes

open Primitives MoveTypes SolidityAbi

section Layouts

def byteVector : MoveTypeLayout := .vector (.primitive .u8)

/-- The two structs that are packed from bytes have one field, a vector of bytes. -/
def Declared (tag : StructTag) (fields : List MoveTypeLayout) : Prop :=
  isPackedBytes tag = true → fields = [byteVector]

mutual

/-- Every struct has its tag and its fields. -/
def IsAnnotated : MoveTypeLayout → Prop
  | .primitive _ => True
  | .vector inner => IsAnnotated inner
  | .structWithTypes tag fields => Declared tag fields ∧ AreAnnotated fields
  | .native inner => IsAnnotated inner
  | .structUntagged _ | .structVariants => False

def AreAnnotated : List MoveTypeLayout → Prop
  | [] => True
  | field :: fields => IsAnnotated field ∧ AreAnnotated fields

end

mutual

/-- No signer, native layout, enum or fixed array anywhere. -/
def isPlain : MoveTypeLayout → Bool
  | .primitive type => type != .signer
  | .vector inner => isPlain inner
  | .structWithTypes tag fields => !sameStruct fixedArrayTag tag && arePlain fields
  | .structUntagged fields => arePlain fields
  | .structVariants | .native _ => false

def arePlain : List MoveTypeLayout → Bool
  | [] => true
  | field :: fields => isPlain field && arePlain fields

end

mutual

def containsSigner : MoveTypeLayout → Bool
  | .primitive type => type == .signer
  | .vector inner => containsSigner inner
  | .structWithTypes _ fields | .structUntagged fields => containSigner fields
  | .structVariants => false
  | .native inner => containsSigner inner

def containSigner : List MoveTypeLayout → Bool
  | [] => false
  | field :: fields => containsSigner field || containSigner fields

end

mutual

/-- The values of a layout. A struct has exactly the fields of its layout; the widths of
integers are part of the values. -/
def HasLayout : MoveTypeLayout → MoveValue → Prop
  | .primitive .bool, .bool _ => True
  | .primitive .u8, .u8 _ => True
  | .primitive .u16, .u16 _ => True
  | .primitive .u32, .u32 _ => True
  | .primitive .u64, .u64 _ => True
  | .primitive .u128, .u128 _ => True
  | .primitive .u256, .u256 _ => True
  | .primitive .address, .address _ => True
  | .primitive .signer, .signer _ => True
  | .vector inner, .vector elements => ∀ element ∈ elements, HasLayout inner element
  | .structWithTypes _ fields, .struct values => HaveLayouts fields values
  | .structUntagged fields, .struct values => HaveLayouts fields values
  | .native inner, value => HasLayout inner value
  | _, _ => False

def HaveLayouts : List MoveTypeLayout → List MoveValue → Prop
  | [], [] => True
  | field :: fields, value :: values => HasLayout field value ∧ HaveLayouts fields values
  | _, _ => False

end

example : HasLayout (.native (.primitive .u8)) (.u8 7) := by
  simp [HasLayout]

mutual

/-- A signer at any depth of a value. -/
def holdsSigner : MoveValue → Bool
  | .signer _ => true
  | .vector elements => holdSigner elements
  | .struct fields => holdSigner fields
  | .bool _ | .u8 _ | .u16 _ | .u32 _ | .u64 _ | .u128 _ | .u256 _ | .address _ => false

def holdSigner : List MoveValue → Bool
  | [] => false
  | value :: values => holdsSigner value || holdSigner values

end

end Layouts

section Shape

/-- What a plain layout promises: it has a Solidity type, and every value of it is repacked. -/
def Repacks (layout : MoveTypeLayout) : Prop :=
  ∃ type, layoutToSolType layout = .ok type ∧
    ∀ sv, HasType type sv → ∃ value, solToValue layout sv = .ok value ∧ HasLayout layout value

def FieldsRepack (fields : List MoveTypeLayout) : Prop :=
  ∃ types, fieldsToSolTypes fields = .ok types ∧
    ∀ values, HaveTypes types values →
      ∃ packed, solToFields fields values = .ok packed ∧ HaveLayouts fields packed

theorem haveLayouts_byteVector (bytes : Bytes) : HaveLayouts [byteVector] [vectorU8 bytes] := by
  refine ⟨?_, trivial⟩
  intro element helement
  obtain ⟨b, -, rfl⟩ := List.mem_map.mp helement
  trivial

theorem repacks_primitive {type : PrimitiveType} (h : type ≠ .signer) :
    Repacks (.primitive type) := by
  cases type with
  | signer => exact absurd rfl h
  | bool =>
    refine ⟨.bool, rfl, fun sv hsv => ?_⟩
    cases sv <;> simp only [HasType] at hsv
    exact ⟨_, rfl, trivial⟩
  | address =>
    refine ⟨.address, rfl, fun sv hsv => ?_⟩
    cases sv <;> simp only [HasType] at hsv
    exact ⟨_, rfl, trivial⟩
  | _ =>
    refine ⟨.uint _, rfl, fun sv hsv => ?_⟩
    cases sv <;> simp only [HasType] at hsv
    obtain ⟨rfl, -⟩ := hsv
    exact ⟨_, rfl, trivial⟩

theorem exists_mapM {α β : Type} {f : α → Except AbiError β} {p : β → Prop} {l : List α}
    (h : ∀ a ∈ l, ∃ b, f a = .ok b ∧ p b) : ∃ r, l.mapM f = .ok r ∧ ∀ b ∈ r, p b := by
  induction l with
  | nil => exact ⟨[], rfl, by simp⟩
  | cons a l ih =>
    obtain ⟨b, hb, hp⟩ := h a (by simp)
    obtain ⟨r, hr, hall⟩ := ih fun a' ha' => h a' (by simp [ha'])
    refine ⟨b :: r, ?_, ?_⟩
    · simp only [List.mapM_cons, Errors.bind_ok_iff]
      exact ⟨b, hb, r, hr, rfl⟩
    · intro c hc
      rcases List.mem_cons.mp hc with rfl | hmem
      · exact hp
      · exact hall c hmem

theorem layoutToSolType_vector {inner : MoveTypeLayout} {type : DynSolType}
    (hbyte : inner ≠ .primitive .u8) (h : layoutToSolType inner = .ok type) :
    layoutToSolType (.vector inner) = .ok (.array type) := by
  simp only [layoutToSolType, Errors.bind_ok_iff]
  exact ⟨type, h, rfl⟩

theorem solToValue_vector {inner : MoveTypeLayout} {values : List DynSolValue}
    {elements : List MoveValue} (h : values.mapM (solToValue inner) = .ok elements) :
    solToValue (.vector inner) (.array values) = .ok (.vector elements) := by
  cases inner <;> simp only [solToValue, Errors.bind_ok_iff] <;> exact ⟨elements, h, rfl⟩

theorem repacks_vector {inner : MoveTypeLayout} (ih : Repacks inner) :
    Repacks (.vector inner) := by
  by_cases hbyte : inner = .primitive .u8
  · subst hbyte
    refine ⟨.bytes, rfl, fun sv hsv => ?_⟩
    cases sv <;> simp only [HasType] at hsv
    exact ⟨_, rfl, (haveLayouts_byteVector _).1⟩
  · obtain ⟨type, htype, hall⟩ := ih
    refine ⟨.array type, layoutToSolType_vector hbyte htype, fun sv hsv => ?_⟩
    cases sv <;> simp only [HasType] at hsv
    obtain ⟨elements, hmap, helements⟩ := exists_mapM fun sv hmem => hall sv (hsv sv hmem)
    exact ⟨_, solToValue_vector hmap, helements⟩

theorem repacks_struct {tag : StructTag} {fields : List MoveTypeLayout}
    (hdeclared : Declared tag fields) (harray : sameStruct fixedArrayTag tag = false)
    (ih : FieldsRepack fields) : Repacks (.structWithTypes tag fields) := by
  unfold Repacks layoutToSolType
  by_cases hfixed : sameStruct fixedBytesTag tag
  · obtain rfl := hdeclared (by simp [isPackedBytes, hfixed])
    refine ⟨_, by rw [if_pos hfixed], fun sv hsv => ?_⟩
    cases sv <;> simp only [HasType] at hsv
    exact ⟨_, rfl, haveLayouts_byteVector _⟩
  · rw [if_neg hfixed, if_neg (by simp [harray])]
    by_cases hstring : tag = stringTag
    · obtain rfl := hdeclared (by simp [isPackedBytes, hstring])
      refine ⟨_, by rw [if_pos hstring], fun sv hsv => ?_⟩
      cases sv <;> simp only [HasType] at hsv
      exact ⟨_, rfl, haveLayouts_byteVector _⟩
    · obtain ⟨types, htypes, hall⟩ := ih
      refine ⟨.tuple types, ?_, fun sv hsv => ?_⟩
      · rw [if_neg hstring, htypes]
        rfl
      · cases sv <;> simp only [HasType] at hsv
        obtain ⟨packed, hpacked, hlayouts⟩ := hall _ hsv
        refine ⟨.struct packed, ?_, hlayouts⟩
        simp only [solToValue, hpacked, bind, Except.bind]

theorem fieldsRepack_cons {field : MoveTypeLayout} {fields : List MoveTypeLayout}
    (hfield : Repacks field) (hfields : FieldsRepack fields) : FieldsRepack (field :: fields) := by
  obtain ⟨type, htype, hone⟩ := hfield
  obtain ⟨types, htypes, hall⟩ := hfields
  refine ⟨type :: types, by simp only [fieldsToSolTypes, htype, htypes, bind, Except.bind], ?_⟩
  intro values hvalues
  cases values with
  | nil => simp [HaveTypes] at hvalues
  | cons value values =>
    simp only [HaveTypes] at hvalues
    obtain ⟨first, hfirst, hlayout⟩ := hone value hvalues.1
    obtain ⟨rest, hrest, hlayouts⟩ := hall values hvalues.2
    refine ⟨first :: rest, ?_, hlayout, hlayouts⟩
    simp only [solToFields, hfirst, hrest, bind, Except.bind]

mutual

theorem repacks : ∀ layout : MoveTypeLayout, IsAnnotated layout → isPlain layout = true →
    Repacks layout
  | .primitive _ => fun _ hplain => repacks_primitive (by simpa [isPlain] using hplain)
  | .vector inner => fun hannotated hplain => repacks_vector (repacks inner hannotated hplain)
  | .structWithTypes tag fields => fun hannotated hplain => by
      simp only [isPlain, Bool.and_eq_true, Bool.not_eq_true'] at hplain
      exact repacks_struct hannotated.1 hplain.1 (fieldsRepack fields hannotated.2 hplain.2)
  | .structUntagged _ => fun hannotated _ => hannotated.elim
  | .structVariants => fun hannotated _ => hannotated.elim
  | .native _ => fun _ hplain => by simp [isPlain] at hplain

theorem fieldsRepack : ∀ fields : List MoveTypeLayout, AreAnnotated fields →
    arePlain fields = true → FieldsRepack fields
  | [] => fun _ _ => ⟨[], rfl, fun values hvalues => by
      cases values with
      | nil => exact ⟨[], rfl, trivial⟩
      | cons value values => simp [HaveTypes] at hvalues⟩
  | field :: fields => fun hannotated hplain => by
      simp only [arePlain, Bool.and_eq_true] at hplain
      exact fieldsRepack_cons (repacks field hannotated.1 hplain.1)
        (fieldsRepack fields hannotated.2 hplain.2)

end

end Shape

section Signers

/-- Nothing that is repacked holds a signer. -/
def SignerFree (layout : MoveTypeLayout) : Prop :=
  ∀ sv value, solToValue layout sv = .ok value → holdsSigner value = false

theorem holdSigner_eq_false {values : List MoveValue}
    (h : ∀ value ∈ values, holdsSigner value = false) : holdSigner values = false := by
  induction values with
  | nil => rfl
  | cons value values ih =>
    rw [holdSigner, h value (by simp), ih fun value hvalue => h value (by simp [hvalue])]
    rfl

theorem holdsSigner_vectorU8 (bytes : Bytes) : holdsSigner (vectorU8 bytes) = false := by
  refine holdSigner_eq_false fun value hvalue => ?_
  obtain ⟨b, -, rfl⟩ := List.mem_map.mp hvalue
  rfl

theorem holdsSigner_packed (bytes : Bytes) : holdsSigner (.struct [vectorU8 bytes]) = false := by
  rw [holdsSigner, holdSigner, holdsSigner_vectorU8]
  rfl

theorem holdsSigner_of_uintToValue {u : U256} {size : ℕ} {layout : MoveTypeLayout}
    {value : MoveValue} (h : uintToValue u size layout = .ok value) :
    holdsSigner value = false := by
  unfold uintToValue at h
  split at h
  case h_7 => cases h
  all_goals
    obtain rfl := Except.ok.inj h
    rfl

theorem signerFree_primitive (type : PrimitiveType) : SignerFree (.primitive type) := by
  intro sv value h
  cases sv with
  | uint u size =>
    cases type <;> exact holdsSigner_of_uintToValue h
  | bool b =>
    cases type <;> simp only [solToValue, reduceCtorEq, Except.ok.injEq] at h
    subst h
    rfl
  | address a =>
    cases type <;> simp only [solToValue, reduceCtorEq, Except.ok.injEq] at h
    subst h
    rfl
  | _ => cases type <;> simp [solToValue] at h

theorem signerFree_vector {inner : MoveTypeLayout} (ih : SignerFree inner) :
    SignerFree (.vector inner) := by
  intro sv value h
  cases sv with
  | uint u size =>
    simp only [solToValue] at h
    exact holdsSigner_of_uintToValue h
  | bytes b =>
    have hbyte : inner = .primitive .u8 := by
      by_contra hne
      cases inner <;> simp_all [solToValue]
    subst hbyte
    obtain rfl := Except.ok.inj h
    exact holdsSigner_vectorU8 b
  | array values =>
    have helements : ∃ elements, values.mapM (solToValue inner) = .ok elements ∧
        .vector elements = value := by
      cases inner <;> simpa only [solToValue, Errors.bind_ok_iff, Except.ok.injEq] using h
    obtain ⟨elements, hmap, rfl⟩ := helements
    refine holdSigner_eq_false fun element helement => ?_
    obtain ⟨original, -, hconv⟩ := mem_of_mapM_ok hmap element helement
    exact ih original element hconv
  | _ => cases inner <;> simp [solToValue] at h

/-- The fields of a struct, repacked from a tuple. -/
def FieldsSignerFree (fields : List MoveTypeLayout) : Prop :=
  ∀ values packed, solToFields fields values = .ok packed → holdSigner packed = false

theorem fieldsSignerFree_cons {field : MoveTypeLayout} {fields : List MoveTypeLayout}
    (hfield : SignerFree field) (hfields : FieldsSignerFree fields) :
    FieldsSignerFree (field :: fields) := by
  intro values packed h
  cases values with
  | nil =>
    obtain rfl := Except.ok.inj h
    rfl
  | cons value values =>
    simp only [solToFields, Errors.bind_ok_iff, Except.ok.injEq] at h
    obtain ⟨first, hfirst, rest, hrest, rfl⟩ := h
    rw [holdSigner, hfield value first hfirst, hfields values rest hrest]
    rfl

theorem signerFree_struct {layout : MoveTypeLayout} {fields : List MoveTypeLayout}
    (hlayout : layout = .structUntagged fields ∨ ∃ tag, layout = .structWithTypes tag fields)
    (ih : FieldsSignerFree fields) : SignerFree layout := by
  intro sv value h
  cases sv with
  | uint u size =>
    rcases hlayout with rfl | ⟨tag, rfl⟩ <;> exact holdsSigner_of_uintToValue h
  | fixedBytes word size =>
    have hvalue : .struct [vectorU8 (leBytes 32 word.toNat).reverse] = value := by
      rcases hlayout with rfl | ⟨tag, rfl⟩ <;> exact Except.ok.inj h
    rw [← hvalue, holdsSigner_packed]
  | string s =>
    have hvalue : .struct [vectorU8 s] = value := by
      rcases hlayout with rfl | ⟨tag, rfl⟩ <;> exact Except.ok.inj h
    rw [← hvalue, holdsSigner_packed]
  | tuple values =>
    have hpacked : ∃ packed, solToFields fields values = .ok packed ∧ .struct packed = value := by
      rcases hlayout with rfl | ⟨tag, rfl⟩ <;>
        simpa only [solToValue, Errors.bind_ok_iff, Except.ok.injEq] using h
    obtain ⟨packed, hpacked, rfl⟩ := hpacked
    exact ih values packed hpacked
  | _ => rcases hlayout with rfl | ⟨tag, rfl⟩ <;> simp [solToValue] at h

theorem signerFree_structVariants : SignerFree .structVariants := by
  intro sv value h
  cases sv with
  | uint u size => exact holdsSigner_of_uintToValue h
  | fixedBytes word size =>
    obtain rfl := Except.ok.inj h
    exact holdsSigner_packed _
  | string s =>
    obtain rfl := Except.ok.inj h
    exact holdsSigner_packed s
  | _ => simp [solToValue] at h

theorem signerFree_native (inner : MoveTypeLayout) : SignerFree (.native inner) := by
  intro sv value h
  cases sv <;> simp [solToValue, uintToValue] at h

mutual

theorem signerFree : ∀ layout : MoveTypeLayout, SignerFree layout
  | .primitive type => signerFree_primitive type
  | .vector inner => signerFree_vector (signerFree inner)
  | .structWithTypes tag fields => signerFree_struct (.inr ⟨tag, rfl⟩) (fieldsSignerFree fields)
  | .structUntagged fields => signerFree_struct (.inl rfl) (fieldsSignerFree fields)
  | .structVariants => signerFree_structVariants
  | .native inner => signerFree_native inner

theorem fieldsSignerFree : ∀ fields : List MoveTypeLayout, FieldsSignerFree fields
  | [] => fun _ packed h => by
      obtain rfl : [] = packed := Except.ok.inj h
      rfl
  | field :: fields => fieldsSignerFree_cons (signerFree field) (fieldsSignerFree fields)

end

end Signers

section Panics

/-- The arms of the source that cannot be reached are not reached. -/
def TypeReached (layout : MoveTypeLayout) : Prop := layoutToSolType layout ≠ .error .panicked

theorem bind_ne_panicked {α β : Type} {e : Except AbiError α} {f : α → Except AbiError β}
    (he : e ≠ .error .panicked) (hf : ∀ a, f a ≠ .error .panicked) :
    (e >>= f) ≠ .error .panicked := by
  cases e with
  | error e =>
    intro h
    exact he (congrArg Except.error (Except.error.inj h))
  | ok a => exact hf a

theorem typeReached_struct {tag : StructTag} {fields : List MoveTypeLayout}
    (ih : fieldsToSolTypes fields ≠ .error .panicked) :
    TypeReached (.structWithTypes tag fields) := by
  unfold TypeReached layoutToSolType
  split_ifs
  · exact nofun
  · exact nofun
  · exact nofun
  · exact bind_ne_panicked ih fun _ => nofun

mutual

theorem typeReached : ∀ layout : MoveTypeLayout, IsAnnotated layout → TypeReached layout
  | .primitive type => fun _ => by cases type <;> exact nofun
  | .vector inner => fun h => by
      by_cases hbyte : inner = .primitive .u8
      · subst hbyte
        exact nofun
      · have hinner := typeReached inner h
        unfold TypeReached
        simp only [layoutToSolType]
        exact bind_ne_panicked hinner fun _ => nofun
  | .structWithTypes _ fields => fun h => typeReached_struct (fieldsReached fields h.2)
  | .structUntagged _ => fun h => h.elim
  | .structVariants => fun h => h.elim
  | .native inner => fun h => by
      have hinner := typeReached inner h
      unfold TypeReached at hinner ⊢
      rwa [layoutToSolType]

theorem fieldsReached : ∀ fields : List MoveTypeLayout, AreAnnotated fields →
    fieldsToSolTypes fields ≠ .error .panicked
  | [] => fun _ => nofun
  | field :: fields => fun h => by
      unfold fieldsToSolTypes
      exact bind_ne_panicked (typeReached field h.1) fun _ =>
        bind_ne_panicked (fieldsReached fields h.2) fun _ => nofun

end

theorem mapM_ne_panicked {α β : Type} {f : α → Except AbiError β}
    (hf : ∀ a, f a ≠ .error .panicked) (l : List α) : l.mapM f ≠ .error .panicked := by
  induction l with
  | nil => exact nofun
  | cons a l ih =>
    rw [List.mapM_cons]
    exact bind_ne_panicked (hf a) fun _ => bind_ne_panicked ih fun _ => nofun

/-- Repacking has no such arm, whatever the layout and the value are. -/
def ValueReached (layout : MoveTypeLayout) : Prop :=
  ∀ sv, solToValue layout sv ≠ .error .panicked

theorem uintToValue_ne_panicked (u : U256) (size : ℕ) (layout : MoveTypeLayout) :
    uintToValue u size layout ≠ .error .panicked := by
  unfold uintToValue
  split <;> simp

theorem valueReached_vector {inner : MoveTypeLayout} (ih : ValueReached inner) :
    ValueReached (.vector inner) := by
  intro sv
  cases sv with
  | uint u size =>
    simp only [solToValue]
    exact uintToValue_ne_panicked u size _
  | array values =>
    simp only [solToValue]
    exact bind_ne_panicked (mapM_ne_panicked ih values) fun _ => nofun
  | bytes b =>
    unfold solToValue
    split <;> simp_all
  | _ => simp [solToValue]

theorem valueReached_struct {layout : MoveTypeLayout} {fields : List MoveTypeLayout}
    (hlayout : layout = .structUntagged fields ∨ ∃ tag, layout = .structWithTypes tag fields)
    (ih : ∀ values, solToFields fields values ≠ .error .panicked) : ValueReached layout := by
  intro sv
  cases sv with
  | uint u size =>
    rcases hlayout with rfl | ⟨tag, rfl⟩ <;> exact uintToValue_ne_panicked u size _
  | tuple values =>
    rcases hlayout with rfl | ⟨tag, rfl⟩ <;> simp only [solToValue] <;>
      exact bind_ne_panicked (ih values) fun _ => nofun
  | _ => rcases hlayout with rfl | ⟨tag, rfl⟩ <;> simp [solToValue]

mutual

theorem valueReached : ∀ layout : MoveTypeLayout, ValueReached layout
  | .primitive type => fun sv => by
      cases sv with
      | uint u size => cases type <;> exact uintToValue_ne_panicked u size _
      | _ => cases type <;> simp [solToValue]
  | .vector inner => valueReached_vector (valueReached inner)
  | .structWithTypes tag fields => valueReached_struct (.inr ⟨tag, rfl⟩) (fieldValuesReached fields)
  | .structUntagged fields => valueReached_struct (.inl rfl) (fieldValuesReached fields)
  | .structVariants => fun sv => by
      cases sv with
      | uint u size => exact uintToValue_ne_panicked u size _
      | _ => simp [solToValue]
  | .native _ => fun sv => by
      cases sv with
      | uint u size => exact uintToValue_ne_panicked u size _
      | _ => simp [solToValue]

theorem fieldValuesReached : ∀ (fields : List MoveTypeLayout) (values : List DynSolValue),
    solToFields fields values ≠ .error .panicked
  | [] => fun _ => nofun
  | field :: fields => fun values => by
      cases values with
      | nil => exact nofun
      | cons value values =>
        unfold solToFields
        exact bind_ne_panicked (valueReached field value) fun _ =>
          bind_ne_panicked (fieldValuesReached fields values) fun _ => nofun

end

end Panics

section Decoding

variable (libraryDecode : DynSolType → Bytes → Option DynSolValue)

theorem holdsSigner_of_abiDecodeParams {bytes : Bytes} {layout : MoveTypeLayout}
    {value : MoveValue} (h : abiDecodeParams libraryDecode bytes layout = .ok value) :
    holdsSigner value = false := by
  obtain ⟨solType, sv, -, -, hvalue⟩ := (abiDecodeParams_ok_iff ..).mp h
  exact signerFree layout sv value hvalue

theorem abiDecodeParams_ne_panicked {layout : MoveTypeLayout} (h : IsAnnotated layout)
    (bytes : Bytes) : abiDecodeParams libraryDecode bytes layout ≠ .error .panicked := by
  unfold abiDecodeParams
  refine bind_ne_panicked (typeReached layout h) fun type => ?_
  split
  · exact nofun
  · exact valueReached layout _

/-- An owner with a list of names. -/
def namesLayout : MoveTypeLayout :=
  .structWithTypes ⟨0x42, "registry", "Names", []⟩
    [.primitive .address, .vector (.structWithTypes stringTag [byteVector])]

def emptyArrayBytes : Bytes := (leBytes 32 32).reverse ++ (leBytes 32 0).reverse

/-- The ABI library at arrays of addresses, as far as empty ones go. -/
def emptyArrayDecode : DynSolType → Bytes → Option DynSolValue
  | .array .address, bytes => if bytes = emptyArrayBytes then some (.array []) else none
  | _, _ => none

theorem namesLayout_annotated : IsAnnotated namesLayout := by
  have hother : isPackedBytes ⟨0x42, "registry", "Names", []⟩ = false := by decide
  exact ⟨fun h => absurd h (by rw [hother]; simp), trivial, ⟨fun _ => rfl, trivial, trivial⟩, trivial⟩

end Decoding

end OpMove.AbiShapes
