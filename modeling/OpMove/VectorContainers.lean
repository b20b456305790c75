import OpMove.AbiRoundTrip
import OpMove.EvmModule

/-!
The containers of decoded vectors. The VM keeps the elements of a vector of bytes, numbers,
flags or addresses in a container of their own type and every other vector in a container of
values. A value converted to its Move form no longer shows which was used, so `solToVmValue`
repeats the repacking with the container of each vector written down, and `erase` takes it
back to the values of `solToValue`.
-/

namespace OpMove.VectorContainers

open Primitives MoveTypes SolidityAbi AbiShapes AbiRoundTrip HeadTail

section Values

inductive Container
  | specialised (type : PrimitiveType)
  | generic
  deriving DecidableEq, Repr

inductive Value
  | bool (x : Bool)
  | u8 (x : UInt8)
  | u16 (x : BitVec 16)
  | u32 (x : BitVec 32)
  | u64 (x : BitVec 64)
  | u128 (x : BitVec 128)
  | u256 (x : U256)
  | address (x : AccountAddress)
  | vector (container : Container) (elements : List Value)
  | struct (fields : List Value)
  deriving Repr

/-- The container the VM requires for elements of a layout. Signers have none of their own. -/
def containerOf : MoveTypeLayout → Container
  | .primitive .signer => .generic
  | .primitive type => .specialised type
  | .native inner => containerOf inner
  | .vector _ | .structUntagged _ | .structWithTypes _ _ | .structVariants => .generic

/-- `Value::vector_u8`. -/
def vectorU8 (bytes : Bytes) : Value := .vector (.specialised .u8) (bytes.map .u8)

/-- `Value::vector_for_testing_only`. -/
def vectorForTestingOnly (elements : List Value) : Value := .vector .generic elements

mutual

/-- The Move value of a VM value. -/
def erase : Value → MoveValue
  | .bool x => .bool x
  | .u8 x => .u8 x
  | .u16 x => .u16 x
  | .u32 x => .u32 x
  | .u64 x => .u64 x
  | .u128 x => .u128 x
  | .u256 x => .u256 x
  | .address x => .address x
  | .vector _ elements => .vector (eraseAll elements)
  | .struct fields => .struct (eraseAll fields)

def eraseAll : List Value → List MoveValue
  | [] => []
  | value :: values => erase value :: eraseAll values

end

theorem eraseAll_eq (values : List Value) : eraseAll values = values.map erase := by
  induction values with
  | nil => rfl
  | cons value values ih => rw [eraseAll, ih, List.map_cons]

theorem erase_vectorU8 (bytes : Bytes) : erase (vectorU8 bytes) = SolidityAbi.vectorU8 bytes := by
  rw [vectorU8, erase, eraseAll_eq, List.map_map]
  rfl

end Values

section Repacking

def uintToVmValue (u : U256) : ℕ → MoveTypeLayout → Except AbiError Value
  | 8, .primitive .u8 => .ok (.u8 (UInt8.ofNat u.toNat))
  | 16, .primitive .u16 => .ok (.u16 (u.setWidth 16))
  | 32, .primitive .u32 => .ok (.u32 (u.setWidth 32))
  | 64, .primitive .u64 => .ok (.u64 (u.setWidth 64))
  | 128, .primitive .u128 => .ok (.u128 (u.setWidth 128))
  | 256, .primitive .u256 => .ok (.u256 u)
  | _, _ => .error .uintSizeUnsupported

mutual

/-- `sol_to_value`. -/
def solToVmValue : MoveTypeLayout → DynSolValue → Except AbiError Value
  | .primitive .bool, .bool b => .ok (.bool b)
  | layout, .uint u size => uintToVmValue u size layout
  | .structUntagged _, .fixedBytes word _ | .structWithTypes _ _, .fixedBytes word _
  | .structVariants, .fixedBytes word _ =>
      .ok (.struct [vectorU8 (leBytes 32 word.toNat).reverse])
  | .primitive .address, .address a => .ok (.address (toMoveAddress a))
  | .primitive .signer, .address _ => .error .signerNotAllowed
  | .vector (.primitive .u8), .bytes b => .ok (vectorU8 b)
  | .structUntagged _, .string s | .structWithTypes _ _, .string s | .structVariants, .string s =>
      .ok (.struct [vectorU8 s])
  -- every array, whatever its elements are
  | .vector inner, .array values => do
      let elements ← values.mapM (solToVmValue inner)
      .ok (vectorForTestingOnly elements)
  | .structUntagged fields, .tuple values | .structWithTypes _ fields, .tuple values => do
      let packed ← solToVmFields fields values
      .ok (.struct packed)
  | .structVariants, .tuple _ => .error .variantsUnsupported
  | _, _ => .error .mismatchedTypes

def solToVmFields : List MoveTypeLayout → List DynSolValue → Except AbiError (List Value)
  | field :: fields, value :: values => do
      let first ← solToVmValue field value
      let rest ← solToVmFields fields values
      .ok (first :: rest)
  | _, _ => .ok []

end

example : solToVmValue (.primitive .signer) (.address 7) = .error .signerNotAllowed := by
  simp [solToVmValue]

/-- `inner_abi_decode_params`. -/
def abiDecodeVmParams (libraryDecode : DynSolType → Bytes → Option DynSolValue) (bytes : Bytes)
    (layout : MoveTypeLayout) : Except AbiError Value := do
  let type ← layoutToSolType layout
  match libraryDecode type bytes with
  | none => .error .library
  | some value => solToVmValue layout value

def evmLogToMoveValue (log : Transactions.Log) : Value :=
  .struct [.address (toMoveAddress log.address),
    -- the bytes of a topic are read from the other end
    .vector (.specialised .u256) (log.topics.map fun topic =>
      .u256 (BitVec.ofNat 256 (leNat (leBytes 32 topic.toNat).reverse))),
    vectorU8 log.data]

/-- `evm_result_to_move_value`, on the fields of the outcome. -/
def evmOutcomeToMoveValue (outcome : EvmModule.EvmNativeOutcome) : Value :=
  .struct [.bool outcome.isSuccess, vectorU8 outcome.output,
    vectorForTestingOnly (outcome.logs.map evmLogToMoveValue)]

end Repacking

section Erasure

/-- The two models of the repacking agree up to the containers. -/
def Erases (layout : MoveTypeLayout) : Prop :=
  ∀ sv, (solToVmValue layout sv).map erase = solToValue layout sv

def FieldsErase (fields : List MoveTypeLayout) : Prop :=
  ∀ values, (solToVmFields fields values).map eraseAll = solToFields fields values

theorem map_bind_ok {α β α' β' : Type} {e : Except AbiError α} {g : α → α'}
    {f : α → Except AbiError β} {f' : α' → Except AbiError β'} {k : β → β'}
    (h : ∀ a, (f a).map k = f' (g a)) : (e >>= f).map k = e.map g >>= f' := by
  cases e with
  | error e => rfl
  | ok a => exact h a

theorem erase_uintToVmValue (u : U256) (size : ℕ) (layout : MoveTypeLayout) :
    (uintToVmValue u size layout).map erase = uintToValue u size layout := by
  fun_cases uintToVmValue u size layout with
  | case7 _ _ h8 h16 h32 h64 h128 h256 =>
    rw [uintToValue.eq_def]
    split <;> simp_all [Except.map]
  | _ => rfl

theorem mapM_erases {inner : MoveTypeLayout} (ih : Erases inner) (values : List DynSolValue) :
    (values.mapM (solToVmValue inner)).map eraseAll = values.mapM (solToValue inner) := by
  induction values with
  | nil => rfl
  | cons value values ihvalues =>
    rw [List.mapM_cons, List.mapM_cons, ← ih value, ← ihvalues]
    refine map_bind_ok fun first => ?_
    exact map_bind_ok fun rest => rfl

theorem erases_uint (layout : MoveTypeLayout) (u : U256) (size : ℕ) :
    (solToVmValue layout (.uint u size)).map erase = solToValue layout (.uint u size) := by
  simp only [solToVmValue, solToValue]
  exact erase_uintToVmValue u size layout

theorem erase_packed (bytes : Bytes) :
    erase (.struct [vectorU8 bytes]) = .struct [SolidityAbi.vectorU8 bytes] := by
  rw [erase, eraseAll, erase_vectorU8, eraseAll]

theorem erases_primitive (type : PrimitiveType) : Erases (.primitive type) := by
  intro sv
  cases sv with
  | uint u size => exact erases_uint _ u size
  | _ => cases type <;> rfl

theorem erases_vector {inner : MoveTypeLayout} (ih : Erases inner) : Erases (.vector inner) := by
  intro sv
  cases sv with
  | uint u size => exact erases_uint _ u size
  | array values =>
    simp only [solToVmValue, solToValue, ← mapM_erases ih values]
    exact map_bind_ok fun elements => rfl
  | bytes b =>
    cases inner with
    | primitive type =>
      cases type with
      | u8 => exact congrArg Except.ok (erase_vectorU8 b)
      | _ => rfl
    | _ => rfl
  | _ => simp only [solToVmValue, solToValue, Except.map]

theorem erases_struct {layout : MoveTypeLayout} {fields : List MoveTypeLayout}
    (hlayout : layout = .structUntagged fields ∨ ∃ tag, layout = .structWithTypes tag fields)
    (ih : FieldsErase fields) : Erases layout := by
  intro sv
  cases sv with
  | uint u size => exact erases_uint _ u size
  | fixedBytes word size =>
    rcases hlayout with rfl | ⟨tag, rfl⟩ <;> exact congrArg Except.ok (erase_packed _)
  | string s =>
    rcases hlayout with rfl | ⟨tag, rfl⟩ <;> exact congrArg Except.ok (erase_packed s)
  | tuple values =>
    rcases hlayout with rfl | ⟨tag, rfl⟩ <;>
      · simp only [solToVmValue, solToValue, ← ih values]
        exact map_bind_ok fun packed => rfl
  | _ => rcases hlayout with rfl | ⟨tag, rfl⟩ <;> rfl

theorem erases_structVariants : Erases .structVariants := by
  intro sv
  cases sv with
  | uint u size => exact erases_uint _ u size
  | fixedBytes word size => exact congrArg Except.ok (erase_packed _)
  | string s => exact congrArg Except.ok (erase_packed s)
  | _ => rfl

theorem erases_native (inner : MoveTypeLayout) : Erases (.native inner) := by
  intro sv
  cases sv with
  | uint u size => exact erases_uint _ u size
  | _ => rfl

theorem fieldsErase_cons {field : MoveTypeLayout} {fields : List MoveTypeLayout}
    (hfield : Erases field) (hfields : FieldsErase fields) : FieldsErase (field :: fields) := by
  intro values
  cases values with
  | nil => rfl
  | cons value values =>
    rw [solToVmFields, solToFields, ← hfield value, ← hfields values]
    refine map_bind_ok fun first => ?_
    exact map_bind_ok fun rest => rfl

mutual

theorem erases : ∀ layout : MoveTypeLayout, Erases layout
  | .primitive type => erases_primitive type
  | .vector inner => erases_vector (erases inner)
  | .structWithTypes tag fields => erases_struct (.inr ⟨tag, rfl⟩) (fieldsErase fields)
  | .structUntagged fields => erases_struct (.inl rfl) (fieldsErase fields)
  | .structVariants => erases_structVariants
  | .native inner => erases_native inner

theorem fieldsErase : ∀ fields : List MoveTypeLayout, FieldsErase fields
  | [] => fun _ => rfl
  | field :: fields => fieldsErase_cons (erases field) (fieldsErase fields)

end

/-- What the tests compare is the decoded value without its containers. -/
theorem erase_abiDecodeVmParams (libraryDecode : DynSolType → Bytes → Option DynSolValue)
    (bytes : Bytes) (layout : MoveTypeLayout) :
    (abiDecodeVmParams libraryDecode bytes layout).map erase =
      abiDecodeParams libraryDecode bytes layout := by
  unfold abiDecodeVmParams abiDecodeParams
  cases layoutToSolType layout with
  | error e => rfl
  | ok type =>
    simp only [bind, Except.bind]
    cases libraryDecode type bytes with
    | none => rfl
    | some sv => exact erases layout sv

end Erasure

section Containers

def isScalar : Value → Bool
  | .vector _ _ | .struct _ => false
  | _ => true

/-- The fields of a string and of fixed bytes: one vector of bytes. -/
def HoldBytes : List Value → Prop
  | [.vector container elements] =>
      container = .specialised .u8 ∧ ∀ element ∈ elements, ∃ b, element = .u8 b
  | _ => False

mutual

/-- Every vector at any depth of a value is in the container for its elements. -/
def RightContainers : MoveTypeLayout → Value → Prop
  | .primitive _, value => isScalar value
  | .vector inner, .vector container elements =>
      container = containerOf inner ∧ ∀ element ∈ elements, RightContainers inner element
  | .structWithTypes tag fields, .struct values =>
      if isPackedBytes tag then HoldBytes values else FieldsRight fields values
  | .structUntagged fields, .struct values => FieldsRight fields values
  | .native inner, value => RightContainers inner value
  | _, _ => False

def FieldsRight : List MoveTypeLayout → List Value → Prop
  | [], [] => True
  | field :: fields, value :: values => RightContainers field value ∧ FieldsRight fields values
  | _, _ => False

end

mutual

/-- The arrays of a Solidity value are all at vectors of the layout with generic containers. -/
def arraysGeneric : MoveTypeLayout → DynSolValue → Bool
  | .vector inner, .array values =>
      containerOf inner == .generic && values.all (arraysGeneric inner)
  | .structWithTypes _ fields, .tuple values => fieldArraysGeneric fields values
  | _, _ => true

def fieldArraysGeneric : List MoveTypeLayout → List DynSolValue → Bool
  | field :: fields, value :: values =>
      arraysGeneric field value && fieldArraysGeneric fields values
  | _, _ => true

end

/-- What the arrays of a Solidity value say about the containers of its Move value. -/
def Decides (layout : MoveTypeLayout) : Prop :=
  ∀ type sv value, layoutToSolType layout = .ok type → HasType type sv →
    solToVmValue layout sv = .ok value →
    (RightContainers layout value ↔ arraysGeneric layout sv = true)

def FieldsDecide (fields : List MoveTypeLayout) : Prop :=
  ∀ types values packed, fieldsToSolTypes fields = .ok types → HaveTypes types values →
    solToVmFields fields values = .ok packed →
    (FieldsRight fields packed ↔ fieldArraysGeneric fields values = true)

theorem holdBytes_vectorU8 (bytes : Bytes) : HoldBytes [vectorU8 bytes] := by
  refine ⟨rfl, fun element helement => ?_⟩
  obtain ⟨b, -, rfl⟩ := List.mem_map.mp helement
  exact ⟨b, rfl⟩

theorem rightContainers_vectorU8 (bytes : Bytes) :
    RightContainers byteVector (vectorU8 bytes) := by
  refine ⟨rfl, fun element helement => ?_⟩
  obtain ⟨b, -, rfl⟩ := List.mem_map.mp helement
  exact rfl

theorem isScalar_of_uintToVmValue {u : U256} {size : ℕ} {layout : MoveTypeLayout} {value : Value}
    (h : uintToVmValue u size layout = .ok value) : isScalar value := by
  revert h
  fun_cases uintToVmValue u size layout with
  | case7 => exact nofun
  | _ =>
    intro h
    obtain rfl := Except.ok.inj h
    rfl

theorem decides_primitive (type : PrimitiveType) : Decides (.primitive type) := by
  intro solType sv value htype hsv hvalue
  refine iff_of_true ?_ (by simp [arraysGeneric])
  cases sv with
  | uint u size =>
    simp only [solToVmValue] at hvalue
    exact isScalar_of_uintToVmValue hvalue
  | bool b =>
    cases type <;> simp only [solToVmValue, reduceCtorEq, Except.ok.injEq] at hvalue
    subst hvalue
    rfl
  | address a =>
    cases type <;> simp only [solToVmValue, reduceCtorEq, Except.ok.injEq] at hvalue
    subst hvalue
    rfl
  | _ => cases type <;> simp [solToVmValue] at hvalue

theorem forall₂_of_mapM_ok {α β : Type} {f : α → Except AbiError β} {l : List α} {r : List β}
    (h : l.mapM f = .ok r) : List.Forall₂ (fun a b => f a = .ok b) l r := by
  induction l generalizing r with
  | nil =>
    obtain rfl : [] = r := Except.ok.inj h
    exact .nil
  | cons a l ih =>
    simp only [List.mapM_cons, Errors.bind_ok_iff] at h
    obtain ⟨b, hb, rest, hrest, hr⟩ := h
    obtain rfl : b :: rest = r := Except.ok.inj hr
    exact .cons hb (ih hrest)

theorem decides_elements {inner : MoveTypeLayout} {type : DynSolType} (ih : Decides inner)
    (htype : layoutToSolType inner = .ok type) {values : List DynSolValue} {elements : List Value}
    (hvalues : ∀ value ∈ values, HasType type value)
    (h : List.Forall₂ (fun sv value => solToVmValue inner sv = .ok value) values elements) :
    (∀ element ∈ elements, RightContainers inner element) ↔
      values.all (arraysGeneric inner) = true := by
  induction h with
  | nil => simp
  | @cons sv element values elements hone _ ihrest =>
    have hfirst := ih type sv element htype (hvalues sv (by simp)) hone
    have hrest := ihrest fun value hmem => hvalues value (by simp [hmem])
    rw [List.forall_mem_cons, List.all_cons, Bool.and_eq_true, hfirst, hrest]

theorem decides_vector {inner : MoveTypeLayout} (ih : Decides inner) : Decides (.vector inner) := by
  intro solType sv value htype hsv hvalue
  by_cases hbyte : inner = .primitive .u8
  · subst hbyte
    obtain rfl := Except.ok.inj htype
    cases sv <;> simp only [HasType] at hsv
    obtain rfl := Except.ok.inj hvalue
    exact iff_of_true (rightContainers_vectorU8 _) (by simp [arraysGeneric])
  · simp only [layoutToSolType, Errors.bind_ok_iff, Except.ok.injEq] at htype
    obtain ⟨type, hinner, rfl⟩ := htype
    cases sv <;> simp only [HasType] at hsv
    rename_i values
    simp only [solToVmValue, Errors.bind_ok_iff, Except.ok.injEq] at hvalue
    obtain ⟨elements, helements, rfl⟩ := hvalue
    have hall := decides_elements ih hinner hsv (forall₂_of_mapM_ok helements)
    rw [vectorForTestingOnly, RightContainers, hall, arraysGeneric, Bool.and_eq_true, beq_iff_eq,
      eq_comm]

theorem decides_struct {tag : StructTag} {fields : List MoveTypeLayout}
    (ih : FieldsDecide fields) : Decides (.structWithTypes tag fields) := by
  intro solType sv value htype hsv hvalue
  unfold layoutToSolType at htype
  split_ifs at htype with hfixed _ hstring
  · obtain rfl := Except.ok.inj htype
    cases sv <;> simp only [HasType] at hsv
    obtain rfl := Except.ok.inj hvalue
    rw [RightContainers, if_pos (by simp [isPackedBytes, hfixed])]
    exact iff_of_true (holdBytes_vectorU8 _) (by simp [arraysGeneric])
  · obtain rfl := Except.ok.inj htype
    cases sv <;> simp only [HasType] at hsv
    obtain rfl := Except.ok.inj hvalue
    rw [RightContainers, if_pos (by simp [isPackedBytes, hstring])]
    exact iff_of_true (holdBytes_vectorU8 _) (by simp [arraysGeneric])
  · simp only [Errors.bind_ok_iff, Except.ok.injEq] at htype
    obtain ⟨types, htypes, rfl⟩ := htype
    cases sv <;> simp only [HasType] at hsv
    rename_i values
    simp only [solToVmValue, Errors.bind_ok_iff, Except.ok.injEq] at hvalue
    obtain ⟨packed, hpacked, rfl⟩ := hvalue
    rw [RightContainers, if_neg (by simp [isPackedBytes, hfixed, hstring]), arraysGeneric]
    exact ih types values packed htypes hsv hpacked

theorem fieldsDecide_cons {field : MoveTypeLayout} {fields : List MoveTypeLayout}
    (hfield : Decides field) (hfields : FieldsDecide fields) : FieldsDecide (field :: fields) := by
  intro types values packed htypes hvalues hpacked
  simp only [fieldsToSolTypes, Errors.bind_ok_iff, Except.ok.injEq] at htypes
  obtain ⟨type, htype, types, htypes, rfl⟩ := htypes
  cases values with
  | nil => simp [HaveTypes] at hvalues
  | cons value values =>
    simp only [HaveTypes] at hvalues
    simp only [solToVmFields, Errors.bind_ok_iff, Except.ok.injEq] at hpacked
    obtain ⟨first, hfirst, rest, hrest, rfl⟩ := hpacked
    rw [FieldsRight, fieldArraysGeneric, Bool.and_eq_true,
      hfield type value first htype hvalues.1 hfirst,
      hfields types values rest htypes hvalues.2 hrest]

mutual

theorem decides : ∀ layout : MoveTypeLayout, Decides layout
  | .primitive type => decides_primitive type
  | .vector inner => decides_vector (decides inner)
  | .structWithTypes _ fields => decides_struct (fieldsDecide fields)
  | .structUntagged _ => fun _ _ _ htype => by simp [layoutToSolType] at htype
  | .structVariants => fun _ _ _ htype => by simp [layoutToSolType] at htype
  | .native _ => fun _ sv _ _ _ hvalue => by
      cases sv <;> simp [solToVmValue, uintToVmValue] at hvalue

theorem fieldsDecide : ∀ fields : List MoveTypeLayout, FieldsDecide fields
  | [] => fun types values packed htypes hvalues hpacked => by
      obtain rfl := Except.ok.inj htypes
      cases values with
      | nil =>
        obtain rfl := Except.ok.inj hpacked
        exact iff_of_true trivial rfl
      | cons value values => simp [HaveTypes] at hvalues
  | field :: fields => fieldsDecide_cons (decides field) (fieldsDecide fields)

end

end Containers

section Layouts

/-- The elements of the vectors that can occur in a decoded value of a layout. -/
inductive VectorOccurs : MoveTypeLayout → MoveTypeLayout → Prop
  | here (inner : MoveTypeLayout) : VectorOccurs (.vector inner) inner
  | element {inner part : MoveTypeLayout} :
      VectorOccurs inner part → VectorOccurs (.vector inner) part
  | field {tag : StructTag} {fields : List MoveTypeLayout} {field part : MoveTypeLayout} :
      isPackedBytes tag = false → areDecodable fields → field ∈ fields →
      VectorOccurs field part → VectorOccurs (.structWithTypes tag fields) part

/-- Vectors of bytes are the only ones with a container of their own. -/
def KeepsGeneric (part : MoveTypeLayout) : Prop :=
  part = .primitive .u8 ∨ containerOf part = .generic

/-- Some Solidity value of the type has an array where a container of its own is required. -/
def Misplaces (layout : MoveTypeLayout) (type : DynSolType) : Prop :=
  ∃ sv value, HasType type sv ∧ solToVmValue layout sv = .ok value ∧
    arraysGeneric layout sv = false

def FieldsMisplace (fields : List MoveTypeLayout) (types : List DynSolType) : Prop :=
  ∃ values packed, HaveTypes types values ∧ solToVmFields fields values = .ok packed ∧
    fieldArraysGeneric fields values = false

theorem solToVmValue_of_ok {layout : MoveTypeLayout} {sv : DynSolValue} {value : MoveValue}
    (h : solToValue layout sv = .ok value) : ∃ vm, solToVmValue layout sv = .ok vm := by
  rw [← erases layout sv] at h
  cases hvm : solToVmValue layout sv with
  | error e =>
    rw [hvm] at h
    cases h
  | ok vm => exact ⟨vm, rfl⟩

theorem solToVmFields_of_ok {fields : List MoveTypeLayout} {values : List DynSolValue}
    {packed : List MoveValue} (h : solToFields fields values = .ok packed) :
    ∃ vms, solToVmFields fields values = .ok vms := by
  rw [← fieldsErase fields values] at h
  cases hvm : solToVmFields fields values with
  | error e =>
    rw [hvm] at h
    cases h
  | ok vms => exact ⟨vms, rfl⟩

theorem fieldsMisplace_of_mem {fields : List MoveTypeLayout} {types : List DynSolType}
    {field : MoveTypeLayout} (htypes : fieldsToSolTypes fields = .ok types)
    (h : areDecodable fields) (hmem : field ∈ fields)
    (hfield : ∀ type, layoutToSolType field = .ok type → Misplaces field type) :
    FieldsMisplace fields types := by
  induction fields generalizing types with
  | nil => cases hmem
  | cons first fields ih =>
    simp only [fieldsToSolTypes, Errors.bind_ok_iff, Except.ok.injEq] at htypes
    obtain ⟨type, htype, types, hrest, rfl⟩ := htypes
    simp only [areDecodable, Bool.and_eq_true] at h
    rcases List.mem_cons.mp hmem with rfl | hlater
    · obtain ⟨sv, vm, hsv, hvm, hmisplaced⟩ := hfield type htype
      obtain ⟨packed, values, hvalues, hpacked⟩ :=
        producesFields_of_areDecodable fields types hrest h.2
      obtain ⟨vms, hvms⟩ := solToVmFields_of_ok hpacked
      refine ⟨sv :: values, vm :: vms, ⟨hsv, hvalues⟩, ?_, ?_⟩
      · simp only [solToVmFields, hvm, hvms, bind, Except.bind]
      · rw [fieldArraysGeneric, hmisplaced, Bool.false_and]
    · obtain ⟨values, vms, hvalues, hvms, hmisplaced⟩ := ih hrest h.2 hlater
      obtain ⟨value, sv, hsv, hvalue⟩ := produces_of_isDecodable first type htype h.1
      obtain ⟨vm, hvm⟩ := solToVmValue_of_ok hvalue
      refine ⟨sv :: values, vm :: vms, ⟨hsv, hvalues⟩, ?_, ?_⟩
      · simp only [solToVmFields, hvm, hvms, bind, Except.bind]
      · rw [fieldArraysGeneric, hmisplaced, Bool.and_false]

/-- A vector that can occur outside its container does so in some decoded value. -/
theorem misplaces_of_occurs {layout part : MoveTypeLayout} (h : VectorOccurs layout part)
    (hpart : ¬ KeepsGeneric part) {type : DynSolType} (htype : layoutToSolType layout = .ok type) :
    Misplaces layout type := by
  induction h generalizing type with
  | here inner =>
    obtain ⟨hbyte, hgeneric⟩ := not_or.mp hpart
    simp only [layoutToSolType, Errors.bind_ok_iff, Except.ok.injEq] at htype
    obtain ⟨innerType, -, rfl⟩ := htype
    refine ⟨.array [], vectorForTestingOnly [], by simp [HasType], ?_, ?_⟩
    · simp only [solToVmValue, List.mapM_nil]
      rfl
    · simp [arraysGeneric, hgeneric]
  | @element inner part hoccurs ih =>
    have hinner : inner ≠ .primitive .u8 := by
      rintro rfl
      cases hoccurs
    simp only [layoutToSolType, Errors.bind_ok_iff, Except.ok.injEq] at htype
    obtain ⟨innerType, hinnerType, rfl⟩ := htype
    obtain ⟨sv, vm, hsv, hvm, hmisplaced⟩ := ih hpart hinnerType
    refine ⟨.array [sv], vectorForTestingOnly [vm], by simpa [HasType] using hsv, ?_, ?_⟩
    · simp only [solToVmValue, List.mapM_cons, hvm, List.mapM_nil]
      rfl
    · simp [arraysGeneric, hmisplaced]
  | @field tag fields field part hpacked hfields hmem hoccurs ih =>
    unfold layoutToSolType at htype
    split_ifs at htype with hfixed _ hstring
    · simp [isPackedBytes, hfixed] at hpacked
    · simp [isPackedBytes, hstring] at hpacked
    · simp only [Errors.bind_ok_iff, Except.ok.injEq] at htype
      obtain ⟨types, htypes, rfl⟩ := htype
      obtain ⟨values, vms, hvalues, hvms, hmisplaced⟩ := fieldsMisplace_of_mem htypes hfields hmem
        fun type htype => ih hpart htype
      refine ⟨.tuple values, .struct vms, hvalues, ?_, hmisplaced⟩
      simp only [solToVmValue, hvms, bind, Except.bind]

/-- An array that is not in its container is at a vector that can occur. -/
def Traces (layout : MoveTypeLayout) : Prop :=
  ∀ type sv value, layoutToSolType layout = .ok type → HasType type sv →
    solToVmValue layout sv = .ok value →
    (∀ part, VectorOccurs layout part → KeepsGeneric part) → arraysGeneric layout sv = true

def FieldsTrace (fields : List MoveTypeLayout) : Prop :=
  ∀ types values packed, fieldsToSolTypes fields = .ok types → HaveTypes types values →
    solToVmFields fields values = .ok packed →
    (∀ field ∈ fields, ∀ part, VectorOccurs field part → KeepsGeneric part) →
    fieldArraysGeneric fields values = true

theorem areDecodable_of_solToVmFields {fields : List MoveTypeLayout} {types : List DynSolType}
    {values : List DynSolValue} {packed : List Value} (htypes : fieldsToSolTypes fields = .ok types)
    (hvalues : HaveTypes types values) (hpacked : solToVmFields fields values = .ok packed) :
    areDecodable fields := by
  have herased : solToFields fields values = .ok (eraseAll packed) := by
    rw [← fieldsErase fields values, hpacked]
    rfl
  exact (fieldsSound fields types values _ htypes hvalues herased).1

theorem traces_vector {inner : MoveTypeLayout} (ih : Traces inner) : Traces (.vector inner) := by
  intro solType sv value htype hsv hvalue hkeeps
  by_cases hbyte : inner = .primitive .u8
  · subst hbyte
    obtain rfl := Except.ok.inj htype
    cases sv <;> simp only [HasType] at hsv
    simp [arraysGeneric]
  · simp only [layoutToSolType, Errors.bind_ok_iff, Except.ok.injEq] at htype
    obtain ⟨type, hinner, rfl⟩ := htype
    cases sv <;> simp only [HasType] at hsv
    rename_i values
    simp only [solToVmValue, Errors.bind_ok_iff, Except.ok.injEq] at hvalue
    obtain ⟨elements, helements, rfl⟩ := hvalue
    have hgeneric : containerOf inner = .generic := (hkeeps inner (.here inner)).resolve_left hbyte
    rw [arraysGeneric, hgeneric, beq_self_eq_true, Bool.true_and, List.all_eq_true]
    intro sv hmem
    obtain ⟨i, hi, rfl⟩ := List.mem_iff_getElem.mp hmem
    have hpairs := forall₂_of_mapM_ok helements
    have hone := hpairs.get hi (hpairs.length_eq ▸ hi)
    exact ih type _ _ hinner (hsv _ hmem) hone fun part hpart => hkeeps part (.element hpart)

theorem traces_struct {tag : StructTag} {fields : List MoveTypeLayout} (ih : FieldsTrace fields) :
    Traces (.structWithTypes tag fields) := by
  intro solType sv value htype hsv hvalue hkeeps
  unfold layoutToSolType at htype
  split_ifs at htype with hfixed _ hstring
  · obtain rfl := Except.ok.inj htype
    cases sv <;> simp only [HasType] at hsv
    simp [arraysGeneric]
  · obtain rfl := Except.ok.inj htype
    cases sv <;> simp only [HasType] at hsv
    simp [arraysGeneric]
  · simp only [Errors.bind_ok_iff, Except.ok.injEq] at htype
    obtain ⟨types, htypes, rfl⟩ := htype
    cases sv <;> simp only [HasType] at hsv
    rename_i values
    simp only [solToVmValue, Errors.bind_ok_iff, Except.ok.injEq] at hvalue
    obtain ⟨packed, hpacked, rfl⟩ := hvalue
    have hplain : isPackedBytes tag = false := by simp [isPackedBytes, hfixed, hstring]
    have hdecodable := areDecodable_of_solToVmFields htypes hsv hpacked
    exact ih types values packed htypes hsv hpacked fun field hfield part hpart =>
      hkeeps part (.field hplain hdecodable hfield hpart)

theorem fieldsTrace_cons {field : MoveTypeLayout} {fields : List MoveTypeLayout}
    (hfield : Traces field) (hfields : FieldsTrace fields) : FieldsTrace (field :: fields) := by
  intro types values packed htypes hvalues hpacked hkeeps
  simp only [fieldsToSolTypes, Errors.bind_ok_iff, Except.ok.injEq] at htypes
  obtain ⟨type, htype, types, htypes, rfl⟩ := htypes
  cases values with
  | nil => simp [HaveTypes] at hvalues
  | cons value values =>
    simp only [HaveTypes] at hvalues
    simp only [solToVmFields, Errors.bind_ok_iff, Except.ok.injEq] at hpacked
    obtain ⟨first, hfirst, rest, hrest, rfl⟩ := hpacked
    rw [fieldArraysGeneric, Bool.and_eq_true]
    exact ⟨hfield type value first htype hvalues.1 hfirst (hkeeps field (by simp)),
      hfields types values rest htypes hvalues.2 hrest fun other hother =>
        hkeeps other (by simp [hother])⟩

mutual

theorem traces : ∀ layout : MoveTypeLayout, Traces layout
  | .primitive _ => fun _ _ _ _ _ _ _ => by simp [arraysGeneric]
  | .vector inner => traces_vector (traces inner)
  | .structWithTypes _ fields => traces_struct (fieldsTrace fields)
  | .structUntagged _ => fun _ _ _ _ _ _ _ => by simp [arraysGeneric]
  | .structVariants => fun _ _ _ _ _ _ _ => by simp [arraysGeneric]
  | .native _ => fun _ _ _ _ _ _ _ => by simp [arraysGeneric]

theorem fieldsTrace : ∀ fields : List MoveTypeLayout, FieldsTrace fields
  | [] => fun _ _ _ _ _ _ _ => by simp [fieldArraysGeneric]
  | field :: fields => fieldsTrace_cons (traces field) (fieldsTrace fields)

end

end Layouts

section Decoding

variable (libraryDecode : DynSolType → Bytes → Option DynSolValue)

theorem abiDecodeVmParams_ok_iff (bytes : Bytes) (layout : MoveTypeLayout) (value : Value) :
    abiDecodeVmParams libraryDecode bytes layout = .ok value ↔
      ∃ type sv, layoutToSolType layout = .ok type ∧ libraryDecode type bytes = some sv ∧
        solToVmValue layout sv = .ok value := by
  simp only [abiDecodeVmParams, Errors.bind_ok_iff]
  constructor
  · rintro ⟨type, htype, h⟩
    split at h
    · cases h
    · rename_i sv hsv
      exact ⟨type, sv, htype, hsv, h⟩
  · rintro ⟨type, sv, htype, hsv, hvalue⟩
    exact ⟨type, htype, by rw [hsv]; exact hvalue⟩

/-- The Solidity value the library reads from the bytes has its arrays at generic vectors. -/
def ReadsGeneric (layout : MoveTypeLayout) (bytes : Bytes) : Prop :=
  ∀ type sv, layoutToSolType layout = .ok type → libraryDecode type bytes = some sv →
    arraysGeneric layout sv = true

theorem exists_data_of_tailDecode {type : DynSolType} {bytes : Bytes} {sv : DynSolValue}
    (htype : layoutToSolType blobLayout = .ok type) (h : tailDecode type bytes = some sv) :
    type = .tuple [.bytes] ∧ ∃ data, sv = .tuple [.bytes data] := by
  obtain rfl : .tuple [.bytes] = type := Except.ok.inj htype
  simp only [tailDecode, Option.map_eq_some_iff] at h
  obtain ⟨data, -, rfl⟩ := h
  exact ⟨rfl, data, rfl⟩

def flagsLayout : MoveTypeLayout :=
  .structWithTypes ⟨0x42, "flags", "Flags", []⟩ [.vector (.primitive .bool)]

/-- The words of the array behind the offset in the first word, if they are flags. -/
def flagWords (bytes : Bytes) : Option (List ℕ) :=
  let tail := bytes.drop (beNat (bytes.take 32))
  let count := beNat (tail.take 32)
  let words := (List.range count).map fun i => beNat ((tail.drop (32 + 32 * i)).take 32)
  if 32 + 32 * count ≤ tail.length ∧ words.all (· ≤ 1) then some words else none

/-- The ABI library at structs of one list of flags. -/
def flagsDecode : DynSolType → Bytes → Option DynSolValue
  | .tuple [.array .bool], bytes =>
      (flagWords bytes).map fun words => .tuple [.array (words.map fun n => .bool (n == 1))]
  | _, _ => none

end Decoding

section Results

/-- The layouts of `EvmLog` and `EvmResult`. -/
def evmLogLayout : MoveTypeLayout :=
  .structWithTypes ⟨1, "evm", "EvmLog", []⟩
    [.primitive .address, .vector (.primitive .u256), byteVector]

def evmResultLayout : MoveTypeLayout :=
  .structWithTypes ⟨1, "evm", "EvmResult", []⟩
    [.primitive .bool, byteVector, .vector evmLogLayout]

theorem rightContainers_evmLog (log : Transactions.Log) :
    RightContainers evmLogLayout (evmLogToMoveValue log) := by
  have hplain : isPackedBytes ⟨1, "evm", "EvmLog", []⟩ = false := by decide
  rw [evmLogLayout, evmLogToMoveValue, RightContainers, hplain]
  refine ⟨rfl, ⟨rfl, fun element helement => ?_⟩, rightContainers_vectorU8 _, trivial⟩
  obtain ⟨topic, -, rfl⟩ := List.mem_map.mp helement
  exact rfl

/-- What the EVM native returns does have the containers of the VM. -/
theorem rightContainers_evmResult (result : NativeEvm.ExecutionResult) :
    RightContainers evmResultLayout
      (evmOutcomeToMoveValue (EvmModule.evmResultToMoveValue result)) := by
  have hplain : isPackedBytes ⟨1, "evm", "EvmResult", []⟩ = false := by decide
  rw [evmResultLayout, evmOutcomeToMoveValue, RightContainers, hplain]
  refine ⟨rfl, rightContainers_vectorU8 _, ⟨rfl, fun element helement => ?_⟩, trivial⟩
  obtain ⟨log, -, rfl⟩ := List.mem_map.mp helement
  exact rightContainers_evmLog log

end Results

end OpMove.VectorContainers
