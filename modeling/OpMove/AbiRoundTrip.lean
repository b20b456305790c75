import OpMove.AbiShapes
import OpMove.HeadTail

/-!
Encoding Move values for Solidity, and reading them back. Encoding goes by the value: a struct
becomes a tuple, a nonempty vector of bytes a byte string, and a string is no exception among
the structs. Decoding goes by the layout, where a string is a string. The two agree at the top,
where a tuple of one byte string and a string are laid out alike, and nowhere below it. The
encoder of the ABI library is the head and tail form; its decoder is a parameter.
-/

namespace OpMove.AbiRoundTrip

open Primitives MoveTypes SolidityAbi AbiShapes HeadTail

section Library

mutual

/-- How a Solidity value is laid out as a part of a sequence. -/
def part : DynSolValue → Part
  | .bool b => ⟨false, word (if b then 1 else 0)⟩
  | .int i _ => ⟨false, word i.toNat⟩
  | .uint u _ => ⟨false, word u.toNat⟩
  | .fixedBytes w _ => ⟨false, word w.toNat⟩
  | .address a => ⟨false, word a.toNat⟩
  | .function f => ⟨false, padRight f⟩
  | .bytes b => packed b
  | .string s => packed s
  | .array values => counted (parts values)
  | .fixedArray values => joined (parts values)
  | .tuple values => joined (parts values)

def parts : List DynSolValue → List Part
  | [] => []
  | value :: values => part value :: parts values

end

/-- `DynSolValue::abi_encode_params`: a tuple is a sequence of parameters, anything else one. -/
def abiEncodeParams : DynSolValue → Bytes
  | .tuple values => encodeParts (parts values)
  | value => encodeParts [part value]

mutual

/-- Values whose lengths fit the machine's words. -/
def Fits : DynSolValue → Prop
  | .bytes b => b.length < 2 ^ 64
  | .string s => s.length < 2 ^ 64
  | .array values => values.length < 2 ^ 64 ∧ AllFit values
  | .fixedArray values => AllFit values
  | .tuple values => AllFit values
  | _ => True

def AllFit : List DynSolValue → Prop
  | [] => True
  | value :: values => Fits value ∧ AllFit values

end

end Library

section Encoding

def forceToU8 : MoveValue → Option UInt8
  | .u8 x => some x
  | _ => none

/-- Thirty-two bytes filled from the beginning. -/
def fixedBuffer (bytes : Bytes) : B256 :=
  BitVec.ofNat 256 (beNat (bytes.take 32 ++ List.replicate (32 - bytes.length) 0))

def startsWithU8 : List MoveValue → Bool
  | .u8 _ :: _ => true
  | _ => false

mutual

/-- `move_value_to_sol_value`; an unreachable arm gives `none`. -/
def moveValueToSolValue : MoveTypeLayout → MoveValue → Option DynSolValue
  | _, .signer a | _, .address a => some (.address (toEthAddress a))
  | _, .bool b => some (.bool b)
  | _, .u8 x => some (.uint (BitVec.ofNat 256 x.toNat) 8)
  | _, .u16 x => some (.uint (x.setWidth 256) 16)
  | _, .u32 x => some (.uint (x.setWidth 256) 32)
  | _, .u64 x => some (.uint (x.setWidth 256) 64)
  | _, .u128 x => some (.uint (x.setWidth 256) 128)
  | _, .u256 x => some (.uint x 256)
  | layout, .vector xs =>
      if startsWithU8 xs then (xs.mapM forceToU8).map .bytes
      else
        match layout with
        | .vector inner => (xs.mapM (moveValueToSolValue inner)).map .array
        | _ => none
  | .structWithTypes tag layouts, .struct fields =>
      if sameStruct fixedBytesTag tag then
        match fields.getLast? with
        | some (.vector data) => (data.mapM forceToU8).map fun bytes =>
            .fixedBytes (fixedBuffer bytes) (typeArgsToUsize tag.typeArgs)
        | _ => none
      else if sameStruct fixedArrayTag tag then
        match fields.getLast? with
        | some (.vector data) => (fixedArrayElements layouts data).map .fixedArray
        | _ => none
      else (fieldsToSolValues layouts fields).map .tuple
  | _, .struct _ => none

/-- The elements of a fixed array, along the layout of its first field. -/
def fixedArrayElements : List MoveTypeLayout → List MoveValue → Option (List DynSolValue)
  | .vector inner :: _, data => data.mapM (moveValueToSolValue inner)
  | _, _ => none

/-- The fields of a struct zipped with their layouts. -/
def fieldsToSolValues : List MoveTypeLayout → List MoveValue → Option (List DynSolValue)
  | layout :: layouts, field :: fields => do
      let first ← moveValueToSolValue layout field
      let rest ← fieldsToSolValues layouts fields
      some (first :: rest)
  | _, _ => some []

end

example : moveValueToSolValue (.vector (.primitive .u8)) (vectorU8 [7]) = some (.bytes [7]) := by
  simp [moveValueToSolValue, vectorU8, startsWithU8, forceToU8]

/-- The last bytes of a word, where a short integer goes. -/
def shortWord (len n : ℕ) : Bytes := List.replicate (32 - len) 0 ++ (leBytes len n).reverse

/-- `inner_abi_encode_params`, with its shortcuts. -/
def innerAbiEncodeParams (layout : MoveTypeLayout) (value : MoveValue) : Option Bytes :=
  match value with
  | .u8 x => some (shortWord 1 x.toNat)
  | .u16 x => some (shortWord 2 x.toNat)
  | .u32 x => some (shortWord 4 x.toNat)
  | .vector [] => some (List.replicate 31 0 ++ [32] ++ List.replicate 32 0)
  | value => (moveValueToSolValue layout value).map abiEncodeParams

end Encoding

section Values

mutual

/-- The values that are encoded: addresses behind twelve zero bytes, strings in UTF-8, fixed bytes
of one word. Vectors have lengths that the machine can count. -/
def IsValueOf : MoveTypeLayout → MoveValue → Prop
  | .primitive .bool, .bool _ => True
  | .primitive .u8, .u8 _ => True
  | .primitive .u16, .u16 _ => True
  | .primitive .u32, .u32 _ => True
  | .primitive .u64, .u64 _ => True
  | .primitive .u128, .u128 _ => True
  | .primitive .u256, .u256 _ => True
  | .primitive .address, .address a => a.toNat < 2 ^ 160
  | .vector inner, .vector elements =>
      elements.length < 2 ^ 64 ∧ ∀ element ∈ elements, IsValueOf inner element
  | .structWithTypes tag fields, .struct values =>
      if sameStruct fixedBytesTag tag then ∃ bytes, bytes.length = 32 ∧ values = [vectorU8 bytes]
      else if tag = stringTag then
        ∃ bytes, bytes.length < 2 ^ 64 ∧ TagValidation.isUtf8 bytes ∧ values = [vectorU8 bytes]
      else AreValuesOf fields values
  | _, _ => False

def AreValuesOf : List MoveTypeLayout → List MoveValue → Prop
  | [], [] => True
  | field :: fields, value :: values => IsValueOf field value ∧ AreValuesOf fields values
  | _, _ => False

end

example : ¬ IsValueOf (.primitive .signer) (.signer 7) := by
  simp [IsValueOf]

def isString : MoveTypeLayout → Bool
  | .structWithTypes tag _ => tag == stringTag
  | _ => false

mutual

/-- A string somewhere in a layout. -/
def mentionsString : MoveTypeLayout → Bool
  | .vector inner => mentionsString inner
  | .structWithTypes tag fields =>
      !sameStruct fixedBytesTag tag && (tag == stringTag || mentionString fields)
  | _ => false

def mentionString : List MoveTypeLayout → Bool
  | [] => false
  | field :: fields => mentionsString field || mentionString fields

end

mutual

/-- A string somewhere in a value. -/
def hasString : MoveTypeLayout → MoveValue → Bool
  | .vector inner, .vector elements => elements.any (hasString inner)
  | .structWithTypes tag fields, .struct values =>
      !sameStruct fixedBytesTag tag && (tag == stringTag || haveString fields values)
  | _, _ => false

def haveString : List MoveTypeLayout → List MoveValue → Bool
  | field :: fields, value :: values => hasString field value || haveString fields values
  | _, _ => false

end

/-- A string strictly inside a layout. -/
def mentionsInnerString (layout : MoveTypeLayout) : Bool :=
  !isString layout && mentionsString layout

/-- A string strictly inside a value. -/
def hasInnerString (layout : MoveTypeLayout) (value : MoveValue) : Bool :=
  !isString layout && hasString layout value

/-- Encoding succeeds, and decoding gives the value back. -/
def RoundTrips (libraryDecode : DynSolType → Bytes → Option DynSolValue)
    (layout : MoveTypeLayout) (value : MoveValue) : Prop :=
  ∃ bytes, innerAbiEncodeParams layout value = some bytes ∧
    abiDecodeParams libraryDecode bytes layout = .ok value

mutual

/-- Values whose strings are all empty, beside the ones that come back for them: thirty-two
zeros in place of each string. -/
def Garbles : MoveTypeLayout → MoveValue → MoveValue → Prop
  | .vector inner, .vector elements, .vector others => List.Forall₂ (Garbles inner) elements others
  | .structWithTypes tag fields, .struct values, .struct others =>
      if sameStruct fixedBytesTag tag then values = others
      else if tag = stringTag then
        values = [vectorU8 []] ∧ others = [vectorU8 (List.replicate 32 0)]
      else GarbleAll fields values others
  | _, value, other => value = other

def GarbleAll : List MoveTypeLayout → List MoveValue → List MoveValue → Prop
  | field :: fields, value :: values, other :: others =>
      Garbles field value other ∧ GarbleAll fields values others
  | _, values, others => values = others

end

end Values

section Carrying

/-- A value on its way out, as a message of one Solidity type, and on its way back, as an answer
of another that has the same bytes. -/
structure Carried (type : DynSolType) (layout : MoveTypeLayout) (value other : MoveValue)
    (message answer : DynSolValue) : Prop where
  typed : HasType type answer
  fits : Fits answer
  back : solToValue layout answer = .ok other
  sent : moveValueToSolValue layout value = some message
  part_eq : part message = part answer
  params_eq : isString layout = false → abiEncodeParams message = abiEncodeParams answer

def Carries (layout : MoveTypeLayout) : Prop :=
  ∃ type, layoutToSolType layout = .ok type ∧
    ∀ value other, IsValueOf layout value → Garbles layout value other →
      ∃ message answer, Carried type layout value other message answer

/-- A message that is its own answer. -/
theorem carried_self {type : DynSolType} {layout : MoveTypeLayout} {value : MoveValue}
    {answer : DynSolValue} (sent : moveValueToSolValue layout value = some answer)
    (typed : HasType type answer) (fits : Fits answer)
    (back : solToValue layout answer = .ok value) :
    Carried type layout value value answer answer :=
  ⟨typed, fits, back, sent, rfl, fun _ => rfl⟩

theorem toMoveAddress_toEthAddress {a : AccountAddress} (h : a.toNat < 2 ^ 160) :
    toMoveAddress (toEthAddress a) = a := by
  apply BitVec.eq_of_toNat_eq
  simp only [toEthAddress, toMoveAddress, BitVec.toNat_setWidth]
  omega

theorem carries_primitive {type : PrimitiveType} (h : type ≠ .signer) :
    Carries (.primitive type) := by
  cases type with
  | signer => exact absurd rfl h
  | bool =>
    refine ⟨.bool, rfl, fun value other hvalue hgarbles => ?_⟩
    cases value <;> simp only [IsValueOf] at hvalue
    obtain rfl := hgarbles
    exact ⟨_, _, carried_self rfl trivial trivial rfl⟩
  | address =>
    refine ⟨.address, rfl, fun value other hvalue hgarbles => ?_⟩
    cases value <;> simp only [IsValueOf] at hvalue
    obtain rfl := hgarbles
    refine ⟨_, _, carried_self rfl trivial trivial ?_⟩
    simp only [solToValue, toMoveAddress_toEthAddress hvalue]
  | u8 =>
    refine ⟨.uint 8, rfl, fun value other hvalue hgarbles => ?_⟩
    cases value <;> simp only [IsValueOf] at hvalue
    obtain rfl := hgarbles
    rename_i x
    have hx := x.toNat_lt
    have hword : (BitVec.ofNat 256 x.toNat).toNat = x.toNat := by
      rw [BitVec.toNat_ofNat]
      omega
    refine ⟨_, _, carried_self rfl ⟨rfl, by omega⟩ trivial ?_⟩
    simp only [solToValue, uintToValue, hword, UInt8.ofNat_toNat]
  | u256 =>
    refine ⟨.uint 256, rfl, fun value other hvalue hgarbles => ?_⟩
    cases value <;> simp only [IsValueOf] at hvalue
    obtain rfl := hgarbles
    exact ⟨_, _, carried_self rfl ⟨rfl, BitVec.isLt _⟩ trivial rfl⟩
  | _ =>
    refine ⟨.uint _, rfl, fun value other hvalue hgarbles => ?_⟩
    cases value <;> simp only [IsValueOf] at hvalue
    obtain rfl := hgarbles
    rename_i x
    have hx := x.isLt
    have hword : (x.setWidth 256).toNat = x.toNat := BitVec.toNat_setWidth_of_le (by omega)
    refine ⟨_, _, carried_self rfl ⟨rfl, by omega⟩ trivial ?_⟩
    simp [solToValue, uintToValue]

theorem mapM_forceToU8 (bytes : Bytes) : (bytes.map MoveValue.u8).mapM forceToU8 = some bytes :=
  mapM_map_of_inverse fun _ _ => rfl

theorem startsWithU8_map {bytes : Bytes} (h : bytes ≠ []) :
    startsWithU8 (bytes.map MoveValue.u8) = true := by
  cases bytes with
  | nil => exact absurd rfl h
  | cons b bytes => rfl

theorem exists_bytes {elements : List MoveValue}
    (h : ∀ element ∈ elements, IsValueOf (.primitive .u8) element) :
    ∃ bytes : Bytes, elements = bytes.map MoveValue.u8 := by
  induction elements with
  | nil => exact ⟨[], rfl⟩
  | cons element elements ih =>
    obtain ⟨bytes, rfl⟩ := ih fun element helement => h element (by simp [helement])
    have hfirst := h element (by simp)
    cases element <;> simp only [IsValueOf] at hfirst
    rename_i b
    exact ⟨b :: bytes, rfl⟩

theorem eq_of_garbles_u8 {elements others : List MoveValue}
    (h : List.Forall₂ (Garbles (.primitive .u8)) elements others) : elements = others := by
  induction h with
  | nil => rfl
  | cons hgarbles _ ih =>
    obtain rfl := hgarbles
    rw [ih]

/-- The message of a byte vector: an empty one goes out as an empty array. -/
theorem sent_vectorU8 (bytes : Bytes) :
    ∃ message, moveValueToSolValue byteVector (vectorU8 bytes) = some message ∧
      part message = packed bytes ∧ abiEncodeParams message = abiEncodeParams (.bytes bytes) := by
  by_cases hempty : bytes = []
  · subst hempty
    exact ⟨.array [], rfl, rfl, rfl⟩
  · refine ⟨.bytes bytes, ?_, rfl, rfl⟩
    rw [vectorU8, byteVector, moveValueToSolValue, if_pos (startsWithU8_map hempty),
      mapM_forceToU8]
    rfl

theorem carries_byteVector : Carries byteVector := by
  refine ⟨.bytes, rfl, fun value other hvalue hgarbles => ?_⟩
  cases value <;> simp only [byteVector, IsValueOf] at hvalue
  cases other <;> simp only [byteVector, Garbles, reduceCtorEq] at hgarbles
  obtain rfl := eq_of_garbles_u8 hgarbles
  obtain ⟨bytes, rfl⟩ := exists_bytes hvalue.2
  obtain ⟨message, hsent, hpart, hparams⟩ := sent_vectorU8 bytes
  have hfits : bytes.length < 2 ^ 64 := by simpa using hvalue.1
  exact ⟨message, .bytes bytes, trivial, hfits, rfl, hsent, hpart, fun _ => hparams⟩

theorem startsWithU8_eq_false {inner : MoveTypeLayout} {elements : List MoveValue}
    (hbyte : inner ≠ .primitive .u8) (h : ∀ element ∈ elements, IsValueOf inner element) :
    startsWithU8 elements = false := by
  cases elements with
  | nil => rfl
  | cons element elements =>
    cases element with
    | u8 x =>
      have hfirst := h (.u8 x) (by simp)
      cases inner with
      | primitive type =>
        cases type <;> simp only [IsValueOf] at hfirst
        exact absurd rfl hbyte
      | _ => simp only [IsValueOf] at hfirst
    | _ => rfl

theorem allFit_iff {values : List DynSolValue} : AllFit values ↔ ∀ value ∈ values, Fits value := by
  induction values with
  | nil => simp [AllFit]
  | cons value values ih => simp [AllFit, ih]

/-- The elements of a vector, one by one. -/
theorem carried_elements {type : DynSolType} {inner : MoveTypeLayout}
    (h : ∀ value other, IsValueOf inner value → Garbles inner value other →
      ∃ message answer, Carried type inner value other message answer)
    {elements others : List MoveValue} (hvalues : ∀ element ∈ elements, IsValueOf inner element)
    (hgarbles : List.Forall₂ (Garbles inner) elements others) :
    ∃ messages answers, (∀ answer ∈ answers, HasType type answer ∧ Fits answer) ∧
      answers.length = elements.length ∧ answers.mapM (solToValue inner) = .ok others ∧
      elements.mapM (moveValueToSolValue inner) = some messages ∧ parts messages = parts answers := by
  induction hgarbles with
  | nil => exact ⟨[], [], by simp, rfl, rfl, rfl, rfl⟩
  | @cons value other values others hfirst _ ih =>
    obtain ⟨message, answer, hcarried⟩ := h value other (hvalues value (by simp)) hfirst
    obtain ⟨messages, answers, htyped, hlength, hback, hsent, hparts⟩ :=
      ih fun element helement => hvalues element (by simp [helement])
    refine ⟨message :: messages, answer :: answers, ?_, ?_, ?_, ?_, ?_⟩
    · intro sv hsv
      rcases List.mem_cons.mp hsv with rfl | hmem
      · exact ⟨hcarried.typed, hcarried.fits⟩
      · exact htyped sv hmem
    · rw [List.length_cons, List.length_cons, hlength]
    · simp only [List.mapM_cons, Errors.bind_ok_iff]
      exact ⟨other, hcarried.back, others, hback, rfl⟩
    · rw [List.mapM_cons, hcarried.sent, hsent]
      rfl
    · rw [parts, parts, hcarried.part_eq, hparts]

theorem carries_vector {inner : MoveTypeLayout} (ih : Carries inner) : Carries (.vector inner) := by
  by_cases hbyte : inner = .primitive .u8
  · subst hbyte
    exact carries_byteVector
  · obtain ⟨type, htype, hall⟩ := ih
    refine ⟨.array type, layoutToSolType_vector hbyte htype, fun value other hvalue hgarbles => ?_⟩
    cases value <;> simp only [IsValueOf] at hvalue
    cases other <;> simp only [Garbles, reduceCtorEq] at hgarbles
    obtain ⟨messages, answers, htyped, hlength, hback, hsent, hparts⟩ :=
      carried_elements hall hvalue.2 hgarbles
    have hpart : part (.array messages) = part (.array answers) := by rw [part, part, hparts]
    refine ⟨.array messages, .array answers, fun answer hanswer => (htyped answer hanswer).1,
      ⟨hlength ▸ hvalue.1, allFit_iff.mpr fun answer hanswer => (htyped answer hanswer).2⟩,
      solToValue_vector hback, ?_, hpart, fun _ => congrArg (fun p => encodeParts [p]) hpart⟩
    simp only [moveValueToSolValue, startsWithU8_eq_false hbyte hvalue.2, hsent,
      Bool.false_eq_true, if_false, Option.map_some]

/-- Fixed bytes of one word fill the buffer. -/
theorem fixedBuffer_bytes {bytes : Bytes} (h : bytes.length = 32) :
    (leBytes 32 (fixedBuffer bytes).toNat).reverse = bytes := by
  have hfull : bytes.take 32 ++ List.replicate (32 - bytes.length) 0 = bytes := by
    rw [h, Nat.sub_self, List.replicate_zero, List.append_nil, ← h, List.take_length]
  rw [fixedBuffer, hfull, BitVec.toNat_ofNat, Nat.mod_eq_of_lt (beNat_lt h)]
  exact word_beNat h

theorem carried_fixedBytes {tag : StructTag} {fields : List MoveTypeLayout} {bytes : Bytes}
    (hfixed : sameStruct fixedBytesTag tag) (h : bytes.length = 32) :
    Carried (.fixedBytes (typeArgsToUsize tag.typeArgs)) (.structWithTypes tag fields)
      (.struct [vectorU8 bytes]) (.struct [vectorU8 bytes])
      (.fixedBytes (fixedBuffer bytes) (typeArgsToUsize tag.typeArgs))
      (.fixedBytes (fixedBuffer bytes) (typeArgsToUsize tag.typeArgs)) := by
  refine carried_self ?_ rfl trivial ?_
  · rw [moveValueToSolValue, if_pos hfixed, List.getLast?_singleton]
    simp only [vectorU8, mapM_forceToU8, Option.map_some]
  · rw [solToValue, fixedBuffer_bytes h]

/-- An empty string goes out as a tuple of an empty array, which reads as 32 zeros. -/
theorem carried_string :
    Carried .string (.structWithTypes stringTag [byteVector]) (.struct [vectorU8 []])
      (.struct [vectorU8 (List.replicate 32 0)]) (.tuple [.array []])
      (.string (List.replicate 32 0)) where
  typed := by
    unfold HasType
    decide +kernel
  fits := by
    unfold Fits
    decide
  back := rfl
  sent := rfl
  part_eq := joined_packed_nil
  params_eq := fun h => by simp [isString] at h

/-- What the fields of a struct carry together. -/
def FieldsCarry (fields : List MoveTypeLayout) : Prop :=
  ∃ types, fieldsToSolTypes fields = .ok types ∧
    ∀ values others, AreValuesOf fields values → GarbleAll fields values others →
      ∃ messages answers, HaveTypes types answers ∧ AllFit answers ∧
        solToFields fields answers = .ok others ∧
        fieldsToSolValues fields values = some messages ∧ parts messages = parts answers

theorem fieldsCarry_cons {field : MoveTypeLayout} {fields : List MoveTypeLayout}
    (hfield : Carries field) (hfields : FieldsCarry fields) : FieldsCarry (field :: fields) := by
  obtain ⟨type, htype, hone⟩ := hfield
  obtain ⟨types, htypes, hall⟩ := hfields
  refine ⟨type :: types, by simp only [fieldsToSolTypes, htype, htypes, bind, Except.bind], ?_⟩
  intro values others hvalues hgarbles
  cases values with
  | nil => simp [AreValuesOf] at hvalues
  | cons value values =>
    cases others with
    | nil => simp [GarbleAll] at hgarbles
    | cons other others =>
      simp only [AreValuesOf] at hvalues
      simp only [GarbleAll] at hgarbles
      obtain ⟨message, answer, hcarried⟩ := hone value other hvalues.1 hgarbles.1
      obtain ⟨messages, answers, htyped, hfit, hback, hsent, hparts⟩ :=
        hall values others hvalues.2 hgarbles.2
      refine ⟨message :: messages, answer :: answers, ⟨hcarried.typed, htyped⟩,
        ⟨hcarried.fits, hfit⟩, ?_, ?_, ?_⟩
      · simp only [solToFields, hcarried.back, hback, bind, Except.bind]
      · rw [fieldsToSolValues, hcarried.sent, hsent]
        rfl
      · rw [parts, parts, hcarried.part_eq, hparts]

theorem carries_struct {tag : StructTag} {fields : List MoveTypeLayout}
    (hdeclared : Declared tag fields) (harray : sameStruct fixedArrayTag tag = false)
    (ih : FieldsCarry fields) : Carries (.structWithTypes tag fields) := by
  unfold Carries layoutToSolType
  by_cases hfixed : sameStruct fixedBytesTag tag
  · refine ⟨_, by rw [if_pos hfixed], fun value other hvalue hgarbles => ?_⟩
    cases value <;> simp only [IsValueOf, hfixed, if_true] at hvalue
    obtain ⟨bytes, hlength, rfl⟩ := hvalue
    cases other <;> simp only [Garbles, hfixed, if_true, reduceCtorEq] at hgarbles
    subst hgarbles
    exact ⟨_, _, carried_fixedBytes hfixed hlength⟩
  · rw [if_neg hfixed, if_neg (by simp [harray])]
    by_cases hstring : tag = stringTag
    · subst hstring
      obtain rfl := hdeclared rfl
      refine ⟨_, by rw [if_pos rfl], fun value other hvalue hgarbles => ?_⟩
      cases value <;> simp only [IsValueOf, hfixed, if_true] at hvalue
      cases other <;> simp only [Garbles, hfixed, if_true, reduceCtorEq] at hgarbles
      obtain ⟨rfl, rfl⟩ := hgarbles
      exact ⟨_, _, carried_string⟩
    · obtain ⟨types, htypes, hall⟩ := ih
      refine ⟨.tuple types, ?_, fun value other hvalue hgarbles => ?_⟩
      · rw [if_neg hstring, htypes]
        rfl
      · cases value <;> simp only [IsValueOf, hfixed, hstring, if_false] at hvalue
        cases other <;> simp only [Garbles, hfixed, hstring, if_false, reduceCtorEq] at hgarbles
        obtain ⟨messages, answers, htyped, hfit, hback, hsent, hparts⟩ := hall _ _ hvalue hgarbles
        refine ⟨.tuple messages, .tuple answers, htyped, hfit, ?_, ?_, ?_, fun _ => ?_⟩
        · simp only [solToValue, hback, bind, Except.bind]
        · rw [moveValueToSolValue, if_neg hfixed, if_neg (by simp [harray]), hsent]
          rfl
        · rw [part, part, hparts]
        · rw [abiEncodeParams, abiEncodeParams, hparts]

mutual

theorem carries : ∀ layout : MoveTypeLayout, IsAnnotated layout → isPlain layout = true →
    Carries layout
  | .primitive _ => fun _ hplain => carries_primitive (by simpa [isPlain] using hplain)
  | .vector inner => fun hannotated hplain => carries_vector (carries inner hannotated hplain)
  | .structWithTypes tag fields => fun hannotated hplain => by
      simp only [isPlain, Bool.and_eq_true, Bool.not_eq_true'] at hplain
      exact carries_struct hannotated.1 hplain.1 (fieldsCarry fields hannotated.2 hplain.2)
  | .structUntagged _ => fun hannotated _ => hannotated.elim
  | .structVariants => fun hannotated _ => hannotated.elim
  | .native _ => fun _ hplain => by simp [isPlain] at hplain

theorem fieldsCarry : ∀ fields : List MoveTypeLayout, AreAnnotated fields →
    arePlain fields = true → FieldsCarry fields
  | [] => fun _ _ => ⟨[], rfl, fun values others hvalues hgarbles => by
      cases values with
      | nil =>
        obtain rfl : [] = others := hgarbles
        exact ⟨[], [], trivial, trivial, rfl, rfl, rfl⟩
      | cons value values => simp [AreValuesOf] at hvalues⟩
  | field :: fields => fun hannotated hplain => by
      simp only [arePlain, Bool.and_eq_true] at hplain
      exact fieldsCarry_cons (carries field hannotated.1 hplain.1)
        (fieldsCarry fields hannotated.2 hplain.2)

end

end Carrying

section Strings

mutual

/-- A value without strings comes back as itself. -/
theorem garbles_self : ∀ (layout : MoveTypeLayout) (value : MoveValue),
    hasString layout value = false → Garbles layout value value
  | .primitive _ => fun value _ => by unfold Garbles; rfl
  | .vector inner => fun value h => by
      cases value with
      | vector elements =>
        simp only [hasString, List.any_eq_false, Bool.not_eq_true] at h
        simp only [Garbles]
        rw [List.forall₂_same]
        exact fun element helement => garbles_self inner element (h element helement)
      | _ => unfold Garbles; rfl
  | .structWithTypes tag fields => fun value h => by
      cases value with
      | struct values =>
        simp only [Garbles]
        by_cases hfixed : sameStruct fixedBytesTag tag
        · simp only [hfixed, if_true]
        · simp only [hasString, hfixed, Bool.not_false, Bool.true_and, Bool.or_eq_false_iff,
            beq_eq_false_iff_ne] at h
          rw [if_neg hfixed, if_neg h.1]
          exact garbleAll_self fields values h.2
      | _ => unfold Garbles; rfl
  | .structUntagged _ => fun value _ => by unfold Garbles; rfl
  | .structVariants => fun value _ => by unfold Garbles; rfl
  | .native _ => fun value _ => by unfold Garbles; rfl

theorem garbleAll_self : ∀ (fields : List MoveTypeLayout) (values : List MoveValue),
    haveString fields values = false → GarbleAll fields values values
  | [] => fun values _ => by unfold GarbleAll; rfl
  | field :: fields => fun values h => by
      cases values with
      | nil => unfold GarbleAll; rfl
      | cons value values =>
        simp only [haveString, Bool.or_eq_false_iff] at h
        exact ⟨garbles_self field value h.1, garbleAll_self fields values h.2⟩

end

/-- A value with an empty string in every place that has one. -/
def HasGarbled (layout : MoveTypeLayout) : Prop :=
  ∃ value other, IsValueOf layout value ∧ Garbles layout value other ∧
    (mentionsString layout = true → value ≠ other)

def HaveGarbled (fields : List MoveTypeLayout) : Prop :=
  ∃ values others, AreValuesOf fields values ∧ GarbleAll fields values others ∧
    (mentionString fields = true → values ≠ others)

theorem hasGarbled_primitive {type : PrimitiveType} (h : type ≠ .signer) :
    HasGarbled (.primitive type) := by
  cases type with
  | signer => exact absurd rfl h
  | bool => exact ⟨.bool false, _, trivial, rfl, by simp [mentionsString]⟩
  | u8 => exact ⟨.u8 0, _, trivial, rfl, by simp [mentionsString]⟩
  | u16 => exact ⟨.u16 0, _, trivial, rfl, by simp [mentionsString]⟩
  | u32 => exact ⟨.u32 0, _, trivial, rfl, by simp [mentionsString]⟩
  | u64 => exact ⟨.u64 0, _, trivial, rfl, by simp [mentionsString]⟩
  | u128 => exact ⟨.u128 0, _, trivial, rfl, by simp [mentionsString]⟩
  | u256 => exact ⟨.u256 0, _, trivial, rfl, by simp [mentionsString]⟩
  | address =>
    refine ⟨.address 0, _, ?_, rfl, by simp [mentionsString]⟩
    simp [IsValueOf]

theorem hasGarbled_vector {inner : MoveTypeLayout} (ih : HasGarbled inner) :
    HasGarbled (.vector inner) := by
  obtain ⟨value, other, hvalue, hgarbles, hne⟩ := ih
  refine ⟨.vector [value], .vector [other], ⟨by simp, by simpa using hvalue⟩, ?_, ?_⟩
  · simpa [Garbles] using hgarbles
  · intro h
    simpa using hne h

theorem hasGarbled_struct {tag : StructTag} {fields : List MoveTypeLayout}
    (ih : HaveGarbled fields) : HasGarbled (.structWithTypes tag fields) := by
  by_cases hfixed : sameStruct fixedBytesTag tag
  · refine ⟨.struct [vectorU8 (List.replicate 32 0)], .struct [vectorU8 (List.replicate 32 0)],
      ?_, ?_, ?_⟩
    · simp only [IsValueOf, hfixed, if_true]
      exact ⟨_, by simp, rfl⟩
    · simp only [Garbles, hfixed, if_true]
    · simp [mentionsString, hfixed]
  · by_cases hstring : tag = stringTag
    · refine ⟨.struct [vectorU8 []], .struct [vectorU8 (List.replicate 32 0)], ?_, ?_, ?_⟩
      · simp only [IsValueOf]
        rw [if_neg hfixed, if_pos hstring]
        exact ⟨[], by simp, by decide, rfl⟩
      · simp only [Garbles]
        rw [if_neg hfixed, if_pos hstring]
        simp
      · intro _ h
        simp [vectorU8] at h
    · obtain ⟨values, others, hvalues, hgarbles, hne⟩ := ih
      refine ⟨.struct values, .struct others, ?_, ?_, ?_⟩
      · simp only [IsValueOf]
        rwa [if_neg hfixed, if_neg hstring]
      · simp only [Garbles]
        rwa [if_neg hfixed, if_neg hstring]
      · intro h
        simpa using hne (by simpa [mentionsString, hfixed, hstring] using h)

theorem haveGarbled_cons {field : MoveTypeLayout} {fields : List MoveTypeLayout}
    (hfield : HasGarbled field) (hfields : HaveGarbled fields) : HaveGarbled (field :: fields) := by
  obtain ⟨value, other, hvalue, hgarbles, hne⟩ := hfield
  obtain ⟨values, others, hvalues, hgarblesAll, hneAll⟩ := hfields
  refine ⟨value :: values, other :: others, ⟨hvalue, hvalues⟩, ⟨hgarbles, hgarblesAll⟩, ?_⟩
  intro h heq
  obtain ⟨rfl, rfl⟩ := List.cons.inj heq
  rw [mentionString, Bool.or_eq_true] at h
  rcases h with h | h
  · exact hne h rfl
  · exact hneAll h rfl

mutual

theorem hasGarbled : ∀ layout : MoveTypeLayout, IsAnnotated layout → isPlain layout = true →
    HasGarbled layout
  | .primitive _ => fun _ hplain => hasGarbled_primitive (by simpa [isPlain] using hplain)
  | .vector inner => fun hannotated hplain => hasGarbled_vector (hasGarbled inner hannotated hplain)
  | .structWithTypes _ fields => fun hannotated hplain => by
      simp only [isPlain, Bool.and_eq_true] at hplain
      exact hasGarbled_struct (haveGarbled fields hannotated.2 hplain.2)
  | .structUntagged _ => fun hannotated _ => hannotated.elim
  | .structVariants => fun hannotated _ => hannotated.elim
  | .native _ => fun _ hplain => by simp [isPlain] at hplain

theorem haveGarbled : ∀ fields : List MoveTypeLayout, AreAnnotated fields →
    arePlain fields = true → HaveGarbled fields
  | [] => fun _ _ => ⟨[], [], trivial, rfl, by simp [mentionString]⟩
  | field :: fields => fun hannotated hplain => by
      simp only [arePlain, Bool.and_eq_true] at hplain
      exact haveGarbled_cons (hasGarbled field hannotated.1 hplain.1)
        (haveGarbled fields hannotated.2 hplain.2)

end

mutual

/-- A value with a string has a layout with one. -/
theorem hasString_eq_false : ∀ (layout : MoveTypeLayout) (value : MoveValue),
    mentionsString layout = false → hasString layout value = false
  | .vector inner => fun value h => by
      cases value with
      | vector elements =>
        rw [hasString, List.any_eq_false]
        intro element _
        rw [hasString_eq_false inner element h]
        simp
      | _ => rfl
  | .structWithTypes tag fields => fun value h => by
      cases value with
      | struct values =>
        rw [hasString]
        by_cases hfixed : sameStruct fixedBytesTag tag
        · rw [hfixed]
          rfl
        · simp only [mentionsString, hfixed, Bool.not_false, Bool.true_and,
            Bool.or_eq_false_iff] at h
          rw [h.1, haveString_eq_false fields values h.2]
          simp
      | _ => rfl
  | .primitive _ => fun _ _ => by unfold hasString; rfl
  | .structUntagged _ => fun _ _ => by unfold hasString; rfl
  | .structVariants => fun _ _ => by unfold hasString; rfl
  | .native _ => fun _ _ => by unfold hasString; rfl

theorem haveString_eq_false : ∀ (fields : List MoveTypeLayout) (values : List MoveValue),
    mentionString fields = false → haveString fields values = false
  | [] => fun _ _ => by unfold haveString; rfl
  | field :: fields => fun values h => by
      cases values with
      | nil => rfl
      | cons value values =>
        simp only [mentionString, Bool.or_eq_false_iff] at h
        rw [haveString, hasString_eq_false field value h.1, haveString_eq_false fields values h.2]
        rfl

end

end Strings

section RoundTrip

variable {layout : MoveTypeLayout} {libraryDecode : DynSolType → Bytes → Option DynSolValue}

/-- A short integer takes the last bytes of a word. -/
theorem abiEncodeParams_uint {u : U256} {size len : ℕ} (hlen : len ≤ 32)
    (h : u.toNat < 256 ^ len) : abiEncodeParams (.uint u size) = shortWord len u.toNat := by
  have hparts : encodeParts [⟨false, word u.toNat⟩] = word u.toNat := by
    simp [encodeParts, heads, tails]
  have hencode : abiEncodeParams (.uint u size) = encodeParts [⟨false, word u.toNat⟩] := rfl
  rw [hencode, hparts, word_eq_of_lt hlen h, shortWord]

/-- The shortcuts give what the long way gives. -/
theorem innerAbiEncodeParams_eq {value : MoveValue} {message : DynSolValue}
    (h : moveValueToSolValue layout value = some message) :
    innerAbiEncodeParams layout value = some (abiEncodeParams message) := by
  unfold innerAbiEncodeParams
  split
  · rename_i x
    have hx := x.toNat_lt
    have hword : (BitVec.ofNat 256 x.toNat).toNat = x.toNat := by
      rw [BitVec.toNat_ofNat]
      omega
    simp only [moveValueToSolValue, Option.some.injEq] at h
    have hshort := @abiEncodeParams_uint (BitVec.ofNat 256 x.toNat) 8 1 (by omega) (by omega)
    rw [← h, hshort, hword]
  · rename_i x
    have hx := x.isLt
    have hword : (x.setWidth 256).toNat = x.toNat := BitVec.toNat_setWidth_of_le (by omega)
    simp only [moveValueToSolValue, Option.some.injEq] at h
    have hshort := @abiEncodeParams_uint (x.setWidth 256) 16 2 (by omega) (by omega)
    rw [← h, hshort, hword]
  · rename_i x
    have hx := x.isLt
    have hword : (x.setWidth 256).toNat = x.toNat := BitVec.toNat_setWidth_of_le (by omega)
    simp only [moveValueToSolValue, Option.some.injEq] at h
    have hshort := @abiEncodeParams_uint (x.setWidth 256) 32 4 (by omega) (by omega)
    rw [← h, hshort, hword]
  · have hempty : message = .array [] := by
      cases layout <;> simp [moveValueToSolValue, startsWithU8] at h
      exact h.symm
    rw [hempty]
    decide
  · rw [h]
    rfl

/-- What comes back for a value whose strings are all empty. -/
theorem decoded_of_garbles (hannotated : IsAnnotated layout) (hplain : isPlain layout = true)
    (hlibrary : ∀ type sv, layoutToSolType layout = .ok type → HasType type sv → Fits sv →
      libraryDecode type (abiEncodeParams sv) = some sv)
    (hstring : isString layout = false) {value other : MoveValue} (hvalue : IsValueOf layout value)
    (hgarbles : Garbles layout value other) :
    ∃ bytes, innerAbiEncodeParams layout value = some bytes ∧
      abiDecodeParams libraryDecode bytes layout = .ok other := by
  obtain ⟨type, htype, hall⟩ := carries layout hannotated hplain
  obtain ⟨message, answer, hcarried⟩ := hall value other hvalue hgarbles
  refine ⟨abiEncodeParams message, innerAbiEncodeParams_eq hcarried.sent, ?_⟩
  have hdecoded := hlibrary type answer htype hcarried.typed hcarried.fits
  rw [← hcarried.params_eq hstring] at hdecoded
  exact (abiDecodeParams_ok_iff ..).mpr ⟨type, answer, htype, hdecoded, hcarried.back⟩

/-- A string on its own is laid out like the tuple of its bytes. -/
theorem roundTrips_string {fields : List MoveTypeLayout} {value : MoveValue}
    (hdeclared : Declared stringTag fields)
    (hlibrary : ∀ sv, HasType .string sv → Fits sv →
      libraryDecode .string (abiEncodeParams sv) = some sv)
    (hvalue : IsValueOf (.structWithTypes stringTag fields) value) :
    RoundTrips libraryDecode (.structWithTypes stringTag fields) value := by
  obtain rfl := hdeclared rfl
  have hfixed : sameStruct fixedBytesTag stringTag = false := by decide
  cases value <;> simp only [IsValueOf, hfixed, Bool.false_eq_true, if_false, if_true] at hvalue
  obtain ⟨bytes, hlength, hutf8, rfl⟩ := hvalue
  obtain ⟨message, hsent, hpart, -⟩ := sent_vectorU8 bytes
  have hmessage : moveValueToSolValue (.structWithTypes stringTag [byteVector])
      (.struct [vectorU8 bytes]) = some (.tuple [message]) := by
    rw [moveValueToSolValue, if_neg (by decide), if_neg (by decide), fieldsToSolValues, hsent]
    rfl
  have hbytes : abiEncodeParams (.tuple [message]) = abiEncodeParams (.string bytes) := by
    rw [abiEncodeParams, parts, hpart]
    rfl
  refine ⟨_, innerAbiEncodeParams_eq hmessage, (abiDecodeParams_ok_iff ..).mpr
    ⟨.string, .string bytes, rfl, ?_, rfl⟩⟩
  rw [hbytes]
  exact hlibrary (.string bytes) hutf8 hlength

/-- A value comes back if no string stands strictly inside it; all values of a layout do exactly
when the layout has no string strictly inside. The library gives back what it encoded, at the
type of the layout. -/
theorem roundTrips_iff (hannotated : IsAnnotated layout) (hplain : isPlain layout = true)
    (hlibrary : ∀ type sv, layoutToSolType layout = .ok type → HasType type sv → Fits sv →
      libraryDecode type (abiEncodeParams sv) = some sv) :
    (∀ value, IsValueOf layout value → hasInnerString layout value = false →
      RoundTrips libraryDecode layout value) ∧
    ((∀ value, IsValueOf layout value → RoundTrips libraryDecode layout value) ↔
      mentionsInnerString layout = false) := by
  have hkept : ∀ value, IsValueOf layout value → hasInnerString layout value = false →
      RoundTrips libraryDecode layout value := by
    intro value hvalue hinner
    cases hstring : isString layout with
    | true =>
      cases layout <;> simp only [isString, beq_iff_eq, Bool.false_eq_true] at hstring
      subst hstring
      exact roundTrips_string hannotated.1 (fun sv => hlibrary .string sv rfl) hvalue
    | false =>
      have hnone : hasString layout value = false := by
        simpa [hasInnerString, hstring] using hinner
      exact decoded_of_garbles hannotated hplain hlibrary hstring hvalue
        (garbles_self layout value hnone)
  refine ⟨hkept, fun hall => ?_, fun hnone value hvalue => hkept value hvalue ?_⟩
  · rw [Bool.eq_false_iff]
    intro hinner
    simp only [mentionsInnerString, Bool.and_eq_true, Bool.not_eq_true'] at hinner
    obtain ⟨value, other, hvalue, hgarbles, hne⟩ := hasGarbled layout hannotated hplain
    obtain ⟨bytes, hsent, hback⟩ :=
      decoded_of_garbles hannotated hplain hlibrary hinner.1 hvalue hgarbles
    obtain ⟨bytes', hsent', hback'⟩ := hall value hvalue
    obtain rfl := Option.some.inj (hsent.symm.trans hsent')
    exact hne hinner.2 (Except.ok.inj (hback'.symm.trans hback))
  · rw [hasInnerString]
    rw [mentionsInnerString] at hnone
    cases hstring : isString layout with
    | true => rfl
    | false =>
      rw [hstring, Bool.not_false, Bool.true_and] at hnone
      rw [hasString_eq_false layout value hnone]
      rfl

/-- The byte string behind the offset in the first word. -/
def singleTail (bytes : Bytes) : Option Bytes :=
  let tail := bytes.drop (beNat (bytes.take 32))
  let length := beNat (tail.take 32)
  let data := (tail.drop 32).take length
  if data.length = length then some data else none

theorem singleTail_packed {bytes : Bytes} (h : bytes.length < 2 ^ 64) :
    singleTail (encodeParts [packed bytes]) = some bytes := by
  have hoffset : beNat (word 32) = 32 := by decide
  have hlength : beNat (word bytes.length) = bytes.length := beNat_word (by omega)
  have hhead : ∀ n rest, (word n ++ rest).take 32 = word n := fun n rest =>
    List.take_left' (length_word n)
  have htail : ∀ n rest, (word n ++ rest).drop 32 = rest := fun n rest =>
    List.drop_left' (length_word n)
  have hdata : (padRight bytes).take bytes.length = bytes := List.take_left' rfl
  rw [singleTail, packed, encodeParts_singleton, hhead, hoffset, htail, hhead, hlength, htail,
    hdata]
  simp

/-- The ABI library at structs of one byte string or one string. -/
def tailDecode : DynSolType → Bytes → Option DynSolValue
  | .tuple [.bytes], bytes => (singleTail bytes).map fun data => .tuple [.bytes data]
  | .tuple [.string], bytes =>
      (singleTail bytes).bind fun data =>
        if TagValidation.isUtf8 data then some (.tuple [.string data]) else none
  | _, _ => none

def blobLayout : MoveTypeLayout := .structWithTypes ⟨0x42, "registry", "Blob", []⟩ [byteVector]

def entryLayout : MoveTypeLayout :=
  .structWithTypes ⟨0x42, "registry", "Entry", []⟩ [.structWithTypes stringTag [byteVector]]

/-- The entry with the name `hi`. -/
def hiEntry : MoveValue := .struct [.struct [vectorU8 [104, 105]]]

theorem tailDecode_entry (sv : DynSolValue) (hsv : HasType (.tuple [.string]) sv)
    (hfits : Fits sv) : tailDecode (.tuple [.string]) (abiEncodeParams sv) = some sv := by
  cases sv <;> simp only [HasType] at hsv
  rename_i values
  rcases values with _ | ⟨value, _ | ⟨_, _⟩⟩ <;> simp only [HaveTypes, and_false] at hsv
  cases value <;> simp only [HasType, false_and] at hsv
  rename_i data
  have hdata : singleTail (abiEncodeParams (.tuple [.string data])) = some data :=
    singleTail_packed hfits.1
  simp only [tailDecode, hdata, Option.bind_some, hsv.1, if_true]

/-- A name inside a struct comes back as the word that holds its length. -/
theorem name_not_returned :
    IsAnnotated entryLayout ∧ isPlain entryLayout = true ∧ IsValueOf entryLayout hiEntry ∧
    (∀ type sv, layoutToSolType entryLayout = .ok type → HasType type sv → Fits sv →
      tailDecode type (abiEncodeParams sv) = some sv) ∧
    ((innerAbiEncodeParams entryLayout hiEntry).map fun bytes =>
      abiDecodeParams tailDecode bytes entryLayout) =
        some (.ok (.struct [.struct [vectorU8 (List.replicate 31 0 ++ [2])]])) ∧
    ¬ RoundTrips tailDecode entryLayout hiEntry := by
  have hback : ((innerAbiEncodeParams entryLayout hiEntry).map fun bytes =>
      abiDecodeParams tailDecode bytes entryLayout) =
        some (.ok (.struct [.struct [vectorU8 (List.replicate 31 0 ++ [2])]])) := by rfl
  refine ⟨⟨fun h => ?_, ⟨fun _ => rfl, trivial, trivial⟩, trivial⟩, rfl, ?_, ?_, hback, ?_⟩
  · have hother : isPackedBytes ⟨0x42, "registry", "Entry", []⟩ = false := by decide
    rw [hother] at h
    cases h
  · exact ⟨⟨[104, 105], by decide, by decide +kernel, rfl⟩, trivial⟩
  · intro type sv htype hsv hfits
    obtain rfl : .tuple [.string] = type := Except.ok.inj htype
    exact tailDecode_entry sv hsv hfits
  · rintro ⟨bytes, hsent, hreturned⟩
    rw [hsent, Option.map_some, hreturned] at hback
    simp [hiEntry, vectorU8] at hback

theorem tailDecode_blob (sv : DynSolValue) (hsv : HasType (.tuple [.bytes]) sv)
    (hfits : Fits sv) : tailDecode (.tuple [.bytes]) (abiEncodeParams sv) = some sv := by
  cases sv <;> simp only [HasType] at hsv
  rename_i values
  rcases values with _ | ⟨value, _ | ⟨_, _⟩⟩ <;> simp only [HaveTypes, and_false] at hsv
  cases value <;> simp only [HasType, false_and] at hsv
  rename_i data
  have hdata : singleTail (abiEncodeParams (.tuple [.bytes data])) = some data :=
    singleTail_packed hfits.1
  simp only [tailDecode, hdata, Option.map_some]

/-- A blob of two bytes. -/
def hiBlob : MoveValue := .struct [vectorU8 [104, 105]]

/-- A blob comes back, and so does every other one. -/
theorem roundTrips_blob :
    (IsValueOf blobLayout hiBlob ∧ RoundTrips tailDecode blobLayout hiBlob) ∧
      ∀ value, IsValueOf blobLayout value → RoundTrips tailDecode blobLayout value := by
  have hother : isPackedBytes ⟨0x42, "registry", "Blob", []⟩ = false := by decide
  have hannotated : IsAnnotated blobLayout :=
    ⟨fun h => absurd h (by rw [hother]; simp), trivial, trivial⟩
  have hblob : IsValueOf blobLayout hiBlob := by
    refine ⟨⟨by decide, fun element helement => ?_⟩, trivial⟩
    obtain ⟨byte, -, rfl⟩ := List.mem_map.mp helement
    trivial
  have hall : ∀ value, IsValueOf blobLayout value → RoundTrips tailDecode blobLayout value := by
    refine (roundTrips_iff hannotated rfl ?_).2.mpr rfl
    intro type sv htype hsv hfits
    obtain rfl : .tuple [.bytes] = type := Except.ok.inj htype
    exact tailDecode_blob sv hsv hfits
  exact ⟨⟨hblob, hall hiBlob hblob⟩, hall⟩

end RoundTrip

end OpMove.AbiRoundTrip
