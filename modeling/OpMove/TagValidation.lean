import OpMove.Errors
import Mathlib.Tactic.Common

/-!
The checks that keep capability types and forged signers out of entry-function
arguments. `validateEntryTypeTag` walks down one type tag; `validateEntryValue`
runs an explicit stack of tagged values. Both are compared with what they are
for: the grammar `EntryType` of accepted types and the predicate `SafeArgument`
on values, stated by recursion on the type and the value instead of by a loop.
-/

namespace OpMove.TagValidation

open Primitives MoveTypes Errors

structure MoveStructInfo where
  address : AccountAddress
  moduleName : String
  name : String
  deriving DecidableEq, Repr

def stringInfo : MoveStructInfo := ⟨1, "string", "String"⟩
def objectInfo : MoveStructInfo := ⟨1, "object", "Object"⟩
def optionInfo : MoveStructInfo := ⟨1, "option", "Option"⟩
def fixedPoint32Info : MoveStructInfo := ⟨1, "fixed_point32", "FixedPoint32"⟩
def fixedPoint64Info : MoveStructInfo := ⟨1, "fixed_point64", "FixedPoint64"⟩

@[simp] theorem stringInfo_name : stringInfo.name = "String" := rfl
@[simp] theorem objectInfo_name : objectInfo.name = "Object" := rfl
@[simp] theorem optionInfo_name : optionInfo.name = "Option" := rfl
@[simp] theorem fixedPoint32Info_name : fixedPoint32Info.name = "FixedPoint32" := rfl
@[simp] theorem fixedPoint64Info_name : fixedPoint64Info.name = "FixedPoint64" := rfl

def allowedStructs : List MoveStructInfo :=
  [stringInfo, objectInfo, optionInfo, fixedPoint32Info, fixedPoint64Info]

def objectCoreTag : TypeTag := .struct objectInfo.address objectInfo.moduleName "ObjectCore" []

/-- The loop of `validate_entry_type_tag`; errors name the whole tag. -/
def validateTagFrom (tag : TypeTag) : TypeTag → Except Error Unit
  | .vector inner => validateTagFrom tag inner
  | .primitive _ => .ok ()
  | .struct address moduleName name [] =>
      if ⟨address, moduleName, name⟩ ∈ allowedStructs then .ok ()
      else .error (.invalidTransaction (.disallowedEntryFunctionType tag))
  | .struct address moduleName name [innerType] =>
      if ⟨address, moduleName, name⟩ ∈ allowedStructs then
        if name = optionInfo.name then validateTagFrom tag innerType else .ok ()
      else .error (.invalidTransaction (.disallowedEntryFunctionType tag))
  | .struct address moduleName name (_ :: _ :: _) =>
      -- the type parameters are looked at only after the struct itself is allowed
      if ⟨address, moduleName, name⟩ ∈ allowedStructs then .error .panicked
      else .error (.invalidTransaction (.disallowedEntryFunctionType tag))

def validateEntryTypeTag (tag : TypeTag) : Except Error Unit := validateTagFrom tag tag

/-- The types a serialized argument may have. -/
inductive EntryType : TypeTag → Prop
  | primitive (type : PrimitiveType) : EntryType (.primitive type)
  | vector {inner : TypeTag} : EntryType inner → EntryType (.vector inner)
  | plain {address : AccountAddress} {moduleName name : String} :
      ⟨address, moduleName, name⟩ ∈ allowedStructs →
      EntryType (.struct address moduleName name [])
  | option {address : AccountAddress} {moduleName name : String} {inner : TypeTag} :
      ⟨address, moduleName, name⟩ ∈ allowedStructs → name = optionInfo.name →
      EntryType inner → EntryType (.struct address moduleName name [inner])
  | phantom {address : AccountAddress} {moduleName name : String} (inner : TypeTag) :
      ⟨address, moduleName, name⟩ ∈ allowedStructs → name ≠ optionInfo.name →
      EntryType (.struct address moduleName name [inner])

theorem validateTagFrom_ok_iff (whole tag : TypeTag) :
    validateTagFrom whole tag = .ok () ↔ EntryType tag := by
  fun_induction validateTagFrom whole tag with
  | case1 inner ih =>
    rw [ih]
    exact ⟨EntryType.vector, fun h => by cases h; assumption⟩
  | case2 type => exact ⟨fun _ => EntryType.primitive type, fun _ => rfl⟩
  | case3 address moduleName name hallowed =>
    exact ⟨fun _ => EntryType.plain hallowed, fun _ => rfl⟩
  | case4 address moduleName name hallowed =>
    refine ⟨fun h => by simp at h, fun h => ?_⟩
    cases h with
    | plain h => exact absurd h hallowed
  | case5 address moduleName innerType hallowed ih =>
    rw [ih]
    refine ⟨EntryType.option hallowed rfl, fun h => ?_⟩
    cases h with
    | option _ _ h => exact h
    | phantom _ _ hne => exact absurd rfl hne
  | case6 address moduleName name innerType hallowed hoption =>
    exact ⟨fun _ => EntryType.phantom innerType hallowed hoption, fun _ => rfl⟩
  | case7 address moduleName name innerType hallowed =>
    refine ⟨fun h => by simp at h, fun h => ?_⟩
    cases h with
    | option h _ _ => exact absurd h hallowed
    | phantom _ h _ => exact absurd h hallowed
  | case8 address moduleName name a b rest hallowed =>
    exact ⟨fun h => by simp at h, fun h => by cases h⟩
  | case9 address moduleName name a b rest hallowed =>
    exact ⟨fun h => by simp at h, fun h => by cases h⟩

/-- The type check accepts exactly the grammar. -/
theorem validateEntryTypeTag_ok_iff (tag : TypeTag) :
    validateEntryTypeTag tag = .ok () ↔ EntryType tag :=
  validateTagFrom_ok_iff tag tag

section Values

/-- What a session answers about types and stored resources. -/
structure ResourceView where
  loadType : TypeTag → Bool
  resourceExists : AccountAddress → TypeTag → Bool

/-- The bytes of a vector of `u8` values. -/
def stringBytes : List MoveValue → Option Bytes
  | [] => some []
  | .u8 b :: rest => (stringBytes rest).map (b :: ·)
  | _ :: _ => none

def isUtf8 (bytes : Bytes) : Bool := (ByteArray.mk bytes.toArray).validateUTF8

/-- String must be utf-8 encoded bytes. -/
def validateString : List MoveValue → Except Error Unit
  | [] => .error (.entryFnInvariantViolation .stringStructHasField)
  | .vector array :: _ =>
      match stringBytes array with
      | none => .error (.entryFnInvariantViolation .stringElementsAreU8)
      | some bytes =>
          if isUtf8 bytes then .ok () else .error (.invalidTransaction .invalidString)
  | _ :: _ => .error (.entryFnInvariantViolation .stringStructFieldIsVector)

/-- Option must be a vector with 0 or 1 values. -/
def validateOption : List MoveValue → Except Error (Option MoveValue)
  | [] => .error (.entryFnInvariantViolation .optionStructHasField)
  | .vector [] :: _ => .ok none
  | .vector [inner] :: _ => .ok (some inner)
  | .vector (_ :: _ :: _) :: _ => .error (.invalidTransaction .invalidOption)
  | _ :: _ => .error (.entryFnInvariantViolation .optionStructFieldIsVector)

def validateObject (view : ResourceView) (innerType : TypeTag) :
    List MoveValue → Except Error Unit
  | [] => .error (.entryFnInvariantViolation .objectStructHasField)
  | .address addr :: _ =>
      if !view.loadType objectCoreTag then
        .error (.entryFnInvariantViolation .objectCoreTypeExists)
      else if !view.resourceExists addr objectCoreTag then
        .error (.invalidTransaction .invalidObject)
      else if !view.loadType innerType then
        .error (.entryFnInvariantViolation .objectInnerTypeExists)
      else if !view.resourceExists addr innerType then
        .error (.invalidTransaction .invalidObject)
      else .ok ()
  | _ :: _ => .error (.entryFnInvariantViolation .objectStructFieldIsAddress)

variable (view : ResourceView) (expectedSigner : AccountAddress)

/-- The body of the loop: the tagged values to push, in the order they are pushed. -/
def checkTagged : TypeTag × MoveValue → Except Error (List (TypeTag × MoveValue))
  | (.primitive .signer, .signer given) =>
      if given = expectedSigner then .ok [] else .error (.invalidTransaction .invalidSigner)
  | (.vector inner, .vector array) => .ok (array.map (inner, ·))
  | (.struct _ _ name typeArgs, .struct fields) =>
      if name = stringInfo.name then do
        validateString fields
        .ok []
      else if name = objectInfo.name then
        match typeArgs with
        | [] => .error (.entryFnInvariantViolation .objectStructHasTypeParameter)
        | innerType :: _ => do
            validateObject view innerType fields
            .ok []
      else if name = optionInfo.name then do
        match ← validateOption fields, typeArgs with
        | none, _ => .ok []
        | some _, [] => .error (.entryFnInvariantViolation .optionHasInnerType)
        | some value, innerTag :: _ => .ok [(innerTag, value)]
      else if name = fixedPoint32Info.name ∨ name = fixedPoint64Info.name then .ok []
      else .error (.entryFnInvariantViolation .onlyAllowedStructs)
  | _ => .ok []

/-- Total size of the values on a stack, the measure the loop runs down. -/
noncomputable def stackSize (stack : List (TypeTag × MoveValue)) : ℕ :=
  (stack.map fun tagged => sizeOf tagged.2).sum

theorem stackSize_append (stack rest : List (TypeTag × MoveValue)) :
    stackSize (stack ++ rest) = stackSize stack + stackSize rest := by
  simp only [stackSize, List.map_append, List.sum_append]

theorem stackSize_reverse (stack : List (TypeTag × MoveValue)) :
    stackSize stack.reverse = stackSize stack := by
  simp only [stackSize, List.map_reverse, List.sum_reverse]

theorem stackSize_tagged (inner : TypeTag) (array : List MoveValue) :
    stackSize (array.map (inner, ·)) < sizeOf array := by
  induction array with
  | nil => simp [stackSize]
  | cons value rest ih =>
    simp only [stackSize, List.map_cons, List.sum_cons, List.cons.sizeOf_spec] at ih ⊢
    omega

theorem sizeOf_pos (value : MoveValue) : 0 < sizeOf value := by
  cases value <;> simp

theorem validateString_ok_iff (fields : List MoveValue) :
    validateString fields = .ok () ↔
      ∃ array rest bytes, fields = .vector array :: rest ∧
        stringBytes array = some bytes ∧ isUtf8 bytes := by
  constructor
  · intro h
    unfold validateString at h
    split at h
    · cases h
    · rename_i array rest
      split at h
      · cases h
      · rename_i bytes hbytes
        split at h
        · exact ⟨array, rest, bytes, rfl, hbytes, by assumption⟩
        · cases h
    · cases h
  · rintro ⟨array, rest, bytes, rfl, hbytes, hutf⟩
    simp only [validateString, hbytes, hutf, if_true]

theorem validateOption_ok_iff (fields : List MoveValue) (found : Option MoveValue) :
    validateOption fields = .ok found ↔ ∃ rest, fields = .vector found.toList :: rest := by
  constructor
  · intro h
    unfold validateOption at h
    split at h <;> cases h
    · exact ⟨_, rfl⟩
    · exact ⟨_, rfl⟩
  · rintro ⟨rest, rfl⟩
    cases found <;> rfl

theorem validateObject_ok_iff (innerType : TypeTag) (fields : List MoveValue) :
    validateObject view innerType fields = .ok () ↔
      ∃ addr rest, fields = .address addr :: rest ∧
        view.loadType objectCoreTag ∧ view.resourceExists addr objectCoreTag ∧
        view.loadType innerType ∧ view.resourceExists addr innerType := by
  constructor
  · intro h
    unfold validateObject at h
    split at h
    · cases h
    · rename_i addr rest
      refine ⟨addr, rest, rfl, ?_⟩
      split_ifs at h
      simp_all
    · cases h
  · rintro ⟨addr, rest, rfl, hcore, hcoreAt, hinner, hinnerAt⟩
    simp [validateObject, hcore, hcoreAt, hinner, hinnerAt]

theorem checkTagged_struct_ok_iff (address : AccountAddress) (moduleName name : String)
    (typeArgs : List TypeTag) (fields : List MoveValue) (more : List (TypeTag × MoveValue)) :
    checkTagged view expectedSigner (.struct address moduleName name typeArgs, .struct fields) =
        .ok more ↔
      (name = stringInfo.name ∧ validateString fields = .ok () ∧ more = []) ∨
      (name = objectInfo.name ∧ ∃ innerType rest, typeArgs = innerType :: rest ∧
        validateObject view innerType fields = .ok () ∧ more = []) ∨
      (name = optionInfo.name ∧ validateOption fields = .ok none ∧ more = []) ∨
      (name = optionInfo.name ∧ ∃ innerTag rest value, typeArgs = innerTag :: rest ∧
        validateOption fields = .ok (some value) ∧ more = [(innerTag, value)]) ∨
      ((name = fixedPoint32Info.name ∨ name = fixedPoint64Info.name) ∧ more = []) := by
  by_cases hstring : name = stringInfo.name
  · subst hstring
    cases hvalid : validateString fields <;>
      simp [checkTagged, hvalid, bind, Except.bind, eq_comm]
  by_cases hobject : name = objectInfo.name
  · subst hobject
    cases typeArgs with
    | nil => simp [checkTagged]
    | cons innerType rest =>
      cases hvalid : validateObject view innerType fields <;>
        simp [checkTagged, hvalid, bind, Except.bind, eq_comm]
  by_cases hoption : name = optionInfo.name
  · subst hoption
    cases hvalid : validateOption fields with
    | error e => simp [checkTagged, hvalid, bind, Except.bind]
    | ok found =>
      cases found <;> cases typeArgs <;>
        simp [checkTagged, hvalid, bind, Except.bind, eq_comm]
  by_cases hfixed : name = fixedPoint32Info.name ∨ name = fixedPoint64Info.name
  · simp only [checkTagged, hstring, hobject, hoption, hfixed, if_true, if_false, false_and,
      true_and, false_or, Except.ok.injEq]
    exact eq_comm
  · simp only [checkTagged, hstring, hobject, hoption, hfixed, if_false, false_and, or_self,
      reduceCtorEq]

/-- The pairs of a type and a value that have something to check. -/
def isConstrained : TypeTag → MoveValue → Bool
  | .primitive .signer, .signer _ => true
  | .vector _, .vector _ => true
  | .struct .., .struct _ => true
  | _, _ => false

theorem checkTagged_unconstrained {tag : TypeTag} {value : MoveValue}
    (h : isConstrained tag value = false) :
    checkTagged view expectedSigner (tag, value) = .ok [] := by
  unfold checkTagged
  split <;> simp_all [isConstrained]

/-- A pass of the loop replaces a value by parts of it. -/
theorem checkTagged_stackSize {tag : TypeTag} {value : MoveValue}
    {more : List (TypeTag × MoveValue)}
    (h : checkTagged view expectedSigner (tag, value) = .ok more) :
    stackSize more < sizeOf value := by
  have hnone : stackSize [] < sizeOf value := by
    simpa only [stackSize, List.map_nil, List.sum_nil] using sizeOf_pos value
  by_cases hconstrained : isConstrained tag value = false
  · rw [checkTagged_unconstrained view expectedSigner hconstrained, Except.ok.injEq] at h
    exact h ▸ hnone
  unfold isConstrained at hconstrained
  split at hconstrained
  · simp only [checkTagged] at h
    split_ifs at h
    rw [← Except.ok.inj h]
    exact hnone
  · rename_i inner array
    have hparts := stackSize_tagged inner array
    rw [← Except.ok.inj h]
    simp only [MoveValue.vector.sizeOf_spec]
    omega
  · rw [checkTagged_struct_ok_iff] at h
    rcases h with ⟨-, -, rfl⟩ | ⟨-, _, _, -, -, rfl⟩ | ⟨-, -, rfl⟩ |
      ⟨-, innerTag, rest, inner, -, hsome, rfl⟩ | ⟨-, rfl⟩
    · exact hnone
    · exact hnone
    · exact hnone
    · obtain ⟨others, rfl⟩ := (validateOption_ok_iff _ _).mp hsome
      simp [stackSize]
      omega
    · exact hnone
  · exact absurd rfl hconstrained

/-- The loop over the stack, whose top is the head of the list. -/
def validateStack : List (TypeTag × MoveValue) → Except Error Unit
  | [] => .ok ()
  | tagged :: rest =>
      match _hpass : checkTagged view expectedSigner tagged with
      | .error e => .error e
      | .ok more => validateStack (more.reverse ++ rest)
  termination_by stack => stackSize stack
  decreasing_by
    have hless := checkTagged_stackSize view expectedSigner _hpass
    rw [stackSize_append, stackSize_reverse]
    simp only [stackSize, List.map_cons, List.sum_cons] at hless ⊢
    omega

def validateEntryValue (tag : TypeTag) (value : MoveValue) : Except Error Unit :=
  validateStack view expectedSigner [(tag, value)]

/-- Values that respect what their type promises, at every depth. -/
inductive SafeArgument : TypeTag → MoveValue → Prop
  | signer : SafeArgument (.primitive .signer) (.signer expectedSigner)
  | vector {inner : TypeTag} {array : List MoveValue} :
      (∀ value ∈ array, SafeArgument inner value) →
      SafeArgument (.vector inner) (.vector array)
  | string {address : AccountAddress} {moduleName name : String} {typeArgs : List TypeTag}
      {array rest : List MoveValue} {bytes : Bytes} :
      name = stringInfo.name → stringBytes array = some bytes → isUtf8 bytes →
      SafeArgument (.struct address moduleName name typeArgs) (.struct (.vector array :: rest))
  | object {address : AccountAddress} {moduleName name : String} {innerType : TypeTag}
      {typeArgs : List TypeTag} {addr : AccountAddress} {rest : List MoveValue} :
      name = objectInfo.name →
      view.loadType objectCoreTag → view.resourceExists addr objectCoreTag →
      view.loadType innerType → view.resourceExists addr innerType →
      SafeArgument (.struct address moduleName name (innerType :: typeArgs))
        (.struct (.address addr :: rest))
  | optionNone {address : AccountAddress} {moduleName name : String} {typeArgs : List TypeTag}
      {rest : List MoveValue} :
      name = optionInfo.name →
      SafeArgument (.struct address moduleName name typeArgs) (.struct (.vector [] :: rest))
  | optionSome {address : AccountAddress} {moduleName name : String} {innerTag : TypeTag}
      {typeArgs : List TypeTag} {value : MoveValue} {rest : List MoveValue} :
      name = optionInfo.name → SafeArgument innerTag value →
      SafeArgument (.struct address moduleName name (innerTag :: typeArgs))
        (.struct (.vector [value] :: rest))
  | fixedPoint {address : AccountAddress} {moduleName name : String} {typeArgs : List TypeTag}
      {fields : List MoveValue} :
      name = fixedPoint32Info.name ∨ name = fixedPoint64Info.name →
      SafeArgument (.struct address moduleName name typeArgs) (.struct fields)
  | unconstrained {tag : TypeTag} {value : MoveValue} :
      isConstrained tag value = false → SafeArgument tag value

/-- A value is safe exactly when the loop body accepts it and what it pushes is safe. -/
theorem safeArgument_iff_checkTagged (tag : TypeTag) (value : MoveValue) :
    SafeArgument view expectedSigner tag value ↔
      ∃ more, checkTagged view expectedSigner (tag, value) = .ok more ∧
        ∀ tagged ∈ more, SafeArgument view expectedSigner tagged.1 tagged.2 := by
  constructor
  · intro h
    cases h with
    | signer => exact ⟨[], by simp [checkTagged], by simp⟩
    | @vector inner array h => exact ⟨array.map (inner, ·), rfl, by simpa using h⟩
    | string hname hbytes hutf =>
      refine ⟨[], (checkTagged_struct_ok_iff ..).mpr (.inl ⟨hname, ?_, rfl⟩), by simp⟩
      exact (validateString_ok_iff _).mpr ⟨_, _, _, rfl, hbytes, hutf⟩
    | object hname hcore hcoreAt hinner hinnerAt =>
      refine ⟨[], (checkTagged_struct_ok_iff ..).mpr
        (.inr (.inl ⟨hname, _, _, rfl, ?_, rfl⟩)), by simp⟩
      exact (validateObject_ok_iff ..).mpr ⟨_, _, rfl, hcore, hcoreAt, hinner, hinnerAt⟩
    | optionNone hname =>
      exact ⟨[], (checkTagged_struct_ok_iff ..).mpr
        (.inr (.inr (.inl ⟨hname, rfl, rfl⟩))), by simp⟩
    | @optionSome _ _ _ innerTag _ inner _ hname hinner =>
      exact ⟨[(innerTag, inner)], (checkTagged_struct_ok_iff ..).mpr
        (.inr (.inr (.inr (.inl ⟨hname, _, _, _, rfl, rfl, rfl⟩)))), by simpa using hinner⟩
    | fixedPoint hname =>
      exact ⟨[], (checkTagged_struct_ok_iff ..).mpr
        (.inr (.inr (.inr (.inr ⟨hname, rfl⟩)))), by simp⟩
    | unconstrained h =>
      exact ⟨[], checkTagged_unconstrained view expectedSigner h, by simp⟩
  · rintro ⟨more, hpass, hmore⟩
    by_cases hconstrained : isConstrained tag value = false
    · exact .unconstrained hconstrained
    unfold isConstrained at hconstrained
    split at hconstrained
    · rename_i given
      simp only [checkTagged] at hpass
      split_ifs at hpass with hgiven
      rw [hgiven]
      exact .signer
    · simp only [checkTagged, Except.ok.injEq] at hpass
      subst hpass
      exact .vector (by simpa using hmore)
    · rw [checkTagged_struct_ok_iff] at hpass
      rcases hpass with ⟨hname, hvalid, rfl⟩ | ⟨hname, innerType, rest, rfl, hvalid, rfl⟩ |
        ⟨hname, hvalid, rfl⟩ | ⟨hname, innerTag, rest, inner, rfl, hvalid, rfl⟩ | ⟨hname, rfl⟩
      · obtain ⟨array, rest, bytes, rfl, hbytes, hutf⟩ := (validateString_ok_iff _).mp hvalid
        exact .string hname hbytes hutf
      · obtain ⟨addr, others, rfl, hcore, hcoreAt, hinner, hinnerAt⟩ :=
          (validateObject_ok_iff ..).mp hvalid
        exact .object hname hcore hcoreAt hinner hinnerAt
      · obtain ⟨others, rfl⟩ := (validateOption_ok_iff _ _).mp hvalid
        exact .optionNone hname
      · obtain ⟨others, rfl⟩ := (validateOption_ok_iff _ _).mp hvalid
        exact .optionSome hname (hmore (innerTag, inner) (by simp))
      · exact .fixedPoint hname
    · exact absurd rfl hconstrained

/-- The loop succeeds exactly when everything on its stack is safe. -/
theorem validateStack_ok_iff (stack : List (TypeTag × MoveValue)) :
    validateStack view expectedSigner stack = .ok () ↔
      ∀ tagged ∈ stack, SafeArgument view expectedSigner tagged.1 tagged.2 := by
  fun_induction validateStack view expectedSigner stack with
  | case1 => simp
  | case2 tagged rest e hpass =>
    refine ⟨nofun, fun h => ?_⟩
    obtain ⟨more, hmore, -⟩ :=
      (safeArgument_iff_checkTagged view expectedSigner _ _).mp (h tagged (by simp))
    rw [hmore] at hpass
    cases hpass
  | case3 tagged rest more hpass ih =>
    rw [ih]
    constructor
    · intro h other hother
      rcases List.mem_cons.mp hother with rfl | hrest
      · refine (safeArgument_iff_checkTagged view expectedSigner _ _).mpr ⟨more, hpass, ?_⟩
        exact fun pushed hpushed => h pushed (by simp [hpushed])
      · exact h other (by simp [hrest])
    · intro h other hother
      obtain ⟨pushed, hpushed, hsafe⟩ :=
        (safeArgument_iff_checkTagged view expectedSigner _ _).mp (h tagged (by simp))
      rw [hpass, Except.ok.injEq] at hpushed
      subst hpushed
      rcases List.mem_append.mp hother with hmore | hrest
      · exact hsafe other (List.mem_reverse.mp hmore)
      · exact h other (by simp [hrest])

/-- The value check accepts exactly the safe arguments. -/
theorem validateEntryValue_ok_iff (tag : TypeTag) (value : MoveValue) :
    validateEntryValue view expectedSigner tag value = .ok () ↔
      SafeArgument view expectedSigner tag value := by
  simp [validateEntryValue, validateStack_ok_iff]

end Values

end OpMove.TagValidation
