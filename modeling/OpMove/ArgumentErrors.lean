import OpMove.Canonical

/-!
What the checks of arguments can fail with. A transaction with a user error gets a receipt and
one that is invalid is dropped, while any other error stops the node. The checks rely on the
Move VM for types whose layout is the one their tag says; then none of their invariants is
violated, whatever bytes a user has sent.
-/

namespace OpMove.ArgumentErrors

open Primitives MoveTypes Errors TagValidation Arguments Canonical

section Kinds

/-- The errors that execution handles. -/
def isHandled : Error → Bool
  | .user _ | .invalidTransaction _ => true
  | .invariantViolation _ | .panicked => false

/-- The check accepts, or refuses the transaction. -/
def Refuses {α : Type} (result : Except Error α) : Prop :=
  (∃ a, result = .ok a) ∨ ∃ cause, result = .error (.invalidTransaction cause)

theorem refuses_ok {α : Type} (a : α) : Refuses (.ok a : Except Error α) := .inl ⟨a, rfl⟩

theorem refuses_invalid {α : Type} (cause : InvalidTransactionCause) :
    Refuses (.error (.invalidTransaction cause) : Except Error α) := .inr ⟨cause, rfl⟩

end Kinds

section Types

/-- The layout of a type is the one its tag says, as far as the framework's own types go, and
the types an object is about can be loaded. -/
inductive Describes (view : ResourceView) : TypeTag → MoveTypeLayout → Prop
  | primitive (type : PrimitiveType) : Describes view (.primitive type) (.primitive type)
  | vector {inner : TypeTag} {layout : MoveTypeLayout} :
      Describes view inner layout → Describes view (.vector inner) (.vector layout)
  | string : Describes view (.struct 1 "string" "String" [])
      (.structUntagged [.vector (.primitive .u8)])
  | object {inner : TypeTag} : view.loadType objectCoreTag = true → view.loadType inner = true →
      Describes view (.struct 1 "object" "Object" [inner]) (.structUntagged [.primitive .address])
  | option {inner : TypeTag} {layout : MoveTypeLayout} : Describes view inner layout →
      Describes view (.struct 1 "option" "Option" [inner]) (.structUntagged [.vector layout])
  | fixedPoint32 : Describes view (.struct 1 "fixed_point32" "FixedPoint32" [])
      (.structUntagged [.primitive .u64])
  | fixedPoint64 : Describes view (.struct 1 "fixed_point64" "FixedPoint64" [])
      (.structUntagged [.primitive .u128])
  | other {address : AccountAddress} {moduleName name : String} {typeArgs : List TypeTag}
      {layout : MoveTypeLayout} : ⟨address, moduleName, name⟩ ∉ allowedStructs →
      Describes view (.struct address moduleName name typeArgs) layout

variable {view : ResourceView} {signer : AccountAddress}

theorem validateTagFrom_refuses (whole : TypeTag) {tag : TypeTag} {layout : MoveTypeLayout}
    (h : Describes view tag layout) : Refuses (validateTagFrom whole tag) := by
  induction h with
  | primitive type => exact refuses_ok ()
  | vector _ ih =>
    rw [validateTagFrom]
    exact ih
  | string => exact refuses_ok ()
  | object _ _ => exact refuses_ok ()
  | option _ ih =>
    have hallowed : (⟨1, "option", "Option"⟩ : MoveStructInfo) ∈ allowedStructs := by decide
    rw [validateTagFrom, if_pos hallowed, if_pos optionInfo_name.symm]
    exact ih
  | fixedPoint32 => exact refuses_ok ()
  | fixedPoint64 => exact refuses_ok ()
  | @other address moduleName name typeArgs layout hother =>
    rcases typeArgs with _ | ⟨first, _ | ⟨second, rest⟩⟩ <;>
      rw [validateTagFrom, if_neg hother] <;> exact refuses_invalid _

/-- A tagged value as the bytes of an argument give it. -/
def Shaped (view : ResourceView) (tagged : TypeTag × MoveValue) : Prop :=
  ∃ layout bytes rest, EntryType tagged.1 ∧ Describes view tagged.1 layout ∧
    decodeLayout layout bytes = some (tagged.2, rest)

/-- The values of a decoded vector. -/
theorem vector_of_decodeLayout {layout : MoveTypeLayout} {bytes rest : Bytes} {value : MoveValue}
    (h : decodeLayout (.vector layout) bytes = some (value, rest)) :
    ∃ elements, value = .vector elements ∧ ∀ element ∈ elements, ∃ before after,
      decodeLayout layout before = some (element, after) := by
  simp only [decodeLayout, Option.bind_eq_bind, Option.bind_eq_some_iff, Prod.exists,
    Option.some.injEq, Prod.mk.injEq] at h
  obtain ⟨count, middle, -, elements, tail, hmany, rfl, rfl⟩ := h
  exact ⟨elements, rfl, mem_of_decodeMany hmany⟩

/-- A struct of one field. -/
theorem field_of_decodeLayout {layout : MoveTypeLayout} {bytes rest : Bytes} {value : MoveValue}
    (h : decodeLayout (.structUntagged [layout]) bytes = some (value, rest)) :
    ∃ field before after, value = .struct [field] ∧
      decodeLayout layout before = some (field, after) := by
  simp only [decodeLayout, decodeFields, Option.bind_eq_bind, Option.bind_eq_some_iff, Prod.exists,
    Option.some.injEq, Prod.mk.injEq] at h
  obtain ⟨values, tail, ⟨field, middle, hfield, others, final, ⟨rfl, rfl⟩, rfl, rfl⟩, rfl, rfl⟩ := h
  exact ⟨field, bytes, middle, rfl, hfield⟩

theorem u8_of_decodeLayout {bytes rest : Bytes} {value : MoveValue}
    (h : decodeLayout (.primitive .u8) bytes = some (value, rest)) : ∃ byte, value = .u8 byte := by
  simp only [decodeLayout, decodePrimitive] at h
  split_ifs at h
  obtain ⟨rfl, -⟩ := Prod.mk.inj (Option.some.inj h)
  exact ⟨_, rfl⟩

theorem address_of_decodeLayout {bytes rest : Bytes} {value : MoveValue}
    (h : decodeLayout (.primitive .address) bytes = some (value, rest)) :
    ∃ account, value = .address account := by
  simp only [decodeLayout, decodePrimitive] at h
  split_ifs at h
  obtain ⟨rfl, -⟩ := Prod.mk.inj (Option.some.inj h)
  exact ⟨_, rfl⟩

theorem stringBytes_of_u8 {elements : List MoveValue}
    (h : ∀ element ∈ elements, ∃ byte, element = .u8 byte) :
    ∃ bytes, stringBytes elements = some bytes := by
  induction elements with
  | nil => exact ⟨[], rfl⟩
  | cons element elements ih =>
    obtain ⟨byte, rfl⟩ := h element List.mem_cons_self
    obtain ⟨bytes, hbytes⟩ := ih fun other hother => h other (List.mem_cons_of_mem _ hother)
    exact ⟨byte :: bytes, by simp [stringBytes, hbytes]⟩

end Types

section Values

variable {view : ResourceView} {signer : AccountAddress}

/-- A pass of the loop refuses the transaction or leaves values of their types. -/
def Continues (view : ResourceView)
    (result : Except Error (List (TypeTag × MoveValue))) : Prop :=
  (∃ more, result = .ok more ∧ ∀ tagged ∈ more, Shaped view tagged) ∨
    ∃ cause, result = .error (.invalidTransaction cause)

theorem continues_nil : Continues view (.ok []) := .inl ⟨[], rfl, by simp⟩

theorem continues_invalid (cause : InvalidTransactionCause) :
    Continues view (.error (.invalidTransaction cause)) := .inr ⟨cause, rfl⟩

theorem checkTagged_primitive (type : PrimitiveType) (value : MoveValue) :
    Continues view (checkTagged view signer (.primitive type, value)) := by
  by_cases hconstrained : isConstrained (.primitive type) value = false
  · rw [checkTagged_unconstrained view signer hconstrained]
    exact continues_nil
  · -- only the signer is checked
    unfold isConstrained at hconstrained
    split at hconstrained
    · rename_i htype
      cases htype
      simp only [checkTagged]
      split_ifs
      · exact continues_nil
      · exact continues_invalid _
    · rename_i htype
      cases htype
    · rename_i htype
      cases htype
    · exact absurd rfl hconstrained

theorem checkTagged_string {elements : List MoveValue}
    (h : ∀ element ∈ elements, ∃ byte, element = .u8 byte) :
    Continues view (checkTagged view signer
      (.struct 1 "string" "String" [], .struct [.vector elements])) := by
  obtain ⟨bytes, hbytes⟩ := stringBytes_of_u8 h
  simp only [checkTagged, stringInfo_name, if_true, validateString, hbytes]
  split_ifs
  · exact continues_nil
  · exact continues_invalid _

theorem checkTagged_object {inner : TypeTag} {account : AccountAddress}
    (hcore : view.loadType objectCoreTag = true) (hinner : view.loadType inner = true) :
    Continues view (checkTagged view signer
      (.struct 1 "object" "Object" [inner], .struct [.address account])) := by
  have hname : ("Object" = stringInfo.name) = False := by simp
  simp only [checkTagged, hname, objectInfo_name, if_true, if_false, validateObject, hcore, hinner,
    Bool.not_true, Bool.false_eq_true]
  split_ifs
  · exact continues_invalid _
  · exact continues_invalid _
  · exact continues_nil

theorem checkTagged_option {inner : TypeTag} {elements : List MoveValue}
    (h : ∀ element ∈ elements, Shaped view (inner, element)) :
    Continues view (checkTagged view signer
      (.struct 1 "option" "Option" [inner], .struct [.vector elements])) := by
  have hstring : ("Option" = stringInfo.name) = False := by simp
  have hobject : ("Option" = objectInfo.name) = False := by simp
  simp only [checkTagged, hstring, hobject, optionInfo_name, if_true, if_false]
  rcases elements with _ | ⟨first, _ | ⟨second, rest⟩⟩
  · exact continues_nil
  · refine .inl ⟨[(inner, first)], rfl, ?_⟩
    intro tagged htagged
    rw [List.mem_singleton.mp htagged]
    exact h first List.mem_cons_self
  · exact continues_invalid _

theorem checkTagged_continues {tagged : TypeTag × MoveValue} (h : Shaped view tagged) :
    Continues view (checkTagged view signer tagged) := by
  obtain ⟨tag, value⟩ := tagged
  obtain ⟨layout, bytes, rest, hentry, hdescribes, hdecode⟩ := h
  dsimp only at hentry hdescribes hdecode
  cases hdescribes with
  | primitive type => exact checkTagged_primitive type value
  | vector hinner =>
    obtain ⟨elements, rfl, helements⟩ := vector_of_decodeLayout hdecode
    refine .inl ⟨_, rfl, ?_⟩
    intro other hother
    obtain ⟨element, hmem, rfl⟩ := List.mem_map.mp hother
    obtain ⟨before, after, helement⟩ := helements element hmem
    cases hentry with
    | vector hentry => exact ⟨_, before, after, hentry, hinner, helement⟩
  | string =>
    obtain ⟨field, before, after, rfl, hfield⟩ := field_of_decodeLayout hdecode
    obtain ⟨elements, rfl, helements⟩ := vector_of_decodeLayout hfield
    refine checkTagged_string fun element hmem => ?_
    obtain ⟨start, final, helement⟩ := helements element hmem
    exact u8_of_decodeLayout helement
  | object hcore hinner =>
    obtain ⟨field, before, after, rfl, hfield⟩ := field_of_decodeLayout hdecode
    obtain ⟨account, rfl⟩ := address_of_decodeLayout hfield
    exact checkTagged_object hcore hinner
  | option hinner =>
    obtain ⟨field, before, after, rfl, hfield⟩ := field_of_decodeLayout hdecode
    obtain ⟨elements, rfl, helements⟩ := vector_of_decodeLayout hfield
    refine checkTagged_option fun element hmem => ?_
    obtain ⟨start, final, helement⟩ := helements element hmem
    cases hentry with
    | option _ _ hentry => exact ⟨_, start, final, hentry, hinner, helement⟩
    | phantom _ _ hne => exact absurd optionInfo_name.symm hne
  | fixedPoint32 =>
    obtain ⟨field, before, after, rfl, -⟩ := field_of_decodeLayout hdecode
    exact continues_nil
  | fixedPoint64 =>
    obtain ⟨field, before, after, rfl, -⟩ := field_of_decodeLayout hdecode
    exact continues_nil
  | other hother =>
    exfalso
    cases hentry with
    | plain hallowed => exact hother hallowed
    | option hallowed _ _ => exact hother hallowed
    | phantom _ hallowed _ => exact hother hallowed

/-- The loop over the stack, whatever the depth of the value. -/
theorem validateStack_refuses (stack : List (TypeTag × MoveValue))
    (h : ∀ tagged ∈ stack, Shaped view tagged) : Refuses (validateStack view signer stack) := by
  fun_induction validateStack view signer stack with
  | case1 => exact refuses_ok ()
  | case2 tagged rest e hpass =>
    rcases checkTagged_continues (h tagged List.mem_cons_self) with ⟨more, hmore, -⟩ | ⟨cause, hcause⟩
    · rw [hpass] at hmore
      cases hmore
    · rw [hpass, Except.error.injEq] at hcause
      rw [hcause]
      exact refuses_invalid cause
  | case3 tagged rest more hpass ih =>
    apply ih
    intro other hother
    rcases List.mem_append.mp hother with hmem | hmem
    · rcases checkTagged_continues (h tagged List.mem_cons_self) with ⟨found, hfound, hshaped⟩ |
        ⟨cause, hcause⟩
      · rw [hpass, Except.ok.injEq] at hfound
        rw [hfound] at hmem
        exact hshaped other (List.mem_reverse.mp hmem)
      · rw [hpass] at hcause
        cases hcause
    · exact h other (List.mem_cons_of_mem tagged hmem)

end Values

section Arguments

variable {τ : Type} {session : TypeSession τ} {signer : AccountAddress}

/-- The VM fails with errors of its own only. -/
def FailsAsUser {α : Type} (result : Except Error α) : Prop :=
  ∀ e, result = .error e → ∃ cause, e = .user cause

/-- What the VM answers about a type of a loaded function. -/
structure SoundType (session : TypeSession τ) (ty : τ) : Prop where
  tag : FailsAsUser (session.getTypeTag ty)
  layout : FailsAsUser (session.getTypeLayout ty)
  describes : ∀ tag, session.getTypeTag ty = .ok tag → ∃ layout,
    Describes session.resources tag layout ∧
      ∀ found, session.getTypeLayout ty = .ok found → found = layout

def SoundParameter (session : TypeSession τ) (param : RuntimeType τ) : Prop :=
  ∀ ty, stripReference param = .ok ty → SoundType session ty

/-- The errors of a computation are all handled. -/
def Handled {α : Type} (result : Except Error α) : Prop :=
  ∀ e, result = .error e → isHandled e = true

theorem handled_ok {α : Type} (a : α) : Handled (.ok a : Except Error α) := fun _ h => by cases h

theorem handled_invalid {α : Type} (cause : InvalidTransactionCause) :
    Handled (.error (.invalidTransaction cause) : Except Error α) := by
  intro e h
  rw [← Except.error.inj h]
  rfl

theorem Refuses.handled {α : Type} {result : Except Error α} (h : Refuses result) :
    Handled result := by
  rcases h with ⟨a, rfl⟩ | ⟨cause, rfl⟩
  · exact handled_ok a
  · exact handled_invalid cause

theorem FailsAsUser.handled {α : Type} {result : Except Error α} (h : FailsAsUser result) :
    Handled result := by
  intro e he
  obtain ⟨cause, rfl⟩ := h e he
  rfl

/-- Errors come from the first computation or from what follows its result. -/
theorem Handled.bind {α β : Type} {x : Except Error α} {f : α → Except Error β} (hx : Handled x)
    (hf : ∀ a, x = .ok a → Handled (f a)) : Handled (x >>= f) := by
  cases x with
  | error e =>
    intro e' he
    rw [← Except.error.inj he]
    exact hx e rfl
  | ok a => exact hf a rfl

theorem stripReference_handled (param : RuntimeType τ) : Handled (stripReference param) := by
  unfold stripReference
  split
  · exact handled_ok _
  · exact handled_ok _
  · exact handled_ok _
  · exact handled_invalid _
  · exact handled_invalid _

theorem checkEntryArgument_handled {param : RuntimeType τ} (h : SoundParameter session param)
    (bytes : Bytes) : Handled (checkEntryArgument session signer param bytes) := by
  refine Handled.bind (stripReference_handled param) fun ty hty => ?_
  have hsound := h ty hty
  refine Handled.bind hsound.tag.handled fun tag htag => ?_
  obtain ⟨layout, hdescribes, hlayout⟩ := hsound.describes tag htag
  refine Handled.bind (validateTagFrom_refuses tag hdescribes).handled fun _ htype => ?_
  have hentry : EntryType tag := (validateEntryTypeTag_ok_iff tag).mp htype
  refine Handled.bind hsound.layout.handled fun found hfound => ?_
  obtain rfl := hlayout found hfound
  split_ifs
  · split
    · exact handled_invalid _
    · rename_i value hvalue
      refine (validateStack_refuses _ fun tagged htagged => ?_).handled
      rw [List.mem_singleton.mp htagged]
      exact ⟨found, bytes, [], hentry, hdescribes, decodeLayout_of_deserialize hvalue⟩
  · exact handled_ok _

/-- Whatever bytes an entry function is called with, the checks do not stop the node. -/
theorem entryArguments_handled {params : List (RuntimeType τ)}
    (h : ∀ param ∈ params, SoundParameter session param) (args : List Bytes) :
    Handled (entryArguments session signer params args) := by
  have hcheck : ∀ args, Handled (checkEntryArguments session signer params args) := by
    induction params with
    | nil => exact fun _ => handled_ok _
    | cons param params ih =>
      intro args
      cases args with
      | nil => exact handled_ok _
      | cons bytes rest =>
        refine Handled.bind (checkEntryArgument_handled (h param List.mem_cons_self) bytes) ?_
        exact fun _ _ => ih (fun other hother => h other (List.mem_cons_of_mem param hother)) rest
  unfold entryArguments
  split_ifs
  · exact handled_invalid _
  · exact Handled.bind (hcheck args) fun _ _ => handled_ok _

/-- A byte vector of a script argument that BCS accepts. -/
def ArgumentFits : TransactionArgument → Prop
  | .u8Vector bytes => bytes.length ≤ maxSequenceLength
  | _ => True

theorem serializeAll_u8 (bytes : Bytes) :
    ∃ body, serializeAll (bytes.map MoveValue.u8) = some body := by
  induction bytes with
  | nil => exact ⟨[], by simp [serializeAll]⟩
  | cons byte bytes ih =>
    obtain ⟨body, hbody⟩ := ih
    exact ⟨byte :: body, by simp [serializeAll, simpleSerialize, hbody]⟩

theorem mustSerialize_of_fits {arg : TransactionArgument} (h : ArgumentFits arg) :
    ∃ bytes, mustSerialize arg.toMoveValue = .ok bytes := by
  cases arg with
  | u8Vector bytes =>
    obtain ⟨body, hbody⟩ := serializeAll_u8 bytes
    have hlength : bytes.length ≤ maxSequenceLength := h
    refine ⟨ulebBytes 5 bytes.length ++ body, ?_⟩
    rw [mustSerialize_ok_iff]
    simp only [TransactionArgument.toMoveValue, simpleSerialize, hbody, Option.bind_eq_bind,
      Option.bind_some, List.length_map, if_pos hlength]
  | u8 x => exact ⟨_, rfl⟩
  | u64 x => exact ⟨_, rfl⟩
  | u128 x => exact ⟨_, rfl⟩
  | address x => exact ⟨_, rfl⟩
  | bool x => exact ⟨_, rfl⟩
  | u16 x => exact ⟨_, rfl⟩
  | u32 x => exact ⟨_, rfl⟩
  | u256 x => exact ⟨_, rfl⟩

theorem assembleArguments_handled {params : List (RuntimeType τ)}
    (htags : ∀ param ∈ params, ∀ ty, stripReference param = .ok ty →
      FailsAsUser (session.getTypeTag ty)) (serializedSigner : Bytes)
    {args : List TransactionArgument} (hargs : ∀ arg ∈ args, ArgumentFits arg) :
    Handled (assembleArguments session serializedSigner params args) := by
  induction params generalizing args with
  | nil =>
    cases args with
    | nil => exact handled_ok _
    | cons arg args => exact handled_invalid _
  | cons param params ih =>
    have hrest := fun (args : List TransactionArgument) (hargs : ∀ arg ∈ args, ArgumentFits arg) =>
      ih (fun other hother => htags other (List.mem_cons_of_mem param hother)) hargs
    refine Handled.bind (stripReference_handled param) fun ty hty => ?_
    refine Handled.bind (htags param List.mem_cons_self ty hty).handled fun tag _ => ?_
    split_ifs
    · exact Handled.bind (hrest args hargs) fun _ _ => handled_ok _
    · cases args with
      | nil => exact handled_invalid _
      | cons arg args =>
        obtain ⟨bytes, hbytes⟩ := mustSerialize_of_fits (hargs arg List.mem_cons_self)
        have htail := hrest args fun other hother => hargs other (List.mem_cons_of_mem arg hother)
        dsimp only
        rw [hbytes]
        exact Handled.bind (handled_ok bytes) fun _ _ =>
          Handled.bind htail fun _ _ => handled_ok _

theorem scriptArguments_handled {loadScript : Bytes → List TypeTag →
      Except Error (List (RuntimeType τ))} {script : Script}
    (hload : FailsAsUser (loadScript script.code script.tyArgs))
    (htags : ∀ params, loadScript script.code script.tyArgs = .ok params → ∀ param ∈ params,
      ∀ ty, stripReference param = .ok ty → FailsAsUser (session.getTypeTag ty))
    (hargs : ∀ arg ∈ script.args, ArgumentFits arg) :
    Handled (scriptArguments session signer loadScript script) := by
  refine Handled.bind hload.handled fun params hparams => ?_
  exact assembleArguments_handled (htags params hparams) _ hargs

end Arguments

end OpMove.ArgumentErrors
