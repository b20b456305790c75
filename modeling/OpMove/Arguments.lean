import OpMove.TagValidation

/-!
How the arguments of entry functions and of scripts reach the Move VM. An entry
function brings serialized values, and its loop checks the type tag and the value
of each one. A script brings typed transaction arguments, which are serialized and
handed over as they are; only signer parameters are filled in by the node. What the
VM answers about types is a parameter: the parameter types of a loaded function,
the tag and the layout of a type, and which resources exist.
-/

namespace OpMove.Arguments

open Primitives MoveTypes Errors TagValidation

/-- A runtime type of the VM, up to the references that `strip_reference` looks at. -/
inductive RuntimeType (τ : Type)
  | other (ty : τ)
  | reference (inner : RuntimeType τ)
  | mutableReference (inner : RuntimeType τ)

/-- What execution asks of a session while it prepares arguments. -/
structure TypeSession (τ : Type) where
  getTypeTag : τ → Except Error TypeTag
  getTypeLayout : τ → Except Error MoveTypeLayout
  resources : ResourceView

def stripReference {τ : Type} : RuntimeType τ → Except Error τ
  | .reference (.other ty) | .mutableReference (.other ty) | .other ty => .ok ty
  | .reference _ | .mutableReference _ => .error (.invalidTransaction .unsupportedNestedReference)

/-- Layouts whose values have to be looked at. -/
def hasValueInvariants : MoveTypeLayout → Bool
  | .primitive .signer => true
  | .vector layout => hasValueInvariants layout
  | .structUntagged _ | .structWithTypes .. | .structVariants => true
  | .native layout => hasValueInvariants layout
  | .primitive _ => false

section Checks

variable {τ : Type} (session : TypeSession τ) (signer : AccountAddress)

/-- The rules for one argument: an allowed type, and a value that respects it. -/
def Obeys (ty : τ) (tag : TypeTag) (bytes : Bytes) : Prop :=
  validateEntryTypeTag tag = .ok () ∧
    ∀ layout value, session.getTypeLayout ty = .ok layout → deserialize layout bytes = some value →
      validateEntryValue session.resources signer tag value = .ok ()

/-- The rules for the argument of a parameter as the function declares it. -/
def ParameterObeys (exempt : TypeTag → Prop) (param : RuntimeType τ) (bytes : Bytes) : Prop :=
  ∃ ty tag, stripReference param = .ok ty ∧ session.getTypeTag ty = .ok tag ∧
    (exempt tag ∨ Obeys session signer ty tag bytes)

end Checks

section EntryFunctions

variable {τ : Type} (session : TypeSession τ) (signer : AccountAddress)

/-- The loop body of `execute_entry_function`. -/
def checkEntryArgument (param : RuntimeType τ) (bytes : Bytes) : Except Error Unit := do
  let ty ← stripReference param
  let tag ← session.getTypeTag ty
  validateEntryTypeTag tag
  let layout ← session.getTypeLayout ty
  if hasValueInvariants layout then
    match deserialize layout bytes with
    | none => .error (.invalidTransaction .failedArgumentDeserialization)
    | some value => validateEntryValue session.resources signer tag value
  else .ok ()

def checkEntryArguments : List (RuntimeType τ) → List Bytes → Except Error Unit
  | param :: params, bytes :: rest => do
      checkEntryArgument session signer param bytes
      checkEntryArguments params rest
  | _, _ => .ok ()

/-- The arguments `execute_entry_function` hands to the VM. -/
def entryArguments (params : List (RuntimeType τ)) (args : List Bytes) :
    Except Error (List Bytes) := do
  if params.length ≠ args.length then
    .error (.invalidTransaction .mismatchedArgumentCount)
  else
    checkEntryArguments session signer params args
    .ok args

theorem mem_of_decodeMany {one : Bytes → Option (MoveValue × Bytes)} {count : ℕ}
    {bytes rest : Bytes} {values : List MoveValue}
    (h : decodeMany one count bytes = some (values, rest)) :
    ∀ value ∈ values, ∃ before after, one before = some (value, after) := by
  induction count generalizing bytes values with
  | zero =>
    obtain ⟨rfl, -⟩ : [] = values ∧ bytes = rest := by simpa [decodeMany] using h
    simp
  | succ count ih =>
    simp only [decodeMany, Option.bind_eq_bind, Option.bind_eq_some_iff, Prod.exists,
      Option.some.injEq, Prod.mk.injEq] at h
    obtain ⟨value, middle, hone, others, tail, hmany, rfl, rfl⟩ := h
    intro other hother
    rcases List.mem_cons.mp hother with rfl | hmem
    · exact ⟨bytes, middle, hone⟩
    · exact ih hmany other hmem

theorem isConstrained_of_decodePrimitive {type : PrimitiveType} {bytes rest : Bytes}
    {value : MoveValue} (htype : type ≠ .signer)
    (h : decodePrimitive type bytes = some (value, rest)) (tag : TypeTag) :
    isConstrained tag value = false := by
  unfold decodePrimitive at h
  split_ifs at h
  cases type <;> simp at h htype
  case bool =>
    obtain ⟨-, rfl, -⟩ := h
    unfold isConstrained
    split <;> simp_all
  all_goals
    obtain ⟨rfl, -⟩ := h
    unfold isConstrained
    split <;> simp_all

/-- Values of a layout that is not looked at are safe whatever their tag is. -/
theorem safeArgument_of_not_hasValueInvariants {layout : MoveTypeLayout} {bytes rest : Bytes}
    {value : MoveValue} (hlayout : hasValueInvariants layout = false)
    (h : decodeLayout layout bytes = some (value, rest)) (tag : TypeTag) :
    SafeArgument session.resources signer tag value := by
  fun_induction hasValueInvariants layout generalizing bytes rest value tag with
  | case1 => cases hlayout
  | case2 inner ih =>
    simp only [decodeLayout, Option.bind_eq_bind, Option.bind_eq_some_iff, Prod.exists,
      Option.some.injEq, Prod.mk.injEq] at h
    obtain ⟨count, middle, -, elements, tail, hmany, rfl, rfl⟩ := h
    have hsafe : ∀ element ∈ elements, ∀ tag,
        SafeArgument session.resources signer tag element := by
      intro element hmem tag
      obtain ⟨before, after, hone⟩ := mem_of_decodeMany hmany element hmem
      exact ih hlayout hone tag
    cases tag with
    | vector innerTag => exact .vector fun element hmem => hsafe element hmem innerTag
    | primitive type => exact .unconstrained (by cases type <;> rfl)
    | struct => exact .unconstrained rfl
  | case3 => cases hlayout
  | case4 => cases hlayout
  | case5 => cases hlayout
  | case6 inner ih => exact ih hlayout h tag
  | case7 type hne =>
    exact .unconstrained (isConstrained_of_decodePrimitive (fun heq => hne heq) h tag)

theorem decodeLayout_of_deserialize {layout : MoveTypeLayout} {bytes : Bytes} {value : MoveValue}
    (h : deserialize layout bytes = some value) : decodeLayout layout bytes = some (value, []) := by
  unfold deserialize at h
  split at h <;> simp_all

theorem parameterObeys_of_checkEntryArgument {param : RuntimeType τ} {bytes : Bytes}
    (h : checkEntryArgument session signer param bytes = .ok ()) :
    ParameterObeys session signer (fun _ => False) param bytes := by
  simp only [checkEntryArgument, bind_ok_iff] at h
  obtain ⟨ty, hty, tag, htag, _, htype, layout, hlayout, hvalue⟩ := h
  refine ⟨ty, tag, hty, htag, .inr ⟨htype, fun layout' value hlayout' hdecode => ?_⟩⟩
  rw [hlayout, Except.ok.injEq] at hlayout'
  subst hlayout'
  split_ifs at hvalue with hinv
  · simpa only [hdecode] using hvalue
  · rw [validateEntryValue_ok_iff]
    exact safeArgument_of_not_hasValueInvariants session signer (Bool.not_eq_true _ ▸ hinv)
      (decodeLayout_of_deserialize hdecode) tag

/-- Every argument an entry function receives follows the rules. -/
theorem entryArguments_obey {params : List (RuntimeType τ)} {args handed : List Bytes}
    (h : entryArguments session signer params args = .ok handed) :
    List.Forall₂ (ParameterObeys session signer fun _ => False) params handed := by
  unfold entryArguments at h
  split_ifs at h with hlen
  obtain ⟨_, hcheck, hhanded⟩ := bind_ok_iff.mp h
  rw [← Except.ok.inj hhanded]
  clear h hhanded
  rw [not_not] at hlen
  induction params generalizing args with
  | nil => simp [List.length_eq_zero_iff.mp hlen.symm]
  | cons param params ih =>
    cases args with
    | nil => simp at hlen
    | cons bytes rest =>
      obtain ⟨_, hhead, htail⟩ := bind_ok_iff.mp hcheck
      exact .cons (parameterObeys_of_checkEntryArgument session signer hhead)
        (ih (by simpa using hlen) htail)

end EntryFunctions

section Scripts

variable {τ : Type} (session : TypeSession τ) (signer : AccountAddress)

inductive TransactionArgument
  | u8 (x : UInt8)
  | u64 (x : BitVec 64)
  | u128 (x : BitVec 128)
  | address (x : AccountAddress)
  | u8Vector (bytes : Bytes)
  | bool (x : Bool)
  | u16 (x : BitVec 16)
  | u32 (x : BitVec 32)
  | u256 (x : U256)
  deriving DecidableEq, Repr

def TransactionArgument.toMoveValue : TransactionArgument → MoveValue
  | .u8 x => .u8 x
  | .u64 x => .u64 x
  | .u128 x => .u128 x
  | .address x => .address x
  | .u8Vector bytes => .vector (bytes.map .u8)
  | .bool x => .bool x
  | .u16 x => .u16 x
  | .u32 x => .u32 x
  | .u256 x => .u256 x

structure Script where
  code : Bytes
  tyArgs : List TypeTag
  args : List TransactionArgument

def mustSerialize (value : MoveValue) : Except Error Bytes :=
  match simpleSerialize value with
  | some bytes => .ok bytes
  | none => .error (.invariantViolation .scriptArgsMustSerialize)

/-- The loop over the parameters of a script; the second list is what is left of the
given arguments. -/
def assembleArguments (serializedSigner : Bytes) :
    List (RuntimeType τ) → List TransactionArgument → Except Error (List Bytes)
  | [], [] => .ok []
  | [], _ :: _ => .error (.invalidTransaction .mismatchedArgumentCount)
  | param :: params, givenArgs => do
      let ty ← stripReference param
      let tag ← session.getTypeTag ty
      if tag = .primitive .signer then
        let rest ← assembleArguments serializedSigner params givenArgs
        .ok (serializedSigner :: rest)
      else
        match givenArgs with
        | [] => .error (.invalidTransaction .mismatchedArgumentCount)
        | arg :: givenArgs => do
            let serializedValue ← mustSerialize arg.toMoveValue
            let rest ← assembleArguments serializedSigner params givenArgs
            .ok (serializedValue :: rest)

/-- The arguments `execute_script` hands to `session.execute_script`. -/
def scriptArguments (loadScript : Bytes → List TypeTag → Except Error (List (RuntimeType τ)))
    (script : Script) : Except Error (List Bytes) := do
  let params ← loadScript script.code script.tyArgs
  let serializedSigner ← mustSerialize (.signer signer)
  assembleArguments session serializedSigner params script.args

/-- A parameter with its type and tag. -/
def Resolves (param : RuntimeType τ) (resolved : τ × TypeTag) : Prop :=
  stripReference param = .ok resolved.1 ∧ session.getTypeTag resolved.1 = .ok resolved.2

def Serializes (arg : TransactionArgument) (bytes : Bytes) : Prop :=
  simpleSerialize arg.toMoveValue = some bytes

/-- The parameters that take a given argument. -/
def nonSigners (resolved : List (τ × TypeTag)) : List (τ × TypeTag) :=
  resolved.filter fun p => p.2 ≠ .primitive .signer

/-- The given arguments in order, with the sender at every signer parameter. -/
def fillSigners (serializedSigner : Bytes) : List (τ × TypeTag) → List Bytes → List Bytes
  | [], _ => []
  | (_, tag) :: resolved, serialized =>
      if tag = .primitive .signer then
        serializedSigner :: fillSigners serializedSigner resolved serialized
      else serialized.head?.toList ++ fillSigners serializedSigner resolved serialized.tail

theorem mustSerialize_ok_iff (value : MoveValue) (bytes : Bytes) :
    mustSerialize value = .ok bytes ↔ simpleSerialize value = some bytes := by
  unfold mustSerialize
  split <;> simp_all

theorem assembleArguments_ok_iff (serializedSigner : Bytes) (params : List (RuntimeType τ))
    (givenArgs : List TransactionArgument) (args : List Bytes) :
    assembleArguments session serializedSigner params givenArgs = .ok args ↔
      ∃ resolved serialized, List.Forall₂ (Resolves session) params resolved ∧
        List.Forall₂ Serializes givenArgs serialized ∧
        (nonSigners resolved).length = serialized.length ∧
        args = fillSigners serializedSigner resolved serialized := by
  induction params generalizing givenArgs args with
  | nil =>
    cases givenArgs with
    | nil => simp [assembleArguments, fillSigners, nonSigners, eq_comm]
    | cons arg rest =>
      simp only [assembleArguments, reduceCtorEq, false_iff]
      rintro ⟨resolved, serialized, hres, hser, hlen, -⟩
      cases hres
      cases hser
      simp [nonSigners] at hlen
  | cons param params ih =>
    simp only [assembleArguments, bind_ok_iff]
    constructor
    · rintro ⟨ty, hty, tag, htag, h⟩
      split_ifs at h with hsigner
      · obtain ⟨rest, hrest, hargs⟩ := bind_ok_iff.mp h
        obtain ⟨resolved, serialized, hres, hser, hlen, rfl⟩ := (ih _ _).mp hrest
        refine ⟨(ty, tag) :: resolved, serialized, .cons ⟨hty, htag⟩ hres, hser, ?_, ?_⟩
        · simpa [nonSigners, hsigner] using hlen
        · simp [fillSigners, hsigner, ← Except.ok.inj hargs]
      · cases givenArgs with
        | nil => cases h
        | cons arg givenArgs =>
          simp only [bind_ok_iff, mustSerialize_ok_iff] at h
          obtain ⟨bytes, hbytes, rest, hrest, hargs⟩ := h
          obtain ⟨resolved, serialized, hres, hser, hlen, rfl⟩ := (ih _ _).mp hrest
          refine ⟨(ty, tag) :: resolved, bytes :: serialized, .cons ⟨hty, htag⟩ hres,
            .cons hbytes hser, ?_, ?_⟩
          · simpa [nonSigners, hsigner] using hlen
          · simp [fillSigners, hsigner, ← Except.ok.inj hargs]
    · rintro ⟨resolved, serialized, hres, hser, hlen, rfl⟩
      obtain ⟨⟨ty, tag⟩, resolved, ⟨hty, htag⟩, hrest, rfl⟩ := List.forall₂_cons_left_iff.mp hres
      refine ⟨ty, hty, tag, htag, ?_⟩
      split_ifs with hsigner
      · have hlen' : (nonSigners resolved).length = serialized.length := by
          simpa [nonSigners, hsigner] using hlen
        rw [bind_ok_iff]
        refine ⟨_, (ih _ _).mpr ⟨resolved, serialized, hrest, hser, hlen', rfl⟩, ?_⟩
        simp [fillSigners, hsigner]
      · cases hser with
        | nil => simp [nonSigners, hsigner] at hlen
        | @cons arg bytes givenArgs serialized hbytes hser =>
          have hlen' : (nonSigners resolved).length = serialized.length := by
            simpa [nonSigners, hsigner] using hlen
          simp only [bind_ok_iff, mustSerialize_ok_iff]
          refine ⟨bytes, hbytes, _, (ih _ _).mpr ⟨resolved, serialized, hrest, hser, hlen', rfl⟩, ?_⟩
          simp [fillSigners, hsigner]

/-- The rules for all parameters come down to the rules for those that take an argument. -/
theorem forall₂_fillSigners_iff {serializedSigner : Bytes} {params : List (RuntimeType τ)}
    {resolved : List (τ × TypeTag)} {serialized : List Bytes}
    (hres : List.Forall₂ (Resolves session) params resolved)
    (hlen : (nonSigners resolved).length = serialized.length) :
    List.Forall₂ (ParameterObeys session signer (· = .primitive .signer)) params
        (fillSigners serializedSigner resolved serialized) ↔
      List.Forall₂ (fun p bytes => Obeys session signer p.1 p.2 bytes)
        (nonSigners resolved) serialized := by
  induction hres generalizing serialized with
  | nil =>
    have hnil : serialized = [] := List.length_eq_zero_iff.mp hlen.symm
    simp [hnil, fillSigners, nonSigners]
  | @cons param p params resolved hp hres ih =>
    obtain ⟨ty, tag⟩ := p
    have hparam : ∀ bytes, ParameterObeys session signer (· = .primitive .signer) param bytes ↔
        (tag = .primitive .signer ∨ Obeys session signer ty tag bytes) := by
      intro bytes
      constructor
      · rintro ⟨ty', tag', hty, htag, h⟩
        rw [hp.1, Except.ok.injEq] at hty
        subst hty
        rw [hp.2, Except.ok.injEq] at htag
        subst htag
        exact h
      · exact fun h => ⟨ty, tag, hp.1, hp.2, h⟩
    by_cases hsigner : tag = .primitive .signer
    · have hlen' : (nonSigners resolved).length = serialized.length := by
        simpa [nonSigners, hsigner] using hlen
      have hrest := ih hlen'
      simp only [fillSigners, hsigner, if_true, List.forall₂_cons, hparam, true_or, true_and, hrest]
      simp [nonSigners]
    · cases serialized with
      | nil => simp [nonSigners, hsigner] at hlen
      | cons bytes serialized =>
        have hlen' : (nonSigners resolved).length = serialized.length := by
          simpa [nonSigners, hsigner] using hlen
        have hrest := ih hlen'
        have hfilter : nonSigners ((ty, tag) :: resolved) = (ty, tag) :: nonSigners resolved := by
          simp [nonSigners, hsigner]
        simp only [fillSigners, hsigner, if_false, List.head?_cons, Option.toList_some,
          List.tail_cons, List.singleton_append, List.forall₂_cons, hparam, false_or, hrest, hfilter]

variable (loadScript : Bytes → List TypeTag → Except Error (List (RuntimeType τ)))

/-- Script arguments follow the rules of entry-function arguments. -/
def ScriptObeys (script : Script) : Prop :=
  ∀ params args, loadScript script.code script.tyArgs = .ok params →
    scriptArguments session signer loadScript script = .ok args →
    List.Forall₂ (ParameterObeys session signer (· = .primitive .signer)) params args

/-- The given arguments fit the parameters they are matched with: if the counts
agree and all of them can be serialized, each one meets a type of the entry grammar and, where its
bytes are a value of that type, a safe value. -/
def ArgumentsFit (script : Script) : Prop :=
  ∀ params resolved serialized, loadScript script.code script.tyArgs = .ok params →
    List.Forall₂ (Resolves session) params resolved →
    List.Forall₂ Serializes script.args serialized →
    (nonSigners resolved).length = serialized.length →
    List.Forall₂ (fun p bytes => EntryType p.2 ∧
        ∀ layout value, session.getTypeLayout p.1 = .ok layout →
          deserialize layout bytes = some value →
          SafeArgument session.resources signer p.2 value)
      (nonSigners resolved) serialized

/-- `execute_script` checks nothing itself: its arguments follow the rules exactly when
the caller chose ones that do. -/
theorem scriptObeys_iff_argumentsFit (script : Script) :
    ScriptObeys session signer loadScript script ↔
      ArgumentsFit session signer loadScript script := by
  have hobeys : ∀ (p : τ × TypeTag) (bytes : Bytes),
      Obeys session signer p.1 p.2 bytes ↔ (EntryType p.2 ∧
        ∀ layout value, session.getTypeLayout p.1 = .ok layout →
          deserialize layout bytes = some value →
          SafeArgument session.resources signer p.2 value) := by
    intro p bytes
    simp only [Obeys, validateEntryTypeTag_ok_iff, validateEntryValue_ok_iff]
  obtain ⟨serializedSigner, hsigner⟩ :
      ∃ bytes, mustSerialize (.signer signer) = .ok bytes := ⟨_, rfl⟩
  constructor
  · intro h params resolved serialized hload hres hser hlen
    have hargs : scriptArguments session signer loadScript script =
        .ok (fillSigners serializedSigner resolved serialized) := by
      simp only [scriptArguments, bind_ok_iff]
      exact ⟨params, hload, serializedSigner, hsigner,
        (assembleArguments_ok_iff ..).mpr ⟨resolved, serialized, hres, hser, hlen, rfl⟩⟩
    have hall := (forall₂_fillSigners_iff session signer hres hlen).mp (h params _ hload hargs)
    exact hall.imp fun p bytes hp => (hobeys p bytes).mp hp
  · intro h params args hload hargs
    simp only [scriptArguments, bind_ok_iff] at hargs
    obtain ⟨params', hload', signerBytes, -, hassemble⟩ := hargs
    rw [hload, Except.ok.injEq] at hload'
    subst hload'
    obtain ⟨resolved, serialized, hres, hser, hlen, rfl⟩ :=
      (assembleArguments_ok_iff ..).mp hassemble
    rw [forall₂_fillSigners_iff session signer hres hlen]
    exact (h params resolved serialized hload hres hser hlen).imp
      fun p bytes hp => (hobeys p bytes).mpr hp

end Scripts

section MintRefs

def objectLayout : MoveTypeLayout := .structUntagged [.primitive .address]

def mintRefTag : TypeTag := .struct 1 "fungible_asset_u256" "MintRef" []

/-- A session that knows `MintRef`, whose only content is the address of an object. -/
def mintRefSession : TypeSession Unit where
  getTypeTag _ := .ok mintRefTag
  getTypeLayout _ := .ok (.structUntagged [objectLayout])
  resources := ⟨fun _ => true, fun _ _ => true⟩

/-- A script with one parameter of type `&MintRef`. -/
def loadMintScript (_ : Bytes) (_ : List TypeTag) : Except Error (List (RuntimeType Unit)) :=
  .ok [.reference (.other ())]

def mintScript : Script := ⟨[], [], [.address 0xfa]⟩

theorem script_forges_mintRef :
    (∃ bytes, scriptArguments mintRefSession 7 loadMintScript mintScript = .ok [bytes] ∧
      deserialize (.structUntagged [objectLayout]) bytes =
        some (.struct [.struct [.address 0xfa]])) ∧
    ¬ ScriptObeys mintRefSession 7 loadMintScript mintScript := by
  have hargs : scriptArguments mintRefSession 7 loadMintScript mintScript =
      .ok [(leBytes 32 0xfa).reverse] := rfl
  refine ⟨⟨_, hargs, by rfl⟩, fun h => ?_⟩
  obtain ⟨ty, tag, -, htag, hexempt⟩ := (List.forall₂_cons.mp (h _ _ rfl hargs)).1
  rw [← Except.ok.inj htag] at hexempt
  rcases hexempt with hsigner | ⟨htype, -⟩
  · revert hsigner
    decide
  · revert htype
    decide

end MintRefs

end OpMove.Arguments
