import OpMove.ArgumentErrors
import OpMove.FailedTransactions

/-!
The argument checks against what they are for. For entry functions a type grammar and a recursive
predicate on values say which arguments are safe; the three functions of the source accept exactly
those, for every type whose layout is the one its tag says. For scripts, the loop that draws on the
given arguments gives every parameter its own one.
-/

namespace OpMove.CheckedArguments

open Primitives MoveTypes Errors TagValidation Arguments ArgumentErrors
open FailingActions Sessions Canonical

section EntryFunctions

/-- The types of arguments, named by address, module and name, with the arity they are declared
with. -/
inductive InGrammar : TypeTag → Prop
  | primitive (type : PrimitiveType) : InGrammar (.primitive type)
  | vector {inner : TypeTag} : InGrammar inner → InGrammar (.vector inner)
  | option {inner : TypeTag} : InGrammar inner → InGrammar (.struct 1 "option" "Option" [inner])
  | string : InGrammar (.struct 1 "string" "String" [])
  | object (inner : TypeTag) : InGrammar (.struct 1 "object" "Object" [inner])
  | fixedPoint32 : InGrammar (.struct 1 "fixed_point32" "FixedPoint32" [])
  | fixedPoint64 : InGrammar (.struct 1 "fixed_point64" "FixedPoint64" [])

/-- The values that may be passed for such a type. -/
inductive Safe (view : ResourceView) (expectedSigner : AccountAddress) :
    TypeTag → MoveValue → Prop
  | signer : Safe view expectedSigner (.primitive .signer) (.signer expectedSigner)
  | primitive {type : PrimitiveType} {value : MoveValue} :
      type ≠ .signer → Safe view expectedSigner (.primitive type) value
  | vector {inner : TypeTag} {array : List MoveValue} :
      (∀ value ∈ array, Safe view expectedSigner inner value) →
      Safe view expectedSigner (.vector inner) (.vector array)
  | string {array : List MoveValue} {bytes : Bytes} :
      stringBytes array = some bytes → isUtf8 bytes = true →
      Safe view expectedSigner (.struct 1 "string" "String" []) (.struct [.vector array])
  | optionNone {inner : TypeTag} :
      Safe view expectedSigner (.struct 1 "option" "Option" [inner]) (.struct [.vector []])
  | optionSome {inner : TypeTag} {value : MoveValue} : Safe view expectedSigner inner value →
      Safe view expectedSigner (.struct 1 "option" "Option" [inner]) (.struct [.vector [value]])
  | object {inner : TypeTag} {account : AccountAddress} :
      view.resourceExists account objectCoreTag = true →
      view.resourceExists account inner = true →
      Safe view expectedSigner (.struct 1 "object" "Object" [inner]) (.struct [.address account])
  | fixedPoint32 {fields : List MoveValue} :
      Safe view expectedSigner (.struct 1 "fixed_point32" "FixedPoint32" []) (.struct fields)
  | fixedPoint64 {fields : List MoveValue} :
      Safe view expectedSigner (.struct 1 "fixed_point64" "FixedPoint64" []) (.struct fields)

variable {view : ResourceView} {signer : AccountAddress}

theorem InGrammar.of_option {tag inner : TypeTag} (h : InGrammar tag)
    (heq : tag = .struct 1 "option" "Option" [inner]) : InGrammar inner := by
  cases h with
  | option hinner =>
    simp only [TypeTag.struct.injEq, List.cons.injEq, and_true, true_and] at heq
    exact heq ▸ hinner
  | primitive type => simp at heq
  | vector hinner => simp at heq
  | string => simp at heq
  | object inner => simp at heq
  | fixedPoint32 => simp at heq
  | fixedPoint64 => simp at heq

theorem Safe.of_option {tag inner : TypeTag} {array : List MoveValue}
    (h : Safe view signer tag (.struct [.vector array]))
    (heq : tag = .struct 1 "option" "Option" [inner]) :
    array = [] ∨ ∃ value, array = [value] ∧ Safe view signer inner value := by
  cases h with
  | optionNone => exact .inl rfl
  | @optionSome inner' value hvalue =>
    simp only [TypeTag.struct.injEq, List.cons.injEq, and_true, true_and] at heq
    exact .inr ⟨value, rfl, heq ▸ hvalue⟩
  | primitive hne => simp at heq
  | string _ _ => simp at heq
  | fixedPoint32 => simp at heq
  | fixedPoint64 => simp at heq

theorem Safe.of_string {tag : TypeTag} {array : List MoveValue}
    (h : Safe view signer tag (.struct [.vector array]))
    (heq : tag = .struct 1 "string" "String" []) :
    ∃ bytes, stringBytes array = some bytes ∧ isUtf8 bytes = true := by
  cases h with
  | string hbytes hutf => exact ⟨_, hbytes, hutf⟩
  | primitive hne => simp at heq
  | optionNone => simp at heq
  | optionSome _ => simp at heq
  | fixedPoint32 => simp at heq
  | fixedPoint64 => simp at heq

theorem Safe.of_object {tag inner : TypeTag} {account : AccountAddress}
    (h : Safe view signer tag (.struct [.address account]))
    (heq : tag = .struct 1 "object" "Object" [inner]) :
    view.resourceExists account objectCoreTag = true ∧
      view.resourceExists account inner = true := by
  cases h with
  | object hcore hinner =>
    simp only [TypeTag.struct.injEq, List.cons.injEq, and_true, true_and] at heq
    exact ⟨hcore, heq ▸ hinner⟩
  | primitive hne => simp at heq
  | fixedPoint32 => simp at heq
  | fixedPoint64 => simp at heq

theorem entryType_iff_inGrammar {tag : TypeTag} {layout : MoveTypeLayout}
    (h : Describes view tag layout) : EntryType tag ↔ InGrammar tag := by
  induction h with
  | primitive type => exact ⟨fun _ => .primitive type, fun _ => .primitive type⟩
  | vector _ ih =>
    constructor
    · rintro (_ | hinner)
      exact .vector (ih.mp hinner)
    · rintro (_ | hinner)
      exact .vector (ih.mpr hinner)
  | string => exact ⟨fun _ => .string, fun _ => .plain (by decide)⟩
  | object _ _ => exact ⟨fun _ => .object _, fun _ => .phantom _ (by decide) (by decide)⟩
  | option _ ih =>
    constructor
    · intro hentry
      cases hentry with
      | option _ _ hinner => exact .option (ih.mp hinner)
      | phantom _ _ hne => exact absurd optionInfo_name.symm hne
    · intro hgrammar
      exact .option (by decide) optionInfo_name.symm (ih.mpr (hgrammar.of_option rfl))
  | fixedPoint32 => exact ⟨fun _ => .fixedPoint32, fun _ => .plain (by decide)⟩
  | fixedPoint64 => exact ⟨fun _ => .fixedPoint64, fun _ => .plain (by decide)⟩
  | other hother =>
    constructor
    · intro hentry
      cases hentry with
      | plain hallowed => exact absurd hallowed hother
      | option hallowed _ _ => exact absurd hallowed hother
      | phantom _ hallowed _ => exact absurd hallowed hother
    · intro hgrammar
      refine absurd ?_ hother
      cases hgrammar <;> decide

theorem safeArgument_primitive_iff {type : PrimitiveType} {bytes rest : Bytes} {value : MoveValue}
    (h : decodeLayout (.primitive type) bytes = some (value, rest)) :
    SafeArgument view signer (.primitive type) value ↔
      Safe view signer (.primitive type) value := by
  by_cases htype : type = .signer
  · subst htype
    constructor
    · intro hsafe
      cases hsafe with
      | signer => exact .signer
      | unconstrained hnone =>
        -- a decoded signer is a signer value, so it is constrained
        simp only [decodeLayout, decodePrimitive] at h
        split_ifs at h
        split at h
        · obtain ⟨rfl, -⟩ := Prod.mk.inj (Option.some.inj h)
          cases hnone
        · cases h
    · intro hsafe
      cases hsafe with
      | signer => exact .signer
      | primitive hne => exact absurd rfl hne
  · exact ⟨fun _ => .primitive htype,
      fun _ => .unconstrained (isConstrained_of_decodePrimitive htype h _)⟩

theorem safeArgument_string_iff (array : List MoveValue) :
    SafeArgument view signer (.struct 1 "string" "String" []) (.struct [.vector array]) ↔
      Safe view signer (.struct 1 "string" "String" []) (.struct [.vector array]) := by
  constructor
  · intro hsafe
    cases hsafe with
    | string _ hbytes hutf => exact .string hbytes hutf
    | optionNone hname => simp at hname
    | fixedPoint hname => simp at hname
    | unconstrained hnone => cases hnone
  · intro hsafe
    obtain ⟨bytes, hbytes, hutf⟩ := hsafe.of_string rfl
    exact .string stringInfo_name.symm hbytes hutf

theorem safeArgument_object_iff {inner : TypeTag} (account : AccountAddress)
    (hcore : view.loadType objectCoreTag = true) (hinner : view.loadType inner = true) :
    SafeArgument view signer (.struct 1 "object" "Object" [inner]) (.struct [.address account]) ↔
      Safe view signer (.struct 1 "object" "Object" [inner]) (.struct [.address account]) := by
  constructor
  · intro hsafe
    cases hsafe with
    | object _ _ hcoreAt _ hinnerAt => exact .object hcoreAt hinnerAt
    | fixedPoint hname => simp at hname
    | unconstrained hnone => cases hnone
  · intro hsafe
    obtain ⟨hcoreAt, hinnerAt⟩ := hsafe.of_object rfl
    exact .object objectInfo_name.symm hcore hcoreAt hinner hinnerAt

theorem safeArgument_option_iff {inner : TypeTag} {array : List MoveValue}
    (h : ∀ value ∈ array, SafeArgument view signer inner value ↔ Safe view signer inner value) :
    SafeArgument view signer (.struct 1 "option" "Option" [inner]) (.struct [.vector array]) ↔
      Safe view signer (.struct 1 "option" "Option" [inner]) (.struct [.vector array]) := by
  constructor
  · intro hsafe
    cases hsafe with
    | string hname _ _ => simp at hname
    | optionNone _ => exact .optionNone
    | optionSome _ hvalue => exact .optionSome ((h _ List.mem_cons_self).mp hvalue)
    | fixedPoint hname => simp at hname
    | unconstrained hnone => cases hnone
  · intro hsafe
    rcases hsafe.of_option rfl with rfl | ⟨value, rfl, hvalue⟩
    · exact .optionNone optionInfo_name.symm
    · exact .optionSome optionInfo_name.symm ((h value List.mem_cons_self).mpr hvalue)

theorem safeArgument_vector_iff {inner : TypeTag} {array : List MoveValue}
    (h : ∀ value ∈ array, SafeArgument view signer inner value ↔ Safe view signer inner value) :
    SafeArgument view signer (.vector inner) (.vector array) ↔
      Safe view signer (.vector inner) (.vector array) := by
  constructor
  · intro hsafe
    cases hsafe with
    | vector hall => exact .vector fun value hvalue => (h value hvalue).mp (hall value hvalue)
    | unconstrained hnone => cases hnone
  · intro hsafe
    cases hsafe with
    | vector hall => exact .vector fun value hvalue => (h value hvalue).mpr (hall value hvalue)

/-- On values that come from bytes, the loop's predicate is the one of the grammar. -/
theorem safeArgument_iff_safe {tag : TypeTag} {layout : MoveTypeLayout}
    (hdescribes : Describes view tag layout) (hgrammar : InGrammar tag) {bytes rest : Bytes}
    {value : MoveValue} (h : decodeLayout layout bytes = some (value, rest)) :
    SafeArgument view signer tag value ↔ Safe view signer tag value := by
  induction hdescribes generalizing bytes rest value with
  | primitive type => exact safeArgument_primitive_iff h
  | vector _ ih =>
    obtain ⟨elements, rfl, helements⟩ := vector_of_decodeLayout h
    cases hgrammar with
    | vector hinner =>
      refine safeArgument_vector_iff fun element hmem => ?_
      obtain ⟨before, after, helement⟩ := helements element hmem
      exact ih hinner helement
  | string =>
    obtain ⟨field, before, after, rfl, hfield⟩ := field_of_decodeLayout h
    obtain ⟨elements, rfl, -⟩ := vector_of_decodeLayout hfield
    exact safeArgument_string_iff elements
  | object hcore hinner =>
    obtain ⟨field, before, after, rfl, hfield⟩ := field_of_decodeLayout h
    obtain ⟨account, rfl⟩ := address_of_decodeLayout hfield
    exact safeArgument_object_iff account hcore hinner
  | option _ ih =>
    obtain ⟨field, before, after, rfl, hfield⟩ := field_of_decodeLayout h
    obtain ⟨elements, rfl, helements⟩ := vector_of_decodeLayout hfield
    refine safeArgument_option_iff fun element hmem => ?_
    obtain ⟨start, final, helement⟩ := helements element hmem
    exact ih (hgrammar.of_option rfl) helement
  | fixedPoint32 =>
    obtain ⟨field, before, after, rfl, -⟩ := field_of_decodeLayout h
    exact ⟨fun _ => .fixedPoint32, fun _ => .fixedPoint (.inl fixedPoint32Info_name.symm)⟩
  | fixedPoint64 =>
    obtain ⟨field, before, after, rfl, -⟩ := field_of_decodeLayout h
    exact ⟨fun _ => .fixedPoint64, fun _ => .fixedPoint (.inr fixedPoint64Info_name.symm)⟩
  | other hother =>
    refine absurd ?_ hother
    cases hgrammar <;> decide

variable {τ : Type} {session : TypeSession τ}

/-- What is left of the checks once the VM has answered. -/
theorem checkEntryArgument_eq {param : RuntimeType τ} {ty : τ} {tag : TypeTag}
    {layout : MoveTypeLayout} {bytes : Bytes} {value : MoveValue}
    (hty : stripReference param = .ok ty) (htag : session.getTypeTag ty = .ok tag)
    (hlayout : session.getTypeLayout ty = .ok layout)
    (hvalue : deserialize layout bytes = some value) :
    checkEntryArgument session signer param bytes =
      (validateEntryTypeTag tag >>= fun _ =>
        if hasValueInvariants layout then validateEntryValue session.resources signer tag value
        else .ok ()) := by
  simp only [checkEntryArgument, hty, htag, hlayout, bind, Except.bind, hvalue]

theorem validateEntryValue_of_skipped {layout : MoveTypeLayout} {bytes : Bytes} {value : MoveValue}
    (hnone : hasValueInvariants layout = false) (hvalue : deserialize layout bytes = some value)
    (tag : TypeTag) : validateEntryValue session.resources signer tag value = .ok () := by
  rw [validateEntryValue_ok_iff]
  exact safeArgument_of_not_hasValueInvariants session signer hnone
    (decodeLayout_of_deserialize hvalue) tag

/-- The checks of one parameter accept exactly the safe arguments, they never violate an invariant
or panic, and the value check they leave out would have passed. -/
theorem entry_argument_accepted_iff {param : RuntimeType τ} {ty : τ} {tag : TypeTag}
    {layout : MoveTypeLayout} {bytes : Bytes} {value : MoveValue}
    (hty : stripReference param = .ok ty) (htag : session.getTypeTag ty = .ok tag)
    (hlayout : session.getTypeLayout ty = .ok layout)
    (hdescribes : Describes session.resources tag layout)
    (hvalue : deserialize layout bytes = some value) :
    (checkEntryArgument session signer param bytes = .ok () ↔
      InGrammar tag ∧ Safe session.resources signer tag value) ∧
    Refuses (checkEntryArgument session signer param bytes) ∧
    (hasValueInvariants layout = false →
      validateEntryValue session.resources signer tag value = .ok ()) := by
  have hdecode := decodeLayout_of_deserialize hvalue
  have hskip : hasValueInvariants layout = false →
      validateEntryValue session.resources signer tag value = .ok () := fun hnone =>
    validateEntryValue_of_skipped hnone hvalue tag
  rw [checkEntryArgument_eq hty htag hlayout hvalue]
  refine ⟨?_, ?_, hskip⟩
  · rw [bind_ok_iff, ← entryType_iff_inGrammar hdescribes, ← validateEntryTypeTag_ok_iff]
    constructor
    · rintro ⟨_, htype, hcheck⟩
      have hentry := (validateEntryTypeTag_ok_iff tag).mp htype
      refine ⟨htype, ?_⟩
      rw [← safeArgument_iff_safe hdescribes ((entryType_iff_inGrammar hdescribes).mp hentry)
        hdecode, ← validateEntryValue_ok_iff]
      split_ifs at hcheck with hinv
      · exact hcheck
      · exact hskip (Bool.not_eq_true _ ▸ hinv)
    · rintro ⟨htype, hsafe⟩
      have hentry := (validateEntryTypeTag_ok_iff tag).mp htype
      rw [← safeArgument_iff_safe hdescribes ((entryType_iff_inGrammar hdescribes).mp hentry)
        hdecode, ← validateEntryValue_ok_iff] at hsafe
      refine ⟨(), htype, ?_⟩
      split_ifs
      · exact hsafe
      · rfl
  · rcases validateTagFrom_refuses tag hdescribes with ⟨_, hok⟩ | ⟨cause, hcause⟩
    · have htype : validateEntryTypeTag tag = .ok () := hok
      rw [htype]
      show Refuses (if hasValueInvariants layout then
        validateEntryValue session.resources signer tag value else .ok ())
      split_ifs
      · refine validateStack_refuses _ fun tagged htagged => ?_
        rw [List.mem_singleton.mp htagged]
        exact ⟨layout, bytes, [], (validateEntryTypeTag_ok_iff tag).mp htype, hdescribes, hdecode⟩
      · exact refuses_ok ()
    · have htype : validateEntryTypeTag tag = .error (.invalidTransaction cause) := hcause
      rw [htype]
      exact refuses_invalid cause

end EntryFunctions

section Scripts

variable {τ : Type} {session : TypeSession τ}

def mismatchedCount : Error := .invalidTransaction .mismatchedArgumentCount

def nestedReference : Error := .invalidTransaction .unsupportedNestedReference

/-- The argument of every parameter, as the loop hands it over: the sender at the signers, and the
given arguments in order at the others. -/
structure LinedUp (serializedSigner : Bytes) (resolved : List (τ × TypeTag))
    (args : List TransactionArgument) (handed : List Bytes) : Prop where
  length : handed.length = resolved.length
  signers : ∀ (i : ℕ) (ty : τ), resolved[i]? = some (ty, .primitive .signer) →
    handed[i]? = some serializedSigner
  others : List.Forall₂ Serializes args
    (((resolved.zip handed).filter fun entry => entry.1.2 ≠ .primitive .signer).map Prod.snd)

/-- Filling in the signers puts every argument at a place of its own. -/
theorem linedUp_fillSigners {serializedSigner : Bytes} {resolved : List (τ × TypeTag)}
    {args : List TransactionArgument} {serialized : List Bytes}
    (hser : List.Forall₂ Serializes args serialized)
    (hlen : (nonSigners resolved).length = serialized.length) :
    LinedUp serializedSigner resolved args (fillSigners serializedSigner resolved serialized) := by
  induction resolved generalizing args serialized with
  | nil =>
    have hnil : serialized = [] := List.length_eq_zero_iff.mp hlen.symm
    subst hnil
    cases hser
    exact ⟨rfl, by simp, by simp⟩
  | cons entry resolved ih =>
    obtain ⟨ty, tag⟩ := entry
    by_cases hsigner : tag = .primitive .signer
    · have hrest := ih hser (by simpa [nonSigners, hsigner] using hlen)
      refine ⟨?_, ?_, ?_⟩
      · simp [fillSigners, hsigner, hrest.length]
      · intro i other hother
        cases i with
        | zero => simp [fillSigners, hsigner]
        | succ i => simpa [fillSigners, hsigner] using hrest.signers i other (by simpa using hother)
      · simpa [fillSigners, hsigner] using hrest.others
    · cases hser with
      | nil => simp [nonSigners, hsigner] at hlen
      | @cons arg bytes args serialized hbytes hser =>
        have hrest := ih hser (by simpa [nonSigners, hsigner] using hlen)
        refine ⟨?_, ?_, ?_⟩
        · simp [fillSigners, hsigner, hrest.length]
        · intro i other hother
          cases i with
          | zero => simp [hsigner] at hother
          | succ i =>
            simpa [fillSigners, hsigner] using hrest.signers i other (by simpa using hother)
        · simpa [fillSigners, hsigner, hbytes] using hrest.others

theorem serializes_of_fits {args : List TransactionArgument} (h : ∀ arg ∈ args, ArgumentFits arg) :
    ∃ serialized, List.Forall₂ Serializes args serialized := by
  induction args with
  | nil => exact ⟨[], .nil⟩
  | cons arg args ih =>
    obtain ⟨serialized, hserialized⟩ := ih fun other hother =>
      h other (List.mem_cons_of_mem arg hother)
    obtain ⟨bytes, hbytes⟩ := mustSerialize_of_fits (h arg List.mem_cons_self)
    exact ⟨bytes :: serialized, .cons ((mustSerialize_ok_iff _ _).mp hbytes) hserialized⟩

/-- One pass over a parameter that resolves. -/
theorem assembleArguments_cons {serializedSigner : Bytes} {param : RuntimeType τ}
    {params : List (RuntimeType τ)} {entry : τ × TypeTag} (hentry : Resolves session param entry)
    (args : List TransactionArgument) :
    assembleArguments session serializedSigner (param :: params) args =
      if entry.2 = .primitive .signer then
        (assembleArguments session serializedSigner params args).map (serializedSigner :: ·)
      else
        match args with
        | [] => .error mismatchedCount
        | arg :: args => mustSerialize arg.toMoveValue >>= fun bytes =>
            (assembleArguments session serializedSigner params args).map (bytes :: ·) := by
  simp only [assembleArguments, hentry.1, bind, Except.bind, hentry.2]
  split_ifs
  · cases assembleArguments session serializedSigner params args <;> rfl
  · cases args with
    | nil => rfl
    | cons arg args =>
      dsimp only
      cases mustSerialize arg.toMoveValue with
      | error e => rfl
      | ok bytes => cases assembleArguments session serializedSigner params args <;> rfl

/-- Too few or too many arguments are counted, whatever their types are. -/
theorem assembleArguments_mismatched {serializedSigner : Bytes} {params : List (RuntimeType τ)}
    {resolved : List (τ × TypeTag)} (hres : List.Forall₂ (Resolves session) params resolved)
    {args : List TransactionArgument} (hargs : ∀ arg ∈ args, ArgumentFits arg)
    (hlen : args.length ≠ (nonSigners resolved).length) :
    assembleArguments session serializedSigner params args = .error mismatchedCount := by
  induction hres generalizing args with
  | nil =>
    cases args with
    | nil => simp [nonSigners] at hlen
    | cons arg args => rfl
  | @cons param entry params resolved hentry hres ih =>
    rw [assembleArguments_cons hentry]
    split_ifs with hsigner
    · rw [ih hargs (by simpa [nonSigners, hsigner] using hlen)]
      rfl
    · cases args with
      | nil => rfl
      | cons arg args =>
        obtain ⟨bytes, hbytes⟩ := mustSerialize_of_fits (hargs arg List.mem_cons_self)
        have hrest := ih (fun other hother => hargs other (List.mem_cons_of_mem arg hother))
          (by simpa [nonSigners, hsigner] using hlen)
        dsimp only
        rw [hbytes, hrest]
        rfl

/-- A nested reference ends the loop, unless the arguments have run out before it. -/
theorem assembleArguments_nested {serializedSigner : Bytes} {before after : List (RuntimeType τ)}
    {nested : RuntimeType τ} {resolved : List (τ × TypeTag)}
    (hres : List.Forall₂ (Resolves session) before resolved)
    (hnested : stripReference nested = .error nestedReference) {args : List TransactionArgument}
    (hargs : ∀ arg ∈ args, ArgumentFits arg) :
    assembleArguments session serializedSigner (before ++ nested :: after) args =
      .error (if (nonSigners resolved).length ≤ args.length then nestedReference
        else mismatchedCount) := by
  induction hres generalizing args with
  | nil => simp [assembleArguments, hnested, bind, Except.bind, nonSigners]
  | @cons param entry params resolved hentry hres ih =>
    rw [List.cons_append, assembleArguments_cons hentry]
    by_cases hsigner : entry.2 = .primitive .signer
    · have hsame : nonSigners (entry :: resolved) = nonSigners resolved := by
        simp [nonSigners, hsigner]
      rw [if_pos hsigner, ih hargs, hsame]
      rfl
    · have hmore : (nonSigners (entry :: resolved)).length = (nonSigners resolved).length + 1 := by
        simp [nonSigners, hsigner]
      rw [if_neg hsigner, hmore]
      cases args with
      | nil => rfl
      | cons arg args =>
        obtain ⟨bytes, hbytes⟩ := mustSerialize_of_fits (hargs arg List.mem_cons_self)
        have hrest := ih fun other hother => hargs other (List.mem_cons_of_mem arg hother)
        dsimp only
        rw [hbytes, hrest]
        simp only [List.length_cons, Nat.add_le_add_iff_right]
        rfl

theorem stripReference_error {param : RuntimeType τ} {e : Error}
    (h : stripReference param = .error e) : e = nestedReference := by
  unfold stripReference at h
  split at h
  · cases h
  · cases h
  · cases h
  · exact (Except.error.inj h).symm
  · exact (Except.error.inj h).symm

/-- The parameters resolve up to the first nested reference. -/
theorem resolves_or_nested {params : List (RuntimeType τ)}
    (htags : ∀ param ∈ params, ∀ ty, stripReference param = .ok ty →
      ∃ tag, session.getTypeTag ty = .ok tag) :
    (∃ resolved, List.Forall₂ (Resolves session) params resolved) ∨
      ∃ before nested after resolved, params = before ++ nested :: after ∧
        List.Forall₂ (Resolves session) before resolved ∧
        stripReference nested = .error nestedReference := by
  induction params with
  | nil => exact .inl ⟨[], .nil⟩
  | cons param params ih =>
    cases hstrip : stripReference param with
    | error e =>
      obtain rfl := stripReference_error hstrip
      exact .inr ⟨[], param, params, [], rfl, .nil, hstrip⟩
    | ok ty =>
      obtain ⟨tag, htag⟩ := htags param List.mem_cons_self ty hstrip
      rcases ih fun other hother => htags other (List.mem_cons_of_mem param hother) with
        ⟨resolved, hres⟩ | ⟨before, nested, after, resolved, rfl, hres, hnested⟩
      · exact .inl ⟨(ty, tag) :: resolved, .cons ⟨hstrip, htag⟩ hres⟩
      · exact .inr ⟨param :: before, nested, after, (ty, tag) :: resolved, rfl,
          .cons ⟨hstrip, htag⟩ hres, hnested⟩

theorem isOk_assembleArguments_iff {serializedSigner : Bytes} {params : List (RuntimeType τ)}
    {resolved : List (τ × TypeTag)} (hres : List.Forall₂ (Resolves session) params resolved)
    {args : List TransactionArgument} (hargs : ∀ arg ∈ args, ArgumentFits arg) :
    (∃ handed, assembleArguments session serializedSigner params args = .ok handed) ↔
      args.length = (nonSigners resolved).length := by
  constructor
  · rintro ⟨handed, hhanded⟩
    by_contra hlen
    rw [assembleArguments_mismatched hres hargs hlen] at hhanded
    cases hhanded
  · intro hlen
    obtain ⟨serialized, hser⟩ := serializes_of_fits hargs
    refine ⟨_, (assembleArguments_ok_iff session _ _ _ _).mpr ⟨resolved, serialized, hres, hser, ?_,
      rfl⟩⟩
    rw [← hlen, hser.length_eq]

/-- Parameters resolve in one way only. -/
theorem resolves_unique {params : List (RuntimeType τ)} {resolved others : List (τ × TypeTag)}
    (hres : List.Forall₂ (Resolves session) params resolved)
    (hothers : List.Forall₂ (Resolves session) params others) : others = resolved := by
  induction hres generalizing others with
  | nil => cases hothers; rfl
  | @cons param entry params resolved hentry _ ih =>
    obtain ⟨⟨ty, tag⟩, rest, ⟨hty, htag⟩, hrest, rfl⟩ := List.forall₂_cons_left_iff.mp hothers
    rw [ih hrest]
    rw [hentry.1, Except.ok.injEq] at hty
    rw [← hty, hentry.2, Except.ok.injEq] at htag
    exact congrArg (· :: resolved) (Prod.ext hty.symm htag.symm)

theorem linedUp_of_assembled {serializedSigner : Bytes} {params : List (RuntimeType τ)}
    {resolved : List (τ × TypeTag)} (hres : List.Forall₂ (Resolves session) params resolved)
    {args : List TransactionArgument} {handed : List Bytes}
    (h : assembleArguments session serializedSigner params args = .ok handed) :
    LinedUp serializedSigner resolved args handed := by
  obtain ⟨others, serialized, hothers, hser, hlen, rfl⟩ :=
    (assembleArguments_ok_iff session _ _ _ _).mp h
  obtain rfl := resolves_unique hres hothers
  exact linedUp_fillSigners hser hlen

variable {γ X : Type} {env : CanonicalEnv γ X τ} {script : Script} {signer : AccountAddress}
variable {s : Session γ}

/-- The serialized signer: the index of its variant and its address. -/
def signerBytes (signer : AccountAddress) : Bytes := 0 :: (leBytes 32 signer.toNat).reverse

/-- Every parameter of a script gets its own argument if the counts agree; else nothing runs. -/
theorem script_arguments_lined_up {params : List (RuntimeType τ)}
    (hload : env.vm.loadScript s.move script.code script.tyArgs = .ok params)
    (htags : ∀ param ∈ params, ∀ ty, stripReference param = .ok ty →
      ∃ tag, (env.vm.types s.move).getTypeTag ty = .ok tag)
    (hargs : ∀ arg ∈ script.args, ArgumentFits arg) :
    ((∃ resolved, List.Forall₂ (Resolves (env.vm.types s.move)) params resolved ∧
        ((∃ handed, scriptArguments (env.vm.types s.move) signer (env.vm.loadScript s.move) script =
            .ok handed) ↔ script.args.length = (nonSigners resolved).length) ∧
        (∀ handed, scriptArguments (env.vm.types s.move) signer (env.vm.loadScript s.move) script =
            .ok handed → LinedUp (signerBytes signer) resolved script.args handed) ∧
        (script.args.length ≠ (nonSigners resolved).length →
          scriptArguments (env.vm.types s.move) signer (env.vm.loadScript s.move) script =
            .error mismatchedCount)) ∨
      ∃ before nested after resolved, params = before ++ nested :: after ∧
        List.Forall₂ (Resolves (env.vm.types s.move)) before resolved ∧
        stripReference nested = .error nestedReference ∧
        scriptArguments (env.vm.types s.move) signer (env.vm.loadScript s.move) script =
          .error (if (nonSigners resolved).length ≤ script.args.length then nestedReference
            else mismatchedCount)) ∧
    ∀ e, scriptArguments (env.vm.types s.move) signer (env.vm.loadScript s.move) script = .error e →
      executeScript env script signer s = (.error e, s) := by
  have hassemble : scriptArguments (env.vm.types s.move) signer (env.vm.loadScript s.move) script =
      assembleArguments (env.vm.types s.move) (signerBytes signer) params script.args := by
    rw [scriptArguments, hload]
    rfl
  refine ⟨?_, fun e he => ?_⟩
  · rw [hassemble]
    rcases resolves_or_nested htags with ⟨resolved, hres⟩ |
      ⟨before, nested, after, resolved, rfl, hres, hnested⟩
    · exact .inl ⟨resolved, hres, isOk_assembleArguments_iff hres hargs,
        fun handed hhanded => linedUp_of_assembled hres hhanded,
        assembleArguments_mismatched hres hargs⟩
    · exact .inr ⟨before, nested, after, resolved, rfl, hres, hnested,
        assembleArguments_nested hres hnested hargs⟩
  · have hquery : Act.query (fun s : Session γ => scriptArguments (env.vm.types s.move) signer
        (env.vm.loadScript s.move) script) s = (.error e, s) := by
      rw [Act.query, he]
    exact bind_of_error hquery

end Scripts

section Samples

open FailedTransactions

def stringTag : TypeTag := .struct 1 "string" "String" []

def stringLayout : MoveTypeLayout := .structUntagged [.vector (.primitive .u8)]

/-- The type of a list of optional strings, and its layout. -/
def sampleTag : TypeTag := .vector (.struct 1 "option" "Option" [stringTag])

def sampleLayout : MoveTypeLayout := .vector (.structUntagged [.vector stringLayout])

/-- A session whose types are their tags. -/
def tagSession : TypeSession TypeTag where
  getTypeTag := .ok
  getTypeLayout ty :=
    if ty = sampleTag then .ok sampleLayout else .error (.user (.vm (.status (.other 0))))
  resources := ⟨fun _ => true, fun _ _ => true⟩

theorem sampleTag_describes : Describes tagSession.resources sampleTag sampleLayout :=
  .vector (.option .string)

/-- The bytes of `[some "hi", none]`. -/
theorem entry_argument_accepted_sample :
    checkEntryArgument tagSession 7 (.reference (.other sampleTag)) [2, 1, 2, 104, 105, 0] =
      .ok () := by
  have hvalue : deserialize sampleLayout [2, 1, 2, 104, 105, 0] =
      some (.vector [.struct [.vector [.struct [.vector [.u8 104, .u8 105]]]],
        .struct [.vector []]]) := rfl
  have hlayout : tagSession.getTypeLayout sampleTag = .ok sampleLayout := by
    simp only [tagSession, if_true]
  have hparam : stripReference (.reference (.other sampleTag)) = .ok sampleTag := rfl
  refine (entry_argument_accepted_iff hparam rfl hlayout sampleTag_describes hvalue).1.mpr ⟨.vector (.option .string), .vector fun value hmem => ?_⟩
  rcases List.mem_pair.mp hmem with rfl | rfl
  · have hutf8 : isUtf8 [104, 105] := by decide +kernel
    exact .optionSome (.string rfl hutf8)
  · exact .optionNone

/-- A script with two signers around a number and an address behind a reference. -/
def sampleParams : List (RuntimeType TypeTag) :=
  [.reference (.other (.primitive .signer)), .other (.primitive .u64),
    .other (.primitive .signer), .mutableReference (.other (.primitive .address))]

def tagVm : MoveVm ℕ TypeTag where
  types _ := tagSession
  loadFunction _ _ := .error (.status (.other 0))
  loadScript _ _ _ := .ok sampleParams
  runEntryFunction _ _ := abort 0
  runScript _ _ := abort 0
  deserializeModule _ := .error (.status (.other 0))
  verifiedModuleBundle _ _ _ := .error (.status (.other 0))

def tagEnv : CanonicalEnv ℕ Unit TypeTag where
  toNodeEnv := canonicalEnv.toNodeEnv
  revm := canonicalEnv.revm
  vm := tagVm
  codec := canonicalEnv.codec
  chainId := canonicalEnv.chainId

def tagStart : Session ℕ := startCanonical tagEnv (sampleInput LedgerMirror.bob 0 [])

def sampleScript : Script := ⟨[], [], [.u64 5, .address 9]⟩

def sampleResolved : List (TypeTag × TypeTag) :=
  [(.primitive .signer, .primitive .signer), (.primitive .u64, .primitive .u64),
    (.primitive .signer, .primitive .signer), (.primitive .address, .primitive .address)]

theorem sampleParams_resolve : List.Forall₂ (Resolves tagSession) sampleParams sampleResolved :=
  .cons ⟨rfl, rfl⟩ (.cons ⟨rfl, rfl⟩ (.cons ⟨rfl, rfl⟩ (.cons ⟨rfl, rfl⟩ .nil)))

theorem script_arguments_lined_up_sample : ∃ handed,
    scriptArguments (tagEnv.vm.types tagStart.move) 7 (tagEnv.vm.loadScript tagStart.move)
        sampleScript = .ok handed ∧
      LinedUp (signerBytes 7) sampleResolved sampleScript.args handed := by
  have hfits : ∀ arg ∈ sampleScript.args, ArgumentFits arg := by
    intro arg harg
    rcases List.mem_pair.mp harg with rfl | rfl <;> trivial
  have hload : tagEnv.vm.loadScript tagStart.move sampleScript.code sampleScript.tyArgs =
      .ok sampleParams := rfl
  have htags : ∀ param ∈ sampleParams, ∀ ty, stripReference param = .ok ty →
      ∃ tag, (tagEnv.vm.types tagStart.move).getTypeTag ty = .ok tag :=
    fun _ _ ty _ => ⟨ty, rfl⟩
  obtain ⟨hcases, -⟩ := @script_arguments_lined_up _ _ _ tagEnv sampleScript 7 tagStart
    sampleParams hload htags hfits
  rcases hcases with ⟨resolved, hres, hiff, hlined, -⟩ |
    ⟨before, nested, after, _, heq, -, hnested, -⟩
  · obtain rfl := resolves_unique sampleParams_resolve hres
    obtain ⟨handed, hhanded⟩ := hiff.mpr (by decide)
    exact ⟨handed, hhanded, hlined handed hhanded⟩
  · have hmem : nested ∈ sampleParams := by
      rw [heq]
      exact List.mem_append_right before List.mem_cons_self
    simp only [sampleParams, List.mem_cons, List.not_mem_nil, or_false] at hmem
    rcases hmem with rfl | rfl | rfl | rfl <;> cases hnested

end Samples

end OpMove.CheckedArguments
