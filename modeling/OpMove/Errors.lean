import OpMove.MoveTypes

/-!
The error type of execution. A user error still gives a receipt, an invalid
transaction is dropped, and an invariant violation stops the node; the causes are
those of the source. A Move VM error is known by its status only.
-/

namespace OpMove.Errors

open Primitives MoveTypes

inductive StatusCode
  | arithmeticError
  | missingData
  | storageError
  | evmError
  | other (code : ℕ)
  deriving DecidableEq, Repr

/-- Status of a Move VM error, with the abort code where there is one. -/
inductive VmError
  | outOfGas
  | aborted (code : ℕ)
  | status (code : StatusCode)
  deriving DecidableEq, Repr

inductive UserError
  | vm (e : VmError)
  | partialVm (e : VmError)
  | invalidSignature
  | depositFailure (output : Bytes)
  | l2ContractCallFailure
  | evmContractCreationFailure
  deriving DecidableEq, Repr

inductive InvalidTransactionCause
  | invalidDestination
  | invalidSigner
  | invalidPayload
  | mismatchedArgumentCount
  | failedArgumentDeserialization
  | unsupportedNestedReference
  | unsupportedType
  | incorrectNonce (expected given : ℕ)
  | exhaustedAccount
  | incorrectChainId
  | disallowedEntryFunctionType (tag : TypeTag)
  | insufficientIntrinsicGas
  | invalidString
  | invalidOption
  | invalidObject
  | failedToPayL1Fee
  | failedToPayL2Fee
  deriving DecidableEq, Repr

inductive NonceChecking
  | anyAccountCanBeCreated
  | getNonceAlwaysSucceeds
  | incrementNonceAlwaysSucceeds
  deriving DecidableEq, Repr

inductive EthTokenInvariant
  | mintAlwaysSucceeds
  | refundAlwaysSucceeds
  deriving DecidableEq, Repr

inductive EntryFunctionValue
  | onlyAllowedStructs
  | stringStructHasField
  | stringStructFieldIsVector
  | stringElementsAreU8
  | optionHasInnerType
  | optionStructHasField
  | optionStructFieldIsVector
  | objectStructHasTypeParameter
  | objectStructHasField
  | objectStructFieldIsAddress
  | objectInnerTypeExists
  | objectCoreTypeExists
  deriving DecidableEq, Repr

inductive InvariantViolation
  | nonceChecking (invariant : NonceChecking)
  | ethToken (invariant : EthTokenInvariant)
  | entryFunctionValue (invariant : EntryFunctionValue)
  | scriptArgsMustSerialize
  deriving DecidableEq, Repr

/-- `panicked` stands for a reached `unreachable!`, `unwrap` or `unimplemented!`. -/
inductive Error
  | user (e : UserError)
  | invalidTransaction (cause : InvalidTransactionCause)
  | invariantViolation (violation : InvariantViolation)
  | panicked
  deriving DecidableEq, Repr

def Error.entryFnInvariantViolation (invariant : EntryFunctionValue) : Error :=
  .invariantViolation (.entryFunctionValue invariant)

theorem bind_ok_iff {ε α β : Type} {e : Except ε α} {f : α → Except ε β} {b : β} :
    (e >>= f) = .ok b ↔ ∃ a, e = .ok a ∧ f a = .ok b := by
  cases e <;> simp [bind, Except.bind]

end OpMove.Errors
