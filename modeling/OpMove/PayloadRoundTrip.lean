import OpMove.Canonical

/-!
Payloads written and read back. `to_bytes` always writes one private enum, while `parse_from`
chooses the format by the destination: nothing for an L2 contract, no data for a transfer, the bare
inner enum for a creation, and the private enum for the rest. The two agree on three of the five
kinds of payloads.
-/

namespace OpMove.PayloadRoundTrip

open Primitives Transactions Errors Arguments Canonical

section Codecs

/-- `bcs::to_bytes` and `bcs::from_bytes` of a type. -/
structure Bcs (α : Type) where
  toBytes : α → Option Bytes
  fromBytes : Bytes → Option α

/-- The encoding is canonical: reading undoes writing, and only what is written is read. -/
structure Bcs.Lawful {α : Type} (codec : Bcs α) : Prop where
  reads : ∀ a bytes, codec.toBytes a = some bytes → codec.fromBytes bytes = some a
  writes : ∀ a bytes, codec.fromBytes bytes = some a → codec.toBytes a = some bytes

/-- The codecs of what the variants of the two enums hold. -/
structure PayloadParts where
  address : Bcs Address
  script : Bcs Script
  moduleCode : Bcs Bytes
  entryFunction : Bcs EntryFunction
  byteVector : Bcs Bytes

structure PayloadParts.Lawful (parts : PayloadParts) : Prop where
  address : parts.address.Lawful
  script : parts.script.Lawful
  moduleCode : parts.moduleCode.Lawful
  entryFunction : parts.entryFunction.Lawful
  byteVector : parts.byteVector.Lawful

/-- A variant is its index followed by what it holds. -/
def variant (index : UInt8) (body : Option Bytes) : Option Bytes := body.map (index :: ·)

variable (parts : PayloadParts)

def scriptOrDeploymentToBytes : ScriptOrDeployment → Option Bytes
  | .script script => variant 0 (parts.script.toBytes script)
  | .moduleCode code => variant 1 (parts.moduleCode.toBytes code)
  | .evmContract bytecode => variant 2 (parts.byteVector.toBytes bytecode)

def scriptOrDeploymentFromBytes : Bytes → Option ScriptOrDeployment
  | [] => none
  | index :: body =>
      if index = 0 then (parts.script.fromBytes body).map .script
      else if index = 1 then (parts.moduleCode.fromBytes body).map .moduleCode
      else if index = 2 then (parts.byteVector.fromBytes body).map .evmContract
      else none

def serializableToBytes : SerializableTransactionData → Option Bytes
  | .eoaBaseTokenTransfer target => variant 0 (parts.address.toBytes target)
  | .scriptOrDeployment payload => variant 1 (scriptOrDeploymentToBytes parts payload)
  | .entryFunction entryFn => variant 2 (parts.entryFunction.toBytes entryFn)
  | .l2Contract contract => variant 3 (parts.address.toBytes contract)
  | .evmContract data => variant 4 (parts.byteVector.toBytes data)

def serializableFromBytes : Bytes → Option SerializableTransactionData
  | [] => none
  | index :: body =>
      if index = 0 then (parts.address.fromBytes body).map .eoaBaseTokenTransfer
      else if index = 1 then (scriptOrDeploymentFromBytes parts body).map .scriptOrDeployment
      else if index = 2 then (parts.entryFunction.fromBytes body).map .entryFunction
      else if index = 3 then (parts.address.fromBytes body).map .l2Contract
      else if index = 4 then (parts.byteVector.fromBytes body).map .evmContract
      else none

/-- `From<&TransactionData>`. -/
def serializable : TransactionData → SerializableTransactionData
  | .eoaBaseTokenTransfer target => .eoaBaseTokenTransfer target
  | .scriptOrDeployment payload => .scriptOrDeployment payload
  | .entryFunction entryFn => .entryFunction entryFn
  | .l2Contract contract => .l2Contract contract
  | .evmContract _ data => .evmContract data

/-- `TransactionData::to_bytes`. -/
def toBytes (data : TransactionData) : Option Bytes :=
  serializableToBytes parts (serializable data)

/-- What `parse_from` decodes with. -/
def payloadCodec : PayloadCodec where
  transactionData := serializableFromBytes parts
  scriptOrDeployment := scriptOrDeploymentFromBytes parts

end Codecs

section RoundTrip

variable {parts : PayloadParts}

def InL2Range (address : Address) : Prop :=
  l2LowestAddress.toNat ≤ address.toNat ∧ address.toNat ≤ l2HighestAddress.toNat

/-- The destination of a transaction fits its payload. -/
def Fits (target : TxKind) : TransactionData → Prop
  | .scriptOrDeployment _ => target = .create
  | .l2Contract contract => target = .call contract
  | .eoaBaseTokenTransfer receiver => target = .call receiver ∧ ¬ InL2Range receiver
  | .evmContract contract _ => target = .call contract ∧ ¬ InL2Range contract
  | .entryFunction entryFn => ∃ address, target = .call address ∧
      toMoveAddress address = entryFn.moduleId.1 ∧ ¬ InL2Range address

/-- The payloads that are read back as they were written. -/
def ReadsBack : TransactionData → Prop
  | .entryFunction _ | .evmContract .. => True
  | .l2Contract contract => InL2Range contract
  | .eoaBaseTokenTransfer _ | .scriptOrDeployment _ => False

theorem variant_eq_some {index : UInt8} {body : Option Bytes} {bytes : Bytes}
    (h : variant index body = some bytes) :
    ∃ inner, body = some inner ∧ bytes = index :: inner := by
  obtain ⟨inner, hinner, rfl⟩ := Option.map_eq_some_iff.mp h
  exact ⟨inner, hinner, rfl⟩

/-- Outside the L2 range the private enum decides. -/
theorem parseCall_of_data {codec : PayloadCodec} {target : Address} {data : Bytes}
    (hrange : ¬ InL2Range target) (hdata : data ≠ []) :
    parseCall codec target data =
      match codec.transactionData data with
      | some (.entryFunction entryFn) =>
        if entryFn.moduleId.1 = toMoveAddress target then .ok (.entryFunction entryFn)
        else .error (.invalidTransaction .invalidDestination)
      | some (.evmContract data) => .ok (.evmContract target data)
      | _ => .error invalidPayload := by
  have hnonempty : ¬ data.isEmpty = true := by simpa using hdata
  exact (if_neg hrange).trans (if_neg hnonempty)

/-- Written by one enum and read by the other, an inner enum never comes back: its first byte is
taken for the index of a module. -/
theorem scriptOrDeployment_lost (hparts : parts.Lawful) {payload : ScriptOrDeployment}
    {inner : Bytes} (h : scriptOrDeploymentToBytes parts payload = some inner) :
    scriptOrDeploymentFromBytes parts (1 :: inner) ≠ some payload := by
  intro hread
  have hmodule : (parts.moduleCode.fromBytes inner).map .moduleCode = some payload := by
    simpa [scriptOrDeploymentFromBytes] using hread
  obtain ⟨code, hcode, rfl⟩ := Option.map_eq_some_iff.mp hmodule
  obtain ⟨body, hbody, rfl⟩ := variant_eq_some h
  have hsame : parts.moduleCode.toBytes code = some (1 :: body) :=
    hparts.moduleCode.writes code _ hcode
  rw [hbody, Option.some.injEq] at hsame
  have hlength := congrArg List.length hsame
  simp at hlength

/-- `parse_from` gives back what `to_bytes` has written exactly for entry functions, EVM contracts
and contracts in the L2 range. -/
theorem payload_reads_back_iff (hparts : parts.Lawful) {data : TransactionData}
    {tx : NormalizedEthTransaction} {bytes : Bytes} (hfits : Fits tx.target data)
    (hbytes : toBytes parts data = some bytes) (hdata : tx.data = bytes) :
    parseFrom (payloadCodec parts) tx = .ok data ↔ ReadsBack data := by
  cases data with
  | eoaBaseTokenTransfer receiver =>
    obtain ⟨htarget, hrange⟩ := hfits
    obtain ⟨body, hbody, rfl⟩ := variant_eq_some hbytes
    have hread : serializableFromBytes parts (0 :: body) =
        some (.eoaBaseTokenTransfer receiver) := by
      simp [serializableFromBytes, hparts.address.reads _ _ hbody]
    simp only [parseFrom, htarget, hdata, parseCall_of_data hrange (List.cons_ne_nil 0 body),
      payloadCodec, hread, ReadsBack, reduceCtorEq]
  | scriptOrDeployment payload =>
    have htarget : tx.target = .create := hfits
    obtain ⟨inner, hinner, rfl⟩ := variant_eq_some hbytes
    have hlost := scriptOrDeployment_lost hparts hinner
    simp only [parseFrom, htarget, hdata, payloadCodec, ReadsBack, iff_false]
    intro hok
    split at hok
    · rename_i found hfound
      obtain rfl : found = payload := by simpa using hok
      exact hlost hfound
    · cases hok
  | entryFunction entryFn =>
    obtain ⟨address, htarget, hmodule, hrange⟩ := hfits
    obtain ⟨body, hbody, rfl⟩ := variant_eq_some hbytes
    have hread : serializableFromBytes parts (2 :: body) = some (.entryFunction entryFn) := by
      simp [serializableFromBytes, hparts.entryFunction.reads _ _ hbody]
    simp only [parseFrom, htarget, hdata, parseCall_of_data hrange (List.cons_ne_nil 2 body),
      payloadCodec, hread, hmodule, if_true, ReadsBack]
  | l2Contract contract =>
    have htarget : tx.target = .call contract := hfits
    by_cases hrange : InL2Range contract
    · have hparse : parseCall (payloadCodec parts) contract tx.data = .ok (.l2Contract contract) :=
        if_pos hrange
      simp only [parseFrom, htarget, hparse, ReadsBack, hrange]
    · obtain ⟨body, hbody, rfl⟩ := variant_eq_some hbytes
      have hread : serializableFromBytes parts (3 :: body) = some (.l2Contract contract) := by
        simp [serializableFromBytes, hparts.address.reads _ _ hbody]
      simp only [parseFrom, htarget, hdata, parseCall_of_data hrange (List.cons_ne_nil 3 body),
        payloadCodec, hread, ReadsBack, hrange, reduceCtorEq]
  | evmContract contract payload =>
    obtain ⟨htarget, hrange⟩ := hfits
    obtain ⟨body, hbody, rfl⟩ := variant_eq_some hbytes
    have hread : serializableFromBytes parts (4 :: body) = some (.evmContract payload) := by
      simp [serializableFromBytes, hparts.byteVector.reads _ _ hbody]
    simp only [parseFrom, htarget, hdata, parseCall_of_data hrange (List.cons_ne_nil 4 body),
      payloadCodec, hread, ReadsBack]

end RoundTrip

section Samples

/-- A codec at one value. -/
def Bcs.at {α : Type} [DecidableEq α] (a : α) (bytes : Bytes) : Bcs α where
  toBytes other := if other = a then some bytes else none
  fromBytes other := if other = bytes then some a else none

theorem Bcs.lawful_at {α : Type} [DecidableEq α] (a : α) (bytes : Bytes) :
    (Bcs.at a bytes).Lawful := by
  constructor
  · intro other found h
    simp only [Bcs.at, Option.ite_none_right_eq_some, Option.some.injEq] at h
    simp [Bcs.at, h.1, h.2.symm]
  · intro other found h
    simp only [Bcs.at, Option.ite_none_right_eq_some, Option.some.injEq] at h
    simp [Bcs.at, h.1, h.2.symm]

/-- A codec of a type whose values are not used. -/
def Bcs.unused (α : Type) : Bcs α := ⟨fun _ => none, fun _ => none⟩

theorem Bcs.lawful_unused (α : Type) : (Bcs.unused α).Lawful :=
  ⟨fun _ _ => nofun, fun _ _ => nofun⟩

def sampleReceiver : Address := 0x0b

/-- BCS at a receiver, at the one byte `0xfe` and at a module of the two bytes `0x01fe`. -/
def sampleParts : PayloadParts where
  address := .at sampleReceiver (20 :: addressBytes sampleReceiver)
  script := .unused Script
  moduleCode := .at [1, 0xfe] [2, 1, 0xfe]
  entryFunction := .unused EntryFunction
  byteVector := .at [0xfe] [1, 0xfe]

theorem sampleParts_lawful : sampleParts.Lawful :=
  ⟨Bcs.lawful_at _ _, Bcs.lawful_unused _, Bcs.lawful_at _ _, Bcs.lawful_unused _,
    Bcs.lawful_at _ _⟩

def sampleTransaction (target : TxKind) (data : Bytes) : NormalizedEthTransaction where
  signer := 0
  target := target
  nonce := 0
  value := 0
  data := data
  chainId := none
  gasLimitWord := 100000
  maxPriorityFeePerGas := 0
  maxFeePerGas := 0

theorem payload_reads_back_sample :
    parseFrom (payloadCodec sampleParts) (sampleTransaction (.call sampleReceiver) [4, 1, 0xfe]) =
      .ok (.evmContract sampleReceiver [0xfe]) := by
  have hbytes : toBytes sampleParts (.evmContract sampleReceiver [0xfe]) = some [4, 1, 0xfe] := by
    decide
  have hfits : Fits (.call sampleReceiver) (.evmContract sampleReceiver [0xfe]) :=
    ⟨rfl, by unfold InL2Range; decide⟩
  exact (payload_reads_back_iff sampleParts_lawful hfits hbytes rfl).mpr trivial

/-- A deployment of EVM code is read as a Move module, and a transfer is refused. -/
theorem payloads_are_lost :
    toBytes sampleParts (.scriptOrDeployment (.evmContract [0xfe])) = some [1, 2, 1, 0xfe] ∧
      parseFrom (payloadCodec sampleParts) (sampleTransaction .create [1, 2, 1, 0xfe]) =
        .ok (.scriptOrDeployment (.moduleCode [1, 0xfe])) ∧
      toBytes sampleParts (.eoaBaseTokenTransfer sampleReceiver) =
        some (0 :: 20 :: addressBytes sampleReceiver) ∧
      parseFrom (payloadCodec sampleParts) (sampleTransaction (.call sampleReceiver)
        (0 :: 20 :: addressBytes sampleReceiver)) = .error invalidPayload := by
  refine ⟨by decide, ?_, by decide, ?_⟩
  · rfl
  · rfl

end Samples

end OpMove.PayloadRoundTrip
