import OpMove.VectorContainers
import OpMove.BcsRoundTrip

/-!
EVM logs on their way through Move. The native functions turn the logs of an execution into Move
values; the node reads them back twice, with code written separately for each: from the
serialised return value of the native function, and from the event that the framework emits with
the same logs. A topic has its bytes read from the other end on the way in and on both ways out,
so each reader gives the logs back as they were.
-/

namespace OpMove.EvmLogs

open Primitives MoveTypes Transactions NativeEvm EvmModule AbiShapes VectorContainers HeadTail
open BcsRoundTrip

section Readers

/-- The serialisation of values by a layout, inside the VM and of Move values. -/
structure ValueSerDe where
  serialize : MoveTypeLayout → Value → Option Bytes
  deserialize : MoveTypeLayout → Bytes → Option Value
  simpleDeserialize : MoveTypeLayout → Bytes → Option MoveValue

structure SerializedReturnValues where
  returnValues : List (Bytes × MoveTypeLayout)

def codeLayout : MoveTypeLayout := .vector (.primitive .u8)

def evmLogLayout : MoveTypeLayout :=
  .structUntagged [.primitive .address, .vector (.primitive .u256), .vector (.primitive .u8)]

def evmLogsEventLayout : MoveTypeLayout := .structUntagged [.vector evmLogLayout]

def evmNativeOutcomeLayout : MoveTypeLayout :=
  .structUntagged [.primitive .bool, codeLayout, .vector evmLogLayout]

/-- The bytes of a word of Move, lowest first, as a hash. -/
def toB256 (x : U256) : B256 := BitVec.ofNat 256 (beNat (leBytes 32 x.toNat))

/-- `Log::new` refuses more than four topics. -/
def Log.new (address : Address) (topics : List B256) (data : Bytes) : Option Log :=
  if topics.length ≤ 4 then some ⟨address, topics, data⟩ else none

def asBool : Value → Option Bool
  | .bool x => some x
  | _ => none

def asU8 : Value → Option UInt8
  | .u8 x => some x
  | _ => none

def asU256 : Value → Option U256
  | .u256 x => some x
  | _ => none

def asAddress : Value → Option AccountAddress
  | .address x => some x
  | _ => none

def asStruct : Value → Option (List Value)
  | .struct fields => some fields
  | _ => none

/-- `Vector` and `unpack_unchecked`: the elements of any container. -/
def asVector : Value → Option (List Value)
  | .vector _ elements => some elements
  | _ => none

/-- `Vec<u8>`: the container of bytes only. -/
def asBytes : Value → Option Bytes
  | .vector (.specialised .u8) elements => elements.mapM asU8
  | _ => none

/-- `Vec<Value>`: the container of values only. -/
def asValues : Value → Option (List Value)
  | .vector .generic elements => some elements
  | _ => none

/-- The next field of a struct, at its type. -/
def nextAs {α : Type} (cast : Value → Option α) : List Value → Option (α × List Value)
  | [] => none
  | field :: fields => (cast field).map fun x => (x, fields)

def extractLog (value : Value) : Option Log := do
  let fields ← asStruct value
  let (address, fields) ← nextAs asAddress fields
  let (topics, fields) ← nextAs asVector fields
  let (data, _) ← nextAs asBytes fields
  let topics ← topics.mapM fun topic => (asU256 topic).map toB256
  Log.new (toEthAddress address) topics data

/-- Every unwrap and assertion that fails is a panic, which is no result. -/
def extractEvmResult (serde : ValueSerDe) (outcome : SerializedReturnValues) :
    Option EvmNativeOutcome :=
  match outcome.returnValues with
  | [(bytes, layout)] => do
      let value ← serde.deserialize layout bytes
      let fields ← asStruct value
      let (isSuccess, fields) ← nextAs asBool fields
      let (output, fields) ← nextAs asBytes fields
      let (logs, fields) ← nextAs asValues fields
      let logs ← logs.mapM extractLog
      if fields.isEmpty then some ⟨isSuccess, output, logs⟩ else none
  -- there is no value, or a second one
  | _ => none

/-- `as_u8`. -/
def moveAsU8 : MoveValue → Option UInt8
  | .u8 x => some x
  | _ => none

def asB256 : MoveValue → Option B256
  | .u256 x => some (toB256 x)
  | _ => none

/-- One `EvmLog` of the event: exactly an address, a vector and a vector. -/
def evmLogOf : MoveValue → Option Log
  | .struct [.address address, .vector topics, .vector data] => do
      let data ← data.mapM moveAsU8
      let topics ← topics.mapM asB256
      Log.new (toEthAddress address) topics data
  | _ => none

/-- The loop over the logs of an event, which stops at the first one that is no `EvmLog`. -/
def pushEvmLogs : List MoveValue → List Log → Option Unit × List Log
  | [], dest => (some (), dest)
  | value :: values, dest =>
    match evmLogOf value with
    | none => (none, dest)
    | some log => pushEvmLogs values (dest ++ [log])

def evmLogsEventToLog (value : MoveValue) (dest : List Log) : Option Unit × List Log :=
  match value with
  | .struct [.vector logs] => pushEvmLogs logs dest
  | _ => (none, dest)

/-- `emit_evm_logs` of the framework: an event with the logs of a result. -/
def evmLogsEvent (logs : List Log) : Value :=
  .struct [vectorForTestingOnly (logs.map evmLogToMoveValue)]

end Readers

section Layouts

mutual

/-- The values of a layout as the VM has them, each vector in its own container. -/
def ofLayout : MoveTypeLayout → Value → Bool
  | .primitive .bool, .bool _ => true
  | .primitive .u8, .u8 _ => true
  | .primitive .u16, .u16 _ => true
  | .primitive .u32, .u32 _ => true
  | .primitive .u64, .u64 _ => true
  | .primitive .u128, .u128 _ => true
  | .primitive .u256, .u256 _ => true
  | .primitive .address, .address _ => true
  | .vector inner, .vector container elements =>
      container == containerOf inner && elements.all (ofLayout inner)
  | .structUntagged fields, .struct values => fieldsOfLayout fields values
  | .structWithTypes _ fields, .struct values => fieldsOfLayout fields values
  | .native inner, value => ofLayout inner value
  | _, _ => false

def fieldsOfLayout : List MoveTypeLayout → List Value → Bool
  | [], [] => true
  | field :: fields, value :: values => ofLayout field value && fieldsOfLayout fields values
  | _, _ => false

end

example : ofLayout (.primitive .signer) (.address 7) = false := by
  simp [ofLayout]

/-- What a value of the layout is serialised to is read back, inside the VM and outside. -/
structure ValueSerDe.Lawful (serde : ValueSerDe) : Prop where
  deserialize : ∀ layout value bytes, ofLayout layout value = true →
    serde.serialize layout value = some bytes → serde.deserialize layout bytes = some value
  simpleDeserialize : ∀ layout value bytes, ofLayout layout value = true →
    serde.serialize layout value = some bytes →
    serde.simpleDeserialize layout bytes = some (erase value)

theorem ofLayout_vectorU8 (bytes : Bytes) : ofLayout codeLayout (vectorU8 bytes) = true := by
  simp [codeLayout, vectorU8, ofLayout, containerOf]

theorem ofLayout_evmLog (log : Log) : ofLayout evmLogLayout (evmLogToMoveValue log) = true := by
  have hdata := ofLayout_vectorU8 log.data
  rw [codeLayout] at hdata
  simp [evmLogLayout, evmLogToMoveValue, ofLayout, fieldsOfLayout, containerOf, hdata]

theorem ofLayout_evmLogs (logs : List Log) :
    ofLayout (.vector evmLogLayout) (vectorForTestingOnly (logs.map evmLogToMoveValue)) = true := by
  have hcontainer : containerOf evmLogLayout = .generic := rfl
  rw [vectorForTestingOnly, ofLayout, hcontainer, Bool.and_eq_true, List.all_eq_true]
  refine ⟨rfl, fun value hvalue => ?_⟩
  obtain ⟨log, -, rfl⟩ := List.mem_map.mp hvalue
  exact ofLayout_evmLog log

theorem ofLayout_outcome (outcome : EvmNativeOutcome) :
    ofLayout evmNativeOutcomeLayout (evmOutcomeToMoveValue outcome) = true := by
  simp [evmNativeOutcomeLayout, evmOutcomeToMoveValue, ofLayout, fieldsOfLayout,
    ofLayout_vectorU8, ofLayout_evmLogs]

theorem ofLayout_evmLogsEvent (logs : List Log) :
    ofLayout evmLogsEventLayout (evmLogsEvent logs) = true := by
  simp [evmLogsEventLayout, evmLogsEvent, ofLayout, fieldsOfLayout, ofLayout_evmLogs]

end Layouts

section RoundTrips

/-- The word a topic becomes. -/
def topicWord (topic : B256) : U256 := BitVec.ofNat 256 (leNat (leBytes 32 topic.toNat).reverse)

/-- The bytes of a topic are turned round twice. -/
theorem toB256_topicWord (topic : B256) : toB256 (topicWord topic) = topic := by
  have hlength : (leBytes 32 topic.toNat).reverse.length = 32 := by simp
  have hlt := leNat_lt (leBytes 32 topic.toNat).reverse
  rw [hlength] at hlt
  have hword : (topicWord topic).toNat = leNat (leBytes 32 topic.toNat).reverse := by
    rw [topicWord, BitVec.toNat_ofNat]
    exact Nat.mod_eq_of_lt (hlt.trans_eq (by norm_num))
  have hbytes : leBytes 32 (topicWord topic).toNat = (leBytes 32 topic.toNat).reverse := by
    have hread := leBytes_leNat (leBytes 32 topic.toNat).reverse
    rw [hlength] at hread
    rw [hword, hread]
  rw [toB256, hbytes]
  exact ofNat_beNat_word topic

theorem asBytes_vectorU8 (bytes : Bytes) : asBytes (vectorU8 bytes) = some bytes :=
  mapM_map_of_inverse fun _ _ => rfl

/-- A log with at most four topics is read back from the value inside the VM. -/
theorem extractLog_evmLogToMoveValue {log : Log} (h : log.topics.length ≤ 4) :
    extractLog (evmLogToMoveValue log) = some log := by
  have htopics : (log.topics.map fun topic => Value.u256 (topicWord topic)).mapM
      (fun topic => (asU256 topic).map toB256) = some log.topics := by
    refine mapM_map_of_inverse fun topic _ => ?_
    simp [asU256, toB256_topicWord]
  have hvalue : evmLogToMoveValue log = .struct [.address (toMoveAddress log.address),
      .vector (.specialised .u256) (log.topics.map fun topic => .u256 (topicWord topic)),
      vectorU8 log.data] := rfl
  rw [hvalue, extractLog]
  simp [asStruct, nextAs, asAddress, asVector, asBytes_vectorU8, htopics, Log.new, h]

/-- So is it from the value outside. -/
theorem evmLogOf_evmLogToMoveValue {log : Log} (h : log.topics.length ≤ 4) :
    evmLogOf (erase (evmLogToMoveValue log)) = some log := by
  have htopics : (log.topics.map fun topic => MoveValue.u256 (topicWord topic)).mapM asB256 =
      some log.topics := by
    refine mapM_map_of_inverse fun topic _ => ?_
    simp [asB256, toB256_topicWord]
  have hdata : (log.data.map MoveValue.u8).mapM moveAsU8 = some log.data :=
    mapM_map_of_inverse fun _ _ => rfl
  have hvalue : erase (evmLogToMoveValue log) = .struct [.address (toMoveAddress log.address),
      .vector (log.topics.map fun topic => .u256 (topicWord topic)),
      .vector (log.data.map .u8)] := by
    simp only [evmLogToMoveValue, vectorU8, erase, eraseAll, eraseAll_eq, List.map_map]
    rfl
  rw [hvalue, evmLogOf]
  simp [htopics, hdata, Log.new, h]

/-- The reader of events appends the logs it reads, also when it stops on the way. -/
theorem pushEvmLogs_appends (values : List MoveValue) (dest : List Log) :
    ∃ more, (pushEvmLogs values dest).2 = dest ++ more := by
  induction values generalizing dest with
  | nil => exact ⟨[], (List.append_nil dest).symm⟩
  | cons value values ih =>
    unfold pushEvmLogs
    cases evmLogOf value with
    | none => exact ⟨[], (List.append_nil dest).symm⟩
    | some log =>
      obtain ⟨more, hmore⟩ := ih (dest ++ [log])
      exact ⟨log :: more, by rw [hmore, List.append_assoc, List.singleton_append]⟩

theorem evmLogsEventToLog_appends (value : MoveValue) (dest : List Log) :
    ∃ more, (evmLogsEventToLog value dest).2 = dest ++ more := by
  unfold evmLogsEventToLog
  split
  · exact pushEvmLogs_appends _ dest
  · exact ⟨[], (List.append_nil dest).symm⟩

theorem pushEvmLogs_logs {logs : List Log} (h : ∀ log ∈ logs, log.topics.length ≤ 4)
    (dest : List Log) :
    pushEvmLogs (logs.map fun log => erase (evmLogToMoveValue log)) dest =
      (some (), dest ++ logs) := by
  induction logs generalizing dest with
  | nil => rw [List.append_nil]; rfl
  | cons log logs ih =>
    have hlog := evmLogOf_evmLogToMoveValue (h log List.mem_cons_self)
    have hrest := ih (fun other hother => h other (List.mem_cons_of_mem log hother)) (dest ++ [log])
    rw [List.map_cons, pushEvmLogs, hlog]
    dsimp only
    rw [hrest, List.append_assoc, List.singleton_append]

theorem evmLogsEventToLog_evmLogsEvent {logs : List Log}
    (h : ∀ log ∈ logs, log.topics.length ≤ 4) (dest : List Log) :
    evmLogsEventToLog (erase (evmLogsEvent logs)) dest = (some (), dest ++ logs) := by
  have hvalue : erase (evmLogsEvent logs) =
      .struct [.vector (logs.map fun log => erase (evmLogToMoveValue log))] := by
    simp only [evmLogsEvent, vectorForTestingOnly, erase, eraseAll, eraseAll_eq, List.map_map]
    rfl
  rw [hvalue]
  exact pushEvmLogs_logs h dest

/-- The outcome of a native function is read back from its return value. -/
theorem extractEvmResult_outcome {serde : ValueSerDe} (hserde : serde.Lawful)
    {outcome : EvmNativeOutcome} (h : ∀ log ∈ outcome.logs, log.topics.length ≤ 4) {bytes : Bytes}
    (hbytes : serde.serialize evmNativeOutcomeLayout (evmOutcomeToMoveValue outcome) = some bytes) :
    extractEvmResult serde ⟨[(bytes, evmNativeOutcomeLayout)]⟩ = some outcome := by
  have hread := hserde.deserialize _ _ _ (ofLayout_outcome outcome) hbytes
  have hlogs : (outcome.logs.map evmLogToMoveValue).mapM extractLog = some outcome.logs :=
    mapM_map_of_inverse fun log hlog => extractLog_evmLogToMoveValue (h log hlog)
  have hfields : asStruct (evmOutcomeToMoveValue outcome) = some [.bool outcome.isSuccess,
      vectorU8 outcome.output, vectorForTestingOnly (outcome.logs.map evmLogToMoveValue)] := rfl
  rw [extractEvmResult]
  simp [hread, hfields, nextAs, asBool, asBytes_vectorU8, asValues, vectorForTestingOnly, hlogs]

/-- Logs with at most four topics each survive both ways: the return value of the native function
gives back its outcome, the event gives back the logs behind what was read before, and whatever
an event is, reading it only appends. -/
theorem evm_logs_survive {serde : ValueSerDe} (hserde : serde.Lawful) {logs : List Log}
    (htopics : ∀ log ∈ logs, log.topics.length ≤ 4) :
    (∀ result bytes, (evmResultToMoveValue result).logs = logs →
      serde.serialize evmNativeOutcomeLayout
        (evmOutcomeToMoveValue (evmResultToMoveValue result)) = some bytes →
      ∃ outcome, extractEvmResult serde ⟨[(bytes, evmNativeOutcomeLayout)]⟩ = some outcome ∧
        outcome = evmResultToMoveValue result ∧ outcome.logs = logs) ∧
    (∀ bytes, serde.serialize evmLogsEventLayout (evmLogsEvent logs) = some bytes →
      serde.simpleDeserialize evmLogsEventLayout bytes = some (erase (evmLogsEvent logs))) ∧
    (∀ dest, evmLogsEventToLog (erase (evmLogsEvent logs)) dest = (some (), dest ++ logs)) ∧
    ∀ event dest, ∃ more, (evmLogsEventToLog event dest).2 = dest ++ more := by
  refine ⟨?_, ?_, evmLogsEventToLog_evmLogsEvent htopics, evmLogsEventToLog_appends⟩
  · rintro result bytes rfl hbytes
    exact ⟨_, extractEvmResult_outcome hserde htopics hbytes, rfl, rfl⟩
  · intro bytes hbytes
    exact hserde.simpleDeserialize _ _ _ (ofLayout_evmLogsEvent logs) hbytes

/-- Reading the serialised event adds the logs that an event of the session stands for. -/
theorem evmLogs_event_read {γ : Type} (env : Sessions.NodeEnv γ) {serde : ValueSerDe}
    (hserde : serde.Lawful) {logs : List Log} (htopics : ∀ log ∈ logs, log.topics.length ≤ 4)
    {bytes : Bytes} (hbytes : serde.serialize evmLogsEventLayout (evmLogsEvent logs) = some bytes)
    (dest : List Log) :
    (serde.simpleDeserialize evmLogsEventLayout bytes).map
        (fun event => evmLogsEventToLog event dest) =
      some (some (), dest ++ Sessions.pushLogs env (.evmLogs logs)) := by
  rw [hserde.simpleDeserialize _ _ _ (ofLayout_evmLogsEvent logs) hbytes, Option.map_some,
    evmLogsEventToLog_evmLogsEvent htopics]
  rfl

end RoundTrips

section Bcs

mutual

/-- A Move value with the containers that its layout asks for. -/
def contain : MoveTypeLayout → MoveValue → Option Value
  | .primitive _, .bool x => some (.bool x)
  | .primitive _, .u8 x => some (.u8 x)
  | .primitive _, .u16 x => some (.u16 x)
  | .primitive _, .u32 x => some (.u32 x)
  | .primitive _, .u64 x => some (.u64 x)
  | .primitive _, .u128 x => some (.u128 x)
  | .primitive _, .u256 x => some (.u256 x)
  | .primitive _, .address x => some (.address x)
  | .vector inner, .vector elements =>
      (elements.mapM (contain inner)).map (.vector (containerOf inner))
  | .structUntagged fields, .struct values | .structWithTypes _ fields, .struct values =>
      (containFields fields values).map .struct
  | .native inner, value => contain inner value
  | _, _ => none

def containFields : List MoveTypeLayout → List MoveValue → Option (List Value)
  | [], [] => some []
  | field :: fields, value :: values => do
      let first ← contain field value
      let rest ← containFields fields values
      some (first :: rest)
  | _, _ => none

end

/-- BCS by a layout. -/
def bcsSerDe : ValueSerDe where
  serialize layout value := if ofLayout layout value then simpleSerialize (erase value) else none
  deserialize layout bytes := (deserialize layout bytes).bind (contain layout)
  simpleDeserialize := deserialize

def Contains (layout : MoveTypeLayout) : Prop :=
  ∀ value, ofLayout layout value = true →
    HasLayout layout (erase value) ∧ contain layout (erase value) = some value

def FieldsContain (fields : List MoveTypeLayout) : Prop :=
  ∀ values, fieldsOfLayout fields values = true →
    HaveLayouts fields (eraseAll values) ∧ containFields fields (eraseAll values) = some values

theorem contains_primitive (type : PrimitiveType) : Contains (.primitive type) := by
  intro value hvalue
  cases type <;> cases value <;> first | exact ⟨trivial, rfl⟩ | cases hvalue

theorem contains_vector {inner : MoveTypeLayout} (ih : Contains inner) :
    Contains (.vector inner) := by
  intro value hvalue
  cases value <;> try cases hvalue
  rename_i container elements
  rw [ofLayout, Bool.and_eq_true, beq_iff_eq, List.all_eq_true] at hvalue
  obtain ⟨rfl, helements⟩ := hvalue
  rw [erase, eraseAll_eq, HasLayout, contain]
  constructor
  · intro element helement
    obtain ⟨original, horiginal, rfl⟩ := List.mem_map.mp helement
    exact (ih original (helements original horiginal)).1
  · rw [mapM_map_of_inverse fun original horiginal =>
      (ih original (helements original horiginal)).2]
    rfl

theorem fieldsContain_cons {field : MoveTypeLayout} {fields : List MoveTypeLayout}
    (ih : Contains field) (ihfields : FieldsContain fields) : FieldsContain (field :: fields) := by
  intro values hvalues
  cases values with
  | nil => cases hvalues
  | cons value values =>
    rw [fieldsOfLayout, Bool.and_eq_true] at hvalues
    obtain ⟨hlayout, hfirst⟩ := ih value hvalues.1
    obtain ⟨hlayouts, hrest⟩ := ihfields values hvalues.2
    refine ⟨⟨hlayout, hlayouts⟩, ?_⟩
    simp [eraseAll, containFields, hfirst, hrest]

theorem fieldsContain_nil : FieldsContain [] := by
  intro values hvalues
  cases values with
  | nil => exact ⟨trivial, rfl⟩
  | cons value values => cases hvalues

mutual

theorem contains : (layout : MoveTypeLayout) → Contains layout
  | .primitive type => contains_primitive type
  | .vector inner => contains_vector (contains inner)
  | .structUntagged fields => by
      intro value hvalue
      cases value <;> try cases hvalue
      obtain ⟨hlayouts, hfields⟩ := fieldsContain fields _ hvalue
      exact ⟨hlayouts, by rw [erase, contain, hfields]; rfl⟩
  | .structWithTypes _ fields => by
      intro value hvalue
      cases value <;> try cases hvalue
      obtain ⟨hlayouts, hfields⟩ := fieldsContain fields _ hvalue
      exact ⟨hlayouts, by rw [erase, contain, hfields]; rfl⟩
  | .structVariants => fun value hvalue => by cases value <;> cases hvalue
  | .native inner => fun value hvalue => by
      rw [ofLayout] at hvalue
      rw [HasLayout, contain]
      exact contains inner value hvalue

theorem fieldsContain : (fields : List MoveTypeLayout) → FieldsContain fields
  | [] => fieldsContain_nil
  | field :: fields => fieldsContain_cons (contains field) (fieldsContain fields)

end

/-- BCS reads back what it writes. -/
theorem bcsSerDe_lawful : bcsSerDe.Lawful := by
  have hread : ∀ layout value bytes, ofLayout layout value = true →
      bcsSerDe.serialize layout value = some bytes →
      MoveTypes.deserialize layout bytes = some (erase value) := by
    intro layout value bytes hvalue hbytes
    simp only [bcsSerDe, hvalue, if_true] at hbytes
    exact deserialize_simpleSerialize (contains layout value hvalue).1 hbytes
  refine ⟨fun layout value bytes hvalue hbytes => ?_, hread⟩
  simp only [bcsSerDe, hread layout value bytes hvalue hbytes, Option.bind_some]
  exact (contains layout value hvalue).2

end Bcs

section Samples

/-- A `Transfer` event of a token and a log without topics. -/
def sampleLogs : List Log :=
  [⟨0xa11ce, [0xddf252ad1be2c89b69c2b068fc378daa952ba7f163c4a11628f55a4df523b3ef, 1, 2],
      (leBytes 32 5).reverse⟩,
    ⟨0xb0b, [], [0xff]⟩]

def sampleResult : ExecutionResult := .success 21000 sampleLogs [0x2a] none

/-- Both logs are read back from the return value and behind an older log from the event. -/
theorem evm_logs_survive_sample :
    (∃ bytes, bcsSerDe.serialize evmNativeOutcomeLayout
        (evmOutcomeToMoveValue (evmResultToMoveValue sampleResult)) = some bytes ∧
      ∃ outcome, extractEvmResult bcsSerDe ⟨[(bytes, evmNativeOutcomeLayout)]⟩ = some outcome ∧
        outcome.logs = sampleLogs) ∧
    evmLogsEventToLog (erase (evmLogsEvent sampleLogs)) [⟨7, [], []⟩] =
      (some (), ⟨7, [], []⟩ :: sampleLogs) := by
  have htopics : ∀ log ∈ sampleLogs, log.topics.length ≤ 4 := by decide
  obtain ⟨hresult, -, hevent, -⟩ := evm_logs_survive bcsSerDe_lawful htopics
  refine ⟨?_, hevent [⟨7, [], []⟩]⟩
  have hsome : (bcsSerDe.serialize evmNativeOutcomeLayout
      (evmOutcomeToMoveValue (evmResultToMoveValue sampleResult))).isSome := by decide +kernel
  obtain ⟨bytes, hbytes⟩ := Option.isSome_iff_exists.mp hsome
  obtain ⟨outcome, hread, -, hlogs⟩ := hresult sampleResult bytes rfl hbytes
  exact ⟨bytes, hbytes, outcome, hread, hlogs⟩

end Samples

end OpMove.EvmLogs
