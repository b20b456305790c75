import OpMove.EngineApi
import OpMove.Publication

/-!
The two ports of the server. Every request is forwarded to op-geth first and is handled once
there is an answer from it; the public port refuses the engine API, and the other port asks for
a fresh signed token. A request for block zero also stores the genesis block that op-geth
answered with. Requests arrive in any order between the commands the actor works on.
-/

namespace OpMove.Server

open Primitives Transactions BlockBuilding BlockAgreement Multimaps BlockStore CommandRuns
open PayloadIds ServedPayloads Forkchoice Publication JsonValues EngineSchema EngineApi

section Requests

/-- The parts of an HTTP request that are looked at. -/
structure Http where
  isGet : Bool
  acceptsGzip : Bool
  authorization : Option String
  body : Bytes

inductive Reply
  | ok
  | rejected
  | geth (body : Bytes)
  | response (value : JsonRpcResponse)

/-- The libraries of the server: JSON texts, compression, the blocks of op-geth and the time a
token was issued at, if its signature is good. -/
structure ServerLibraries extends EngineApi.Libraries where
  parse : Bytes → Option Json
  decompress : Bytes → Option Bytes
  readBlock : Json → Option (B256 × Header)
  issuedAt : String → Option ℕ

def jwtValidDurationInSecs : ℕ := 60

/-- `trim_start_matches("Bearer ")`; the first argument bounds the number of matches. -/
def trimBearer : ℕ → List Char → List Char
  | 0, token => token
  | n + 1, token =>
      if "Bearer ".toList.isPrefixOf token then trimBearer n (token.drop 7) else token

variable (libs : ServerLibraries)

def validateJwt (now : ℕ) : Option String → Bool
  | none => false
  | some header =>
      match libs.issuedAt (String.ofList (trimBearer header.length header.toList)) with
      | none => false
      -- the sum of 64-bit numbers wraps, and the wrapped time is long past
      | some iat => iat + jwtValidDurationInSecs ≤ maxU64 ∧ now ≤ iat + jwtValidDurationInSecs

def isGenesisBlockRequest (request : Json) : Option Bool := do
  let method ← (← request.member "method").asString
  if method ≠ "eth_getBlockByNumber" then return false
  let params ← (← request.member "params").asArray
  let firstParam ← (← params.head?).asString
  return firstParam = "0x0"

def extractGenesisBlock (gethResponse : Json) : Option ExtendedBlock := do
  let result ← gethResponse.member "result"
  let (hash, header) ← libs.readBlock result
  some { hash := hash, value := 0, payloadId := 0, header := header, transactions := [] }

variable (reader : ApplicationReader)

/-- The part of `mirror` after op-geth has answered with JSON; no reply is a panic. -/
def answer (isAllowed : MethodName → Bool) (request parsed : Json) (raw : Bytes) :
    Option Reply × List Command :=
  let handled := handle libs.toLibraries reader isAllowed request
  if (isGenesisBlockRequest request).getD false then
    match extractGenesisBlock libs parsed with
    | some block => (some (.geth raw), handled.2 ++ [.genesisUpdate block])
    | none => (none, handled.2)
  else (some (.response handled.1), handled.2)

/-- The text of op-geth's answer. -/
def gethText (http : Http) (raw : Bytes) : Option Bytes :=
  if http.acceptsGzip then libs.decompress raw else some raw

/-- The reply to a request and the commands that were sent. -/
def mirror (isAllowed : MethodName → Bool) (http : Http) (geth : Option Bytes) :
    Option Reply × List Command :=
  if http.isGet then (some .ok, [])
  else
    match geth with
    | none => (some .rejected, [])
    | some raw =>
        match gethText libs http raw with
        | none => (some (.geth raw), [])
        | some bytes =>
            match libs.parse bytes with
            | none => (some (.geth bytes), [])
            | some parsed =>
                match libs.parse http.body with
                | none => (none, [])
                | some request => answer libs reader isAllowed request parsed raw

inductive Port
  | http
  | auth
  deriving DecidableEq

/-- A request, what op-geth answers to it and the time. -/
structure Arrival where
  port : Port
  http : Http
  geth : Option Bytes
  now : ℕ

def serve (arrival : Arrival) : Option Reply × List Command :=
  match arrival.port with
  | .http => mirror libs reader MethodName.isNonEngineApi arrival.http arrival.geth
  | .auth =>
      if validateJwt libs arrival.now arrival.http.authorization then
        mirror libs reader (fun _ => true) arrival.http arrival.geth
      else (some .rejected, [])

end Requests

section Nodes

/-- What a node is made of. The extra data of headers and the methods that only read are left
open. -/
structure Setup (σ χ : Type) where
  env : Env σ χ
  pick : List ExtendedBlock → Option ExtendedBlock
  pickTx : List ExtendedTransaction → Option ExtendedTransaction
  libs : ServerLibraries
  extraData : ExtendedBlock → Bytes
  query : App σ → MethodName → Json → Except JsonRpcError Json

variable {σ χ : Type} (setup : Setup σ χ)

def Setup.served (app : App σ) (block : ExtendedBlock) : GetPayloadResponseV3 :=
  .ofResponse (blockIntoPayload setup.env.codec setup.pickTx app.transactions block)
    (setup.extraData block)

def Setup.reader (app : App σ) : ApplicationReader where
  payload id := ((memoryOf app.blocks).byPayloadId setup.pick id).map (setup.served app)
  payloadByBlockHash hash := ((memoryOf app.blocks).byHash setup.pick hash).map (setup.served app)
  query := setup.query app

/-- The application, the queue in front of it and the requests that have arrived. -/
structure Node (σ : Type) where
  app : App σ
  queue : List Command
  arrived : List Arrival

def Node.start (state : σ) : Node σ := ⟨⟨state, [], [], [], []⟩, [], []⟩

def Node.arrive (node : Node σ) (arrival : Arrival) : Node σ where
  app := node.app
  queue := node.queue ++ (serve setup.libs (setup.reader node.app) arrival).2
  arrived := node.arrived ++ [arrival]

inductive Step (allowed : Arrival → Prop) (node : Node σ) : Node σ → Prop
  | arrive (arrival : Arrival) : allowed arrival → Step allowed node (node.arrive setup arrival)
  | work {command : Command} {rest : List Command} {drained : List Item} {app : App σ} :
      node.queue = command :: rest → drained.Perm node.app.memPool →
      handleInMemory setup.env setup.pick drained node.app command = some app →
      Step allowed node ⟨app, rest, node.arrived⟩

/-- What becomes of a node as requests arrive and commands are worked on. -/
def Reaches (allowed : Arrival → Prop) : Node σ → Node σ → Prop :=
  Relation.ReflTransGen (Step setup allowed)

end Nodes

section Sending

variable {libs : ServerLibraries} {reader : ApplicationReader} {arrival : Arrival}

/-- The request asks for a payload on top of a block, with a token that is good. -/
structure AsksFor (libs : ServerLibraries) (arrival : Arrival) (head : B256)
    (attributes : PayloadAttributesV3) : Prop where
  port : arrival.port = .auth
  token : validateJwt libs arrival.now arrival.http.authorization = true
  request : ∃ request state, libs.parse arrival.http.body = some request ∧
    requestedMethod request = .ok .forkChoiceUpdatedV3 ∧
    parseParamsV3 libs.toLibraries request = .ok (state, some attributes) ∧
    state.headBlockHash = head

/-- What a request sends. A genesis block comes from an answer of op-geth. -/
inductive ServeSends (libs : ServerLibraries) (arrival : Arrival) : List Command → Prop
  | nothing : ServeSends libs arrival []
  | addTransaction (tx : TxEnvelope) : ServeSends libs arrival [.addTransaction tx]
  | genesisUpdate {raw bytes : Bytes} {parsed : Json} {block : ExtendedBlock} :
      arrival.geth = some raw → gethText libs arrival.http raw = some bytes →
      libs.parse bytes = some parsed → extractGenesisBlock libs parsed = some block →
      ServeSends libs arrival [.genesisUpdate block]
  | startBlockBuild {head : B256} {attributes : PayloadAttributesV3} :
      AsksFor libs arrival head attributes →
      ServeSends libs arrival [.startBlockBuild attributes.toPayload
        ((⟨head, attributes.toPayload⟩ : Request).id libs.sha256)]

theorem requestedMethod_of_genesis {request : Json}
    (h : (isGenesisBlockRequest request).getD false = true) :
    requestedMethod request = .ok .getBlockByNumber := by
  unfold isGenesisBlockRequest at h
  cases hmember : request.member "method" with
  | none => simp [hmember] at h
  | some value =>
    cases hname : value.asString with
    | none => simp [hmember, hname] at h
    | some name =>
      by_cases heq : name = "eth_getBlockByNumber"
      · subst heq
        simp only [requestedMethod, getField, hmember, Option.getD_some, hname]
        rfl
      · simp [hmember, hname, heq] at h

/-- A request for the genesis block sends nothing by itself. -/
theorem handle_of_genesis {isAllowed : MethodName → Bool} {request : Json}
    (h : (isGenesisBlockRequest request).getD false = true) :
    (handle libs.toLibraries reader isAllowed request).2 = [] := by
  have hmethod := requestedMethod_of_genesis h
  generalize hcommands : (handle libs.toLibraries reader isAllowed request).2 = commands
  have hsends : Sends libs.toLibraries isAllowed request commands := hcommands ▸ sends_handle
  cases hsends with
  | nothing => rfl
  | addTransaction tx hother =>
    rw [hmethod] at hother
    cases hother
  | startBlockBuild _ hother _ =>
    rw [hmethod] at hother
    cases hother

/-- Other requests send what the API sends for them. -/
theorem answer_sends {isAllowed : MethodName → Bool} {request parsed : Json} {raw : Bytes}
    (h : ¬ (isGenesisBlockRequest request).getD false = true) :
    (answer libs reader isAllowed request parsed raw).2 =
      (handle libs.toLibraries reader isAllowed request).2 := by
  unfold answer
  dsimp only
  rw [if_neg h]

theorem ServeSends.of_sends {isAllowed : MethodName → Bool} {request : Json}
    {commands : List Command} (hrequest : libs.parse arrival.http.body = some request)
    (hauth : isAllowed .forkChoiceUpdatedV3 = true →
      arrival.port = .auth ∧ validateJwt libs arrival.now arrival.http.authorization = true)
    (h : Sends libs.toLibraries isAllowed request commands) : ServeSends libs arrival commands := by
  cases h with
  | nothing => exact .nothing
  | addTransaction tx _ => exact .addTransaction tx
  | startBlockBuild hallowed hmethod hparse =>
    obtain ⟨hport, htoken⟩ := hauth hallowed
    exact .startBlockBuild ⟨hport, htoken, request, _, hrequest, hmethod, hparse, rfl⟩

/-- The engine API is reached through the port with tokens only. -/
theorem serveSends_mirror {isAllowed : MethodName → Bool}
    (hauth : isAllowed .forkChoiceUpdatedV3 = true →
      arrival.port = .auth ∧ validateJwt libs arrival.now arrival.http.authorization = true) :
    ServeSends libs arrival (mirror libs reader isAllowed arrival.http arrival.geth).2 := by
  unfold mirror
  split_ifs with hget
  · exact .nothing
  split
  · exact .nothing
  rename_i raw hraw
  split
  · exact .nothing
  rename_i bytes hbytes
  split
  · exact .nothing
  rename_i parsed hparsed
  split
  · exact .nothing
  rename_i request hrequest
  by_cases hgenesis : (isGenesisBlockRequest request).getD false = true
  · have hnone : (handle libs.toLibraries reader isAllowed request).2 = [] :=
      handle_of_genesis hgenesis
    simp only [answer, hgenesis, if_true]
    split
    · rename_i block hblock
      rw [hnone, List.nil_append]
      exact .genesisUpdate hraw hbytes hparsed hblock
    · rw [hnone]
      exact .nothing
  · rw [answer_sends hgenesis]
    exact .of_sends hrequest hauth sends_handle

theorem serve_auth (hport : arrival.port = .auth)
    (htoken : validateJwt libs arrival.now arrival.http.authorization = true) :
    serve libs reader arrival = mirror libs reader (fun _ => true) arrival.http arrival.geth := by
  simp only [serve, hport, htoken, if_true]

theorem serveSends_serve : ServeSends libs arrival (serve libs reader arrival).2 := by
  unfold serve
  split
  · rename_i hport
    refine serveSends_mirror fun hallowed => ?_
    cases hallowed
  · rename_i hport
    split_ifs with htoken
    · exact serveSends_mirror fun _ => ⟨hport, htoken⟩
    · exact .nothing

end Sending

section Authorization

variable {σ χ : Type} {setup : Setup σ χ} {allowed : Arrival → Prop} {node next : Node σ}
variable {state : σ}

/-- The block was built with the attributes of a request that has arrived with a good token. -/
structure MadeFor (libs : ServerLibraries) (block : ExtendedBlock) (arrival : Arrival) (head : B256)
    (attributes : PayloadAttributesV3) : Prop where
  asks : AsksFor libs arrival head attributes
  payloadId : block.payloadId = (⟨head, attributes.toPayload⟩ : Request).id libs.sha256
  timestamp : block.header.timestamp = attributes.timestamp.toNat
  prevRandao : block.header.mixHash = attributes.prevRandao
  feeRecipient : block.header.beneficiary = attributes.suggestedFeeRecipient
  gasLimit : block.header.gasLimit = attributes.gasLimit.toNat
  beaconRoot : block.header.parentBeaconBlockRoot = some attributes.parentBeaconBlockRoot

/-- A genesis block has no payload id and no transactions. -/
def IsGenesis (block : ExtendedBlock) : Prop := block.payloadId = 0 ∧ block.transactions = []

/-- A command that is not a build, or a build that was asked for. -/
inductive Sent (libs : ServerLibraries) (arrived : List Arrival) : Command → Prop
  | addTransaction (tx : TxEnvelope) : Sent libs arrived (.addTransaction tx)
  | genesisUpdate {block : ExtendedBlock} : IsGenesis block →
      Sent libs arrived (.genesisUpdate block)
  | startBlockBuild {arrival : Arrival} {head : B256} {attributes : PayloadAttributesV3} :
      arrival ∈ arrived → AsksFor libs arrival head attributes →
      Sent libs arrived (.startBlockBuild attributes.toPayload
        ((⟨head, attributes.toPayload⟩ : Request).id libs.sha256))

structure NodeInv (libs : ServerLibraries) (node : Node σ) : Prop where
  queued : ∀ command ∈ node.queue, Sent libs node.arrived command
  stored : ∀ block ∈ node.app.blocks, IsGenesis block ∨
    ∃ arrival ∈ node.arrived, ∃ head attributes, MadeFor libs block arrival head attributes

theorem Sent.mono {libs : ServerLibraries} {arrived more : List Arrival} {command : Command}
    (h : Sent libs arrived command) (hsub : arrived ⊆ more) : Sent libs more command := by
  cases h with
  | addTransaction tx => exact .addTransaction tx
  | genesisUpdate hblock => exact .genesisUpdate hblock
  | startBlockBuild hmem hasks => exact .startBlockBuild (hsub hmem) hasks

theorem isGenesis_extracted {libs : ServerLibraries} {parsed : Json} {block : ExtendedBlock}
    (h : extractGenesisBlock libs parsed = some block) : IsGenesis block := by
  simp only [extractGenesisBlock, Option.bind_eq_bind, Option.bind_eq_some_iff, Prod.exists,
    Option.some.injEq] at h
  obtain ⟨result, -, hash, header, -, rfl⟩ := h
  exact ⟨rfl, rfl⟩

theorem sent_of_serveSends {libs : ServerLibraries} {arrival : Arrival} {arrived : List Arrival}
    {commands : List Command} (hmem : arrival ∈ arrived) (h : ServeSends libs arrival commands) :
    ∀ command ∈ commands, Sent libs arrived command := by
  intro command hcommand
  cases h with
  | nothing => cases hcommand
  | addTransaction tx =>
    rw [List.mem_singleton.mp hcommand]
    exact .addTransaction tx
  | genesisUpdate _ _ _ hblock =>
    rw [List.mem_singleton.mp hcommand]
    exact .genesisUpdate (isGenesis_extracted hblock)
  | startBlockBuild hasks =>
    rw [List.mem_singleton.mp hcommand]
    exact .startBlockBuild hmem hasks

/-- A block takes the attributes it is built with. -/
theorem madeFor_of_built {env : Env σ χ} {app : App σ} {libs : ServerLibraries} {arrival : Arrival}
    {head : B256} {attributes : PayloadAttributesV3} {drained : List Item} {built : Built σ}
    (hasks : AsksFor libs arrival head attributes)
    (h : buildBlock env app attributes.toPayload
      ((⟨head, attributes.toPayload⟩ : Request).id libs.sha256) drained = some built) :
    MadeFor libs built.block arrival head attributes := by
  simp only [buildBlock, Option.bind_eq_bind, Option.bind_eq_some_iff] at h
  obtain ⟨parent, -, baseFee, -, progress, -, hbuilt⟩ := h
  split_ifs at hbuilt
  obtain rfl := Option.some.inj hbuilt
  exact ⟨hasks, rfl, rfl, rfl, rfl, rfl, rfl⟩

/-- A command adds a genesis block, a block that was asked for, or none. -/
theorem stored_of_worked (hpick : Picks setup.pick) {arrived : List Arrival} {command : Command}
    {drained : List Item} {app after : App σ} (hsent : Sent setup.libs arrived command)
    (hwork : handleInMemory setup.env setup.pick drained app command = some after) :
    ∀ block ∈ after.blocks, block ∈ app.blocks ∨ IsGenesis block ∨
      ∃ arrival ∈ arrived, ∃ head attributes, MadeFor setup.libs block arrival head attributes := by
  intro block hblock
  cases hsent with
  | addTransaction tx =>
    rw [addTransaction_blocks hwork] at hblock
    exact Or.inl hblock
  | genesisUpdate hgenesis =>
    obtain rfl := Option.some.inj hwork
    rcases List.mem_append.mp hblock with hold | hnew
    · exact Or.inl hold
    · rw [List.mem_singleton.mp hnew]
      exact Or.inr (Or.inl hgenesis)
  | @startBlockBuild arrival head attributes hmem hasks =>
    rcases buildInMemory_cases hpick hwork with ⟨-, rfl⟩ | ⟨-, built, hbuilt, rfl⟩
    · exact Or.inl hblock
    · rcases List.mem_append.mp hblock with hold | hnew
      · exact Or.inl hold
      · rw [List.mem_singleton.mp hnew]
        exact Or.inr (Or.inr ⟨arrival, hmem, head, attributes, madeFor_of_built hasks hbuilt⟩)

theorem NodeInv.step (hpick : Picks setup.pick) (h : NodeInv setup.libs node)
    (hstep : Step setup allowed node next) : NodeInv setup.libs next := by
  cases hstep with
  | arrive arrival _ =>
    have hsub : node.arrived ⊆ node.arrived ++ [arrival] := List.subset_append_left _ _
    constructor
    · intro command hcommand
      rcases List.mem_append.mp hcommand with hold | hnew
      · exact (h.queued command hold).mono hsub
      · exact sent_of_serveSends (List.mem_append_right _ (List.mem_singleton_self _))
          serveSends_serve command hnew
    · intro block hblock
      rcases h.stored block hblock with hgenesis | ⟨other, hother, head, attributes, hmade⟩
      · exact Or.inl hgenesis
      · exact Or.inr ⟨other, hsub hother, head, attributes, hmade⟩
  | work hqueue _ hwork =>
    have hsent := h.queued _ (hqueue ▸ List.mem_cons_self)
    refine ⟨fun command hcommand => h.queued command (hqueue ▸ List.mem_cons_of_mem _ hcommand), ?_⟩
    intro block hblock
    rcases stored_of_worked hpick hsent hwork block hblock with hold | hnew
    · exact h.stored block hold
    · exact hnew

theorem nodeInv_of_reaches (hpick : Picks setup.pick)
    (hreach : Reaches setup allowed (.start state) node) : NodeInv setup.libs node := by
  induction hreach with
  | refl =>
    constructor
    · intro command hcommand
      cases hcommand
    · intro block hblock
      cases hblock
  | tail _ hstep ih => exact ih.step hpick hstep

/-- In every run each stored block is a genesis block without transactions, or it was built for a
forkchoice request that came through the port with tokens under a fresh token, and it carries
the attributes of that request. -/
theorem block_built_for_authorized_request (hpick : Picks setup.pick)
    (hreach : Reaches setup allowed (.start state) node) {block : ExtendedBlock}
    (hblock : block ∈ node.app.blocks) :
    IsGenesis block ∨ ∃ arrival ∈ node.arrived, ∃ head attributes,
      MadeFor setup.libs block arrival head attributes :=
  (nodeInv_of_reaches hpick hreach).stored block hblock

end Authorization

section Refinement

variable {σ χ : Type} {setup : Setup σ χ} {allowed : Arrival → Prop} {node next : Node σ}
variable {state : σ} {engine : Engine σ}

/-- The server beside the engine it stands for: the same application, the same commands waiting,
and every request the engine has answered has arrived with a good token. -/
structure Stands (libs : ServerLibraries) (node : Node σ) (engine : Engine σ) : Prop where
  app : engine.app = node.app
  queue : (engine.queue.map fun message => message.command) = node.queue
  answered : ∀ request ∈ engine.answered, ∃ arrival ∈ node.arrived, ∃ attributes,
    AsksFor libs arrival request.head attributes ∧ request.payload = attributes.toPayload

theorem sentElsewhere_of_isGenesis {block : ExtendedBlock} (h : IsGenesis block) :
    SentElsewhere (.genesisUpdate block) := h.1

theorem Stands.send {arrival : Arrival} {command : Command} {head : Option B256}
    (h : Stands setup.libs node engine)
    (hsent : (serve setup.libs (setup.reader node.app) arrival).2 = [command]) :
    Stands setup.libs (node.arrive setup arrival) (engine.send command head) := by
  refine ⟨h.app, ?_, fun request hrequest => ?_⟩
  · simp only [Engine.send, List.map_append, List.map_singleton, h.queue, Node.arrive, hsent]
  · obtain ⟨other, hother, attributes, hasks⟩ := h.answered request hrequest
    exact ⟨other, List.mem_append_left _ hother, attributes, hasks⟩

/-- An arriving request is a request to the engine, a command from elsewhere, or nothing. -/
theorem stands_arrive (h : Stands setup.libs node engine)
    (hrun : EngineRuns setup.env setup.pick setup.libs.sha256 (fun _ _ => True) engine)
    (arrival : Arrival) : ∃ engine,
      EngineRuns setup.env setup.pick setup.libs.sha256 (fun _ _ => True) engine ∧
        Stands setup.libs (node.arrive setup arrival) engine := by
  have hsends : ServeSends setup.libs arrival
      (serve setup.libs (setup.reader node.app) arrival).2 := serveSends_serve
  generalize hcommands : (serve setup.libs (setup.reader node.app) arrival).2 = commands at hsends
  cases hsends with
  | nothing =>
    refine ⟨engine, hrun, h.app, ?_, fun request hrequest => ?_⟩
    · simp only [Node.arrive, hcommands, List.append_nil, h.queue]
    · obtain ⟨other, hother, attributes, hasks⟩ := h.answered request hrequest
      exact ⟨other, List.mem_append_left _ hother, attributes, hasks⟩
  | addTransaction tx =>
    have helse : SentElsewhere (.addTransaction tx) := trivial
    exact ⟨_, .send hrun helse, h.send hcommands⟩
  | genesisUpdate _ _ _ hblock =>
    exact ⟨_, .send hrun (sentElsewhere_of_isGenesis (isGenesis_extracted hblock)),
      h.send hcommands⟩
  | @startBlockBuild head attributes hasks =>
    have hsend : Stands setup.libs (node.arrive setup arrival) (engine.send _ (some head)) :=
      h.send hcommands
    refine ⟨_, .forkchoiceUpdated head (some attributes.toPayload) hrun, h.app, hsend.queue, ?_⟩
    intro request hrequest
    rcases List.mem_append.mp hrequest with hold | hnew
    · obtain ⟨other, hother, found, hfound⟩ := h.answered request hold
      exact ⟨other, List.mem_append_left _ hother, found, hfound⟩
    · rw [List.mem_singleton.mp hnew]
      exact ⟨arrival, List.mem_append_right _ (List.mem_singleton_self _), attributes, hasks, rfl⟩

theorem stands_work (h : Stands setup.libs node engine)
    (hrun : EngineRuns setup.env setup.pick setup.libs.sha256 (fun _ _ => True) engine)
    {command : Command} {rest : List Command} {drained : List Item} {app : App σ}
    (hqueue : node.queue = command :: rest) (hperm : drained.Perm node.app.memPool)
    (hwork : handleInMemory setup.env setup.pick drained node.app command = some app) :
    ∃ engine, EngineRuns setup.env setup.pick setup.libs.sha256 (fun _ _ => True) engine ∧
      Stands setup.libs ⟨app, rest, node.arrived⟩ engine := by
  obtain ⟨happ, hcommands, hanswered⟩ := h
  rw [hqueue] at hcommands
  obtain ⟨message, messages, hmessages, rfl, rfl⟩ := List.map_eq_cons_iff.mp hcommands
  rw [← happ] at hperm hwork
  exact ⟨_, .work hrun hmessages trivial hperm hwork, rfl, rfl, hanswered⟩

/-- Whatever arrives at the two ports, the server does what an engine does: its builds are those
that forkchoice requests with good tokens have asked for. -/
theorem server_refines_engine (hreach : Reaches setup allowed (.start state) node) :
    ∃ engine, EngineRuns setup.env setup.pick setup.libs.sha256 (fun _ _ => True) engine ∧
      Stands setup.libs node engine := by
  induction hreach with
  | refl =>
    refine ⟨_, .initial state, rfl, rfl, fun request hrequest => ?_⟩
    cases hrequest
  | tail _ hstep ih =>
    obtain ⟨engine, hrun, hstands⟩ := ih
    cases hstep with
    | arrive arrival _ => exact stands_arrive hstands hrun arrival
    | work hqueue hperm hwork => exact stands_work hstands hrun hqueue hperm hwork

end Refinement

section Chain

variable {σ χ : Type} {setup : Setup σ χ} {genesis : ExtendedBlock} {node next later : Node σ}
variable {state : σ}

/-- Every block that op-geth answers with is the genesis block. -/
def GethAnswers (libs : ServerLibraries) (genesis : ExtendedBlock) (arrival : Arrival) : Prop :=
  ∀ raw bytes parsed block, arrival.geth = some raw → gethText libs arrival.http raw = some bytes →
    libs.parse bytes = some parsed → extractGenesisBlock libs parsed = some block → block = genesis

/-- The blocks are a chain, and the genesis block is all it is updated with. -/
structure ChainNode (codec : Codec) (genesis : ExtendedBlock) (node : Node σ) : Prop where
  queued : ∀ command ∈ node.queue, Updates genesis command
  app : AppInv codec genesis node.app

theorem updates_of_serveSends {libs : ServerLibraries} {arrival : Arrival}
    {commands : List Command} (hgeth : GethAnswers libs genesis arrival)
    (h : ServeSends libs arrival commands) : ∀ command ∈ commands, Updates genesis command := by
  intro command hcommand
  cases h with
  | nothing => cases hcommand
  | addTransaction tx =>
    rw [List.mem_singleton.mp hcommand]
    trivial
  | genesisUpdate hraw hbytes hparsed hblock =>
    rw [List.mem_singleton.mp hcommand]
    exact hgeth _ _ _ _ hraw hbytes hparsed hblock
  | startBlockBuild _ =>
    rw [List.mem_singleton.mp hcommand]
    trivial

/-- A command on the application, with the writes that go with it. -/
theorem exists_handleStaged {command : Command} {drained : List Item} {app after : App σ}
    (h : handleInMemory setup.env setup.pick drained app command = some after) :
    ∃ actions, handleStaged setup.env setup.pick drained app command = some (after, actions) := by
  rw [← handleStaged_fst] at h
  obtain ⟨⟨found, actions⟩, hfound, rfl⟩ := Option.map_eq_some_iff.mp h
  exact ⟨actions, hfound⟩

theorem ChainNode.step (hpick : Picks setup.pick) (hnumber : genesis.header.number = 0)
    (hempty : genesis.transactions = []) (h : ChainNode setup.env.codec genesis node)
    (hstep : Step setup (GethAnswers setup.libs genesis) node next) :
    ChainNode setup.env.codec genesis next ∧ node.app.blocks ⊆ next.app.blocks := by
  cases hstep with
  | arrive arrival hgeth =>
    refine ⟨⟨fun command hcommand => ?_, h.app⟩, List.Subset.refl _⟩
    rcases List.mem_append.mp hcommand with hold | hnew
    · exact h.queued command hold
    · exact updates_of_serveSends hgeth serveSends_serve command hnew
  | work hqueue _ hwork =>
    obtain ⟨actions, hstaged⟩ := exists_handleStaged hwork
    have hupdate := h.queued _ (hqueue ▸ List.mem_cons_self)
    refine ⟨⟨fun command hcommand => ?_, ?_⟩, (leads_of_handled hstaged).keeps.2.2⟩
    · exact h.queued command (hqueue ▸ List.mem_cons_of_mem _ hcommand)
    · exact h.app.handled hpick hnumber hempty hupdate hstaged

theorem chainNode_start : ChainNode setup.env.codec genesis (.start state) := by
  refine ⟨fun command hcommand => ?_, fun block hblock => ?_, Or.inl rfl⟩
  · cases hcommand
  · cases hblock

theorem ChainNode.reaches (hpick : Picks setup.pick) (hnumber : genesis.header.number = 0)
    (hempty : genesis.transactions = []) (h : ChainNode setup.env.codec genesis node)
    (hlater : Reaches setup (GethAnswers setup.libs genesis) node later) :
    ChainNode setup.env.codec genesis later ∧ node.app.blocks ⊆ later.app.blocks := by
  induction hlater with
  | refl => exact ⟨h, List.Subset.refl _⟩
  | tail _ hstep ih =>
    obtain ⟨hchain, hsub⟩ := ih
    obtain ⟨hnext, hmore⟩ := hchain.step hpick hnumber hempty hstep
    exact ⟨hnext, List.Subset.trans hsub hmore⟩

/-- No two different headers of the blocks have one hash. -/
def HeadersSeparate (blocks : List ExtendedBlock) : Prop :=
  ∀ a ∈ blocks, ∀ b ∈ blocks, a.header ≠ b.header → a.hash ≠ b.hash

end Chain

section Payloads

variable {σ χ : Type} {setup : Setup σ χ} {genesis : ExtendedBlock} {node later : Node σ}
variable {state : σ}

/-- The fields of a payload that are compared with the block under its hash. -/
structure Matches (setup : Setup σ χ) (block : ExtendedBlock) (payload : ExecutionPayloadV3)
    (hashes : List B256) (root : B256) : Prop where
  blockNumber : payload.blockNumber = BitVec.ofNat 64 block.header.number
  extraData : payload.extraData = setup.extraData block
  feeRecipient : payload.feeRecipient = block.header.beneficiary
  gasLimit : payload.gasLimit = BitVec.ofNat 64 block.header.gasLimit
  parentHash : payload.parentHash = block.header.parentHash
  prevRandao : payload.prevRandao = block.header.mixHash
  timestamp : payload.timestamp = BitVec.ofNat 64 block.header.timestamp
  withdrawals : payload.withdrawals = []
  hashes : hashes = []
  root : root = block.header.parentBeaconBlockRoot.getD 0

theorem agrees_served_iff {app : App σ} {block : ExtendedBlock} {payload : ExecutionPayloadV3}
    {hashes : List B256} {root : B256} :
    AgreesWith payload hashes root (setup.served app block) ↔
      Matches setup block payload hashes root := by
  constructor
  · rintro ⟨h1, h2, h3, h4, h5, h6, h7, h8, h9, h10⟩
    exact ⟨h1, h2, h3, h4, h5, h6, h7, h8, h9, h10⟩
  · rintro ⟨h1, h2, h3, h4, h5, h6, h7, h8, h9, h10⟩
    exact ⟨h1, h2, h3, h4, h5, h6, h7, h8, h9, h10⟩

/-- Some payload carries the hash of a block and matches it. -/
theorem exists_matches (setup : Setup σ χ) (app : App σ) (block : ExtendedBlock) :
    ∃ payload root, block.hash = payload.blockHash ∧ Matches setup block payload [] root :=
  ⟨(setup.served app block).executionPayload, (setup.served app block).parentBeaconBlockRoot, rfl,
    agrees_served_iff.mp ⟨rfl, rfl, rfl, rfl, rfl, rfl, rfl, rfl, rfl, rfl⟩⟩

theorem newPayload_of_params {libs : EngineApi.Libraries} {reader : ApplicationReader}
    {request : Json} {payload : ExecutionPayloadV3} {hashes : List B256} {root : B256}
    (hparams : newPayloadParams libs request = .ok (payload, hashes, root)) :
    newPayload libs reader request = match reader.payloadByBlockHash payload.blockHash with
      | some known =>
          .ok (payloadStatusJson libs.leaves (validatePayload payload hashes root known))
      | none => .error ⟨-1, libs.leaves.b256.write payload.blockHash, "Unknown block hash"⟩ := by
  unfold newPayload
  rw [hparams]
  rfl

/-- The members of a served payload are what a new payload has for parameters. -/
theorem newPayloadParams_served {libs : EngineApi.Libraries} (hleaves : libs.leaves.Lawful)
    {request : Json} {response : GetPayloadResponseV3}
    (hparams : getParamsList request =
      [getField (getPayloadJson libs.leaves response) "executionPayload", .array [],
        getField (getPayloadJson libs.leaves response) "parentBeaconBlockRoot"]) :
    newPayloadParams libs request =
      .ok (response.executionPayload, [], response.parentBeaconBlockRoot) :=
  newPayloadParams_written hleaves hparams

/-- A payload that was served is accepted from then on: the answer to a request for a payload,
sent back as a new payload, is valid, whatever has arrived and was built in between. -/
theorem served_payload_is_accepted (hpick : Picks setup.pick)
    (hleaves : setup.libs.leaves.Lawful) (hnumber : genesis.header.number = 0)
    (hempty : genesis.transactions = [])
    (hreach : Reaches setup (GethAnswers setup.libs genesis) (.start state) node)
    (hlater : Reaches setup (GethAnswers setup.libs genesis) node later)
    (hhash : HeadersSeparate later.app.blocks) {request echo result : Json}
    (hmethod : requestedMethod request = .ok .getPayloadV3)
    (hserved : (handle setup.libs.toLibraries (setup.reader node.app) (fun _ => true)
      request).1.result = some result)
    (hecho : requestedMethod echo = .ok .newPayloadV3)
    (hparams : getParamsList echo = [getField result "executionPayload", .array [],
      getField result "parentBeaconBlockRoot"]) :
    ∃ block ∈ node.app.blocks,
      result = getPayloadJson setup.libs.leaves (setup.served node.app block) ∧
      (handle setup.libs.toLibraries (setup.reader later.app) (fun _ => true) echo).1.result =
        some (payloadStatusJson setup.libs.leaves ⟨.valid, some block.hash, none⟩) := by
  obtain ⟨hchain, -⟩ := ChainNode.reaches hpick hnumber hempty chainNode_start hreach
  obtain ⟨hlaterChain, hsub⟩ := hchain.reaches hpick hnumber hempty hlater
  rw [(handle_of_method hmethod rfl).1] at hserved
  -- the request has found a block
  have hfound : ∃ block, block ∈ node.app.blocks ∧
      result = getPayloadJson setup.libs.leaves (setup.served node.app block) := by
    simp only [execute, getPayload, bind, Except.bind] at hserved
    split at hserved
    · cases hserved
    · rename_i id hid
      cases hread : (memoryOf node.app.blocks).byPayloadId setup.pick id.toNat with
      | none =>
        simp only [Setup.reader, hread, Option.map_none] at hserved
        cases hserved
      | some block =>
        simp only [Setup.reader, hread, Option.map_some] at hserved
        exact ⟨block, (mem_payloadIds.mp (Multimap.mem_of_getOne hpick hread)).1,
          (Option.some.inj hserved).symm⟩
  obtain ⟨block, hblock, rfl⟩ := hfound
  refine ⟨block, hblock, rfl, ?_⟩
  have hread := (hlaterChain.app.finds hpick hhash (hsub hblock)).2
  have hknown : (setup.reader later.app).payloadByBlockHash
      (setup.served node.app block).executionPayload.blockHash =
        some (setup.served later.app block) := by
    simp only [Setup.reader]
    exact (congrArg _ hread).trans rfl
  have hagrees : AgreesWith (setup.served node.app block).executionPayload []
      (setup.served node.app block).parentBeaconBlockRoot (setup.served later.app block) :=
    ⟨rfl, rfl, rfl, rfl, rfl, rfl, rfl, rfl, rfl, rfl⟩
  rw [(handle_of_method hecho rfl).1, execute,
    newPayload_of_params (newPayloadParams_served hleaves hparams), hknown]
  dsimp only
  rw [validatePayload_of_agreesWith hagrees]
  rfl

/-- The JSON of a status tells whether it is valid. -/
theorem payloadStatusJson_ne (leaves : Leaves) (hash : Option B256) (message : String) :
    payloadStatusJson leaves (invalid message) ≠ payloadStatusJson leaves ⟨.valid, hash, none⟩ := by
  intro h
  have hmember := congrArg (fun json => getField json "status") h
  have htext : Json.string "INVALID" = .string "VALID" := hmember
  simp at htext

/-- A new payload is valid exactly when a stored block has its hash and matches it in the ten
fields that are compared; roots, gas, fees and transactions are not looked at. The parent of a
valid payload is stored too. -/
theorem newPayload_valid_iff (hpick : Picks setup.pick) (hnumber : genesis.header.number = 0)
    (hempty : genesis.transactions = [])
    (hreach : Reaches setup (GethAnswers setup.libs genesis) (.start state) node)
    (hhash : HeadersSeparate node.app.blocks) {request : Json} {payload : ExecutionPayloadV3}
    {hashes : List B256} {root : B256} (hmethod : requestedMethod request = .ok .newPayloadV3)
    (hparams : newPayloadParams setup.libs.toLibraries request = .ok (payload, hashes, root)) :
    ((handle setup.libs.toLibraries (setup.reader node.app) (fun _ => true) request).1.result =
        some (payloadStatusJson setup.libs.leaves ⟨.valid, some payload.blockHash, none⟩) ↔
      ∃ block ∈ node.app.blocks, block.hash = payload.blockHash ∧
        Matches setup block payload hashes root) ∧
    ∀ block ∈ node.app.blocks, block.hash = payload.blockHash →
      Matches setup block payload hashes root → block = genesis ∨
        ∃ parent ∈ node.app.blocks, parent.hash = payload.parentHash := by
  obtain ⟨hchain, -⟩ := ChainNode.reaches hpick hnumber hempty chainNode_start hreach
  rw [(handle_of_method hmethod rfl).1, execute, newPayload_of_params hparams]
  refine ⟨⟨fun hvalid => ?_, ?_⟩, ?_⟩
  · cases hread : (memoryOf node.app.blocks).byHash setup.pick payload.blockHash with
    | none =>
      have hknown : (setup.reader node.app).payloadByBlockHash payload.blockHash = none := by
        simp only [Setup.reader, hread, Option.map_none]
      rw [hknown] at hvalid
      cases hvalid
    | some block =>
      obtain ⟨hblock, hsame⟩ := mem_hashes.mp (Multimap.mem_of_getOne hpick hread)
      have hknown : (setup.reader node.app).payloadByBlockHash payload.blockHash =
          some (setup.served node.app block) := by
        simp only [Setup.reader, hread, Option.map_some]
      rw [hknown] at hvalid
      rcases validatePayload_cases payload hashes root (setup.served node.app block) with
        ⟨hagrees, -⟩ | ⟨-, message, hinvalid⟩
      · exact ⟨block, hblock, hsame, agrees_served_iff.mp hagrees⟩
      · dsimp only at hvalid
        rw [hinvalid] at hvalid
        exact absurd (Option.some.inj hvalid) (payloadStatusJson_ne _ _ _)
  · rintro ⟨block, hblock, hsame, hmatches⟩
    have hread := (hchain.app.finds hpick hhash hblock).2
    rw [hsame] at hread
    have hknown : (setup.reader node.app).payloadByBlockHash payload.blockHash =
        some (setup.served node.app block) := by
      simp only [Setup.reader, hread, Option.map_some]
    rw [hknown]
    dsimp only
    rw [validatePayload_of_agreesWith (agrees_served_iff.mpr hmatches)]
    rfl
  · intro block hblock _ hmatches
    rcases hchain.app.exists_parent hblock with heq | ⟨parent, hparent, hlink, -⟩
    · exact Or.inl heq
    · exact Or.inr ⟨parent, hparent, by rw [hlink, hmatches.parentHash]⟩

end Payloads

section Samples

mutual

/-- The compact text of a JSON value whose strings need no escapes. -/
def renderJson : Json → List Char
  | .null => "null".toList
  | .bool value => (if value then "true" else "false").toList
  | .number literal => literal.toList
  | .string text => '"' :: text.toList ++ ['"']
  | .array items => '[' :: renderItems items ++ [']']
  | .object members => '\x7b' :: renderMembers members ++ ['\x7d']

def renderItems : List Json → List Char
  | [] => []
  | [item] => renderJson item
  | item :: next :: rest => renderJson item ++ ',' :: renderItems (next :: rest)

def renderMembers : List (String × Json) → List Char
  | [] => []
  | [(name, value)] => '"' :: name.toList ++ ('"' :: ':' :: renderJson value)
  | (name, value) :: next :: rest =>
      '"' :: name.toList ++ ('"' :: ':' :: renderJson value) ++ ',' :: renderMembers (next :: rest)

end

@[irreducible] def textOf (json : Json) : Bytes :=
  (renderJson json).map fun c => UInt8.ofNat c.toNat

def rpc (method : String) (params : List Json) : Json :=
  .object [("jsonrpc", .string "2.0"), ("id", .number "1"), ("method", .string method),
    ("params", .array params)]

def genesisRequest : Json := rpc "eth_getBlockByNumber" [.string "0x0", .bool false]

/-- The genesis block as op-geth answers with it. -/
def gethBlock : Json :=
  let word := hexLeaves.b256.write 0
  let zero := hexLeaves.u64.write 0
  .object [("hash", word), ("parentHash", word), ("sha3Uncles", word),
    ("miner", hexLeaves.address.write 0), ("stateRoot", word), ("transactionsRoot", word),
    ("receiptsRoot", word), ("logsBloom", hexLeaves.bloom.write 0), ("difficulty", zero),
    ("number", zero), ("gasLimit", hexLeaves.u64.write 30000000), ("gasUsed", zero),
    ("timestamp", zero), ("extraData", .string "0x"), ("mixHash", word),
    ("nonce", .string "0x0000000000000000"),
    ("baseFeePerGas", hexLeaves.u64.write 1000000000), ("size", zero),
    ("transactions", .array []), ("uncles", .array [])]

def gethResponse : Json :=
  .object [("jsonrpc", .string "2.0"), ("id", .number "1"), ("result", gethBlock)]

def sampleAttributes : PayloadAttributesV3 := ⟨1, 0, 0, [], 0, [sampleBytes], 30000000⟩

def buildRequest : Json :=
  rpc "engine_forkchoiceUpdatedV3" [(forkchoiceStateV1 hexLeaves).form.write ⟨0, 0, 0⟩,
    (payloadAttributesV3 hexLeaves).form.write sampleAttributes]

/-- A token that was issued at 1700000000, signed under the secret of 32 zero bytes. -/
def sampleToken : String :=
  "eyJhbGciOiJIUzI1NiIsInR5cCI6IkpXVCJ9.eyJpYXQiOjE3MDAwMDAwMDB9." ++
    "AV0neG6Q-D2P_lDW7gragYW8jJ_BPpKgG5A6auv-Ef4"

/-- The libraries at the sample texts. -/
def sampleLibs : ServerLibraries where
  leaves := hexLeaves
  explain _ _ := ""
  sha256 := sampleSha256
  decodeTx _ := .error "UnexpectedLength"
  txHash _ := 0
  parse bytes := [genesisRequest, gethResponse, buildRequest].find? fun json => textOf json = bytes
  decompress _ := none
  readBlock json := (json.member "hash").map fun _ => (0, sampleHeader)
  issuedAt token := if token = sampleToken then some 1700000000 else none

def sampleSetup : Setup Unit Unit where
  env := sampleEnv
  pick := List.head?
  pickTx := List.head?
  libs := sampleLibs
  extraData _ := []
  query _ _ _ := .error invalidMethod

def genesisArrival : Arrival where
  port := .http
  http := ⟨false, false, none, textOf genesisRequest⟩
  geth := some (textOf gethResponse)
  now := 1700000000

def buildArrival : Arrival where
  port := .auth
  http := ⟨false, false, some ("Bearer " ++ sampleToken), textOf buildRequest⟩
  geth := some (textOf gethResponse)
  now := 1700000010

theorem parse_genesisRequest : sampleLibs.parse (textOf genesisRequest) = some genesisRequest := by
  simp [sampleLibs]

theorem parse_gethResponse : sampleLibs.parse (textOf gethResponse) = some gethResponse := by
  have hne : textOf genesisRequest ≠ textOf gethResponse := by decide +kernel
  simp [sampleLibs, hne]

theorem parse_buildRequest : sampleLibs.parse (textOf buildRequest) = some buildRequest := by
  have hgenesis : textOf genesisRequest ≠ textOf buildRequest := by decide +kernel
  have hgeth : textOf gethResponse ≠ textOf buildRequest := by decide +kernel
  simp [sampleLibs, hgenesis, hgeth]

theorem method_rpc (method : String) (params : List Json) :
    (rpc method params).member "method" = some (.string method) := rfl

theorem params_rpc (method : String) (params : List Json) :
    (rpc method params).member "params" = some (.array params) := rfl

theorem isGenesisBlockRequest_sample : isGenesisBlockRequest genesisRequest = some true := by
  simp [isGenesisBlockRequest, genesisRequest, method_rpc, params_rpc, Json.asString, Json.asArray]

theorem isGenesisBlockRequest_build : isGenesisBlockRequest buildRequest = some false := by
  simp [isGenesisBlockRequest, buildRequest, method_rpc, Json.asString]

theorem extractGenesisBlock_sample :
    extractGenesisBlock sampleLibs gethResponse = some sampleGenesis := by
  have hmember : gethResponse.member "result" = some gethBlock := rfl
  have hread : sampleLibs.readBlock gethBlock = some (0, sampleHeader) := rfl
  rw [extractGenesisBlock, hmember, Option.bind_eq_bind, Option.bind_some, hread]
  rfl

theorem mirror_of_texts {reader : ApplicationReader} {isAllowed : MethodName → Bool} {http : Http}
    {raw : Bytes} {request parsed : Json} (hget : http.isGet = false)
    (hgzip : http.acceptsGzip = false) (hraw : sampleLibs.parse raw = some parsed)
    (hbody : sampleLibs.parse http.body = some request) :
    mirror sampleLibs reader isAllowed http (some raw) =
      answer sampleLibs reader isAllowed request parsed raw := by
  simp only [mirror, gethText, hget, hgzip, Bool.false_eq_true, if_false, hraw, hbody]

theorem serve_genesis (reader : ApplicationReader) :
    (serve sampleLibs reader genesisArrival).2 = [.genesisUpdate sampleGenesis] := by
  have htrue : (isGenesisBlockRequest genesisRequest).getD false = true := by
    rw [isGenesisBlockRequest_sample]
    rfl
  have hnone : (handle sampleLibs.toLibraries reader MethodName.isNonEngineApi
      genesisRequest).2 = [] := handle_of_genesis htrue
  have hserve : serve sampleLibs reader genesisArrival = mirror sampleLibs reader
      MethodName.isNonEngineApi genesisArrival.http (some (textOf gethResponse)) := rfl
  rw [hserve, mirror_of_texts rfl rfl parse_gethResponse parse_genesisRequest, answer,
    if_pos htrue, extractGenesisBlock_sample]
  dsimp only
  rw [hnone, List.nil_append]

theorem validateJwt_sample :
    validateJwt sampleLibs buildArrival.now buildArrival.http.authorization = true := by
  decide +kernel

theorem requestedMethod_build :
    requestedMethod buildRequest = .ok .forkChoiceUpdatedV3 := by
  simp only [requestedMethod, getField, buildRequest, method_rpc, Option.getD_some, Json.asString]
  rfl

theorem parseParamsV3_build : parseParamsV3 sampleLibs.toLibraries buildRequest =
    .ok (⟨0, 0, 0⟩, some sampleAttributes) := by
  refine parseParamsV3_written hexLeaves_lawful ?_
  rw [getParamsList, buildRequest, params_rpc]
  rfl

theorem serve_build (reader : ApplicationReader) :
    (serve sampleLibs reader buildArrival).2 =
      [.startBlockBuild (sampleRequest 1 [sampleBytes]).payload
        ((sampleRequest 1 [sampleBytes]).id sampleSha256)] := by
  have hfalse : ¬ (isGenesisBlockRequest buildRequest).getD false = true := by
    rw [isGenesisBlockRequest_build]
    exact Bool.false_ne_true
  have hgeth : buildArrival.geth = some (textOf gethResponse) := rfl
  have hbody : sampleLibs.parse buildArrival.http.body = some buildRequest := by
    rw [buildArrival]
    exact parse_buildRequest
  rw [serve_auth rfl validateJwt_sample, hgeth, mirror_of_texts rfl rfl parse_gethResponse hbody,
    answer_sends hfalse, (handle_of_method requestedMethod_build rfl).2, execute,
    forkchoiceUpdated, parseParamsV3_build]
  rfl

def sampleId : ℕ := (sampleRequest 1 [sampleBytes]).id sampleSha256

/-- What the tests below need of the application: a block under the sample id that can be told
from the genesis block. -/
def HasSample (app : App Unit) : Prop :=
  (∃ block, (memoryOf app.blocks).byPayloadId List.head? sampleId = some block ∧
    block.payloadId ≠ 0) ∧ HeadersSeparate app.blocks

instance (app : App Unit) : Decidable (HasSample app) :=
  decidable_of_iff (((memoryOf app.blocks).byPayloadId List.head? sampleId).any
      (fun block => block.payloadId ≠ 0) ∧
      ∀ a ∈ app.blocks, ∀ b ∈ app.blocks, a.header ≠ b.header → a.hash ≠ b.hash) (by
    unfold HasSample HeadersSeparate
    refine and_congr ?_ Iff.rfl
    cases (memoryOf app.blocks).byPayloadId List.head? sampleId <;> simp)

/-- The genesis block arrives and is stored, and a build is asked for and done. -/
theorem reaches_built : ∃ app, Reaches sampleSetup (GethAnswers sampleSetup.libs sampleGenesis)
    (.start ()) ⟨app, [], [genesisArrival, buildArrival]⟩ ∧ HasSample app := by
  have hgeth : ∀ arrival : Arrival, arrival.geth = some (textOf gethResponse) →
      arrival.http.acceptsGzip = false → GethAnswers sampleSetup.libs sampleGenesis arrival := by
    have hlibs : sampleSetup.libs = sampleLibs := rfl
    rw [hlibs]
    intro arrival hanswer hgzip raw bytes parsed block hraw hbytes hparsed hblock
    obtain rfl := Option.some.inj (hanswer.symm.trans hraw)
    rw [gethText, hgzip, if_neg Bool.false_ne_true, Option.some.injEq] at hbytes
    rw [← hbytes, parse_gethResponse, Option.some.injEq] at hparsed
    rw [← hparsed, extractGenesisBlock_sample] at hblock
    exact (Option.some.inj hblock).symm
  have hbuild : (buildInMemory sampleEnv List.head? (genesisUpdate emptyApp sampleGenesis)
      (sampleRequest 1 [sampleBytes]).payload ((sampleRequest 1 [sampleBytes]).id sampleSha256)
      []).map (fun app => decide (HasSample app)) = some true := by decide +kernel
  obtain ⟨app, happ, hsample⟩ := Option.map_eq_some_iff.mp hbuild
  refine ⟨app, ?_, of_decide_eq_true hsample⟩
  have hlibs : sampleSetup.libs = sampleLibs := rfl
  have hfirst : (Node.start ()).arrive sampleSetup genesisArrival =
      ⟨emptyApp, [.genesisUpdate sampleGenesis], [genesisArrival]⟩ := by
    rw [Node.arrive, hlibs, serve_genesis]
    rfl
  have hsecond : (⟨genesisUpdate emptyApp sampleGenesis, [], [genesisArrival]⟩ : Node Unit).arrive
      sampleSetup buildArrival = ⟨genesisUpdate emptyApp sampleGenesis,
        [.startBlockBuild (sampleRequest 1 [sampleBytes]).payload
          ((sampleRequest 1 [sampleBytes]).id sampleSha256)], [genesisArrival, buildArrival]⟩ := by
    rw [Node.arrive, hlibs, serve_build]
    rfl
  have hstored : Reaches sampleSetup (GethAnswers sampleSetup.libs sampleGenesis) (.start ())
      ⟨genesisUpdate emptyApp sampleGenesis, [], [genesisArrival]⟩ := by
    refine .tail (.single (.arrive genesisArrival (hgeth genesisArrival rfl rfl))) ?_
    rw [hfirst]
    exact .work rfl (.refl _) rfl
  refine .tail (.tail hstored (.arrive buildArrival (hgeth buildArrival rfl rfl))) ?_
  rw [hsecond]
  exact .work rfl (.refl _) happ

theorem block_built_for_authorized_request_sample : ∃ node block arrival head attributes,
    Reaches sampleSetup (GethAnswers sampleSetup.libs sampleGenesis) (.start ()) node ∧
      block ∈ node.app.blocks ∧ arrival ∈ node.arrived ∧
      MadeFor sampleSetup.libs block arrival head attributes := by
  obtain ⟨app, hreach, ⟨block, hread, hid⟩, -⟩ := reaches_built
  have hblock : block ∈ app.blocks :=
    (mem_payloadIds.mp (Multimap.mem_of_getOne picks_head hread)).1
  rcases block_built_for_authorized_request picks_head hreach hblock with
    hgenesis | ⟨arrival, harrival, head, attributes, hmade⟩
  · exact absurd hgenesis.1 hid
  · exact ⟨_, block, arrival, head, attributes, hreach, hblock, harrival, hmade⟩

theorem server_refines_engine_sample : ∃ node engine,
    Reaches sampleSetup (GethAnswers sampleSetup.libs sampleGenesis) (.start ()) node ∧
      EngineRuns sampleEnv List.head? sampleSha256 (fun _ _ => True) engine ∧
      Stands sampleSetup.libs node engine := by
  obtain ⟨app, hreach, -⟩ := reaches_built
  obtain ⟨engine, hrun, hstands⟩ := server_refines_engine hreach
  exact ⟨_, engine, hreach, hrun, hstands⟩

theorem sampleSetup_lawful : sampleSetup.libs.leaves.Lawful := hexLeaves_lawful

theorem paramsList_rpc (method : String) (params : List Json) :
    getParamsList (rpc method params) = params := rfl

theorem requestedMethod_getPayload (params : List Json) :
    requestedMethod (rpc "engine_getPayloadV3" params) = .ok .getPayloadV3 := rfl

theorem requestedMethod_newPayload (params : List Json) :
    requestedMethod (rpc "engine_newPayloadV3" params) = .ok .newPayloadV3 := rfl

/-- The sample payload is asked for by its id and served. -/
theorem served_sample {app : App Unit} {block : ExtendedBlock}
    (hread : (memoryOf app.blocks).byPayloadId List.head? sampleId = some block) :
    (handle sampleSetup.libs.toLibraries (sampleSetup.reader app) (fun _ => true)
      (rpc "engine_getPayloadV3" [payloadIdJson (BitVec.ofNat 64 sampleId)])).1.result =
      some (getPayloadJson sampleSetup.libs.leaves (sampleSetup.served app block)) := by
  have hid : (BitVec.ofNat 64 sampleId).toNat = sampleId := by decide +kernel
  have hknown : (sampleSetup.reader app).payload sampleId =
      some (sampleSetup.served app block) := congrArg (Option.map (sampleSetup.served app)) hread
  rw [(handle_of_method (requestedMethod_getPayload _) rfl).1, execute, getPayload,
    payloadId_written sampleSetup_lawful (paramsList_rpc _ _)]
  simp only [bind, Except.bind, hid, hknown, Except.toOption]

/-- The members of a served payload, sent back as a new payload. -/
def echoOf (result : Json) : Json :=
  rpc "engine_newPayloadV3" [getField result "executionPayload", .array [],
    getField result "parentBeaconBlockRoot"]

theorem requestedMethod_echoOf (result : Json) :
    requestedMethod (echoOf result) = .ok .newPayloadV3 := requestedMethod_newPayload _

theorem paramsList_echoOf (result : Json) : getParamsList (echoOf result) =
    [getField result "executionPayload", .array [], getField result "parentBeaconBlockRoot"] :=
  paramsList_rpc _ _

theorem served_payload_is_accepted_sample : ∃ node result block,
    Reaches sampleSetup (GethAnswers sampleSetup.libs sampleGenesis) (.start ()) node ∧
      result = getPayloadJson sampleSetup.libs.leaves (sampleSetup.served node.app block) ∧
      (handle sampleSetup.libs.toLibraries (sampleSetup.reader node.app) (fun _ => true)
        (echoOf result)).1.result =
        some (payloadStatusJson sampleSetup.libs.leaves ⟨.valid, some block.hash, none⟩) := by
  obtain ⟨app, hreach, ⟨block, hread, -⟩, hhash⟩ := reaches_built
  obtain ⟨found, -, hresult, hvalid⟩ := served_payload_is_accepted picks_head sampleSetup_lawful
    rfl rfl hreach .refl hhash (requestedMethod_getPayload _) (served_sample hread)
    (requestedMethod_echoOf _) (paramsList_echoOf _)
  exact ⟨_, _, found, hreach, hresult, hvalid⟩

def newPayloadRequest (leaves : Leaves) (payload : ExecutionPayloadV3) (root : B256) : Json :=
  rpc "engine_newPayloadV3" [(executionPayloadV3 leaves).form.write payload,
    leaves.b256.list.write [], leaves.b256.write root]

theorem requestedMethod_newPayloadRequest (leaves : Leaves) (payload : ExecutionPayloadV3)
    (root : B256) : requestedMethod (newPayloadRequest leaves payload root) = .ok .newPayloadV3 :=
  requestedMethod_newPayload _

theorem newPayloadParams_request {libs : EngineApi.Libraries} (hleaves : libs.leaves.Lawful)
    (payload : ExecutionPayloadV3) (root : B256) :
    newPayloadParams libs (newPayloadRequest libs.leaves payload root) = .ok (payload, [], root) :=
  newPayloadParams_written hleaves (paramsList_rpc _ _)

/-- The payload of the sample block is valid, since it matches the block. -/
theorem newPayload_valid_iff_sample : ∃ node block payload root,
    Reaches sampleSetup (GethAnswers sampleSetup.libs sampleGenesis) (.start ()) node ∧
      block ∈ node.app.blocks ∧ block.hash = payload.blockHash ∧
      (handle sampleSetup.libs.toLibraries (sampleSetup.reader node.app) (fun _ => true)
        (newPayloadRequest sampleSetup.libs.leaves payload root)).1.result =
        some (payloadStatusJson sampleSetup.libs.leaves
          ⟨.valid, some payload.blockHash, none⟩) := by
  obtain ⟨app, hreach, ⟨block, hread, -⟩, hhash⟩ := reaches_built
  have hblock : block ∈ app.blocks :=
    (mem_payloadIds.mp (Multimap.mem_of_getOne picks_head hread)).1
  obtain ⟨payload, root, hsame, hmatches⟩ := exists_matches sampleSetup app block
  have hparams := newPayloadParams_request sampleSetup_lawful payload root
  have hmethod := requestedMethod_newPayloadRequest sampleSetup.libs.leaves payload root
  have hiff := newPayload_valid_iff picks_head rfl rfl hreach hhash hmethod hparams
  exact ⟨_, block, payload, root, hreach, hblock, hsame,
    hiff.1.mpr ⟨block, hblock, hsame, hmatches⟩⟩

end Samples

end OpMove.Server
