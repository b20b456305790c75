import OpMove.CommandRuns
import OpMove.PayloadIds

/-!
Requests for payloads and the actor that builds them. A request is answered at once with a
payload id computed from its head; its command waits in a queue, and when the actor takes it
the block goes on top of whatever block is the latest by then. Beside each queued command stands
the head it was requested for, which the command itself does not carry.
-/

namespace OpMove.Forkchoice

open Primitives Transactions BlockBuilding BlockAgreement CommandRuns Multimaps BlockStore
open PayloadIds

section Requests

inductive Status
  | valid
  | invalid
  | syncing
  | accepted
  | invalidBlockHash
  deriving DecidableEq, Repr

structure PayloadStatusV1 where
  status : Status
  latestValidHash : Option B256
  validationError : Option String
  deriving DecidableEq, Repr

structure ForkchoiceUpdatedResponseV1 where
  payloadStatus : PayloadStatusV1
  payloadId : Option ℕ
  deriving DecidableEq, Repr

variable (sha256 : Bytes → Bytes)

/-- The answer to a request and the command it puts into the queue. -/
def innerExecuteV3 (head : B256) (payloadAttributes : Option Payload) :
    ForkchoiceUpdatedResponseV1 × Option Command :=
  let payloadStatus : PayloadStatusV1 := ⟨.valid, some head, none⟩
  match payloadAttributes with
  | some payload =>
      let payloadId := newPayloadId sha256 (toPayloadIdInput payload head)
      (⟨payloadStatus, some payloadId⟩, some (.startBlockBuild payload payloadId))
  | none => (⟨payloadStatus, none⟩, none)

end Requests

section Engine

/-- A queued command, with the head if it is a requested build. -/
structure Message where
  command : Command
  head : Option B256

/-- The application, the queue in front of it and the requests answered with a payload id. -/
structure Engine (σ : Type) where
  app : App σ
  queue : List Message
  answered : List Request

variable {σ χ : Type} (env : Env σ χ) (pick : List ExtendedBlock → Option ExtendedBlock)
variable (sha256 : Bytes → Bytes)

def handleInMemory (drained : List Item) (app : App σ) : Command → Option (App σ)
  | .startBlockBuild attributes id => buildInMemory env pick app attributes id drained
  | .addTransaction tx => addTransaction env app tx
  | .genesisUpdate block => some (genesisUpdate app block)

/-- What others than the engine API send; a genesis block has the default payload id. -/
def SentElsewhere : Command → Prop
  | .startBlockBuild _ _ => False
  | .addTransaction _ => True
  | .genesisUpdate block => block.payloadId = 0

def Engine.send (engine : Engine σ) (command : Command) (head : Option B256) : Engine σ :=
  { engine with queue := engine.queue ++ [⟨command, head⟩] }

/-- `engine_forkchoiceUpdatedV3`. -/
def Engine.forkchoiceUpdated (engine : Engine σ) (head : B256) (attributes : Option Payload) :
    Engine σ :=
  match (innerExecuteV3 sha256 head attributes).2 with
  | some command =>
      { engine.send command (some head) with
        answered := engine.answered ++ attributes.toList.map fun payload => ⟨head, payload⟩ }
  | none => engine

/-- Every interleaving of requests with the work of the actor. -/
inductive EngineRuns (allowed : App σ → Message → Prop) : Engine σ → Prop
  | initial (state : σ) : EngineRuns allowed ⟨⟨state, [], [], [], []⟩, [], []⟩
  | forkchoiceUpdated {engine : Engine σ} (head : B256) (attributes : Option Payload) :
      EngineRuns allowed engine →
      EngineRuns allowed (engine.forkchoiceUpdated sha256 head attributes)
  | send {engine : Engine σ} {command : Command} : EngineRuns allowed engine →
      SentElsewhere command → EngineRuns allowed (engine.send command none)
  | work {engine : Engine σ} {message : Message} {rest : List Message} {drained : List Item}
      {app : App σ} : EngineRuns allowed engine → engine.queue = message :: rest →
      allowed engine.app message → drained.Perm engine.app.memPool →
      handleInMemory env pick drained engine.app message.command = some app →
      EngineRuns allowed { engine with app := app, queue := rest }

/-- The block under the id that answered a request goes on from the requested head. -/
def ExtendsHeads (engine : Engine σ) : Prop :=
  ∀ request ∈ engine.answered, ∀ id,
    (innerExecuteV3 sha256 request.head (some request.payload)).1.payloadId = some id →
      ∀ block, (memoryOf engine.app.blocks).byPayloadId pick id = some block →
        block.header.parentHash = request.head

/-- When the actor takes a build that has no block yet, the requested head is the latest block. -/
def OnLatest (app : App σ) (message : Message) : Prop :=
  ∀ attributes id, message.command = .startBlockBuild attributes id →
    (memoryOf app.blocks).byPayloadId pick id = none →
      ((memoryOf app.blocks).last pick).map (fun block => block.hash) = message.head

end Engine

section Heads

variable {σ χ : Type} {env : Env σ χ} {pick : List ExtendedBlock → Option ExtendedBlock}
variable {sha256 : Bytes → Bytes} {engine : Engine σ}

/-- What stays true while every build goes on top of its head. -/
structure EngineInv (sha256 : Bytes → Bytes) (engine : Engine σ) : Prop where
  queued : ∀ message ∈ engine.queue, SentElsewhere message.command ∨
    ∃ request ∈ engine.answered,
      message = ⟨.startBlockBuild request.payload (request.id sha256), some request.head⟩
  stored : ∀ block ∈ engine.app.blocks, block.payloadId = 0 ∨
    ∃ request ∈ engine.answered,
      block.payloadId = request.id sha256 ∧ block.header.parentHash = request.head

theorem EngineInv.send {command : Command} {head : Option B256} {answered : List Request}
    (h : EngineInv sha256 engine) (hanswered : ∀ request ∈ engine.answered, request ∈ answered)
    (hcommand : SentElsewhere command ∨ ∃ request ∈ answered,
      (⟨command, head⟩ : Message) =
        ⟨.startBlockBuild request.payload (request.id sha256), some request.head⟩) :
    EngineInv sha256 { engine.send command head with answered := answered } := by
  constructor
  · intro message hmessage
    rcases List.mem_append.mp hmessage with hold | hnew
    · rcases h.queued message hold with helse | ⟨request, hrequest, heq⟩
      · exact Or.inl helse
      · exact Or.inr ⟨request, hanswered request hrequest, heq⟩
    · rw [List.mem_singleton.mp hnew]
      exact hcommand
  · intro block hblock
    rcases h.stored block hblock with hzero | ⟨request, hrequest, hid, hparent⟩
    · exact Or.inl hzero
    · exact Or.inr ⟨request, hanswered request hrequest, hid, hparent⟩

theorem EngineInv.forkchoiceUpdated (h : EngineInv sha256 engine) (head : B256)
    (attributes : Option Payload) :
    EngineInv sha256 (engine.forkchoiceUpdated sha256 head attributes) := by
  cases attributes with
  | none => exact h
  | some payload =>
    refine h.send (fun request hrequest => List.mem_append_left _ hrequest) (Or.inr ?_)
    exact ⟨⟨head, payload⟩, List.mem_append_right _ (List.mem_singleton_self _), rfl⟩

/-- A block that is built for a message goes on from the head the message came with. -/
theorem parentHash_of_built (hpick : Picks pick) {app : App σ} {message : Message}
    {attributes : Payload} {id : ℕ} {drained : List Item} {built : Built σ}
    (hcommand : message.command = .startBlockBuild attributes id)
    (hlatest : OnLatest pick app message) (hnew : ∀ block ∈ app.blocks, block.payloadId ≠ id)
    (hbuilt : buildBlock env { app with blocks := visible pick app.blocks } attributes id drained =
      some built) :
    some built.block.header.parentHash = message.head ∧ built.block.payloadId = id := by
  obtain ⟨parent, hparent, hhash, -, hid, -⟩ := buildBlock_block env hbuilt
  have hparent : latestBlock (visible pick app.blocks) = some parent := hparent
  rw [latestBlock_visible hpick] at hparent
  have hunknown : (memoryOf app.blocks).byPayloadId pick id = none := by
    rw [← Option.not_isSome_iff_eq_none, isSome_byPayloadId_iff hpick]
    rintro ⟨block, hblock, hsame⟩
    exact hnew block hblock hsame
  have hhead := hlatest attributes id hcommand hunknown
  rw [hparent, Option.map_some] at hhead
  exact ⟨by rw [hhash, hhead], hid⟩

theorem EngineInv.work (hpick : Picks pick) (h : EngineInv sha256 engine) {message : Message}
    {rest : List Message} {drained : List Item} {app : App σ}
    (hqueue : engine.queue = message :: rest) (hlatest : OnLatest pick engine.app message)
    (hwork : handleInMemory env pick drained engine.app message.command = some app) :
    EngineInv sha256 { engine with app := app, queue := rest } := by
  have hmessage := h.queued message (hqueue ▸ List.mem_cons_self)
  refine ⟨fun other hother => h.queued other (hqueue ▸ List.mem_cons_of_mem _ hother), ?_⟩
  intro block hblock
  have hblock : block ∈ app.blocks := hblock
  cases hcommand : message.command with
  | startBlockBuild attributes id =>
    rw [hcommand] at hwork
    rcases buildInMemory_cases hpick hwork with ⟨-, rfl⟩ | ⟨hnew, built, hbuilt, rfl⟩
    · exact h.stored block hblock
    · rcases List.mem_append.mp hblock with hold | hlast
      · exact h.stored block hold
      · rw [List.mem_singleton.mp hlast]
        obtain ⟨hparent, hid⟩ := parentHash_of_built hpick hcommand hlatest hnew hbuilt
        rcases hmessage with helse | ⟨request, hrequest, rfl⟩
        · rw [hcommand] at helse
          exact helse.elim
        · obtain ⟨-, rfl⟩ := Command.startBlockBuild.inj hcommand
          exact Or.inr ⟨request, hrequest, hid, Option.some.inj hparent⟩
  | addTransaction tx =>
    rw [hcommand] at hwork
    rw [addTransaction_blocks hwork] at hblock
    exact h.stored block hblock
  | genesisUpdate genesis =>
    rw [hcommand] at hwork
    obtain rfl := Option.some.inj hwork
    rcases List.mem_append.mp hblock with hold | hlast
    · exact h.stored block hold
    · rw [List.mem_singleton.mp hlast]
      rcases hmessage with helse | ⟨request, -, rfl⟩
      · rw [hcommand] at helse
        exact Or.inl helse
      · cases hcommand

theorem engineInv_of_runs (hpick : Picks pick)
    (hrun : EngineRuns env pick sha256 (OnLatest pick) engine) : EngineInv sha256 engine := by
  induction hrun with
  | initial state => exact ⟨by simp, by simp⟩
  | forkchoiceUpdated head attributes _ ih => exact ih.forkchoiceUpdated head attributes
  | send _ helse ih => exact ih.send (fun _ hrequest => hrequest) (Or.inl helse)
  | work _ hqueue hlatest _ hwork ih => exact ih.work hpick hqueue hlatest hwork

/-- In every run in which builds meet the latest block at their requested head, the block under
an answered id goes on from the head of the request. -/
theorem payload_extends_head (hpick : Picks pick) (hsha : ∀ bytes, (sha256 bytes).length = 32)
    (hrun : EngineRuns env pick sha256 (OnLatest pick) engine)
    (htime : ∀ request ∈ engine.answered, request.payload.timestamp < 2 ^ 64)
    (hids : ∀ first ∈ engine.answered, ∀ second ∈ engine.answered,
      first.id sha256 = second.id sha256 → hashedBytes first.input = hashedBytes second.input) :
    ExtendsHeads pick sha256 engine := by
  intro request hrequest id hid block hblock
  obtain rfl : request.id sha256 = id := Option.some.inj hid
  obtain ⟨hmem, hsame⟩ := mem_payloadIds.mp (Multimap.mem_of_getOne hpick hblock)
  rcases (engineInv_of_runs hpick hrun).stored block hmem with hzero | ⟨other, hother, hid, hparent⟩
  · exact absurd (hsame.symm.trans hzero) 
      (newPayloadId_ne_zero (hsha _) (show (3 : UInt8) ≠ 0 by decide))
  · have hbytes := hids other hother request hrequest (hid.symm.trans hsame)
    have hfields := (hashedBytes_eq_iff (htime other hother) (htime request hrequest)).mp hbytes
    rw [hparent, hfields.head]

end Heads

section Samples

/-- The genesis block is stored and the given requests are waiting. -/
def waiting (requests : List (ℕ × List Bytes)) : Engine Unit :=
  requests.foldl (fun engine request =>
    engine.forkchoiceUpdated sampleSha256 0
      (some (sampleRequest request.1 request.2).payload)) ⟨sampleApp, [], []⟩

theorem engineRuns_waiting (allowed : App Unit → Message → Prop)
    (hallowed : ∀ app, allowed app ⟨.genesisUpdate sampleGenesis, none⟩)
    (requests : List (ℕ × List Bytes)) :
    EngineRuns sampleEnv List.head? sampleSha256 allowed (waiting requests) := by
  have hgenesis : EngineRuns sampleEnv List.head? sampleSha256 allowed ⟨sampleApp, [], []⟩ :=
    .work (.send (.initial ()) (show SentElsewhere (.genesisUpdate sampleGenesis) from rfl)) rfl
      (hallowed _) (.refl _) rfl
  unfold waiting
  induction requests using List.reverseRecOn with
  | nil => exact hgenesis
  | append_singleton requests request ih =>
    rw [List.foldl_append, List.foldl_cons, List.foldl_nil]
    exact .forkchoiceUpdated _ _ ih

/-- Two requests for one head are answered before the actor takes the first of them: the second
block goes on top of the first one. -/
theorem second_payload_misses_head : ∃ engine,
    EngineRuns sampleEnv List.head? sampleSha256 (fun _ _ => True) engine ∧ engine.queue = [] ∧
      ¬ ExtendsHeads List.head? sampleSha256 engine := by
  have hfirst : (buildInMemory sampleEnv List.head? sampleApp (sampleRequest 1 []).payload
      ((sampleRequest 1 []).id sampleSha256) []).map (fun app => (app.memPool,
        (buildInMemory sampleEnv List.head? app (sampleRequest 2 []).payload
          ((sampleRequest 2 []).id sampleSha256) []).map fun last =>
            ((memoryOf last.blocks).byPayloadId List.head?
              ((sampleRequest 2 []).id sampleSha256)).map fun block => block.header.parentHash)) =
      some ([], some (some 1)) := by decide +kernel
  obtain ⟨app, happ, hpair⟩ := Option.map_eq_some_iff.mp hfirst
  obtain ⟨hpool, hsecond⟩ := Prod.mk.inj hpair
  obtain ⟨last, hlast, hparent⟩ := Option.map_eq_some_iff.mp hsecond
  obtain ⟨block, hblock, hone⟩ := Option.map_eq_some_iff.mp hparent
  have hrun := engineRuns_waiting (fun _ _ => True) (fun _ => trivial) [(1, []), (2, [])]
  refine ⟨_, .work (.work hrun rfl trivial (.refl _) happ) rfl trivial (hpool ▸ .refl _) hlast, rfl,
    fun hextends => ?_⟩
  have hzero := hextends (sampleRequest 2 []) (by simp [waiting, Engine.forkchoiceUpdated,
    innerExecuteV3, sampleRequest]) _ rfl block hblock
  rw [hone] at hzero
  revert hzero
  decide

theorem payload_extends_head_sample : ∃ engine block,
    EngineRuns sampleEnv List.head? sampleSha256 (OnLatest List.head?) engine ∧
      (memoryOf engine.app.blocks).byPayloadId List.head?
        ((sampleRequest 1 [sampleBytes]).id sampleSha256) = some block ∧
      ExtendsHeads List.head? sampleSha256 engine := by
  have hbuild : (buildInMemory sampleEnv List.head? sampleApp (sampleRequest 1 [sampleBytes]).payload
      ((sampleRequest 1 [sampleBytes]).id sampleSha256) []).map (fun app =>
        ((memoryOf app.blocks).byPayloadId List.head?
          ((sampleRequest 1 [sampleBytes]).id sampleSha256)).isSome) = some true := by
    decide +kernel
  obtain ⟨app, happ, hstored⟩ := Option.map_eq_some_iff.mp hbuild
  obtain ⟨block, hblock⟩ := Option.isSome_iff_exists.mp hstored
  have hgenesis : ∀ app : App Unit, OnLatest List.head? app
      ⟨.genesisUpdate sampleGenesis, none⟩ := by
    intro app attributes id hcommand
    cases hcommand
  have hlatest : OnLatest List.head? sampleApp
      ⟨.startBlockBuild (sampleRequest 1 [sampleBytes]).payload
        ((sampleRequest 1 [sampleBytes]).id sampleSha256), some 0⟩ := by
    intro attributes id _ _
    decide +kernel
  have hrun := EngineRuns.work (engineRuns_waiting (OnLatest List.head?) hgenesis
    [(1, [sampleBytes])]) rfl hlatest (.refl _) happ
  have hanswered : ∀ request ∈ (waiting [(1, [sampleBytes])]).answered,
      request = sampleRequest 1 [sampleBytes] := fun request hrequest => List.mem_singleton.mp hrequest
  refine ⟨_, block, hrun, hblock, payload_extends_head picks_head length_sampleSha256 hrun ?_ ?_⟩
  · intro request hrequest
    rw [hanswered request hrequest]
    decide
  · intro first hfirst second hsecond _
    rw [hanswered first hfirst, hanswered second hsecond]

end Samples

end OpMove.Forkchoice
