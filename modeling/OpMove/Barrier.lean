import OpMove.Forkchoice
import OpMove.Mailboxes

/-!
Waiting for pending commands. Clones of the command queue send commands through a bounded channel
to the actor, which receives one command at a time and handles it. A wait reserves every permit
of the channel; but a command gives its permit back when it is received, before it is handled,
so the last command may still be in the actor's hands when the wait returns.
-/

namespace OpMove.Barrier

open Primitives BlockBuilding BlockAgreement CommandRuns Multimaps BlockStore PayloadIds Forkchoice
open Mailboxes

section Queue

variable {σ χ : Type} (env : Env σ χ) (pick : List ExtendedBlock → Option ExtendedBlock)

/-- `handle_command` of the actor, whatever order the mempool is drained in. -/
def Handles (app : App σ) (command : Command) (next : App σ) : Prop :=
  ∃ drained, drained.Perm app.memPool ∧ handleInMemory env pick drained app command = some next

/-- Senders on any number of clones beside the loop of `work`, over a channel of some capacity.
Each `send` is a call for one permit and each `wait_for_pending_commands` one for all of them. -/
def QueueRuns (capacity : ℕ) (allowed : Mailbox (App σ) Command → Prop) (start : App σ)
    (queue : Mailbox (App σ) Command) : Prop :=
  Runs capacity (Handles env pick) allowed start queue

/-- The actor waits for its next command; nothing is in the middle of `handle_command`. -/
def ActorIdle (queue : Mailbox (App σ) Command) : Prop := queue.handling = none

/-- Everything sent before the call of a wait is completely applied when it returns, and the
application is what handling those commands in order makes of it. -/
def IsBarrier (start : App σ) (ret : Return (App σ) Command) : Prop :=
  ret.seen <+: ret.applied ∧ Handled (Handles env pick) start ret.applied ret.state

def WaitsAreBarriers (start : App σ) (queue : Mailbox (App σ) Command) : Prop :=
  ∀ ret ∈ queue.returns, IsBarrier env pick start ret

variable {env pick} {capacity : ℕ} {start : App σ} {queue : Mailbox (App σ) Command}

/-- A wait that returns while the actor is idle is a barrier. -/
theorem isBarrier_of_idle {seen : List Command} {before after : List (Call Command)}
    (hinv : Inv capacity (Handles env pick) start queue) (hidle : ActorIdle queue)
    (hcalls : queue.calls = before ++ ⟨.reserveAll seen, capacity⟩ :: after) :
    IsBarrier env pick start ⟨seen, queue.applied, queue.state⟩ := by
  have hseen := hinv.seen_prefix hcalls
  rw [show queue.handling = none from hidle, Option.toList_none, List.append_nil] at hseen
  exact ⟨hseen, hinv.handled⟩

/-- In every run whose waits return only while the actor is not handling a command, waiting is a
barrier. -/
theorem waits_are_barriers (hrun : QueueRuns env pick capacity ActorIdle start queue) :
    WaitsAreBarriers env pick start queue := by
  induction hrun with
  | start => simp [WaitsAreBarriers, Mailbox.start]
  | step hruns hstep ih =>
    intro ret hret
    rcases returns_of_step hstep hret with hold |
      ⟨hidle, happlied, hstate, before, after, hcalls⟩
    · exact ih ret hold
    · have hbarrier := isBarrier_of_idle (inv_of_runs hruns) hidle hcalls
      rwa [← happlied, ← hstate] at hbarrier

end Queue

section Samples

def emptyApp : App Unit := ⟨(), [], [], [], []⟩

def genesisCommand : Command := .genesisUpdate sampleGenesis

/-- The channel before and after the genesis block is handled; it has one permit. -/
def received : Mailbox (App Unit) Command :=
  ⟨emptyApp, 1, [], some genesisCommand, [], [genesisCommand], [], []⟩

def finished : Mailbox (App Unit) Command :=
  ⟨genesisUpdate emptyApp sampleGenesis, 1, [], none, [], [genesisCommand], [genesisCommand], []⟩

/-- A wait that is called in a quiet channel and returns with its only permit. -/
def waited (queue : Mailbox (App Unit) Command) : Mailbox (App Unit) Command :=
  { queue with returns := [⟨queue.sent, queue.applied, queue.state⟩] }

variable {allowed : Mailbox (App Unit) Command → Prop}

theorem runs_received : QueueRuns sampleEnv List.head? 1 allowed emptyApp received :=
  have hcalled := Runs.step .start (.callSend genesisCommand)
  have hacquired := Runs.step hcalled
    (@Step.acquire _ _ 1 _ _ _ ⟨.send genesisCommand, 0⟩ [] [] 0 rfl (by decide) rfl)
  have hpushed := Runs.step hacquired (@Step.push _ _ 1 _ _ _ genesisCommand [] [] rfl)
  .step hpushed (.receive rfl rfl)

theorem runs_finished : QueueRuns sampleEnv List.head? 1 allowed emptyApp finished :=
  .step runs_received (.finish rfl ⟨[], .refl _, rfl⟩)

theorem runs_waited {queue : Mailbox (App Unit) Command}
    (hrun : QueueRuns sampleEnv List.head? 1 allowed emptyApp queue) (hfree : queue.free = 1)
    (hcalls : queue.calls = []) (hreturns : queue.returns = [])
    (hallowed : allowed { queue with free := 0, calls := [⟨.reserveAll queue.sent, 1⟩] }) :
    QueueRuns sampleEnv List.head? 1 allowed emptyApp (waited queue) := by
  obtain ⟨state, free, pending, handling, calls, sent, applied, returns⟩ := queue
  simp only at hfree hcalls hreturns
  subst hfree hcalls hreturns
  have hcalled := Runs.step hrun .callReserve
  have hacquired := Runs.step hcalled
    (@Step.acquire _ _ 1 _ _ _ ⟨.reserveAll sent, 0⟩ [] [] 0 rfl Nat.one_pos rfl)
  exact .step hacquired (@Step.reserved _ _ 1 _ _ _ sent [] [] rfl hallowed)

/-- A wait returns while the actor is still handling the genesis block. -/
theorem wait_returns_early :
    QueueRuns sampleEnv List.head? 1 (fun _ => True) emptyApp (waited received) ∧
      ¬ WaitsAreBarriers sampleEnv List.head? emptyApp (waited received) := by
  refine ⟨runs_waited runs_received rfl rfl rfl trivial, fun h => ?_⟩
  have hbarrier := h ⟨[genesisCommand], [], emptyApp⟩ (List.mem_singleton_self _)
  exact absurd (List.prefix_nil.mp hbarrier.1) (List.cons_ne_nil _ _)

/-- A wait that returns once the genesis block is handled. -/
theorem waits_are_barriers_sample :
    (waited finished).returns = [⟨[genesisCommand], [genesisCommand],
      genesisUpdate emptyApp sampleGenesis⟩] ∧
      WaitsAreBarriers sampleEnv List.head? emptyApp (waited finished) :=
  ⟨rfl, waits_are_barriers (runs_waited runs_finished rfl rfl rfl rfl)⟩

end Samples

end OpMove.Barrier
