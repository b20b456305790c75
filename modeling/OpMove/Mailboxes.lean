import Mathlib.Data.List.Basic
import Mathlib.Algebra.BigOperators.Group.List.Basic
import Mathlib.Algebra.GroupWithZero.Nat

/-!
A bounded channel with permits and one consumer. A message takes a permit from the moment its
sender acquires one until the consumer receives it; the consumer then handles the message on its
own state. Calls are in progress side by side, each acquiring permits one at a time: a send needs
one, a reservation needs all of them and gives them back when it returns. What a reservation saw
sent when it was called, and what was handled when it returned, is kept as a history.
-/

namespace OpMove.Mailboxes

variable {A M : Type}

section Machine

inductive Request (M : Type)
  | send (message : M)
  | reserveAll (seen : List M)

/-- A call in progress with the permits it has so far. -/
structure Call (M : Type) where
  request : Request M
  acquired : ℕ

/-- A reservation that returned: what was sent before it was called, what was handled when it
returned, and the consumer's state then. -/
structure Return (A M : Type) where
  seen : List M
  applied : List M
  state : A

structure Mailbox (A M : Type) where
  state : A
  free : ℕ
  queue : List M
  handling : Option M
  calls : List (Call M)
  sent : List M
  applied : List M
  returns : List (Return A M)

def Mailbox.start (capacity : ℕ) (state : A) : Mailbox A M :=
  ⟨state, capacity, [], none, [], [], [], []⟩

def Request.needed (capacity : ℕ) : Request M → ℕ
  | .send _ => 1
  | .reserveAll _ => capacity

/-- The permits that calls hold. -/
def held (calls : List (Call M)) : ℕ := (calls.map Call.acquired).sum

/-- One step of a caller or of the consumer. A reservation returns only where it is allowed. -/
inductive Step (capacity : ℕ) (handles : A → M → A → Prop) (allowed : Mailbox A M → Prop) :
    Mailbox A M → Mailbox A M → Prop
  | callSend {box : Mailbox A M} (message : M) :
      Step capacity handles allowed box { box with calls := box.calls ++ [⟨.send message, 0⟩] }
  | callReserve {box : Mailbox A M} :
      Step capacity handles allowed box
        { box with calls := box.calls ++ [⟨.reserveAll box.sent, 0⟩] }
  | acquire {box : Mailbox A M} {call : Call M} {before after : List (Call M)} {free : ℕ} :
      box.calls = before ++ call :: after → call.acquired < call.request.needed capacity →
      box.free = free + 1 →
      Step capacity handles allowed box
        { box with
          free := free
          calls := before ++ ⟨call.request, call.acquired + 1⟩ :: after }
  | push {box : Mailbox A M} {message : M} {before after : List (Call M)} :
      box.calls = before ++ ⟨.send message, 1⟩ :: after →
      Step capacity handles allowed box
        { box with
          queue := box.queue ++ [message]
          sent := box.sent ++ [message]
          calls := before ++ after }
  | reserved {box : Mailbox A M} {seen : List M} {before after : List (Call M)} :
      box.calls = before ++ ⟨.reserveAll seen, capacity⟩ :: after → allowed box →
      Step capacity handles allowed box
        { box with
          free := box.free + capacity
          calls := before ++ after
          returns := box.returns ++ [⟨seen, box.applied, box.state⟩] }
  | receive {box : Mailbox A M} {message : M} {rest : List M} :
      box.handling = none → box.queue = message :: rest →
      Step capacity handles allowed box
        { box with
          free := box.free + 1
          queue := rest
          handling := some message }
  | finish {box : Mailbox A M} {message : M} {state : A} :
      box.handling = some message → handles box.state message state →
      Step capacity handles allowed box
        { box with
          state := state
          handling := none
          applied := box.applied ++ [message] }

/-- Every interleaving of callers and consumer. -/
inductive Runs (capacity : ℕ) (handles : A → M → A → Prop) (allowed : Mailbox A M → Prop)
    (start : A) : Mailbox A M → Prop
  | start : Runs capacity handles allowed start (.start capacity start)
  | step {box next : Mailbox A M} : Runs capacity handles allowed start box →
      Step capacity handles allowed box next → Runs capacity handles allowed start next

/-- Messages handled one after the other. -/
inductive Handled (handles : A → M → A → Prop) (start : A) : List M → A → Prop
  | nil : Handled handles start [] start
  | snoc {messages : List M} {message : M} {state next : A} : Handled handles start messages state →
      handles state message next → Handled handles start (messages ++ [message]) next

end Machine

section Invariant

variable {capacity : ℕ} {handles : A → M → A → Prop} {allowed : Mailbox A M → Prop} {start : A}
variable {box next : Mailbox A M}

/-- Permits are conserved and messages stay in order. -/
structure Inv (capacity : ℕ) (handles : A → M → A → Prop) (start : A) (box : Mailbox A M) :
    Prop where
  permits : box.free + box.queue.length + held box.calls = capacity
  order : box.sent = box.applied ++ box.handling.toList ++ box.queue
  handled : Handled handles start box.applied box.state
  seen : ∀ call ∈ box.calls, ∀ messages, call.request = .reserveAll messages →
    messages <+: box.sent

theorem held_append (calls others : List (Call M)) :
    held (calls ++ others) = held calls + held others := by
  simp [held]

theorem held_cons (call : Call M) (calls : List (Call M)) :
    held (call :: calls) = call.acquired + held calls := by
  simp [held]

theorem inv_start : Inv capacity handles start (.start capacity start) :=
  ⟨rfl, rfl, .nil, by simp [Mailbox.start]⟩

theorem Inv.step (h : Inv capacity handles start box)
    (hstep : Step capacity handles allowed box next) : Inv capacity handles start next := by
  obtain ⟨hpermits, horder, hhandled, hseen⟩ := h
  cases hstep with
  | callSend message =>
    refine ⟨?_, horder, hhandled, fun call hcall messages hrequest => ?_⟩
    · simpa [held] using hpermits
    · rcases List.mem_append.mp hcall with hold | hnew
      · exact hseen call hold messages hrequest
      · rw [List.mem_singleton.mp hnew] at hrequest
        cases hrequest
  | callReserve =>
    refine ⟨?_, horder, hhandled, fun call hcall messages hrequest => ?_⟩
    · simpa [held] using hpermits
    · rcases List.mem_append.mp hcall with hold | hnew
      · exact hseen call hold messages hrequest
      · rw [List.mem_singleton.mp hnew] at hrequest
        cases hrequest
        exact List.prefix_rfl
  | @acquire call before after free hcalls _ hfree =>
    rw [hcalls] at hpermits hseen
    refine ⟨?_, horder, hhandled, fun other hother messages hrequest => ?_⟩
    · simp only [held_append, held_cons] at hpermits ⊢
      omega
    · rcases List.mem_append.mp hother with hold | hrest
      · exact hseen other (List.mem_append_left _ hold) messages hrequest
      · rcases List.mem_cons.mp hrest with rfl | hold
        · exact hseen call (by simp) messages hrequest
        · exact hseen other (by simp [hold]) messages hrequest
  | @push message before after hcalls =>
    rw [hcalls] at hpermits hseen
    refine ⟨?_, ?_, hhandled, fun other hother messages hrequest => ?_⟩
    · simp only [held_append, held_cons, List.length_append, List.length_singleton]
        at hpermits ⊢
      omega
    · simp only [horder, List.append_assoc]
    · have hold : other ∈ before ++ ⟨.send message, 1⟩ :: after := by
        rcases List.mem_append.mp hother with hmem | hmem <;> simp [hmem]
      exact (hseen other hold messages hrequest).trans (List.prefix_append _ _)
  | @reserved seen before after hcalls _ =>
    rw [hcalls] at hpermits hseen
    refine ⟨?_, horder, hhandled, fun other hother messages hrequest => ?_⟩
    · simp only [held_append, held_cons] at hpermits ⊢
      omega
    · have hold : other ∈ before ++ ⟨.reserveAll seen, capacity⟩ :: after := by
        rcases List.mem_append.mp hother with hmem | hmem <;> simp [hmem]
      exact hseen other hold messages hrequest
  | @receive message rest hidle hqueue =>
    rw [hqueue] at hpermits horder
    rw [hidle] at horder
    refine ⟨?_, ?_, hhandled, hseen⟩
    · simp only [List.length_cons] at hpermits ⊢
      omega
    · simpa using horder
  | @finish message state hhandling hhandles =>
    rw [hhandling] at horder
    exact ⟨hpermits, by simpa using horder, hhandled.snoc hhandles, hseen⟩

theorem inv_of_runs (h : Runs capacity handles allowed start box) :
    Inv capacity handles start box := by
  induction h with
  | start => exact inv_start
  | step _ hstep ih => exact ih.step hstep

/-- A reservation that holds every permit has emptied the channel. -/
theorem Inv.queue_eq_nil (h : Inv capacity handles start box) {request : Request M}
    {before after : List (Call M)} (hcalls : box.calls = before ++ ⟨request, capacity⟩ :: after) :
    box.queue = [] := by
  have hpermits := h.permits
  simp only [hcalls, held_append, held_cons] at hpermits
  exact List.length_eq_zero_iff.mp (by omega)

/-- What was sent before a reservation was called is handled when it returns, up to the message
in the consumer's hands. -/
theorem Inv.seen_prefix (h : Inv capacity handles start box) {seen : List M}
    {before after : List (Call M)}
    (hcalls : box.calls = before ++ ⟨.reserveAll seen, capacity⟩ :: after) :
    seen <+: box.applied ++ box.handling.toList := by
  have horder := h.order
  rw [h.queue_eq_nil hcalls, List.append_nil] at horder
  rw [← horder]
  exact h.seen ⟨.reserveAll seen, capacity⟩ (by simp [hcalls]) seen rfl

end Invariant

section Returns

variable {capacity : ℕ} {handles : A → M → A → Prop} {allowed : Mailbox A M → Prop}
variable {box next : Mailbox A M}

/-- A reservation is in the history already, or it returns in this step with every permit. -/
theorem returns_of_step {ret : Return A M} (hstep : Step capacity handles allowed box next)
    (hret : ret ∈ next.returns) : ret ∈ box.returns ∨
      allowed box ∧ ret.applied = box.applied ∧ ret.state = box.state ∧
        ∃ before after, box.calls = before ++ ⟨.reserveAll ret.seen, capacity⟩ :: after := by
  cases hstep with
  | @reserved seen before after hcalls hallowed =>
    rcases List.mem_append.mp hret with hold | hnew
    · exact Or.inl hold
    · rw [List.mem_singleton.mp hnew]
      exact Or.inr ⟨hallowed, rfl, rfl, before, after, hcalls⟩
  | _ => exact Or.inl hret

end Returns

end OpMove.Mailboxes
