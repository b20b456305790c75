import OpMove.Payments
import Mathlib.Data.List.Induction

/-!
Balances that are changed through a journal. Every operation records an entry in the
last frame of the journal, a frame is opened at a checkpoint, and going back to a
checkpoint undoes the entries from there on and drops them. What is left in the journal
therefore accounts for the balances: they differ from the first ones by its net.
-/

namespace OpMove.JournaledBalances

open Payments

/-- `destroyed` takes everything from an account created in the same run; when it is its
own target the amount is burnt. -/
inductive Entry (A : Type)
  | transfer (source target : A) (amount : ℕ)
  | destroyed (account target : A) (amount : ℕ)
  | created (account : A)
  | other
  deriving DecidableEq, Repr

structure Journaled (A : Type) where
  balances : A → ℕ
  journal : List (List (Entry A))

inductive Operation (A : Type)
  | transfer (source target : A) (amount : ℕ)
  | selfdestruct (account target : A)
  | create (account : A)
  | touch
  | checkpoint
  | revert (frames : ℕ)

variable {A : Type} [DecidableEq A]

section Entries

def move (source target : A) (amount : ℕ) (balances : A → ℕ) : A → ℕ :=
  let taken := Function.update balances source (balances source - amount)
  Function.update taken target (taken target + amount)

/-- What an entry does to the balances, if it can be done. -/
def Entry.apply (entry : Entry A) (balances : A → ℕ) : Option (A → ℕ) :=
  match entry with
  | .transfer source target amount =>
    if amount ≤ balances source then some (move source target amount balances) else none
  | .destroyed account target amount =>
    if balances account = amount then
      if account = target then some (Function.update balances account 0)
      else some (move account target amount balances)
    else none
  | .created _ | .other => some balances

def Entry.undo (entry : Entry A) (balances : A → ℕ) : A → ℕ :=
  match entry with
  | .transfer source target amount => move target source amount balances
  | .destroyed account target amount =>
    if account = target then Function.update balances account (balances account + amount)
    else move target account amount balances
  | .created _ | .other => balances

def Entry.delta (entry : Entry A) (a : A) : ℤ :=
  match entry with
  | .transfer source target amount => Payment.delta ⟨source, target, amount⟩ a
  | .destroyed account target amount =>
    if account = target then if a = account then -(amount : ℤ) else 0
    else Payment.delta ⟨account, target, amount⟩ a
  | .created _ | .other => 0

def netEntries (entries : List (Entry A)) (a : A) : ℤ :=
  (entries.map fun entry => entry.delta a).sum

theorem move_moves (source target : A) {amount : ℕ} {balances : A → ℕ}
    (h : amount ≤ balances source) :
    Moves balances (move source target amount balances)
      (Payment.delta ⟨source, target, amount⟩) := by
  intro a
  unfold move Payment.delta
  by_cases htarget : a = target
  · subst htarget
    by_cases hsource : a = source
    · subst hsource
      simp only [Function.update_self, if_true]
      omega
    · simp [hsource]
  · by_cases hsource : a = source
    · subst hsource
      simp only [Function.update_of_ne htarget, Function.update_self, if_neg htarget, if_true]
      omega
    · simp [htarget, hsource]

/-- Moving an amount back restores the balances. -/
theorem move_move_back (source target : A) {amount : ℕ} {balances : A → ℕ}
    (h : amount ≤ balances source) :
    move target source amount (move source target amount balances) = balances := by
  have hthere := move_moves source target h
  have hback : amount ≤ move source target amount balances target := by
    unfold move
    rw [Function.update_self]
    omega
  funext a
  have hreturn := move_moves target source hback a
  have hgone := hthere a
  unfold Payment.delta at hreturn hgone
  simp only at hreturn hgone
  omega

theorem Entry.undo_apply {entry : Entry A} {balances after : A → ℕ}
    (h : entry.apply balances = some after) : entry.undo after = balances := by
  cases entry with
  | transfer source target amount =>
    simp only [Entry.apply] at h
    split_ifs at h with hamount
    rw [← Option.some.inj h]
    exact move_move_back source target hamount
  | destroyed account target amount =>
    simp only [Entry.apply] at h
    split_ifs at h with hamount htarget
    · subst hamount
      rw [← Option.some.inj h]
      simp [Entry.undo, htarget]
    · rw [← Option.some.inj h]
      simp only [Entry.undo, if_neg htarget]
      exact move_move_back account target (le_of_eq hamount.symm)
  | created account => exact (Option.some.inj h).symm
  | other => exact (Option.some.inj h).symm

theorem Entry.apply_moves {entry : Entry A} {balances after : A → ℕ}
    (h : entry.apply balances = some after) : Moves balances after entry.delta := by
  cases entry with
  | transfer source target amount =>
    simp only [Entry.apply] at h
    split_ifs at h with hamount
    rw [← Option.some.inj h]
    exact move_moves source target hamount
  | destroyed account target amount =>
    simp only [Entry.apply] at h
    split_ifs at h with hamount htarget
    · subst hamount htarget
      rw [← Option.some.inj h]
      intro a
      by_cases ha : a = account
      · subst ha
        simp [Entry.delta]
      · simp [Entry.delta, ha]
    · rw [← Option.some.inj h]
      have hmoves := move_moves account target (le_of_eq hamount.symm)
      intro a
      rw [hmoves a]
      simp [Entry.delta, htarget]
  | created account =>
    rw [← Option.some.inj h]
    exact Moves.refl balances
  | other =>
    rw [← Option.some.inj h]
    exact Moves.refl balances

end Entries

section Operations

def record (journal : List (List (Entry A))) (entry : Entry A) : List (List (Entry A)) :=
  journal.dropLast ++ [journal.getLast?.getD [] ++ [entry]]

def Journaled.perform (state : Journaled A) (entry : Entry A) : Option (Journaled A) :=
  (entry.apply state.balances).map fun balances => ⟨balances, record state.journal entry⟩

/-- The account was created in this run. -/
def Journaled.isCreated (state : Journaled A) (account : A) : Bool :=
  state.journal.flatten.contains (.created account)

/-- Destroying an account that is older than the run only moves its balance. -/
def Journaled.step (state : Journaled A) : Operation A → Option (Journaled A)
  | .transfer source target amount => state.perform (.transfer source target amount)
  | .selfdestruct account target =>
    if state.isCreated account then
      state.perform (.destroyed account target (state.balances account))
    else if account = target then some state
    else state.perform (.transfer account target (state.balances account))
  | .create account => state.perform (.created account)
  | .touch => state.perform .other
  | .checkpoint => some { state with journal := state.journal ++ [[]] }
  | .revert frames => some {
      balances := (state.journal.drop frames).flatten.foldr Entry.undo state.balances
      journal := state.journal.take frames }

def Journaled.run (state : Journaled A) (operations : List (Operation A)) :
    Option (Journaled A) :=
  operations.foldlM Journaled.step state

/-- The entries lead from the first balances to the present ones. -/
inductive Accounts (first : A → ℕ) : List (Entry A) → (A → ℕ) → Prop
  | nil : Accounts first [] first
  | snoc {entries : List (Entry A)} {balances after : A → ℕ} {entry : Entry A} :
    Accounts first entries balances → entry.apply balances = some after →
      Accounts first (entries ++ [entry]) after

theorem Accounts.moves {first balances : A → ℕ} {entries : List (Entry A)}
    (h : Accounts first entries balances) : Moves first balances (netEntries entries) := by
  induction h with
  | nil => exact Moves.refl first
  | snoc _ happly ih =>
    intro a
    rw [ih.trans (Entry.apply_moves happly) a]
    simp [netEntries]

/-- Undoing the last entries leads back to the balances before them. -/
theorem Accounts.undo {first balances : A → ℕ} (kept dropped : List (Entry A))
    (h : Accounts first (kept ++ dropped) balances) :
    Accounts first kept (dropped.foldr Entry.undo balances) := by
  induction dropped using List.reverseRecOn generalizing balances with
  | nil =>
    rw [List.append_nil] at h
    exact h
  | append_singleton dropped entry ih =>
    rw [← List.append_assoc] at h
    generalize hentries : kept ++ dropped ++ [entry] = entries at h
    cases h with
    | nil => simp at hentries
    | snoc hbefore happly =>
      obtain ⟨hinit, hlast⟩ := List.append_inj' hentries rfl
      obtain rfl : entry = _ := by simpa using hlast
      rw [List.foldr_append, List.foldr_cons, List.foldr_nil, Entry.undo_apply happly]
      exact ih (hinit ▸ hbefore)

omit [DecidableEq A] in
theorem flatten_record (journal : List (List (Entry A))) (entry : Entry A) :
    (record journal entry).flatten = journal.flatten ++ [entry] := by
  unfold record
  cases hlast : journal.getLast? with
  | none => simp [List.getLast?_eq_none_iff.mp hlast]
  | some frame =>
    obtain ⟨frames, rfl⟩ := List.getLast?_eq_some_iff.mp hlast
    simp

theorem accounts_perform {first : A → ℕ} {state next : Journaled A} {entry : Entry A}
    (h : Accounts first state.journal.flatten state.balances)
    (hstep : state.perform entry = some next) :
    Accounts first next.journal.flatten next.balances := by
  obtain ⟨balances, happly, rfl⟩ := Option.map_eq_some_iff.mp hstep
  rw [flatten_record]
  exact .snoc h happly

theorem accounts_step {first : A → ℕ} {state next : Journaled A}
    (h : Accounts first state.journal.flatten state.balances) (operation : Operation A)
    (hstep : state.step operation = some next) :
    Accounts first next.journal.flatten next.balances := by
  cases operation with
  | transfer source target amount => exact accounts_perform h hstep
  | create account => exact accounts_perform h hstep
  | touch => exact accounts_perform h hstep
  | selfdestruct account target =>
    simp only [Journaled.step] at hstep
    split_ifs at hstep with hcreated hself
    · exact accounts_perform h hstep
    · rw [← Option.some.inj hstep]
      exact h
    · exact accounts_perform h hstep
  | checkpoint =>
    rw [← Option.some.inj hstep]
    simpa using h
  | revert frames =>
    rw [← Option.some.inj hstep]
    apply Accounts.undo
    rw [← List.flatten_append, List.take_append_drop]
    exact h

/-- Along every run the journal accounts for the balances. -/
theorem accounts_run {first : A → ℕ} {state final : Journaled A}
    (operations : List (Operation A)) (hrun : state.run operations = some final)
    (h : Accounts first state.journal.flatten state.balances) :
    Accounts first final.journal.flatten final.balances := by
  induction operations generalizing state with
  | nil =>
    rw [← Option.some.inj hrun]
    exact h
  | cons operation operations ih =>
    unfold Journaled.run at hrun
    rw [List.foldlM_cons, Option.bind_eq_bind, Option.bind_eq_some_iff] at hrun
    obtain ⟨next, hstep, hrest⟩ := hrun
    exact ih hrest (accounts_step h operation hstep)

theorem moves_of_run {balances : A → ℕ} {final : Journaled A} (operations : List (Operation A))
    (hrun : Journaled.run ⟨balances, [[]]⟩ operations = some final) :
    Moves balances final.balances (netEntries final.journal.flatten) :=
  (accounts_run operations hrun Accounts.nil).moves

end Operations

end OpMove.JournaledBalances
