import OpMove.Extraction
import OpMove.NativeEvm

/-!
Several EVM calls in one session. The database of the context is never written: the
handler only fills its cache, so every call runs on the state the session began with.
A call therefore behaves as if it came after the earlier ones only when it reads
nothing that those have changed.
-/

namespace OpMove.CallSequences

open Primitives Transactions StorageTries StateChanges ReadPrograms NativeEvm Extraction

section Steps

inductive Call
  | transact (args : CallArgs)
  | view (caller target : Address) (value : U256) (data : Bytes) (gasLimit : ℕ)

def Call.args : Call → CallArgs
  | .transact args => args
  | .view caller target value data gasLimit => ⟨caller, .call target, value, data, gasLimit⟩

variable {X : Type} (revm : Revm X) (lib : TrieLibrary)

def callStep (ctx : NativeEVMContext) : Call → Except EVMError ResultAndState × NativeEVMContext
  | .transact args => evmTransactWithNative revm lib ctx args
  | .view caller target value data gasLimit =>
    (evmViewWithNative revm lib ctx caller target value data gasLimit, ctx)

def callSteps (ctx : NativeEVMContext) (calls : List Call) : NativeEVMContext :=
  calls.foldl (fun ctx call => (callStep revm lib ctx call).2) ctx

/-- What a call gives on a database without a cache. -/
def outcomeOn (db : ResolverBackedDB) (blockEnv : BlockEnv) (call : Call) :
    Except EVMError ResultAndState :=
  flattenError ((handlerProgram revm (buildEvm blockEnv call.args)).run (db.answers lib))

/-- The questions a call asks the database. -/
def readsOn (db : ResolverBackedDB) (blockEnv : BlockEnv) (call : Call) : List Query :=
  (handlerProgram revm (buildEvm blockEnv call.args)).reads (db.answers lib)

/-- The cache of the context agrees with the state it was created with. -/
def CacheCoherent (ctx : NativeEVMContext) : Prop := Coherent (ctx.db.answers lib) ctx.cache

theorem handlerRun_spec {answers : Answers Answer DbError} {cache : Cache Answer}
    (h : Coherent answers cache) (logs : EthTransfersLogger) (env : EvmEnv) :
    (handlerRun revm answers cache logs env).1 =
        flattenError ((handlerProgram revm env).run answers) ∧
      Coherent answers (handlerRun revm answers cache logs env).2.1 := by
  obtain ⟨hresult, hcache⟩ := runCached_spec answers (revm.execute env) h
  unfold handlerRun handlerProgram
  rw [run_bind, ← hresult]
  rcases hexecuted : (revm.execute env).runCached answers cache with ⟨executed, cache'⟩
  rw [hexecuted] at hcache
  rcases executed with e | message | machine
  · exact ⟨rfl, hcache⟩
  · exact ⟨rfl, hcache⟩
  · obtain ⟨hfinished, hcache'⟩ := runCached_spec answers (revm.postExecution machine) hcache
    exact ⟨congrArg flattenError hfinished, hcache'⟩

/-- One call: its result is the one on the first state, which stays, as does coherence. -/
theorem callStep_spec {ctx : NativeEVMContext} (h : CacheCoherent lib ctx) (call : Call) :
    (callStep revm lib ctx call).1 = outcomeOn revm lib ctx.db ctx.blockEnv call ∧
      CacheCoherent lib (callStep revm lib ctx call).2 ∧
      (callStep revm lib ctx call).2.db = ctx.db ∧
      (callStep revm lib ctx call).2.blockHeader = ctx.blockHeader ∧
      ∃ maps, (callStep revm lib ctx call).2.stateChanges = ctx.stateChanges ++ maps := by
  cases call with
  | view caller target value data gasLimit =>
    refine ⟨?_, h, rfl, rfl, [], (List.append_nil _).symm⟩
    unfold callStep evmViewWithNative outcomeOn
    dsimp only
    rw [Coherent.overlay_eq h]
    exact congrArg flattenError (runCached_spec _ _ (coherent_empty _)).1
  | transact args =>
    obtain ⟨hresult, hcache⟩ := handlerRun_spec revm h
      (ctx.transferLogs.addTxOrigin (toMoveAddress args.caller) args.value)
      (buildEvm ctx.blockEnv args)
    rcases hrun : handlerRun revm (ctx.db.answers lib) ctx.cache
      (ctx.transferLogs.addTxOrigin (toMoveAddress args.caller) args.value)
      (buildEvm ctx.blockEnv args) with ⟨outcome, cache, logs⟩
    rw [hrun] at hresult hcache
    simp only [callStep, evmTransactWithNative, hrun]
    cases outcome with
    | error e => exact ⟨hresult, hcache, rfl, rfl, [], (List.append_nil _).symm⟩
    | ok outcome => exact ⟨hresult, hcache, rfl, rfl, [outcome.state], rfl⟩

end Steps

section Runs

variable {X : Type} (revm : Revm X) (lib : TrieLibrary) (keccak256 : Bytes → B256)

/-- The context a call would have if the earlier calls had been written to the state. -/
def afterChanges (ctx : NativeEVMContext) (changes : Changes) : NativeEVMContext :=
  .new (applyChanges ctx.state changes) ctx.hashByNumber ctx.blockHeader

/-- The call has the result and the state map it has after the extracted changes of the
earlier calls. -/
def SeesEarlierCalls (ctx : NativeEVMContext) (call : Call) : Prop :=
  ∃ changes, extractEvmChanges lib keccak256 ctx.state ctx.stateChanges = some changes ∧
    (callStep revm lib ctx call).1 =
      (callStep revm lib (afterChanges ctx changes) call).1

/-- The call asks nothing whose answer the extracted changes of the earlier calls alter. -/
def ReadsNothingStale (ctx : NativeEVMContext) (call : Call) : Prop :=
  ∀ changes, extractEvmChanges lib keccak256 ctx.state ctx.stateChanges = some changes →
    ∀ query ∈ readsOn revm lib ctx.db ctx.blockEnv call,
      (afterChanges ctx changes).db.answers lib query = ctx.db.answers lib query

/-- A property of every call of a sequence, each in the context it is made in. -/
def EveryCall (property : NativeEVMContext → Call → Prop) :
    NativeEVMContext → List Call → Prop
  | _, [] => True
  | ctx, call :: calls =>
    property ctx call ∧ EveryCall property (callStep revm lib ctx call).2 calls

theorem sees_of_readsNothingStale {ctx : NativeEVMContext} (hcoherent : CacheCoherent lib ctx)
    (call : Call) {changes : Changes}
    (hextract : extractEvmChanges lib keccak256 ctx.state ctx.stateChanges = some changes)
    (hreads : ReadsNothingStale revm lib keccak256 ctx call) :
    SeesEarlierCalls revm lib keccak256 ctx call := by
  refine ⟨changes, hextract, ?_⟩
  have hnew : CacheCoherent lib (afterChanges ctx changes) := coherent_empty _
  rw [(callStep_spec revm lib hcoherent call).1, (callStep_spec revm lib hnew call).1]
  have hrun := run_eq_of_reads (handlerProgram revm (buildEvm ctx.blockEnv call.args))
    (hreads changes hextract)
  exact congrArg flattenError hrun.symm

end Runs

section Extractable

variable {X : Type} (revm : Revm X) {lib : TrieLibrary} (keccak256 : Bytes → B256)

theorem lawful_mono {occurs fewer : Storage → Prop} (h : lib.Lawful occurs)
    (hfewer : ∀ storage, fewer storage → occurs storage) : lib.Lawful fewer where
  opens store storage hoccurs := h.opens store storage (hfewer storage hoccurs)
  changed opened storage hopened hoccurs :=
    h.changed opened storage (fun old hold => hfewer old (hopened old hold))
      (hfewer storage hoccurs)
  keyed opened new storage hopened hnew hoccurs :=
    h.keyed opened new storage (fun old hold => hfewer old (hopened old hold))
      (hfewer new hnew) (hfewer storage hoccurs)

theorem occurring_append {base : EvmBase lib} {maps more : List StateMap} {storage : Storage}
    (h : Occurring base maps storage) : Occurring base (maps ++ more) storage := by
  obtain ⟨a, hbase | ⟨account, haccount, hstorage⟩⟩ := h
  · exact ⟨a, .inl hbase⟩
  · refine ⟨a, .inr ⟨account, ?_, hstorage⟩⟩
    unfold persistedAll at haccount ⊢
    rw [List.filterMap_append]
    exact List.mem_append_left _ haccount

theorem callSteps_stateChanges {ctx : NativeEVMContext} (h : CacheCoherent lib ctx)
    (calls : List Call) :
    ∃ more, (callSteps revm lib ctx calls).stateChanges = ctx.stateChanges ++ more := by
  induction calls generalizing ctx with
  | nil => exact ⟨[], (List.append_nil _).symm⟩
  | cons call calls ih =>
    obtain ⟨-, hcoherent, -, -, maps, hmaps⟩ := callStep_spec revm lib h call
    obtain ⟨more, hmore⟩ := ih hcoherent
    refine ⟨maps ++ more, ?_⟩
    rw [← List.append_assoc, ← hmaps]
    exact hmore

/-- From any context of a session, calls that read nothing stale see each other. -/
theorem everyCall_sees (base : EvmBase lib) {ctx : NativeEVMContext}
    (hstate : ctx.state = base.toEvmState) (hcoherent : CacheCoherent lib ctx)
    (calls : List Call)
    (hlawful : lib.Lawful (Occurring base (callSteps revm lib ctx calls).stateChanges))
    (hreads : EveryCall revm lib (ReadsNothingStale revm lib keccak256) ctx calls) :
    EveryCall revm lib (SeesEarlierCalls revm lib keccak256) ctx calls := by
  induction calls generalizing ctx with
  | nil => trivial
  | cons call calls ih =>
    obtain ⟨-, hnext, hdb, -, -⟩ := callStep_spec revm lib hcoherent call
    have hnextState : (callStep revm lib ctx call).2.state = base.toEvmState := by
      rw [← hstate]
      exact congrArg ResolverBackedDB.state hdb
    -- extraction works on the maps so far, because it works on those of the whole run
    obtain ⟨more, hmore⟩ := callSteps_stateChanges revm hcoherent (call :: calls)
    rw [hmore] at hlawful
    obtain ⟨changes, hextract, -⟩ := extract_spec keccak256 base ctx.stateChanges
      (lawful_mono hlawful fun storage hstorage => occurring_append hstorage)
    rw [← hstate] at hextract
    refine ⟨sees_of_readsNothingStale revm lib keccak256 hcoherent call hextract hreads.1, ?_⟩
    rw [← hmore] at hlawful
    exact ih hnextState hnext hlawful hreads.2

/-- In a session whose calls each read nothing that an earlier call changed, every call has
the outcome it has on the state with the changes of the earlier calls. -/
theorem sequential_of_readsNothingStale (base : EvmBase lib) (hashByNumber : ℕ → Option B256)
    (blockHeader : HeaderForExecution) (calls : List Call)
    (hlawful : lib.Lawful (Occurring base (callSteps revm lib
      (.new base.toEvmState hashByNumber blockHeader) calls).stateChanges))
    (hreads : EveryCall revm lib (ReadsNothingStale revm lib keccak256)
      (.new base.toEvmState hashByNumber blockHeader) calls) :
    EveryCall revm lib (SeesEarlierCalls revm lib keccak256)
      (.new base.toEvmState hashByNumber blockHeader) calls := by
  have hcoherent : CacheCoherent lib (.new base.toEvmState hashByNumber blockHeader) :=
    coherent_empty _
  exact everyCall_sees revm keccak256 base rfl hcoherent calls hlawful hreads

end Extractable

section Samples

/-- An account that does not exist, as the EVM sees it. -/
def missingInfo : AccountInfo := ⟨0, 0, keccakEmpty, none⟩

/-- A loaded and touched account without code. -/
def touched (info : AccountInfo) : EvmAccount := ⟨{ info with code := some [] }, ∅, true, false⟩

/-- The EVM on a call without value and data to the zero address, which is also the
beneficiary: both accounts are loaded and touched, and the caller's nonce goes up. -/
def pingRevm : Revm (Address × AccountInfo × AccountInfo) where
  execute env :=
    .ask (.basic env.tx.caller) fun caller : Option AccountInfo =>
      .ask (.basic 0) fun target : Option AccountInfo =>
        .done (.ok (env.tx.caller, caller.getD missingInfo, target.getD missingInfo))
  journal _ := [[.other], []]
  postExecution machine := .done (.ok
    ⟨.success 21000 [] [] none,
      (AList.singleton 0 (touched machine.2.2)).insert machine.1
        (touched { machine.2.1 with nonce := machine.2.1.nonce + 1 })⟩)

def ping (caller : Address) : Call := .transact ⟨caller, .call 0, 0, [], 100000⟩

/-- A state with the zero account only. -/
def pingBase : EvmBase sampleLib where
  resources key := if key = .account 0 then some (.account ⟨0, 0, keccakEmpty, emptyRoot⟩) else none
  tries _ := ⟨none, ∅⟩
  storage _ _ := 0
  stores _ := stores_empty _

def pingContext : NativeEVMContext := .new pingBase.toEvmState (fun _ => none) ⟨1, 0, 0⟩

def nonceIn (a : Address) : Except EVMError ResultAndState → Option ℕ
  | .ok outcome => (outcome.state.lookup a).map fun account => account.info.nonce
  | .error _ => none

theorem sampleLib_lawful_of_no_storage {maps : List StateMap}
    (h : ∀ map ∈ maps, ∀ entry ∈ map.entries, entry.2.storage.entries = []) :
    sampleLib.Lawful (Occurring pingBase maps) := by
  apply sampleLib_lawful
  intro storage hoccurs
  obtain ⟨a, rfl | ⟨account, haccount, rfl⟩⟩ := hoccurs
  · exact .inl rfl
  · obtain ⟨map, hmap, hpersisted⟩ := List.mem_filterMap.mp haccount
    obtain ⟨hlookup, -⟩ := Option.filter_eq_some_iff.mp hpersisted
    have hentries : account.storage.entries = [] :=
      h map hmap ⟨a, account⟩ (AList.mem_lookup_iff.mp hlookup)
    left
    funext i
    simp [slotsAfter, EvmAccount.slotChange, AList.lookup, hentries, pingBase]

/-- Two calls of one caller: the second one does not see the nonce of the first. -/
theorem second_call_misses_nonce :
    sampleLib.Lawful (Occurring pingBase (callSteps pingRevm sampleLib pingContext
        [ping 0xa11ce, ping 0xa11ce]).stateChanges) ∧
      ¬ EveryCall pingRevm sampleLib (SeesEarlierCalls pingRevm sampleLib fun _ => 0) pingContext
        [ping 0xa11ce, ping 0xa11ce] := by
  refine ⟨sampleLib_lawful_of_no_storage (by decide +kernel), ?_⟩
  rintro ⟨-, ⟨changes, hextract, hsame⟩, -⟩
  let second := (callStep pingRevm sampleLib pingContext (ping 0xa11ce)).2
  have hcode : nonceIn 0xa11ce (callStep pingRevm sampleLib second (ping 0xa11ce)).1 = some 1 := by
    decide +kernel
  have hspec : (extractEvmChanges sampleLib (fun _ => 0) second.state second.stateChanges).map
      (fun changes => nonceIn 0xa11ce
        (callStep pingRevm sampleLib (afterChanges second changes) (ping 0xa11ce)).1) =
      some (some 2) := by
    decide +kernel
  rw [hextract, Option.map_some, ← hsame, hcode] at hspec
  exact absurd hspec (by decide)

theorem readsNothingStale_of_check {X : Type} (revm : Revm X) (lib : TrieLibrary)
    (keccak256 : Bytes → B256) (ctx : NativeEVMContext) (call : Call)
    (h : (extractEvmChanges lib keccak256 ctx.state ctx.stateChanges).map
      (fun changes => decide (∀ query ∈ readsOn revm lib ctx.db ctx.blockEnv call,
        (afterChanges ctx changes).db.answers lib query = ctx.db.answers lib query)) =
      some true) :
    ReadsNothingStale revm lib keccak256 ctx call := by
  intro changes hextract
  rw [hextract, Option.map_some, Option.some.injEq, decide_eq_true_eq] at h
  exact h

/-- Two callers do not get in each other's way. -/
theorem sequential_two_callers :
    EveryCall pingRevm sampleLib (SeesEarlierCalls pingRevm sampleLib fun _ => 0) pingContext
      [ping 0xa11ce, ping 0xb0b] := by
  apply sequential_of_readsNothingStale pingRevm (fun _ => 0) pingBase (fun _ => none) ⟨1, 0, 0⟩
  · exact sampleLib_lawful_of_no_storage (by decide +kernel)
  · refine ⟨?_, ?_, trivial⟩
    · exact readsNothingStale_of_check _ _ _ _ _ (by decide +kernel)
    · exact readsNothingStale_of_check _ _ _ _ _ (by decide +kernel)

end Samples

end OpMove.CallSequences
