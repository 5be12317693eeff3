import ConfidentialCompute.Host.Dispatch

/-!
# Whose batch a completion or a timeout acts on

`completeBatch` and `failBatchIfNotProcessed` look the pending batch up by hash again, long
after the batch they were started for was found under it. In between that batch may have
expired in the cache, or have been completed, and another batch for the same hash may have
taken its place.

A batch that is open and was joined no longer than the cache's lifetime ago is *owned*: it
is the one pending under its hash. A batch that is being processed is always owned
(`ProcessedOwned`); one that still has its timer is, as long as timers act on owned batches
only (`TimersOwned`).
-/

namespace ConfidentialCompute

open Go Runs Heap

namespace HostServer

variable {crypto : Crypto} {flags : HostFlags} {s s' : HostServer} {l : HostLabel}
  {now : Int} {b : Nat} {h : Bytes32} {cell cell' : Batch}

/-- While the batch is open and its entry has not expired, it is pending under its hash. -/
def Owned (s : HostServer) (b : Nat) (cell : Batch) : Prop :=
  cell.done = false → s.clock ≤ cell.storedAt + cacheDefaultTTL →
    s.pendingRequestsCache.items.lookup cell.requestHash =
      some ⟨b, cell.storedAt, cacheDefaultTTL⟩

/-! ## One step -/

/-- Who resolves a batch: an execution, which closes it, or a timer, which exits. -/
inductive ResolvedBy (l : HostLabel) (s s' : HostServer) (h : Bytes32) (b : Nat) (cell : Batch) :
    Prop where
  | completion {e : Nat} {execution : Execution} {outcome : BatchResponse}
      (action : l.action = .complete e) (found : s.executions[e]? = some execution)
      (finished : execution.pc = .finished outcome) (hash : execution.requestHash = h)
      (resolved : Resolved s s' l.now h outcome b cell)
      (batches : s'.batches = s.batches.modify b fun cell => { cell with done := true })
  | timeout {b₀ : Nat} {cell₀ : Batch} {isShutdown : Bool} {err : BatchError}
      (action : l.action = .failBatch b₀) (found : s.batches[b₀]? = some cell₀)
      (failing : cell₀.timer = .failing isShutdown) (hash : cell₀.requestHash = h)
      (resolved : Resolved s s' l.now h (.error err) b cell)
      (idle : cell.processingRequest = false)
      (batches : s'.batches = s.batches.modify b₀ fun cell => { cell with timer := .exited })

theorem ResolvedBy.allocated (by_ : ResolvedBy l s s' h b cell) : s.batches[b]? = some cell := by
  cases by_ with
  | completion _ _ _ _ resolved _ => exact resolved.allocated
  | timeout _ _ _ _ resolved _ _ => exact resolved.allocated

theorem done_of_completion
    (batches : s'.batches = s.batches.modify b fun cell => { cell with done := true })
    (before : s.batches[b]? = some cell) (after : s'.batches[b]? = some cell') :
    cell'.done = true := by
  rw [batches, getElem?_modify_of before, if_pos rfl] at after
  cases after
  rfl

/-- A live entry stays in the pending cache unless its batch is resolved or someone joins. -/
theorem Effect.pending_kept (effect : Effect crypto flags l s s') {item : CacheItem Nat}
    (found : s.pendingRequestsCache.items.lookup h = some item) (live : ¬ item.Expired l.now) :
    s'.pendingRequestsCache.items.lookup h = some item ∨
      (∃ cell, ResolvedBy l s s' h item.value cell) ∨
      ∃ i call signer b cell, Joined crypto flags s s' l.now i call signer b cell := by
  have same : s'.pendingRequestsCache = s.pendingRequestsCache →
      s'.pendingRequestsCache.items.lookup h = some item := fun eq => by rw [eq, found]
  have present : s.pendingRequestsCache.get l.now h = some item.value :=
    Cache.get_eq_some_iff.mpr ⟨item, found, live, rfl⟩
  have elsewhere : ∀ {h' outcome b cell}, Resolved s s' l.now h' outcome b cell → h ≠ h' →
      s'.pendingRequestsCache.items.lookup h = some item := by
    intro h' outcome b cell resolved other
    rw [resolved.pending, Cache.lookup_delete, if_neg other, found]
  cases effect with
  | quiet calls batches executions pending responses => exact Or.inl (same pending)
  | joined action joined => exact Or.inr (Or.inr ⟨_, _, _, _, _, joined⟩)
  | processed _ _ _ _ rest => exact Or.inl (same rest.pending)
  | @completed e execution outcome action isExecution finished _ effect =>
      rcases effect with ⟨_, _, rest⟩ | ⟨b, cell, resolved, batches, _⟩
      · exact Or.inl (same rest.pending)
      · by_cases eq : h = execution.requestHash
        · subst eq
          cases present.symm.trans resolved.found
          exact Or.inr (Or.inl ⟨cell, .completion action isExecution finished rfl resolved batches⟩)
        · exact Or.inl (elsewhere resolved eq)
  | timed _ _ _ _ rest => exact Or.inl (same rest.pending)
  | @failed b₀ cell₀ isShutdown action isBatch failing batches _ effect =>
      rcases effect with rest | ⟨b, cell, err, resolved, idle, _⟩
      · exact Or.inl (same rest.pending)
      · by_cases eq : h = cell₀.requestHash
        · subst eq
          cases present.symm.trans resolved.found
          exact Or.inr (Or.inl
            ⟨cell, .timeout action isBatch failing rfl resolved idle batches⟩)
        · exact Or.inl (elsewhere resolved eq)
  | collectedPending action pending calls batches executions responses =>
      left
      rw [pending]
      rcases Cache.lookup_garbageCollect s.pendingRequestsCache l.now h with kept | ⟨_, old⟩
      · rw [kept, found]
      · obtain ⟨item', found', expired⟩ := old
        cases found.symm.trans found'
        exact (live expired).elim
  | collectedResponses responses calls batches executions pending => exact Or.inl (same pending)

theorem live_of_inTime (inTime : now ≤ cell.storedAt + cacheDefaultTTL) :
    ¬ (⟨b, cell.storedAt, cacheDefaultTTL⟩ : CacheItem Nat).Expired now := by
  show ¬ cacheDefaultTTL < now - cell.storedAt
  omega

/-- A join makes its batch the pending one and leaves other owned batches alone. -/
theorem Owned.joined (caches : s.CachesSound) (pending : s.PendingSound) (forward : s.clock ≤ l.now)
    (clock : s'.clock = l.now) {i : Nat} {call : HostCall} {signer : Slice UInt8}
    (joined : Joined crypto flags s s' l.now i call signer b cell) {b' : Nat}
    (after : s'.batches[b']? = some cell') (old : s.batches[b']? = some cell' → s.Owned b' cell') :
    s'.Owned b' cell' := by
  obtain ⟨hash, _⟩ := pending.target_hash joined.target
  intro isOpen inTime
  rw [joined.pending, Cache.lookup_set (.of_unbounded caches.pendingUnbounded)]
  rcases joined.cases after with ⟨rfl, rfl⟩ | ⟨other, before⟩
  · rw [if_pos (show (joinedCell flags l.now i call signer cell).requestHash = _ from hash),
      caches.pendingLifetime]
    rfl
  · have found := old before isOpen (by omega)
    split
    · rename_i same
      -- The entry is live, so it is this batch that would have been joined.
      rw [clock] at inTime
      have present : s.pendingRequestsCache.get l.now (call.req.hash crypto) = some b' :=
        Cache.get_eq_some_iff.mpr ⟨_, same ▸ found, live_of_inTime inTime, rfl⟩
      rcases joined.target with ⟨isPending, _⟩ | ⟨missing, _⟩
      · exact (other (Option.some.inj (present.symm.trans isPending))).elim
      · rw [missing] at present
        cases present
    · exact found

/-- A batch stays owned unless it is resolved and yet left open. -/
theorem Owned.step (inv : s.Sound) (forward : s.clock ≤ l.now) (clock : s'.clock = l.now)
    (effect : Effect crypto flags l s s') (before : s.batches[b]? = some cell)
    (after : s'.batches[b]? = some cell') (owned : s.Owned b cell)
    (closes : ResolvedBy l s s' cell.requestHash b cell → cell'.done = true) :
    s'.Owned b cell' := by
  have joining : ∀ {i call signer b₀ cell₀},
      Joined crypto flags s s' l.now i call signer b₀ cell₀ → s'.Owned b cell' := by
    intro i call signer b₀ cell₀ joined
    refine Owned.joined inv.caches inv.pending forward clock joined after fun found => ?_
    cases before.symm.trans found
    exact owned
  rcases effect.joined_or_moves with ⟨i, call, signer, b₀, cell₀, _, joined⟩ | moves
  · exact joining joined
  · obtain ⟨cell'', after', follows⟩ := moves.batches.kept b cell before
    cases after.symm.trans after'
    intro isOpen inTime
    have wasOpen : cell.done = false := by
      by_contra closed
      rw [follows.done (by simpa using closed)] at isOpen
      cases isOpen
    rw [follows.storedAt, clock] at inTime
    have found := owned wasOpen (by omega)
    rw [follows.requestHash, follows.storedAt]
    rcases effect.pending_kept found (live_of_inTime inTime) with
      kept | ⟨cell₀, resolved⟩ | ⟨_, _, _, _, _, joined⟩
    · exact kept
    · cases before.symm.trans resolved.allocated
      rw [closes resolved] at isOpen
      cases isOpen
    · have kept := joining joined isOpen (by rw [follows.storedAt, clock]; exact inTime)
      rw [follows.requestHash, follows.storedAt] at kept
      exact kept

theorem Owned.of_new (inv : s.Sound) (forward : s.clock ≤ l.now) (clock : s'.clock = l.now)
    (effect : Effect crypto flags l s s') (missing : s.batches[b]? = none)
    (after : s'.batches[b]? = some cell') : s'.Owned b cell' := by
  rcases effect.joined_or_moves with ⟨i, call, signer, b₀, cell₀, _, joined⟩ | moves
  · refine Owned.joined inv.caches inv.pending forward clock joined after fun found => ?_
    rw [missing] at found
    cases found
  · exact (moves.batches.made b cell' after missing).elim

/-! ## Processed batches -/

/-- Every batch that is being processed is owned. -/
def ProcessedOwned (s : HostServer) : Prop :=
  ∀ (b : Nat) cell, s.batches[b]? = some cell → cell.processingRequest = true → s.Owned b cell

theorem ProcessedOwned.step (owned : s.ProcessedOwned) (inv : s.Sound)
    (taken : HostServer.step crypto flags s l = some s') : s'.ProcessedOwned := by
  obtain ⟨forward, clock, effect⟩ := inv.effect taken
  intro b cell' after processing
  cases before : s.batches[b]? with
  | none => exact Owned.of_new inv forward clock effect before after
  | some cell =>
      by_cases was : cell.processingRequest = true
      · refine Owned.step inv forward clock effect before after (owned b cell before was) ?_
        intro resolvedBy
        cases resolvedBy with
        | completion _ _ _ _ _ batches => exact done_of_completion batches before after
        | timeout _ _ _ _ _ idle _ =>
            rw [was] at idle
            cases idle
      · -- Only a join makes a batch a processed one.
        rcases effect.joined_or_moves with ⟨i, call, signer, b₀, cell₀, _, joined⟩ | moves
        · refine Owned.joined inv.caches inv.pending forward clock joined after fun found => ?_
          cases before.symm.trans found
          exact (was processing).elim
        · obtain ⟨cell₀, before', follows⟩ := moves.batches.old after
          cases before.symm.trans before'
          rw [follows.processingRequest] at processing
          exact (was processing).elim

theorem ProcessedOwned.of_run {ok : HostServer → HostLabel → Prop} {start : Int}
    {ls : List HostLabel}
    (run : Run (HostServer.step crypto flags) ok (newHostServer start) ls s) :
    s.ProcessedOwned := by
  induction run with
  | nil =>
      intro b cell found
      simp [newHostServer] at found
  | snoc before _ taken ih => exact ih.step (Sound.of_run before) taken

/-- The batch of an execution that is still open and in time is what its completion finds. -/
theorem ProcessedOwned.found (owned : s.ProcessedOwned) (inv : s.Sound) {e : Nat}
    {execution : Execution} (isExecution : s.executions[e]? = some execution)
    (forward : s.clock ≤ now) (isOpen : (s.batch execution.batch).done = false)
    (inTime : now ≤ (s.batch execution.batch).storedAt + cacheDefaultTTL) :
    s.pendingRequestsCache.get now execution.requestHash = some execution.batch := by
  obtain ⟨cell, allocated, processing, hash⟩ := inv.executions.batch e execution isExecution
  have stands : s.batch execution.batch = cell := by
    unfold HostServer.batch
    rw [allocated]
    rfl
  rw [stands] at isOpen inTime
  have found := owned _ cell allocated processing isOpen (by omega)
  rw [hash] at found
  exact Cache.get_eq_some_iff.mpr ⟨_, found, live_of_inTime inTime, rfl⟩

/-! ## Timers -/

/-- The batch is open and its entry has not expired, or its hash has a cached response. -/
def OnTime (s : HostServer) (now : Int) (b : Nat) : Prop :=
  ((s.batch b).done = false ∧ now ≤ (s.batch b).storedAt + cacheDefaultTTL) ∨
    (s.responseCache.get now (s.batch b).requestHash).isSome = true

instance (s : HostServer) (now : Int) (b : Nat) : Decidable (s.OnTime now b) :=
  inferInstanceAs (Decidable (_ ∨ _))

/-- Completions and timeouts run on time for the batch they were started for. -/
def ActsOnTime (s : HostServer) (now : Int) : HostAction → Prop
  | .complete e => ∀ execution ∈ s.executions[e]?, s.OnTime now execution.batch
  | .failBatch b => s.OnTime now b
  | _ => True

instance (s : HostServer) (now : Int) : (action : HostAction) → Decidable (s.ActsOnTime now action)
  | .complete e => inferInstanceAs (Decidable (∀ execution ∈ s.executions[e]?, _))
  | .failBatch b => inferInstanceAs (Decidable (s.OnTime now b))
  | .getPublicKeys _ _ | .setConfig _ | .updateConfig _ | .arrive _ _ | .enter _ | .receive _
  | .disconnect _ | .process _ _ | .timeout _ | .batchDone _ | .contextDone _ | .shutdown
  | .collectPending | .collectResponses => isTrue trivial

/-- Every batch whose timer has not exited is owned. -/
def TimersOwned (s : HostServer) : Prop :=
  ∀ (b : Nat) cell, s.batches[b]? = some cell → cell.timer ≠ .exited → s.Owned b cell

theorem batch_eq (allocated : s.batches[b]? = some cell) :
    s.batch b = cell := by
  unfold HostServer.batch
  rw [allocated]
  rfl

/-- Under a live response nothing is found. -/
theorem ResponsesSound.get_eq_none (inv : s.ResponsesSound) (forward : s.clock ≤ now)
    (cached : (s.responseCache.get now h).isSome = true) :
    s.pendingRequestsCache.get now h = none := by
  obtain ⟨resp, present⟩ := Option.isSome_iff_exists.mp cached
  obtain ⟨item, stored, live, _⟩ := Cache.get_eq_some_iff.mp present
  have missing := inv h item stored fun expired => live (expired.mono forward)
  refine Cache.get_eq_none_iff.mpr fun entry found => ?_
  rw [missing] at found
  cases found

/-- What an owned batch's completion or timer finds on time is that batch. -/
theorem Owned.found_eq (inv : s.Sound) (forward : s.clock ≤ now) {b' : Nat}
    (allocated : s.batches[b]? = some cell) (owned : s.Owned b cell) (onTime : s.OnTime now b)
    (found : s.pendingRequestsCache.get now cell.requestHash = some b') : b' = b := by
  unfold OnTime at onTime
  rw [batch_eq allocated] at onTime
  rcases onTime with ⟨isOpen, inTime⟩ | cached
  · have stored := owned isOpen (by omega)
    have present : s.pendingRequestsCache.get now cell.requestHash = some b :=
      Cache.get_eq_some_iff.mpr ⟨_, stored, live_of_inTime inTime, rfl⟩
    exact Option.some.inj (found.symm.trans present)
  · rw [inv.responses.get_eq_none forward cached] at found
    cases found

theorem TimersOwned.step (owned : s.TimersOwned) (inv : s.Sound)
    (onTime : s.ActsOnTime l.now l.action)
    (taken : HostServer.step crypto flags s l = some s') : s'.TimersOwned := by
  obtain ⟨forward, clock, effect⟩ := inv.effect taken
  intro b cell' after running
  cases before : s.batches[b]? with
  | none => exact Owned.of_new inv forward clock effect before after
  | some cell =>
      have wasRunning : cell.timer ≠ .exited := by
        intro exited
        rcases effect.joined_or_moves with ⟨i, call, signer, b₀, cell₀, _, joined⟩ | moves
        · rw [joined.kept before] at after
          cases after
          apply running
          split <;> exact exited
        · obtain ⟨cell'', after', follows⟩ := moves.batches.kept b cell before
          cases after.symm.trans after'
          exact running (follows.exited exited)
      refine Owned.step inv forward clock effect before after (owned b cell before wasRunning) ?_
      intro resolvedBy
      cases resolvedBy with
      | completion _ _ _ _ _ batches => exact done_of_completion batches before after
      | @timeout b₀ cell₀ isShutdown err action isBatch failing hash resolved idle batches =>
          rw [action] at onTime
          have mine : b = b₀ := by
            refine (owned b₀ cell₀ isBatch ?_).found_eq inv forward isBatch onTime ?_
            · rw [failing]
              simp
            · rw [hash]
              exact resolved.found
          subst mine
          rw [batches, getElem?_modify_of before, if_pos rfl] at after
          cases after
          exact (running rfl).elim

theorem TimersOwned.of_run {start : Int} {ls : List HostLabel}
    (run : Run (HostServer.step crypto flags) (fun s l => s.ActsOnTime l.now l.action)
      (newHostServer start) ls s) : s.TimersOwned := by
  induction run with
  | nil =>
      intro b cell found
      simp [newHostServer] at found
  | snoc before onTime taken ih => exact ih.step (Sound.of_run before) onTime taken

/-! ## Other batches are spared -/

/-- Nothing is sent to the waiters of a batch other than `b`, and no such batch leaves the
pending cache. -/
def Spares (s s' : HostServer) (b : Nat) : Prop :=
  ∀ (b' : Nat) cell, b' ≠ b → s.batches[b']? = some cell →
    (∀ i ∈ cell.responseCh, ∀ call, s.calls[i]? = some call →
      ∃ call', s'.calls[i]? = some call' ∧ call'.sent = call.sent) ∧
    ∀ h item, s.pendingRequestsCache.items.lookup h = some item → item.value = b' →
      s'.pendingRequestsCache.items.lookup h = some item

theorem Spares.of_kept (calls : CallsKept s.calls s'.calls)
    (pending : s'.pendingRequestsCache = s.pendingRequestsCache) : Spares s s' b := by
  intro b' cell other allocated
  refine ⟨fun i waits call isCall => ?_, fun h item stored _ => by rw [pending, stored]⟩
  obtain ⟨call', isCall', follows⟩ := calls.kept i call isCall
  exact ⟨call', isCall', follows.sent⟩

theorem Untouched.spares (rest : Untouched s s') : Spares s s' b :=
  .of_kept (rest.calls ▸ .refl _) rest.pending

theorem Resolved.spares (inv : s.Sound) {outcome : BatchResponse}
    (resolved : Resolved s s' now h outcome b cell) : Spares s s' b := by
  intro b' cell' other allocated
  refine ⟨fun i waits call isCall => ?_, fun h' item stored value => ?_⟩
  · have notHere : i ∉ cell.responseCh := by
      intro waitsHere
      exact other (inv.channels.apart b' b cell' cell allocated resolved.allocated i waits
        waitsHere)
    refine ⟨call, ?_, rfl⟩
    rw [resolved.calls, getElem?_notifyWaiters, if_neg notHere, isCall]
  · rw [resolved.pending, Cache.lookup_delete]
    split
    · rename_i same
      subst same
      obtain ⟨item', stored', _, value'⟩ := Cache.get_eq_some_iff.mp resolved.found
      cases stored.symm.trans stored'
      exact (other (value.symm.trans value')).elim
    · exact stored

/-- A completion or a timeout that resolves no batch but `b` spares the others. -/
theorem Effect.spares (effect : Effect crypto flags l s s') (inv : s.Sound)
    (notEntering : ∀ i, l.action ≠ .enter i) (notCollecting : l.action ≠ .collectPending)
    (own : ∀ h b' cell, ResolvedBy l s s' h b' cell → b' = b) : Spares s s' b := by
  cases effect with
  | quiet calls batches executions pending responses => exact .of_kept calls pending
  | joined action joined => exact (notEntering _ action).elim
  | processed found running executions batches rest => exact rest.spares
  | completed action found finished executions effect =>
      rcases effect with ⟨_, _, rest⟩ | ⟨b', cell, resolved, batches, _⟩
      · exact rest.spares
      · rw [← own _ b' cell (.completion action found finished rfl resolved batches)]
        exact resolved.spares inv
  | timed found waiting batches executions rest => exact rest.spares
  | failed action found failing batches executions effect =>
      rcases effect with rest | ⟨b', cell, err, resolved, idle, _⟩
      · exact rest.spares
      · rw [← own _ b' cell (.timeout action found failing rfl resolved idle batches)]
        exact resolved.spares inv
  | collectedPending action pending calls batches executions responses =>
      exact (notCollecting action).elim
  | collectedResponses responses calls batches executions pending =>
      exact .of_kept (calls ▸ .refl _) pending

end HostServer

open HostServer

/-- **Completions and timeouts act on their own batch.** In a run in which every completion
and every timeout comes on time, the completion of a batch and its timeout send nothing to
the waiters of another batch and remove no other batch from the pending cache. -/
theorem own_batch (crypto : Crypto) (flags : HostFlags) (start : Int) (ls : List HostLabel)
    (s s' : HostServer) (l : HostLabel)
    (run : Run (HostServer.step crypto flags) (fun s l => s.ActsOnTime l.now l.action)
      (newHostServer start) ls s)
    (onTime : s.ActsOnTime l.now l.action)
    (taken : HostServer.step crypto flags s l = some s') :
    (∀ e execution, l.action = .complete e → s.executions[e]? = some execution →
        Spares s s' execution.batch) ∧
      ∀ b, l.action = .failBatch b → Spares s s' b := by
  have inv := Sound.of_run run
  obtain ⟨forward, clock, effect⟩ := inv.effect taken
  refine ⟨?_, ?_⟩
  · intro e execution action isExecution
    rw [action] at onTime
    have due : s.OnTime l.now execution.batch := onTime execution isExecution
    refine effect.spares inv (by simp [action]) (by simp [action]) fun h b' cell resolvedBy => ?_
    cases resolvedBy with
    | completion action' found _ hash resolved _ =>
        cases action.symm.trans action'
        cases isExecution.symm.trans found
        obtain ⟨own, allocated, processing, sameHash⟩ :=
          inv.executions.batch e execution isExecution
        have owned := ProcessedOwned.of_run run _ own allocated processing
        refine owned.found_eq inv forward allocated due ?_
        rw [sameHash, hash]
        exact resolved.found
    | timeout action' _ _ _ _ _ _ => cases action.symm.trans action'
  · intro b action
    rw [action] at onTime
    refine effect.spares inv (by simp [action]) (by simp [action]) fun h b' cell resolvedBy => ?_
    cases resolvedBy with
    | completion action' _ _ _ _ _ => cases action.symm.trans action'
    | timeout action' found failing hash resolved _ _ =>
        cases action.symm.trans action'
        refine (TimersOwned.of_run run b _ found ?_).found_eq inv forward found onTime ?_
        · rw [failing]
          simp
        · rw [hash]
          exact resolved.found

namespace Sample

def hostResponse : ExecuteResponse where
  requestID := request.requestID
  applicationRequestID := request.applicationRequestID
  requestHash := request.hash crypto
  output := ∅
  config := config 0
  attestation := ∅

/-- The enclave answers execution `e`, and its completion runs. -/
def completing (now : Int) (e : Nat) (answer : EnclaveAnswer) : List HostLabel :=
  [hostLabel now (.process e answer), hostLabel now (.complete e)]

/-- Under `F = 0` a batch is dispatched at once. Its execution outlives its cache entry, a
second batch takes its place, and the completion of the first answers the second. -/
def lateCompletion : List HostLabel :=
  adopt 0 0 :: joining 0 1 0 ++ joining (6 * minute) 2 1 ++
    completing (7 * minute) 0 (.ok hostResponse)

/-- Under `F = 1` the timer of a batch fires. Before it gets the mutex the batch reaches its
quorum and fails, a second batch takes its place, and the timer fails that one. -/
def lateTimeout : List HostLabel :=
  adopt 0 1 :: joining 0 1 0 ++ [hostLabel (20 * second) (.timeout 0)] ++
    joining (20 * second) 2 1 ++ completing (20 * second) 0 (.unreachable "EOF") ++
    joining (20 * second) 3 2 ++ [hostLabel (20 * second) (.failBatch 0)]

end Sample

open Sample

/-- A late completion and a late timeout each answer the waiter of a batch that is not
theirs and remove it from the pending cache. -/
theorem foreign_batches :
    (∃ s, Run (HostServer.step crypto flags) anyStep (newHostServer 0) lateCompletion s ∧
      s.executions.map (fun execution => (execution.batch, execution.pc)) =
        [(0, .completed (.ok hostResponse) (7 * minute)), (1, .running)] ∧
      (s.batch 1).responseCh = [1] ∧
      s.calls.map HostCall.sent = [[], [.ok hostResponse]] ∧
      s.pendingRequestsCache.get (7 * minute) (request.hash crypto) = none) ∧
    ∃ s, Run (HostServer.step crypto flags) anyStep (newHostServer 0) lateTimeout s ∧
      (s.batch 1).responseCh = [2] ∧ (s.batch 1).timer = .waiting ∧
      s.calls[2]?.map HostCall.sent =
        some [.error ⟨"quorum_timeout: received 1 of 2 required signatures within 20s", false⟩] ∧
      s.pendingRequestsCache.get (20 * second) (request.hash crypto) = none :=
  ⟨Run.exists_of_exec (by decide +kernel), Run.exists_of_exec (by decide +kernel)⟩

/-- The first batch for a hash fails, and a second one is completed: the first one's waiter
is left alone. -/
theorem own_batch_second_attempt :
    ∃ s s', Run (HostServer.step crypto flags) (fun s l => s.ActsOnTime l.now l.action)
        (newHostServer 0) (adopt 0 0 :: joining 0 1 0 ++ completing 0 0 (.unreachable "EOF") ++
          joining 0 2 1 ++ [hostLabel 0 (.process 1 (.ok hostResponse))]) s ∧
      HostServer.step crypto flags s (hostLabel 0 (.complete 1)) = some s' ∧
      s.batches.length = 2 ∧ Spares s s' 1 := by
  have found : ∃ s, Run (HostServer.step crypto flags) (fun s l => s.ActsOnTime l.now l.action)
        (newHostServer 0) (adopt 0 0 :: joining 0 1 0 ++ completing 0 0 (.unreachable "EOF") ++
          joining 0 2 1 ++ [hostLabel 0 (.process 1 (.ok hostResponse))]) s ∧
      s.batches.length = 2 ∧ s.executions[1]?.map Execution.batch = some 1 ∧
      s.ActsOnTime 0 (.complete 1) ∧
      (HostServer.step crypto flags s (hostLabel 0 (.complete 1))).isSome = true :=
    Run.exists_of_exec (by decide +kernel)
  obtain ⟨s, run, two, isExecution, onTime, next⟩ := found
  obtain ⟨s', taken⟩ := Option.isSome_iff_exists.mp next
  obtain ⟨execution, found, batch⟩ := Option.map_eq_some_iff.mp isExecution
  refine ⟨s, s', run, taken, two, ?_⟩
  have spares := (own_batch crypto flags 0 _ s s' _ run onTime taken).1 1 execution rfl found
  rw [batch] at spares
  exact spares

end ConfidentialCompute
