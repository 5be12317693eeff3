import ConfidentialCompute.Host.Ownership

/-!
# Every waiter of an executed batch is answered

When `processBatch` returns, `completeBatch` looks the batch up in the pending cache, whose
entries expire after five minutes. As long as the batch is found there, each channel
registered in it gets the outcome, once, and a response stays cached for five minutes. If
the enclave takes longer than that after the last join, nobody is answered and nothing is
cached; and a handler that has panicked in its section blocks `completeBatch` for good.
-/

namespace ConfidentialCompute

open Go Runs Heap

namespace HostServer

variable {crypto : Crypto} {flags : HostFlags} {s s' : HostServer} {l : HostLabel}

/-- The execution's batch is closed, each of its waiters has been sent the outcome and nothing
else, and a response is cached for as long as cache entries live. -/
structure Served (s : HostServer) (execution : Execution) (outcome : BatchResponse)
    (time : Int) : Prop where
  closed : (s.batch execution.batch).done = true
  waiters : ∀ i ∈ (s.batch execution.batch).responseCh,
    ∃ call, s.calls[i]? = some call ∧ call.sent = [outcome]
  cached : ∀ resp, outcome = .ok resp → s.clock ≤ time + cacheDefaultTTL →
    s.responseCache.items.lookup execution.requestHash = some ⟨resp, time, cacheDefaultTTL⟩

/-- No signature check panics, and a completion finds its batch open and its entry not
expired. -/
def CompletesOnTime (crypto : Crypto) (s : HostServer) (now : Int) : HostAction → Prop
  | .enter i => ∀ call ∈ s.calls[i]?,
      ¬ ReachesMalformedKey crypto (requestPayload crypto (call.req.hash crypto))
        call.req.signature call.config.signers
  | .complete e => ∀ execution ∈ s.executions[e]?,
      (s.batch execution.batch).done = false ∧
        now ≤ (s.batch execution.batch).storedAt + cacheDefaultTTL
  | _ => True

instance (crypto : Crypto) (s : HostServer) (now : Int) :
    (action : HostAction) → Decidable (CompletesOnTime crypto s now action)
  | .enter i => inferInstanceAs (Decidable (∀ call ∈ s.calls[i]?, _))
  | .complete e => inferInstanceAs (Decidable (∀ execution ∈ s.executions[e]?, _))
  | .getPublicKeys _ _ | .setConfig _ | .updateConfig _ | .arrive _ _ | .receive _
  | .disconnect _ | .process _ _ | .timeout _ | .batchDone _ | .contextDone _ | .failBatch _
  | .shutdown | .collectPending | .collectResponses => isTrue trivial

/-! ## What stays of a closed batch -/

theorem Effect.closed_kept (effect : Effect crypto flags l s s') (inv : s.Sound) {b : Nat}
    {cell : Batch} (allocated : s.batches[b]? = some cell) (closed : cell.done = true) :
    ∃ cell', s'.batches[b]? = some cell' ∧ cell'.done = true ∧
      cell'.responseCh = cell.responseCh := by
  rcases effect.joined_or_moves with ⟨i, call, signer, b₀, cell₀, _, joined⟩ | moves
  · have elsewhere : b ≠ b₀ := by
      rintro rfl
      obtain ⟨_, isOpen⟩ := inv.pending.target_hash joined.target
      rw [← joined.cell_eq allocated, closed] at isOpen
      cases isOpen
    exact ⟨cell, by rw [joined.elsewhere elsewhere, allocated], closed, rfl⟩
  · obtain ⟨cell', allocated', follows⟩ := moves.batches.kept b cell allocated
    exact ⟨cell', allocated', follows.done closed, follows.responseCh⟩

/-- Nothing more is sent to the waiters of a closed batch. -/
theorem Effect.sent_kept (effect : Effect crypto flags l s s') (inv : s.Sound) {b : Nat}
    {cell : Batch} (allocated : s.batches[b]? = some cell) (closed : cell.done = true) {i : Nat}
    (waits : i ∈ cell.responseCh) {call : HostCall} (isCall : s.calls[i]? = some call) :
    ∃ call', s'.calls[i]? = some call' ∧ call'.sent = call.sent := by
  have kept : CallsKept s.calls s'.calls →
      ∃ call', s'.calls[i]? = some call' ∧ call'.sent = call.sent := by
    intro calls
    obtain ⟨call', isCall', follows⟩ := calls.kept i call isCall
    exact ⟨call', isCall', follows.sent⟩
  rcases effect.calls_cases with
    ⟨j, call₀, signer, b₀, cell₀, joined⟩ | ⟨_, calls | ⟨h, outcome, b₀, cell₀, resolved⟩⟩
  · exact kept joined.callsKept
  · exact kept calls
  · have notHere : i ∉ cell₀.responseCh := by
      intro waitsHere
      have same : b = b₀ :=
        inv.channels.apart b b₀ cell cell₀ allocated resolved.allocated i waits waitsHere
      subst same
      cases allocated.symm.trans resolved.allocated
      obtain ⟨item, stored, _, rfl⟩ := Cache.get_eq_some_iff.mp resolved.found
      obtain ⟨cell', allocated', _, isOpen, _⟩ := inv.pending h item stored
      cases allocated.symm.trans allocated'
      rw [closed] at isOpen
      cases isOpen
    refine ⟨call, ?_, rfl⟩
    rw [resolved.calls, getElem?_notifyWaiters, if_neg notHere, isCall]

/-- A live response is neither replaced nor collected. -/
theorem Effect.response_kept (effect : Effect crypto flags l s s') (inv : s.Sound)
    (forward : s.clock ≤ l.now) {h : Bytes32} {item : CacheItem ExecuteResponse}
    (stored : s.responseCache.items.lookup h = some item) (live : ¬ item.Expired l.now) :
    s'.responseCache.items.lookup h = some item := by
  rcases effect.responses_cases with
    same | ⟨h', outcome, b, cell, resolved, responses⟩ | collected
  · rw [same, stored]
  · have other : h ≠ h' := by
      rintro rfl
      have none_pending := inv.responses _ item stored fun old => live (old.mono forward)
      obtain ⟨entry, isPending, _⟩ := Cache.get_eq_some_iff.mp resolved.found
      rw [none_pending] at isPending
      cases isPending
    rw [responses]
    cases outcome with
    | error _ => exact stored
    | ok resp =>
        show (s.responseCache.set _ _ _ _).items.lookup h = some item
        rw [Cache.lookup_set (.of_unbounded inv.caches.responsesUnbounded), if_neg other, stored]
  · rw [collected]
    rcases Cache.lookup_garbageCollect s.responseCache l.now h with kept | ⟨_, old⟩
    · rw [kept, stored]
    · obtain ⟨item', stored', expired⟩ := old
      cases stored.symm.trans stored'
      exact (live expired).elim

theorem response_live {resp : ExecuteResponse} {time now : Int}
    (inTime : now ≤ time + cacheDefaultTTL) :
    ¬ (⟨resp, time, cacheDefaultTTL⟩ : CacheItem ExecuteResponse).Expired now := by
  show ¬ cacheDefaultTTL < now - time
  omega

/-- What a completed execution has brought about stays so. -/
theorem Served.step {e : Nat} {execution : Execution} {outcome : BatchResponse} {time : Int}
    (served : s.Served execution outcome time) (inv : s.Sound)
    (isExecution : s.executions[e]? = some execution) (forward : s.clock ≤ l.now)
    (clock : s'.clock = l.now) (effect : Effect crypto flags l s s') :
    s'.Served execution outcome time := by
  obtain ⟨cell, allocated, _⟩ := inv.executions.batch e execution isExecution
  obtain ⟨closed, waiters, cached⟩ := served
  rw [batch_eq allocated] at closed waiters
  obtain ⟨cell', allocated', closed', channels⟩ := effect.closed_kept inv allocated closed
  refine ⟨?_, ?_, ?_⟩
  · rw [batch_eq allocated']
    exact closed'
  · rw [batch_eq allocated', channels]
    intro i waits
    obtain ⟨call, isCall, sent⟩ := waiters i waits
    obtain ⟨call', isCall', sent'⟩ := effect.sent_kept inv allocated closed waits isCall
    exact ⟨call', isCall', sent'.trans sent⟩
  · intro resp isResponse inTime
    rw [clock] at inTime
    exact effect.response_kept inv forward (cached resp isResponse (by omega))
      (response_live inTime)

/-! ## Completions -/

/-- A completion that finds its own batch serves it. -/
theorem Served.of_resolved (inv : s.Sound) {execution execution' : Execution}
    {outcome : BatchResponse} {cell : Batch}
    (sameBatch : execution'.batch = execution.batch)
    (sameHash : execution'.requestHash = execution.requestHash)
    (resolved : Resolved s s' l.now execution.requestHash outcome execution.batch cell)
    (batches : s'.batches =
      s.batches.modify execution.batch fun cell => { cell with done := true })
    (responses : s'.responseCache = s.cacheOutcome l.now execution.requestHash outcome) :
    s'.Served execution' outcome l.now := by
  have after : s'.batches[execution'.batch]? = some { cell with done := true } := by
    rw [batches, sameBatch, getElem?_modify_of resolved.allocated, if_pos rfl]
  obtain ⟨item, stored, _, value⟩ := Cache.get_eq_some_iff.mp resolved.found
  refine ⟨?_, ?_, ?_⟩
  · rw [batch_eq after]
  · rw [batch_eq after]
    intro i waits
    have allocated : s.batches[item.value]? = some cell := by
      rw [value]
      exact resolved.allocated
    obtain ⟨call, isCall, unsent⟩ := inv.channels.unsent_of_pending stored allocated waits
    refine ⟨call.send outcome, ?_, HostCall.sent_send unsent⟩
    rw [resolved.calls, getElem?_notifyWaiters, if_pos waits, isCall]
    rfl
  · rintro resp rfl _
    rw [responses, sameHash]
    show (s.responseCache.set _ _ _ _).items.lookup _ = _
    rw [Cache.lookup_set (.of_unbounded inv.caches.responsesUnbounded), if_pos rfl,
      inv.caches.responsesLifetime]
    rfl

def AllServed (s : HostServer) : Prop :=
  ∀ (e : Nat) execution outcome time, s.executions[e]? = some execution →
    execution.pc = .completed outcome time → s.Served execution outcome time

theorem AllServed.step (all : s.AllServed) (inv : s.Sound) (owned : s.ProcessedOwned)
    (onTime : CompletesOnTime crypto s l.now l.action)
    (taken : HostServer.step crypto flags s l = some s') : s'.AllServed := by
  obtain ⟨forward, clock, effect⟩ := inv.effect taken
  intro e execution' outcome time found completed
  have old : s.executions[e]? = some execution' → s'.Served execution' outcome time :=
    fun isExecution =>
      (all e execution' outcome time isExecution completed).step inv isExecution forward clock
        effect
  cases effect with
  | quiet calls batches executions pending responses => exact old (by rw [← executions, found])
  | joined action joined =>
      rw [joined.executions] at found
      split at found
      · rw [getElem?_alloc] at found
        split at found
        · cases found
          cases completed
        · exact old found
      · exact old found
  | processed isExecution running executions batches rest =>
      rw [executions] at found
      obtain ⟨execution, stood, ⟨_, rfl⟩ | ⟨_, rfl⟩⟩ := of_getElem?_modify found
      · exact old stood
      · cases completed
  | @completed e₀ execution outcome₀ action isExecution finished executions effect =>
      rw [executions] at found
      obtain ⟨execution₀, stood, ⟨_, rfl⟩ | ⟨rfl, rfl⟩⟩ := of_getElem?_modify found
      · exact old stood
      · cases completed
        cases isExecution.symm.trans stood
        rw [action] at onTime
        obtain ⟨isOpen, inTime⟩ := onTime execution isExecution
        have own := owned.found inv isExecution forward isOpen inTime
        rcases effect with ⟨missing, _⟩ | ⟨b, cell, resolved, batches, responses⟩
        · rw [own] at missing
          cases missing
        · cases own.symm.trans resolved.found
          exact Served.of_resolved inv rfl rfl resolved batches responses
  | timed isCell waiting batches executions rest => exact old (by rw [← executions, found])
  | failed action isCell failing batches executions effect =>
      exact old (by rw [← executions, found])
  | collectedPending action pending calls batches executions responses =>
      exact old (by rw [← executions, found])
  | collectedResponses responses calls batches executions pending =>
      exact old (by rw [← executions, found])

/-! ## The mutex -/

theorem unlocked_step (inv : s.Sound) (unlocked : s.locked = false)
    (onTime : CompletesOnTime crypto s l.now l.action)
    (taken : HostServer.step crypto flags s l = some s') : s'.locked = false := by
  rcases step_locked inv.pending.pointersValid taken with same | ⟨i, call, action, isCall, fatal⟩
  · rw [same, unlocked]
  · rw [action] at onTime
    exact (onTime call isCall fatal).elim

/-- An execution that has returned can complete while the mutex is not locked for good. -/
theorem complete_enabled (unlocked : s.locked = false) {e : Nat} {execution : Execution}
    {outcome : BatchResponse} {now : Int} (isExecution : s.executions[e]? = some execution)
    (finished : execution.pc = .finished outcome) (forward : s.clock ≤ now) :
    ∃ s', HostServer.step crypto flags s ⟨now, .complete e⟩ = some s' := by
  have stands : ({ s with clock := now } : HostServer).executions[e]? = some execution :=
    isExecution
  unfold HostServer.step
  rw [if_pos forward]
  simp only [act, stands, Option.bind_some, completeStep, finished, unlocked, if_true]
  exact ⟨_, rfl⟩

/-! ## Later requests -/

/-- A request whose response is cached is answered with it. -/
theorem answered_from_cache {i : Nat} {call : HostCall} {signer : Slice UInt8}
    {resp : ExecuteResponse} (action : l.action = .enter i) (isCall : s.calls[i]? = some call)
    (verified : verifySignature crypto (requestPayload crypto (call.req.hash crypto))
      call.req.signature call.config.signers = .ok signer)
    (cached : s.responseCache.get l.now (call.req.hash crypto) = some resp)
    (taken : HostServer.step crypto flags s l = some s') :
    s'.calls[i]? = some { call with pc := .done (.success resp) } := by
  rw [enter_of_step action isCall taken]
  unfold enter
  simp only [verified, cached]
  show (s.calls.modify i fun call => { call with pc := _ })[i]? = _
  rw [getElem?_modify_of isCall, if_pos rfl]

/-- The invariant of runs whose completions come on time. -/
structure Delivering (s : HostServer) : Prop where
  unlocked : s.locked = false
  served : s.AllServed

theorem Delivering.of_run {start : Int} {ls : List HostLabel}
    (run : Run (HostServer.step crypto flags)
      (fun s l => CompletesOnTime crypto s l.now l.action) (newHostServer start) ls s) :
    s.Delivering := by
  induction run with
  | nil =>
      refine ⟨rfl, fun e execution outcome time found => ?_⟩
      simp [newHostServer] at found
  | snoc before onTime taken ih =>
      have inv := Sound.of_run before
      exact ⟨unlocked_step inv ih.unlocked onTime taken,
        ih.served.step inv (ProcessedOwned.of_run before) onTime taken⟩

end HostServer

open HostServer

/-- **No lost waiter.** In a run in which no signature check panics and every completion
finds its batch open and no longer than the cache's lifetime after its last join: an
execution whose `processBatch` has returned can complete; once it has, every channel
registered in its batch has been sent the outcome of the batch and nothing else; and a
response is cached, and answers every request with the same hash, for the cache's lifetime. -/
theorem waiters_served (crypto : Crypto) (flags : HostFlags) (start : Int)
    (ls : List HostLabel) (s : HostServer)
    (run : Run (HostServer.step crypto flags)
      (fun s l => CompletesOnTime crypto s l.now l.action) (newHostServer start) ls s) :
    (∀ (e : Nat) execution outcome now, s.executions[e]? = some execution →
        execution.pc = .finished outcome → s.clock ≤ now →
        ∃ s', HostServer.step crypto flags s ⟨now, .complete e⟩ = some s') ∧
      ∀ (e : Nat) execution outcome time, s.executions[e]? = some execution →
        execution.pc = .completed outcome time →
        (∀ i ∈ (s.batch execution.batch).responseCh,
          ∃ call, s.calls[i]? = some call ∧ call.sent = [outcome]) ∧
        ∀ resp, outcome = .ok resp →
          (∀ now, s.clock ≤ now → now ≤ time + cacheDefaultTTL →
            s.responseCache.get now execution.requestHash = some resp) ∧
          ∀ l s' i call signer, HostServer.step crypto flags s l = some s' →
            l.action = .enter i → l.now ≤ time + cacheDefaultTTL →
            s.calls[i]? = some call → call.req.hash crypto = execution.requestHash →
            verifySignature crypto (requestPayload crypto (call.req.hash crypto))
              call.req.signature call.config.signers = .ok signer →
            s'.calls[i]? = some { call with pc := .done (.success resp) } := by
  obtain ⟨unlocked, served⟩ := Delivering.of_run run
  refine ⟨?_, ?_⟩
  · intro e execution outcome now isExecution finished forward
    exact complete_enabled unlocked isExecution finished forward
  · intro e execution outcome time isExecution completed
    have done := served e execution outcome time isExecution completed
    refine ⟨done.waiters, fun resp isResponse => ?_⟩
    have cached : ∀ now, s.clock ≤ now → now ≤ time + cacheDefaultTTL →
        s.responseCache.get now execution.requestHash = some resp := by
      intro now forward inTime
      have stored := done.cached resp isResponse (by omega)
      exact Cache.get_eq_some_iff.mpr ⟨_, stored, response_live inTime, rfl⟩
    refine ⟨cached, ?_⟩
    intro l s' i call signer taken action inTime isCall sameHash verified
    obtain ⟨forward, _, _⟩ := (Sound.of_run run).effect taken
    refine answered_from_cache action isCall verified ?_ taken
    rw [sameHash]
    exact cached l.now forward inTime

open Sample

/-- The enclave takes six minutes: the waiter is sent nothing and no response is cached. -/
theorem waiters_lost :
    ∃ s, Run (HostServer.step crypto flags) anyStep (newHostServer 0)
        (adopt 0 0 :: joining 0 1 0 ++ completing (6 * minute) 0 (.ok hostResponse)) s ∧
      s.executions.map Execution.pc = [.completed (.ok hostResponse) (6 * minute)] ∧
      (s.batch 0).responseCh = [0] ∧ s.calls.map HostCall.sent = [[]] ∧
      s.responseCache.get (6 * minute) (request.hash crypto) = none :=
  Run.exists_of_exec (by decide +kernel)

/-- Two signers make the quorum, a third joins a minute later, and the enclave answers
another four minutes later. -/
theorem waiters_served_late_join :
    ∃ s, Run (HostServer.step crypto flags)
        (fun s l => CompletesOnTime crypto s l.now l.action) (newHostServer 0)
        (adopt 0 1 :: joining 0 1 0 ++ joining 0 2 1 ++ joining minute 3 2 ++
          completing (5 * minute) 0 (.ok hostResponse)) s ∧
      (s.batch 0).responseCh = [0, 1, 2] ∧
      (∀ i ∈ [0, 1, 2], ∃ call, s.calls[i]? = some call ∧ call.sent = [.ok hostResponse]) ∧
      s.responseCache.get (10 * minute) (request.hash crypto) = some hostResponse := by
  have found : ∃ s, Run (HostServer.step crypto flags)
        (fun s l => CompletesOnTime crypto s l.now l.action) (newHostServer 0)
        (adopt 0 1 :: joining 0 1 0 ++ joining 0 2 1 ++ joining minute 3 2 ++
          completing (5 * minute) 0 (.ok hostResponse)) s ∧
      (s.batch 0).responseCh = [0, 1, 2] ∧ s.clock = 5 * minute ∧
      s.executions.map (fun execution =>
          (execution.batch, execution.requestHash, execution.pc)) =
        [(0, request.hash crypto, .completed (.ok hostResponse) (5 * minute))] :=
    Run.exists_of_exec (by decide +kernel)
  obtain ⟨s, run, channels, clock, executions⟩ := found
  have first : s.executions[0]?.map (fun execution =>
      (execution.batch, execution.requestHash, execution.pc)) =
      some (0, request.hash crypto, .completed (.ok hostResponse) (5 * minute)) := by
    rw [← List.getElem?_map, executions]
    rfl
  obtain ⟨execution, isExecution, same⟩ := Option.map_eq_some_iff.mp first
  obtain ⟨batch, hash, completed⟩ : execution.batch = 0 ∧
      execution.requestHash = request.hash crypto ∧
      execution.pc = .completed (.ok hostResponse) (5 * minute) := by simpa using same
  obtain ⟨served, cached⟩ :=
    (waiters_served crypto flags 0 _ s run).2 0 execution _ _ isExecution completed
  rw [batch, channels] at served
  refine ⟨s, run, channels, served, ?_⟩
  rw [← hash]
  exact (cached hostResponse rfl).1 (10 * minute) (by rw [clock]; decide) (by decide)

end ConfidentialCompute
