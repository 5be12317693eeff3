import ConfidentialCompute.Host.Steps

/-!
# Batches, executions and channels

What holds of the host's records in every state it can reach, whatever the interleaving:

* `PendingSound`: what is pending under a hash is an open batch for that hash, stored when
  the batch was last joined;
* `ExecutionsSound`: a batch is processed exactly when it has been dispatched, and it holds
  as many requests as distinct signers;
* `ChannelsSound`: a channel is registered in one batch at most, and nothing is sent on it
  while that batch is pending;
* `ResponsesSound`: no batch is pending under a hash that has a live cached response.
-/

namespace ConfidentialCompute

open Go Runs Heap

namespace HostServer

variable {crypto : Crypto} {flags : HostFlags} {s s' : HostServer} {l : HostLabel}
  {now : Int} {i b b' : Nat} {h h' : Bytes32} {call : HostCall} {signer : Slice UInt8}
  {cell cell' : Batch} {item : CacheItem Nat} {outcome : BatchResponse}

/-! ## Steps that are not joins -/

/-- A later state of a batch that nobody joined in between. -/
structure CellFollows (cell cell' : Batch) : Prop where
  requestHash : cell'.requestHash = cell.requestHash
  requests : cell'.requests = cell.requests
  responseCh : cell'.responseCh = cell.responseCh
  signersSeen : cell'.signersSeen = cell.signersSeen
  processingRequest : cell'.processingRequest = cell.processingRequest
  storedAt : cell'.storedAt = cell.storedAt
  done : cell.done = true → cell'.done = true
  exited : cell.timer = .exited → cell'.timer = .exited

theorem CellFollows.refl (cell : Batch) : CellFollows cell cell :=
  ⟨rfl, rfl, rfl, rfl, rfl, rfl, id, id⟩

/-- A later state of an execution. -/
structure ExecutionFollows (execution execution' : Execution) : Prop where
  batch : execution'.batch = execution.batch
  requestHash : execution'.requestHash = execution.requestHash
  requests : execution'.requests = execution.requests

theorem ExecutionFollows.refl (execution : Execution) : ExecutionFollows execution execution :=
  ⟨rfl, rfl, rfl⟩

/-- Nobody joins a batch: no batch or execution is made, and nothing becomes pending. -/
structure Moves (s s' : HostServer) : Prop where
  batches : Grows CellFollows (fun _ => False) s.batches s'.batches
  executions : Grows ExecutionFollows (fun _ => False) s.executions s'.executions
  pending : ∀ h item, s'.pendingRequestsCache.items.lookup h = some item →
    s.pendingRequestsCache.items.lookup h = some item

theorem Moves.intro (batches : s'.batches = s.batches) (executions : s'.executions = s.executions)
    (pending : s'.pendingRequestsCache = s.pendingRequestsCache) : Moves s s' where
  batches := batches ▸ Grows.refl CellFollows.refl _
  executions := executions ▸ Grows.refl ExecutionFollows.refl _
  pending h item found := by
    rw [pending] at found
    exact found

theorem grows_modify_cell {batches : List Batch} {f : Batch → Batch}
    (follows : ∀ cell, batches[b]? = some cell → CellFollows cell (f cell)) :
    Grows CellFollows (fun _ => False) batches (batches.modify b f) :=
  Grows.modify CellFollows.refl follows

theorem grows_modify_execution {executions : List Execution} {e : Nat} {pc : ExecutionPC} :
    Grows ExecutionFollows (fun _ => False) executions
      (executions.modify e fun execution => { execution with pc := pc }) :=
  Grows.modify ExecutionFollows.refl fun _ _ => ⟨rfl, rfl, rfl⟩

theorem lookup_of_delete {c : Cache Bytes32 Nat}
    (found : (c.delete h).items.lookup h' = some item) :
    h' ≠ h ∧ c.items.lookup h' = some item := by
  rw [Cache.lookup_delete] at found
  split at found
  · cases found
  · rename_i other
    exact ⟨other, found⟩

theorem Resolved.pending_subset (resolved : Resolved s s' now h outcome b cell)
    (found : s'.pendingRequestsCache.items.lookup h' = some item) :
    h' ≠ h ∧ s.pendingRequestsCache.items.lookup h' = some item := by
  rw [resolved.pending] at found
  exact lookup_of_delete found

/-- A step lets one request join a batch, or nobody joins. -/
theorem Effect.joined_or_moves (effect : Effect crypto flags l s s') :
    (∃ i call signer b cell, l.action = .enter i ∧
      Joined crypto flags s s' l.now i call signer b cell) ∨ Moves s s' := by
  cases effect with
  | quiet calls batches executions pending responses =>
      exact Or.inr (.intro batches executions pending)
  | joined action joined => exact Or.inl ⟨_, _, _, _, _, action, joined⟩
  | processed found running executions batches rest =>
      refine Or.inr ⟨batches ▸ Grows.refl CellFollows.refl _, ?_, ?_⟩
      · rw [executions]
        exact grows_modify_execution
      · intro h item found
        rw [rest.pending] at found
        exact found
  | completed action found finished executions effect =>
      right
      have advanced : Grows ExecutionFollows (fun _ => False) s.executions s'.executions := by
        rw [executions]
        exact grows_modify_execution
      rcases effect with ⟨_, batches, rest⟩ | ⟨b, cell, resolved, batches, _⟩
      · refine ⟨batches ▸ Grows.refl CellFollows.refl _, advanced, fun h item found => ?_⟩
        rw [rest.pending] at found
        exact found
      · refine ⟨?_, advanced, fun h item found => (resolved.pending_subset found).2⟩
        rw [batches]
        exact grows_modify_cell fun cell _ => ⟨rfl, rfl, rfl, rfl, rfl, rfl, fun _ => rfl, id⟩
  | timed found waiting batches executions rest =>
      refine Or.inr ⟨?_, executions ▸ Grows.refl ExecutionFollows.refl _, fun h item found => ?_⟩
      · rw [batches]
        refine grows_modify_cell fun cell isCell => ?_
        cases found.symm.trans isCell
        refine ⟨rfl, rfl, rfl, rfl, rfl, rfl, id, fun exited => ?_⟩
        rw [waiting] at exited
        cases exited
      · rw [rest.pending] at found
        exact found
  | failed action found failing batches executions effect =>
      refine Or.inr ⟨?_, executions ▸ Grows.refl ExecutionFollows.refl _, fun h item found => ?_⟩
      · rw [batches]
        exact grows_modify_cell fun cell _ => ⟨rfl, rfl, rfl, rfl, rfl, rfl, id, fun _ => rfl⟩
      · rcases effect with rest | ⟨_, _, _, resolved, _⟩
        · rw [rest.pending] at found
          exact found
        · exact (resolved.pending_subset found).2
  | collectedPending action pending calls batches executions responses =>
      refine Or.inr ⟨batches ▸ Grows.refl CellFollows.refl _,
        executions ▸ Grows.refl ExecutionFollows.refl _, fun h item found => ?_⟩
      rw [pending] at found
      exact Cache.lookup_of_garbageCollect found
  | collectedResponses responses calls batches executions pending =>
      exact Or.inr (.intro batches executions pending)

/-! ## Joins -/

/-- The batch after a join. -/
def joinedCell (flags : HostFlags) (now : Int) (i : Nat) (call : HostCall)
    (signer : Slice UInt8) (cell : Batch) : Batch :=
  { cell with
    toBatchRequest := joinBatch flags i call signer cell.toBatchRequest, storedAt := now }

section

variable {br : BatchRequest}

@[simp] theorem responseCh_joinBatch :
    (joinBatch flags i call signer br).responseCh = br.responseCh ++ [i] := by
  unfold joinBatch
  split <;> rfl

@[simp] theorem done_joinBatch : (joinBatch flags i call signer br).done = br.done := by
  unfold joinBatch
  split <;> rfl

theorem processingRequest_joinBatch :
    (joinBatch flags i call signer br).processingRequest = true ↔
      br.processingRequest = true ∨ Dispatches flags call signer br := by
  unfold joinBatch Dispatches
  split
  · rename_i seen
    simp [subscribe, seen]
  · rename_i fresh
    simp [addRequest, fresh]

theorem card_signersSeen_joinBatch (counted : br.signersSeen.card = br.requests.length) :
    (joinBatch flags i call signer br).signersSeen.card =
      (joinBatch flags i call signer br).requests.length := by
  unfold joinBatch
  split
  · exact counted
  · rename_i fresh
    have grown : (insert signer br.signersSeen).card = br.signersSeen.card + 1 :=
      Finset.card_insert_of_notMem fresh
    have longer : (br.requests ++ [call.req]).length = br.requests.length + 1 := by simp
    show (insert signer br.signersSeen).card = (br.requests ++ [call.req]).length
    omega

/-- The batch joined is the one that stood at its address, if any did. -/
theorem Joins.cell_eq (joins : Joins crypto s now i call signer b cell)
    (found : s.batches[b]? = some cell') : cell' = cell := by
  rcases joins.target with ⟨_, allocated⟩ | ⟨_, fresh, _⟩
  · exact Option.some.inj (found.symm.trans allocated)
  · have bound := lt_of_getElem? found
    omega

theorem Joined.at_target (joined : Joined crypto flags s s' now i call signer b cell) :
    s'.batches[b]? = some (joinedCell flags now i call signer cell) := by
  rw [joined.batches, if_pos rfl]
  rfl

theorem Joined.elsewhere (joined : Joined crypto flags s s' now i call signer b cell) {b' : Nat}
    (other : b' ≠ b) : s'.batches[b']? = s.batches[b']? := by
  rw [joined.batches, if_neg other]

/-- A batch after a join is the one joined or an old one. -/
theorem Joined.cases (joined : Joined crypto flags s s' now i call signer b cell)
    (found : s'.batches[b']? = some cell') :
    (b' = b ∧ cell' = joinedCell flags now i call signer cell) ∨
      (b' ≠ b ∧ s.batches[b']? = some cell') := by
  by_cases same : b' = b
  · subst same
    rw [joined.at_target] at found
    exact Or.inl ⟨rfl, (Option.some.inj found).symm⟩
  · rw [joined.elsewhere same] at found
    exact Or.inr ⟨same, found⟩

/-- A batch that existed before a join still does, and is what it was unless it is the one
joined. -/
theorem Joined.kept (joined : Joined crypto flags s s' now i call signer b cell)
    (found : s.batches[b']? = some cell') :
    s'.batches[b']? =
      some (if b' = b then joinedCell flags now i call signer cell' else cell') := by
  by_cases same : b' = b
  · subst same
    rw [if_pos rfl, joined.cell_eq found, joined.at_target]
  · rw [if_neg same, joined.elsewhere same, found]

/-- The goroutine that joins waits from then on; the others are where they were. -/
theorem Joined.entered (joined : Joined crypto flags s s' now i call signer b cell) {j : Nat}
    {call₀ : HostCall} (found : s.calls[j]? = some call₀) :
    s'.calls[j]? = some (if j = i then { call₀ with pc := .waiting } else call₀) := by
  rw [joined.calls]
  by_cases same : j = i
  · subst same
    rw [getElem?_modify_of found, if_pos rfl, if_pos rfl]
  · rw [List.getElem?_modify_ne _ _ (Ne.symm same), if_neg same, found]

theorem Joined.callsKept (joined : Joined crypto flags s s' now i call signer b cell) :
    CallsKept s.calls s'.calls := by
  rw [joined.calls]
  exact callsKept_modify fun _ => ⟨rfl, rfl, rfl, id, fun _ => by simp⟩

/-- Who waits for a batch after the join: the goroutine that joined, or one that waited. -/
theorem Joined.waiters (joined : Joined crypto flags s s' now i call signer b cell) {j : Nat}
    (found : s'.batches[b']? = some cell') (waits : j ∈ cell'.responseCh) :
    (j = i ∧ b' = b) ∨ ∃ cell₀, s.batches[b']? = some cell₀ ∧ j ∈ cell₀.responseCh := by
  rcases joined.cases found with ⟨rfl, rfl⟩ | ⟨_, old⟩
  · have among : j ∈ (joinBatch flags i call signer cell.toBatchRequest).responseCh := waits
    rw [responseCh_joinBatch] at among
    rcases List.mem_append.mp among with before | last
    · rcases joined.target with ⟨_, allocated⟩ | ⟨_, _, rfl⟩
      · exact Or.inr ⟨cell, allocated, before⟩
      · cases before
    · exact Or.inl ⟨List.mem_singleton.mp last, rfl⟩
  · exact Or.inr ⟨cell', old, waits⟩

end

/-! ## The caches -/

/-- Both caches are unbounded and keep their entries for the default time. -/
structure CachesSound (s : HostServer) : Prop where
  pendingUnbounded : s.pendingRequestsCache.maxEntries ≤ 0
  pendingLifetime : s.pendingRequestsCache.timeToLive = cacheDefaultTTL
  responsesUnbounded : s.responseCache.maxEntries ≤ 0
  responsesLifetime : s.responseCache.timeToLive = cacheDefaultTTL

theorem CachesSound.of_params (inv : s.CachesSound)
    (pending : s'.pendingRequestsCache.maxEntries = s.pendingRequestsCache.maxEntries ∧
      s'.pendingRequestsCache.timeToLive = s.pendingRequestsCache.timeToLive)
    (responses : s'.responseCache.maxEntries = s.responseCache.maxEntries ∧
      s'.responseCache.timeToLive = s.responseCache.timeToLive) : s'.CachesSound where
  pendingUnbounded := by rw [pending.1]; exact inv.pendingUnbounded
  pendingLifetime := by rw [pending.2]; exact inv.pendingLifetime
  responsesUnbounded := by rw [responses.1]; exact inv.responsesUnbounded
  responsesLifetime := by rw [responses.2]; exact inv.responsesLifetime

theorem cacheOutcome_params (s : HostServer) (now : Int) (h : Bytes32)
    (outcome : BatchResponse) :
    (s.cacheOutcome now h outcome).maxEntries = s.responseCache.maxEntries ∧
      (s.cacheOutcome now h outcome).timeToLive = s.responseCache.timeToLive := by
  cases outcome with
  | error _ => exact ⟨rfl, rfl⟩
  | ok resp => exact ⟨Cache.maxEntries_set, Cache.timeToLive_set⟩

theorem Untouched.params (rest : Untouched s s') :
    (s'.pendingRequestsCache.maxEntries = s.pendingRequestsCache.maxEntries ∧
        s'.pendingRequestsCache.timeToLive = s.pendingRequestsCache.timeToLive) ∧
      s'.responseCache.maxEntries = s.responseCache.maxEntries ∧
      s'.responseCache.timeToLive = s.responseCache.timeToLive := by
  rw [rest.pending, rest.responses]
  exact ⟨⟨rfl, rfl⟩, rfl, rfl⟩

theorem Resolved.params (resolved : Resolved s s' now h outcome b cell) :
    s'.pendingRequestsCache.maxEntries = s.pendingRequestsCache.maxEntries ∧
      s'.pendingRequestsCache.timeToLive = s.pendingRequestsCache.timeToLive := by
  rw [resolved.pending]
  exact ⟨rfl, rfl⟩

theorem CachesSound.step (inv : s.CachesSound) (effect : Effect crypto flags l s s') :
    s'.CachesSound := by
  cases effect with
  | quiet calls batches executions pending responses =>
      exact inv.of_params (by rw [pending]; simp) (by rw [responses]; simp)
  | joined action joined =>
      exact inv.of_params (by rw [joined.pending]; simp) (by rw [joined.responses]; simp)
  | processed found running executions batches rest =>
      exact inv.of_params rest.params.1 rest.params.2
  | completed action found finished executions effect =>
      rcases effect with ⟨_, _, rest⟩ | ⟨b, cell, resolved, _, responses⟩
      · exact inv.of_params rest.params.1 rest.params.2
      · refine inv.of_params resolved.params ?_
        rw [responses]
        exact cacheOutcome_params _ _ _ _
  | timed found waiting batches executions rest =>
      exact inv.of_params rest.params.1 rest.params.2
  | failed action found failing batches executions effect =>
      rcases effect with rest | ⟨_, _, _, resolved, _, responses⟩
      · exact inv.of_params rest.params.1 rest.params.2
      · exact inv.of_params resolved.params (by rw [responses]; simp)
  | collectedPending action pending calls batches executions responses =>
      exact inv.of_params (by rw [pending]; simp) (by rw [responses]; simp)
  | collectedResponses responses calls batches executions pending =>
      exact inv.of_params (by rw [pending]; simp) (by rw [responses]; simp)

/-! ## Pending batches -/

/-- What is pending under a hash is an open batch for that hash. -/
def PendingSound (s : HostServer) : Prop :=
  ∀ h item, s.pendingRequestsCache.items.lookup h = some item →
    ∃ cell, s.batches[item.value]? = some cell ∧ cell.requestHash = h ∧ cell.done = false ∧
      item = ⟨item.value, cell.storedAt, cacheDefaultTTL⟩

theorem PendingSound.pointersValid (inv : s.PendingSound) : s.PointersValid := by
  intro h item found
  obtain ⟨cell, allocated, _⟩ := inv h item found
  exact lt_of_getElem? allocated

/-- A batch is pending under its own hash only. -/
theorem PendingSound.hash_eq (inv : s.PendingSound)
    (found : s.pendingRequestsCache.items.lookup h = some item)
    (allocated : s.batches[item.value]? = some cell) : cell.requestHash = h := by
  obtain ⟨cell', allocated', hash, _⟩ := inv h item found
  cases allocated.symm.trans allocated'
  exact hash

theorem PendingSound.target_hash (inv : s.PendingSound) {f : UInt32}
    (target : s.Target now h f b cell) :
    cell.requestHash = h ∧ cell.done = false := by
  rcases target with ⟨found, allocated⟩ | ⟨_, _, rfl⟩
  · obtain ⟨item, stored, _, rfl⟩ := Cache.get_eq_some_iff.mp found
    obtain ⟨cell', allocated', hash, isOpen, _⟩ := inv h item stored
    cases allocated.symm.trans allocated'
    exact ⟨hash, isOpen⟩
  · exact ⟨rfl, rfl⟩

/-- Steps that close no pending batch and nobody joins. -/
theorem PendingSound.moves (inv : s.PendingSound) (moves : Moves s s')
    (stillOpen : ∀ h item cell', s'.pendingRequestsCache.items.lookup h = some item →
      s'.batches[item.value]? = some cell' → cell'.done = false) : s'.PendingSound := by
  intro h item found
  obtain ⟨cell, allocated, hash, _, eq⟩ := inv h item (moves.pending h item found)
  obtain ⟨cell', allocated', same⟩ := moves.batches.kept _ _ allocated
  refine ⟨cell', allocated', same.requestHash.trans hash,
    stillOpen h item cell' found allocated', ?_⟩
  rw [same.storedAt]
  exact eq

theorem PendingSound.joined (inv : s.PendingSound) (caches : s.CachesSound)
    (joined : Joined crypto flags s s' now i call signer b cell) : s'.PendingSound := by
  obtain ⟨hash, isOpen⟩ := inv.target_hash joined.target
  intro h item found
  rw [joined.pending, Cache.lookup_set (.of_unbounded caches.pendingUnbounded)] at found
  split at found
  · rename_i same
    cases found
    refine ⟨_, joined.at_target, hash.trans same.symm, ?_, ?_⟩
    · show (joinBatch flags i call signer cell.toBatchRequest).done = false
      rw [done_joinBatch, isOpen]
    · rw [caches.pendingLifetime]
      rfl
  · rename_i other
    obtain ⟨cell', allocated, hash', isOpen', eq⟩ := inv h item found
    have elsewhere : item.value ≠ b := by
      intro same
      rw [same] at allocated
      have := joined.cell_eq allocated
      rw [this, hash] at hash'
      exact other hash'.symm
    exact ⟨cell', by rw [joined.elsewhere elsewhere, allocated], hash', isOpen', eq⟩

/-- A batch is closed only by an execution that finds it pending. -/
theorem Effect.closes (effect : Effect crypto flags l s s') (found : s'.batches[b]? = some cell')
    (closed : cell'.done = true) :
    (∃ cell, s.batches[b]? = some cell ∧ cell.done = true) ∨
      ∃ (e : Nat) (execution : Execution) (outcome : BatchResponse) (cell : Batch),
        l.action = .complete e ∧ s.executions[e]? = some execution ∧
        execution.pc = .finished outcome ∧
        Resolved s s' l.now execution.requestHash outcome b cell := by
  have same : s'.batches = s.batches → ∃ cell, s.batches[b]? = some cell ∧ cell.done = true :=
    fun eq => ⟨cell', by rw [← eq]; exact found, closed⟩
  cases effect with
  | quiet calls batches executions pending responses => exact Or.inl (same batches)
  | joined action joined =>
      rcases joined.cases found with ⟨rfl, rfl⟩ | ⟨_, old⟩
      · have open_or : (joinBatch _ _ _ _ _).done = true := closed
        rw [done_joinBatch] at open_or
        rcases joined.target with ⟨_, allocated⟩ | ⟨_, _, rfl⟩
        · exact Or.inl ⟨_, allocated, open_or⟩
        · cases open_or
      · exact Or.inl ⟨cell', old, closed⟩
  | processed _ _ executions batches rest => exact Or.inl (same batches)
  | @completed e execution outcome action isExecution finished executions effect =>
      rcases effect with ⟨_, batches, _⟩ | ⟨b', cell, resolved, batches, _⟩
      · exact Or.inl (same batches)
      · rw [batches] at found
        obtain ⟨old, stood, ⟨_, rfl⟩ | ⟨rfl, _⟩⟩ := of_getElem?_modify found
        · exact Or.inl ⟨_, stood, closed⟩
        · exact Or.inr ⟨e, execution, outcome, cell, action, isExecution, finished, resolved⟩
  | timed _ waiting batches executions rest =>
      rw [batches] at found
      obtain ⟨old, stood, ⟨_, rfl⟩ | ⟨_, rfl⟩⟩ := of_getElem?_modify found
      · exact Or.inl ⟨_, stood, closed⟩
      · exact Or.inl ⟨_, stood, closed⟩
  | failed action _ failing batches executions effect =>
      rw [batches] at found
      obtain ⟨old, stood, ⟨_, rfl⟩ | ⟨_, rfl⟩⟩ := of_getElem?_modify found
      · exact Or.inl ⟨_, stood, closed⟩
      · exact Or.inl ⟨_, stood, closed⟩
  | collectedPending action pending calls batches executions responses =>
      exact Or.inl (same batches)
  | collectedResponses responses calls batches executions pending => exact Or.inl (same batches)

/-- After a batch has been resolved it is pending nowhere. -/
theorem PendingSound.not_pending (inv : s.PendingSound)
    (resolved : Resolved s s' now h outcome b cell)
    (found : s'.pendingRequestsCache.items.lookup h' = some item) : item.value ≠ b := by
  rintro rfl
  obtain ⟨other, old⟩ := resolved.pending_subset found
  obtain ⟨item', stored, _, same⟩ := Cache.get_eq_some_iff.mp resolved.found
  have here : cell.requestHash = h := by
    refine inv.hash_eq stored ?_
    rw [same]
    exact resolved.allocated
  have there : cell.requestHash = h' := inv.hash_eq old resolved.allocated
  exact other (there.symm.trans here)

theorem PendingSound.step (inv : s.PendingSound) (caches : s.CachesSound)
    (effect : Effect crypto flags l s s') : s'.PendingSound := by
  rcases effect.joined_or_moves with ⟨i, call, signer, b, cell, _, joined⟩ | moves
  · exact inv.joined caches joined
  · refine inv.moves moves fun h item cell' found allocated => ?_
    by_contra closed
    rcases effect.closes allocated (by simpa using closed) with
      ⟨cell, old, wasClosed⟩ | ⟨_, _, _, cell, _, _, _, resolved⟩
    · obtain ⟨cell'', allocated'', _, isOpen, _⟩ := inv h item (moves.pending h item found)
      cases old.symm.trans allocated''
      rw [wasClosed] at isOpen
      cases isOpen
    · exact inv.not_pending resolved found rfl

/-! ## Executions -/

/-- Dispatch and the requests of a batch. -/
structure ExecutionsSound (s : HostServer) : Prop where
  batch : ∀ (e : Nat) execution, s.executions[e]? = some execution →
    ∃ cell, s.batches[execution.batch]? = some cell ∧ cell.processingRequest = true ∧
      cell.requestHash = execution.requestHash
  dispatched : ∀ (b : Nat) cell, s.batches[b]? = some cell → cell.processingRequest = true →
    ∃ (e : Nat) (execution : Execution), s.executions[e]? = some execution ∧ execution.batch = b
  signers : ∀ (b : Nat) cell, s.batches[b]? = some cell →
    cell.signersSeen.card = cell.requests.length

theorem ExecutionsSound.moves (inv : s.ExecutionsSound) (moves : Moves s s') :
    s'.ExecutionsSound where
  batch e execution' found := by
    obtain ⟨execution, old, follows⟩ := moves.executions.old found
    obtain ⟨cell, stands, processing, hash⟩ := inv.batch e execution old
    obtain ⟨cell', stands', same⟩ := moves.batches.kept _ _ stands
    refine ⟨cell', by rw [follows.batch]; exact stands', ?_, ?_⟩
    · rw [same.processingRequest, processing]
    · rw [same.requestHash, hash, follows.requestHash]
  dispatched b cell' found processing := by
    obtain ⟨cell, old, same⟩ := moves.batches.old found
    rw [same.processingRequest] at processing
    obtain ⟨e, execution, stands, eq⟩ := inv.dispatched b cell old processing
    obtain ⟨execution', stands', follows⟩ := moves.executions.kept _ _ stands
    exact ⟨e, execution', stands', follows.batch.trans eq⟩
  signers b cell' found := by
    obtain ⟨cell, old, same⟩ := moves.batches.old found
    rw [same.signersSeen, same.requests]
    exact inv.signers b cell old

theorem ExecutionsSound.joined (inv : s.ExecutionsSound) (pending : s.PendingSound)
    (joined : Joined crypto flags s s' now i call signer b cell) : s'.ExecutionsSound := by
  obtain ⟨hash, _⟩ := pending.target_hash joined.target
  have grown : ∀ (e : Nat) (execution : Execution), s.executions[e]? = some execution →
      s'.executions[e]? = some execution := by
    intro e execution found
    rw [joined.executions]
    split
    · rw [getElem?_alloc, if_neg (Nat.ne_of_lt (lt_of_getElem? found)), found]
    · exact found
  refine ⟨?_, ?_, ?_⟩
  · intro e execution found
    have oldOrNew : s.executions[e]? = some execution ∨
        (Dispatches flags call signer cell.toBatchRequest ∧ execution.batch = b ∧
          execution.requestHash = call.req.hash crypto) := by
      rw [joined.executions] at found
      split at found
      · rename_i dispatches
        rw [getElem?_alloc] at found
        split at found
        · cases found
          exact Or.inr ⟨dispatches, rfl, rfl⟩
        · exact Or.inl found
      · exact Or.inl found
    rcases oldOrNew with old | ⟨dispatches, rfl, sameHash⟩
    · obtain ⟨cell', stands, processing, hash'⟩ := inv.batch e execution old
      refine ⟨_, joined.kept stands, ?_, ?_⟩
      · split
        · exact processingRequest_joinBatch.mpr (Or.inl processing)
        · exact processing
      · split <;> exact hash'
    · exact ⟨_, joined.at_target, processingRequest_joinBatch.mpr (Or.inr dispatches),
        hash.trans sameHash.symm⟩
  · intro b' cell' found processing
    have known : ∀ cell₀, s.batches[b']? = some cell₀ → cell₀.processingRequest = true →
        ∃ (e : Nat) (execution : Execution), s'.executions[e]? = some execution ∧
          execution.batch = b' := by
      intro cell₀ stands was
      obtain ⟨e, execution, isExecution, eq⟩ := inv.dispatched b' cell₀ stands was
      exact ⟨e, execution, grown e execution isExecution, eq⟩
    rcases joined.cases found with ⟨rfl, rfl⟩ | ⟨_, old⟩
    · rcases processingRequest_joinBatch.mp processing with was | dispatches
      · rcases joined.target with ⟨_, allocated⟩ | ⟨_, _, rfl⟩
        · exact known cell allocated was
        · cases was
      · refine ⟨s.executions.length,
          ⟨_, call.req.hash crypto, cell.requests ++ [call.req], .running⟩, ?_, rfl⟩
        rw [joined.executions, if_pos dispatches, List.getElem?_concat_length]
    · exact known cell' old processing
  · intro b' cell' found
    rcases joined.cases found with ⟨rfl, rfl⟩ | ⟨_, old⟩
    · refine card_signersSeen_joinBatch ?_
      rcases joined.target with ⟨_, allocated⟩ | ⟨_, _, rfl⟩
      · exact inv.signers _ cell allocated
      · rfl
    · exact inv.signers b' cell' old

theorem ExecutionsSound.step (inv : s.ExecutionsSound) (pending : s.PendingSound)
    (effect : Effect crypto flags l s s') : s'.ExecutionsSound := by
  rcases effect.joined_or_moves with ⟨i, call, signer, b, cell, _, joined⟩ | moves
  · exact inv.joined pending joined
  · exact inv.moves moves

/-! ## Channels -/

/-- A channel is registered in one batch at most, by a goroutine past its section, and
something was sent on it only if that batch is no longer pending. -/
structure ChannelsSound (s : HostServer) : Prop where
  registered : ∀ (b : Nat) cell, s.batches[b]? = some cell → ∀ i ∈ cell.responseCh,
    ∃ call, s.calls[i]? = some call ∧ call.pc ≠ .locking
  apart : ∀ (b b' : Nat) cell cell', s.batches[b]? = some cell → s.batches[b']? = some cell' →
    ∀ i ∈ cell.responseCh, i ∈ cell'.responseCh → b = b'
  unsent : ∀ (i : Nat) call, s.calls[i]? = some call → call.Unsent ∨
    ∃ (b : Nat) (cell : Batch), s.batches[b]? = some cell ∧ i ∈ cell.responseCh ∧
      ∀ h item, s.pendingRequestsCache.items.lookup h = some item → item.value ≠ b

/-- Nothing has been sent to the waiters of a pending batch. -/
theorem ChannelsSound.unsent_of_pending (inv : s.ChannelsSound)
    (found : s.pendingRequestsCache.items.lookup h = some item)
    (allocated : s.batches[item.value]? = some cell) (waits : i ∈ cell.responseCh) :
    ∃ call, s.calls[i]? = some call ∧ call.Unsent := by
  obtain ⟨call, isCall, _⟩ := inv.registered _ cell allocated i waits
  refine ⟨call, isCall, ?_⟩
  rcases inv.unsent i call isCall with unsent | ⟨b, cell', allocated', waits', notPending⟩
  · exact unsent
  · have same : item.value = b := inv.apart _ _ _ _ allocated allocated' i waits waits'
    exact (notPending h item found same).elim

/-- Without a join, a channel that is registered in a batch was so before. -/
theorem Moves.waited (moves : Moves s s') (found : s'.batches[b]? = some cell')
    (waits : i ∈ cell'.responseCh) :
    ∃ cell, s.batches[b]? = some cell ∧ i ∈ cell.responseCh := by
  obtain ⟨cell, old, same⟩ := moves.batches.old found
  rw [same.responseCh] at waits
  exact ⟨cell, old, waits⟩

theorem Moves.waits (moves : Moves s s') (allocated : s.batches[b]? = some cell)
    (waits : i ∈ cell.responseCh) :
    ∃ cell', s'.batches[b]? = some cell' ∧ i ∈ cell'.responseCh := by
  obtain ⟨cell', allocated', same⟩ := moves.batches.kept _ _ allocated
  rw [← same.responseCh] at waits
  exact ⟨cell', allocated', waits⟩

theorem ChannelsSound.apart_of_moves (inv : s.ChannelsSound) (moves : Moves s s') :
    ∀ (b b' : Nat) cell cell', s'.batches[b]? = some cell → s'.batches[b']? = some cell' →
      ∀ i ∈ cell.responseCh, i ∈ cell'.responseCh → b = b' := by
  intro b b' cell cell' found found' i waits waits'
  obtain ⟨old, stood, before⟩ := moves.waited found waits
  obtain ⟨old', stood', before'⟩ := moves.waited found' waits'
  exact inv.apart b b' old old' stood stood' i before before'

/-- A channel on which something was sent stays registered in a batch that is not pending. -/
theorem Moves.sent (moves : Moves s s') (allocated : s.batches[b]? = some cell)
    (waits : i ∈ cell.responseCh)
    (notPending : ∀ h item, s.pendingRequestsCache.items.lookup h = some item → item.value ≠ b) :
    ∃ (b : Nat) (cell : Batch), s'.batches[b]? = some cell ∧ i ∈ cell.responseCh ∧
      ∀ h item, s'.pendingRequestsCache.items.lookup h = some item → item.value ≠ b := by
  obtain ⟨cell', allocated', waits'⟩ := moves.waits allocated waits
  exact ⟨b, cell', allocated', waits',
    fun h item stored => notPending h item (moves.pending h item stored)⟩

theorem ChannelsSound.kept (inv : s.ChannelsSound) (moves : Moves s s')
    (calls : CallsKept s.calls s'.calls) : s'.ChannelsSound where
  registered b cell' found i waits := by
    obtain ⟨cell, old, before⟩ := moves.waited found waits
    obtain ⟨call, isCall, past⟩ := inv.registered b cell old i before
    obtain ⟨call', isCall', follows⟩ := calls.kept i call isCall
    exact ⟨call', isCall', follows.entered past⟩
  apart := inv.apart_of_moves moves
  unsent i call' found := by
    rcases calls.cases found with ⟨call, old, follows⟩ | ⟨_, unsent, _⟩
    · rcases inv.unsent i call old with unsent | ⟨b, cell, allocated, waits, notPending⟩
      · exact Or.inl (follows.unsent unsent)
      · exact Or.inr (moves.sent allocated waits notPending)
    · exact Or.inl unsent

theorem ChannelsSound.resolved (inv : s.ChannelsSound) (pending : s.PendingSound)
    (moves : Moves s s') (resolved : Resolved s s' now h outcome b cell) : s'.ChannelsSound where
  registered b' cell' found i waits := by
    obtain ⟨cell₀, old, before⟩ := moves.waited found waits
    obtain ⟨call, isCall, past⟩ := inv.registered b' cell₀ old i before
    rw [resolved.calls, getElem?_notifyWaiters, isCall]
    split
    · exact ⟨_, rfl, by simpa using past⟩
    · exact ⟨call, rfl, past⟩
  apart := inv.apart_of_moves moves
  unsent i call' found := by
    rw [resolved.calls, getElem?_notifyWaiters] at found
    split at found
    · rename_i waits
      obtain ⟨cell', allocated', waits'⟩ := moves.waits resolved.allocated waits
      exact Or.inr ⟨b, cell', allocated', waits',
        fun h' item stored => pending.not_pending resolved stored⟩
    · rcases inv.unsent i call' found with unsent | ⟨b₀, cell₀, allocated, waits, notPending⟩
      · exact Or.inl unsent
      · exact Or.inr (moves.sent allocated waits notPending)

/-- A goroutine before its section is registered nowhere. -/
theorem ChannelsSound.fresh (inv : s.ChannelsSound)
    (joined : Joined crypto flags s s' now i call signer b cell)
    (found : s.batches[b']? = some cell') : i ∉ cell'.responseCh := by
  intro waits
  obtain ⟨call', isCall, past⟩ := inv.registered b' cell' found i waits
  cases joined.found.symm.trans isCall
  exact past joined.locking

theorem ChannelsSound.joined (inv : s.ChannelsSound) (caches : s.CachesSound)
    (joined : Joined crypto flags s s' now i call signer b cell) : s'.ChannelsSound := by
  refine ⟨?_, ?_, ?_⟩
  · intro b' cell' found j waits
    rcases joined.waiters found waits with ⟨rfl, _⟩ | ⟨cell₀, old, waits₀⟩
    · exact ⟨_, joined.entered joined.found, by rw [if_pos rfl]; simp⟩
    · obtain ⟨call₀, isCall, past⟩ := inv.registered b' cell₀ old j waits₀
      refine ⟨_, joined.entered isCall, ?_⟩
      split
      · simp
      · exact past
  · intro b₁ b₂ cell₁ cell₂ found₁ found₂ j waits₁ waits₂
    rcases joined.waiters found₁ waits₁ with ⟨rfl, rfl⟩ | ⟨old₁, stood₁, before₁⟩ <;>
      rcases joined.waiters found₂ waits₂ with ⟨same, rfl⟩ | ⟨old₂, stood₂, before₂⟩
    · rfl
    · exact (inv.fresh joined stood₂ before₂).elim
    · subst same
      exact (inv.fresh joined stood₁ before₁).elim
    · exact inv.apart b₁ b₂ old₁ old₂ stood₁ stood₂ j before₁ before₂
  · intro j call' found
    have old : ∃ call₀, s.calls[j]? = some call₀ ∧ (call₀.Unsent → call'.Unsent) := by
      rw [joined.calls] at found
      obtain ⟨call₀, stood, ⟨_, rfl⟩ | ⟨_, rfl⟩⟩ := of_getElem?_modify found
      · exact ⟨_, stood, id⟩
      · exact ⟨_, stood, id⟩
    obtain ⟨call₀, stood, stays⟩ := old
    rcases inv.unsent j call₀ stood with unsent | ⟨b₀, cell₀, allocated, waits, notPending⟩
    · exact Or.inl (stays unsent)
    · have elsewhere : b₀ ≠ b := by
        rcases joined.target with ⟨isPending, _⟩ | ⟨_, rfl, _⟩
        · obtain ⟨item, stored, _, rfl⟩ := Cache.get_eq_some_iff.mp isPending
          exact (notPending _ item stored).symm
        · exact Nat.ne_of_lt (lt_of_getElem? allocated)
      refine Or.inr ⟨b₀, cell₀, by rw [joined.elsewhere elsewhere, allocated], waits, ?_⟩
      intro h item stored
      rw [joined.pending, Cache.lookup_set (.of_unbounded caches.pendingUnbounded)] at stored
      split at stored
      · cases stored
        exact elsewhere.symm
      · exact notPending h item stored

/-- Channels are sent to only by resolving a batch. -/
theorem Effect.calls_cases (effect : Effect crypto flags l s s') :
    (∃ i call signer b cell, Joined crypto flags s s' l.now i call signer b cell) ∨
      (Moves s s' ∧ (CallsKept s.calls s'.calls ∨
        ∃ h outcome b cell, Resolved s s' l.now h outcome b cell)) := by
  rcases effect.joined_or_moves with ⟨i, call, signer, b, cell, _, joined⟩ | moves
  · exact Or.inl ⟨i, call, signer, b, cell, joined⟩
  · refine Or.inr ⟨moves, ?_⟩
    have same : s'.calls = s.calls → CallsKept s.calls s'.calls := fun eq => eq ▸ .refl _
    cases effect with
    | quiet calls batches executions pending responses => exact Or.inl calls
    | joined action joined => exact Or.inl joined.callsKept
    | processed found running executions batches rest => exact Or.inl (same rest.calls)
    | completed action found finished executions effect =>
        rcases effect with ⟨_, _, rest⟩ | ⟨b, cell, resolved, _⟩
        · exact Or.inl (same rest.calls)
        · exact Or.inr ⟨_, _, b, cell, resolved⟩
    | timed found waiting batches executions rest => exact Or.inl (same rest.calls)
    | failed action found failing batches executions effect =>
        rcases effect with rest | ⟨b, cell, err, resolved, _⟩
        · exact Or.inl (same rest.calls)
        · exact Or.inr ⟨_, _, b, cell, resolved⟩
    | collectedPending action pending calls batches executions responses =>
        exact Or.inl (same calls)
    | collectedResponses responses calls batches executions pending => exact Or.inl (same calls)

theorem ChannelsSound.step (inv : s.ChannelsSound) (caches : s.CachesSound)
    (pending : s.PendingSound) (effect : Effect crypto flags l s s') : s'.ChannelsSound := by
  rcases effect.calls_cases with
    ⟨i, call, signer, b, cell, joined⟩ | ⟨moves, calls | ⟨h, outcome, b, cell, resolved⟩⟩
  · exact inv.joined caches joined
  · exact inv.kept moves calls
  · exact inv.resolved pending moves resolved

/-! ## Responses -/

/-- No batch is pending under a hash that has a live response. -/
def ResponsesSound (s : HostServer) : Prop :=
  ∀ h item, s.responseCache.items.lookup h = some item → ¬ item.Expired s.clock →
    s.pendingRequestsCache.items.lookup h = none

theorem ResponsesSound.kept (inv : s.ResponsesSound) (forward : s.clock ≤ s'.clock)
    (responses : ∀ h item, s'.responseCache.items.lookup h = some item →
      s.responseCache.items.lookup h = some item)
    (moves : Moves s s') : s'.ResponsesSound := by
  intro h item found live
  have before := inv h item (responses h item found) fun expired => live (expired.mono forward)
  cases pending : s'.pendingRequestsCache.items.lookup h with
  | none => rfl
  | some entry =>
      rw [moves.pending h entry pending] at before
      cases before

theorem ResponsesSound.joined (inv : s.ResponsesSound) (caches : s.CachesSound)
    (forward : s.clock ≤ now) (clock : s'.clock = now)
    (joined : Joined crypto flags s s' now i call signer b cell) : s'.ResponsesSound := by
  intro h item found live
  rw [joined.responses] at found
  rw [clock] at live
  rw [joined.pending, Cache.lookup_set (.of_unbounded caches.pendingUnbounded)]
  split
  · rename_i same
    subst same
    exact (live (Cache.get_eq_none_iff.mp joined.missed item found)).elim
  · exact inv h item found fun expired => live (expired.mono forward)

/-- An outcome is cached under the hash whose pending entry goes. -/
theorem lookup_cacheOutcome (caches : s.CachesSound) {item : CacheItem ExecuteResponse}
    (found : (s.cacheOutcome now h outcome).items.lookup h' = some item) :
    h' = h ∨ s.responseCache.items.lookup h' = some item := by
  cases outcome with
  | error _ => exact Or.inr found
  | ok resp =>
      unfold cacheOutcome at found
      rw [Cache.lookup_set (.of_unbounded caches.responsesUnbounded)] at found
      split at found
      · rename_i same
        exact Or.inl same
      · exact Or.inr found

theorem ResponsesSound.resolved (inv : s.ResponsesSound) (caches : s.CachesSound)
    (forward : s.clock ≤ s'.clock) (resolved : Resolved s s' now h outcome b cell)
    (responses : s'.responseCache = s.cacheOutcome now h outcome) : s'.ResponsesSound := by
  intro h' item found live
  rw [responses] at found
  rw [resolved.pending, Cache.lookup_delete]
  split
  · rfl
  · rename_i other
    rcases lookup_cacheOutcome caches found with same | old
    · exact (other same).elim
    · exact inv h' item old fun expired => live (expired.mono forward)

/-- The response cache stays as it is, receives the outcome of a batch, or is collected. -/
theorem Effect.responses_cases (effect : Effect crypto flags l s s') :
    s'.responseCache = s.responseCache ∨
      (∃ h outcome b cell, Resolved s s' l.now h outcome b cell ∧
        s'.responseCache = s.cacheOutcome l.now h outcome) ∨
      s'.responseCache = (s.responseCache.garbageCollect l.now).1 := by
  cases effect with
  | quiet calls batches executions pending responses => exact Or.inl responses
  | joined action joined => exact Or.inl joined.responses
  | processed found running executions batches rest => exact Or.inl rest.responses
  | completed action found finished executions effect =>
      rcases effect with ⟨_, _, rest⟩ | ⟨b, cell, resolved, _, responses⟩
      · exact Or.inl rest.responses
      · exact Or.inr (Or.inl ⟨_, _, b, cell, resolved, responses⟩)
  | timed found waiting batches executions rest => exact Or.inl rest.responses
  | failed action found failing batches executions effect =>
      rcases effect with rest | ⟨_, _, _, _, _, responses⟩
      · exact Or.inl rest.responses
      · exact Or.inl responses
  | collectedPending action pending calls batches executions responses =>
      exact Or.inl responses
  | collectedResponses responses calls batches executions pending =>
      exact Or.inr (Or.inr responses)

theorem ResponsesSound.step (inv : s.ResponsesSound) (caches : s.CachesSound)
    (forward : s.clock ≤ l.now) (clock : s'.clock = l.now)
    (effect : Effect crypto flags l s s') : s'.ResponsesSound := by
  have later : s.clock ≤ s'.clock := by omega
  rcases effect.joined_or_moves with ⟨i, call, signer, b, cell, _, joined⟩ | moves
  · exact inv.joined caches forward clock joined
  · rcases effect.responses_cases with
      same | ⟨h, outcome, b, cell, resolved, responses⟩ | collected
    · refine inv.kept later (fun h item found => ?_) moves
      rw [same] at found
      exact found
    · exact inv.resolved caches later resolved responses
    · refine inv.kept later (fun h item found => ?_) moves
      rw [collected] at found
      exact Cache.lookup_of_garbageCollect found

/-! ## Every reachable state -/

structure Sound (s : HostServer) : Prop where
  caches : s.CachesSound
  pending : s.PendingSound
  executions : s.ExecutionsSound
  channels : s.ChannelsSound
  responses : s.ResponsesSound

theorem Sound.init (start : Int) : (newHostServer start).Sound where
  caches := ⟨le_rfl, rfl, le_rfl, rfl⟩
  pending h item found := by
    rw [show (newHostServer start).pendingRequestsCache.items.lookup h = none from rfl] at found
    cases found
  executions := by
    refine ⟨fun e execution found => ?_, fun b cell found => ?_, fun b cell found => ?_⟩ <;>
      simp [newHostServer] at found
  channels := by
    refine ⟨fun b cell found => ?_, fun b b' cell cell' found => ?_, fun i call found => ?_⟩ <;>
      simp [newHostServer] at found
  responses h item found := by
    rw [show (newHostServer start).responseCache.items.lookup h = none from rfl] at found
    cases found

theorem Sound.effect (inv : s.Sound) (taken : step crypto flags s l = some s') :
    s.clock ≤ l.now ∧ s'.clock = l.now ∧ Effect crypto flags l s s' :=
  step_effect inv.pending.pointersValid taken

theorem Sound.step (inv : s.Sound) (taken : step crypto flags s l = some s') : s'.Sound := by
  obtain ⟨forward, clock, effect⟩ := inv.effect taken
  exact ⟨inv.caches.step effect, inv.pending.step inv.caches effect,
    inv.executions.step inv.pending effect,
    inv.channels.step inv.caches inv.pending effect,
    inv.responses.step inv.caches forward clock effect⟩

theorem Sound.of_run {ok : HostServer → HostLabel → Prop} {start : Int} {ls : List HostLabel}
    (run : Run (HostServer.step crypto flags) ok (newHostServer start) ls s) : s.Sound :=
  run.invariant (Sound.init start) fun _ _ _ inv _ taken => inv.step taken

end HostServer

end ConfidentialCompute
