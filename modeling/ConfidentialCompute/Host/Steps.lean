import ConfidentialCompute.Host.Server
import ConfidentialCompute.Lib.Heap

/-!
# What a step of the host can do

One inversion of the host's step function, in terms of lookups. `step_effect` says that a
step leaves the batches and caches alone, lets a request join a batch, moves an execution
or a timer along, completes or fails whatever batch is pending under a hash, or collects
expired cache entries. The invariants of later modules are proved over these cases.
-/

namespace ConfidentialCompute

open Go Runs Heap

/-! ## Channels -/

/-- Nothing has been sent on the goroutine's channel. -/
def HostCall.Unsent (call : HostCall) : Prop := call.sent = [] ∧ call.responseCh = none

/-- A later state of a goroutine, when nothing is sent to it in between. -/
structure CallFollows (call call' : HostCall) : Prop where
  req : call'.req = call.req
  config : call'.config = call.config
  sent : call'.sent = call.sent
  buffer : call.responseCh = none → call'.responseCh = none
  entered : call.pc ≠ .locking → call'.pc ≠ .locking

theorem CallFollows.refl (call : HostCall) : CallFollows call call :=
  ⟨rfl, rfl, rfl, id, id⟩

theorem CallFollows.unsent {call call' : HostCall} (follows : CallFollows call call')
    (unsent : call.Unsent) : call'.Unsent :=
  ⟨follows.sent.trans unsent.1, follows.buffer unsent.2⟩

/-- Goroutines go on and new ones arrive; nothing is sent. -/
abbrev CallsKept : List HostCall → List HostCall → Prop :=
  Grows CallFollows fun call => call.Unsent ∧ call.pc = .locking

theorem CallsKept.refl (calls : List HostCall) : CallsKept calls calls :=
  Grows.refl CallFollows.refl calls

theorem HostCall.send_send (outcome : BatchResponse) (call : HostCall) :
    (call.send outcome).send outcome = call.send outcome := by
  unfold HostCall.send
  cases buffer : call.responseCh with
  | none => rfl
  | some _ => simp [buffer]

theorem HostCall.sent_send {outcome : BatchResponse} {call : HostCall}
    (unsent : call.Unsent) : (call.send outcome).sent = [outcome] := by
  obtain ⟨nothing, empty⟩ := unsent
  unfold HostCall.send
  rw [empty, nothing]
  rfl

@[simp] theorem HostCall.pc_send (outcome : BatchResponse) (call : HostCall) :
    (call.send outcome).pc = call.pc := by
  unfold HostCall.send
  split <;> rfl

namespace HostServer

/-- The loop sends once on each of the channels. -/
theorem getElem?_notifyWaiters (calls : List HostCall) (outcome : BatchResponse)
    (responseCh : List Nat) (i : Nat) :
    (notifyWaiters calls outcome responseCh)[i]? =
      if i ∈ responseCh then calls[i]?.map (HostCall.send outcome) else calls[i]? := by
  unfold notifyWaiters
  induction responseCh generalizing calls with
  | nil => rfl
  | cons j rest ih =>
      rw [List.foldl_cons, ih]
      by_cases same : j = i
      · subst same
        rw [List.getElem?_modify_eq, if_pos List.mem_cons_self]
        cases calls[j]? with
        | none => simp
        | some call => simp [HostCall.send_send]
      · rw [List.getElem?_modify_ne _ _ same]
        simp [Ne.symm same]

/-! ## Effects -/

/-- What a request does to the batch it joins. -/
def joinBatch (flags : HostFlags) (i : Nat) (call : HostCall) (signer : Slice UInt8)
    (br : BatchRequest) : BatchRequest :=
  if signer ∈ br.signersSeen then subscribe i br else addRequest flags i call signer br

/-- A new signer's request makes the batch reach exactly the threshold. -/
def Dispatches (flags : HostFlags) (call : HostCall) (signer : Slice UInt8)
    (br : BatchRequest) : Prop :=
  signer ∉ br.signersSeen ∧ br.requests.length + 1 = quorumThreshold flags call.config.f

instance (flags : HostFlags) (call : HostCall) (signer : Slice UInt8) (br : BatchRequest) :
    Decidable (Dispatches flags call signer br) :=
  inferInstanceAs (Decidable (_ ∧ _))

/-- The batch a request for the hash joins: the pending one, or a new one. -/
def Target (s : HostServer) (now : Int) (requestHash : Bytes32) (f : UInt32) (b : Nat)
    (cell : Batch) : Prop :=
  (s.pendingRequestsCache.get now requestHash = some b ∧ s.batches[b]? = some cell) ∨
    (s.pendingRequestsCache.get now requestHash = none ∧ b = s.batches.length ∧
      cell = newBatch now requestHash f)

/-- A goroutine's section in which the request, with a valid signature of `signer` and no
cached response, joins the batch `b`. -/
structure Joins (crypto : Crypto) (s : HostServer) (now : Int) (i : Nat) (call : HostCall)
    (signer : Slice UInt8) (b : Nat) (cell : Batch) : Prop where
  found : s.calls[i]? = some call
  locking : call.pc = .locking
  verified : verifySignature crypto (requestPayload crypto (call.req.hash crypto))
    call.req.signature call.config.signers = .ok signer
  missed : s.responseCache.get now (call.req.hash crypto) = none
  target : s.Target now (call.req.hash crypto) call.config.f b cell

/-- What the section leaves behind. -/
structure Joined (crypto : Crypto) (flags : HostFlags) (s s' : HostServer) (now : Int)
    (i : Nat) (call : HostCall) (signer : Slice UInt8) (b : Nat) (cell : Batch) : Prop
    extends Joins crypto s now i call signer b cell where
  batches : ∀ b' : Nat, s'.batches[b']? =
    if b' = b then
      some { cell with
        toBatchRequest := joinBatch flags i call signer cell.toBatchRequest, storedAt := now }
    else s.batches[b']?
  pending : s'.pendingRequestsCache =
    s.pendingRequestsCache.set now (call.req.hash crypto) b none
  responses : s'.responseCache = s.responseCache
  calls : s'.calls = s.calls.modify i fun call => { call with pc := .waiting }
  executions : s'.executions =
    if Dispatches flags call signer cell.toBatchRequest then
      s.executions ++ [⟨b, call.req.hash crypto, cell.requests ++ [call.req], .running⟩]
    else s.executions

/-- The batch pending under the hash is notified and leaves the cache. -/
structure Resolved (s s' : HostServer) (now : Int) (requestHash : Bytes32)
    (outcome : BatchResponse) (b : Nat) (cell : Batch) : Prop where
  found : s.pendingRequestsCache.get now requestHash = some b
  allocated : s.batches[b]? = some cell
  calls : s'.calls = notifyWaiters s.calls outcome cell.responseCh
  pending : s'.pendingRequestsCache = s.pendingRequestsCache.delete requestHash

/-- The response cache after an outcome. -/
def cacheOutcome (s : HostServer) (now : Int) (requestHash : Bytes32) :
    BatchResponse → Cache Bytes32 ExecuteResponse
  | .ok resp => s.responseCache.set now requestHash resp none
  | .error _ => s.responseCache

/-- Calls and caches are as before. -/
structure Untouched (s s' : HostServer) : Prop where
  calls : s'.calls = s.calls
  pending : s'.pendingRequestsCache = s.pendingRequestsCache
  responses : s'.responseCache = s.responseCache

inductive Effect (crypto : Crypto) (flags : HostFlags) (l : HostLabel) (s s' : HostServer) :
    Prop where
  | quiet (calls : CallsKept s.calls s'.calls) (batches : s'.batches = s.batches)
      (executions : s'.executions = s.executions)
      (pending : s'.pendingRequestsCache = s.pendingRequestsCache)
      (responses : s'.responseCache = s.responseCache)
  | joined {i : Nat} {call : HostCall} {signer : Slice UInt8} {b : Nat} {cell : Batch}
      (action : l.action = .enter i)
      (joined : Joined crypto flags s s' l.now i call signer b cell)
  | processed {e : Nat} {execution : Execution} {outcome : BatchResponse}
      (found : s.executions[e]? = some execution) (running : execution.pc = .running)
      (executions : s'.executions = s.executions.modify e fun execution =>
        { execution with pc := .finished outcome })
      (batches : s'.batches = s.batches) (rest : Untouched s s')
  | completed {e : Nat} {execution : Execution} {outcome : BatchResponse}
      (action : l.action = .complete e)
      (found : s.executions[e]? = some execution) (finished : execution.pc = .finished outcome)
      (executions : s'.executions = s.executions.modify e fun execution =>
        { execution with pc := .completed outcome l.now })
      (effect : (s.pendingRequestsCache.get l.now execution.requestHash = none ∧
          s'.batches = s.batches ∧ Untouched s s') ∨
        ∃ b cell, Resolved s s' l.now execution.requestHash outcome b cell ∧
          s'.batches = (s.batches.modify b fun cell => { cell with done := true }) ∧
          s'.responseCache = s.cacheOutcome l.now execution.requestHash outcome)
  | timed {b : Nat} {cell : Batch} {pc : TimerPC} (found : s.batches[b]? = some cell)
      (waiting : cell.timer = .waiting)
      (batches : s'.batches = s.batches.modify b fun cell => { cell with timer := pc })
      (executions : s'.executions = s.executions) (rest : Untouched s s')
  | failed {b : Nat} {cell : Batch} {isShutdown : Bool} (action : l.action = .failBatch b)
      (found : s.batches[b]? = some cell) (failing : cell.timer = .failing isShutdown)
      (batches : s'.batches = s.batches.modify b fun cell => { cell with timer := .exited })
      (executions : s'.executions = s.executions)
      (effect : Untouched s s' ∨
        ∃ b' cell' err, Resolved s s' l.now cell.requestHash (.error err) b' cell' ∧
          cell'.processingRequest = false ∧ s'.responseCache = s.responseCache)
  | collectedPending (action : l.action = .collectPending)
      (pending : s'.pendingRequestsCache = (s.pendingRequestsCache.garbageCollect l.now).1)
      (calls : s'.calls = s.calls) (batches : s'.batches = s.batches)
      (executions : s'.executions = s.executions)
      (responses : s'.responseCache = s.responseCache)
  | collectedResponses
      (responses : s'.responseCache = (s.responseCache.garbageCollect l.now).1)
      (calls : s'.calls = s.calls) (batches : s'.batches = s.batches)
      (executions : s'.executions = s.executions)
      (pending : s'.pendingRequestsCache = s.pendingRequestsCache)

/-- The pointers in the pending cache lead somewhere. -/
def PointersValid (s : HostServer) : Prop :=
  ∀ h item, s.pendingRequestsCache.items.lookup h = some item → item.value < s.batches.length

/-! ## Inversion -/

section

variable {crypto : Crypto} {flags : HostFlags} {s s' : HostServer} {now : Int} {l : HostLabel}
  {h : Bytes32} {f : UInt32} {i b : Nat} {call : HostCall} {signer : Slice UInt8} {cell : Batch}
  {outcome : BatchResponse}

theorem PointersValid.batch (valid : s.PointersValid)
    (found : s.pendingRequestsCache.get now h = some b) :
    s.batches[b]? = some (s.batch b) := by
  obtain ⟨item, stored, _, rfl⟩ := Cache.get_eq_some_iff.mp found
  have bound := valid h item stored
  unfold HostServer.batch
  rw [List.getElem?_eq_getElem bound]
  rfl

theorem callsKept_modify {calls : List HostCall} {f : HostCall → HostCall}
    (follows : ∀ call, CallFollows call (f call)) : CallsKept calls (calls.modify i f) :=
  Grows.modify CallFollows.refl fun call _ => follows call

theorem setCall_quiet {pc : HostPC} (moved : pc ≠ .locking) :
    CallsKept s.calls (s.setCall i pc).calls :=
  callsKept_modify fun _ => ⟨rfl, rfl, rfl, id, fun _ => moved⟩

/-- The lookups after a request has joined the batch that was found for it. -/
theorem join_findBatch_batches {b' : Nat} {g : Batch → Batch} (target : s.Target now h f b cell) :
    ((s.findBatch now h f).1.batches.modify b g)[b']? =
      if b' = b then some (g cell) else s.batches[b']? := by
  unfold findBatch
  rcases target with ⟨found, allocated⟩ | ⟨missing, rfl, rfl⟩
  · rw [found]
    exact getElem?_modify_of allocated
  · rw [missing]
    dsimp only
    rw [getElem?_modify_of List.getElem?_concat_length, getElem?_alloc]
    split <;> rfl

theorem findBatch_target (valid : s.PointersValid) :
    s.Target now h f (s.findBatch now h f).2
        ((s.findBatch now h f).1.batch (s.findBatch now h f).2) := by
  unfold findBatch
  cases found : s.pendingRequestsCache.get now h with
  | some b => exact Or.inl ⟨found, valid.batch found⟩
  | none =>
      refine Or.inr ⟨found, rfl, ?_⟩
      unfold HostServer.batch
      dsimp only
      rw [List.getElem?_concat_length]
      rfl

theorem findBatch_rest (s : HostServer) (now : Int) (h : Bytes32) (f : UInt32) :
    (s.findBatch now h f).1.executions = s.executions ∧ Untouched s (s.findBatch now h f).1 := by
  unfold findBatch
  split <;> exact ⟨rfl, rfl, rfl, rfl⟩

theorem batches_join : (s.join flags now h i call signer b).batches =
    s.batches.modify b fun cell => { cell with
      toBatchRequest := joinBatch flags i call signer (s.batch b).toBatchRequest
      storedAt := now } := by
  unfold join joinBatch
  dsimp only
  split
  · rfl
  · split <;> rfl

theorem untouched_join (flags : HostFlags) (s : HostServer) (now : Int) (h : Bytes32) (i : Nat)
    (call : HostCall) (signer : Slice UInt8) (b : Nat) :
    (s.join flags now h i call signer b).pendingRequestsCache =
        s.pendingRequestsCache.set now h b none ∧
      (s.join flags now h i call signer b).responseCache = s.responseCache ∧
      (s.join flags now h i call signer b).calls =
        s.calls.modify i fun call => { call with pc := .waiting } := by
  unfold join
  dsimp only
  split
  · exact ⟨rfl, rfl, rfl⟩
  · split <;> exact ⟨rfl, rfl, rfl⟩

theorem executions_join : (s.join flags now h i call signer b).executions =
    if Dispatches flags call signer (s.batch b).toBatchRequest then
      s.executions ++ [⟨b, h, (s.batch b).requests ++ [call.req], .running⟩]
    else s.executions := by
  unfold join Dispatches addRequest
  dsimp only
  rw [List.length_append, List.length_singleton]
  by_cases seen : signer ∈ (s.batch b).signersSeen
  · simp [seen, storeBatch, setCall]
  · simp only [seen, if_false, not_false_eq_true, true_and]
    split <;> rfl

theorem join_joined (valid : s.PointersValid) (found : s.calls[i]? = some call)
    (locking : call.pc = .locking)
    (verified : verifySignature crypto (requestPayload crypto (call.req.hash crypto))
      call.req.signature call.config.signers = .ok signer)
    (missed : s.responseCache.get now (call.req.hash crypto) = none) :
    Joined crypto flags s
      ((s.findBatch now (call.req.hash crypto) call.config.f).1.join flags now
        (call.req.hash crypto) i call signer
        (s.findBatch now (call.req.hash crypto) call.config.f).2)
      now i call signer (s.findBatch now (call.req.hash crypto) call.config.f).2
      ((s.findBatch now (call.req.hash crypto) call.config.f).1.batch
        (s.findBatch now (call.req.hash crypto) call.config.f).2) := by
  have target : s.Target now (call.req.hash crypto) call.config.f _ _ := findBatch_target valid
  obtain ⟨executions, calls, pending, responses⟩ :=
    findBatch_rest s now (call.req.hash crypto) call.config.f
  obtain ⟨pending', responses', calls'⟩ := untouched_join flags
    (s.findBatch now (call.req.hash crypto) call.config.f).1 now (call.req.hash crypto) i call
    signer (s.findBatch now (call.req.hash crypto) call.config.f).2
  refine ⟨⟨found, locking, verified, missed, target⟩, ?_, ?_, ?_, ?_, ?_⟩
  · intro b'
    rw [batches_join]
    exact join_findBatch_batches target
  · rw [pending', pending]
  · rw [responses', responses]
  · rw [calls', calls]
  · rw [executions_join, executions]

/-- The batch a request joins is determined by the state. -/
theorem Target.unique {b' : Nat} {cell' : Batch} (target : s.Target now h f b cell)
    (target' : s.Target now h f b' cell') :
    b' = b ∧ cell' = cell := by
  rcases target with ⟨found, allocated⟩ | ⟨missing, rfl, rfl⟩ <;>
    rcases target' with ⟨found', allocated'⟩ | ⟨missing', rfl, rfl⟩
  · cases found.symm.trans found'
    exact ⟨rfl, Option.some.inj (allocated'.symm.trans allocated)⟩
  · rw [found] at missing'
    cases missing'
  · rw [missing] at found'
    cases found'
  · exact ⟨rfl, rfl⟩

theorem Joins.joined (valid : s.PointersValid) (joins : Joins crypto s now i call signer b cell) :
    Joined crypto flags s (s.enter crypto flags now i call) now i call signer b cell := by
  have joined : Joined crypto flags s _ now i call signer _ _ :=
    join_joined valid joins.found joins.locking joins.verified joins.missed
  obtain ⟨same, sameCell⟩ := joins.target.unique joined.target
  have entered : s.enter crypto flags now i call =
      (s.findBatch now (call.req.hash crypto) call.config.f).1.join flags now
        (call.req.hash crypto) i call signer
        (s.findBatch now (call.req.hash crypto) call.config.f).2 := by
    unfold enter
    simp only [joins.verified, joins.missed]
  rw [sameCell, same] at joined
  rw [entered, same]
  exact joined

/-- The section of a goroutine answers it, or lets its request join a batch. -/
theorem enter_effect (valid : s.PointersValid) (found : s.calls[i]? = some call)
    (locking : call.pc = .locking) :
    (CallsKept s.calls (s.enter crypto flags now i call).calls ∧
        (s.enter crypto flags now i call).batches = s.batches ∧
        (s.enter crypto flags now i call).executions = s.executions ∧
        (s.enter crypto flags now i call).pendingRequestsCache = s.pendingRequestsCache ∧
        (s.enter crypto flags now i call).responseCache = s.responseCache) ∨
      ∃ signer b cell,
        Joined crypto flags s (s.enter crypto flags now i call) now i call signer b cell := by
  unfold enter
  dsimp only
  split
  · exact Or.inl ⟨setCall_quiet (by simp), rfl, rfl, rfl, rfl⟩
  · exact Or.inl ⟨setCall_quiet (by simp), rfl, rfl, rfl, rfl⟩
  · rename_i signer verified
    split
    · exact Or.inl ⟨setCall_quiet (by simp), rfl, rfl, rfl, rfl⟩
    · rename_i missed
      right
      exact ⟨signer, _, _, join_joined valid found locking verified missed⟩

/-- `completeBatch` does nothing, or resolves the batch it finds. -/
theorem completeBatch_effect (valid : s.PointersValid) (now : Int) (h : Bytes32)
    (outcome : BatchResponse) :
    (s.completeBatch now h outcome).executions = s.executions ∧
      ((s.pendingRequestsCache.get now h = none ∧
          (s.completeBatch now h outcome).batches = s.batches ∧
          Untouched s (s.completeBatch now h outcome)) ∨
        ∃ b cell, Resolved s (s.completeBatch now h outcome) now h outcome b cell ∧
          (s.completeBatch now h outcome).batches =
            (s.batches.modify b fun cell => { cell with done := true }) ∧
          (s.completeBatch now h outcome).responseCache = s.cacheOutcome now h outcome) := by
  unfold completeBatch
  cases found : s.pendingRequestsCache.get now h with
  | none => exact ⟨rfl, Or.inl ⟨rfl, rfl, rfl, rfl, rfl⟩⟩
  | some b =>
      refine ⟨rfl, Or.inr ⟨b, s.batch b, ⟨found, valid.batch found, rfl, rfl⟩, rfl, ?_⟩⟩
      cases outcome <;> rfl

/-- `failBatchIfNotProcessed` does nothing, or resolves a batch that is not processed. -/
theorem failBatch_effect (valid : s.PointersValid) (flags : HostFlags) (now : Int) (h : Bytes32)
    (f : UInt32) (isShutdown : Bool) :
    (failBatchIfNotProcessed flags s now h f isShutdown).executions = s.executions ∧
      (failBatchIfNotProcessed flags s now h f isShutdown).batches = s.batches ∧
      (Untouched s (failBatchIfNotProcessed flags s now h f isShutdown) ∨
        ∃ b cell err, Resolved s (failBatchIfNotProcessed flags s now h f isShutdown) now h
            (.error err) b cell ∧ cell.processingRequest = false ∧
          (failBatchIfNotProcessed flags s now h f isShutdown).responseCache =
            s.responseCache) := by
  unfold failBatchIfNotProcessed
  cases found : s.pendingRequestsCache.get now h with
  | none => exact ⟨rfl, rfl, Or.inl ⟨rfl, rfl, rfl⟩⟩
  | some b =>
      dsimp only
      split
      · exact ⟨rfl, rfl, Or.inl ⟨rfl, rfl, rfl⟩⟩
      · rename_i idle
        refine ⟨rfl, rfl, Or.inr ⟨b, s.batch b, _, ⟨found, valid.batch found, rfl, rfl⟩, ?_, rfl⟩⟩
        simpa using idle

theorem selectStep_effect {ready : Batch → Prop} [DecidablePred ready] {pc : TimerPC}
    (taken : s.selectStep b ready pc = some s') :
    ∃ cell, s.batches[b]? = some cell ∧ cell.timer = .waiting ∧ s' = s.setTimer b pc := by
  unfold selectStep at taken
  split at taken
  · cases taken
  · rename_i cell found
    split at taken
    · rename_i guard
      cases taken
      exact ⟨cell, found, guard.1, rfl⟩
    · cases taken

theorem proxyConfig_quiet {α : Type} {applyConfig : HostServer → α → HostServer}
    {answer : Forwarded α}
    (keeps : ∀ s resp, ∃ config, applyConfig s resp = { s with config := config }) :
    ∃ config, (s.proxyConfig applyConfig answer).1 = { s with config := config } := by
  unfold proxyConfig
  split
  · exact ⟨s.config, rfl⟩
  · exact ⟨s.config, rfl⟩
  · exact ⟨s.config, rfl⟩
  · exact ⟨s.config, rfl⟩
  · exact ⟨s.config, rfl⟩
  · exact ⟨s.config, rfl⟩
  · split
    · split
      · exact ⟨s.config, rfl⟩
      · exact keeps s _
    · exact ⟨s.config, rfl⟩

theorem handleUpdateConfig_quiet {answer : Forwarded UpdateConfigResponse} :
    ∃ config, (s.handleUpdateConfig answer).1 = { s with config := config } := by
  refine proxyConfig_quiet fun s resp => ?_
  split
  · exact ⟨_, rfl⟩
  · exact ⟨s.config, rfl⟩

/-- An answer of the enclave changes the configuration only. -/
theorem config_quiet {answer : Option PublicKeyResponse} :
    ∃ config, s.maybeRecoverConfig answer = { s with config := config } := by
  unfold maybeRecoverConfig
  split
  · exact ⟨s.config, rfl⟩
  · split
    · exact ⟨s.config, rfl⟩
    · split
      · exact ⟨s.config, rfl⟩
      · exact ⟨_, rfl⟩

theorem handleGetPublicKeys_quiet {method : HttpMethod} {answer : Forwarded PublicKeyResponse} :
    ∃ config, (s.handleGetPublicKeys method answer).1 = { s with config := config } := by
  unfold handleGetPublicKeys
  split
  · exact ⟨s.config, rfl⟩
  · cases answer with
    | answered status body =>
        dsimp only
        split
        · exact config_quiet
        · exact ⟨s.config, rfl⟩
    | _ => exact ⟨s.config, rfl⟩

theorem arrive_quiet {method : HttpMethod} {body : HostBody} :
    CallsKept s.calls (s.arrive method body).1.calls ∧
      (s.arrive method body).1 = { s with calls := (s.arrive method body).1.calls } := by
  unfold arrive
  split
  · exact ⟨.refl _, rfl⟩
  · split
    · exact ⟨.refl _, rfl⟩
    · exact ⟨.refl _, rfl⟩
    · split
      · exact ⟨.refl _, rfl⟩
      · exact ⟨Grows.alloc CallFollows.refl ⟨⟨rfl, rfl⟩, rfl⟩, rfl⟩

/-- The clock is as before, and so is the mutex unless a signature check panicked. -/
structure Background (crypto : Crypto) (l : HostLabel) (s s' : HostServer) : Prop where
  clock : s'.clock = s.clock
  locked : s'.locked = s.locked ∨ ∃ i call, l.action = .enter i ∧ s.calls[i]? = some call ∧
    ReachesMalformedKey crypto (requestPayload crypto (call.req.hash crypto))
      call.req.signature call.config.signers

theorem Background.same (clock : s'.clock = s.clock) (locked : s'.locked = s.locked) :
    Background crypto l s s' :=
  ⟨clock, Or.inl locked⟩

theorem clock_enter :
    (s.enter crypto flags now i call).clock = s.clock := by
  unfold enter findBatch join
  dsimp only
  repeat' split
  all_goals rfl

/-- A check that does not panic leaves the mutex as it was. -/
theorem locked_enter
    (survives : ¬ ReachesMalformedKey crypto (requestPayload crypto (call.req.hash crypto))
      call.req.signature call.config.signers) :
    (s.enter crypto flags now i call).locked = s.locked := by
  unfold enter
  dsimp only
  split
  · rename_i panics
    exact (survives (verifySignature_panicked_iff.mp panics)).elim
  · rfl
  · split
    · rfl
    · unfold findBatch join
      dsimp only
      repeat' split
      all_goals rfl

theorem background_completeBatch :
    (s.completeBatch now h outcome).clock = s.clock ∧
      (s.completeBatch now h outcome).locked = s.locked := by
  unfold completeBatch
  split <;> exact ⟨rfl, rfl⟩

theorem background_failBatch {isShutdown : Bool} :
    (failBatchIfNotProcessed flags s now h f isShutdown).clock = s.clock ∧
      (failBatchIfNotProcessed flags s now h f isShutdown).locked = s.locked := by
  unfold failBatchIfNotProcessed
  split
  · exact ⟨rfl, rfl⟩
  · dsimp only
    split <;> exact ⟨rfl, rfl⟩

theorem Effect.of_config {config : EnclaveConfig} (eq : s' = { s with config := config }) :
    Effect crypto flags l s s' ∧ Background crypto l s s' := by
  subst eq
  exact ⟨.quiet (.refl _) rfl rfl rfl rfl, .same rfl rfl⟩

theorem callStep_effect (valid : s.PointersValid) (action : l.action = .enter i)
    (found : s.calls[i]? = some call) (taken : s.callStep crypto flags l.now i call = some s') :
    Effect crypto flags l s s' ∧ Background crypto l s s' := by
  unfold callStep at taken
  split at taken
  · rename_i guard
    cases taken
    refine ⟨?_, clock_enter, ?_⟩
    swap
    · by_cases fatal : ReachesMalformedKey crypto (requestPayload crypto (call.req.hash crypto))
          call.req.signature call.config.signers
      · exact Or.inr ⟨i, call, action, found, fatal⟩
      · exact Or.inl (locked_enter fatal)
    rcases enter_effect valid found guard.1 with
      ⟨calls, batches, executions, pending, responses⟩ | ⟨signer, b, cell, joined⟩
    · exact .quiet calls batches executions pending responses
    · exact .joined action joined
  · cases taken

theorem receiveStep_effect (taken : s.receiveStep i call = some s') :
    Effect crypto flags l s s' ∧ Background crypto l s s' := by
  unfold receiveStep at taken
  split at taken
  · cases taken
    exact ⟨.quiet (callsKept_modify fun _ => ⟨rfl, rfl, rfl, fun _ => rfl, fun _ => by simp⟩)
      rfl rfl rfl rfl, .same rfl rfl⟩
  · cases taken

theorem completeStep_effect (valid : s.PointersValid) {e : Nat} {execution : Execution}
    (action : l.action = .complete e) (found : s.executions[e]? = some execution)
    (taken : s.completeStep l.now e execution = some s') :
    Effect crypto flags l s s' ∧ Background crypto l s s' := by
  unfold completeStep at taken
  split at taken
  · rename_i outcome finished
    split at taken
    · cases taken
      obtain ⟨executions, effect⟩ :=
        completeBatch_effect valid l.now execution.requestHash outcome
      refine ⟨.completed action found finished ?_ ?_,
        .same background_completeBatch.1 background_completeBatch.2⟩
      · unfold setExecution
        rw [executions]
      · rcases effect with ⟨missing, batches, rest⟩ | ⟨b, cell, resolved, batches, responses⟩
        · exact Or.inl ⟨missing, batches, ⟨rest.calls, rest.pending, rest.responses⟩⟩
        · exact Or.inr ⟨b, cell, ⟨resolved.found, resolved.allocated, resolved.calls,
            resolved.pending⟩, batches, responses⟩
    · cases taken
  · cases taken

theorem failStep_effect (valid : s.PointersValid) (action : l.action = .failBatch b)
    (found : s.batches[b]? = some cell) (taken : s.failStep flags l.now b cell = some s') :
    Effect crypto flags l s s' ∧ Background crypto l s s' := by
  unfold failStep at taken
  split at taken
  · rename_i isShutdown failing
    split at taken
    · cases taken
      obtain ⟨executions, batches, effect⟩ :=
        failBatch_effect valid flags l.now cell.requestHash cell.f isShutdown
      refine ⟨.failed action found failing ?_ executions ?_,
        .same background_failBatch.1 background_failBatch.2⟩
      · unfold setTimer
        rw [batches]
      · rcases effect with rest | ⟨b', cell', err, resolved, idle, responses⟩
        · exact Or.inl ⟨rest.calls, rest.pending, rest.responses⟩
        · exact Or.inr ⟨b', cell', err, ⟨resolved.found, resolved.allocated, resolved.calls,
            resolved.pending⟩, idle, responses⟩
    · cases taken
  · cases taken

theorem timed_effect {ready : Batch → Prop} [DecidablePred ready] {pc : TimerPC}
    (taken : s.selectStep b ready pc = some s') :
    Effect crypto flags l s s' ∧ Background crypto l s s' := by
  obtain ⟨cell, found, waiting, rfl⟩ := selectStep_effect taken
  exact ⟨.timed found waiting rfl rfl ⟨rfl, rfl, rfl⟩, .same rfl rfl⟩

theorem act_effect (valid : s.PointersValid)
    (taken : s.act crypto flags l.now l.action = some s') :
    Effect crypto flags l s s' ∧ Background crypto l s s' := by
  cases action : l.action with
  | getPublicKeys method answer =>
      rw [action] at taken
      cases taken
      obtain ⟨config, eq⟩ := handleGetPublicKeys_quiet
      exact Effect.of_config eq
  | setConfig answer =>
      rw [action] at taken
      cases taken
      obtain ⟨config, eq⟩ := proxyConfig_quiet fun s resp => ⟨_, rfl⟩
      exact Effect.of_config eq
  | updateConfig answer =>
      rw [action] at taken
      cases taken
      obtain ⟨config, eq⟩ := handleUpdateConfig_quiet
      exact Effect.of_config eq
  | arrive method body =>
      rw [action] at taken
      cases taken
      obtain ⟨calls, eq⟩ := arrive_quiet
      rw [eq]
      exact ⟨.quiet calls rfl rfl rfl rfl, .same rfl rfl⟩
  | enter i =>
      rw [action] at taken
      obtain ⟨call, found, taken⟩ := Option.bind_eq_some_iff.mp taken
      exact callStep_effect valid action found taken
  | receive i =>
      rw [action] at taken
      obtain ⟨call, _, taken⟩ := Option.bind_eq_some_iff.mp taken
      exact receiveStep_effect taken
  | disconnect i =>
      rw [action] at taken
      obtain ⟨call, _, taken⟩ := Option.bind_eq_some_iff.mp taken
      split at taken
      · cases taken
        exact ⟨.quiet (setCall_quiet (by simp)) rfl rfl rfl rfl, .same rfl rfl⟩
      · cases taken
  | process e answer =>
      rw [action] at taken
      obtain ⟨execution, found, taken⟩ := Option.bind_eq_some_iff.mp taken
      split at taken
      · rename_i running
        cases taken
        exact ⟨.processed found running rfl rfl ⟨rfl, rfl, rfl⟩, .same rfl rfl⟩
      · cases taken
  | complete e =>
      rw [action] at taken
      obtain ⟨execution, found, taken⟩ := Option.bind_eq_some_iff.mp taken
      exact completeStep_effect valid action found taken
  | timeout b =>
      rw [action] at taken
      exact timed_effect taken
  | batchDone b =>
      rw [action] at taken
      exact timed_effect taken
  | contextDone b =>
      rw [action] at taken
      exact timed_effect taken
  | failBatch b =>
      rw [action] at taken
      obtain ⟨cell, found, taken⟩ := Option.bind_eq_some_iff.mp taken
      exact failStep_effect valid action found taken
  | shutdown =>
      rw [action] at taken
      cases taken
      exact ⟨.quiet (.refl _) rfl rfl rfl rfl, .same rfl rfl⟩
  | collectPending =>
      rw [action] at taken
      cases taken
      exact ⟨.collectedPending action rfl rfl rfl rfl rfl, .same rfl rfl⟩
  | collectResponses =>
      rw [action] at taken
      cases taken
      exact ⟨.collectedResponses rfl rfl rfl rfl rfl, .same rfl rfl⟩

/-- What is said of a section does not depend on the clock of the state. -/
theorem Joins.of_clock {time : Int} (joins : Joins crypto s now i call signer b cell) :
    Joins crypto { s with clock := time } now i call signer b cell :=
  ⟨joins.found, joins.locking, joins.verified, joins.missed, joins.target⟩

theorem Joined.of_clock {time : Int}
    (joined : Joined crypto flags { s with clock := time } s' now i call signer b cell) :
    Joined crypto flags s s' now i call signer b cell :=
  ⟨⟨joined.found, joined.locking, joined.verified, joined.missed, joined.target⟩,
    joined.batches, joined.pending, joined.responses, joined.calls, joined.executions⟩

/-- An effect speaks of fields other than the clock only. -/
theorem Effect.of_clock {time : Int} (effect : Effect crypto flags l { s with clock := time } s') :
    Effect crypto flags l s s' := by
  cases effect with
  | quiet calls batches executions pending responses =>
      exact .quiet calls batches executions pending responses
  | joined action joined => exact .joined action joined.of_clock
  | processed found running executions batches rest =>
      exact .processed found running executions batches ⟨rest.calls, rest.pending,
        rest.responses⟩
  | completed action found finished executions effect =>
      refine .completed action found finished executions ?_
      rcases effect with ⟨missing, batches, rest⟩ | ⟨b, cell, resolved, batches, responses⟩
      · exact Or.inl ⟨missing, batches, ⟨rest.calls, rest.pending, rest.responses⟩⟩
      · exact Or.inr ⟨b, cell, ⟨resolved.found, resolved.allocated, resolved.calls,
          resolved.pending⟩, batches, responses⟩
  | timed found waiting batches executions rest =>
      exact .timed found waiting batches executions ⟨rest.calls, rest.pending, rest.responses⟩
  | failed action found failing batches executions effect =>
      refine .failed action found failing batches executions ?_
      rcases effect with rest | ⟨b', cell', err, resolved, idle, responses⟩
      · exact Or.inl ⟨rest.calls, rest.pending, rest.responses⟩
      · exact Or.inr ⟨b', cell', err, ⟨resolved.found, resolved.allocated, resolved.calls,
          resolved.pending⟩, idle, responses⟩
  | collectedPending action pending calls batches executions responses =>
      exact .collectedPending action pending calls batches executions responses
  | collectedResponses responses calls batches executions pending =>
      exact .collectedResponses responses calls batches executions pending

/-- **Inversion of a step.** -/
theorem step_effect (valid : s.PointersValid) (taken : step crypto flags s l = some s') :
    s.clock ≤ l.now ∧ s'.clock = l.now ∧ Effect crypto flags l s s' := by
  unfold step at taken
  split at taken
  · rename_i forward
    obtain ⟨effect, background⟩ := act_effect (s := { s with clock := l.now }) valid taken
    exact ⟨forward, background.clock, effect.of_clock⟩
  · cases taken

/-- Only a check that panics leaves the mutex locked. -/
theorem step_locked (valid : s.PointersValid) (taken : step crypto flags s l = some s') :
    s'.locked = s.locked ∨ ∃ i call, l.action = .enter i ∧ s.calls[i]? = some call ∧
      ReachesMalformedKey crypto (requestPayload crypto (call.req.hash crypto))
        call.req.signature call.config.signers := by
  unfold step at taken
  split at taken
  · exact (act_effect (s := { s with clock := l.now }) valid taken).2.locked
  · cases taken

/-! ## The configuration side -/

/-- The configurations that the goroutines have read. -/
def snapshots (s : HostServer) : List EnclaveConfig := s.calls.map HostCall.config

/-- The configuration and what has been read of it are as before. -/
structure ConfigUntouched (s s' : HostServer) : Prop where
  config : s'.config = s.config
  snapshots : s'.snapshots = s.snapshots

/-- What an action does to the configuration: nothing, or a request reads it, or an answer of
the enclave may replace it. -/
inductive ConfigMove (action : HostAction) (s s' : HostServer) : Prop where
  | kept (kept : ConfigUntouched s s')
  | read (arrival : action.isArrival = true) (config : s'.config = s.config)
      (snapshots : s'.snapshots = s.snapshots ++ [s.config])
  | adopted (answer : action.isConfig = true) (snapshots : s'.snapshots = s.snapshots)

theorem map_config_modify {calls : List HostCall} {f : HostCall → HostCall}
    (keeps : ∀ call, (f call).config = call.config) :
    (calls.modify i f).map HostCall.config = calls.map HostCall.config := by
  apply List.ext_getElem?
  intro j
  rw [List.getElem?_map, List.getElem?_map, List.getElem?_modify]
  split
  · cases calls[j]? <;> simp [keeps]
  · cases calls[j]? <;> simp

theorem map_config_notifyWaiters {calls : List HostCall} {responseCh : List Nat} :
    (notifyWaiters calls outcome responseCh).map HostCall.config =
      calls.map HostCall.config := by
  unfold notifyWaiters
  induction responseCh generalizing calls with
  | nil => rfl
  | cons i rest ih =>
      rw [List.foldl_cons, ih]
      refine map_config_modify fun call => ?_
      unfold HostCall.send
      split <;> rfl

theorem configUntouched_setCall {pc : HostPC} : ConfigUntouched s (s.setCall i pc) :=
  ⟨rfl, map_config_modify fun _ => rfl⟩

theorem configUntouched_completeBatch :
    ConfigUntouched s (s.completeBatch now h outcome) := by
  unfold completeBatch
  split
  · exact ⟨rfl, rfl⟩
  · exact ⟨rfl, map_config_notifyWaiters⟩

theorem configUntouched_failBatch {isShutdown : Bool} :
    ConfigUntouched s (failBatchIfNotProcessed flags s now h f isShutdown) := by
  unfold failBatchIfNotProcessed
  split
  · exact ⟨rfl, rfl⟩
  · dsimp only
    split
    · exact ⟨rfl, rfl⟩
    · exact ⟨rfl, map_config_notifyWaiters⟩

theorem configUntouched_join :
    ConfigUntouched s (s.join flags now h i call signer b) := by
  refine ⟨?_, ?_⟩
  · unfold join
    dsimp only
    split
    · rfl
    · split <;> rfl
  · unfold snapshots
    rw [(untouched_join flags s now h i call signer b).2.2]
    exact map_config_modify fun _ => rfl

theorem configUntouched_findBatch :
    ConfigUntouched s (s.findBatch now h f).1 := by
  unfold findBatch
  split <;> exact ⟨rfl, rfl⟩

theorem configUntouched_enter :
    ConfigUntouched s (s.enter crypto flags now i call) := by
  unfold enter
  dsimp only
  split
  · exact ⟨rfl, configUntouched_setCall.snapshots⟩
  · exact configUntouched_setCall
  · split
    · exact configUntouched_setCall
    · have found : ConfigUntouched s (s.findBatch now (call.req.hash crypto) call.config.f).1 :=
        configUntouched_findBatch
      exact ⟨configUntouched_join.config.trans found.config,
        configUntouched_join.snapshots.trans found.snapshots⟩

theorem arrive_configMove {method : HttpMethod} {body : HostBody} :
    ConfigMove (.arrive method body) s (s.arrive method body).1 := by
  unfold arrive
  split
  · exact .kept ⟨rfl, rfl⟩
  · split
    · exact .kept ⟨rfl, rfl⟩
    · exact .kept ⟨rfl, rfl⟩
    · split
      · exact .kept ⟨rfl, rfl⟩
      · refine .read rfl rfl ?_
        unfold snapshots
        rw [List.map_append]
        rfl

theorem adopted_of_eq {action : HostAction} {config : EnclaveConfig}
    (answer : action.isConfig = true) (eq : s' = { s with config := config }) :
    ConfigMove action s s' := by
  refine .adopted answer ?_
  rw [eq]
  rfl

/-- **Inversion of an action, configuration side.** -/
theorem act_configMove {action : HostAction} (taken : s.act crypto flags now action = some s') :
    ConfigMove action s s' := by
  cases action with
  | arrive method body =>
      cases taken
      exact arrive_configMove
  | getPublicKeys method answer =>
      cases taken
      obtain ⟨config, eq⟩ := handleGetPublicKeys_quiet
      exact adopted_of_eq rfl eq
  | setConfig answer =>
      cases taken
      obtain ⟨config, eq⟩ := proxyConfig_quiet fun s resp => ⟨_, rfl⟩
      exact adopted_of_eq rfl eq
  | updateConfig answer =>
      cases taken
      obtain ⟨config, eq⟩ := handleUpdateConfig_quiet
      exact adopted_of_eq rfl eq
  | enter i =>
      obtain ⟨call, _, taken⟩ := Option.bind_eq_some_iff.mp taken
      unfold callStep at taken
      split at taken
      · cases taken
        exact .kept configUntouched_enter
      · cases taken
  | receive i =>
      obtain ⟨call, _, taken⟩ := Option.bind_eq_some_iff.mp taken
      unfold receiveStep at taken
      split at taken
      · cases taken
        exact .kept ⟨rfl, map_config_modify fun _ => rfl⟩
      · cases taken
  | disconnect i =>
      obtain ⟨call, _, taken⟩ := Option.bind_eq_some_iff.mp taken
      split at taken
      · cases taken
        exact .kept configUntouched_setCall
      · cases taken
  | process e answer =>
      obtain ⟨execution, _, taken⟩ := Option.bind_eq_some_iff.mp taken
      split at taken
      · cases taken
        exact .kept ⟨rfl, rfl⟩
      · cases taken
  | complete e =>
      obtain ⟨execution, _, taken⟩ := Option.bind_eq_some_iff.mp taken
      unfold completeStep at taken
      split at taken
      · split at taken
        · cases taken
          exact .kept ⟨configUntouched_completeBatch.config,
            configUntouched_completeBatch.snapshots⟩
        · cases taken
      · cases taken
  | failBatch b =>
      obtain ⟨cell, _, taken⟩ := Option.bind_eq_some_iff.mp taken
      unfold failStep at taken
      split at taken
      · split at taken
        · cases taken
          exact .kept ⟨configUntouched_failBatch.config, configUntouched_failBatch.snapshots⟩
        · cases taken
      · cases taken
  | timeout b | batchDone b | contextDone b =>
      obtain ⟨_, _, _, rfl⟩ := selectStep_effect taken
      exact .kept ⟨rfl, rfl⟩
  | shutdown | collectPending | collectResponses =>
      cases taken
      exact .kept ⟨rfl, rfl⟩

theorem step_configMove (taken : step crypto flags s l = some s') :
    ConfigMove l.action s s' := by
  unfold step at taken
  split at taken
  · cases act_configMove taken with
    | kept kept => exact .kept ⟨kept.config, kept.snapshots⟩
    | read arrival config snapshots => exact .read arrival config snapshots
    | adopted answer snapshots => exact .adopted answer snapshots
  · cases taken

end

end HostServer

end ConfidentialCompute
