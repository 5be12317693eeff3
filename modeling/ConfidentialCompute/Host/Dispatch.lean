import ConfidentialCompute.Host.Batches
import ConfidentialCompute.Sample

/-!
# When a batch is dispatched

`handleExecute` dispatches a batch when the number of its requests equals the threshold of
the configuration snapshot of the request that has just been added. With one threshold for
all requests of a batch this happens once, and as soon as the threshold is reached. The
snapshots of the requests of a batch may differ, though, when a configuration is adopted
while the batch collects, and the threshold may wrap to zero.
-/

namespace ConfidentialCompute

open Go Runs Heap

namespace HostServer

variable {crypto : Crypto} {flags : HostFlags} {s s' : HostServer} {l : HostLabel}

/-- The batches handed to `processBatch`, in order. -/
def dispatched (s : HostServer) : List Nat := s.executions.map Execution.batch

/-- No new signer's request joins a dispatched batch that it brings to exactly the threshold
of its own configuration snapshot. -/
def NoRedispatch (crypto : Crypto) (flags : HostFlags) (s : HostServer) (l : HostLabel) : Prop :=
  ∀ i call signer b cell, l.action = .enter i → Joins crypto s l.now i call signer b cell →
    signer ∉ cell.signersSeen → cell.processingRequest = true →
      cell.requests.length + 1 ≠ quorumThreshold flags call.config.f

/-! ## One step -/

theorem enter_of_step {i : Nat} {call : HostCall} (action : l.action = .enter i)
    (found : s.calls[i]? = some call) (taken : HostServer.step crypto flags s l = some s') :
    s' = { s with clock := l.now }.enter crypto flags l.now i call := by
  unfold HostServer.step at taken
  split at taken
  · rw [action] at taken
    have stands : ({ s with clock := l.now } : HostServer).calls[i]? = some call := found
    simp only [act, stands, Option.bind_some, callStep] at taken
    split at taken
    · exact (Option.some.inj taken).symm
    · cases taken
  · cases taken

/-- A goroutine that can join a batch does when it takes its step. -/
theorem Sound.joined (inv : s.Sound) {i : Nat} {call : HostCall} {signer : Slice UInt8} {b : Nat}
    {cell : Batch} (action : l.action = .enter i)
    (joins : Joins crypto s l.now i call signer b cell)
    (taken : HostServer.step crypto flags s l = some s') :
    Joined crypto flags s s' l.now i call signer b cell := by
  have valid : ({ s with clock := l.now } : HostServer).PointersValid :=
    inv.pending.pointersValid
  rw [enter_of_step action joins.found taken]
  exact (joins.of_clock.joined valid).of_clock

/-- A step dispatches nothing, or the batch that a request has brought to its threshold. -/
theorem dispatched_moves (moves : Moves s s') : s'.dispatched = s.dispatched := by
  unfold dispatched
  apply List.ext_getElem?
  intro e
  rw [List.getElem?_map, List.getElem?_map]
  cases found : s'.executions[e]? with
  | none =>
      cases old : s.executions[e]? with
      | none => rfl
      | some execution =>
          obtain ⟨execution', found', _⟩ := moves.executions.kept e execution old
          rw [found] at found'
          cases found'
  | some execution' =>
      obtain ⟨execution, old, follows⟩ := moves.executions.old found
      rw [old, Option.map_some, Option.map_some, follows.batch]

theorem dispatched_joined {now : Int} {i : Nat} {call : HostCall} {signer : Slice UInt8} {b : Nat}
    {cell : Batch} (joined : Joined crypto flags s s' now i call signer b cell) :
    s'.dispatched =
      if Dispatches flags call signer cell.toBatchRequest then s.dispatched ++ [b]
      else s.dispatched := by
  unfold dispatched
  rw [joined.executions]
  split
  · rw [List.map_append, List.map_singleton]
  · rfl

/-- A batch is being processed exactly when it has been dispatched. -/
theorem ExecutionsSound.mem_dispatched (inv : s.ExecutionsSound) {b : Nat} {cell : Batch}
    (allocated : s.batches[b]? = some cell) :
    b ∈ s.dispatched ↔ cell.processingRequest = true := by
  unfold HostServer.dispatched
  rw [List.mem_map]
  constructor
  · rintro ⟨execution, among, rfl⟩
    obtain ⟨e, found⟩ := List.mem_iff_getElem?.mp among
    obtain ⟨cell', allocated', processing, _⟩ := inv.batch e execution found
    cases allocated.symm.trans allocated'
    exact processing
  · intro processing
    obtain ⟨e, execution, found, same⟩ := inv.dispatched b cell allocated processing
    exact ⟨execution, List.mem_of_getElem? found, same⟩

/-- The batch a request joins has been dispatched exactly when it is being processed. -/
theorem Sound.target_dispatched (inv : s.Sound) {now : Int} {h : Bytes32} {f : UInt32} {b : Nat}
    {cell : Batch} (target : s.Target now h f b cell) :
    b ∈ s.dispatched ↔ cell.processingRequest = true := by
  rcases target with ⟨_, allocated⟩ | ⟨_, rfl, rfl⟩
  · exact inv.executions.mem_dispatched allocated
  · -- A batch that is only now allocated has not been dispatched.
    refine ⟨fun among => ?_, fun processing => by cases processing⟩
    obtain ⟨execution, isExecution, eq⟩ := List.mem_map.mp among
    obtain ⟨e, found⟩ := List.mem_iff_getElem?.mp isExecution
    obtain ⟨cell, allocated, _⟩ := inv.executions.batch e execution found
    have bound := lt_of_getElem? allocated
    omega

/-- A step keeps the dispatched batches distinct exactly when it meets the condition. -/
theorem Sound.nodup_dispatched_step (inv : s.Sound)
    (taken : HostServer.step crypto flags s l = some s') :
    s'.dispatched.Nodup ↔ s.dispatched.Nodup ∧ NoRedispatch crypto flags s l := by
  obtain ⟨_, _, effect⟩ := inv.effect taken
  constructor
  · intro distinct
    refine ⟨?_, ?_⟩
    · rcases effect.joined_or_moves with ⟨i, call, signer, b, cell, _, joined⟩ | moves
      · rw [dispatched_joined joined] at distinct
        split at distinct
        · exact distinct.of_append_left
        · exact distinct
      · rw [dispatched_moves moves] at distinct
        exact distinct
    · intro i call signer b cell action joins fresh processing reached
      have joined := inv.joined action joins taken
      have among : b ∈ s.dispatched := (inv.target_dispatched joins.target).mpr processing
      rw [dispatched_joined joined, if_pos ⟨fresh, reached⟩] at distinct
      exact (List.nodup_append.mp distinct).2.2 b among b (List.mem_singleton_self b) rfl
  · rintro ⟨distinct, condition⟩
    rcases effect.joined_or_moves with ⟨i, call, signer, b, cell, action, joined⟩ | moves
    · rw [dispatched_joined joined]
      split
      · rename_i dispatches
        have new : b ∉ s.dispatched := by
          intro among
          have processing := (inv.target_dispatched joined.target).mp among
          exact condition i call signer b cell action joined.toJoins dispatches.1 processing
            dispatches.2
        rw [← List.concat_eq_append]
        exact distinct.concat new
      · exact distinct
    · rw [dispatched_moves moves]
      exact distinct

end HostServer

open HostServer

/-! ## Runs -/

/-- **At most one dispatch.** A run of the host hands no batch to `processBatch` more than
once exactly when no new signer's request joins a batch that is already dispatched and so
gives it exactly as many requests as the threshold of that request's configuration snapshot
demands. -/
theorem dispatched_once (crypto : Crypto) (flags : HostFlags) (start : Int)
    (ls : List HostLabel) (s : HostServer)
    (run : Run (HostServer.step crypto flags) anyStep (newHostServer start) ls s) :
    s.dispatched.Nodup ↔
      ∀ pre s₁ l s₂,
        StepOf (HostServer.step crypto flags) anyStep (newHostServer start) ls pre s₁ l s₂ →
          NoRedispatch crypto flags s₁ l := by
  refine run.iff_steps (P := fun s => s.dispatched.Nodup) List.nodup_nil ?_
  intro ls s l s' before taken
  exact (Sound.of_run before).nodup_dispatched_step taken

open Sample

/-- Two signers make the quorum of `F = 1`. Then `F = 2` is adopted, and the third signer's
request dispatches the batch once more. -/
theorem dispatched_twice :
    ∃ s, Run (HostServer.step crypto flags) anyStep (newHostServer 0)
        (adopt 0 1 :: joining 0 1 0 ++ joining 0 2 1 ++ adopt 0 2 :: joining 0 3 2) s ∧
      s.dispatched = [0, 0] :=
  Run.exists_of_exec (by decide +kernel)

/-- Three of four signers under `F = 1`: one dispatch, and every step meets the condition. -/
theorem dispatched_once_fixed_config :
    ∃ s, Run (HostServer.step crypto flags) anyStep (newHostServer 0)
        (adopt 0 1 :: joining 0 1 0 ++ joining 0 2 1 ++ joining 0 3 2) s ∧
      s.dispatched = [0] ∧
      ∀ pre s₁ l s₂, StepOf (HostServer.step crypto flags) anyStep (newHostServer 0)
          (adopt 0 1 :: joining 0 1 0 ++ joining 0 2 1 ++ joining 0 3 2) pre s₁ l s₂ →
        NoRedispatch crypto flags s₁ l := by
  have found : ∃ s, Run (HostServer.step crypto flags) anyStep (newHostServer 0)
      (adopt 0 1 :: joining 0 1 0 ++ joining 0 2 1 ++ joining 0 3 2) s ∧ s.dispatched = [0] :=
    Run.exists_of_exec (by decide +kernel)
  obtain ⟨s, run, once⟩ := found
  refine ⟨s, run, once, (dispatched_once crypto flags 0 _ s run).mp ?_⟩
  rw [once]
  exact List.nodup_singleton 0

/-! ## Reaching the threshold -/

/-- **No quorum is missed.** After a section that adds a new signer's request to a batch, a
batch with the requests of as many distinct signers as the request's own threshold demands
is being processed, exactly when it was already processed before or had not yet reached that
threshold. -/
theorem quorum_dispatched (crypto : Crypto) (flags : HostFlags) (start : Int)
    (ls : List HostLabel) (s s' : HostServer) (l : HostLabel)
    (run : Run (HostServer.step crypto flags) anyStep (newHostServer start) ls s)
    (taken : HostServer.step crypto flags s l = some s')
    (i : Nat) (call : HostCall) (signer : Slice UInt8) (b : Nat) (cell : Batch)
    (action : l.action = .enter i) (joins : Joins crypto s l.now i call signer b cell)
    (adds : signer ∉ cell.signersSeen) :
    (quorumThreshold flags call.config.f ≤ (s'.batch b).signersSeen.card →
        (s'.batch b).processingRequest = true) ↔
      (cell.processingRequest = true ∨
        cell.requests.length < quorumThreshold flags call.config.f) := by
  have inv := Sound.of_run run
  have joined := inv.joined action joins taken
  have after : s'.batch b = joinedCell flags l.now i call signer cell := by
    unfold HostServer.batch
    rw [joined.at_target]
    rfl
  have counted : cell.signersSeen.card = cell.requests.length := by
    rcases joins.target with ⟨_, allocated⟩ | ⟨_, _, rfl⟩
    · exact inv.executions.signers b cell allocated
    · rfl
  have grown : (s'.batch b).signersSeen.card = cell.requests.length + 1 := by
    rw [after, ← counted]
    show (joinBatch flags i call signer cell.toBatchRequest).signersSeen.card = _
    unfold joinBatch
    rw [if_neg adds]
    exact Finset.card_insert_of_notMem adds
  have processing : (s'.batch b).processingRequest = true ↔
      cell.processingRequest = true ∨
        cell.requests.length + 1 = quorumThreshold flags call.config.f := by
    rw [after]
    refine processingRequest_joinBatch.trans (or_congr_right ?_)
    exact ⟨fun dispatches => dispatches.2, fun reached => ⟨adds, reached⟩⟩
  rw [grown, processing]
  constructor
  · intro kept
    by_cases below : cell.requests.length < quorumThreshold flags call.config.f
    · exact Or.inr below
    · rcases kept (by omega) with was | reached
      · exact Or.inl was
      · omega
  · rintro (was | below) enough
    · exact Or.inl was
    · exact Or.inr (by omega)

/-- Three signers are needed under `F = 2`. After two of them `F = 1` is adopted, whose
threshold is two: the third request makes a batch of three that is not dispatched. -/
theorem quorum_missed :
    ∃ s, Run (HostServer.step crypto flags) anyStep (newHostServer 0)
        (adopt 0 2 :: joining 0 1 0 ++ joining 0 2 1 ++ adopt 0 1 :: joining 0 3 2) s ∧
      s.calls[2]?.map (fun call => quorumThreshold flags call.config.f) = some 2 ∧
      (s.batch 0).responseCh = [0, 1, 2] ∧ (s.batch 0).signersSeen.card = 3 ∧
      (s.batch 0).processingRequest = false :=
  Run.exists_of_exec (by decide +kernel)

/-- The second of two signers under `F = 1` brings the batch to its threshold. -/
theorem quorum_dispatched_second_signer :
    ∃ s s', Run (HostServer.step crypto flags) anyStep (newHostServer 0)
        (adopt 0 1 :: joining 0 1 0 ++
          [hostLabel 0 (.arrive .post (.request (signedRequest 2)))]) s ∧
      HostServer.step crypto flags s (hostLabel 0 (.enter 1)) = some s' ∧
      (s'.batch 0).processingRequest = true := by
  have found : ∃ s, Run (HostServer.step crypto flags) anyStep (newHostServer 0)
      (adopt 0 1 :: joining 0 1 0 ++
        [hostLabel 0 (.arrive .post (.request (signedRequest 2)))]) s ∧
      s.calls[1]? = some ⟨signedRequest 2, config 1, .locking, none, []⟩ ∧
      s.responseCache.get 0 (request.hash crypto) = none ∧
      s.pendingRequestsCache.get 0 (request.hash crypto) = some 0 ∧
      s.batches[0]? = some (s.batch 0) ∧ signer 2 ∉ (s.batch 0).signersSeen ∧
      (s.batch 0).requests.length < quorumThreshold flags 1 ∧
      (HostServer.step crypto flags s (hostLabel 0 (.enter 1))).any
        (fun s' => quorumThreshold flags 1 ≤ (s'.batch 0).signersSeen.card) = true :=
    Run.exists_of_exec (by decide +kernel)
  obtain ⟨s, run, isCall, missed, isPending, allocated, fresh, below, next⟩ := found
  obtain ⟨s', taken, enough⟩ := (Option.any_eq_true _ _).mp next
  have verified : verifySignature crypto (requestPayload crypto (request.hash crypto))
      (signedRequest 2).signature (config 1).signers = .ok (signer 2) := by decide +kernel
  have joins : Joins crypto s 0 1 ⟨signedRequest 2, config 1, .locking, none, []⟩ (signer 2) 0
      (s.batch 0) :=
    ⟨isCall, rfl, verified, missed, Or.inl ⟨isPending, allocated⟩⟩
  refine ⟨s, s', run, taken, ?_⟩
  exact (quorum_dispatched crypto flags 0 _ s s' _ run taken 1 _ (signer 2) 0 (s.batch 0) rfl
    joins fresh).mpr (Or.inr below) (of_decide_eq_true enough)

end ConfidentialCompute
