import ConfidentialCompute.EnclavePool

/-!
# What a step of the pool can write

The shared data of the pool have few writers. The node list and its lock are written by
`UpdateNodes` alone, and the cache of public keys by a fetch that has got its keys, by
`UpdateNodes` and by the collector. These are the lemmas by which later modules take a step
apart without looking at the other actions.
-/

namespace ConfidentialCompute

open Go

/-! ## The cache -/

/-- A cache and what a step at time `now` may make of it. -/
inductive CacheMove (config : CacheConfig) (now : Int) (cache : PublicKeyCache) :
    PublicKeyCache → Prop
  | kept : CacheMove config now cache cache
  | stored (enclaveID : Bytes32) (data : EnclavePublicKeyData) :
      CacheMove config now cache (setCachedPublicKey config cache now enclaveID data)
  | flushed : CacheMove config now cache cache.flush
  | collected : CacheMove config now cache (cache.garbageCollect now).1

/-! ## The node list -/

/-- The list an `UpdateNodes` call was given, and where the call is. -/
def NodeUpdate.standing (update : NodeUpdate) : Slice PoolNode × NodeUpdatePC :=
  (update.nodes, update.pc)

/-- The actions of an `UpdateNodes` call. -/
def PoolAction.ofUpdate : PoolAction → Bool
  | .updateNodes _ | .advance _ => true
  | _ => false

namespace PoolState

/-- The list and the progress of the `UpdateNodes` call number `u`. -/
def standingAt (s : PoolState) (u : Nat) : Option (Slice PoolNode × NodeUpdatePC) :=
  (s.updates[u]?).map NodeUpdate.standing

/-- The step does not touch the node list or the progress of an `UpdateNodes` call. -/
structure KeepsNodes (s s' : PoolState) : Prop where
  nodes : s'.nodes = s.nodes
  standingAt : ∀ u, s'.standingAt u = s.standingAt u

/-- What an `UpdateNodes` call does at its next access, and where that takes it. -/
inductive UpdateMove (pool : PoolServices) (update : NodeUpdate) (s s' : PoolState) :
    NodeUpdatePC → Prop
  | unchanged : update.pc = .comparing →
      EnclavesList.hash pool.crypto ⟨update.nodes⟩ = EnclavesList.hash pool.crypto ⟨s.nodes⟩ →
      s'.nodes = s.nodes → UpdateMove pool update s s' (.returned (.ok ()))
  | validates : update.pc = .comparing → s'.nodes = s.nodes →
      UpdateMove pool update s s' .validating
  | rejected (err : String) : update.pc = .validating → s'.nodes = s.nodes →
      UpdateMove pool update s s' (.returned (.error err))
  | written : update.pc = .validating → update.err = none → s'.nodes = update.nodes →
      UpdateMove pool update s s' .flushing
  | released : update.pc = .flushing → s'.nodes = s.nodes →
      UpdateMove pool update s s' (.returned (.ok ()))

section

variable {pool : PoolServices} {s s' : PoolState} {now : Int} {c i u : Nat} {call : KeyCall}
  {f : KeyFetch} {update : NodeUpdate} {l : PoolLabel}

theorem KeepsNodes.of_eq (nodes : s'.nodes = s.nodes) (updates : s'.updates = s.updates) :
    KeepsNodes s s' := by
  refine ⟨nodes, fun u => ?_⟩
  rw [PoolState.standingAt, PoolState.standingAt, updates]

theorem standingAt_failUpdate (s : PoolState) (u : Nat) (err : String) (v : Nat) :
    (s.failUpdate u err).standingAt v = s.standingAt v := by
  simp only [standingAt, failUpdate, List.getElem?_modify]
  split
  · cases s.updates[v]? <;> rfl
  · simp

theorem standingAt_modify {update' : NodeUpdate} (found : s.updates[u]? = some update)
    (updates : s'.updates = s.updates.modify u fun _ => update') (v : Nat) :
    s'.standingAt v = if v = u then some update'.standing else s.standingAt v := by
  unfold standingAt
  rw [updates, List.getElem?_modify]
  split
  · rename_i same
    rw [if_pos same.symm, ← same, found]
    rfl
  · rename_i other
    rw [if_neg (Ne.symm other)]
    simp

theorem standingAt_append (updates : s'.updates = s.updates ++ [update]) (v : Nat) :
    s'.standingAt v = if v = s.updates.length then some update.standing else s.standingAt v := by
  unfold standingAt
  rw [updates]
  split
  · rename_i last
    rw [last, List.getElem?_concat_length]
    rfl
  · rename_i other
    rcases Nat.lt_or_ge v s.updates.length with inside | outside
    · rw [List.getElem?_append_left inside]
    · rw [List.getElem?_eq_none (by simp; omega), List.getElem?_eq_none outside]

/-! ## One function after the other -/

theorem proceedCall_frame (moved : s.proceedCall c call = some s') :
    KeepsNodes s s' ∧ s'.publicKeyCache = s.publicKeyCache := by
  unfold proceedCall at moved
  refine ⟨.of_eq ?_ ?_, ?_⟩ <;> grind [setCall, spawn]

theorem receive_frame {reply : KeyReply} (moved : s.receive pool i f reply = some s') :
    KeepsNodes s s' ∧ s'.publicKeyCache = s.publicKeyCache := by
  unfold receive at moved
  refine ⟨.of_eq ?_ ?_, ?_⟩ <;> grind [setFetch]

theorem settleFetch_frame (moved : s.settleFetch pool now i f = some s') :
    KeepsNodes s s' ∧ CacheMove pool.cacheConfig now s.publicKeyCache s'.publicKeyCache := by
  unfold settleFetch at moved
  dsimp only at moved
  split at moved
  · cases moved
    exact ⟨.of_eq rfl rfl, .stored _ _⟩
  · split at moved <;> cases moved <;> exact ⟨.of_eq rfl rfl, .kept⟩
  · cases moved
    exact ⟨.of_eq rfl rfl, .stored _ _⟩
  · cases moved
    exact ⟨.of_eq rfl rfl, .kept⟩
  · cases moved
    exact ⟨.of_eq rfl rfl, .kept⟩
  · cases moved
    exact ⟨.of_eq rfl rfl, .kept⟩
  · cases moved
    exact ⟨⟨rfl, standingAt_failUpdate _ _ _⟩, .kept⟩
  · cases moved
  · cases moved

theorem advanceUpdate_cache (now : Int) (moved : s.advanceUpdate pool u update = some s') :
    CacheMove pool.cacheConfig now s.publicKeyCache s'.publicKeyCache := by
  unfold advanceUpdate at moved
  split at moved
  · split at moved
    · split at moved <;> cases moved <;> exact .kept
    · cases moved
  · split at moved
    · split at moved
      · cases moved
        exact .kept
      · split at moved <;> cases moved
        exact .kept
    · cases moved
  · dsimp only at moved
    split at moved
    · split at moved <;> cases moved <;> exact .flushed
    · cases moved
      exact .kept
  · cases moved

/-- An access of an `UpdateNodes` call changes the standing of this call only. -/
theorem updateMove_of_advance (moved : s.advanceUpdate pool u update = some s') :
    ∃ update', s'.updates = s.updates.modify u (fun _ => update') ∧
      update'.nodes = update.nodes ∧ UpdateMove pool update s s' update'.pc := by
  unfold advanceUpdate at moved
  split at moved
  · rename_i comparing
    split at moved
    · split at moved
      · rename_i same
        cases moved
        exact ⟨_, rfl, rfl, .unchanged comparing same rfl⟩
      · cases moved
        exact ⟨_, rfl, rfl, .validates comparing rfl⟩
    · cases moved
  · rename_i validating
    split at moved
    · split at moved
      · cases moved
        exact ⟨_, rfl, rfl, .rejected _ validating rfl⟩
      · rename_i valid
        split at moved <;> cases moved
        exact ⟨_, rfl, rfl, .written validating valid rfl⟩
    · cases moved
  · rename_i flushing
    dsimp only at moved
    split at moved
    · split at moved <;> cases moved <;> exact ⟨_, rfl, rfl, .released flushing rfl⟩
    · cases moved
      exact ⟨_, rfl, rfl, .released flushing rfl⟩
  · cases moved

/-! ## A step -/

theorem act_of_step (taken : s.step pool l = some s') :
    ({ s with clock := l.now } : PoolState).act pool l.now l.action = some s' := by
  unfold step at taken
  split at taken
  · exact taken
  · cases taken

/-- **One step.** What it can make of the cache, and what it leaves alone unless it belongs to
an `UpdateNodes` call. -/
theorem writes_of_step (taken : s.step pool l = some s') :
    CacheMove pool.cacheConfig l.now s.publicKeyCache s'.publicKeyCache ∧
      (l.action.ofUpdate = false → KeepsNodes s s') := by
  have acted := act_of_step taken
  cases isAction : l.action with
  | getPublicKeys requestID check =>
      rw [isAction] at acted
      cases acted
      exact ⟨.kept, fun _ => .of_eq rfl rfl⟩
  | proceed c =>
      rw [isAction] at acted
      obtain ⟨call, _, moved⟩ := Option.bind_eq_some_iff.mp acted
      obtain ⟨⟨nodes, standings⟩, cache⟩ := proceedCall_frame moved
      rw [cache]
      exact ⟨.kept, fun _ => ⟨nodes, standings⟩⟩
  | refresh =>
      rw [isAction] at acted
      simp only [act] at acted
      split at acted <;> cases acted
      exact ⟨.kept, fun _ => .of_eq rfl rfl⟩
  | readNodes r =>
      rw [isAction] at acted
      simp only [act] at acted
      split at acted <;> cases acted
      exact ⟨.kept, fun _ => .of_eq rfl rfl⟩
  | updateNodes nodes =>
      rw [isAction] at acted
      cases acted
      exact ⟨.kept, nofun⟩
  | advance u =>
      rw [isAction] at acted
      obtain ⟨update, _, moved⟩ := Option.bind_eq_some_iff.mp acted
      have cache := advanceUpdate_cache l.now moved
      exact ⟨cache, nofun⟩
  | reply i reply =>
      rw [isAction] at acted
      obtain ⟨f, _, moved⟩ := Option.bind_eq_some_iff.mp acted
      obtain ⟨⟨nodes, standings⟩, cache⟩ := receive_frame moved
      rw [cache]
      exact ⟨.kept, fun _ => ⟨nodes, standings⟩⟩
  | settle i =>
      rw [isAction] at acted
      obtain ⟨f, _, moved⟩ := Option.bind_eq_some_iff.mp acted
      obtain ⟨⟨nodes, standings⟩, cache⟩ := settleFetch_frame moved
      exact ⟨cache, fun _ => ⟨nodes, standings⟩⟩
  | collect =>
      rw [isAction] at acted
      cases acted
      exact ⟨.collected, fun _ => .of_eq rfl rfl⟩

end

end PoolState

end ConfidentialCompute
