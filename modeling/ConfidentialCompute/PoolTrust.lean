import ConfidentialCompute.PoolInvariant
import ConfidentialCompute.Sample

/-!
# Which measurements returned keys were checked against

`GetPublicKeys` fetches a key and checks its attestation against the entry it has read from the
node list; if the fetch fails, it falls back on the cache. `UpdateNodes` flushes the cache when it
writes a new list, but a fetch that began under the old list may store its key afterwards.
-/

namespace ConfidentialCompute

open Go Runs

section

variable {pool : PoolServices} {s₀ s s' : PoolState} {ls : List PoolLabel} {l : PoolLabel}
  {c i : Nat} {f f' : KeyFetch} {call : KeyCall} {node : PoolNode} {data : EnclavePublicKeyData}
  {now : Int}

/-! ## Steps -/

theorem mem_setFetch (found : s.fetches[i]? = some f) : f' ∈ (s.setFetch i f').fetches := by
  have updated := Heap.getElem?_modify_of (j := i) (f := fun _ => f') found
  rw [if_pos rfl] at updated
  exact List.mem_of_getElem? updated

theorem mem_stores (found : s.fetches[i]? = some f) (fetched : f.pc = .fetched (.ok data))
    (owner : ∀ u, f.owner ≠ .update u)
    (stored : pool.cacheConfig.enableCache = true ∧
      0 < calculateEffectiveTTL pool.cacheConfig data.ttls) :
    f.enclave ∈ s.stores pool (.settle i) := by
  cases isOwner : f.owner with
  | update u => exact (owner u isOwner).elim
  | call c => simp [PoolState.stores, found, fetched, isOwner, stored]
  | refresh => simp [PoolState.stores, found, fetched, isOwner, stored]

theorem mem_of_mem_candidates {nodes : List PoolNode} {requestID : Bytes32}
    {check : RequirementsChecker} (among : node ∈ candidates nodes requestID check) :
    node ∈ nodes := by
  unfold candidates at among
  obtain ⟨offset, _, at_⟩ := List.mem_filterMap.mp among
  exact List.mem_of_mem_filter (List.mem_of_getElem? at_)

namespace Trusted

theorem proceedCall (inv : Trusted pool s₀ ls s) (awaited : Awaited s)
    (covers : Covers pool s₀ ls s) (found : s.calls[c]? = some call)
    (moved : s.proceedCall c call = some s') : Trusted pool s₀ ls s' ∧ Awaited s' := by
  have ends : ∀ err, s.AllFinished (.call c) →
      Trusted pool s₀ ls (s.setCall c { call with pc := .returned (.error err) }) ∧
        Awaited (s.setCall c { call with pc := .returned (.error err) }) :=
    fun _ all => ⟨inv.return_error found, awaited.setCall found all⟩
  unfold PoolState.proceedCall at moved
  split at moved
  · rename_i pc
    have all := awaited.finished_of_pc found (by simp [pc])
    split at moved
    · rename_i free
      have isOpen : s.IsOpen c := ⟨call, found, by rw [pc]; rfl⟩
      split at moved
      · cases moved
        exact ends _ all
      · cases moved
        refine ⟨inv.setPC found ?_ ?_ ?_, awaited.setCall found all⟩
        · intro todo isTodo node among
          cases isTodo
          exact covers c node isOpen ⟨node, mem_of_mem_candidates among, rfl, rfl⟩
        · intro responses isReturned
          cases isReturned
        · -- Nobody holds the lock, so what is cached is current.
          refine fun _ => Or.inr ((inv.cached free).imp fun data current => ?_)
          obtain ⟨f, member, accepted, lists⟩ := current
          exact ⟨f, member, accepted, covers c f.enclave isOpen lists⟩
    · cases moved
  · rename_i pc
    cases moved
    exact ends _ (awaited.finished_of_pc found (by simp [pc]))
  · rename_i selected todo pc
    have all := awaited.finished_of_pc found (by simp [pc])
    have listed := (inv.calls c call found).selecting _ pc
    have hasRead : call.pc.hasRead = true := by
      rw [pc]
      rfl
    split at moved
    · cases moved
      refine ⟨inv.setPC found ?_ ?_ fun _ => Or.inl hasRead, awaited.setCall found all⟩
      · intro rest isRest node among
        cases isRest
        exact listed node (List.mem_cons_of_mem _ among)
      · intro responses isReturned
        cases isReturned
    · cases moved
      have spawned : Trusted pool s₀ ls (s.spawn (.call c) [selected]) := by
        refine inv.spawn fun c' owner node among => ?_
        cases owner
        cases List.mem_singleton.mp among
        exact listed selected List.mem_cons_self
      refine ⟨spawned.setPC found ?_ ?_ fun _ => Or.inl hasRead, awaited.await found rfl⟩
      · intro rest isRest
        cases isRest
      · intro responses isReturned
        cases isReturned
  · split at moved
    · rename_i all
      split at moved
      · cases moved
        exact ends _ all
      · cases moved
        refine ⟨inv.setPC found ?_ ?_ ?_, awaited.setCall found all⟩
        · intro todo isTodo
          cases isTodo
        · intro responses isReturned
          cases isReturned
          rfl
        · intro hasRead
          cases hasRead
    · cases moved
  · cases moved

theorem advanceUpdate {u : Nat} {update : NodeUpdate} (inv : Trusted pool s₀ ls s)
    (awaited : Awaited s) (moved : s.advanceUpdate pool u update = some s') :
    Trusted pool s₀ ls s' ∧ Awaited s' := by
  unfold PoolState.advanceUpdate at moved
  split at moved
  · split at moved
    · split at moved
      · cases moved
        exact ⟨inv.of_eq rfl, awaited.of_eq rfl rfl⟩
      · cases moved
        have spawned : Trusted pool s₀ ls (s.spawn (.update u) update.nodes.data) :=
          inv.spawn fun c owner => by cases owner
        have awaited' : Awaited (s.spawn (.update u) update.nodes.data) :=
          awaited.spawn fun c owner => by cases owner
        exact ⟨spawned.of_eq rfl, awaited'.of_eq rfl rfl⟩
    · cases moved
  · split at moved
    · split at moved
      · cases moved
        exact ⟨inv.of_eq rfl, awaited.of_eq rfl rfl⟩
      · split at moved
        · cases moved
          exact ⟨inv.commit.of_eq rfl, awaited.of_eq rfl rfl⟩
        · cases moved
    · cases moved
  · dsimp only at moved
    have flushed := inv.flush s.publicKeyCache.flush (AllCached.flush s.publicKeyCache)
    split at moved
    · split at moved
      · cases moved
        exact ⟨flushed.of_eq rfl, awaited.of_eq rfl rfl⟩
      · cases moved
        exact ⟨flushed.of_eq rfl, awaited.of_eq rfl rfl⟩
    · rename_i disabled
      cases moved
      have unlocked := inv.flush s.publicKeyCache fun _ => .of_disabled disabled
      exact ⟨unlocked.of_eq rfl, awaited.of_eq rfl rfl⟩
  · cases moved

theorem receive {reply : KeyReply} (inv : Trusted pool s₀ ls s) (awaited : Awaited s)
    (found : s.fetches[i]? = some f) (moved : s.receive pool i f reply = some s') :
    Trusted pool s₀ ls s' ∧ Awaited s' := by
  unfold PoolState.receive at moved
  split at moved
  · rename_i pc
    cases moved
    have becomes : ∀ result : Except String EnclavePublicKeyData,
        f.Becomes { f with publicKeyData := result.toOption, pc := .fetched result } := by
      refine fun result => ⟨rfl, rfl, fun data returned => ?_⟩
      cases ((inv.fetches i f found).1.fetching pc).symm.trans returned
    refine ⟨inv.setFetch found (becomes _) ⟨fun isFetching => ?_, fun data fetched => ?_⟩,
      awaited.setFetch found (by simp [pc]) (becomes _)⟩
    · cases isFetching
    · have ok := KeyFetchPC.fetched.inj fetched
      refine ⟨?_, getSingleEnclavePublicKey_ok ok⟩
      dsimp only
      rw [ok]
      rfl
  · cases moved

/-- A fetch that has returned a key moves on and stores it. -/
theorem storeFetched {pc : KeyFetchPC} (now : Int) (inv : Trusted pool s₀ ls s)
    (covers : Covers pool s₀ ls s) (found : s.fetches[i]? = some f)
    (fetched : f.pc = .fetched (.ok data)) (owner : ∀ u, f.owner ≠ .update u)
    (admitted : ∀ node ∈ s.stores pool (.settle i), s.Lists node)
    (moves : KeyFetch.Sound pool { f with pc := pc }) :
    Trusted pool s₀ ls ((s.setFetch i { f with pc := pc }).store pool now f.enclave data) := by
  have becomes : f.Becomes { f with pc := pc } := ⟨rfl, rfl, fun _ kept => kept⟩
  have accepted := ((inv.fetches i f found).1.fetched data fetched).mono becomes
  have moved := inv.setFetch found becomes moves
  have lists := fun stored => admitted f.enclave (mem_stores found fetched owner stored)
  have stored := moved.store now (mem_setFetch found) accepted lists covers
  exact stored

theorem settleFetch (inv : Trusted pool s₀ ls s) (awaited : Awaited s)
    (covers : Covers pool s₀ ls s) (found : s.fetches[i]? = some f)
    (admitted : ∀ node ∈ s.stores pool (.settle i), s.Lists node)
    (moved : s.settleFetch pool now i f = some s') : Trusted pool s₀ ls s' ∧ Awaited s' := by
  obtain ⟨sound, listed⟩ := inv.fetches i f found
  have becomes : ∀ pc, f.Becomes { f with pc := pc } := fun _ => ⟨rfl, rfl, fun _ kept => kept⟩
  have done : KeyFetch.Sound pool { f with pc := .finished } := by
    constructor
    · intro pc
      cases pc
    · intro data pc
      cases pc
  have finished := inv.setFetch found (becomes .finished) done
  have awaits : ∀ pc, f.pc ≠ .finished → Awaited (s.setFetch i { f with pc := pc }) :=
    fun pc unfinished => awaited.setFetch found unfinished (becomes pc)
  unfold PoolState.settleFetch at moved
  dsimp only at moved
  split at moved
  · rename_i data c pc owner
    cases moved
    have notUpdate : ∀ u, f.owner ≠ .update u := by
      rw [owner]
      exact fun _ other => by cases other
    have vouched : Vouched pool s₀ ls (s.setFetch i { f with pc := .finished }).fetches c data :=
      ⟨_, mem_setFetch found, (sound.fetched data pc).mono (becomes _), listed c owner⟩
    have stored := inv.storeFetched now covers found pc notUpdate admitted done
    exact ⟨stored.respond vouched, ((awaits .finished (by simp [pc])).of_eq rfl rfl).respond⟩
  · rename_i err c pc owner
    have awaited' := awaits .finished (by simp [pc])
    split at moved
    · rename_i cached got
      cases moved
      -- The call still waits for this goroutine, so it has read the node list.
      have unfinished : ¬ s.AllFinished (.call c) := by
        intro all
        cases pc.symm.trans (all f (List.mem_of_getElem? found) owner)
      obtain ⟨call, at_, waiting⟩ := awaited c unfinished
      have hasRead : call.pc.hasRead = true := by
        rw [waiting]
        rfl
      have vouched := (inv.readers c call at_ hasRead).get got
      exact ⟨finished.respond (vouched.mono (.modify found (becomes _))), awaited'.respond⟩
    · cases moved
      exact ⟨finished.failCall, awaited'.failCall⟩
  · rename_i data pc owner
    cases moved
    have notUpdate : ∀ u, f.owner ≠ .update u := by
      rw [owner]
      exact fun _ other => by cases other
    refine ⟨inv.storeFetched now covers found pc notUpdate admitted
      ⟨fun isFetching => ?_, fun data isFetched => ?_⟩,
      (awaits .marking (by simp [pc])).of_eq rfl rfl⟩
    · cases isFetching
    · cases isFetched
  · rename_i err pc owner
    cases moved
    exact ⟨finished.of_eq rfl, (awaits .finished (by simp [pc])).of_eq rfl rfl⟩
  · rename_i pc
    cases moved
    exact ⟨finished.of_eq rfl, (awaits .finished (by simp [pc])).of_eq rfl rfl⟩
  · rename_i data u pc owner
    cases moved
    exact ⟨finished, awaits .finished (by simp [pc])⟩
  · rename_i err u pc owner
    cases moved
    exact ⟨finished.of_eq rfl, (awaits .finished (by simp [pc])).of_eq rfl rfl⟩
  · cases moved
  · cases moved

end Trusted

/-! ## Runs -/

/-- **One step.** -/
theorem Trusted.step (run : Run (PoolState.step pool) (PoolState.StoresListed pool) s₀ ls s)
    (inv : Trusted pool s₀ ls s ∧ Awaited s) (admitted : s.StoresListed pool l)
    (taken : s.step pool l = some s') : Trusted pool s₀ (ls ++ [l]) s' ∧ Awaited s' := by
  have covered := covers_of_step run taken
  -- The clock is read first; nothing depends on it but what the cache returns.
  have trusted : Trusted pool s₀ (ls ++ [l]) { s with clock := l.now } :=
    (inv.1.append [l]).of_eq rfl
  have awaited : Awaited { s with clock := l.now } := inv.2.of_eq rfl rfl
  have covers : Covers pool s₀ (ls ++ [l]) { s with clock := l.now } := covered
  unfold PoolState.StoresListed at admitted
  unfold PoolState.step at taken
  split at taken
  · cases isAction : l.action with
    | getPublicKeys requestID check =>
        rw [isAction] at taken
        cases taken
        exact ⟨trusted.start, awaited.start⟩
    | proceed c =>
        rw [isAction] at taken
        obtain ⟨call, found, moved⟩ := Option.bind_eq_some_iff.mp taken
        exact trusted.proceedCall awaited covers found moved
    | refresh =>
        rw [isAction] at taken
        simp only [PoolState.act] at taken
        split at taken
        · cases taken
          exact ⟨trusted.of_eq rfl, awaited.of_eq rfl rfl⟩
        · cases taken
    | readNodes r =>
        rw [isAction] at taken
        simp only [PoolState.act] at taken
        split at taken
        · cases taken
          refine ⟨Trusted.spawn (trusted.of_eq rfl) fun c owner => ?_,
            Awaited.spawn (awaited.of_eq rfl rfl) fun c owner => ?_⟩
          · cases owner
          · cases owner
        · cases taken
    | updateNodes nodes =>
        rw [isAction] at taken
        cases taken
        exact ⟨trusted.of_eq rfl, awaited.of_eq rfl rfl⟩
    | advance u =>
        rw [isAction] at taken
        obtain ⟨update, _, moved⟩ := Option.bind_eq_some_iff.mp taken
        exact trusted.advanceUpdate awaited moved
    | reply i reply =>
        rw [isAction] at taken
        obtain ⟨f, found, moved⟩ := Option.bind_eq_some_iff.mp taken
        exact trusted.receive awaited found moved
    | settle i =>
        rw [isAction] at taken admitted
        obtain ⟨f, found, moved⟩ := Option.bind_eq_some_iff.mp taken
        exact trusted.settleFetch awaited covers found admitted moved
    | collect =>
        rw [isAction] at taken
        cases taken
        exact ⟨trusted.collect, awaited.of_eq rfl rfl⟩
  · cases taken

/-- **Every run.** -/
theorem trusted_of_run {nodes : Slice PoolNode} {start : Int}
    (run : Run (PoolState.step pool) (PoolState.StoresListed pool) (.init pool nodes start) ls s) :
    Trusted pool (.init pool nodes start) ls s ∧ Awaited s := by
  induction run with
  | nil =>
      refine ⟨⟨?_, ?_, fun _ => .newCache, ?_⟩, fun c pending => (pending ?_).elim⟩
      · intro i f found
        cases found
      · intro c call found
        cases found
      · intro c call found
        cases found
      · intro f member
        cases member
  | snoc before admitted taken ih => exact Trusted.step before ih admitted taken

end

/-- **Keys are trusted under listed measurements.** If keys are stored in the cache only for
entries that are listed at that moment, then every key that `GetPublicKeys` returns was accepted
under the ID and the trusted values of an entry that was in the node list during the call. -/
theorem keys_trusted_while_listed {pool : PoolServices} {nodes : Slice PoolNode} {start : Int}
    {ls : List PoolLabel} {s : PoolState} {c : Nat} {call : KeyCall}
    {responses : List EnclavePublicKeyData}
    (run : Run (PoolState.step pool) (PoolState.StoresListed pool) (.init pool nodes start) ls s)
    (found : s.calls[c]? = some call) (returned : call.pc = .returned (.ok responses)) :
    ∀ data ∈ responses, Vouched pool (.init pool nodes start) ls s.fetches c data :=
  ((trusted_of_run run).1.calls c call found).returned responses returned

/-! ## Two runs -/

namespace Sample

/-- An attestation names the measurement and the user data it is for. -/
def poolServices : PoolServices where
  crypto := crypto
  attestation :=
    { nitro := fun attestation userData measurements =>
        if attestation.data = measurements.data ++ userData then .ok ()
        else .error "unexpected measurements"
      describeMeasurements := fun _ => "" }
  cacheConfig := ⟨30 * minute, 5 * minute, true, fun ttl => ttl / 10, false⟩

/-- The enclave `key 1`, trusted under measurement `n`. -/
def poolNode (n : UInt8) : PoolNode where
  enclaveID := key 1
  enclaveURL := ∅
  trustedValues := one (signer n)
  enclaveType := ⟨ascii "NITRO", by decide⟩
  enclaveAuthHeader := ∅
  enclaveExtraData := ∅
  region := ∅

/-- The keys of an enclave that runs under measurement `n`. -/
def keyResponse (n : UInt8) : PublicKeyResponse :=
  let unattested : PublicKeyResponse := ⟨one (signer n), ∅, ∅, config 1, ∅⟩
  { unattested with attestation := sign n (unattested.preimage crypto) }

def keyData (n : UInt8) : EnclavePublicKeyData := { keyResponse n with enclaveID := key 1 }

def atPool (now : Int) (action : PoolAction) : PoolLabel := ⟨now, action⟩

/-- A call begins, reads the node list and starts a fetch. -/
def getPublicKeys (now : Int) (c : Nat) : List PoolLabel :=
  [atPool now (.getPublicKeys (key 7) none), atPool now (.proceed c), atPool now (.proceed c)]

/-- The first call stores the key it has fetched, and the second falls back on it. -/
def fallback : List PoolLabel :=
  getPublicKeys 0 0 ++ [atPool 1 (.reply 0 (.response (keyResponse 1))), atPool 1 (.settle 0)] ++
    getPublicKeys 2 1 ++ [atPool 3 (.reply 1 (.failed "connection refused")),
      atPool 3 (.settle 1), atPool 3 (.proceed 1)]

/-- While the first call has a key in its hands, the measurement is replaced and the cache is
flushed; then it stores the key, and the second call falls back on it. -/
def lateStore : List PoolLabel :=
  getPublicKeys 0 0 ++ [atPool 1 (.reply 0 (.response (keyResponse 1))),
    atPool 2 (.updateNodes (one (poolNode 2))), atPool 2 (.advance 0),
    atPool 2 (.reply 1 (.response (keyResponse 2))), atPool 2 (.settle 1),
    atPool 3 (.advance 0), atPool 3 (.advance 0), atPool 4 (.settle 0)] ++
    getPublicKeys 5 1 ++ [atPool 6 (.reply 2 (.failed "connection refused")),
      atPool 6 (.settle 2), atPool 6 (.proceed 1)]

end Sample

section

open Sample

theorem keys_trusted_while_listed_fallback :
    ∃ s call, Run (PoolState.step poolServices) (PoolState.StoresListed poolServices)
        (.init poolServices (one (poolNode 1)) 0) fallback s ∧
      s.calls[1]? = some call ∧ call.pc = .returned (.ok [keyData 1]) ∧
      Vouched poolServices (.init poolServices (one (poolNode 1)) 0)
        fallback s.fetches 1 (keyData 1) := by
  obtain ⟨s, run, call, found, returned⟩ : ∃ s,
      Run (PoolState.step poolServices) (PoolState.StoresListed poolServices)
        (.init poolServices (one (poolNode 1)) 0) fallback s ∧
      ∃ call ∈ s.calls[1]?, call.pc = .returned (.ok [keyData 1]) :=
    Run.exists_of_exec (by decide +kernel)
  exact ⟨s, call, run, found, returned,
    keys_trusted_while_listed run found returned _ List.mem_cons_self⟩

/-- The key returned to the second call was accepted under a measurement that no entry had while
that call was open. -/
theorem key_of_removed_measurements :
    ∃ s call, Run (PoolState.step poolServices) anyStep
        (.init poolServices (one (poolNode 1)) 0) lateStore s ∧
      s.calls[1]? = some call ∧ call.pc = .returned (.ok [keyData 1]) ∧
      ¬ Vouched poolServices (.init poolServices (one (poolNode 1)) 0)
        lateStore s.fetches 1 (keyData 1) := by
  obtain ⟨s, run, ⟨call, found, returned⟩, only⟩ : ∃ s,
      Run (PoolState.step poolServices) anyStep
        (.init poolServices (one (poolNode 1)) 0) lateStore s ∧
      (∃ call ∈ s.calls[1]?, call.pc = .returned (.ok [keyData 1])) ∧
      ∀ f ∈ s.fetches, f.publicKeyData = some (keyData 1) → f.enclave = poolNode 1 :=
    Run.exists_of_exec (by decide +kernel)
  have unlisted : ∀ taken ∈ visited (PoolState.step poolServices)
      (.init poolServices (one (poolNode 1)) 0) lateStore,
      taken.1.IsOpen 1 → ¬ taken.1.Lists (poolNode 1) := by
    decide +kernel
  refine ⟨s, call, run, found, returned, fun vouched => ?_⟩
  obtain ⟨f, member, ⟨fetched, _⟩, pre, t, l, t', moment, isOpen, lists⟩ := vouched
  rw [only f member fetched] at lists
  exact unlisted (t, l) moment.mem_visited isOpen lists

end

end ConfidentialCompute
