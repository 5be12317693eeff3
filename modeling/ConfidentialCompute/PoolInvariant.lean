import ConfidentialCompute.EnclavePool
import ConfidentialCompute.Lib.Heap

/-!
# What is kept of a pool

A key that `GetPublicKeys` returns is vouched for if it was accepted under the measurements of an
entry that was in the node list during the call (`Vouched`). `Trusted` is what the fetches, the
calls and the cache satisfy on the way there, and `Awaited` says that a call waits for its
goroutines; both are shown here to be kept by each update of the state.
-/

namespace ConfidentialCompute

open Go Runs

/-! ## What a returned key is to satisfy -/

def KeyCallPC.isOpen : KeyCallPC → Bool
  | .returned _ => false
  | _ => true

namespace PoolState

/-- The call has begun and has not returned. -/
def IsOpen (s : PoolState) (c : Nat) : Prop := ∃ call ∈ s.calls[c]?, call.pc.isOpen = true

/-- There is an entry with the ID and the trusted values of `node`. -/
def Lists (s : PoolState) (node : PoolNode) : Prop :=
  ∃ entry ∈ s.nodes.data,
    entry.enclaveID = node.enclaveID ∧ entry.trustedValues = node.trustedValues

instance (s : PoolState) (c : Nat) : Decidable (s.IsOpen c) :=
  inferInstanceAs (Decidable (∃ call ∈ s.calls[c]?, _))

instance (s : PoolState) (node : PoolNode) : Decidable (s.Lists node) :=
  inferInstanceAs (Decidable (∃ entry ∈ s.nodes.data, _))

end PoolState

/-- At some moment of the run at which the call was open, there was an entry with the ID and the
trusted values of `node`. -/
def ListedDuring (pool : PoolServices) (s₀ : PoolState) (ls : List PoolLabel) (c : Nat)
    (node : PoolNode) : Prop :=
  ∃ pre t l t', StepOf (PoolState.step pool) anyStep s₀ ls pre t l t' ∧ t.IsOpen c ∧ t.Lists node

/-- The fetch has returned the key, whose attestation was valid under the trusted values of the
entry it was fetched for. -/
def KeyFetch.Accepted (pool : PoolServices) (f : KeyFetch) (data : EnclavePublicKeyData) : Prop :=
  f.publicKeyData = some data ∧ data.enclaveID = f.enclave.enclaveID ∧
    validateAttestation pool.attestation (attestedFields f.enclave)
      (data.publicKeyHash pool.crypto).data data.attestation = .ok ()

/-- The key was accepted under the ID and the trusted values of an entry that was listed during
the call. -/
def Vouched (pool : PoolServices) (s₀ : PoolState) (ls : List PoolLabel) (fetches : List KeyFetch)
    (c : Nat) (data : EnclavePublicKeyData) : Prop :=
  ∃ f ∈ fetches, f.Accepted pool data ∧ ListedDuring pool s₀ ls c f.enclave

/-! ## The condition on a step -/

namespace PoolState

/-- The entry for which the step stores a key in the cache. -/
def stores (pool : PoolServices) (s : PoolState) : PoolAction → Option PoolNode
  | .settle i => (s.fetches[i]?).bind fun f =>
      match f.pc, f.owner with
      | .fetched (.ok _), .update _ => none
      | .fetched (.ok data), _ =>
          if pool.cacheConfig.enableCache = true ∧
              0 < calculateEffectiveTTL pool.cacheConfig data.ttls then some f.enclave
          else none
      | _, _ => none
  | _ => none

/-- A key is stored only while the entry it was fetched for is listed. -/
def StoresListed (pool : PoolServices) (s : PoolState) (l : PoolLabel) : Prop :=
  ∀ node ∈ s.stores pool l.action, s.Lists node

instance (pool : PoolServices) (s : PoolState) (l : PoolLabel) :
    Decidable (s.StoresListed pool l) :=
  inferInstanceAs (Decidable (∀ node ∈ s.stores pool l.action, _))

end PoolState

/-! ## What every step keeps -/

def KeyCallPC.hasRead : KeyCallPC → Bool
  | .selecting _ | .waiting => true
  | .reading | .returned _ => false

structure KeyFetch.Sound (pool : PoolServices) (f : KeyFetch) : Prop where
  fetching : f.pc = .fetching → f.publicKeyData = none
  fetched : ∀ data, f.pc = .fetched (.ok data) → f.Accepted pool data

structure KeyCall.Sound (pool : PoolServices) (s₀ : PoolState) (ls : List PoolLabel)
    (fetches : List KeyFetch) (c : Nat) (call : KeyCall) : Prop where
  selecting : ∀ todo, call.pc = .selecting todo →
    ∀ node ∈ todo, ListedDuring pool s₀ ls c node
  responses : ∀ data ∈ call.responses, Vouched pool s₀ ls fetches c data
  returned : ∀ responses, call.pc = .returned (.ok responses) →
    ∀ data ∈ responses, Vouched pool s₀ ls fetches c data

/-- If the cache is used at all, every key in it satisfies `P`. -/
def AllCached (config : CacheConfig) (cache : PublicKeyCache) (P : EnclavePublicKeyData → Prop) :
    Prop :=
  config.enableCache = true → ∀ id item, cache.items.lookup id = some item → P item.value.data

/-- The key was accepted under the ID and the trusted values of an entry that is listed now. -/
def PoolState.Current (pool : PoolServices) (s : PoolState) (data : EnclavePublicKeyData) : Prop :=
  ∃ f ∈ s.fetches, f.Accepted pool data ∧ s.Lists f.enclave

/-- What calls and fetches share; the rest of the state does not matter for what follows. -/
def PoolState.shared (s : PoolState) :
    Slice PoolNode × Option Nat × PublicKeyCache × List KeyCall × List KeyFetch :=
  (s.nodes, s.writer, s.publicKeyCache, s.calls, s.fetches)

/-- Between the write of a new list and the flush, cached keys are those of the old list; calls
that have read the node list by then have read the old one. -/
structure Trusted (pool : PoolServices) (s₀ : PoolState) (ls : List PoolLabel) (s : PoolState) :
    Prop where
  fetches : ∀ (i : Nat) (f : KeyFetch), s.fetches[i]? = some f → f.Sound pool ∧
    ∀ c, f.owner = .call c → ListedDuring pool s₀ ls c f.enclave
  calls : ∀ (c : Nat) (call : KeyCall), s.calls[c]? = some call →
    call.Sound pool s₀ ls s.fetches c
  cached : s.writer = none → AllCached pool.cacheConfig s.publicKeyCache (s.Current pool)
  readers : ∀ (c : Nat) (call : KeyCall), s.calls[c]? = some call → call.pc.hasRead = true →
    AllCached pool.cacheConfig s.publicKeyCache (Vouched pool s₀ ls s.fetches c)

section

variable {pool : PoolServices} {s₀ s s' : PoolState} {ls : List PoolLabel} {l : PoolLabel}
  {c i : Nat} {f f' : KeyFetch} {fetches fetches' : List KeyFetch} {call : KeyCall}
  {node : PoolNode} {data : EnclavePublicKeyData} {config : CacheConfig} {cache : PublicKeyCache}
  {now : Int} {enclaveID : Bytes32} {P Q : EnclavePublicKeyData → Prop}

/-! ### Fetches -/

/-- A fetch keeps the key it has returned. -/
structure KeyFetch.Becomes (f f' : KeyFetch) : Prop where
  owner : f'.owner = f.owner
  enclave : f'.enclave = f.enclave
  kept : ∀ data, f.publicKeyData = some data → f'.publicKeyData = some data

theorem KeyFetch.Becomes.refl (f : KeyFetch) : f.Becomes f := ⟨rfl, rfl, fun _ kept => kept⟩

theorem KeyFetch.Accepted.mono (accepted : f.Accepted pool data) (becomes : f.Becomes f') :
    f'.Accepted pool data := by
  obtain ⟨returned, id, valid⟩ := accepted
  refine ⟨becomes.kept data returned, ?_, ?_⟩
  · rw [becomes.enclave]
    exact id
  · rw [becomes.enclave]
    exact valid

/-- `getSingleEnclavePublicKey` returns a key only if its attestation is valid. -/
theorem getSingleEnclavePublicKey_ok {reply : KeyReply}
    (ok : getSingleEnclavePublicKey pool.crypto pool.attestation node reply = .ok data) :
    data.enclaveID = node.enclaveID ∧
      validateAttestation pool.attestation (attestedFields node)
        (data.publicKeyHash pool.crypto).data data.attestation = .ok () := by
  cases reply with
  | failed err => cases ok
  | tooLarge => cases ok
  | status body => cases ok
  | invalidJson err => cases ok
  | response out =>
      simp only [getSingleEnclavePublicKey] at ok
      split at ok
      · cases ok
      · split at ok
        · cases ok
        · rename_i valid
          cases ok
          exact ⟨rfl, valid⟩

/-! ### Moments of a run -/

theorem ListedDuring.append (listed : ListedDuring pool s₀ ls c node) (more : List PoolLabel) :
    ListedDuring pool s₀ (ls ++ more) c node := by
  obtain ⟨pre, t, l, t', moment, isOpen, lists⟩ := listed
  exact ⟨pre, t, l, t', moment.append more, isOpen, lists⟩

/-- What is listed in `s` was listed during every call that is open in `s`. -/
def Covers (pool : PoolServices) (s₀ : PoolState) (ls : List PoolLabel) (s : PoolState) : Prop :=
  ∀ c node, s.IsOpen c → s.Lists node → ListedDuring pool s₀ ls c node

theorem covers_of_step {ok : PoolState → PoolLabel → Prop}
    (run : Run (PoolState.step pool) ok s₀ ls s) (taken : s.step pool l = some s') :
    Covers pool s₀ (ls ++ [l]) s :=
  fun _ _ isOpen lists => ⟨ls, s, l, s', .last run.any trivial taken, isOpen, lists⟩

theorem PoolState.IsOpen.of_hasRead (found : s.calls[c]? = some call)
    (hasRead : call.pc.hasRead = true) : s.IsOpen c := by
  refine ⟨call, found, ?_⟩
  cases pc : call.pc with
  | returned result =>
      rw [pc] at hasRead
      cases hasRead
  | reading => rfl
  | selecting todo => rfl
  | waiting => rfl

theorem Vouched.append (vouched : Vouched pool s₀ ls fetches c data) (more : List PoolLabel) :
    Vouched pool s₀ (ls ++ more) fetches c data := by
  obtain ⟨f, member, accepted, listed⟩ := vouched
  exact ⟨f, member, accepted, listed.append more⟩

/-- Each fetch is still there. -/
def FetchesKept (fetches fetches' : List KeyFetch) : Prop :=
  ∀ f ∈ fetches, ∃ f' ∈ fetches', f.Becomes f'

theorem FetchesKept.append (fetches more : List KeyFetch) :
    FetchesKept fetches (fetches ++ more) :=
  fun f member => ⟨f, List.mem_append_left _ member, .refl f⟩

theorem FetchesKept.modify (found : fetches[i]? = some f) (becomes : f.Becomes f') :
    FetchesKept fetches (fetches.modify i fun _ => f') := by
  intro g member
  obtain ⟨j, at_⟩ := List.mem_iff_getElem?.mp member
  by_cases same : j = i
  · subst same
    cases found.symm.trans at_
    have updated := Heap.getElem?_modify_of (j := j) (f := fun _ => f') found
    rw [if_pos rfl] at updated
    exact ⟨f', List.mem_of_getElem? updated, becomes⟩
  · have other := Heap.getElem?_modify_of (j := j) (f := fun _ => f') found
    rw [if_neg same, at_] at other
    exact ⟨g, List.mem_of_getElem? other, .refl g⟩

theorem Vouched.mono (vouched : Vouched pool s₀ ls fetches c data)
    (kept : FetchesKept fetches fetches') : Vouched pool s₀ ls fetches' c data := by
  obtain ⟨f, member, accepted, listed⟩ := vouched
  obtain ⟨f', member', becomes⟩ := kept f member
  refine ⟨f', member', accepted.mono becomes, ?_⟩
  rw [becomes.enclave]
  exact listed

theorem PoolState.Current.mono (current : s.Current pool data)
    (kept : FetchesKept s.fetches s'.fetches) (nodes : s'.nodes = s.nodes) :
    s'.Current pool data := by
  obtain ⟨f, member, accepted, lists⟩ := current
  obtain ⟨f', member', becomes⟩ := kept f member
  refine ⟨f', member', accepted.mono becomes, ?_⟩
  unfold PoolState.Lists
  rw [becomes.enclave, nodes]
  exact lists

theorem KeyCall.Sound.append (sound : call.Sound pool s₀ ls fetches c) (more : List PoolLabel) :
    call.Sound pool s₀ (ls ++ more) fetches c where
  selecting todo pc node among := (sound.selecting todo pc node among).append more
  responses data among := (sound.responses data among).append more
  returned responses pc data among := (sound.returned responses pc data among).append more

theorem KeyCall.Sound.mono (sound : call.Sound pool s₀ ls fetches c)
    (kept : FetchesKept fetches fetches') : call.Sound pool s₀ ls fetches' c where
  selecting := sound.selecting
  responses data among := (sound.responses data among).mono kept
  returned responses pc data among := (sound.returned responses pc data among).mono kept

/-! ### The cache -/

theorem AllCached.imp (all : AllCached config cache P) (imp : ∀ data, P data → Q data) :
    AllCached config cache Q :=
  fun enabled id item found => imp _ (all enabled id item found)

theorem AllCached.of_disabled (disabled : config.enableCache ≠ true) : AllCached config cache P :=
  fun enabled => (disabled enabled).elim

theorem AllCached.newCache {ttl : Int} : AllCached config (.newCache ttl) P := by
  intro _ id item found
  rw [Cache.newCache, Cache.newBoundedCache, Finmap.lookup_empty] at found
  cases found

theorem AllCached.flush (cache : PublicKeyCache) (P : EnclavePublicKeyData → Prop) :
    AllCached config cache.flush P := by
  intro _ id item found
  rw [Cache.flush, Finmap.lookup_empty] at found
  cases found

theorem AllCached.garbageCollect (all : AllCached config cache P) :
    AllCached config (cache.garbageCollect now).1 P :=
  fun enabled id item found => all enabled id item (Cache.lookup_of_garbageCollect found)

/-- A key that is stored at all is the only one that is new. -/
theorem AllCached.set (all : AllCached config cache P)
    (new : config.enableCache = true ∧ 0 < calculateEffectiveTTL config data.ttls → P data) :
    AllCached config (setCachedPublicKey config cache now enclaveID data) P := by
  unfold setCachedPublicKey
  split
  · rename_i stored
    intro enabled id item found
    rcases Cache.of_lookup_set found with ⟨_, value⟩ | old
    · rw [value]
      exact new stored
    · exact all enabled id item old
  · exact all

theorem AllCached.get (all : AllCached config cache P)
    (found : getCachedPublicKey config cache now enclaveID = some data) : P data := by
  unfold getCachedPublicKey at found
  split at found
  · rename_i enabled
    obtain ⟨cached, got, rfl⟩ := Option.map_eq_some_iff.mp found
    obtain ⟨item, present, _, rfl⟩ := Cache.get_eq_some_iff.mp got
    exact all enabled enclaveID item present
  · cases found

/-! ### Fetches that are waited for -/

/-- The call waits for its goroutines. -/
def PoolState.Waiting (s : PoolState) (c : Nat) : Prop := ∃ call ∈ s.calls[c]?, call.pc = .waiting

/-- A call does not return before its goroutines have ended. -/
def Awaited (s : PoolState) : Prop := ∀ c, ¬ s.AllFinished (.call c) → s.Waiting c

theorem allFinished_setFetch {owner : FetchOwner} (found : s.fetches[i]? = some f)
    (unfinished : f.pc ≠ .finished) (becomes : f.Becomes f') (all : s.AllFinished owner) :
    (s.setFetch i f').AllFinished owner := by
  intro g member owned
  obtain ⟨j, at_⟩ := List.mem_iff_getElem?.mp member
  obtain ⟨old, before, ⟨_, rfl⟩ | ⟨rfl, rfl⟩⟩ := Heap.of_getElem?_modify at_
  · exact all g (List.mem_of_getElem? before) owned
  · exact (unfinished (all f (List.mem_of_getElem? found) (becomes.owner ▸ owned))).elim

theorem allFinished_spawn {owner owner' : FetchOwner} {enclaves : List PoolNode}
    (other : owner' ≠ owner) (all : s.AllFinished owner) :
    (s.spawn owner' enclaves).AllFinished owner := by
  intro g member owned
  rcases List.mem_append.mp member with old | new
  · exact all g old owned
  · obtain ⟨node, _, rfl⟩ := List.mem_map.mp new
    exact (other owned).elim

theorem waiting_modify {g : KeyCall → KeyCall} {j : Nat} (keeps : ∀ call, (g call).pc = call.pc)
    (waiting : s.Waiting c) : { s with calls := s.calls.modify j g }.Waiting c := by
  obtain ⟨call, found, pc⟩ := waiting
  by_cases same : c = j
  · subst same
    refine ⟨g call, ?_, (keeps call).trans pc⟩
    change (s.calls.modify c g)[c]? = some (g call)
    rw [Heap.getElem?_modify_of found, if_pos rfl]
  · refine ⟨call, ?_, pc⟩
    change (s.calls.modify j g)[c]? = some call
    rw [List.getElem?_modify_ne g s.calls (Ne.symm same)]
    exact found

namespace Awaited

theorem mono (inv : Awaited s)
    (finished : ∀ c, s.AllFinished (.call c) → s'.AllFinished (.call c))
    (waiting : ∀ c, s.Waiting c → s'.Waiting c) : Awaited s' := by
  intro c pending
  exact waiting c (inv c fun all => pending (finished c all))

theorem of_eq (inv : Awaited s) (calls : s'.calls = s.calls) (fetches : s'.fetches = s.fetches) :
    Awaited s' := by
  refine inv.mono (fun c all => ?_) (fun c waiting => ?_)
  · unfold PoolState.AllFinished
    rw [fetches]
    exact all
  · unfold PoolState.Waiting
    rw [calls]
    exact waiting

theorem spawn {owner : FetchOwner} {enclaves : List PoolNode} (inv : Awaited s)
    (other : ∀ c, owner ≠ .call c) : Awaited (s.spawn owner enclaves) :=
  inv.mono (fun c => allFinished_spawn (other c)) fun _ waiting => waiting

theorem setFetch (inv : Awaited s) (found : s.fetches[i]? = some f)
    (unfinished : f.pc ≠ .finished) (becomes : f.Becomes f') : Awaited (s.setFetch i f') :=
  inv.mono (fun _ => allFinished_setFetch found unfinished becomes) fun _ waiting => waiting

theorem modifyCall {g : KeyCall → KeyCall} {j : Nat} (inv : Awaited s)
    (keeps : ∀ call, (g call).pc = call.pc) :
    Awaited { s with calls := s.calls.modify j g } :=
  inv.mono (fun _ all => all) fun _ => waiting_modify keeps

theorem setCall_of {call' : KeyCall} (found : s.calls[c]? = some call)
    (others : ∀ c', c' ≠ c → ¬ s.AllFinished (.call c') → s.Waiting c')
    (moves : s.AllFinished (.call c) ∨ call'.pc = .waiting) : Awaited (s.setCall c call') := by
  intro c' pending
  have entry := Heap.getElem?_modify_of (j := c') (f := fun _ => call') found
  by_cases same : c' = c
  · rw [if_pos same] at entry
    subst same
    rcases moves with all | waiting
    · exact (pending all).elim
    · exact ⟨call', entry, waiting⟩
  · rw [if_neg same] at entry
    obtain ⟨other, found', pc⟩ := others c' same pending
    exact ⟨other, entry.trans found', pc⟩

theorem setCall {call' : KeyCall} (inv : Awaited s) (found : s.calls[c]? = some call)
    (all : s.AllFinished (.call c)) : Awaited (s.setCall c call') :=
  setCall_of found (fun c' _ => inv c') (Or.inl all)

/-- A call starts goroutines and waits for them. -/
theorem await {call' : KeyCall} {enclaves : List PoolNode} (inv : Awaited s)
    (found : s.calls[c]? = some call) (waiting : call'.pc = .waiting) :
    Awaited ((s.spawn (.call c) enclaves).setCall c call') := by
  refine setCall_of found (fun c' other pending => inv c' fun all => ?_) (Or.inr waiting)
  exact pending (allFinished_spawn (fun same => other (FetchOwner.call.inj same).symm) all)

theorem finished_of_pc (inv : Awaited s) (found : s.calls[c]? = some call)
    (pc : call.pc ≠ .waiting) : s.AllFinished (.call c) := by
  by_contra pending
  obtain ⟨call', found', waiting⟩ := inv c pending
  cases found.symm.trans found'
  exact pc waiting

theorem respond (inv : Awaited s) : Awaited (s.respond c data) := inv.modifyCall fun _ => rfl

theorem failCall {err : String} (inv : Awaited s) : Awaited (s.failCall c err) :=
  inv.modifyCall fun _ => rfl

theorem start (inv : Awaited s) : Awaited { s with calls := s.calls ++ [call] } := by
  refine inv.mono (fun _ all => all) fun c waiting => ?_
  obtain ⟨call', found, pc⟩ := waiting
  refine ⟨call', ?_, pc⟩
  exact (List.getElem?_append_left (Heap.lt_of_getElem? found)).trans found

end Awaited

/-! ### Updates of the state -/

namespace Trusted

theorem append (inv : Trusted pool s₀ ls s) (more : List PoolLabel) :
    Trusted pool s₀ (ls ++ more) s where
  fetches i f found := ⟨(inv.fetches i f found).1,
    fun c owner => ((inv.fetches i f found).2 c owner).append more⟩
  calls c call found := (inv.calls c call found).append more
  cached := inv.cached
  readers c call found hasRead :=
    (inv.readers c call found hasRead).imp fun _ vouched => vouched.append more

theorem of_eq (inv : Trusted pool s₀ ls s) (same : s'.shared = s.shared) :
    Trusted pool s₀ ls s' := by
  simp only [PoolState.shared, Prod.mk.injEq] at same
  obtain ⟨nodes, writer, cache, calls, fetches⟩ := same
  refine ⟨?_, ?_, fun free => ?_, ?_⟩
  · rw [fetches]
    exact inv.fetches
  · rw [calls, fetches]
    exact inv.calls
  · rw [cache]
    refine (inv.cached (writer ▸ free)).imp fun data current => ?_
    refine current.mono ?_ nodes
    rw [fetches]
    exact fun f member => ⟨f, member, .refl f⟩
  · rw [calls, cache, fetches]
    exact inv.readers

theorem withFetches (inv : Trusted pool s₀ ls s) (kept : FetchesKept s.fetches fetches')
    (sound : ∀ (i : Nat) (f : KeyFetch), fetches'[i]? = some f → f.Sound pool ∧
      ∀ c, f.owner = .call c → ListedDuring pool s₀ ls c f.enclave) :
    Trusted pool s₀ ls { s with fetches := fetches' } where
  fetches := sound
  calls c call found := (inv.calls c call found).mono kept
  cached free := (inv.cached free).imp fun _ current => current.mono kept rfl
  readers c call found hasRead :=
    (inv.readers c call found hasRead).imp fun _ vouched => vouched.mono kept

theorem setFetch (inv : Trusted pool s₀ ls s) (found : s.fetches[i]? = some f)
    (becomes : f.Becomes f') (sound : f'.Sound pool) : Trusted pool s₀ ls (s.setFetch i f') := by
  refine inv.withFetches (.modify found becomes) (Heap.forall_modify inv.fetches ?_)
  intro old at_
  cases found.symm.trans at_
  refine ⟨sound, fun c owner => ?_⟩
  rw [becomes.enclave]
  exact (inv.fetches i f found).2 c (becomes.owner ▸ owner)

theorem spawn {owner : FetchOwner} {enclaves : List PoolNode} (inv : Trusted pool s₀ ls s)
    (listed : ∀ c, owner = .call c → ∀ node ∈ enclaves, ListedDuring pool s₀ ls c node) :
    Trusted pool s₀ ls (s.spawn owner enclaves) := by
  refine inv.withFetches (.append _ _) ?_
  intro i f found
  rcases List.mem_append.mp (List.mem_of_getElem? found) with old | new
  · obtain ⟨j, at_⟩ := List.mem_iff_getElem?.mp old
    exact inv.fetches j f at_
  · obtain ⟨node, among, rfl⟩ := List.mem_map.mp new
    refine ⟨⟨fun _ => rfl, fun data fetched => by cases fetched⟩, fun c owned => ?_⟩
    exact listed c owned node among

theorem modifyCall {g : KeyCall → KeyCall} (inv : Trusted pool s₀ ls s)
    (sound : ∀ call, s.calls[c]? = some call → (g call).Sound pool s₀ ls s.fetches c)
    (readers : ∀ call, s.calls[c]? = some call → (g call).pc.hasRead = true →
      AllCached pool.cacheConfig s.publicKeyCache (Vouched pool s₀ ls s.fetches c)) :
    Trusted pool s₀ ls { s with calls := s.calls.modify c g } where
  fetches := inv.fetches
  calls j call found := by
    obtain ⟨old, before, ⟨_, rfl⟩ | ⟨rfl, rfl⟩⟩ := Heap.of_getElem?_modify found
    · exact inv.calls j call before
    · exact sound old before
  cached := inv.cached
  readers j call found hasRead := by
    obtain ⟨old, before, ⟨_, rfl⟩ | ⟨rfl, rfl⟩⟩ := Heap.of_getElem?_modify found
    · exact inv.readers j call before hasRead
    · exact readers old before hasRead

/-- A call moves on; if it has read the node list by now, what is cached is vouched for. -/
theorem setPC {pc : KeyCallPC} (inv : Trusted pool s₀ ls s) (found : s.calls[c]? = some call)
    (selecting : ∀ todo, pc = .selecting todo → ∀ node ∈ todo, ListedDuring pool s₀ ls c node)
    (returned : ∀ responses, pc = .returned (.ok responses) → responses = call.responses)
    (reads : pc.hasRead = true → call.pc.hasRead = true ∨
      AllCached pool.cacheConfig s.publicKeyCache (Vouched pool s₀ ls s.fetches c)) :
    Trusted pool s₀ ls (s.setCall c { call with pc := pc }) := by
  have responses := (inv.calls c call found).responses
  refine inv.modifyCall ?_ ?_
  · intro old at_
    refine ⟨selecting, responses, fun returns isReturned => ?_⟩
    rw [returned returns isReturned]
    exact responses
  · intro old at_ hasRead
    rcases reads hasRead with before | cached
    · exact inv.readers c call found before
    · exact cached

theorem return_error {err : String} (inv : Trusted pool s₀ ls s)
    (found : s.calls[c]? = some call) :
    Trusted pool s₀ ls (s.setCall c { call with pc := .returned (.error err) }) := by
  apply inv.setPC found
  · intro todo pc
    cases pc
  · intro responses pc
    cases pc
  · intro hasRead
    cases hasRead

theorem respond (inv : Trusted pool s₀ ls s) (vouched : Vouched pool s₀ ls s.fetches c data) :
    Trusted pool s₀ ls (s.respond c data) := by
  refine inv.modifyCall ?_ (inv.readers c)
  intro call found
  have sound := inv.calls c call found
  refine ⟨sound.selecting, fun other among => ?_, sound.returned⟩
  rcases List.mem_append.mp among with old | new
  · exact sound.responses other old
  · cases List.mem_singleton.mp new
    exact vouched

theorem failCall {err : String} (inv : Trusted pool s₀ ls s) :
    Trusted pool s₀ ls (s.failCall c err) := by
  refine inv.modifyCall ?_ (inv.readers c)
  intro call found
  have sound := inv.calls c call found
  exact ⟨sound.selecting, sound.responses, sound.returned⟩

/-- A key is stored that was fetched for a listed entry. -/
theorem store (now : Int) (inv : Trusted pool s₀ ls s) (member : f ∈ s.fetches)
    (accepted : f.Accepted pool data)
    (lists : pool.cacheConfig.enableCache = true ∧
      0 < calculateEffectiveTTL pool.cacheConfig data.ttls → s.Lists f.enclave)
    (covers : Covers pool s₀ ls s) :
    Trusted pool s₀ ls (s.store pool now f.enclave data) where
  fetches := inv.fetches
  calls := inv.calls
  cached free := (inv.cached free).set fun stored => ⟨f, member, accepted, lists stored⟩
  readers c call found hasRead := by
    refine (inv.readers c call found hasRead).set fun stored => ?_
    exact ⟨f, member, accepted, covers c f.enclave (.of_hasRead found hasRead) (lists stored)⟩

theorem collect (inv : Trusted pool s₀ ls s) :
    Trusted pool s₀ ls { s with publicKeyCache := (s.publicKeyCache.garbageCollect now).1 } where
  fetches := inv.fetches
  calls := inv.calls
  cached free := (inv.cached free).garbageCollect
  readers c call found hasRead := (inv.readers c call found hasRead).garbageCollect

/-- While the lock is held, cached keys need not be current. -/
theorem commit {nodes : Slice PoolNode} {u : Nat} (inv : Trusted pool s₀ ls s) :
    Trusted pool s₀ ls { s with nodes := nodes, writer := some u } where
  fetches := inv.fetches
  calls := inv.calls
  cached free := by cases free
  readers := inv.readers

theorem flush (cache : PublicKeyCache) (inv : Trusted pool s₀ ls s)
    (none_ : ∀ P, AllCached pool.cacheConfig cache P) :
    Trusted pool s₀ ls { s with writer := none, publicKeyCache := cache } where
  fetches := inv.fetches
  calls := inv.calls
  cached _ := none_ _
  readers _ _ _ _ := none_ _

theorem start {requestID : Bytes32} {check : RequirementsChecker} (inv : Trusted pool s₀ ls s) :
    Trusted pool s₀ ls
      { s with calls := s.calls ++ [⟨requestID, check, [], none, .reading⟩] } where
  fetches := inv.fetches
  calls c call found := by
    rw [Heap.getElem?_alloc] at found
    split at found
    · cases found
      refine ⟨fun todo pc => ?_, fun data among => ?_, fun responses pc => ?_⟩
      · cases pc
      · cases among
      · cases pc
    · exact inv.calls c call found
  cached := inv.cached
  readers c call found hasRead := by
    rw [Heap.getElem?_alloc] at found
    split at found
    · cases found
      cases hasRead
    · exact inv.readers c call found hasRead

end Trusted

end

end ConfidentialCompute
