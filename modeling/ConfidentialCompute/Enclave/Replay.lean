import ConfidentialCompute.Enclave.AtMostOnce
import ConfidentialCompute.Hashing

/-!
# Replays over time

A successful execution is remembered in `executedReqs` for `defaultKeypairExpiration`
only. What makes the memory long enough is the keypair the request names: the hash covers
its public key, the keypair was there when the request was executed, and it lives at most
as long as the memory. So when the memory has gone, the keypair has gone before it, and
a replay fails for want of the keypair, for ever.
-/

namespace ConfidentialCompute

open Go Runs

variable {p : Platform} {crypto : Crypto} {s s' : EnclaveServer} {now : Int}
  {ls : List EnclaveLabel} {l : EnclaveLabel} {h : Bytes32} {pk : Slice UInt8}

/-! ## Conditions on runs -/

def EnclaveLabel.isArrival (l : EnclaveLabel) : Bool :=
  match l.action with
  | .arrive _ _ _ => true
  | _ => false

/-- A request arrives only when all requests before it have been answered. -/
def EnclaveServer.NoOverlap (s : EnclaveServer) (l : EnclaveLabel) : Prop :=
  l.isArrival → ∀ id call, s.calls.lookup id = some call → call.pc.isDone

instance (s : EnclaveServer) (l : EnclaveLabel) : Decidable (s.NoOverlap l) :=
  inferInstanceAs (Decidable (_ → ∀ _ _, _))

/-- Recording an execution does not overflow `executedReqs`. -/
def EnclaveServer.ExecutedFits (s : EnclaveServer) (l : EnclaveLabel) : Prop :=
  ∀ call ∈ s.caller l, call.pc.isRecording → s.executedReqs.HasRoom call.hash

instance (s : EnclaveServer) (l : EnclaveLabel) : Decidable (s.ExecutedFits l) :=
  inferInstanceAs (Decidable (∀ call ∈ s.caller l, _))

def EnclaveLabel.generatedKey (l : EnclaveLabel) : Option Bytes32 :=
  match l.action with
  | .createKeyPair _ publicKey _ => some publicKey
  | _ => none

/-- The public keys generated along a run. -/
def generatedKeys (ls : List EnclaveLabel) : List Bytes32 :=
  ls.filterMap EnclaveLabel.generatedKey

def EnclaveLabel.firstRequest (l : EnclaveLabel) : Option SignedComputeRequest :=
  match l.action with
  | .arrive _ _ (.batch (req :: _)) => some req
  | _ => none

/-- The requests whose hashes stand for their batches along a run. -/
def firstRequests (ls : List EnclaveLabel) : List SignedComputeRequest :=
  ls.filterMap EnclaveLabel.firstRequest

/-- What is hashed of them. -/
def requestTexts (ls : List EnclaveLabel) : Set Bytes :=
  { text | ∃ req ∈ firstRequests ls, text = req.preimage }

theorem generatedKeys_append (more : List EnclaveLabel) {k : Bytes32}
    (member : k ∈ generatedKeys ls) : k ∈ generatedKeys (ls ++ more) := by
  unfold generatedKeys at *
  rw [List.filterMap_append]
  exact List.mem_append_left _ member

theorem firstRequests_append (more : List EnclaveLabel) {req : SignedComputeRequest}
    (member : req ∈ firstRequests ls) : req ∈ firstRequests (ls ++ more) := by
  unfold firstRequests at *
  rw [List.filterMap_append]
  exact List.mem_append_left _ member

/-! ## Keys and memories -/

/-- No keypair under the public key is live, now or later. -/
def KeyDead (s : EnclaveServer) (pk : Slice UInt8) : Prop :=
  ∀ (k : Bytes32) (item : CacheItem BoxKeypair), k.data = pk.data →
    s.keychain.keypairCache.items.lookup k = some item → item.Expired s.clock

/-- The execution of `h` is remembered, and every keypair under the public key is older than
the memory. -/
def Guarded (s : EnclaveServer) (h : Bytes32) (pk : Slice UInt8) : Prop :=
  ∃ memory, s.executedReqs.items.lookup h = some memory ∧
    ∀ (k : Bytes32) (item : CacheItem BoxKeypair), k.data = pk.data →
      s.keychain.keypairCache.items.lookup k = some item →
      item.creationTime ≤ memory.creationTime

def Spent (s : EnclaveServer) (h : Bytes32) (pk : Slice UInt8) : Prop :=
  KeyDead s pk ∨ Guarded s h pk

/-- What the two caches promise about lifetimes. -/
structure CachesTimed (ls : List EnclaveLabel) (s : EnclaveServer) : Prop where
  executedTTL : s.executedReqs.timeToLive = defaultKeypairExpiration
  keypairTTL : s.keychain.keypairCache.timeToLive ≤ defaultKeypairExpiration
  unbounded : s.keychain.keypairCache.maxEntries ≤ 0
  executed : ∀ h memory, s.executedReqs.items.lookup h = some memory →
    memory.timeToLive = defaultKeypairExpiration
  keys : ∀ k item, s.keychain.keypairCache.items.lookup k = some item →
    k ∈ generatedKeys ls ∧ item.creationTime ≤ s.clock ∧
      item.timeToLive ≤ defaultKeypairExpiration

theorem KeyDead.mono (keys : ∀ k item, s'.keychain.keypairCache.items.lookup k = some item →
      k.data = pk.data → s.keychain.keypairCache.items.lookup k = some item)
    (le : s.clock ≤ s'.clock) (dead : KeyDead s pk) : KeyDead s' pk := by
  intro k item same found
  exact (dead k item same (keys k item found same)).mono le

/-- When the memory has expired, so has every keypair older than it. -/
theorem Guarded.dead (timed : CachesTimed ls s) (guarded : Guarded s h pk)
    (missing : s.executedReqs.get s.clock h = none) : KeyDead s pk := by
  obtain ⟨memory, remembered, older⟩ := guarded
  have expired := Cache.get_eq_none_iff.mp missing memory remembered
  have lifetime := timed.executed h memory remembered
  intro k item same found
  have age := older k item same found
  have short := (timed.keys k item found).2.2
  unfold CacheItem.Expired at *
  omega

/-- A hash that is not found executed, though it was, names a dead keypair. -/
theorem Spent.dead (timed : CachesTimed ls s) (spent : Spent s h pk)
    (missing : s.executedReqs.get s.clock h = none) : KeyDead s pk := by
  rcases spent with dead | guarded
  · exact dead
  · exact guarded.dead timed missing

theorem KeyDead.not_found (dead : KeyDead s pk) {kp : BoxKeypair} :
    s.keychain.getKeyPair s.clock pk ≠ .ok kp := by
  intro ok
  obtain ⟨k, same, found⟩ := BoxKeychain.getKeyPair_ok ok
  obtain ⟨item, lookup, alive, _⟩ := Cache.get_eq_some_iff.mp found
  exact alive (dead k item same lookup)

/-! ## The invariant -/

/-- What a run without overlapping requests keeps. -/
structure ReplaySafe (crypto : Crypto) (ls : List EnclaveLabel) (s : EnclaveServer) : Prop where
  timed : CachesTimed ls s
  alone : ∀ i a, s.calls.lookup i = some a → ∀ j b, s.calls.lookup j = some b →
    a.pc.isDone = false → b.pc.isDone = false → i = j
  origin : ∀ i a, s.calls.lookup i = some a →
    a.hash = a.req.hash crypto ∧ a.req ∈ firstRequests ls
  generated : ∀ i a, s.calls.lookup i = some a → a.pc.isKeyed ∨ a.pc.isSucceeded →
    ∃ k ∈ generatedKeys ls, k.data = a.req.enclaveEphemeralPublicKey.data
  spent : ∀ i a, s.calls.lookup i = some a → a.pc.isSucceeded →
    Spent s a.hash a.req.enclaveEphemeralPublicKey
  cleared : ∀ i a, s.calls.lookup i = some a → ∀ j b, s.calls.lookup j = some b →
    a.hash = b.hash → a.pc.isCleared → b.pc.isSucceeded →
    KeyDead s b.req.enclaveEphemeralPublicKey ∧ a.pc.isKeyed = false
  once : Exclusive s.calls ExecPC.isSucceeded

namespace ReplaySafe

variable {id : Nat} {call call' : ExecCall} {more : List EnclaveLabel}

/-- Requests with the same hash name the same keypair. -/
theorem same_key (inv : ReplaySafe crypto ls s)
    (collisionFree : crypto.CollisionFree (requestTexts ls)) {i j : Nat} {a b : ExecCall}
    (ati : s.calls.lookup i = some a) (atj : s.calls.lookup j = some b)
    (same : a.hash = b.hash) :
    a.req.enclaveEphemeralPublicKey = b.req.enclaveEphemeralPublicKey := by
  obtain ⟨hasha, fromA⟩ := inv.origin i a ati
  obtain ⟨hashb, fromB⟩ := inv.origin j b atj
  rw [hasha, hashb] at same
  have texts := collisionFree _ ⟨a.req, fromA, rfl⟩ _ ⟨b.req, fromB, rfl⟩ same
  exact (ComputeRequest.preimage_fields texts).enclaveEphemeralPublicKey

/-- A step that leaves the goroutines alone. -/
theorem environment (inv : ReplaySafe crypto ls s) (calls : s'.calls = s.calls)
    (timed : CachesTimed (ls ++ more) s')
    (dead : ∀ pk : Slice UInt8, (∃ k ∈ generatedKeys ls, k.data = pk.data) → KeyDead s pk →
      KeyDead s' pk)
    (spent : ∀ h pk, (∃ k ∈ generatedKeys ls, k.data = pk.data) → Spent s h pk →
      Spent s' h pk) :
    ReplaySafe crypto (ls ++ more) s' where
  timed := timed
  alone := by rw [calls]; exact inv.alone
  origin := by
    rw [calls]
    intro i a found
    obtain ⟨hash, member⟩ := inv.origin i a found
    exact ⟨hash, firstRequests_append more member⟩
  generated := by
    rw [calls]
    intro i a found stage
    obtain ⟨k, member, same⟩ := inv.generated i a found stage
    exact ⟨k, generatedKeys_append more member, same⟩
  spent := by
    rw [calls]
    intro i a found succeeded
    exact spent _ _ (inv.generated i a found (Or.inr succeeded)) (inv.spent i a found succeeded)
  cleared := by
    rw [calls]
    intro i a ati j b atj same cleared succeeded
    obtain ⟨isDead, notKeyed⟩ := inv.cleared i a ati j b atj same cleared succeeded
    exact ⟨dead _ (inv.generated j b atj (Or.inr succeeded)) isDead, notKeyed⟩
  once := by rw [calls]; exact inv.once

/-- A step that leaves the caches alone as well. -/
theorem advance (inv : ReplaySafe crypto ls s) (calls : s'.calls = s.calls)
    (executed : s'.executedReqs = s.executedReqs) (keychain : s'.keychain = s.keychain)
    (le : s.clock ≤ s'.clock) : ReplaySafe crypto (ls ++ more) s' := by
  have deadLater : ∀ pk, KeyDead s pk → KeyDead s' pk := fun pk =>
    KeyDead.mono (fun k item found _ => by rwa [keychain] at found) le
  refine inv.environment calls ?_ (fun pk _ => deadLater pk) fun h pk _ spent => ?_
  · obtain ⟨executedTTL, keypairTTL, unbounded, memories, keys⟩ := inv.timed
    refine ⟨by rwa [executed], by rwa [keychain], by rwa [keychain], by rwa [executed], ?_⟩
    rw [keychain]
    intro k item found
    obtain ⟨member, created, short⟩ := keys k item found
    exact ⟨generatedKeys_append more member, by omega, short⟩
  · rcases spent with dead | guarded
    · exact Or.inl (deadLater pk dead)
    · right
      unfold Guarded at *
      rwa [executed, keychain]

/-- A keypair that has never been generated before joins the others. -/
theorem keyPair (inv : ReplaySafe crypto ls s) {generatedAt : Int} {publicKey privateKey : Bytes32}
    (action : l.action = .createKeyPair generatedAt publicKey privateKey)
    (unused : publicKey ∉ generatedKeys ls) (le : s.clock ≤ now) :
    ReplaySafe crypto (ls ++ [l])
      { s with
        clock := now
        keychain := s.keychain.createKeyPair generatedAt now publicKey privateKey } := by
  have lookup : ∀ k : Bytes32,
      (s.keychain.createKeyPair generatedAt now publicKey privateKey).keypairCache.items.lookup k =
        if k = publicKey then
          some ⟨⟨publicKey, privateKey, s.keychain.expiration, generatedAt⟩, now,
            s.keychain.keypairCache.timeToLive⟩
        else s.keychain.keypairCache.items.lookup k :=
    fun _ => BoxKeychain.lookup_createKeyPair inv.timed.unbounded
  have old : ∀ pk : Slice UInt8, (∃ k ∈ generatedKeys ls, k.data = pk.data) →
      ∀ k : Bytes32, k.data = pk.data → k ≠ publicKey := by
    rintro pk ⟨k', member, same'⟩ k same rfl
    rw [Bytes32.data_injective (same.trans same'.symm)] at unused
    exact unused member
  have keep : ∀ pk : Slice UInt8, (∃ k ∈ generatedKeys ls, k.data = pk.data) →
      ∀ (k : Bytes32) (item : CacheItem BoxKeypair),
        (s.keychain.createKeyPair generatedAt now publicKey privateKey).keypairCache.items.lookup k
          = some item → k.data = pk.data →
        s.keychain.keypairCache.items.lookup k = some item := by
    intro pk known k item found same
    rwa [lookup, if_neg (old pk known k same)] at found
  refine inv.environment rfl ?_ (fun pk known => KeyDead.mono (keep pk known) le)
    fun h pk known spent => ?_
  · obtain ⟨executedTTL, keypairTTL, unbounded, memories, keys⟩ := inv.timed
    refine ⟨executedTTL, ?_, ?_, memories, ?_⟩
    · exact Cache.timeToLive_set.trans_le keypairTTL
    · exact Cache.maxEntries_set.trans_le unbounded
    · intro k item found
      dsimp only at found ⊢
      rw [lookup] at found
      split at found
      · rename_i same
        cases found
        refine ⟨?_, Int.le_refl _, keypairTTL⟩
        simp [generatedKeys, EnclaveLabel.generatedKey, action, same]
      · obtain ⟨member, created, short⟩ := keys k item found
        exact ⟨generatedKeys_append [l] member, by omega, short⟩
  · rcases spent with dead | ⟨memory, remembered, older⟩
    · exact Or.inl (dead.mono (keep pk known) le)
    · exact Or.inr ⟨memory, remembered, fun k item same found =>
        older k item same (keep pk known k item found same)⟩

/-- A collection of `executedReqs` drops a memory only when the keypair is dead. -/
theorem collectExecuted (inv : ReplaySafe crypto ls s) :
    ReplaySafe crypto (ls ++ [l])
      { s with executedReqs := (s.executedReqs.garbageCollect s.clock).1 } := by
  refine inv.environment rfl ?_ (fun _ _ dead => dead) fun h pk _ spent => ?_
  · obtain ⟨executedTTL, keypairTTL, unbounded, memories, keys⟩ := inv.timed
    refine ⟨executedTTL, keypairTTL, unbounded, ?_, ?_⟩
    · intro h memory found
      exact memories h memory (Cache.lookup_of_garbageCollect found)
    · intro k item found
      obtain ⟨member, rest⟩ := keys k item found
      exact ⟨generatedKeys_append [l] member, rest⟩
  · rcases spent with dead | ⟨memory, remembered, older⟩
    · exact Or.inl dead
    · rcases Cache.lookup_garbageCollect s.executedReqs s.clock h with
        kept | ⟨_, item, found, expired⟩
      · exact Or.inr ⟨memory, kept.trans remembered, older⟩
      · left
        apply Guarded.dead inv.timed ⟨memory, remembered, older⟩
        rw [Cache.get_eq_none_iff, found]
        rintro _ ⟨⟩
        exact expired

theorem collectKeypairs (inv : ReplaySafe crypto ls s) :
    ReplaySafe crypto (ls ++ [l])
      { s with keychain := { s.keychain with
        keypairCache := (s.keychain.keypairCache.garbageCollect s.clock).1 } } := by
  have keep : ∀ (k : Bytes32) (item : CacheItem BoxKeypair),
      (s.keychain.keypairCache.garbageCollect s.clock).1.items.lookup k = some item →
      s.keychain.keypairCache.items.lookup k = some item :=
    fun k item found => Cache.lookup_of_garbageCollect found
  refine inv.environment rfl ?_ (fun pk _ => KeyDead.mono (fun k item found _ => keep k item found)
    (Int.le_refl _)) fun h pk _ spent => ?_
  · obtain ⟨executedTTL, keypairTTL, unbounded, memories, keys⟩ := inv.timed
    refine ⟨executedTTL, keypairTTL, unbounded, memories, ?_⟩
    intro k item found
    obtain ⟨member, rest⟩ := keys k item (keep k item found)
    exact ⟨generatedKeys_append [l] member, rest⟩
  · rcases spent with dead | ⟨memory, remembered, older⟩
    · exact Or.inl (dead.mono (fun k item found _ => keep k item found) (Int.le_refl _))
    · exact Or.inr ⟨memory, remembered, fun k item same found =>
        older k item same (keep k item found)⟩

theorem alone_insert (inv : ReplaySafe crypto ls s) (found : s.calls.lookup id = some call)
    (active : call.pc.isDone = false) (call' : ExecCall) :
    ∀ i a, (s.calls.insert id call').lookup i = some a →
      ∀ j b, (s.calls.insert id call').lookup j = some b →
        a.pc.isDone = false → b.pc.isDone = false → i = j := by
  intro i a ati j b atj activeA activeB
  rcases lookup_insert_cases ati with ⟨rfl, rfl⟩ | ⟨_, oldi⟩
  · rcases lookup_insert_cases atj with ⟨rfl, _⟩ | ⟨_, oldj⟩
    · rfl
    · exact inv.alone i call found j b oldj active activeB
  · rcases lookup_insert_cases atj with ⟨rfl, rfl⟩ | ⟨_, oldj⟩
    · exact inv.alone i a oldi j call found activeA active
    · exact inv.alone i a oldi j b oldj activeA activeB

/-- A step of a goroutine that touches neither cache. -/
theorem quiet (inv : ReplaySafe crypto ls s) (found : s.calls.lookup id = some call)
    (calls : s'.calls = s.calls.insert id call') (executed : s'.executedReqs = s.executedReqs)
    (keychain : s'.keychain = s.keychain) (clock : s'.clock = s.clock)
    (hash : call'.hash = call.hash) (req : call'.req = call.req) (active : call.pc.isDone = false)
    (keyed : call'.pc.isKeyed → call.pc.isKeyed ∨
      ((∃ k ∈ generatedKeys ls, k.data = call.req.enclaveEphemeralPublicKey.data) ∧
        ∀ j b, s.calls.lookup j = some b → b.hash = call.hash → ¬ b.pc.isSucceeded))
    (cleared : call'.pc.isCleared → call.pc.isCleared ∨
      ∀ j b, s.calls.lookup j = some b → b.hash = call.hash → b.pc.isSucceeded →
        KeyDead s b.req.enclaveEphemeralPublicKey)
    (succeeded : call'.pc.isSucceeded → call.pc.isSucceeded) : ReplaySafe crypto ls s' := by
  have dead : ∀ {pk}, KeyDead s pk → KeyDead s' pk := fun isDead =>
    isDead.mono (fun k item found _ => by rwa [keychain] at found) clock.ge
  have spent : ∀ {h pk}, Spent s h pk → Spent s' h pk := by
    intro h pk isSpent
    rcases isSpent with isDead | guarded
    · exact Or.inl (dead isDead)
    · right
      unfold Guarded at *
      rwa [executed, keychain]
  refine ⟨?_, ?_, ?_, ?_, ?_, ?_, ?_⟩
  · obtain ⟨executedTTL, keypairTTL, unbounded, memories, keys⟩ := inv.timed
    exact ⟨by rwa [executed], by rwa [keychain], by rwa [keychain], by rwa [executed],
      by rwa [keychain, clock]⟩
  · rw [calls]
    exact inv.alone_insert found active call'
  · rw [calls]
    apply forall_lookup_insert inv.origin
    rw [hash, req]
    exact inv.origin id call found
  · rw [calls]
    apply forall_lookup_insert inv.generated
    rw [req]
    rintro (isKeyed | isSucceeded)
    · rcases keyed isKeyed with already | ⟨known, _⟩
      · exact inv.generated id call found (Or.inl already)
      · exact known
    · exact inv.generated id call found (Or.inr (succeeded isSucceeded))
  · rw [calls]
    apply forall_lookup_insert
    · intro i a ati isSucceeded
      exact spent (inv.spent i a ati isSucceeded)
    · intro isSucceeded
      rw [hash, req]
      exact spent (inv.spent id call found (succeeded isSucceeded))
  · rw [calls]
    intro i a ati j b atj same isCleared isSucceeded
    rcases lookup_insert_cases ati with ⟨rfl, rfl⟩ | ⟨_, oldi⟩
    · rcases lookup_insert_cases atj with ⟨rfl, rfl⟩ | ⟨_, oldj⟩
      · rw [ExecPC.not_isSucceeded_of_isCleared isCleared] at isSucceeded
        cases isSucceeded
      · have same' : b.hash = call.hash := same.symm.trans hash
        have notKeyed : a.pc.isKeyed = false := by
          by_contra isKeyed
          rcases keyed (by simpa using isKeyed) with already | ⟨_, nobody⟩
          · have := inv.cleared i call found j b oldj same'.symm
              (ExecPC.isCleared_of_isKeyed already) isSucceeded
            rw [this.2] at already
            cases already
          · exact nobody j b oldj same' isSucceeded
        rcases cleared isCleared with already | expired
        · have gone := inv.cleared i call found j b oldj same'.symm already isSucceeded
          exact ⟨dead gone.1, notKeyed⟩
        · exact ⟨dead (expired j b oldj same' isSucceeded), notKeyed⟩
    · rcases lookup_insert_cases atj with ⟨rfl, rfl⟩ | ⟨_, oldj⟩
      · obtain ⟨isDead, notKeyed⟩ := inv.cleared i a oldi j call found (same.trans hash) isCleared
          (succeeded isSucceeded)
        rw [req]
        exact ⟨dead isDead, notKeyed⟩
      · obtain ⟨isDead, notKeyed⟩ := inv.cleared i a oldi j b oldj same isCleared isSucceeded
        exact ⟨dead isDead, notKeyed⟩
  · rw [calls]
    exact inv.once.insert found hash fun isSucceeded => Or.inl (succeeded isSucceeded)

/-- Such a step of a goroutine that has found its keypair. -/
theorem quiet_of_isKeyed (inv : ReplaySafe crypto ls s) (found : s.calls.lookup id = some call)
    (calls : s'.calls = s.calls.insert id call') (executed : s'.executedReqs = s.executedReqs)
    (keychain : s'.keychain = s.keychain) (clock : s'.clock = s.clock)
    (hash : call'.hash = call.hash) (req : call'.req = call.req) (keyed : call.pc.isKeyed)
    (succeeded : call'.pc.isSucceeded → call.pc.isSucceeded) : ReplaySafe crypto ls s' := by
  have cleared := ExecPC.isCleared_of_isKeyed keyed
  exact inv.quiet found calls executed keychain clock hash req
    (ExecPC.not_isDone_of_isCleared cleared) (fun _ => Or.inl keyed) (fun _ => Or.inl cleared)
    succeeded

/-- A goroutine that has found its keypair is the first to execute its hash. -/
theorem first_of_isKeyed (inv : ReplaySafe crypto ls s) (found : s.calls.lookup id = some call)
    (keyed : call.pc.isKeyed) :
    ∀ j b, s.calls.lookup j = some b → b.hash = call.hash → ¬ b.pc.isSucceeded := by
  intro j b atj same isSucceeded
  obtain ⟨_, notKeyed⟩ := inv.cleared id call found j b atj same.symm
    (ExecPC.isCleared_of_isKeyed keyed) isSucceeded
  rw [keyed] at notKeyed
  cases notKeyed

theorem localMove (inv : ReplaySafe crypto ls s)
    (collisionFree : crypto.CollisionFree (requestTexts ls))
    (found : s.calls.lookup id = some call) {pc : ExecPC} (move : LocalMove s s.clock call pc) :
    ReplaySafe crypto ls (s.setCall id { call with pc := pc }) := by
  cases move with
  | busy at_ _ failed =>
      have active : call.pc.isDone = false := by rw [at_]; rfl
      exact inv.quiet found rfl rfl rfl rfl rfl rfl active nofun nofun
        fun isSucceeded => ((ExecPC.not_isSucceeded_of_failed failed).2 isSucceeded).elim
  | notBusy at_ _ =>
      have active : call.pc.isDone = false := by rw [at_]; rfl
      exact inv.quiet found rfl rfl rfl rfl rfl rfl active nofun nofun nofun
  | replay at_ _ failed =>
      have active : call.pc.isDone = false := by rw [at_]; rfl
      exact inv.quiet found rfl rfl rfl rfl rfl rfl active nofun nofun
        fun isSucceeded => ((ExecPC.not_isSucceeded_of_failed failed).1 isSucceeded).elim
  | notReplay at_ missing =>
      have active : call.pc.isDone = false := by rw [at_]; rfl
      refine inv.quiet found rfl rfl rfl rfl rfl rfl active nofun (fun _ => Or.inr ?_) nofun
      intro j b atj same isSucceeded
      rw [← same] at missing
      exact (inv.spent j b atj isSucceeded).dead inv.timed missing
  | keyFound at_ ok =>
      have active : call.pc.isDone = false := by rw [at_]; rfl
      have cleared : call.pc.isCleared := by rw [at_]; rfl
      refine inv.quiet found rfl rfl rfl rfl rfl rfl active (fun _ => Or.inr ⟨?_, ?_⟩)
        (fun _ => Or.inl cleared) nofun
      · obtain ⟨k, same, live⟩ := BoxKeychain.getKeyPair_ok ok
        obtain ⟨item, lookup, _⟩ := Cache.get_eq_some_iff.mp live
        exact ⟨k, (inv.timed.keys k item lookup).1, same⟩
      · intro j b atj same isSucceeded
        obtain ⟨dead, _⟩ := inv.cleared id call found j b atj same.symm cleared isSucceeded
        rw [inv.same_key collisionFree atj found same] at dead
        exact dead.not_found ok
  | combined at_ =>
      exact inv.quiet_of_isKeyed found rfl rfl rfl rfl rfl rfl (by rw [at_]; rfl) nofun
  | failed cleared failed =>
      exact inv.quiet found rfl rfl rfl rfl rfl rfl (ExecPC.not_isDone_of_isCleared cleared)
        nofun nofun
        fun isSucceeded => ((ExecPC.not_isSucceeded_of_failed failed).1 isSucceeded).elim

/-- The execution is remembered, and every keypair there is older than the memory. -/
theorem markExecuted (inv : ReplaySafe crypto ls s) (found : s.calls.lookup id = some call)
    {resp : ExecuteResponse} (at_ : call.pc = .markExecuted resp)
    (room : s.executedReqs.HasRoom call.hash) :
    ReplaySafe crypto ls
      ({ s with executedReqs := s.executedReqs.set s.clock call.hash () none }.setCall id
        { call with pc := .unmark (.success resp) }) := by
  have active : call.pc.isDone = false := by rw [at_]; rfl
  have keyed : call.pc.isKeyed := by rw [at_]; rfl
  have first := inv.first_of_isKeyed found keyed
  have guarded : ∀ pk, Guarded
      ({ s with executedReqs := s.executedReqs.set s.clock call.hash () none }.setCall id
        { call with pc := .unmark (.success resp) }) call.hash pk := by
    intro pk
    refine ⟨⟨(), s.clock, s.executedReqs.timeToLive⟩, ?_, fun k item _ lookup => ?_⟩
    · exact (Cache.lookup_set room).trans (if_pos rfl)
    · exact (inv.timed.keys k item lookup).2.1
  refine ⟨?_, inv.alone_insert found active _, forall_lookup_insert inv.origin ?_,
    forall_lookup_insert inv.generated ?_, ?_, ?_, ?_⟩
  · obtain ⟨executedTTL, keypairTTL, unbounded, memories, keys⟩ := inv.timed
    refine ⟨Cache.timeToLive_set.trans executedTTL, keypairTTL, unbounded, ?_, keys⟩
    intro h memory lookup
    dsimp only [EnclaveServer.setCall] at lookup
    rw [Cache.lookup_set room] at lookup
    split at lookup
    · cases lookup
      exact executedTTL
    · exact memories h memory lookup
  · exact inv.origin id call found
  · intro _
    exact inv.generated id call found (Or.inl keyed)
  · apply forall_lookup_insert
    · intro i a ati isSucceeded
      rcases inv.spent i a ati isSucceeded with dead | ⟨memory, remembered, older⟩
      · exact Or.inl dead
      · have other : a.hash ≠ call.hash := fun same => first i a ati same isSucceeded
        refine Or.inr ⟨memory, ?_, older⟩
        exact ((Cache.lookup_set room).trans (if_neg other)).trans remembered
    · intro _
      exact Or.inr (guarded _)
  · intro i a ati j b atj same isCleared isSucceeded
    rcases lookup_insert_cases ati with ⟨rfl, rfl⟩ | ⟨other, oldi⟩
    · cases isCleared
    · rcases lookup_insert_cases atj with ⟨rfl, rfl⟩ | ⟨_, oldj⟩
      · -- both would be unanswered
        exact (other (inv.alone i a oldi j call found
          (ExecPC.not_isDone_of_isCleared isCleared) active)).elim
      · exact inv.cleared i a oldi j b oldj same isCleared isSucceeded
  · exact inv.once.insert found rfl fun _ => Or.inr first

/-- A goroutine that has just arrived, with no other one unanswered. -/
theorem arrived (inv : ReplaySafe crypto ls s) (fresh : call.pc = .checkInProgress)
    (answered : ∀ i a, s.calls.lookup i = some a → a.pc.isDone)
    (origin : call.hash = call.req.hash crypto ∧ call.req ∈ firstRequests ls) :
    ReplaySafe crypto ls (s.setCall id call) := by
  have idle : ∀ stage : ExecPC → Bool, stage .checkInProgress = false → ¬ stage call.pc := by
    intro stage off on
    rw [fresh, off] at on
    cases on
  refine ⟨?_, ?_, forall_lookup_insert inv.origin origin, forall_lookup_insert inv.generated ?_,
    forall_lookup_insert inv.spent fun isSucceeded => (idle _ rfl isSucceeded).elim, ?_, ?_⟩
  · exact ⟨inv.timed.1, inv.timed.2, inv.timed.3, inv.timed.4, inv.timed.5⟩
  · intro i a ati j b atj activeA activeB
    rcases lookup_insert_cases ati with ⟨rfl, rfl⟩ | ⟨_, oldi⟩
    · rcases lookup_insert_cases atj with ⟨rfl, _⟩ | ⟨_, oldj⟩
      · rfl
      · rw [answered j b oldj] at activeB
        cases activeB
    · rw [answered i a oldi] at activeA
      cases activeA
  · rintro (isKeyed | isSucceeded)
    · exact (idle _ rfl isKeyed).elim
    · exact (idle _ rfl isSucceeded).elim
  · intro i a ati j b atj same isCleared isSucceeded
    rcases lookup_insert_cases ati with ⟨rfl, rfl⟩ | ⟨_, oldi⟩
    · exact (idle _ rfl isCleared).elim
    · rcases lookup_insert_cases atj with ⟨rfl, rfl⟩ | ⟨_, oldj⟩
      · exact (idle _ rfl isSucceeded).elim
      · exact inv.cleared i a oldi j b oldj same isCleared isSucceeded
  · exact inv.once.insert_idle (idle _ rfl)

theorem callStep (inv : ReplaySafe crypto ls s)
    (collisionFree : crypto.CollisionFree (requestTexts ls))
    (found : s.calls.lookup id = some call)
    (room : call.pc.isRecording → s.executedReqs.HasRoom call.hash)
    (effect : CallEffect s s.clock id call s') : ReplaySafe crypto ls s' := by
  cases effect with
  | localMove move => exact inv.localMove collisionFree found move
  | markInProgress at_ =>
      have active : call.pc.isDone = false := by rw [at_]; rfl
      exact inv.quiet found rfl rfl rfl rfl rfl rfl active nofun nofun nofun
  | appReturned at_ =>
      exact inv.quiet_of_isKeyed found rfl rfl rfl rfl rfl rfl (by rw [at_]; rfl) nofun
  | attested at_ next =>
      refine inv.quiet_of_isKeyed found rfl rfl rfl rfl rfl rfl (by rw [at_]; rfl)
        fun isSucceeded => ?_
      rcases next with ⟨resp, rfl⟩ | ⟨reply, failed, rfl⟩
      · cases isSucceeded
      · exact ((ExecPC.not_isSucceeded_of_failed failed).1 isSucceeded).elim
  | markExecuted at_ => exact inv.markExecuted found at_ (room (by rw [at_]; rfl))
  | unmark at_ =>
      have active : call.pc.isDone = false := by rw [at_]; rfl
      refine inv.quiet found rfl rfl rfl rfl rfl rfl active nofun nofun fun isSucceeded => ?_
      rw [at_]
      exact ExecPC.isSucceeded_of_done isSucceeded

/-- **One step keeps the invariant.** -/
theorem step (inv : ReplaySafe p.toCrypto ls s) (fresh : (generatedKeys (ls ++ [l])).Nodup)
    (collisionFree : p.toCrypto.CollisionFree (requestTexts (ls ++ [l])))
    (apart : s.NoOverlap l) (fits : s.ExecutedFits l) (taken : s.step p l = some s') :
    ReplaySafe p.toCrypto (ls ++ [l]) s' := by
  obtain ⟨le, acted⟩ := EnclaveServer.step_eq_some taken
  have effect := EnclaveServer.act_exec acted
  have now : ReplaySafe p.toCrypto (ls ++ []) { s with clock := l.now } :=
    inv.advance rfl rfl rfl le
  rw [List.append_nil] at now
  have next : ReplaySafe p.toCrypto (ls ++ [l]) { s with clock := l.now } :=
    inv.advance rfl rfl rfl le
  generalize action : l.action = a at effect
  cases effect with
  | same same => exact now.advance same.calls same.executedReqs same.keychain same.clock.ge
  | @admitted id method req rest _ _ =>
      apply next.arrived rfl
      · apply apart
        unfold EnclaveLabel.isArrival
        rw [action]
      · refine ⟨rfl, ?_⟩
        simp [firstRequests, EnclaveLabel.firstRequest, action]
  | @call id input call _ found effect =>
      have caller : s.caller l = some call := (EnclaveServer.caller_eq action).trans found
      exact next.callStep collisionFree found (fits call caller) effect
  | keyPair =>
      refine inv.keyPair action ?_ le
      intro known
      unfold generatedKeys at fresh known
      rw [List.filterMap_append, List.nodup_append] at fresh
      refine fresh.2.2 _ known _ ?_ rfl
      simp [EnclaveLabel.generatedKey, action]
  | collectInProgress => exact now.advance rfl rfl rfl (Int.le_refl _)
  | collectExecuted => exact now.collectExecuted
  | collectKeypairs => exact now.collectKeypairs

theorem init {config : EnclaveConfig} {allowReconfig appConfigurable : Bool}
    {expiration start : Int} (short : expiration ≤ defaultKeypairExpiration) :
    ReplaySafe crypto [] (.newEnclaveServer config allowReconfig appConfigurable
      (.newBoxKeychain expiration) start) := by
  refine ⟨⟨rfl, short, Int.le_refl 0, ?_, ?_⟩, ?_, ?_, ?_, ?_, ?_, ?_⟩
  all_goals
    intro i a found
    cases found

end ReplaySafe

/-- **No replay.** In every run without overlapping requests, at most one execution of a
request hash ever succeeds, however long the run lasts. -/
theorem no_replay {config : EnclaveConfig} {allowReconfig appConfigurable : Bool}
    {expiration start : Int} {s₀ : EnclaveServer}
    (started : s₀ = .newEnclaveServer config allowReconfig appConfigurable
      (.newBoxKeychain expiration) start)
    (short : expiration ≤ defaultKeypairExpiration)
    (run : Run (EnclaveServer.step p) (fun s l => s.NoOverlap l ∧ s.ExecutedFits l) s₀ ls s)
    (fresh : (generatedKeys ls).Nodup)
    (collisionFree : p.toCrypto.CollisionFree (requestTexts ls)) :
    Exclusive s.calls ExecPC.isSucceeded := by
  suffices safe : ReplaySafe p.toCrypto ls s from safe.once
  subst started
  induction run with
  | nil => exact .init short
  | @snoc ls s s' l _ ok taken ih =>
      refine ReplaySafe.step (ih ?_ ?_) fresh collisionFree ok.1 ok.2 taken
      · unfold generatedKeys at *
        rw [List.filterMap_append] at fresh
        exact (List.nodup_append.mp fresh).1
      · rintro a ⟨req, member, rfl⟩ b ⟨req', member', rfl⟩
        exact collisionFree _ ⟨req, firstRequests_append [l] member, rfl⟩ _
          ⟨req', firstRequests_append [l] member', rfl⟩

/-- A request is executed at time 0, and its replay, 25 hours later, is served to the end. -/
def Sample.replayAfterADay : List EnclaveLabel :=
  [keyGenerated, arrival 0 0] ++ List.replicate 5 (proceed 0 0) ++
    [appReturns 0 0, attestorAnswers 0 0, proceed 0 0, proceed 0 0] ++
    [arrival (25 * hour) 1] ++ List.replicate 5 (proceed (25 * hour) 1)

section

open Sample

/-- A request is executed, and replayed when the memory of its execution has just gone. -/
theorem no_replay_after_a_day :
    ∃ ls s, Run (EnclaveServer.step platform) (fun s l => s.NoOverlap l ∧ s.ExecutedFits l)
        (server 0) ls s ∧
      (∃ call, s.calls.lookup 0 = some call ∧ call.pc.isSucceeded) ∧
      (∃ call, s.calls.lookup 1 = some call ∧ call.pc.isDone) ∧
      Exclusive s.calls ExecPC.isSucceeded := by
  have found : ∃ s, Run (EnclaveServer.step platform)
      (fun s l => s.NoOverlap l ∧ s.ExecutedFits l) (server 0) replayAfterADay s ∧
      (s.calls.lookup 0).any (fun call => call.pc.isSucceeded) ∧
      (s.calls.lookup 1).any (fun call => call.pc.isDone) := by
    apply Run.exists_of_exec
    decide +kernel
  obtain ⟨s, run, first, second⟩ := found
  refine ⟨_, s, run, (Option.any_eq_true _ _).mp first, (Option.any_eq_true _ _).mp second,
    no_replay rfl (Int.le_refl _) run (by decide +kernel) ?_⟩
  -- both batches carry the same request
  rintro a ⟨req, member, rfl⟩ b ⟨req', member', rfl⟩ _
  have only : ∀ r ∈ firstRequests replayAfterADay, r = signedRequest 1 := by
    decide +kernel
  rw [only req member, only req' member']

end

end ConfidentialCompute
