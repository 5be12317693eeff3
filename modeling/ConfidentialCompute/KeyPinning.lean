import ConfidentialCompute.KeyRequests
import ConfidentialCompute.Lib.Heap
import ConfidentialCompute.Sample

/-!
# The keypair of a request

`GetKeyPairForRequest` maps a request ID to a keypair and is to return the same one from then
on. A call, or the sweep after a rotation, that has found a mapping without a keypair deletes
the mapping of the request ID; by then another one may stand there.
-/

namespace ConfidentialCompute

open Go Runs

/-! ## Assumptions on a step -/

/-- The keypair that a mapping leads to at the moment. -/
def BoxKeychain.liveKeypair (skc : BoxKeychain) (now : Int) (requestID : Bytes32) :
    Option BoxKeypair :=
  (skc.requestKeyMap.get now requestID).bind (skc.keypairCache.get now)

def KeyRequestPC.isDeleting : KeyRequestPC → Bool
  | .deleting => true
  | _ => false

def KeyRequestPC.isStoring : KeyRequestPC → Bool
  | .storing _ => true
  | _ => false

namespace PinningState

/-- The request ID whose mapping the step deletes. -/
def deletes (s : PinningState) : PinningAction → Option Bytes32
  | .proceed id => (s.calls[id]?).bind fun call =>
      if call.pc.isDeleting then some call.requestID else none
  | .sweep =>
      match s.rotation with
      | .deleting requestID _ => some requestID
      | _ => none
  | _ => none

/-- The request ID for which the step may store a mapping. -/
def stores (s : PinningState) : PinningAction → Option Bytes32
  | .proceed id => (s.calls[id]?).bind fun call =>
      if call.pc.isStoring then some call.requestID else none
  | _ => none

/-- A mapping is deleted only while it leads to no keypair. -/
def DeletesDead (s : PinningState) (l : PinningLabel) : Prop :=
  ∀ requestID ∈ s.deletes l.action, s.keychain.liveKeypair l.now requestID = none

/-- No mapping is evicted because of the cap. -/
def NoEviction (s : PinningState) (l : PinningLabel) : Prop :=
  ∀ requestID ∈ s.stores l.action, s.keychain.requestKeyMap.HasRoom requestID

end PinningState

def PinningAction.generates : PinningAction → Option Bytes32
  | .rotate _ publicKey _ => some publicKey
  | _ => none

namespace PinningState

/-- `box.GenerateKey` does not generate the same key twice. -/
def FreshKey (s : PinningState) (l : PinningLabel) : Prop :=
  ∀ publicKey ∈ l.action.generates, ∀ kp ∈ s.generated, kp.publicKey ≠ publicKey

/-- What the statement takes for granted. -/
def Regular (s : PinningState) (l : PinningLabel) : Prop := s.NoEviction l ∧ s.FreshKey l

instance (s : PinningState) (l : PinningLabel) : Decidable (s.DeletesDead l) :=
  inferInstanceAs (Decidable (∀ requestID ∈ s.deletes l.action, _))

instance (s : PinningState) (l : PinningLabel) : Decidable (s.Regular l) :=
  have : Decidable (s.NoEviction l) :=
    inferInstanceAs (Decidable (∀ requestID ∈ s.stores l.action, _))
  have : Decidable (s.FreshKey l) :=
    inferInstanceAs (Decidable (∀ publicKey ∈ l.action.generates, ∀ kp ∈ s.generated, _))
  inferInstanceAs (Decidable (_ ∧ _))

end PinningState

/-! ## What every step keeps -/

/-- The keypair has not expired; `Decrypt` looks at the same fields. -/
def BoxKeypair.Alive (kp : BoxKeypair) (now : Int) : Prop := now ≤ kp.creationTime + kp.ttl

instance (kp : BoxKeypair) (now : Int) : Decidable (kp.Alive now) :=
  inferInstanceAs (Decidable (_ ≤ _))

theorem BoxKeypair.Alive.earlier {kp : BoxKeypair} {now later : Int} (alive : kp.Alive later)
    (le : now ≤ later) : kp.Alive now := Int.le_trans le alive

/-- While the keypair is alive and the lifetime of the mapping has not passed, the mapping that
the call has found or stored stands. -/
def KeyRequest.Holds (ttl : Int) (s : PinningState) (call : KeyRequest) (kp : BoxKeypair) : Prop :=
  ∃ storedAt, call.storedAt = some storedAt ∧
    (kp.Alive s.clock → s.clock ≤ storedAt + ttl →
      s.keychain.requestKeyMap.items.lookup call.requestID = some ⟨kp.publicKey, storedAt, ttl⟩)

def KeyRequest.Pinned (ttl : Int) (s : PinningState) (call : KeyRequest) : Prop :=
  match call.pc with
  | .mapped keyID => ∃ kp ∈ s.generated, kp.publicKey = keyID ∧ call.Holds ttl s kp
  | .reading _ keypairs => ∀ kp ∈ keypairs, kp ∈ s.generated
  | .storing newest => newest ∈ s.generated
  | .done (.ok kp) => kp ∈ s.generated ∧ call.Holds ttl s kp
  | _ => True

/-- `ttl` is the lifetime of mappings. -/
structure Pinned (ttl : Int) (s : PinningState) : Prop where
  unbounded : s.keychain.keypairCache.maxEntries ≤ 0
  expiration : s.keychain.keypairCache.timeToLive = s.keychain.expiration
  lifetime : s.keychain.requestKeyMap.timeToLive = ttl
  distinct : ∀ kp ∈ s.generated, ∀ kp' ∈ s.generated, kp.publicKey = kp'.publicKey → kp = kp'
  kept : ∀ kp ∈ s.generated, kp.Alive s.clock → ∃ item,
    s.keychain.keypairCache.items.lookup kp.publicKey = some item ∧ item.value = kp ∧
      kp.creationTime ≤ item.creationTime ∧ item.timeToLive = kp.ttl
  cached : ∀ key item, s.keychain.keypairCache.items.lookup key = some item →
    item.value ∈ s.generated ∧ item.value.publicKey = key
  mappings : ∀ requestID item, s.keychain.requestKeyMap.items.lookup requestID = some item →
    item.timeToLive = ttl ∧ ∃ kp ∈ s.generated, kp.publicKey = item.value
  calls : ∀ (id : Nat) (call : KeyRequest), s.calls[id]? = some call → call.Pinned ttl s

/-- The live mappings of `s` stand in `s'`. -/
structure KeepsLive (ttl : Int) (s s' : PinningState) : Prop where
  later : s.clock ≤ s'.clock
  generated : ∀ kp ∈ s.generated, kp ∈ s'.generated
  live : ∀ requestID kp storedAt, kp ∈ s.generated → kp.Alive s'.clock →
    s'.clock ≤ storedAt + ttl →
    s.keychain.requestKeyMap.items.lookup requestID = some ⟨kp.publicKey, storedAt, ttl⟩ →
    s'.keychain.requestKeyMap.items.lookup requestID = some ⟨kp.publicKey, storedAt, ttl⟩

section

variable {ttl : Int} {s s' : PinningState} {call : KeyRequest} {kp : BoxKeypair} {now : Int}

theorem KeyRequest.Holds.frame (keeps : KeepsLive ttl s s') (member : kp ∈ s.generated)
    (holds : call.Holds ttl s kp) : call.Holds ttl s' kp := by
  obtain ⟨storedAt, isStored, stands⟩ := holds
  refine ⟨storedAt, isStored, fun alive inTime => ?_⟩
  exact keeps.live _ _ _ member alive inTime
    (stands (alive.earlier keeps.later) (Int.le_trans keeps.later inTime))

theorem KeyRequest.Pinned.frame (keeps : KeepsLive ttl s s') (pinned : call.Pinned ttl s) :
    call.Pinned ttl s' := by
  unfold KeyRequest.Pinned at pinned ⊢
  split
  · rename_i keyID at_
    rw [at_] at pinned
    obtain ⟨kp, member, isKey, holds⟩ := pinned
    exact ⟨kp, keeps.generated kp member, isKey, holds.frame keeps member⟩
  · rename_i at_
    rw [at_] at pinned
    exact fun kp among => keeps.generated kp (pinned kp among)
  · rename_i at_
    rw [at_] at pinned
    exact keeps.generated _ pinned
  · rename_i at_
    rw [at_] at pinned
    exact ⟨keeps.generated _ pinned.1, pinned.2.frame keeps pinned.1⟩
  · trivial

theorem Pinned.get (inv : Pinned ttl s) (member : kp ∈ s.generated) (alive : kp.Alive now)
    (later : s.clock ≤ now) : s.keychain.keypairCache.get now kp.publicKey = some kp := by
  obtain ⟨item, found, isValue, created, isTTL⟩ := inv.kept kp member (alive.earlier later)
  refine Cache.get_eq_some_iff.mpr ⟨item, found, ?_, isValue⟩
  unfold BoxKeypair.Alive at alive
  unfold CacheItem.Expired
  omega

/-- A mapping whose lifetime has not passed is found. -/
theorem get_mapping {requestID keyID : Bytes32} {storedAt : Int} {skc : BoxKeychain}
    (found : skc.requestKeyMap.items.lookup requestID = some ⟨keyID, storedAt, ttl⟩)
    (inTime : now ≤ storedAt + ttl) : skc.requestKeyMap.get now requestID = some keyID := by
  refine Cache.get_eq_some_iff.mpr ⟨_, found, ?_, rfl⟩
  unfold CacheItem.Expired
  dsimp only
  omega

theorem Pinned.holds_of_get (inv : Pinned ttl s) {requestID keyID : Bytes32}
    (got : s.keychain.requestKeyMap.get now requestID = some keyID) :
    ∃ kp ∈ s.generated, kp.publicKey = keyID ∧ ∃ storedAt,
      s.keychain.mappedAt requestID = some storedAt ∧
      s.keychain.requestKeyMap.items.lookup requestID = some ⟨kp.publicKey, storedAt, ttl⟩ := by
  obtain ⟨item, found, _, rfl⟩ := Cache.get_eq_some_iff.mp got
  obtain ⟨isTTL, kp, member, isKey⟩ := inv.mappings requestID item found
  refine ⟨kp, member, isKey, item.creationTime, ?_, ?_⟩
  · unfold BoxKeychain.mappedAt
    rw [found]
    rfl
  · rw [found, isKey, ← isTTL]

theorem Pinned.keepsLive_delete (inv : Pinned ttl s) {requestID : Bytes32}
    (dead : s.keychain.liveKeypair s.clock requestID = none)
    (later : s'.clock = s.clock) (generated : s'.generated = s.generated)
    (deleted : s'.keychain.requestKeyMap = s.keychain.requestKeyMap.delete requestID) :
    KeepsLive ttl s s' where
  later := later ▸ Int.le_refl _
  generated kp member := generated ▸ member
  live requestID' kp storedAt member alive inTime found := by
    rw [deleted, Cache.lookup_delete]
    split
    · rename_i same
      subst same
      rw [later] at alive inTime
      unfold BoxKeychain.liveKeypair at dead
      rw [get_mapping found inTime, Option.bind_some,
        inv.get member alive (Int.le_refl _)] at dead
      cases dead
    · exact found

theorem Pinned.map_step (inv : Pinned ttl s) (keeps : KeepsLive ttl s s')
    (clock : s'.clock = s.clock) (generated : s'.generated = s.generated)
    (keypairs : s'.keychain.keypairCache = s.keychain.keypairCache)
    (expiration : s'.keychain.expiration = s.keychain.expiration)
    (lifetime : s'.keychain.requestKeyMap.timeToLive = ttl)
    (mappings : ∀ requestID item, s'.keychain.requestKeyMap.items.lookup requestID = some item →
      s.keychain.requestKeyMap.items.lookup requestID = some item ∨
        item.timeToLive = ttl ∧ ∃ kp ∈ s.generated, kp.publicKey = item.value)
    (calls : ∀ (id : Nat) (call : KeyRequest), s'.calls[id]? = some call →
      call.Pinned ttl s ∨ call.Pinned ttl s') : Pinned ttl s' where
  unbounded := keypairs ▸ inv.unbounded
  expiration := by rw [keypairs, expiration, inv.expiration]
  lifetime := lifetime
  distinct := generated ▸ inv.distinct
  kept := by
    rw [generated, clock, keypairs]
    exact inv.kept
  cached := by
    rw [generated, keypairs]
    exact inv.cached
  mappings requestID item found := by
    rw [generated]
    rcases mappings requestID item found with old | new
    · exact inv.mappings requestID item old
    · exact new
  calls id call found := by
    rcases calls id call found with old | new
    · exact old.frame keeps
    · exact new

theorem KeepsLive.refl (ttl : Int) {s s' : PinningState} (clock : s'.clock = s.clock)
    (generated : s'.generated = s.generated)
    (map : s'.keychain.requestKeyMap = s.keychain.requestKeyMap) : KeepsLive ttl s s' where
  later := clock ▸ Int.le_refl _
  generated _ member := generated ▸ member
  live _ _ _ _ _ _ found := map ▸ found

theorem Pinned.call_step (inv : Pinned ttl s) {id : Nat} {call' : KeyRequest}
    (pinned : call'.Pinned ttl s) :
    Pinned ttl { s with calls := s.calls.modify id fun _ => call' } := by
  refine inv.map_step (.refl ttl rfl rfl rfl) rfl rfl rfl rfl inv.lifetime
    (fun _ _ found => Or.inl found) ?_
  exact Heap.forall_modify (fun id call found => Or.inl (inv.calls id call found))
    fun _ _ => Or.inl pinned

/-- A mapping that leads to no keypair is deleted. -/
theorem Pinned.delete_step (inv : Pinned ttl s) {requestID : Bytes32}
    (dead : s.keychain.liveKeypair s.clock requestID = none)
    (clock : s'.clock = s.clock) (generated : s'.generated = s.generated)
    (keychain : s'.keychain =
      { s.keychain with requestKeyMap := s.keychain.requestKeyMap.delete requestID })
    (calls : ∀ (id : Nat) (call : KeyRequest), s'.calls[id]? = some call →
      call.Pinned ttl s ∨ call.Pinned ttl s') : Pinned ttl s' := by
  have keeps : KeepsLive ttl s s' :=
    inv.keepsLive_delete dead clock generated (by rw [keychain])
  refine inv.map_step keeps clock generated (by rw [keychain]) (by rw [keychain]) ?_ ?_ calls
  · rw [keychain]
    exact inv.lifetime
  · intro requestID' item found
    rw [keychain, Cache.lookup_delete] at found
    split at found
    · cases found
    · exact Or.inl found

theorem Pinned.store_step (inv : Pinned ttl s) {id : Nat} {newest : BoxKeypair}
    (room : s.keychain.requestKeyMap.HasRoom call.requestID)
    (missing : s.keychain.requestKeyMap.get s.clock call.requestID = none)
    (member : newest ∈ s.generated) :
    Pinned ttl { s with
      keychain := { s.keychain with
        requestKeyMap := s.keychain.requestKeyMap.set s.clock call.requestID newest.publicKey none }
      calls := s.calls.modify id fun _ =>
        { call with pc := .done (.ok newest), storedAt := some s.clock } } := by
  have lookup : ∀ requestID, (s.keychain.requestKeyMap.set s.clock call.requestID newest.publicKey
      none).items.lookup requestID = if requestID = call.requestID then
        some ⟨newest.publicKey, s.clock, ttl⟩
      else s.keychain.requestKeyMap.items.lookup requestID := by
    intro requestID
    rw [Cache.lookup_set room, Option.getD_none, inv.lifetime]
  refine inv.map_step ⟨Int.le_refl _, fun _ member => member, ?_⟩ rfl rfl rfl rfl ?_ ?_ ?_
  · intro requestID kp storedAt _ _ inTime found
    rw [lookup]
    split
    · rename_i same
      rw [same] at found
      cases missing.symm.trans (get_mapping found inTime)
    · exact found
  · exact Cache.timeToLive_set.trans inv.lifetime
  · intro requestID item found
    rw [lookup] at found
    split at found
    · cases found
      exact Or.inr ⟨rfl, newest, member, rfl⟩
    · exact Or.inl found
  · refine Heap.forall_modify (fun id call found => Or.inl (inv.calls id call found))
      fun _ _ => Or.inr ⟨member, s.clock, rfl, fun _ _ => ?_⟩
    rw [lookup, if_pos rfl]

/-- The loop keeps what it started with or has moved on to an element. -/
theorem mem_of_foldl_newer {keypairs : List BoxKeypair} {start : Option BoxKeypair}
    (ends : keypairs.foldl newerKeypair start = some kp) : kp ∈ keypairs ∨ start = some kp := by
  induction keypairs generalizing start with
  | nil => exact Or.inr ends
  | cons first rest ih =>
      rcases ih ends with later | ends
      · exact Or.inl (List.mem_cons_of_mem _ later)
      · unfold newerKeypair at ends
        split at ends
        · cases ends
          exact Or.inl List.mem_cons_self
        · split at ends
          · cases ends
            exact Or.inl List.mem_cons_self
          · exact Or.inr ends

theorem mem_of_newestKeypair {keypairs : List BoxKeypair}
    (isNewest : newestKeypair keypairs = some kp) : kp ∈ keypairs := by
  rcases mem_of_foldl_newer isNewest with among | ends
  · exact among
  · cases ends

theorem Pinned.proceed (inv : Pinned ttl s) {id : Nat} (found : s.calls[id]? = some call)
    {keychain : BoxKeychain} {call' : KeyRequest}
    (dead : call.pc.isDeleting = true → s.keychain.liveKeypair s.clock call.requestID = none)
    (room : call.pc.isStoring = true → s.keychain.requestKeyMap.HasRoom call.requestID)
    (moved : call.proceed s.keychain s.clock = some (keychain, call')) :
    Pinned ttl { s with keychain := keychain, calls := s.calls.modify id fun _ => call' } := by
  have pinned := inv.calls id call found
  unfold KeyRequest.Pinned at pinned
  unfold KeyRequest.proceed at moved
  cases at_ : call.pc with
  | lookup =>
      simp only [at_] at moved
      split at moved
      · rename_i keyID got
        obtain ⟨rfl, rfl⟩ := Prod.mk.inj (Option.some.inj moved)
        obtain ⟨kp, member, isKey, storedAt, isStored, stands⟩ := inv.holds_of_get got
        exact inv.call_step ⟨kp, member, isKey, storedAt, isStored, fun _ _ => stands⟩
      · obtain ⟨rfl, rfl⟩ := Prod.mk.inj (Option.some.inj moved)
        exact inv.call_step trivial
  | mapped keyID =>
      simp only [at_] at moved pinned
      split at moved
      · rename_i kp got
        obtain ⟨rfl, rfl⟩ := Prod.mk.inj (Option.some.inj moved)
        obtain ⟨mappedKp, member, isKey, holds⟩ := pinned
        obtain ⟨item, isItem, _, isValue⟩ := Cache.get_eq_some_iff.mp got
        obtain ⟨member', isKey'⟩ := inv.cached keyID item isItem
        rw [isValue] at member' isKey'
        have same : kp = mappedKp :=
          inv.distinct kp member' mappedKp member (isKey'.trans isKey.symm)
        rw [same]
        exact inv.call_step ⟨member, holds⟩
      · obtain ⟨rfl, rfl⟩ := Prod.mk.inj (Option.some.inj moved)
        exact inv.call_step trivial
  | deleting =>
      simp only [at_] at moved
      obtain ⟨rfl, rfl⟩ := Prod.mk.inj (Option.some.inj moved)
      refine inv.delete_step (dead (by rw [at_]; rfl)) rfl rfl rfl ?_
      exact Heap.forall_modify (fun id call found => Or.inl (inv.calls id call found))
        fun _ _ => Or.inl trivial
  | listing =>
      simp only [at_] at moved
      obtain ⟨rfl, rfl⟩ := Prod.mk.inj (Option.some.inj moved)
      exact inv.call_step fun kp among => absurd among List.not_mem_nil
  | reading todo keypairs =>
      cases todo with
      | nil =>
          simp only [at_] at moved pinned
          split at moved
          · obtain ⟨rfl, rfl⟩ := Prod.mk.inj (Option.some.inj moved)
            exact inv.call_step trivial
          · rename_i newest isNewest
            obtain ⟨rfl, rfl⟩ := Prod.mk.inj (Option.some.inj moved)
            exact inv.call_step (pinned newest (mem_of_newestKeypair isNewest))
      | cons key todo =>
          simp only [at_] at moved pinned
          obtain ⟨rfl, rfl⟩ := Prod.mk.inj (Option.some.inj moved)
          refine inv.call_step fun kp among => ?_
          rcases List.mem_append.mp among with old | new
          · exact pinned kp old
          · obtain ⟨item, isItem, _, rfl⟩ :=
              Cache.get_eq_some_iff.mp (Option.mem_toList.mp new)
            exact (inv.cached key item isItem).1
  | storing newest =>
      simp only [at_] at moved pinned
      unfold Cache.getOrSet at moved
      cases got : s.keychain.requestKeyMap.get s.clock call.requestID with
      | some keyID =>
          simp only [got] at moved
          obtain ⟨rfl, rfl⟩ := Prod.mk.inj (Option.some.inj moved)
          obtain ⟨kp, member, isKey, storedAt, isStored, stands⟩ := inv.holds_of_get got
          exact inv.call_step ⟨kp, member, isKey, storedAt, isStored, fun _ _ => stands⟩
      | none =>
          simp only [got] at moved
          obtain ⟨rfl, rfl⟩ := Prod.mk.inj (Option.some.inj moved)
          exact inv.store_step (room (by rw [at_]; rfl)) got pinned
  | done result =>
      simp only [at_] at moved
      cases moved

theorem Pinned.sweep (inv : Pinned ttl s) {keychain : BoxKeychain} {rotation : RotationPC}
    (dead : ∀ requestID todo, s.rotation = .deleting requestID todo →
      s.keychain.liveKeypair s.clock requestID = none)
    (moved : s.rotation.proceed s.keychain s.clock = some (keychain, rotation)) :
    Pinned ttl { s with keychain := keychain, rotation := rotation } := by
  have quiet : ∀ rotation', Pinned ttl { s with rotation := rotation' } := fun rotation' =>
    inv.map_step (.refl ttl rfl rfl rfl) rfl rfl rfl rfl inv.lifetime
      (fun _ _ found => Or.inl found) fun id call found => Or.inl (inv.calls id call found)
  unfold RotationPC.proceed at moved
  split at moved
  · cases moved
  · cases moved
  · obtain ⟨rfl, rfl⟩ := Prod.mk.inj (Option.some.inj moved)
    exact quiet _
  · obtain ⟨rfl, rfl⟩ := Prod.mk.inj (Option.some.inj moved)
    exact quiet _
  · split at moved <;> obtain ⟨rfl, rfl⟩ := Prod.mk.inj (Option.some.inj moved) <;> exact quiet _
  · split at moved <;> obtain ⟨rfl, rfl⟩ := Prod.mk.inj (Option.some.inj moved) <;> exact quiet _
  · rename_i requestID todo at_
    obtain ⟨rfl, rfl⟩ := Prod.mk.inj (Option.some.inj moved)
    exact inv.delete_step (dead requestID todo at_) rfl rfl rfl
      fun id call found => Or.inl (inv.calls id call found)

/-- A keypair that was never generated before is created. -/
theorem Pinned.rotate (inv : Pinned ttl s) {generatedAt : Int} {publicKey privateKey : Bytes32}
    {rotation : RotationPC} (fresh : ∀ kp ∈ s.generated, kp.publicKey ≠ publicKey)
    (before : generatedAt ≤ s.clock) :
    Pinned ttl { s with
      keychain := s.keychain.createKeyPair generatedAt s.clock publicKey privateKey
      rotation := rotation
      generated := s.generated ++ [⟨publicKey, privateKey, s.keychain.expiration, generatedAt⟩] } := by
  have lookup := fun key => @BoxKeychain.lookup_createKeyPair s.keychain generatedAt s.clock key
    publicKey privateKey inv.unbounded
  have keeps : KeepsLive ttl s { s with
      keychain := s.keychain.createKeyPair generatedAt s.clock publicKey privateKey
      rotation := rotation
      generated :=
        s.generated ++ [⟨publicKey, privateKey, s.keychain.expiration, generatedAt⟩] } :=
    ⟨Int.le_refl _, fun _ member => List.mem_append_left _ member, fun _ _ _ _ _ _ found => found⟩
  refine ⟨?_, ?_, inv.lifetime, ?_, ?_, ?_, ?_, ?_⟩
  · exact (Cache.maxEntries_set (c := s.keychain.keypairCache)).trans_le inv.unbounded
  · exact Cache.timeToLive_set.trans inv.expiration
  · intro kp member kp' member' same
    rcases List.mem_append.mp member with old | new <;>
      rcases List.mem_append.mp member' with old' | new'
    · exact inv.distinct kp old kp' old' same
    · rw [List.mem_singleton.mp new'] at same
      exact (fresh kp old same).elim
    · rw [List.mem_singleton.mp new] at same
      exact (fresh kp' old' same.symm).elim
    · rw [List.mem_singleton.mp new, List.mem_singleton.mp new']
  · intro kp member alive
    dsimp only
    rw [lookup]
    rcases List.mem_append.mp member with old | new
    · rw [if_neg (fresh kp old)]
      exact inv.kept kp old alive
    · rw [List.mem_singleton.mp new, if_pos rfl]
      exact ⟨_, rfl, rfl, before, inv.expiration⟩
  · intro key item found
    dsimp only at found
    rw [lookup] at found
    split at found
    · rename_i same
      cases found
      exact ⟨List.mem_append_right _ List.mem_cons_self, same.symm⟩
    · obtain ⟨member, isKey⟩ := inv.cached key item found
      exact ⟨List.mem_append_left _ member, isKey⟩
  · intro requestID item found
    obtain ⟨isTTL, kp, member, isKey⟩ := inv.mappings requestID item found
    exact ⟨isTTL, kp, List.mem_append_left _ member, isKey⟩
  · intro id call found
    exact (inv.calls id call found).frame keeps

theorem Pinned.collectKeypairs (inv : Pinned ttl s) :
    Pinned ttl { s with keychain := { s.keychain with
      keypairCache := (s.keychain.keypairCache.garbageCollect s.clock).1 } } := by
  refine ⟨inv.unbounded, inv.expiration, inv.lifetime, inv.distinct, ?_, ?_, inv.mappings, ?_⟩
  · intro kp member alive
    obtain ⟨item, found, isValue, created, isTTL⟩ := inv.kept kp member alive
    rcases Cache.lookup_garbageCollect s.keychain.keypairCache s.clock kp.publicKey with
      kept | ⟨_, item', found', expired⟩
    · exact ⟨item, kept.trans found, isValue, created, isTTL⟩
    · cases found.symm.trans found'
      unfold BoxKeypair.Alive at alive
      unfold CacheItem.Expired at expired
      dsimp only at alive
      omega
  · intro key item found
    exact inv.cached key item (Cache.lookup_of_garbageCollect found)
  · intro id call found
    exact (inv.calls id call found).frame (.refl ttl rfl rfl rfl)

theorem Pinned.collectMappings (inv : Pinned ttl s) :
    Pinned ttl { s with keychain := { s.keychain with
      requestKeyMap := (s.keychain.requestKeyMap.garbageCollect s.clock).1 } } := by
  refine inv.map_step ⟨Int.le_refl _, fun _ member => member, ?_⟩ rfl rfl rfl rfl inv.lifetime ?_
    fun id call found => Or.inl (inv.calls id call found)
  · intro requestID kp storedAt _ _ inTime found
    rcases Cache.lookup_garbageCollect s.keychain.requestKeyMap s.clock requestID with
      kept | ⟨_, item, found', expired⟩
    · exact kept.trans found
    · cases found.symm.trans found'
      unfold CacheItem.Expired at expired
      dsimp only at expired inTime
      omega
  · exact fun requestID item found => Or.inl (Cache.lookup_of_garbageCollect found)

theorem Pinned.tick (inv : Pinned ttl s) (later : s.clock ≤ now) :
    Pinned ttl { s with clock := now } := by
  refine ⟨inv.unbounded, inv.expiration, inv.lifetime, inv.distinct, ?_, inv.cached,
    inv.mappings, ?_⟩
  · exact fun kp member alive => inv.kept kp member (alive.earlier later)
  · exact fun id call found => (inv.calls id call found).frame
      ⟨later, fun _ member => member, fun _ _ _ _ _ _ found => found⟩

theorem Pinned.init (expiration ttl maxEntries start : Int) :
    Pinned ttl (.init expiration ttl maxEntries start) where
  unbounded := Int.le_refl 0
  expiration := rfl
  lifetime := rfl
  distinct _ member := absurd member List.not_mem_nil
  kept _ member := absurd member List.not_mem_nil
  cached key item found := by
    cases (Finmap.lookup_empty key).symm.trans found
  mappings requestID item found := by
    cases (Finmap.lookup_empty requestID).symm.trans found
  calls id call found := by cases found

theorem Pinned.step {l : PinningLabel} (inv : Pinned ttl s) (dead : s.DeletesDead l)
    (regular : s.Regular l) (taken : s.step l = some s') : Pinned ttl s' := by
  unfold PinningState.step at taken
  split at taken
  · rename_i later
    have inv := inv.tick later
    obtain ⟨now, action⟩ := l
    obtain ⟨room, fresh⟩ := regular
    dsimp only at later inv taken
    cases action with
    | start requestID =>
        cases taken
        refine inv.map_step (.refl ttl rfl rfl rfl) rfl rfl rfl rfl inv.lifetime
          (fun _ _ found => Or.inl found) ?_
        exact Heap.forall_alloc (fun id call found => Or.inl (inv.calls id call found))
          (Or.inl trivial)
    | proceed id =>
        obtain ⟨call, found, taken⟩ := Option.bind_eq_some_iff.mp taken
        obtain ⟨⟨keychain, call'⟩, moved, taken⟩ := Option.bind_eq_some_iff.mp taken
        cases taken
        have found' : s.calls[id]? = some call := found
        refine inv.proceed found (fun isDeleting => dead call.requestID ?_)
          (fun isStoring => room call.requestID ?_) moved
        · show call.requestID ∈ (s.calls[id]?).bind _
          rw [found', Option.bind_some, if_pos isDeleting]
          rfl
        · show call.requestID ∈ (s.calls[id]?).bind _
          rw [found', Option.bind_some, if_pos isStoring]
          rfl
    | rotate generatedAt publicKey privateKey =>
        obtain ⟨rotation, _, taken⟩ := Option.bind_eq_some_iff.mp taken
        split at taken
        · rename_i before
          cases taken
          exact inv.rotate (fresh publicKey rfl) before
        · cases taken
    | sweep =>
        obtain ⟨⟨keychain, rotation⟩, moved, taken⟩ := Option.bind_eq_some_iff.mp taken
        cases taken
        refine inv.sweep (fun requestID todo at_ => dead requestID ?_) moved
        have at_ : s.rotation = .deleting requestID todo := at_
        unfold PinningState.deletes
        simp only [at_]
        rfl
    | collectKeypairs =>
        cases taken
        exact inv.collectKeypairs
    | collectMappings =>
        cases taken
        exact inv.collectMappings
  · cases taken

/-! ## Later calls -/

/-- What a step does to the calls: one is started, or one makes an access, or none moves. -/
theorem calls_step {l : PinningLabel} (taken : s.step l = some s') :
    s.clock ≤ l.now ∧ s'.clock = l.now ∧
      ((∃ requestID, s'.calls = s.calls ++ [⟨requestID, .lookup, none⟩]) ∨
        (∃ id call keychain call', s.calls[id]? = some call ∧
          call.proceed s.keychain l.now = some (keychain, call') ∧
          s'.calls = s.calls.modify id fun _ => call') ∨
        s'.calls = s.calls) := by
  unfold PinningState.step at taken
  split at taken
  · rename_i later
    refine ⟨later, ?_⟩
    obtain ⟨now, action⟩ := l
    cases action with
    | start requestID =>
        cases taken
        exact ⟨rfl, Or.inl ⟨requestID, rfl⟩⟩
    | proceed id =>
        obtain ⟨call, found, taken⟩ := Option.bind_eq_some_iff.mp taken
        obtain ⟨⟨keychain, call'⟩, moved, taken⟩ := Option.bind_eq_some_iff.mp taken
        cases taken
        exact ⟨rfl, Or.inr (Or.inl ⟨id, call, keychain, call', found, moved, rfl⟩)⟩
    | rotate generatedAt publicKey privateKey =>
        obtain ⟨rotation, _, taken⟩ := Option.bind_eq_some_iff.mp taken
        split at taken
        · cases taken
          exact ⟨rfl, Or.inr (Or.inr rfl)⟩
        · cases taken
    | sweep =>
        obtain ⟨⟨keychain, rotation⟩, _, taken⟩ := Option.bind_eq_some_iff.mp taken
        cases taken
        exact ⟨rfl, Or.inr (Or.inr rfl)⟩
    | collectKeypairs =>
        cases taken
        exact ⟨rfl, Or.inr (Or.inr rfl)⟩
    | collectMappings =>
        cases taken
        exact ⟨rfl, Or.inr (Or.inr rfl)⟩
  · cases taken

theorem requestID_proceed {skc keychain : BoxKeychain} {call' : KeyRequest}
    (moved : call.proceed skc now = some (keychain, call')) :
    call'.requestID = call.requestID := by
  unfold KeyRequest.proceed at moved
  repeat' split at moved
  all_goals cases moved
  all_goals rfl

/-- The first call has returned `kp`, and the calls numbered from `n` on have not strayed from
it. -/
structure Follows (ttl storedAt : Int) (a n : Nat) (first : KeyRequest) (kp : BoxKeypair)
    (s : PinningState) : Prop where
  pinned : Pinned ttl s
  returned : s.calls[a]? = some first
  later : ∀ (b : Nat) (call : KeyRequest), n ≤ b → s.calls[b]? = some call →
    call.requestID = first.requestID → kp.Alive s.clock → s.clock ≤ storedAt + ttl →
    call.pc = .lookup ∨ call.pc = .mapped kp.publicKey ∨ call.pc = .done (.ok kp)

/-- A later call goes from the mapping to the keypair. -/
theorem Follows.proceed {storedAt : Int} {a n : Nat} {first : KeyRequest}
    (inv : Follows ttl storedAt a n first kp s) (returned : first.pc = .done (.ok kp))
    (isStored : first.storedAt = some storedAt) (later : s.clock ≤ now) (alive : kp.Alive now)
    (inTime : now ≤ storedAt + ttl) (same : call.requestID = first.requestID)
    (at_ : call.pc = .lookup ∨ call.pc = .mapped kp.publicKey ∨ call.pc = .done (.ok kp))
    {keychain : BoxKeychain} {call' : KeyRequest}
    (moved : call.proceed s.keychain now = some (keychain, call')) :
    call'.pc = .lookup ∨ call'.pc = .mapped kp.publicKey ∨ call'.pc = .done (.ok kp) := by
  have holds := inv.pinned.calls a first inv.returned
  unfold KeyRequest.Pinned at holds
  rw [returned] at holds
  obtain ⟨member, storedAt', isStored', stands⟩ := holds
  cases isStored.symm.trans isStored'
  have mapping : s.keychain.requestKeyMap.items.lookup call.requestID =
      some ⟨kp.publicKey, storedAt, ttl⟩ := by
    rw [same]
    exact stands (alive.earlier later) (Int.le_trans later inTime)
  unfold KeyRequest.proceed at moved
  rcases at_ with at_ | at_ | at_
  · simp only [at_, get_mapping mapping inTime] at moved
    obtain ⟨rfl, rfl⟩ := Prod.mk.inj (Option.some.inj moved)
    exact Or.inr (Or.inl rfl)
  · simp only [at_, inv.pinned.get member alive later] at moved
    obtain ⟨rfl, rfl⟩ := Prod.mk.inj (Option.some.inj moved)
    exact Or.inr (Or.inr rfl)
  · simp only [at_] at moved
    cases moved

theorem Follows.step {storedAt : Int} {a n : Nat} {first : KeyRequest} {l : PinningLabel}
    (inv : Follows ttl storedAt a n first kp s) (returned : first.pc = .done (.ok kp))
    (isStored : first.storedAt = some storedAt) (dead : s.DeletesDead l)
    (regular : s.Regular l) (taken : s.step l = some s') :
    Follows ttl storedAt a n first kp s' := by
  obtain ⟨later, clock, calls⟩ := calls_step taken
  refine ⟨inv.pinned.step dead regular taken, ?_, ?_⟩
  · rcases calls with ⟨requestID, calls⟩ | ⟨id, call, keychain, call', found, moved, calls⟩ | calls
    · rw [calls, Heap.getElem?_alloc, if_neg (Nat.ne_of_lt (Heap.lt_of_getElem? inv.returned)),
        inv.returned]
    · rw [calls, Heap.getElem?_modify_of found, if_neg, inv.returned]
      intro same
      subst same
      cases inv.returned.symm.trans found
      unfold KeyRequest.proceed at moved
      simp only [returned] at moved
      cases moved
    · rw [calls, inv.returned]
  · rw [clock]
    intro b call' isLater found' same alive inTime
    have old := fun call found sameID => inv.later b call isLater found sameID
      (alive.earlier later) (Int.le_trans later inTime)
    rcases calls with ⟨requestID, calls⟩ | ⟨id, call, keychain, next, found, moved, calls⟩ | calls
    · rw [calls, Heap.getElem?_alloc] at found'
      split at found'
      · cases found'
        exact Or.inl rfl
      · exact old call' found' same
    · rw [calls, Heap.getElem?_modify_of found] at found'
      split at found'
      · rename_i isCaller
        cases found'
        rw [← isCaller] at found
        have sameID : call.requestID = first.requestID := (requestID_proceed moved).symm.trans same
        exact inv.proceed returned isStored later alive inTime sameID (old call found sameID) moved
      · exact old call' found' same
    · rw [calls] at found'
      exact old call' found' same

theorem Pinned.of_run {expiration maxEntries start : Int} {ls : List PinningLabel}
    (run : Run PinningState.step (fun s l => s.DeletesDead l ∧ s.Regular l)
      (.init expiration ttl maxEntries start) ls s) : Pinned ttl s :=
  run.invariant (.init expiration ttl maxEntries start) fun _ _ _ inv ok taken =>
    inv.step ok.1 ok.2 taken

end

/-- Any durations, and any run without evictions in which no mapping is deleted while it leads
to a keypair. If a call for a request ID has returned `kp`, then every call for the request ID
that is started afterwards, and that succeeds while `kp` is alive and before the lifetime of
the mapping has passed, returns `kp`. -/
theorem request_key_pinned (expiration ttl maxEntries start : Int) (ls ls' : List PinningLabel)
    (s s' : PinningState)
    (before : Run PinningState.step (fun s l => s.DeletesDead l ∧ s.Regular l)
      (.init expiration ttl maxEntries start) ls s)
    (after : Run PinningState.step (fun s l => s.DeletesDead l ∧ s.Regular l) s ls' s')
    (a b : Nat) (first later : KeyRequest) (kp kp' : BoxKeypair) (storedAt : Int)
    (isFirst : s.calls[a]? = some first) (returned : first.pc = .done (.ok kp))
    (mapping : first.storedAt = some storedAt)
    (started : s.calls.length ≤ b) (isLater : s'.calls[b]? = some later)
    (sameID : later.requestID = first.requestID) (returned' : later.pc = .done (.ok kp'))
    (alive : kp.Alive s'.clock) (inTime : s'.clock ≤ storedAt + ttl) : kp' = kp := by
  have initially : Follows ttl storedAt a s.calls.length first kp s := by
    refine ⟨.of_run before, isFirst, fun b call isNew found => ?_⟩
    exact absurd (Heap.lt_of_getElem? found) (Nat.not_lt.mpr isNew)
  have follows : Follows ttl storedAt a s.calls.length first kp s' :=
    after.invariant initially fun _ _ _ inv ok taken =>
      inv.step returned mapping ok.1 ok.2 taken
  have at_ := follows.later b later started isLater sameID alive inTime
  rw [returned'] at at_
  rcases at_ with at_ | at_ | at_
  · cases at_
  · cases at_
  · cases at_
    rfl

namespace Sample

def pinningLabel (now : Int) (action : PinningAction) : PinningLabel := ⟨now, action⟩

/-- Keypairs live for 10, mappings for 100. -/
def pinning : PinningState := .init 10 100 0 0

def keypair (n : UInt8) (createdAt : Int) : BoxKeypair := ⟨key n, key n, 10, createdAt⟩

def rotation (now : Int) (n : UInt8) : PinningLabel :=
  pinningLabel now (.rotate now (key n) (key n))

/-- A call for the sample request is started as number `id` and makes some accesses. -/
def requesting (now : Int) (id accesses : Nat) : List PinningLabel :=
  pinningLabel now (.start request.requestID) ::
    List.replicate accesses (pinningLabel now (.proceed id))

/-- The first call stores a mapping, and a rotation with its sweep follows. -/
def firstRequest : List PinningLabel :=
  [rotation 0 1] ++ requesting 0 0 5 ++ [rotation 6 2] ++
    List.replicate 4 (pinningLabel 6 .sweep)

/-- The keypair has expired. Two calls find it missing, the second of them deletes the mapping,
and a third stores a new one. -/
def secondMapping : List PinningLabel :=
  firstRequest ++ requesting 11 1 2 ++ requesting 11 2 3 ++ requesting 11 3 6

/-- The first of the two gets to delete the mapping, too. After a rotation there is another
call. -/
def lateDeletion : List PinningLabel :=
  [pinningLabel 11 (.proceed 1), rotation 12 3] ++ requesting 12 4 7

/-- Call `a` in `s` and call `b` in `s'` have returned keypairs for the sample request. -/
def Returned (a b : Nat) (kp kp' : BoxKeypair) (storedAt storedAt' : Int) (s s' : PinningState) :
    Prop :=
  s.calls[a]? = some ⟨request.requestID, .done (.ok kp), some storedAt⟩ ∧ s.calls.length ≤ b ∧
    s'.calls[b]? = some ⟨request.requestID, .done (.ok kp'), some storedAt'⟩

instance (a b : Nat) (kp kp' : BoxKeypair) (storedAt storedAt' : Int) (s s' : PinningState) :
    Decidable (Returned a b kp kp' storedAt storedAt' s s') :=
  inferInstanceAs (Decidable (_ ∧ _ ∧ _))

end Sample

section

open Sample

/-- A call after a rotation returns the keypair of the first. -/
theorem request_key_pinned_rotation :
    ∃ s s', Run PinningState.step (fun s l => s.DeletesDead l ∧ s.Regular l) pinning
        firstRequest s ∧
      Run PinningState.step (fun s l => s.DeletesDead l ∧ s.Regular l) s (requesting 7 1 2) s' ∧
      Returned 0 1 (keypair 1 0) (keypair 1 0) 0 0 s s' ∧ (keypair 1 0).Alive s'.clock := by
  have found : ∃ s, Run PinningState.step (fun s l => s.DeletesDead l ∧ s.Regular l) pinning
      firstRequest s ∧ ((exec PinningState.step (fun s l => s.DeletesDead l ∧ s.Regular l) s
        (requesting 7 1 2)).any fun s' =>
          decide (Returned 0 1 (keypair 1 0) (keypair 1 0) 0 0 s s' ∧ s'.clock = 7)) = true :=
    Run.exists_of_exec (by decide +kernel)
  obtain ⟨s, before, found⟩ := found
  obtain ⟨s', after, returned, clock⟩ := Run.exists_of_exec found
  obtain ⟨isFirst, started, isLater⟩ := returned
  have alive : (keypair 1 0).Alive s'.clock := by
    rw [clock]
    decide
  have same := request_key_pinned 10 100 0 0 _ _ s s' before after 0 1 _ _ _ _ _ isFirst rfl rfl
    started isLater rfl rfl alive (by rw [clock]; decide)
  exact ⟨s, s', before, after, ⟨isFirst, started, same ▸ isLater⟩, alive⟩

/-- The deletion comes after a new mapping has been stored, and a rotation later another keypair
is returned, although the first is alive and the lifetime of its mapping has not passed. -/
theorem request_key_changes :
    ∃ s s', Run PinningState.step PinningState.Regular pinning secondMapping s ∧
      Run PinningState.step PinningState.Regular s lateDeletion s' ∧
      Returned 3 4 (keypair 2 6) (keypair 3 12) 11 12 s s' ∧
      (keypair 2 6).Alive s'.clock ∧ s'.clock ≤ 11 + 100 ∧ keypair 3 12 ≠ keypair 2 6 := by
  have found : ∃ s, Run PinningState.step PinningState.Regular pinning secondMapping s ∧
      ((exec PinningState.step PinningState.Regular s lateDeletion).any fun s' =>
        decide (Returned 3 4 (keypair 2 6) (keypair 3 12) 11 12 s s' ∧
          (keypair 2 6).Alive s'.clock ∧ s'.clock ≤ 11 + 100)) = true :=
    Run.exists_of_exec (by decide +kernel)
  obtain ⟨s, before, found⟩ := found
  obtain ⟨s', after, returned, alive, inTime⟩ := Run.exists_of_exec found
  exact ⟨s, s', before, after, returned, alive, inTime, by decide⟩

end

end ConfidentialCompute
